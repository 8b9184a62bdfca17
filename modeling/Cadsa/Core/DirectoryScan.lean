import Mathlib.Data.Finset.Image
import Cadsa.Core.Detection

/-! The directory-scan rule against the paths of the last hour. The set of an address carries no times: it holds the
paths since a cleanup last found that the address had made no request for an hour. -/
namespace Cadsa.SecurityEngine
set_option autoImplicit false

variable (t : Text)

/-- The path of the call, if it is a missing one that the address asked for from `cutoff` on. -/
def Call.missing (ip : String) (cutoff : ℤ) : Call → Option String
  | .evaluate _ row now => if row.remoteIp = ip ∧ row.is404 ∧ cutoff ≤ now then some (row.lowerPath t) else none
  | .cleanup _ => none

def missingSince (ip : String) (cutoff : ℤ) (calls : List Call) : Finset String :=
  (calls.filterMap (Call.missing t ip cutoff)).toFinset

/-- The path of the call, if it is a missing one that the address asked for. -/
def Call.missing404 (ip : String) : Call → Option String
  | .evaluate _ row _ => if row.remoteIp = ip ∧ row.is404 then some (row.lowerPath t) else none
  | .cleanup _ => none

/-- A cleanup that finds no request of the address in the hour before it. -/
def Call.idles (ip : String) (earlier : List Call) : Call → Bool
  | .evaluate .. => false
  | .cleanup now => countSince (ofIp ip) (now - seconds 3600) earlier = 0

/-- The calls since the last such cleanup. Here the latest call comes first. -/
def sinceIdle (ip : String) : List Call → List Call
  | [] => []
  | c :: earlier => if c.idles ip earlier then [] else c :: sinceIdle ip earlier

/-- The missing paths that an address has asked for since a cleanup last found it idle. -/
def missingSinceIdle (ip : String) (calls : List Call) : Finset String :=
  ((sinceIdle ip calls.reverse).filterMap (Call.missing404 t ip)).toFinset

/-- `port_scan_attempt` says that there were `n` paths, where these are more than fifty. -/
def ReportsScan (n : ℕ) (events : List Event) : Prop :=
  Reports .portScanAttempt "unique_404_paths" (fun k => 50 < k) n events

section
variable {t} {ip : String} {cutoff clock now : ℤ} {cfg : SecurityConfig} {row : Row} {calls : List Call} {s : State}

theorem mem_missingSince_concat {path : String} {c : Call} : path ∈ missingSince t ip cutoff (calls ++ [c]) ↔
    path ∈ missingSince t ip cutoff calls ∨ c.missing t ip cutoff = some path := by
  simp only [missingSince, List.mem_toFinset, List.mem_filterMap, List.mem_append, List.mem_singleton, or_and_right,
    exists_or, exists_eq_left]

theorem missing_eq_some {path : String} : Call.missing t ip cutoff (.evaluate cfg row now) = some path ↔
    (row.remoteIp = ip ∧ row.is404 = true ∧ cutoff ≤ now) ∧ row.lowerPath t = path := by
  simp [Call.missing]

theorem Call.missing_anti {cutoff' : ℤ} {path : String} {c : Call} (h : cutoff ≤ cutoff')
    (hm : c.missing t ip cutoff' = some path) : c.missing t ip cutoff = some path := by
  cases c with
  | evaluate cfg row now =>
    rw [missing_eq_some] at hm ⊢
    exact ⟨⟨hm.1.1, hm.1.2.1, h.trans hm.1.2.2⟩, hm.2⟩
  | cleanup now => cases hm

theorem missingSince_anti {cutoff' : ℤ} (h : cutoff ≤ cutoff') :
    missingSince t ip cutoff' calls ⊆ missingSince t ip cutoff calls := by
  intro path hp
  obtain ⟨c, hc, hm⟩ := List.mem_filterMap.mp (List.mem_toFinset.mp hp)
  exact List.mem_toFinset.mpr (List.mem_filterMap.mpr ⟨c, hc, Call.missing_anti h hm⟩)

/-- Nothing that was asked for within the hour has been dropped. -/
def Keeps (t : Text) (clock : ℤ) (calls : List Call) (s : State) : Prop :=
  ∀ ip, missingSince t ip (clock - seconds 3600) calls ⊆ (s.ip404Paths ip).getD ∅

theorem Keeps.mono (h : Keeps t clock calls s) (hle : clock ≤ now) : Keeps t now calls s := fun ip =>
  (missingSince_anti (by omega)).trans (h ip)

theorem Keeps.evaluate (h : Keeps t now calls s) : Keeps t now (calls ++ [.evaluate cfg row now]) (track t now row s) := by
  intro ip path hp
  rw [track_ip404Paths]
  rcases mem_missingSince_concat.mp hp with hold | hnew
  · have hin := h ip hold
    split_ifs
    · by_cases hip : ip = row.remoteIp
      · subst hip
        rw [Function.update_self, Option.getD_some]
        exact Finset.mem_insert_of_mem hin
      · rwa [Function.update_of_ne hip]
    · exact hin
  · obtain ⟨⟨rfl, h404, -⟩, rfl⟩ := missing_eq_some.mp hnew
    rw [if_pos h404, Function.update_self, Option.getD_some]
    exact Finset.mem_insert_self ..

theorem Keeps.cleanup (h : Keeps t now calls s) (hr : Reflects t now calls s) (hord : InOrder calls) :
    Keeps t now (calls ++ [.cleanup now]) (cleanupStaleIpData now s) := by
  intro ip path hp
  have hold : path ∈ missingSince t ip (now - seconds 3600) calls := by
    rcases mem_missingSince_concat.mp hp with hold | hnew
    · exact hold
    · cases hnew
  by_cases hstale : s.stale now ip = true
  · obtain ⟨c, hc, hm⟩ := List.mem_filterMap.mp (List.mem_toFinset.mp hold)
    cases c with
    | cleanup now => cases hm
    | evaluate cfg row u =>
      obtain ⟨⟨hip, -, hu⟩, -⟩ := missing_eq_some.mp hm
      have hmem : u ∈ timesOf (ofIp ip) calls := List.mem_filterMap.mpr ⟨_, hc, if_pos (decide_eq_true hip)⟩
      have hlt := lt_of_stale hr hord hstale u hmem
      omega
  · simp only [cleanupStaleIpData, hstale]
    exact h ip hold

theorem keeps_after (hord : InOrder calls) (hclock : ∀ c ∈ calls, c.now ≤ clock) :
    Keeps t clock calls (after t calls) := by
  induction calls using List.reverseRecOn generalizing clock with
  | nil => exact fun ip => Finset.empty_subset _
  | append_singleton calls c ih =>
    obtain ⟨horder, hlast⟩ := hord.of_concat
    have hbefore := ih horder hlast
    have hreflects := reflects_after (t := t) horder hlast
    refine Keeps.mono ?_ (hclock c (by simp))
    rw [after_concat]
    cases c with
    | evaluate cfg row now => exact hbefore.evaluate
    | cleanup now => exact hbefore.cleanup hreflects horder

/-! ## What is held against an address -/

theorem missingSinceIdle_evaluate : missingSinceIdle t ip (calls ++ [.evaluate cfg row now]) =
    if row.remoteIp = ip ∧ row.is404 then insert (row.lowerPath t) (missingSinceIdle t ip calls)
    else missingSinceIdle t ip calls := by
  rw [missingSinceIdle, List.reverse_concat, sinceIdle, if_neg (by simp [Call.idles])]
  by_cases h : row.remoteIp = ip ∧ row.is404 = true
  · rw [List.filterMap_cons_some (show Call.missing404 t ip (.evaluate cfg row now) = _ from if_pos h), if_pos h,
      List.toFinset_cons]
    rfl
  · rw [List.filterMap_cons_none (show Call.missing404 t ip (.evaluate cfg row now) = _ from if_neg h), if_neg h]
    rfl

theorem idles_iff : Call.idles ip calls.reverse (.cleanup now) = true ↔
    ∀ u ∈ timesOf (ofIp ip) calls, u < now - seconds 3600 := by
  simp only [Call.idles, countSince, timesOf, List.filterMap_reverse, List.countP_reverse, decide_eq_true_eq,
    List.countP_eq_zero, not_le]

theorem missingSinceIdle_cleanup : missingSinceIdle t ip (calls ++ [.cleanup now]) =
    if Call.idles ip calls.reverse (.cleanup now) then ∅ else missingSinceIdle t ip calls := by
  rw [missingSinceIdle, List.reverse_concat, sinceIdle]
  split_ifs
  · rfl
  · rfl

/-- An address that has been idle is dropped, if there is something of it. -/
theorem stale_of_idle (hr : Reflects t now calls s) (hidle : ∀ u ∈ timesOf (ofIp ip) calls, u < now - seconds 3600)
    (hsome : (s.ipReqWindow ip).isSome) : s.stale now ip = true := by
  obtain ⟨cutoff, -, hw⟩ := hr.requests ip
  obtain ⟨window, hwindow⟩ := Option.isSome_iff_exists.mp hsome
  rw [hwindow, Option.getD_some] at hw
  rw [State.stale, hwindow, Option.any_some, isStale, Option.all_eq_true]
  intro last hlast
  have hheld : last ∈ Window.held 1000 cutoff (timesOf (ofIp ip) calls) := hw ▸ List.mem_of_getLast? hlast
  have htimes := List.mem_of_mem_filter ((Window.rtake_suffix _ _).subset hheld)
  exact decide_eq_true (hidle last htimes)

/-- The set of an address holds the missing paths since it was last found idle. -/
theorem ip404Paths_after (hord : InOrder calls) (ip : String) :
    ((after t calls).ip404Paths ip).getD ∅ = missingSinceIdle t ip calls := by
  induction calls using List.reverseRecOn with
  | nil => rfl
  | append_singleton calls c ih =>
    obtain ⟨horder, hlast⟩ := hord.of_concat
    have hbefore := ih horder
    rw [after_concat]
    cases c with
    | evaluate cfg row now =>
      change ((track t now row (after t calls)).ip404Paths ip).getD ∅ = _
      rw [missingSinceIdle_evaluate, track_ip404Paths, ← hbefore]
      by_cases h404 : row.is404 = true
      · by_cases hip : row.remoteIp = ip
        · subst hip
          rw [if_pos h404, if_pos ⟨rfl, h404⟩, Function.update_self, Option.getD_some]
        · rw [if_pos h404, if_neg fun h => hip h.1, Function.update_of_ne (Ne.symm hip)]
      · rw [if_neg h404, if_neg fun h => h404 h.2]
    | cleanup now =>
      have hreflects := reflects_after (t := t) horder hlast
      rw [missingSinceIdle_cleanup]
      by_cases hidle : Call.idles ip calls.reverse (.cleanup now) = true
      · rw [if_pos hidle]
        by_cases hstale : (after t calls).stale now ip = true
        · simp [step, cleanupStaleIpData, hstale]
        · have hwindow : ¬((after t calls).ipReqWindow ip).isSome := fun hsome =>
            hstale (stale_of_idle hreflects (idles_iff.mp hidle) hsome)
          have hpaths : ¬((after t calls).ip404Paths ip).isSome := fun hsome =>
            hwindow (noOrphans_after calls ip (.inl hsome))
          simp [step, cleanupStaleIpData, hstale, Option.not_isSome_iff_eq_none.mp hpaths]
      · have hstale : ¬(after t calls).stale now ip = true := fun h =>
          hidle (idles_iff.mpr (lt_of_stale hreflects horder h))
        rw [if_neg hidle, ← hbefore]
        simp [step, cleanupStaleIpData, hstale]

theorem missingSinceIdle_subset (h : ∀ c ∈ calls, cutoff ≤ c.now) :
    missingSinceIdle t ip calls ⊆ missingSince t ip cutoff calls := by
  have hsub : ∀ calls, sinceIdle ip calls ⊆ calls := by
    intro calls
    induction calls with
    | nil => exact List.Subset.refl _
    | cons c earlier ih =>
      rw [sinceIdle]
      split_ifs
      · exact List.nil_subset _
      · exact List.cons_subset_cons c ih
  intro path hpath
  obtain ⟨c, hc, hm⟩ := List.mem_filterMap.mp (List.mem_toFinset.mp hpath)
  have hmem : c ∈ calls := List.mem_reverse.mp (hsub _ hc)
  refine List.mem_toFinset.mpr (List.mem_filterMap.mpr ⟨c, hmem, ?_⟩)
  cases c with
  | cleanup now => cases hm
  | evaluate cfg row now =>
    have hnow := h _ hmem
    rw [Call.missing404] at hm
    split_ifs at hm with hasked
    exact missing_eq_some.mpr ⟨⟨hasked.1, hasked.2, hnow⟩, Option.some.inj hm⟩

/-! ## The rule -/

theorem counts_paths404 (hord : InOrder calls) (h404 : row.is404 = true) :
    (counts (track t now row (after t calls)) row.remoteIp).paths404 =
      (missingSinceIdle t row.remoteIp (calls ++ [.evaluate cfg row now])).card := by
  rw [counts, track_ip404Paths, if_pos h404, Function.update_self, missingSinceIdle_evaluate, if_pos ⟨rfl, h404⟩,
    ← ip404Paths_after hord]
  rfl

/-- The rule counts what is held against the address. -/
theorem reportsScan_held (hord : InOrder calls) (h404 : row.is404 = true) :
    ReportsScan (missingSinceIdle t row.remoteIp (calls ++ [.evaluate cfg row now])).card
      (evaluate t cfg now row (after t calls)).2 := by
  have hrule (n : Counts) : findingsOf t cfg row n .portScanAttempt =
      if 50 < n.paths404 then [⟨.portScanAttempt, .high, [("unique_404_paths", .int n.paths404)]⟩] else [] := by
    simp only [findingsOf, portScanRule, h404, true_and]
  rw [← counts_paths404 hord h404]
  exact reports_of_findings rfl (hrule _)

/-- **The scan rule against the last hour**: it counts the paths since the address was last found idle, and is right where
these are too few for it, or all of the last hour. -/
theorem reportsScan_iff (hord : InOrder (calls ++ [.evaluate cfg row now])) (h404 : row.is404 = true) :
    let hour := missingSince t row.remoteIp (now - seconds 3600) (calls ++ [.evaluate cfg row now])
    let kept := missingSinceIdle t row.remoteIp (calls ++ [.evaluate cfg row now])
    ReportsScan hour.card (evaluate t cfg now row (after t calls)).2 ↔ kept.card ≤ 50 ∨ kept ⊆ hour := by
  intro hour kept
  have hkeeps : Keeps t now (calls ++ [.evaluate cfg row now]) (after t (calls ++ [.evaluate cfg row now])) := by
    rw [after_concat]
    exact (keeps_after hord.of_concat.1 hord.of_concat.2).evaluate
  have hsub : hour ⊆ kept := by
    have h := hkeeps row.remoteIp
    rwa [ip404Paths_after hord] at h
  have hcard := Finset.card_le_card hsub
  have hall : kept ⊆ hour ↔ kept.card = hour.card :=
    ⟨fun hle => by rw [hsub.antisymm hle], fun he => (Finset.eq_of_subset_of_card_le hsub he.le).ge⟩
  have hheld : ReportsScan kept.card (evaluate t cfg now row (after t calls)).2 :=
    reportsScan_held hord.of_concat.1 h404
  rw [ReportsScan, hheld.iff, hall]
  omega

end

/-! ## A slow scan -/

def scanPath (i : ℕ) : String := String.ofList ('/' :: List.replicate i 'a')

def probe (i : ℕ) : Row := { pageView with path := some (scanPath i), status := some 404 }

def scan (n : ℕ) : List Call := (List.range n).map fun i => .evaluate ⟨300, 2000⟩ (probe i) 0

theorem lowerPath_probe (i : ℕ) : (probe i).lowerPath asciiText = scanPath i := by
  have hletters : Lowercase.lowerAscii (List.replicate i 'a') = List.replicate i 'a' := by
    induction i with
    | zero => rfl
    | succ i ih => exact congrArg ('a' :: ·) ih
  simp only [Row.lowerPath, probe, Option.getD_some, asciiText, scanPath, String.toList_ofList]
  exact congrArg (fun s => String.ofList ('/' :: s)) hletters

theorem scanPath_injective : Function.Injective scanPath := by
  intro i j h
  have hlen := congrArg List.length (String.ofList_injective h)
  simpa using hlen

theorem scan_succ (n : ℕ) : scan (n + 1) = scan n ++ [.evaluate ⟨300, 2000⟩ (probe n) 0] := by
  rw [scan, List.range_succ, List.map_append]
  rfl

theorem inOrder_scan (n : ℕ) (now : ℤ) (h : 0 ≤ now) :
    InOrder (scan n ++ [.evaluate ⟨300, 2000⟩ (probe n) now]) := by
  have hzero (c : Call) (hc : c ∈ scan n) : c.now = 0 := by
    obtain ⟨i, -, rfl⟩ := List.mem_map.mp hc
    rfl
  exact (inOrder_of_same hzero).concat fun c hc => (hzero c hc).trans_le h

/-- Each probe adds its path. -/
theorem missingSinceIdle_scan (n : ℕ) (now : ℤ) :
    missingSinceIdle asciiText pageView.remoteIp (scan n ++ [.evaluate ⟨300, 2000⟩ (probe n) now]) =
      (Finset.range (n + 1)).image scanPath := by
  have h404 : ∀ i, (probe i).remoteIp = pageView.remoteIp ∧ (probe i).is404 = true := fun _ => ⟨rfl, rfl⟩
  rw [missingSinceIdle_evaluate, if_pos (h404 n), lowerPath_probe, Finset.range_add_one, Finset.image_insert]
  congr 1
  induction n with
  | zero => rfl
  | succ n ih => rw [scan_succ, missingSinceIdle_evaluate, if_pos (h404 n), lowerPath_probe, ih, Finset.range_add_one,
      Finset.image_insert]

theorem card_scan (n : ℕ) (now : ℤ) :
    (missingSinceIdle asciiText pageView.remoteIp (scan n ++ [.evaluate ⟨300, 2000⟩ (probe n) now])).card = n + 1 := by
  rw [missingSinceIdle_scan, Finset.card_image_of_injective _ scanPath_injective, Finset.card_range]

theorem reportsScan_scan (n : ℕ) {now : ℤ} (h : 0 ≤ now) :
    ReportsScan (n + 1) (evaluate asciiText ⟨300, 2000⟩ now (probe n) (after asciiText (scan n))).2 := by
  have h404 : (probe n).is404 = true := rfl
  rw [← card_scan n now]
  exact reportsScan_held (inOrder_scan n now h).of_concat.1 h404

/-- A scan at once is reported as what it is. -/
theorem reportsScan_fast :
    let hour := missingSince asciiText pageView.remoteIp (0 - seconds 3600)
      (scan 50 ++ [.evaluate ⟨300, 2000⟩ (probe 50) 0])
    50 < hour.card ∧
      ReportsScan hour.card (evaluate asciiText ⟨300, 2000⟩ 0 (probe 50) (after asciiText (scan 50))).2 := by
  intro hour
  have hrecent : ∀ c ∈ scan 50 ++ [.evaluate ⟨300, 2000⟩ (probe 50) 0], 0 - seconds 3600 ≤ c.now := by
    intro c hc
    rw [← scan_succ] at hc
    obtain ⟨i, -, rfl⟩ := List.mem_map.mp hc
    exact (by decide : 0 - seconds 3600 ≤ 0)
  have hsub : missingSinceIdle asciiText pageView.remoteIp _ ⊆ hour := missingSinceIdle_subset hrecent
  have hcard := Finset.card_le_card hsub
  rw [card_scan] at hcard
  exact ⟨hcard, (reportsScan_iff (inOrder_scan 50 0 (le_refl 0)) rfl).mpr (.inr hsub)⟩

/-- Fifty-one paths in two hours are reported as if they had been asked for in one. -/
theorem slow_scan_reported : ¬ ∀ (t : Text) (calls : List Call) (cfg : SecurityConfig) (row : Row) (now : ℤ),
    InOrder (calls ++ [.evaluate cfg row now]) → row.is404 = true →
      ReportsScan (missingSince t row.remoteIp (now - seconds 3600) (calls ++ [.evaluate cfg row now])).card
        (evaluate t cfg now row (after t calls)).2 := by
  intro h
  have hord := inOrder_scan 50 (seconds 7200) (by decide)
  have hold (c : Call) (hc : c ∈ scan 50) :
      c.missing asciiText pageView.remoteIp (seconds 7200 - seconds 3600) = none := by
    obtain ⟨i, -, rfl⟩ := List.mem_map.mp hc
    rfl
  have hhour : missingSince asciiText pageView.remoteIp (seconds 7200 - seconds 3600)
      (scan 50 ++ [.evaluate ⟨300, 2000⟩ (probe 50) (seconds 7200)]) = {(probe 50).lowerPath asciiText} := by
    rw [missingSince, List.filterMap_append, List.filterMap_eq_nil_iff.mpr hold]
    rfl
  have hclaimed := h asciiText (scan 50) ⟨300, 2000⟩ (probe 50) (seconds 7200) hord rfl
  have hheld : ReportsScan 51 (evaluate asciiText ⟨300, 2000⟩ (seconds 7200) (probe 50) (after asciiText (scan 50))).2 :=
    reportsScan_scan 50 (by decide)
  change ReportsScan (missingSince asciiText pageView.remoteIp _ _).card _ at hclaimed
  rw [hhour, Finset.card_singleton] at hclaimed
  have hfifty := hclaimed.emitted.mp (hheld.emitted.mpr (by decide))
  exact absurd hfifty (by decide)

end Cadsa.SecurityEngine
