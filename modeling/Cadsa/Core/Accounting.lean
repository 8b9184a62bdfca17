import Mathlib.Tactic.Common
import Cadsa.Core.Ingestion
import Cadsa.Lib.Outcomes

/-! Where an access line ends up. A line whose time is missing or zero is dropped; a user agent that
is a list passes the parser and raises in the enrichment; what a column cannot take is rejected by
the insert, which only logs it. Every other line is in one of the two tables. -/
namespace Cadsa.Ingestion
open PyJson PyText Outcomes LogParser
set_option autoImplicit false

/-- One new row, in one of the two tables. -/
def Accounted (t t' : Tables) : Prop :=
  (∃ row, t' = { t with requests := t.requests ++ [row] }) ∨ ∃ err, t' = { t with parseErrors := t.parseErrors ++ [err] }

/-- The line is a JSON object with the message of an access log. -/
structure AccessLine (py : Python) (rawLine : String) (m : List (String × Json)) : Prop where
  line : strip rawLine.toList ≠ []
  entry : py.loads (String.ofList (strip rawLine.toList)) = .ok (.obj m)
  msg : getMember m "msg" = .str "handled request"

/-! ## What the members have to be -/

def IsText (j : Json) : Prop := ∃ s, j = .str s

/-- Falsy, text or a list: what may be sliced. -/
def Sliceable (j : Json) : Prop := j.truthy = true → IsText j ∨ ∃ items, j = .arr items

/-- What `int` converts. -/
def Converts (py : Python) (j : Json) : Prop := j = .null ∨ ∃ n, pyInt py j = .ok n

/-- No time: `ts` and `time` are falsy, and `timestamp` is missing or null. -/
def Timeless (m : List (String × Json)) : Prop :=
  (getMember m "ts").truthy = false ∧ (getMember m "time").truthy = false ∧ getMember m "timestamp" = .null

/-- The logger is text, a list without a dot among its elements, or an empty dict. -/
def LoggerReadable (m : List (String × Json)) : Prop :=
  match loggerName m with
  | .str _ => True
  | .arr items => items.any (Json.isStr ".") = false
  | .obj members => members = []
  | _ => False

/-- The request names its host, or its `Host` header can be read and, where it is blank, so can the
name of its logger. -/
def HostReadable (py : Python) (m : List (String × Json)) : Prop :=
  nonblank py (deepGet (.obj m) ["request", "host"]) = true ∨
    nonblank py (deepGet (.obj m) ["request", "tls", "server_name"]) = true ∨
    headerGiven (getHeader py (.obj m) "Host") = .ok true ∨
    headerGiven (getHeader py (.obj m) "Host") = .ok false ∧ ((loggerName m).truthy = true → IsText (loggerName m))

/-- Nothing in the line makes the parser raise. -/
structure Readable (py : Python) (m : List (String × Json)) : Prop where
  time : ∃ seconds ts, pyFloat py (tsRaw m) = .ok seconds ∧ py.fromTimestamp seconds = .ok ts
  logger : LoggerReadable m
  host : HostReadable py m
  method : (methodRaw m).truthy = true → IsText (methodRaw m)
  proto : Sliceable (protoRaw m)
  status : Converts py (statusRaw m)
  responseBytes : Converts py (responseBytesRaw m)
  requestBytes : Converts py (requestBytesRaw m)
  duration : durationRaw m = .null ∨
    ∃ seconds n, pyFloat py (durationRaw m) = .ok seconds ∧ py.intOfFloat (py.timesThousand seconds) = .ok n
  userAgent : Sliceable (userAgentRaw py m)
  referer : Sliceable (refererRaw py m)

/-- No list where the database stores text, or one that it stores. -/
def StoredText (e : Machine) (n : ℕ) (j : Json) : Prop :=
  ∀ items, j = .arr items → items ≠ [] → e.stores (.arr (items.take n)) = true

/-- Nothing that the parser reads is refused after it. -/
structure Storable (e : Machine) (m : List (String × Json)) : Prop where
  userAgent : ∀ items, userAgentRaw e.py m = .arr items → items = []
  status : ∀ v, optInt e.py (statusRaw m) = .ok v → inWidth 16 v = true
  responseBytes : ∀ v, optInt e.py (responseBytesRaw m) = .ok v → inWidth 64 v = true
  requestBytes : ∀ v, optInt e.py (requestBytesRaw m) = .ok v → inWidth 64 v = true
  duration : ∀ v, durationMs e.py (durationRaw m) = .ok v → inWidth 32 v = true
  proto : StoredText e 10 (protoRaw m)
  referer : StoredText e 512 (refererRaw e.py m)
  loggerId : StoredText e 20 (loggerName m)
  loggerName : StoredText e 64 (loggerName m)

/-! ## The readers -/

section
variable (py : Python)

theorem optInt_succeeds (j : Json) : Succeeds (optInt py j) ↔ Converts py j := by
  cases j with
  | null => exact iff_of_true ⟨none, rfl⟩ (.inl rfl)
  | bool | int | float | str | arr | obj =>
    refine succeeds_map.trans ⟨.inr, fun h => ?_⟩
    rcases h with h | h
    · cases h
    · exact h

theorem durationMs_succeeds (j : Json) : Succeeds (durationMs py j) ↔ j = .null ∨
    ∃ seconds n, pyFloat py j = .ok seconds ∧ py.intOfFloat (py.timesThousand seconds) = .ok n := by
  cases j with
  | null => exact iff_of_true ⟨none, rfl⟩ (.inl rfl)
  | bool | int | float | str | arr | obj =>
    refine succeeds_bind.trans ⟨?_, ?_⟩
    · rintro ⟨seconds, hs, hn⟩
      obtain ⟨n, hn⟩ := succeeds_map.mp hn
      exact .inr ⟨seconds, n, hs, hn⟩
    · rintro (h | ⟨seconds, n, hs, hn⟩)
      · cases h
      · exact ⟨seconds, hs, succeeds_map.mpr ⟨n, hn⟩⟩

theorem upperMethod_succeeds (j : Json) : Succeeds (upperMethod py j) ↔ (j.truthy = true → IsText j) := by
  unfold upperMethod
  by_cases ht : j.truthy = true
  · rw [if_pos ht]
    cases j with
    | str s => exact iff_of_true ⟨_, rfl⟩ fun _ => ⟨s, rfl⟩
    | null | bool | int | float | arr | obj =>
      refine iff_of_false (fun ⟨_, h⟩ => by cases h) fun h => ?_
      obtain ⟨s, hs⟩ := h ht
      cases hs
  · rw [if_neg ht]
    exact iff_of_true ⟨_, rfl⟩ fun h => absurd h ht

end

theorem slice_succeeds (n : ℕ) (j : Json) : Succeeds (slice n j) ↔ Sliceable j := by
  unfold slice Sliceable
  by_cases ht : j.truthy = true
  · rw [if_pos ht]
    cases j with
    | str s => exact iff_of_true ⟨_, rfl⟩ fun _ => .inl ⟨s, rfl⟩
    | arr items => exact iff_of_true ⟨_, rfl⟩ fun _ => .inr ⟨items, rfl⟩
    | null | bool | int | float | obj =>
      refine iff_of_false (fun ⟨_, h⟩ => by cases h) fun h => ?_
      rcases h ht with ⟨s, hs⟩ | ⟨items, hs⟩
      · cases hs
      · cases hs
  · rw [if_neg ht]
    exact iff_of_true ⟨_, rfl⟩ fun h => absurd h ht

/-! ## The logger and the host -/

section
variable {m : List (String × Json)}

theorem sliceable_of_text {j : Json} (h : IsText j) : Sliceable j := fun _ => .inl h

/-- The id of a readable logger is text where the logger is, and the logger itself otherwise. -/
theorem loggerId_readable (h : LoggerReadable m) : ∃ id, loggerId (loggerName m) = .ok id ∧
    (IsText id ∧ IsText (loggerName m) ∨ id = loggerName m ∧ Sliceable id) := by
  unfold LoggerReadable at h
  generalize loggerName m = logger at h ⊢
  cases logger with
  | str s =>
    unfold loggerId
    simp only [Json.contains]
    cases decide (".".toList <:+: s.toList) with
    | true => exact ⟨_, rfl, .inl ⟨⟨_, rfl⟩, s, rfl⟩⟩
    | false => exact ⟨_, rfl, .inl ⟨⟨s, rfl⟩, s, rfl⟩⟩
  | arr items =>
    unfold loggerId
    simp only [Json.contains, h]
    exact ⟨_, rfl, .inr ⟨rfl, fun _ => .inr ⟨items, rfl⟩⟩⟩
  | obj members =>
    subst h
    exact ⟨_, rfl, .inr ⟨rfl, fun ht => by cases ht⟩⟩
  | null | bool | int | float => exact h.elim

theorem loggerReadable_of_succeeds {id : Json} (h : loggerId (loggerName m) = .ok id) (hs : Sliceable (loggerName m)) :
    LoggerReadable m := by
  unfold LoggerReadable
  generalize loggerName m = logger at h hs ⊢
  cases logger with
  | str s => trivial
  | arr items =>
    unfold loggerId at h
    simp only [Json.contains] at h
    cases hdot : items.any (Json.isStr ".") with
    | true =>
      rw [hdot] at h
      cases h
    | false => exact hdot
  | obj members =>
    cases members with
    | nil => rfl
    | cons member members =>
      rcases hs rfl with ⟨s, hs⟩ | ⟨items, hs⟩
      · cases hs
      · cases hs
  | null | bool | int | float => cases h

theorem fallbackHost_succeeds (hosts : List (String × List String)) (label : String) (id : Json) :
    Succeeds (fallbackHost hosts label id) ↔ (id.truthy = true → IsText id) := by
  unfold fallbackHost
  by_cases ht : id.truthy = true
  · simp only [if_pos ht]
    cases id with
    | str s => exact iff_of_true ⟨_, rfl⟩ fun _ => ⟨s, rfl⟩
    | null | bool | int | float | arr | obj =>
      refine iff_of_false (fun ⟨_, h⟩ => by cases h) fun h => ?_
      obtain ⟨s, hs⟩ := h ht
      cases hs
  · simp only [if_neg ht]
    exact iff_of_true ⟨_, rfl⟩ fun h => absurd h ht

theorem resolveHost_succeeds (py : Python) (hosts : List (String × List String)) (label : String)
    (hl : LoggerReadable m) : Succeeds (resolveHost py hosts label m) ↔ HostReadable py m := by
  obtain ⟨id, hid, hcases⟩ := loggerId_readable hl
  have hsame : (id.truthy = true → IsText id) ↔ ((loggerName m).truthy = true → IsText (loggerName m)) := by
    rcases hcases with ⟨hit, hlt⟩ | ⟨rfl, -⟩
    · exact iff_of_true (fun _ => hit) fun _ => hlt
    · exact Iff.rfl
  unfold resolveHost HostReadable
  dsimp only
  split
  · exact iff_of_true ⟨_, rfl⟩ (.inl ‹_›)
  · split
    · exact iff_of_true ⟨_, rfl⟩ (.inr (.inl ‹_›))
    · rename_i hh hs
      cases hg : headerGiven (getHeader py (.obj m) "Host") with
      | error err =>
        refine iff_of_false (fun h => ?_) fun h => ?_
        · obtain ⟨given, hgiven, -⟩ := succeeds_bind.mp h
          cases hgiven
        · rcases h with h | h | h | ⟨h, -⟩
          · exact hh h
          · exact hs h
          · cases h
          · cases h
      | ok given =>
        cases given with
        | true => exact iff_of_true ⟨_, rfl⟩ (.inr (.inr (.inl rfl)))
        | false =>
          have hfall : Succeeds (loggerId (loggerName m) >>= fallbackHost hosts label) ↔
              ((loggerName m).truthy = true → IsText (loggerName m)) := by
            rw [hid, ← hsame]
            exact fallbackHost_succeeds hosts label id
          refine Iff.trans (b := Succeeds (loggerId (loggerName m) >>= fallbackHost hosts label)) Iff.rfl ?_
          rw [hfall]
          constructor
          · exact fun h => .inr (.inr (.inr ⟨rfl, h⟩))
          · rintro (h | h | h | ⟨-, h⟩)
            · exact absurd h hh
            · exact absurd h hs
            · cases h
            · exact h

end

/-! ## The parser -/

section
variable (py : Python) (m : List (String × Json)) (hosts : List (String × List String)) (label source : String)

theorem parseEntry_succeeds : Succeeds (parseEntry py m hosts label source) ↔ Readable py m := by
  simp only [parseEntry, succeeds_bind]
  constructor
  · rintro ⟨seconds, hseconds, ts, hts, id, hid, host, hhost, status, hstatus, rb, hrb, qb, hqb, ms, hms, method, hmethod,
      proto, hproto, agent, hagent, referer, hreferer, lid, hlid, logger, hlogger, -⟩
    have hl : LoggerReadable m := loggerReadable_of_succeeds hid ((slice_succeeds 64 _).mp ⟨_, hlogger⟩)
    exact {
      time := ⟨seconds, ts, hseconds, hts⟩
      logger := hl
      host := (resolveHost_succeeds py hosts label hl).mp ⟨host, hhost⟩
      method := (upperMethod_succeeds py _).mp ⟨method, hmethod⟩
      proto := (slice_succeeds 10 _).mp ⟨proto, hproto⟩
      status := (optInt_succeeds py _).mp ⟨status, hstatus⟩
      responseBytes := (optInt_succeeds py _).mp ⟨rb, hrb⟩
      requestBytes := (optInt_succeeds py _).mp ⟨qb, hqb⟩
      duration := (durationMs_succeeds py _).mp ⟨ms, hms⟩
      userAgent := (slice_succeeds 512 _).mp ⟨agent, hagent⟩
      referer := (slice_succeeds 512 _).mp ⟨referer, hreferer⟩ }
  · intro h
    obtain ⟨seconds, ts, hseconds, hts⟩ := h.time
    obtain ⟨id, hid, hcases⟩ := loggerId_readable h.logger
    obtain ⟨host, hhost⟩ := (resolveHost_succeeds py hosts label h.logger).mpr h.host
    obtain ⟨status, hstatus⟩ := (optInt_succeeds py _).mpr h.status
    obtain ⟨rb, hrb⟩ := (optInt_succeeds py _).mpr h.responseBytes
    obtain ⟨qb, hqb⟩ := (optInt_succeeds py _).mpr h.requestBytes
    obtain ⟨ms, hms⟩ := (durationMs_succeeds py _).mpr h.duration
    obtain ⟨method, hmethod⟩ := (upperMethod_succeeds py _).mpr h.method
    obtain ⟨proto, hproto⟩ := (slice_succeeds 10 _).mpr h.proto
    obtain ⟨agent, hagent⟩ := (slice_succeeds 512 _).mpr h.userAgent
    obtain ⟨referer, hreferer⟩ := (slice_succeeds 512 _).mpr h.referer
    have hsid : Sliceable id ∧ Sliceable (loggerName m) := by
      rcases hcases with ⟨hit, hlt⟩ | ⟨rfl, hs⟩
      · exact ⟨sliceable_of_text hit, sliceable_of_text hlt⟩
      · exact ⟨hs, hs⟩
    obtain ⟨lid, hlid⟩ := (slice_succeeds 20 id).mpr hsid.1
    obtain ⟨logger, hlogger⟩ := (slice_succeeds 64 (loggerName m)).mpr hsid.2
    exact ⟨seconds, hseconds, ts, hts, id, hid, host, hhost, status, hstatus, rb, hrb, qb, hqb, ms, hms, method, hmethod,
      proto, hproto, agent, hagent, referer, hreferer, lid, hlid, logger, hlogger, _, rfl⟩

/-- The columns that the insert checks, as the parser fills them. -/
structure Columns (row : Row) : Prop where
  status : optInt py (statusRaw m) = .ok row.status
  responseBytes : optInt py (responseBytesRaw m) = .ok row.responseBytes
  requestBytes : optInt py (requestBytesRaw m) = .ok row.requestBytes
  duration : durationMs py (durationRaw m) = .ok row.durationMs
  proto : slice 10 (protoRaw m) = .ok row.protocol
  httpProto : row.httpProto = row.protocol
  userAgent : slice 512 (userAgentRaw py m) = .ok row.userAgent
  referer : slice 512 (refererRaw py m) = .ok row.referer
  loggerId : ∃ id, loggerId (loggerName m) = .ok id ∧ slice 20 id = .ok row.loggerId
  loggerName : slice 64 (loggerName m) = .ok row.loggerName
  asn : row.asn = none

theorem parseEntry_columns {row : Row} (h : parseEntry py m hosts label source = .ok row) : Columns py m row := by
  simp only [parseEntry, bind_eq_ok] at h
  obtain ⟨seconds, -, ts, -, id, hid, host, -, status, hstatus, rb, hrb, qb, hqb, ms, hms, method, -, proto, hproto,
    agent, hagent, referer, hreferer, lid, hlid, logger, hlogger, hrow⟩ := h
  cases hrow
  exact ⟨hstatus, hrb, hqb, hms, hproto, rfl, hagent, hreferer, ⟨id, hid, hlid⟩, hlogger, rfl⟩

end

/-! ## The enrichment -/

/-- What the insert checks and the enrichment leaves alone. -/
def checkedColumns (row : Row) :=
  (row.status, row.responseBytes, row.requestBytes, row.durationMs, row.asn, row.protocol, row.userAgent, row.referer,
    row.httpProto, row.loggerId, row.loggerName)

theorem enrichGeoip_userAgent (e : Machine) (row : Row) : (enrichGeoip e row).userAgent = row.userAgent := by
  have hagent := congrArg Row.userAgent (enrichGeoip_unenriched e row)
  exact hagent

theorem scoreThreat_fits {e : Machine} {row row' : Row} (h : scoreThreat e row = .ok row') :
    inWidth 16 row'.threatScore = true := by
  have hscore (a b c : Prop) [Decidable a] [Decidable b] [Decidable c] :
      inWidth 16 (some (min ((if a then 40 else 0) + (if b then 15 else 0) + if c then 5 else 0) 100)) = true := by
    split <;> split <;> split <;> rfl
  unfold scoreThreat at h
  dsimp only at h
  split at h
  · split at h
    · cases h
      exact hscore ..
    · cases h
  · cases h
    exact hscore ..

theorem enrich_checked {e : Machine} {row row' : Row} (h : enrich e row = .ok row') :
    checkedColumns row' = checkedColumns row ∧ inWidth 16 row'.threatScore = true := by
  obtain ⟨mid, -, hscore⟩ := bind_eq_ok.mp h
  have hchecked := congrArg checkedColumns (enrich_unenriched h)
  exact ⟨hchecked, scoreThreat_fits hscore⟩

/-- Whether a value is what the pattern search takes. -/
theorem enrichUa_succeeds (e : Machine) (row : Row) :
    Succeeds (enrichUa e row) ↔
      ((row.userAgent.getD .null).truthy = true → IsText (row.userAgent.getD .null)) := by
  unfold enrichUa
  dsimp only
  generalize row.userAgent.getD .null = ua
  by_cases ht : ua.truthy = true
  · rw [if_pos ht]
    cases ua with
    | str s =>
      refine iff_of_true ?_ fun _ => ⟨s, rfl⟩
      dsimp only
      split <;> exact ⟨_, rfl⟩
    | null | bool | int | float | arr | obj =>
      refine iff_of_false (fun ⟨_, h⟩ => by cases h) fun h => ?_
      obtain ⟨s, hs⟩ := h ht
      cases hs
  · rw [if_neg ht]
    exact iff_of_true ⟨_, rfl⟩ fun h => absurd h ht

theorem scoreThreat_succeeds (e : Machine) (row : Row)
    (h : (row.userAgent.getD .null).truthy = true → IsText (row.userAgent.getD .null)) :
    Succeeds (scoreThreat e row) := by
  unfold scoreThreat
  dsimp only
  split
  · rename_i ht
    obtain ⟨s, hs⟩ := h ht
    rw [hs]
    exact ⟨_, rfl⟩
  · exact ⟨_, rfl⟩

theorem enrich_succeeds (e : Machine) (row : Row) :
    Succeeds (enrich e row) ↔ ((row.userAgent.getD .null).truthy = true → IsText (row.userAgent.getD .null)) := by
  rw [enrich, succeeds_bind]
  constructor
  · rintro ⟨mid, hmid, -⟩
    have hs := (enrichUa_succeeds e (enrichGeoip e row)).mp ⟨mid, hmid⟩
    rwa [enrichGeoip_userAgent] at hs
  · intro h
    obtain ⟨mid, hmid⟩ := (enrichUa_succeeds e (enrichGeoip e row)).mpr (by rwa [enrichGeoip_userAgent])
    have hagent : mid.userAgent = row.userAgent := by
      have hagent := congrArg Row.userAgent (enrichUa_unenriched hmid)
      exact hagent.trans (enrichGeoip_userAgent e row)
    exact ⟨mid, hmid, scoreThreat_succeeds e mid (by rwa [hagent])⟩

/-! ## The insert -/

theorem slice_cases {n : ℕ} {j : Json} {v : Option Json} (h : slice n j = .ok v) :
    (v = none ∧ j.truthy = false) ∨ (∃ s t, j = .str s ∧ v = some (.str t)) ∨
      ∃ items, j = .arr items ∧ items ≠ [] ∧ v = some (.arr (items.take n)) := by
  unfold slice at h
  split at h
  · rename_i ht
    cases j with
    | str s =>
      cases h
      exact .inr (.inl ⟨s, _, rfl, rfl⟩)
    | arr items =>
      cases h
      refine .inr (.inr ⟨items, rfl, fun hnil => ?_, rfl⟩)
      subst hnil
      cases ht
    | null | bool | int | float | obj => cases h
  · rename_i ht
    cases h
    exact .inl ⟨rfl, Bool.eq_false_iff.mpr ht⟩

theorem textColumn_slice {e : Machine} {n : ℕ} {j : Json} {v : Option Json} (h : slice n j = .ok v) :
    textColumn e.stores v = true ↔ StoredText e n j := by
  rcases slice_cases h with ⟨rfl, ht⟩ | ⟨s, t, rfl, rfl⟩ | ⟨items, rfl, hne, rfl⟩
  · refine iff_of_true rfl fun items hj hne => ?_
    subst hj
    cases items with
    | nil => exact absurd rfl hne
    | cons item items => cases ht
  · exact iff_of_true rfl fun items hj => by cases hj
  · constructor
    · intro hs items' hj _
      cases hj
      exact hs
    · exact fun hs => hs items rfl hne

/-- The pattern search and the slice agree on what a user agent is. -/
theorem agent_slice {n : ℕ} (hn : 0 < n) {j : Json} {v : Option Json} (h : slice n j = .ok v) :
    ((v.getD .null).truthy = true → IsText (v.getD .null)) ↔ ∀ items, j = .arr items → items = [] := by
  rcases slice_cases h with ⟨rfl, ht⟩ | ⟨s, t, rfl, rfl⟩ | ⟨items, rfl, hne, rfl⟩
  · refine iff_of_true (fun ht => by cases ht) fun items hj => ?_
    subst hj
    cases items with
    | nil => rfl
    | cons item items => cases ht
  · exact iff_of_true (fun _ => ⟨t, rfl⟩) fun items hj => by cases hj
  · refine iff_of_false (fun htext => ?_) fun hnil => hne (hnil items rfl)
    obtain ⟨item, items, rfl⟩ := List.exists_cons_of_ne_nil hne
    obtain ⟨k, rfl⟩ := Nat.exists_eq_succ_of_ne_zero (Nat.ne_of_gt hn)
    obtain ⟨s, hs⟩ := htext rfl
    cases hs

theorem width_of_read {j : Json} {v : Option ℤ} {bits : ℕ} {read : Json → Except PyError (Option ℤ)}
    (h : read j = .ok v) : (∀ w, read j = .ok w → inWidth bits w = true) ↔ inWidth bits v = true := by
  constructor
  · exact fun hw => hw v h
  · intro hv w hw
    cases h.symm.trans hw
    exact hv

section
variable {e : Machine} {m : List (String × Json)} {row row' : Row}

theorem loggerId_stored (hl : LoggerReadable m) (hc : Columns e.py m row) :
    textColumn e.stores row.loggerId = true ↔ StoredText e 20 (loggerName m) := by
  obtain ⟨id, hid, hslice⟩ := hc.loggerId
  obtain ⟨id', hid', hcases⟩ := loggerId_readable hl
  cases hid.symm.trans hid'
  rw [textColumn_slice hslice]
  rcases hcases with ⟨⟨s, rfl⟩, t, ht⟩ | ⟨rfl, -⟩
  · rw [ht]
    exact iff_of_true (fun items hj => by cases hj) fun items hj => by cases hj
  · exact Iff.rfl

/-- The enriched row fits its columns. -/
theorem fits_iff (hl : LoggerReadable m) (hc : Columns e.py m row)
    (hagent : ∀ items, userAgentRaw e.py m = .arr items → items = [])
    (hsame : checkedColumns row' = checkedColumns row) (hthreat : inWidth 16 row'.threatScore = true) :
    fits e.stores row' = true ↔ Storable e m := by
  simp only [checkedColumns, Prod.mk.injEq] at hsame
  obtain ⟨h1, h2, h3, h4, h5, h6, h7, h8, h9, h10, h11⟩ := hsame
  have htext : textColumn e.stores row.userAgent = true := by
    rw [textColumn_slice hc.userAgent]
    exact fun items hj hne => absurd (hagent items hj) hne
  have hasn : inWidth 32 row.asn = true := by
    rw [hc.asn]
    rfl
  simp only [fits, h1, h2, h3, h4, h5, h6, h7, h8, h9, h10, h11, hthreat, htext, hasn, hc.httpProto, Bool.and_eq_true,
    and_true]
  constructor
  · rintro ⟨⟨⟨⟨⟨⟨⟨⟨hstatus, hrb⟩, hqb⟩, hms⟩, hproto⟩, hreferer⟩, -⟩, hlid⟩, hlogger⟩
    exact {
      userAgent := hagent
      status := (width_of_read hc.status).mpr hstatus
      responseBytes := (width_of_read hc.responseBytes).mpr hrb
      requestBytes := (width_of_read hc.requestBytes).mpr hqb
      duration := (width_of_read hc.duration).mpr hms
      proto := (textColumn_slice hc.proto).mp hproto
      referer := (textColumn_slice hc.referer).mp hreferer
      loggerId := (loggerId_stored hl hc).mp hlid
      loggerName := (textColumn_slice hc.loggerName).mp hlogger }
  · intro hs
    have hstatus := (width_of_read hc.status).mp hs.status
    have hrb := (width_of_read hc.responseBytes).mp hs.responseBytes
    have hqb := (width_of_read hc.requestBytes).mp hs.requestBytes
    have hms := (width_of_read hc.duration).mp hs.duration
    have hproto := (textColumn_slice hc.proto).mpr hs.proto
    have hreferer := (textColumn_slice hc.referer).mpr hs.referer
    have hlid := (loggerId_stored hl hc).mpr hs.loggerId
    have hlogger := (textColumn_slice hc.loggerName).mpr hs.loggerName
    exact ⟨⟨⟨⟨⟨⟨⟨⟨hstatus, hrb⟩, hqb⟩, hms⟩, hproto⟩, hreferer⟩, hproto⟩, hlid⟩, hlogger⟩

end

/-! ## The pipeline -/

theorem not_accounted_self (t : Tables) : ¬ Accounted t t := by
  rintro (⟨row, h⟩ | ⟨err, h⟩)
  · have := congrArg (·.requests.length) h
    simp at this
  · have := congrArg (·.parseErrors.length) h
    simp at this

theorem tsRaw_eq_null (m : List (String × Json)) : tsRaw m = .null ↔ Timeless m := by
  unfold tsRaw Timeless Json.or
  cases hts : (getMember m "ts").truthy with
  | true =>
    simp only [if_true, hts, Bool.true_eq_false, false_and, iff_false]
    intro hn
    rw [hn] at hts
    cases hts
  | false =>
    simp only [Bool.false_eq_true, if_false, true_and]
    cases htime : (getMember m "time").truthy with
    | true =>
      simp only [if_true, Bool.true_eq_false, false_and, iff_false]
      intro hn
      rw [hn] at htime
      cases htime
    | false => simp

section
variable (e : Machine) {rawLine : String} (source : String) (t : Tables)

theorem ingest_raised {err : PyError}
    (h : parseLine e.py rawLine e.loggerToHosts ((e.sourceLabels.lookup source).getD "") source = .error err) :
    Accounted t (ingestLineAsync e rawLine source t).2 := by
  unfold ingestLineAsync processLine
  simp only [h]
  exact .inr ⟨_, rfl⟩

theorem ingest_skipped
    (h : parseLine e.py rawLine e.loggerToHosts ((e.sourceLabels.lookup source).getD "") source = .ok none) :
    ¬ Accounted t (ingestLineAsync e rawLine source t).2 := by
  unfold ingestLineAsync processLine
  simp only [h]
  exact not_accounted_self t

/-- A parsed line is accounted for when the enrichment returns and the insert takes the row. -/
theorem ingest_parsed {row : Row}
    (h : parseLine e.py rawLine e.loggerToHosts ((e.sourceLabels.lookup source).getD "") source = .ok (some row)) :
    Accounted t (ingestLineAsync e rawLine source t).2 ↔
      ∃ row', enrich e row = .ok row' ∧ fits e.stores row' = true := by
  unfold ingestLineAsync processLine
  simp only [h]
  cases hrow : enrich e row with
  | error err =>
    refine iff_of_false (not_accounted_self t) ?_
    rintro ⟨row', hrow', -⟩
    cases hrow'
  | ok row' =>
    change Accounted t ((insertRequest e row' t).getD t) ↔ _
    unfold insertRequest
    by_cases hf : fits e.stores row' = true
    · rw [if_pos hf]
      exact iff_of_true (.inl ⟨row', rfl⟩) ⟨row', rfl, hf⟩
    · rw [if_neg hf]
      refine iff_of_false (not_accounted_self t) ?_
      rintro ⟨row'', hrow'', hf'⟩
      cases hrow''
      exact hf hf'

end

section
variable {py : Python} {rawLine : String} {m : List (String × Json)} (hosts : List (String × List String))
  (label source : String)

theorem parseLine_entry (h : AccessLine py rawLine m) :
    parseLine py rawLine hosts label source = match tsRaw m with
      | .null => .ok none
      | _ => some <$> parseEntry py m hosts label source := by
  have hmsg : (getMember m "msg").isStr "handled request" = true := by
    rw [h.msg]
    simp [Json.isStr]
  unfold parseLine
  simp only [if_neg h.line, h.entry]
  change (if (getMember m "msg").isStr "handled request" = true then _ else _) = _
  rw [if_pos hmsg]
  rfl

theorem parseLine_timeless (h : AccessLine py rawLine m) (hts : tsRaw m = .null) :
    parseLine py rawLine hosts label source = .ok none := by
  rw [parseLine_entry hosts label source h, hts]

theorem parseLine_timed (h : AccessLine py rawLine m) (hts : tsRaw m ≠ .null) :
    parseLine py rawLine hosts label source = some <$> parseEntry py m hosts label source := by
  rw [parseLine_entry hosts label source h]
  split
  · exact absurd ‹_› hts
  · rfl

end

/-- **Where an access line ends up.** An access line leaves exactly one row behind if and only if it
has a time and, as far as the parser can read it, every value can be stored. -/
theorem accounted_iff (e : Machine) (rawLine source : String) (t : Tables) (m : List (String × Json))
    (hline : AccessLine e.py rawLine m) :
    Accounted t (ingestLineAsync e rawLine source t).2 ↔ ¬ Timeless m ∧ (Readable e.py m → Storable e m) := by
  by_cases hts : tsRaw m = .null
  · have hskip := parseLine_timeless e.loggerToHosts ((e.sourceLabels.lookup source).getD "") source hline hts
    exact iff_of_false (ingest_skipped e source t hskip) fun h => h.1 ((tsRaw_eq_null m).mp hts)
  have htimed : ¬ Timeless m := fun h => hts ((tsRaw_eq_null m).mpr h)
  have hparse := parseLine_timed e.loggerToHosts ((e.sourceLabels.lookup source).getD "") source hline hts
  have hread := parseEntry_succeeds e.py m e.loggerToHosts ((e.sourceLabels.lookup source).getD "") source
  cases hentry : parseEntry e.py m e.loggerToHosts ((e.sourceLabels.lookup source).getD "") source with
  | error err =>
    rw [hentry] at hparse hread
    refine iff_of_true (ingest_raised e source t hparse) ⟨htimed, fun hr => ?_⟩
    obtain ⟨row, hrow⟩ := hread.mpr hr
    cases hrow
  | ok row =>
    have hr : Readable e.py m := hread.mp ⟨row, hentry⟩
    have hc := parseEntry_columns e.py m _ _ _ hentry
    rw [hentry] at hparse
    rw [ingest_parsed e source t hparse]
    have hagent := agent_slice (by decide) hc.userAgent
    constructor
    · rintro ⟨row', hrow', hf⟩
      obtain ⟨hsame, hthreat⟩ := enrich_checked hrow'
      have hlist := hagent.mp ((enrich_succeeds e row).mp ⟨row', hrow'⟩)
      exact ⟨htimed, fun _ => (fits_iff hr.logger hc hlist hsame hthreat).mp hf⟩
    · rintro ⟨-, hs⟩
      have hlist := (hs hr).userAgent
      obtain ⟨row', hrow'⟩ := (enrich_succeeds e row).mpr (hagent.mpr hlist)
      obtain ⟨hsame, hthreat⟩ := enrich_checked hrow'
      exact ⟨row', hrow', (fits_iff hr.logger hc hlist hsame hthreat).mpr (hs hr)⟩

/-! ## Lines at work -/

/-- The library where only one line is read, and no number of it but a status and the first second. -/
def libraryOn (line : String) (m : List (String × Json)) : Python :=
  { asciiLibrary with
    loads := fun s => if s = line then .ok (.obj m) else .error .valueError
    fromTimestamp := fun s => if s = "1.0" then .ok 1000000 else .error .overflowError }

def machineOn (line : String) (m : List (String × Json)) : Machine where
  py := libraryOn line m
  geoip := none
  parseAgent _ := .error .attributeError
  stores _ := false
  errorText _ := ""
  loggerToHosts := []
  sourceLabels := []

def goodLine : String := "\x7b\"msg\":\"handled request\",\"ts\":1,\"status\":200\x7d"

def goodEntry : List (String × Json) := [("msg", .str "handled request"), ("ts", .int 1), ("status", .int 200)]

def zeroLine : String := "\x7b\"msg\":\"handled request\",\"ts\":0\x7d"

def zeroEntry : List (String × Json) := [("msg", .str "handled request"), ("ts", .int 0)]

def wideLine : String := "\x7b\"msg\":\"handled request\",\"ts\":1,\"status\":100000\x7d"

def wideEntry : List (String × Json) := [("msg", .str "handled request"), ("ts", .int 1), ("status", .int 100000)]

def agentLine : String :=
  "\x7b\"msg\":\"handled request\",\"ts\":1,\"request\":\x7b\"headers\":\x7b\"User-Agent\":[[\"curl\"]]\x7d\x7d\x7d"

def agentEntry : List (String × Json) :=
  [("msg", .str "handled request"), ("ts", .int 1),
    ("request", .obj [("headers", .obj [("User-Agent", .arr [.arr [.str "curl"]])])])]

theorem accounted_good :
    Accounted ⟨[], []⟩ (ingestLineAsync (machineOn goodLine goodEntry) goodLine "" ⟨[], []⟩).2 := by
  have hline : AccessLine (libraryOn goodLine goodEntry) goodLine goodEntry := ⟨by decide, rfl, rfl⟩
  refine (accounted_iff (machineOn goodLine goodEntry) goodLine "" ⟨[], []⟩ goodEntry hline).mpr ⟨?_, fun _ => ?_⟩
  · intro h
    cases h.1
  · exact {
      userAgent := fun items hj => by cases hj
      status := fun v hv => by cases hv; rfl
      responseBytes := fun v hv => by cases hv; rfl
      requestBytes := fun v hv => by cases hv; rfl
      duration := fun v hv => by cases hv; rfl
      proto := fun items hj => by cases hj
      referer := fun items hj => by cases hj
      loggerId := fun items hj => by cases hj
      loggerName := fun items hj => by cases hj }

/-- The time is falsy, the status too wide for its column, the user agent a list. -/
theorem access_lines_lost :
    (AccessLine (libraryOn zeroLine zeroEntry) zeroLine zeroEntry ∧
      ¬ Accounted ⟨[], []⟩ (ingestLineAsync (machineOn zeroLine zeroEntry) zeroLine "" ⟨[], []⟩).2) ∧
    (AccessLine (libraryOn wideLine wideEntry) wideLine wideEntry ∧
      ¬ Accounted ⟨[], []⟩ (ingestLineAsync (machineOn wideLine wideEntry) wideLine "" ⟨[], []⟩).2) ∧
    AccessLine (libraryOn agentLine agentEntry) agentLine agentEntry ∧
      ¬ Accounted ⟨[], []⟩ (ingestLineAsync (machineOn agentLine agentEntry) agentLine "" ⟨[], []⟩).2 :=
  ⟨⟨⟨by decide, rfl, rfl⟩, not_accounted_self ⟨[], []⟩⟩, ⟨⟨by decide, rfl, rfl⟩, not_accounted_self ⟨[], []⟩⟩,
    ⟨by decide, rfl, rfl⟩, not_accounted_self ⟨[], []⟩⟩

end Cadsa.Ingestion
