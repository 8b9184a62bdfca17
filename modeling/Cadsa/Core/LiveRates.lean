import Cadsa.Core.LiveMetrics

/-! The rates between two readings of the live metrics with no request in between. What leaves the window takes its
share of the counts, but also its share of the span that they are divided by, so that a rate may rise. -/
namespace Cadsa.LiveMetrics
open Analytics
set_option autoImplicit false

/-! ## Rates before they are rounded -/

/-- The events of a class, or all of them. -/
def counted : Option String → List LiveEvent → ℕ
  | none, events => events.length
  | some sc, events => countClass sc events

def rate (sc : Option String) (events : List LiveEvent) : ℚ := counted sc events / elapsed events

/-- The rates of the reported metrics, in their order. -/
def reported : List (Option String) := [none, some "2xx", some "3xx", some "4xx", some "5xx"]

theorem reported_rates (events : List LiveEvent) :
    [(metricsOf events).rps, (metricsOf events).rps2xx, (metricsOf events).rps3xx, (metricsOf events).rps4xx,
      (metricsOf events).rps5xx] = reported.map fun sc => roundTo 2 (rate sc events) := rfl

section
variable {events later : List LiveEvent} {now t₁ t₂ : ℚ} {before : List Call}

theorem elapsed_few (h : events.length < 2) : elapsed events = 30 := by
  rw [elapsed]
  split
  · exact if_neg (Nat.not_le.mpr h)
  · rfl

theorem half_le_elapsed (events : List LiveEvent) : 1 / 2 ≤ elapsed events := by
  rw [elapsed]
  split
  · split_ifs
    · exact le_max_right _ _
    · norm_num
  · norm_num

theorem elapsed_pos (events : List LiveEvent) : 0 < elapsed events :=
  lt_of_lt_of_le (by norm_num) (half_le_elapsed events)

theorem elapsed_many {first last : LiveEvent} (hfirst : events.head? = some first) (hlast : events.getLast? = some last)
    (h : 2 ≤ events.length) : elapsed events = max (last.t - first.t) (1 / 2) := by
  rw [elapsed, hfirst, hlast]
  exact if_pos h

/-- The span of events in the half minute is no longer than that. -/
theorem elapsed_le (h : ∀ e ∈ events, now - 30 ≤ e.t ∧ e.t ≤ now) : elapsed events ≤ 30 := by
  rw [elapsed]
  split
  · rename_i first last hfirst hlast
    split_ifs
    · have hf := h first (List.mem_of_head? hfirst)
      have hl := h last (List.mem_of_getLast? hlast)
      refine max_le ?_ (by norm_num)
      linarith [hf.1, hl.2]
    · exact le_refl 30
  · exact le_refl 30

theorem counted_sublist (sc : Option String) (h : later.Sublist events) : counted sc later ≤ counted sc events := by
  cases sc with
  | none => exact h.length_le
  | some sc => exact h.countP_le

/-! ## Two readings -/

theorem time_of_mem_eventsOf {e : LiveEvent} (h : e ∈ eventsOf before) : ∃ c ∈ before, c.now = e.t := by
  obtain ⟨c, hc, he⟩ := List.mem_filterMap.mp h
  cases c with
  | update t row =>
    cases he
    exact ⟨_, hc, rfl⟩
  | metrics t => cases he

/-- What a reading counts lies in its half minute. -/
theorem reading_bounds (h : InOrder (before ++ [.metrics now])) :
    ∀ e ∈ windowAfter (before ++ [.metrics now]), now - 30 ≤ e.t ∧ e.t ≤ now := by
  intro e he
  rw [InOrder, List.map_append, List.pairwise_append] at h
  have hclock : ∀ c ∈ before, c.now ≤ now := fun c hc =>
    h.2.2 c.now (List.mem_map_of_mem hc) now (List.mem_singleton_self _)
  rw [windowAfter_concat] at he
  change e ∈ evict now (windowAfter before) at he
  rw [evict_windowAfter h.1 hclock, List.mem_filter, decide_eq_true_eq] at he
  obtain ⟨c, hc, ht⟩ := time_of_mem_eventsOf he.1
  refine ⟨he.2, ?_⟩
  rw [← ht]
  exact hclock c hc

/-- The events that a reading counts. -/
def firstReading (before : List Call) (t₁ : ℚ) : List LiveEvent := windowAfter (before ++ [.metrics t₁])

def secondReading (before : List Call) (t₁ t₂ : ℚ) : List LiveEvent :=
  windowAfter (before ++ [.metrics t₁, .metrics t₂])

/-- What leaves the window between the readings. -/
def evicted (before : List Call) (t₁ t₂ : ℚ) : List LiveEvent :=
  (firstReading before t₁).takeWhile fun e => e.t < t₂ - 30

theorem readings_split (before : List Call) (t₁ t₂ : ℚ) :
    before ++ [.metrics t₁, .metrics t₂] = (before ++ [.metrics t₁]) ++ [.metrics t₂] := by
  rw [List.append_assoc]
  rfl

theorem evicted_append (before : List Call) (t₁ t₂ : ℚ) :
    evicted before t₁ t₂ ++ secondReading before t₁ t₂ = firstReading before t₁ := by
  have hsecond : secondReading before t₁ t₂ = (firstReading before t₁).dropWhile fun e => e.t < t₂ - 30 := by
    rw [secondReading, readings_split, windowAfter_concat]
    rfl
  rw [hsecond]
  exact List.takeWhile_append_dropWhile

theorem counted_append (sc : Option String) (events later : List LiveEvent) :
    counted sc (events ++ later) = counted sc events + counted sc later := by
  cases sc with
  | none => exact List.length_append
  | some sc => exact List.countP_append

theorem rate_le_iff (sc : Option String) (events later : List LiveEvent) :
    rate sc later ≤ rate sc events ↔ counted sc later * elapsed events ≤ counted sc events * elapsed later := by
  rw [rate, rate, div_le_div_iff₀ (elapsed_pos later) (elapsed_pos events)]

theorem rate_few (sc : Option String) (hsub : later.Sublist events) (hfew : later.length < 2)
    (hle : elapsed events ≤ 30) : rate sc later ≤ rate sc events := by
  rw [rate_le_iff, elapsed_few hfew]
  have hcount : (counted sc later : ℚ) ≤ counted sc events := by exact_mod_cast counted_sublist sc hsub
  have hpos := elapsed_pos events
  calc (counted sc later : ℚ) * elapsed events
    _ ≤ counted sc events * elapsed events := mul_le_mul_of_nonneg_right hcount hpos.le
    _ ≤ counted sc events * 30 := mul_le_mul_of_nonneg_left hle (Nat.cast_nonneg _)

/-- The span is half a second at least, and the half minute at most. -/
theorem rate_le_sixty (sc : Option String) (hsub : later.Sublist events) (hle : elapsed events ≤ 30) :
    rate sc later ≤ 60 * rate sc events := by
  have hcount : (counted sc later : ℚ) ≤ counted sc events := by exact_mod_cast counted_sublist sc hsub
  have hhalf := half_le_elapsed later
  rw [rate, rate, mul_div_assoc', div_le_div_iff₀ (elapsed_pos later) (elapsed_pos events)]
  calc (counted sc later : ℚ) * elapsed events
    _ ≤ counted sc events * 30 := mul_le_mul hcount hle (elapsed_pos events).le (Nat.cast_nonneg _)
    _ = 60 * counted sc events * (1 / 2) := by ring
    _ ≤ 60 * counted sc events * elapsed later := mul_le_mul_of_nonneg_left hhalf (by positivity)

/-! ## What has left the window -/

/-- No event that is gone is more than half a second older than one that is left. -/
def Close (gone left : List LiveEvent) : Prop := ∀ e ∈ gone, ∀ l ∈ left, l.t ≤ e.t + 1 / 2

section
variable {gone left : List LiveEvent}

/-- The first and the last event of those that are left, and the first of all. -/
theorem ends_append (hord : (gone ++ left).Pairwise fun x y => x.t ≤ y.t) (hgone : gone ≠ []) (hleft : 2 ≤ left.length) :
    ∃ g ∈ gone, ∃ f ∈ left, ∃ l ∈ left, elapsed (gone ++ left) = max (l.t - g.t) (1 / 2) ∧
      elapsed left = max (l.t - f.t) (1 / 2) ∧ (∀ e ∈ gone, g.t ≤ e.t) ∧ ∀ e ∈ left, e.t ≤ l.t := by
  cases gone with
  | nil => exact absurd rfl hgone
  | cons g gone =>
    cases left with
    | nil => cases hleft
    | cons f left =>
      obtain ⟨l, hl⟩ := Option.isSome_iff_exists.mp (List.getLast?_isSome.mpr (List.cons_ne_nil f left))
      have hlast : (g :: gone ++ f :: left).getLast? = some l := by
        rw [List.getLast?_append, hl]
        rfl
      have hlong : 2 ≤ (g :: gone ++ f :: left).length := by
        rw [List.length_append]
        omega
      refine ⟨g, List.mem_cons_self, f, List.mem_cons_self, l, List.mem_of_getLast? hl, elapsed_many rfl hlast hlong,
        elapsed_many rfl hl hleft, fun e he => ?_, fun e he => ?_⟩
      · rcases List.mem_cons.mp he with rfl | hrest
        · exact le_refl _
        · exact List.rel_of_pairwise_cons hord (List.mem_append_left _ hrest)
      · obtain ⟨front, hfront⟩ := List.getLast?_eq_some_iff.mp hl
        have hsorted := (List.pairwise_append.mp hord).2.1
        rw [hfront] at he hsorted
        rcases List.mem_append.mp he with hin | hend
        · exact (List.pairwise_append.mp hsorted).2.2 e hin l (List.mem_singleton_self l)
        · rw [List.mem_singleton.mp hend]

theorem elapsed_close (hord : (gone ++ left).Pairwise fun x y => x.t ≤ y.t) (hleft : 2 ≤ left.length)
    (hclose : Close gone left) : elapsed (gone ++ left) ≤ elapsed left := by
  by_cases hgone : gone = []
  · rw [hgone]
    exact le_refl _
  · obtain ⟨g, hg, f, hf, l, hl, hall, hkept, -, -⟩ := ends_append hord hgone hleft
    rw [hall]
    refine max_le ?_ (half_le_elapsed left)
    have hnear := hclose g hg l hl
    have hhalf := half_le_elapsed left
    linarith

/-- Otherwise the span has become shorter. -/
theorem elapsed_shorter (hord : (gone ++ left).Pairwise fun x y => x.t ≤ y.t)
    (hbefore : ∀ e ∈ gone, ∀ l ∈ left, e.t < l.t) (hleft : 2 ≤ left.length) (hclose : ¬Close gone left) :
    elapsed left < elapsed (gone ++ left) := by
  simp only [Close, not_forall, not_le] at hclose
  obtain ⟨e, he, l', hl', hfar⟩ := hclose
  obtain ⟨g, hg, f, hf, l, -, hall, hkept, hfirst, hlast⟩ := ends_append hord (List.ne_nil_of_mem he) hleft
  have hspan : 1 / 2 < l.t - g.t := by
    have hge := hfirst e he
    have hle := hlast l' hl'
    linarith
  rw [hall, hkept, max_eq_left hspan.le]
  refine max_lt ?_ hspan
  have hgf := hbefore g hg f hf
  linarith

end

theorem reading_pairwise (h : InOrder (before ++ [.metrics now])) :
    (windowAfter (before ++ [.metrics now])).Pairwise fun x y => x.t ≤ y.t := by
  rw [InOrder, List.map_append, List.pairwise_append] at h
  have hclock : ∀ c ∈ before, c.now ≤ now := fun c hc =>
    h.2.2 c.now (List.mem_map_of_mem hc) now (List.mem_singleton_self _)
  rw [windowAfter_concat]
  change (evict now (windowAfter before)).Pairwise _
  rw [evict_windowAfter h.1 hclock]
  exact (eventsOf_pairwise h.1).filter _

theorem evicted_before (h : InOrder (before ++ [.metrics t₁, .metrics t₂])) :
    ∀ e ∈ evicted before t₁ t₂, ∀ l ∈ secondReading before t₁ t₂, e.t < l.t := by
  intro e he l hl
  rw [evicted] at he
  have hout := List.mem_takeWhile_imp he
  have hgone : e.t < t₂ - 30 := of_decide_eq_true hout
  rw [secondReading, readings_split] at hl
  rw [readings_split] at h
  exact hgone.trans_le (reading_bounds h l hl).1

/-- **Between two readings without a request** the counts do not rise, and no rate rises but where two events or more are
left and the span of the events has lost more than what half a second hides. There a rate that has lost none of its
events, and has some, does rise; and none rises to more than sixty times what it was. -/
theorem quiet_readings (h : InOrder (before ++ [.metrics t₁, .metrics t₂])) : ∀ sc ∈ reported,
    counted sc (secondReading before t₁ t₂) ≤ counted sc (firstReading before t₁) ∧
    rate sc (secondReading before t₁ t₂) ≤ 60 * rate sc (firstReading before t₁) ∧
    ((secondReading before t₁ t₂).length < 2 ∨ Close (evicted before t₁ t₂) (secondReading before t₁ t₂) →
      rate sc (secondReading before t₁ t₂) ≤ rate sc (firstReading before t₁)) ∧
    (2 ≤ (secondReading before t₁ t₂).length → ¬Close (evicted before t₁ t₂) (secondReading before t₁ t₂) →
      counted sc (evicted before t₁ t₂) = 0 → counted sc (secondReading before t₁ t₂) ≠ 0 →
        rate sc (firstReading before t₁) < rate sc (secondReading before t₁ t₂)) := by
  intro sc _
  have hle : elapsed (firstReading before t₁) ≤ 30 := elapsed_le (reading_bounds (inOrder_until h))
  have hord : (firstReading before t₁).Pairwise fun x y => x.t ≤ y.t := reading_pairwise (inOrder_until h)
  have hbefore := evicted_before h
  rw [← evicted_append before t₁ t₂] at hord hle ⊢
  have hsub : (secondReading before t₁ t₂).Sublist (evicted before t₁ t₂ ++ secondReading before t₁ t₂) :=
    List.sublist_append_right _ _
  refine ⟨counted_sublist sc hsub, rate_le_sixty sc hsub hle, ?_, ?_⟩
  · intro hcase
    by_cases hfew : (secondReading before t₁ t₂).length < 2
    · exact rate_few sc hsub hfew hle
    · have hclose := hcase.resolve_left hfew
      have hcount : (counted sc (secondReading before t₁ t₂) : ℚ) ≤
          counted sc (evicted before t₁ t₂ ++ secondReading before t₁ t₂) := by exact_mod_cast counted_sublist sc hsub
      rw [rate_le_iff]
      exact mul_le_mul hcount (elapsed_close hord (not_lt.mp hfew) hclose) (elapsed_pos _).le (Nat.cast_nonneg _)
  · intro hmany hfar hnone hsome
    have hcount : counted sc (evicted before t₁ t₂ ++ secondReading before t₁ t₂) =
        counted sc (secondReading before t₁ t₂) := by rw [counted_append, hnone, Nat.zero_add]
    have hpos : (0 : ℚ) < counted sc (secondReading before t₁ t₂) := by exact_mod_cast Nat.pos_of_ne_zero hsome
    rw [rate, rate, hcount]
    exact div_lt_div_of_pos_left hpos (elapsed_pos _) (elapsed_shorter hord hbefore hmany hfar)

end

/-- Of four requests the first two are evicted, within half a second of the last: no rate rises. -/
theorem quiet_second_falls :
    let before : List Call := [.update 0 loginRequest, .update (1 / 10) loginRequest, .update (3 / 10) loginRequest,
      .update (2 / 5) loginRequest]
    InOrder (before ++ [.metrics 1, .metrics (302 / 10)]) ∧ (evicted before 1 (302 / 10)).length = 2 ∧
      ∀ sc ∈ reported, rate sc (secondReading before 1 (302 / 10)) ≤ rate sc (firstReading before 1) := by
  intro before
  have hord : InOrder (before ++ [.metrics 1, .metrics (302 / 10)]) := by
    rw [InOrder]
    decide +kernel
  have hclose : Close (evicted before 1 (302 / 10)) (secondReading before 1 (302 / 10)) := by
    rw [Close]
    decide +kernel
  exact ⟨hord, by decide +kernel, fun sc hsc => (quiet_readings hord sc hsc).2.2.1 (.inr hclose)⟩

/-- Three requests, the last two close together: once the first has left the window, the rate is that of a burst. -/
theorem burst_left_rises : ¬ ∀ (before : List Call) (t₁ t₂ : ℚ), InOrder (before ++ [.metrics t₁, .metrics t₂]) →
    ∀ sc ∈ reported, rate sc (secondReading before t₁ t₂) ≤ rate sc (firstReading before t₁) := by
  intro h
  have hord : InOrder ([.update 0 loginRequest, .update 20 loginRequest, .update (201 / 10) loginRequest] ++
      [.metrics 21, .metrics 31]) := by
    rw [InOrder]
    decide +kernel
  have hrate := h _ _ _ hord none List.mem_cons_self
  exact absurd hrate (by decide +kernel)

end Cadsa.LiveMetrics
