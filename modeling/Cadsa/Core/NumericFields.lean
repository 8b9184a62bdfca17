import Mathlib.Data.Rat.Floor
import Mathlib.Tactic.Linarith
import Cadsa.Core.Accounting
import Cadsa.Core.HostResolution

/-! The numbers of an entry and those of its row. A value that is zero is told from one that is missing by a truth
test in three columns, and by a comparison with `None` in the fourth. -/
namespace Cadsa.LogParser
open Ingestion PyJson Outcomes
set_option autoImplicit false

/-- What `int` leaves of a float. -/
def truncate (q : ℚ) : ℤ := if 0 ≤ q then ⌊q⌋ else ⌈q⌉

def intField : Json → Option ℤ
  | .int n => some n
  | _ => none

/-- The value of a number; that of a float is the library's. -/
def numberValue (value : String → ℚ) : Json → Option ℚ
  | .int n => some n
  | .float r => some (value r)
  | _ => none

def IntOrAbsent (j : Json) : Prop := j = .null ∨ ∃ n, j = .int n

section
variable (py : Python) (value : String → ℚ) (m : List (String × Json))

/-- An entry with a positive time, integers and a duration that may be missing, and nothing in the older places. Its
texts are texts or missing, its time is one that a date has, and a duration is multiplied exactly. -/
structure WellTyped : Prop where
  zero : value "0.0" = 0 ∧ value "-0.0" = 0
  positive : ∃ t, numberValue value (getMember m "ts") = some t ∧ 0 < t
  dated : ∃ seconds ts, pyFloat py (getMember m "ts") = .ok seconds ∧ py.fromTimestamp seconds = .ok ts
  logger : ∃ s, loggerName m = .str s
  header : TextOrAbsent (getHeader py (.obj m) "Host")
  method : TextOrAbsent (deepGet (.obj m) ["request", "method"])
  proto : TextOrAbsent (deepGet (.obj m) ["request", "proto"])
  userAgent : TextOrAbsent (getHeader py (.obj m) "User-Agent")
  referer : TextOrAbsent (getHeader py (.obj m) "Referer")
  referrer : TextOrAbsent (getHeader py (.obj m) "Referrer")
  status : IntOrAbsent (getMember m "status")
  size : IntOrAbsent (getMember m "size")
  bytesRead : IntOrAbsent (getMember m "bytes_read")
  duration : durationRaw m = .null ∨ ∃ q, numberValue value (durationRaw m) = some q ∧
    ∃ r, pyFloat py (durationRaw m) = .ok r ∧ py.intOfFloat (py.timesThousand r) = .ok (truncate (1000 * q))
  noResponse : deepGet (.obj m) ["response", "status"] = .null ∧ deepGet (.obj m) ["response", "size"] = .null
  noBytesWritten : getMember m "bytes_written" = .null
  noRequestBytes : deepGet (.obj m) ["request", "bytes_read"] = .null

/-- Each column has the number of its field, and is empty where that is missing. -/
structure Faithful (row : Row) : Prop where
  status : row.status = intField (getMember m "status")
  responseBytes : row.responseBytes = intField (getMember m "size")
  requestBytes : row.requestBytes = intField (getMember m "bytes_read")
  duration : row.durationMs = (numberValue value (getMember m "duration")).map fun q => ⌊1000 * q⌋

/-- No integer that is zero; and a duration that is not negative, unless it is of whole milliseconds. -/
structure Kept : Prop where
  status : getMember m "status" ≠ .int 0
  size : getMember m "size" ≠ .int 0
  bytesRead : getMember m "bytes_read" ≠ .int 0
  duration : ∀ q, numberValue value (getMember m "duration") = some q → 0 ≤ q ∨ ∃ n : ℤ, 1000 * q = n

end

section
variable {py : Python} {value : String → ℚ} {m : List (String × Json)}

theorem truncate_eq_floor (q : ℚ) : truncate q = ⌊q⌋ ↔ 0 ≤ q ∨ ∃ n : ℤ, q = n := by
  rw [truncate]
  by_cases hq : 0 ≤ q
  · rw [if_pos hq]
    exact iff_of_true rfl (.inl hq)
  rw [if_neg hq, or_iff_right hq]
  constructor
  · intro h
    refine ⟨⌊q⌋, le_antisymm ?_ (Int.floor_le q)⟩
    rw [← h]
    exact Int.le_ceil q
  · rintro ⟨n, rfl⟩
    rw [Int.ceil_intCast, Int.floor_intCast]

/-! ## Values in their place -/

def nonzero (n : ℤ) : Bool := n ≠ 0

/-- An integer that may be missing, with nothing to fall back to. -/
theorem optInt_or_null {j : Json} (h : IntOrAbsent j) :
    optInt py (j.or .null) = .ok ((intField j).filter nonzero) := by
  obtain rfl | ⟨n, rfl⟩ := h
  · rfl
  · by_cases hn : n = 0
    · rw [hn]
      rfl
    · have htrue : (Json.int n).truthy = true := decide_eq_true hn
      have hkeep : nonzero n = true := decide_eq_true hn
      rw [Json.or, if_pos htrue, intField, Option.filter_some_pos hkeep]
      rfl

theorem filter_intField {j : Json} (h : IntOrAbsent j) :
    (intField j).filter nonzero = intField j ↔ j ≠ .int 0 := by
  obtain rfl | ⟨n, rfl⟩ := h
  · exact iff_of_true rfl fun h => by cases h
  · rw [intField, Ne, Json.int.injEq]
    by_cases hn : n = 0
    · rw [hn]
      exact iff_of_false (fun h => by cases h) fun h => h rfl
    · have hkeep : nonzero n = true := decide_eq_true hn
      exact iff_of_true (Option.filter_some_pos hkeep) hn

/-- What the duration's column becomes. -/
theorem durationMs_typed (h : WellTyped py value m) : durationMs py (durationRaw m) =
    .ok ((numberValue value (getMember m "duration")).map fun q => truncate (1000 * q)) := by
  change _ = Except.ok ((numberValue value (durationRaw m)).map _)
  obtain hnone | ⟨q, hq, r, hr, hms⟩ := h.duration
  · rw [hnone]
    rfl
  · have hnull : durationRaw m ≠ .null := by
      intro hnull
      rw [hnull] at hq
      cases hq
    rw [hq, durationMs, hr]
    · change some <$> py.intOfFloat (py.timesThousand r) = _
      rw [hms]
      rfl
    · exact hnull

theorem isText_or {j : Json} (h : TextOrAbsent j) : IsText (j.or (.str "")) := by
  obtain rfl | ⟨s, rfl⟩ := h
  · exact ⟨"", rfl⟩
  · rw [Json.or]
    split_ifs
    · exact ⟨s, rfl⟩
    · exact ⟨"", rfl⟩

theorem textOrAbsent_or {j j' : Json} (h : TextOrAbsent j) (h' : TextOrAbsent j') : TextOrAbsent (j.or j') := by
  rw [Json.or]
  split_ifs
  · exact h
  · exact h'

theorem truthy_positive {j : Json} (hzero : value "0.0" = 0 ∧ value "-0.0" = 0) {t : ℚ}
    (ht : numberValue value j = some t) (hpos : 0 < t) : j.truthy = true := by
  cases j with
  | int n =>
    refine decide_eq_true ?_
    rintro rfl
    rw [numberValue, Option.some.injEq] at ht
    rw [← ht, Int.cast_zero] at hpos
    exact lt_irrefl 0 hpos
  | float r =>
    rw [numberValue, Option.some.injEq] at ht
    rw [Json.truthy, Bool.and_eq_true, decide_eq_true_eq, decide_eq_true_eq]
    refine ⟨?_, ?_⟩
    · rintro rfl
      exact ne_of_gt hpos (ht.symm.trans hzero.1)
    · rintro rfl
      exact ne_of_gt hpos (ht.symm.trans hzero.2)
  | null | bool | str | arr | obj => cases ht

/-! ## Entries that are read -/

theorem tsRaw_typed (h : WellTyped py value m) : tsRaw m = getMember m "ts" ∧ tsRaw m ≠ .null := by
  obtain ⟨t, ht, hpos⟩ := h.positive
  have htrue := truthy_positive h.zero ht hpos
  have hraw : tsRaw m = getMember m "ts" := by
    rw [tsRaw, Json.or, Json.or, if_pos htrue, if_pos htrue]
  refine ⟨hraw, fun hnull => ?_⟩
  rw [hraw] at hnull
  rw [hnull] at htrue
  cases htrue

theorem statusRaw_typed (h : WellTyped py value m) : statusRaw m = (getMember m "status").or .null := by
  rw [statusRaw, h.noResponse.1]

theorem responseBytesRaw_typed (h : WellTyped py value m) : responseBytesRaw m = (getMember m "size").or .null := by
  rw [responseBytesRaw, h.noResponse.2, h.noBytesWritten]
  by_cases htrue : (getMember m "size").truthy = true
  · have hsize : (getMember m "size").or .null = getMember m "size" := if_pos htrue
    rw [hsize, hsize]
  · have hsize : (getMember m "size").or .null = .null := if_neg htrue
    rw [hsize]
    rfl

theorem requestBytesRaw_typed (h : WellTyped py value m) : requestBytesRaw m = (getMember m "bytes_read").or .null := by
  rw [requestBytesRaw, h.noRequestBytes]

theorem converts_typed {j : Json} (h : IntOrAbsent j) : Converts py (j.or .null) :=
  (optInt_succeeds py _).mp ⟨_, optInt_or_null h⟩

theorem readable_typed (h : WellTyped py value m) : Readable py m where
  time := by
    rw [(tsRaw_typed h).1]
    exact h.dated
  logger := by
    obtain ⟨s, hs⟩ := h.logger
    rw [LoggerReadable, hs]
    trivial
  host := by
    obtain ⟨s, hs⟩ := h.logger
    have hgiven := @headerGiven_text py _ h.header
    cases hblank : nonblank py (getHeader py (.obj m) "Host") with
    | true =>
      rw [hblank] at hgiven
      exact .inr (.inr (.inl hgiven))
    | false =>
      rw [hblank] at hgiven
      exact .inr (.inr (.inr ⟨hgiven, fun _ => ⟨s, hs⟩⟩))
  method := fun _ => isText_or h.method
  proto := sliceable_of_text (isText_or h.proto)
  status := by
    rw [statusRaw_typed h]
    exact converts_typed h.status
  responseBytes := by
    rw [responseBytesRaw_typed h]
    exact converts_typed h.size
  requestBytes := by
    rw [requestBytesRaw_typed h]
    exact converts_typed h.bytesRead
  duration := (durationMs_succeeds py _).mp ⟨_, durationMs_typed h⟩
  userAgent := sliceable_of_text (isText_or h.userAgent)
  referer := sliceable_of_text (isText_or (textOrAbsent_or h.referer h.referrer))

/-! ## Their rows -/

variable {rawLine : String} {hosts : List (String × List String)} {label source : String}

/-- The four columns of a row that is read. -/
theorem columns_typed (h : WellTyped py value m) {row : Row} (hrow : parseEntry py m hosts label source = .ok row) :
    row.status = (intField (getMember m "status")).filter nonzero ∧
      row.responseBytes = (intField (getMember m "size")).filter nonzero ∧
      row.requestBytes = (intField (getMember m "bytes_read")).filter nonzero ∧
      row.durationMs = (numberValue value (getMember m "duration")).map fun q => truncate (1000 * q) := by
  obtain ⟨hstatus, hresponse, hrequest, hduration, -⟩ := parseEntry_columns py m hosts label source hrow
  rw [statusRaw_typed h, optInt_or_null h.status, Except.ok.injEq] at hstatus
  rw [responseBytesRaw_typed h, optInt_or_null h.size, Except.ok.injEq] at hresponse
  rw [requestBytesRaw_typed h, optInt_or_null h.bytesRead, Except.ok.injEq] at hrequest
  rw [durationMs_typed h, Except.ok.injEq] at hduration
  exact ⟨hstatus.symm, hresponse.symm, hrequest.symm, hduration.symm⟩

theorem duration_kept_iff (j : Json) : (numberValue value j).map (fun q => truncate (1000 * q)) =
    (numberValue value j).map (fun q => ⌊1000 * q⌋) ↔
      ∀ q, numberValue value j = some q → 0 ≤ q ∨ ∃ n : ℤ, 1000 * q = n := by
  have hsign (q : ℚ) : 0 ≤ 1000 * q ↔ 0 ≤ q := mul_nonneg_iff_of_pos_left (by decide)
  cases numberValue value j with
  | none => exact iff_of_true rfl fun q hq => by cases hq
  | some q =>
    rw [Option.map_some, Option.map_some, Option.some.injEq, truncate_eq_floor, hsign]
    exact ⟨fun h q' hq' => Option.some.inj hq' ▸ h, fun h => h q rfl⟩

/-- A row comes of the entry, and has its numbers. -/
def ParsesFaithfully (py : Python) (value : String → ℚ) (m : List (String × Json)) (rawLine : String)
    (hosts : List (String × List String)) (label source : String) : Prop :=
  ∃ row, parseLine py rawLine hosts label source = .ok (some row) ∧ Faithful value m row

theorem parses_faithfully_iff (hline : AccessLine py rawLine m) (h : WellTyped py value m) :
    ParsesFaithfully py value m rawLine hosts label source ↔ Kept value m := by
  obtain ⟨row, hrow⟩ := (parseEntry_succeeds py m hosts label source).mpr (readable_typed h)
  obtain ⟨hstatus, hresponse, hrequest, hduration⟩ := columns_typed h hrow
  have hparsed : parseLine py rawLine hosts label source = .ok (some row) := by
    rw [parseLine_timed hosts label source hline (tsRaw_typed h).2, hrow]
    rfl
  have hfaithful : Faithful value m row ↔ Kept value m := by
    constructor
    · rintro ⟨h1, h2, h3, h4⟩
      exact ⟨(filter_intField h.status).mp (hstatus.symm.trans h1), (filter_intField h.size).mp (hresponse.symm.trans h2),
        (filter_intField h.bytesRead).mp (hrequest.symm.trans h3), (duration_kept_iff _).mp (hduration.symm.trans h4)⟩
    · rintro ⟨h1, h2, h3, h4⟩
      exact ⟨hstatus.trans ((filter_intField h.status).mpr h1), hresponse.trans ((filter_intField h.size).mpr h2),
        hrequest.trans ((filter_intField h.bytesRead).mpr h3), hduration.trans ((duration_kept_iff _).mpr h4)⟩
  rw [ParsesFaithfully, hparsed, ← hfaithful]
  constructor
  · rintro ⟨row', hsame, hrow'⟩
    rw [Option.some.inj (Except.ok.inj hsame)]
    exact hrow'
  · exact fun hrow' => ⟨row, rfl, hrow'⟩

end

/-! ## Entries at work -/

/-- A response that took a quarter of a second. -/
def sizedEntry (size : ℤ) : List (String × Json) :=
  [("msg", .str "handled request"), ("ts", .int 1), ("status", .int 304), ("size", .int size), ("duration", .float "0.25")]

def quarter : String → ℚ
  | "0.25" => 1 / 4
  | _ => 0

/-- The library of one line, with the one float of it. -/
def sizedLibrary (line : String) (size : ℤ) : Python :=
  { libraryOn line (sizedEntry size) with
    timesThousand := fun s => if s = "0.25" then "250.0" else s
    intOfFloat := fun s => if s = "250.0" then .ok 250 else .error .valueError }

theorem wellTyped_sized (line : String) (size : ℤ) : WellTyped (sizedLibrary line size) quarter (sizedEntry size) where
  zero := ⟨rfl, rfl⟩
  positive := ⟨1, by rfl, by decide⟩
  dated := ⟨"1.0", 1000000, rfl, rfl⟩
  logger := ⟨"", rfl⟩
  header := .inl rfl
  method := .inl rfl
  proto := .inl rfl
  userAgent := .inl rfl
  referer := .inl rfl
  referrer := .inl rfl
  status := .inr ⟨304, rfl⟩
  size := .inr ⟨size, rfl⟩
  bytesRead := .inl rfl
  duration := .inr ⟨1 / 4, rfl, "0.25", rfl, by
    have hms : truncate (1000 * (1 / 4)) = 250 := by decide +kernel
    rw [hms]
    rfl⟩
  noResponse := ⟨rfl, rfl⟩
  noBytesWritten := rfl
  noRequestBytes := rfl

def sizedLine : String :=
  "\x7b\"msg\":\"handled request\",\"ts\":1,\"status\":304,\"size\":512,\"duration\":0.25\x7d"

def emptyLine : String :=
  "\x7b\"msg\":\"handled request\",\"ts\":1,\"status\":304,\"size\":0,\"duration\":0.25\x7d"

theorem sized_parses :
    ParsesFaithfully (sizedLibrary sizedLine 512) quarter (sizedEntry 512) sizedLine [] "" "" := by
  have hline : AccessLine (sizedLibrary sizedLine 512) sizedLine (sizedEntry 512) := ⟨by decide, rfl, rfl⟩
  have hint {n : ℤ} (hn : n ≠ 0) : Json.int n ≠ .int 0 := fun h => hn (Json.int.inj h)
  refine (parses_faithfully_iff hline (wellTyped_sized sizedLine 512)).mpr ⟨hint (by decide), hint (by decide), ?_, ?_⟩
  · exact fun h => by cases h
  · intro q hq
    left
    rw [← Option.some.inj hq]
    decide +kernel

/-- A response without a body: its size is there, and zero. -/
theorem empty_body_lost : ¬ ∀ (py : Python) (value : String → ℚ) (m : List (String × Json)) (rawLine : String)
    (hosts : List (String × List String)) (label source : String), AccessLine py rawLine m → WellTyped py value m →
    ParsesFaithfully py value m rawLine hosts label source := by
  intro h
  have hline : AccessLine (sizedLibrary emptyLine 0) emptyLine (sizedEntry 0) := ⟨by decide, rfl, rfl⟩
  have hparses := h _ _ _ _ [] "" "" hline (wellTyped_sized emptyLine 0)
  exact ((parses_faithfully_iff hline (wellTyped_sized emptyLine 0)).mp hparses).size rfl

end Cadsa.LogParser
