import Mathlib.Algebra.Field.Rat
import Cadsa.Core.Accounting
import Cadsa.Core.Restart
import Cadsa.Lib.JsonText

/-! The time that the backfill reads off the bytes of a line (`_extract_ts`), against the one that the row of the
line is stored with (`parse_line`). -/
namespace Cadsa.FastTimestamp
open LogWatcher LogParser JsonText PyJson PyText Utf8
set_option autoImplicit false

def key : List Char := ['t', 's']

def chars (s : Bytes) : List Char := s.map fun b => Char.ofNat b.toNat

/-- The value of digits before and behind a point. -/
def value (digits : List Char × List Char) : ℚ :=
  Nat.ofDigitChars 10 digits.1 0 + Nat.ofDigitChars 10 digits.2 0 / 10 ^ digits.2.length

/-! ## From bytes to characters -/

theorem keyWord_key : KeyWord key := ⟨by decide, List.all_eq_true.mp rfl⟩

section
variable {s : Bytes}

theorem ascii_toNat {b : UInt8} (hb : b.toNat < 0x80) : (Char.ofNat b.toNat).toNat = b.toNat :=
  toNat_ofNat (.inl (by omega))

theorem ascii_inj {b c : UInt8} (hb : b.toNat < 0x80) (hc : c.toNat < 0x80) :
    Char.ofNat b.toNat = Char.ofNat c.toNat ↔ b = c := by
  constructor
  · intro h
    have hnat := congrArg Char.toNat h
    rw [ascii_toNat hb, ascii_toNat hc] at hnat
    exact UInt8.toNat_inj.mp hnat
  · rintro rfl
    rfl

theorem decode_cons_ascii {b : UInt8} (hb : b.toNat < 0x80) (s : Bytes) :
    decode (b :: s) = Char.ofNat b.toNat :: decode s := decode_ascii hb [] s

/-- Inside a character the text goes on with a character that is none of ASCII. -/
theorem head_of_tail {owed lo hi bits : ℕ} (h : (State.tail owed lo hi bits).Sound) (s : Bytes) :
    ∃ c t, decodeFrom (.tail owed lo hi bits) s = c :: t ∧ 0x80 ≤ c.toNat := by
  induction s generalizing owed lo hi bits with
  | nil => exact ⟨replacement, [], rfl, by decide⟩
  | cons b s ih =>
    rw [decodeFrom_cons]
    have hsound := sound_feed h b.toNat
    by_cases hin : lo ≤ b.toNat ∧ b.toNat ≤ hi
    · have hb : 0x80 ≤ b.toNat := h.1.trans hin.1
      cases owed with
      | zero =>
        have hemit := not_ascii_feed h hb
        simp only [feed, hin, and_self, if_true] at hemit ⊢
        exact ⟨_, _, rfl, hemit _ (List.mem_singleton_self _)⟩
      | succ n =>
        simp only [feed, hin, and_self, if_true] at hsound ⊢
        exact ih hsound
    · simp only [feed, hin, if_false]
      exact ⟨replacement, _, rfl, by decide⟩

theorem decode_cons_other {b : UInt8} (hb : 0x80 ≤ b.toNat) (s : Bytes) :
    ∃ c t, decode (b :: s) = c :: t ∧ 0x80 ≤ c.toNat := by
  have hemit := not_ascii_lead hb
  have hsound := sound_lead b.toNat
  rw [decode_cons]
  cases hl : lead b.toNat with
  | mk w st =>
    rw [hl] at hemit hsound
    cases w with
    | cons c w => exact ⟨c, _, rfl, hemit c List.mem_cons_self⟩
    | nil =>
      cases st with
      | start =>
        unfold lead at hl
        split_ifs at hl <;> cases hl
      | tail owed lo hi bits => exact head_of_tail hsound s

/-- Tests on bytes and on characters that hold of ASCII only, and there of the same. -/
structure Same (pb : UInt8 → Bool) (p : Char → Bool) : Prop where
  ascii : ∀ b : UInt8, b.toNat < 0x80 → p (Char.ofNat b.toNat) = pb b
  byte : ∀ b : UInt8, 0x80 ≤ b.toNat → pb b = false
  char : ∀ c : Char, 0x80 ≤ c.toNat → p c = false

theorem dropWhile_decode {pb : UInt8 → Bool} {p : Char → Bool} (h : Same pb p) (s : Bytes) :
    (decode s).dropWhile p = decode (s.dropWhile pb) := by
  induction s with
  | nil => rfl
  | cons b s ih =>
    by_cases hb : b.toNat < 0x80
    · rw [decode_cons_ascii hb, List.dropWhile_cons, List.dropWhile_cons, h.ascii b hb, ih]
      split_ifs
      · rfl
      · exact (decode_cons_ascii hb s).symm
    · have hb : 0x80 ≤ b.toNat := by omega
      obtain ⟨c, t, hd, hc⟩ := decode_cons_other hb s
      rw [List.dropWhile_cons, h.byte b hb, hd, List.dropWhile_cons, h.char c hc]
      exact hd.symm

theorem takeWhile_decode {pb : UInt8 → Bool} {p : Char → Bool} (h : Same pb p) (s : Bytes) :
    (decode s).takeWhile p = chars (s.takeWhile pb) := by
  induction s with
  | nil => rfl
  | cons b s ih =>
    by_cases hb : b.toNat < 0x80
    · rw [decode_cons_ascii hb, List.takeWhile_cons, List.takeWhile_cons, h.ascii b hb, ih]
      split_ifs <;> rfl
    · have hb : 0x80 ≤ b.toNat := by omega
      obtain ⟨c, t, hd, hc⟩ := decode_cons_other hb s
      rw [List.takeWhile_cons, h.byte b hb, hd, List.takeWhile_cons, h.char c hc]
      rfl

theorem eat_decode {p : Bytes} (hp : p.all (fun b => b.toNat < 0x80) = true) (s : Bytes) :
    eat (chars p) (decode s) = (eat p s).map decode := by
  induction p generalizing s with
  | nil => simp [eat, chars]
  | cons c p ih =>
    rw [List.all_cons, Bool.and_eq_true, decide_eq_true_eq] at hp
    obtain ⟨hc, hp⟩ := hp
    have hrest := ih hp
    cases s with
    | nil => rfl
    | cons b s =>
      by_cases hb : b.toNat < 0x80
      · rw [decode_cons_ascii hb, chars, List.map_cons, eat_cons, eat_cons]
        simp only [ascii_inj hb hc]
        split_ifs
        · exact hrest s
        · rfl
      · obtain ⟨d, t, hd, hnot⟩ := decode_cons_other (by omega : 0x80 ≤ b.toNat) s
        have hne : d ≠ Char.ofNat c.toNat := by
          refine ne_of_toNat ?_
          rw [ascii_toNat hc]
          omega
        have hbc : b ≠ c := by
          rintro rfl
          exact hb hc
        rw [hd, chars, List.map_cons, eat_head_ne hne, eat_cons, if_neg hbc]
        rfl

theorem same_space : Same isByteSpace isRegexSpace where
  ascii b hb := by
    have hall : ∀ n < 128, isRegexSpace (Char.ofNat n) = isByteSpace (UInt8.ofNat n) := by decide
    rw [hall b.toNat hb, UInt8.ofNat_toNat]
  byte b hb := by
    rw [isByteSpace, decide_eq_false_iff_not]
    intro hm
    simp only [List.mem_cons, List.not_mem_nil, or_false] at hm
    obtain rfl | rfl | rfl | rfl | rfl | rfl := hm <;> revert hb <;> decide
  char c hc := by
    rw [isRegexSpace, decide_eq_false_iff_not]
    intro hm
    simp only [List.mem_cons, List.not_mem_nil, or_false] at hm
    obtain rfl | rfl | rfl | rfl | rfl | rfl := hm <;> revert hc <;> decide

theorem digit_ascii {b : UInt8} (h : LogWatcher.isDigit b = true) : b.toNat < 0x80 := by
  simp only [LogWatcher.isDigit, Bool.and_eq_true, decide_eq_true_eq, UInt8.le_iff_toNat_le] at h
  have hle := h.2
  change b.toNat ≤ 57 at hle
  omega

theorem same_digit : Same LogWatcher.isDigit Char.isDigit where
  ascii b hb := by
    have hall : ∀ n < 128, Char.isDigit (Char.ofNat n) = LogWatcher.isDigit (UInt8.ofNat n) := by decide
    rw [hall b.toNat hb, UInt8.ofNat_toNat]
  byte b hb := by
    refine Bool.eq_false_iff.mpr fun hd => ?_
    have := digit_ascii hd
    omega
  char c hc := by
    refine Bool.eq_false_iff.mpr fun hd => ?_
    have := Lowercase.digit_bounds hd
    omega

/-! ## The regular expression -/

theorem digitsValue_eq {ds : Bytes} (h : ∀ b ∈ ds, LogWatcher.isDigit b = true) :
    digitsValue ds = Nat.ofDigitChars 10 (chars ds) 0 := by
  suffices hn : ∀ n, ds.foldl (fun n d => 10 * n + (d.toNat - 0x30)) n = Nat.ofDigitChars 10 (chars ds) n from hn 0
  induction ds with
  | nil => exact fun n => Nat.ofDigitChars_nil.symm
  | cons d ds ih =>
    intro n
    have hd := ascii_toNat (digit_ascii (h d List.mem_cons_self))
    have hcons : chars (d :: ds) = Char.ofNat d.toNat :: chars ds := rfl
    rw [List.foldl_cons, ih fun b hb => h b (List.mem_cons_of_mem d hb), hcons, Nat.ofDigitChars_cons, hd]
    rfl

/-- The digits at a place in the bytes. -/
def numberAt (s : Bytes) : Option ℚ :=
  if s.takeWhile LogWatcher.isDigit = [] then none
  else match s.dropWhile LogWatcher.isDigit with
    | 0x2E :: t =>
      some (digitsValue (s.takeWhile LogWatcher.isDigit) +
        digitsValue (t.takeWhile LogWatcher.isDigit) / 10 ^ (t.takeWhile LogWatcher.isDigit).length)
    | _ => some (digitsValue (s.takeWhile LogWatcher.isDigit))

theorem numberAt_decode (s : Bytes) : numberAt s = (digitsAt (decode s)).map value := by
  have hdigits : ∀ t : Bytes, digitsValue (t.takeWhile LogWatcher.isDigit) =
      Nat.ofDigitChars 10 ((decode t).takeWhile Char.isDigit) 0 := by
    intro t
    rw [takeWhile_decode same_digit, digitsValue_eq fun b hb => List.mem_takeWhile_imp hb]
  have hlength : ∀ t : Bytes, (t.takeWhile LogWatcher.isDigit).length = ((decode t).takeWhile Char.isDigit).length := by
    intro t
    rw [takeWhile_decode same_digit, chars, List.length_map]
  have hnil : s.takeWhile LogWatcher.isDigit = [] ↔ (decode s).takeWhile Char.isDigit = [] := by
    rw [takeWhile_decode same_digit, chars, List.map_eq_nil_iff]
  have hpoint : eat ['.'] ((decode s).dropWhile Char.isDigit) =
      (eat [0x2E] (s.dropWhile LogWatcher.isDigit)).map decode := by
    rw [dropWhile_decode same_digit]
    exact eat_decode (p := [0x2E]) (by decide) _
  rw [numberAt, digitsAt, hpoint]
  simp only [hnil]
  split_ifs with hw
  · rfl
  · split
    · rename_i t ht
      have hdrop : eat [0x2E] (s.dropWhile LogWatcher.isDigit) = some t := eat_eq_some_iff.mpr ht
      rw [hdrop]
      simp only [Option.map_some, Option.getD_some, value, hdigits, hlength]
    · rename_i hno
      have hdrop : eat [0x2E] (s.dropWhile LogWatcher.isDigit) = none := eat_eq_none hno
      rw [hdrop]
      have hvalue : value ((decode s).takeWhile Char.isDigit, []) =
          (Nat.ofDigitChars 10 ((decode s).takeWhile Char.isDigit) 0 : ℚ) := by
        simp [value]
      rw [Option.map_none, Option.map_none, Option.getD_none, Option.map_some, hvalue, hdigits]

theorem tsAt_eq (s : Bytes) : tsAt s = (eat [0x22, 0x74, 0x73, 0x22] s).bind fun s =>
    (eat [0x3A] (s.dropWhile isByteSpace)).bind fun s => numberAt (s.dropWhile isByteSpace) := by
  unfold tsAt
  split
  · rename_i t
    have heat : eat [0x22, 0x74, 0x73, 0x22] (0x22 :: 0x74 :: 0x73 :: 0x22 :: t) = some t := eat_eq_some_iff.mpr rfl
    rw [heat, Option.bind_some]
    split
    · rename_i u hu
      have hcolon : eat [0x3A] (t.dropWhile isByteSpace) = some u := eat_eq_some_iff.mpr hu
      rw [hcolon, Option.bind_some]
      rfl
    · rename_i hno
      rw [eat_eq_none hno]
      rfl
  · rename_i hno
    rw [eat_eq_none hno]
    rfl

theorem tsAt_decode (s : Bytes) : tsAt s = (memberAt key (decode s)).map value := by
  have hquoted : eat ('"' :: (key ++ ['"'])) (decode s) = (eat [0x22, 0x74, 0x73, 0x22] s).map decode :=
    eat_decode (p := [0x22, 0x74, 0x73, 0x22]) (by decide) s
  rw [tsAt_eq, memberAt, hquoted]
  cases eat [0x22, 0x74, 0x73, 0x22] s with
  | none => rfl
  | some t =>
    have hcolon : eat [':'] (decode (t.dropWhile isByteSpace)) = (eat [0x3A] (t.dropWhile isByteSpace)).map decode :=
      eat_decode (p := [0x3A]) (by decide) _
    rw [Option.map_some, Option.bind_some, Option.bind_some, valueAt, dropWhile_decode same_space, hcolon]
    cases eat [0x3A] (t.dropWhile isByteSpace) with
    | none => rfl
    | some u =>
      change numberAt (u.dropWhile isByteSpace) = (digitsAt ((decode u).dropWhile isRegexSpace)).map value
      rw [dropWhile_decode same_space, numberAt_decode]

theorem tsSearch_cons (b : UInt8) (s : Bytes) : tsSearch (b :: s) = (tsAt (b :: s)).or (tsSearch s) := by
  rw [tsSearch]
  cases tsAt (b :: s) <;> rfl

/-- The search on the bytes is the search on the text, for bytes that are no text too. -/
theorem tsSearch_decodeFrom {t : State} (h : t.Sound) (s : Bytes) :
    tsSearch s = (search key (decodeFrom t s)).map value := by
  have hcut : ∀ t : State, '"' ∉ decodeFrom t [] := by
    intro t
    cases t with
    | start => exact List.not_mem_nil
    | tail =>
      show '"' ∉ [replacement]
      decide
  induction s generalizing t with
  | nil =>
    have hnone : search key (decodeFrom t [] ++ []) = search key [] := search_append (hcut t) []
    rw [List.append_nil] at hnone
    rw [hnone]
    rfl
  | cons b s ih =>
    rw [tsSearch_cons]
    by_cases hb : b.toNat < 0x80
    · have hsplit : decodeFrom t (b :: s) = decodeFrom t [] ++ Char.ofNat b.toNat :: decode s :=
        decodeFrom_ascii h hb [] s
      rw [hsplit, search_append (hcut t), search, ← decode_cons_ascii hb, Option.map_or, ← tsAt_decode,
        ih (t := .start) trivial]
      rfl
    · have hb : 0x80 ≤ b.toNat := by omega
      have hquote : '"' ∉ (feed t b.toNat).1 := fun hm => absurd (not_ascii_feed h hb _ hm) (by decide)
      have hnone : tsAt (b :: s) = none := by
        rw [tsAt_eq, eat_cons, if_neg]
        · rfl
        · rintro rfl
          exact absurd hb (by decide)
      rw [decodeFrom_cons, search_append hquote, hnone, Option.none_or]
      exact ih (sound_feed h b.toNat)

theorem tsSearch_decode (s : Bytes) : tsSearch s = (search key (decode s)).map value :=
  tsSearch_decodeFrom (t := .start) trivial s

/-- The search on the bytes of a line finds what stands among the tokens of its text. -/
theorem tsSearch_tokens {toks : List Token} (h : Tokens toks (strip (decode s))) :
    tsSearch s = (firstValue key toks).map value := by
  obtain ⟨lead, trail, hlead, htrail, hs⟩ := strip_split (decode s)
  have hquote : '"' ∉ lead := not_mem_blank (by decide) hlead
  have htoks : Tokens toks (text toks) := ⟨h.valid, h.separated, rfl⟩
  rw [tsSearch_decode, hs, search_append hquote, ← h.text_eq, search_text keyWord_key htoks htrail]

end

/-! ## The two times -/

section
variable (py : Python) (fromtimestamp : ℚ → FromTimestamp)

/-- `json.loads` reads JSON only. -/
def ReadsJson : Prop := ∀ s j, py.loads s = .ok j → ∃ toks, Tokens toks s.toList

/-- `fromtimestamp` stands for `float` on the digits and `datetime.fromtimestamp`. -/
def FloatsAgree : Prop := ∀ (n : Number) (t : Instant),
  fromtimestamp (value (n.whole, n.frac)) = .ok t ↔
    (py.floatOfStr (String.ofList (decimal n.whole n.frac)) >>= py.fromTimestamp) = .ok t

/-- The digits and the value denote one time. -/
def SameInstant (digits : List Char × List Char) (v : Json) : Prop :=
  (py.floatOfStr (String.ofList (decimal digits.1 digits.2)) >>= py.fromTimestamp) = (pyFloat py v >>= py.fromTimestamp)

/-- Of all keys spelled `ts` that a number follows, at any depth, the first has the time that the parser takes. -/
def FirstIsRead (s : List Char) (m : List (String × Json)) : Prop :=
  ∃ toks digits, Tokens toks s ∧ firstValue key toks = some digits ∧ SameInstant py digits (tsRaw m)

variable {py fromtimestamp} {raw : Bytes} {hosts : List (String × List String)} {label source : String} {row : Row}

theorem extractTs_eq_some {t : Instant} :
    extractTs fromtimestamp raw = .ok (some t) ↔ ∃ q, tsSearch raw = some q ∧ fromtimestamp q = .ok t := by
  rw [extractTs]
  cases tsSearch raw with
  | none => simp
  | some q => cases hq : fromtimestamp q <;> simp [hq]

theorem parseEntry_instant {m : List (String × Json)} (h : parseEntry py m hosts label source = .ok row) :
    (pyFloat py (tsRaw m) >>= py.fromTimestamp) = .ok row.ts := by
  obtain ⟨seconds, hseconds, hts⟩ := parseEntry_ts h
  rw [hseconds]
  exact hts

/-- **The two times of a line.** The scan finds the time of the row if and only if the first key spelled `ts` that a
number follows has it. -/
theorem fast_timestamp_iff (hjson : ReadsJson py) (hfloat : FloatsAgree py fromtimestamp)
    (h : parseLine py (String.ofList (decode raw)) hosts label source = .ok (some row)) :
    extractTs fromtimestamp raw = .ok (some row.ts) ↔
      ∃ m, py.loads (String.ofList (strip (decode raw))) = .ok (.obj m) ∧ FirstIsRead py (strip (decode raw)) m := by
  obtain ⟨m, -, hloads, -, -, hentry⟩ := parseLine_eq_some h
  rw [String.toList_ofList] at hloads
  have hrow := parseEntry_instant hentry
  rw [extractTs_eq_some]
  constructor
  · rintro ⟨q, hq, ht⟩
    obtain ⟨toks, htoks⟩ := hjson _ _ hloads
    rw [String.toList_ofList] at htoks
    rw [tsSearch_tokens htoks, Option.map_eq_some_iff] at hq
    obtain ⟨digits, hdigits, rfl⟩ := hq
    obtain ⟨n, rfl⟩ := firstValue_number hdigits
    exact ⟨m, hloads, toks, _, htoks, hdigits, ((hfloat n row.ts).mp ht).trans hrow.symm⟩
  · rintro ⟨m', hm', toks, digits, htoks, hdigits, hsame⟩
    obtain rfl : m' = m := by
      rw [hloads] at hm'
      cases hm'
      rfl
    obtain ⟨n, rfl⟩ := firstValue_number hdigits
    refine ⟨value (n.whole, n.frac), ?_, (hfloat n row.ts).mpr (hsame.trans hrow)⟩
    rw [tsSearch_tokens htoks, hdigits]
    rfl

theorem row_of_ts {line : String} {t : Instant}
    (h : ((parseLine py line hosts label source).map fun row => row.map Row.ts) = .ok (some t)) :
    ∃ row, parseLine py line hosts label source = .ok (some row) ∧ row.ts = t := by
  cases hp : parseLine py line hosts label source with
  | error e =>
    rw [hp] at h
    cases h
  | ok r =>
    cases r with
    | none =>
      rw [hp] at h
      cases h
    | some row =>
      rw [hp] at h
      exact ⟨row, rfl, Option.some.inj (Except.ok.inj h)⟩

end

/-! ## Lines at work -/

def secondsOf (s : String) : Except PyError Instant :=
  match digitsAt s.toList with
  | some digits => .ok (value digits * 1000000).floor
  | none => .error .valueError

/-- The library of one line, with the floats that are written with a point. -/
def readingLibrary (line : String) (m : List (String × Json)) : Python :=
  { Ingestion.libraryOn line m with floatOfStr := .ok, fromTimestamp := secondsOf }

theorem loads_readingLibrary (line : String) (m : List (String × Json)) (s : String) :
    (readingLibrary line m).loads s = if s = line then .ok (.obj m) else .error .valueError := rfl

theorem readsJson_readingLibrary {line : String} {toks : List Token} (h : Tokens toks line.toList)
    (m : List (String × Json)) : ReadsJson (readingLibrary line m) := by
  intro s j hj
  have hs : s = line := by
    by_contra hne
    rw [loads_readingLibrary, if_neg hne] at hj
    cases hj
  exact ⟨toks, hs ▸ h⟩

theorem floatsAgree_readingLibrary (line : String) (m : List (String × Json)) :
    FloatsAgree (readingLibrary line m) Restart.utcInstant := by
  intro n t
  have htime : secondsOf (String.ofList (decimal n.whole n.frac)) = .ok (value (n.whole, n.frac) * 1000000).floor := by
    rw [secondsOf, String.toList_ofList, digitsAt_decimal]
  change _ ↔ secondsOf (String.ofList (decimal n.whole n.frac)) = .ok t
  rw [htime, Restart.utcInstant, FromTimestamp.ok.injEq, Except.ok.injEq]

def one : Number :=
  ⟨false, ['1'], ['0'], [], by decide, List.all_eq_true.mp rfl, List.all_eq_true.mp rfl,
    fun c hc => absurd hc (Option.not_mem_none c), fun c hc => absurd hc List.not_mem_nil⟩

def plainLine : String := "\x7b\"msg\":\"handled request\",\"ts\":1.0\x7d"

def plainEntry : List (String × Json) := [("msg", .str "handled request"), ("ts", .float "1.0")]

def plainTokens : List Token :=
  [.mark '{', .string "msg".toList, .mark ':', .string "handled request".toList, .mark ',', .string key, .mark ':',
    .number one, .mark '}']

theorem plain_time_found : ∃ row,
    parseLine (readingLibrary plainLine plainEntry) (String.ofList (decode (encode plainLine.toList))) [] "" "" =
      .ok (some row) ∧ extractTs Restart.utcInstant (encode plainLine.toList) = .ok (some row.ts) := by
  have htoks : Tokens plainTokens plainLine.toList := ⟨by decide, by decide, by decide⟩
  have hline : strip (decode (encode plainLine.toList)) = plainLine.toList := by decide +kernel
  have hloads : (readingLibrary plainLine plainEntry).loads (String.ofList plainLine.toList) = .ok (.obj plainEntry) := by
    rw [String.ofList_toList, loads_readingLibrary, if_pos rfl]
  have hparsed : ((parseLine (readingLibrary plainLine plainEntry)
      (String.ofList (decode (encode plainLine.toList))) [] "" "").map fun row => row.map Row.ts) =
      .ok (some 1000000) := by decide +kernel
  obtain ⟨row, hrow, -⟩ := row_of_ts hparsed
  refine ⟨row, hrow, (fast_timestamp_iff (readsJson_readingLibrary htoks plainEntry)
    (floatsAgree_readingLibrary plainLine plainEntry) hrow).mpr ⟨plainEntry, ?_, plainTokens, (['1'], ['0']), ?_, ?_, ?_⟩⟩
  · rw [hline]
    exact hloads
  · rw [hline]
    exact htoks
  · decide
  · rfl

/-- The request of the entry has a key `ts` of its own, before the one of the entry. -/
def nestedLine : String := "\x7b\"request\":\x7b\"ts\":5\x7d,\"ts\":1,\"msg\":\"handled request\"\x7d"

def nestedEntry : List (String × Json) :=
  [("request", .obj [("ts", .int 5)]), ("ts", .int 1), ("msg", .str "handled request")]

/-- The row has the first second, and the scan finds the fifth. -/
theorem nested_time_found : ∃ row,
    parseLine (readingLibrary nestedLine nestedEntry) (String.ofList (decode (encode nestedLine.toList))) [] "" "" =
      .ok (some row) ∧ row.ts = 1000000 ∧
      extractTs Restart.utcInstant (encode nestedLine.toList) = .ok (some 5000000) := by
  have hparsed : ((parseLine (readingLibrary nestedLine nestedEntry)
      (String.ofList (decode (encode nestedLine.toList))) [] "" "").map fun row => row.map Row.ts) =
      .ok (some 1000000) := by decide +kernel
  obtain ⟨row, hrow, hts⟩ := row_of_ts hparsed
  exact ⟨row, hrow, hts, by decide +kernel⟩

end Cadsa.FastTimestamp
