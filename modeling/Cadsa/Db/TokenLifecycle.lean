import Mathlib.Data.Set.Function
import Cadsa.Db.RefreshTokens
import Cadsa.Lib.IsoTime
import Cadsa.Lib.Runs
import Cadsa.Lib.Slots

/-! The life of a refresh token: the helpers of `db/sqlite_manager.py` over the columns as they are stored,
where a time is a text and expiry a comparison of texts, and what a run of them has done to a token. -/
namespace Cadsa.Tokens
open Db IsoTime Tables Runs
set_option autoImplicit false

structure TokenRow where
  id : ℕ
  userId : ℕ
  tokenHash : String
  issuedAt : String
  expiresAt : String
  revoked : Bool
  userAgent : String
  remoteIp : String
  deriving DecidableEq

abbrev TokenTable := Table String TokenRow TokenRow.tokenHash

section
variable (sha256 : String → String)

/-- Nothing where an exception is raised: the hash is taken, or the expiry is after the year 9999. -/
def storeRefreshToken (tokens : TokenTable) (now : Datetime) (userId : ℕ) (token userAgent remoteIp : String) :
    Option TokenTable :=
  (now.add (days 7)).bind fun expires =>
    tokens.insert ⟨nextKey (tokens.rows.map TokenRow.id), userId, sha256 token, now.isoformat, expires.isoformat,
      false, userAgent, remoteIp⟩

def validateRefreshToken (tokens : TokenTable) (now : Datetime) (token : String) : Option TokenRow :=
  (tokens.find (sha256 token)).filter fun row => !row.revoked && decide (now.isoformat < row.expiresAt)

def TokenRow.revoke (row : TokenRow) : TokenRow := { row with revoked := true }

theorem TokenRow.revoke_tokenHash (row : TokenRow) : row.revoke.tokenHash = row.tokenHash := rfl

def revokeRefreshToken (tokens : TokenTable) (token : String) : TokenTable :=
  tokens.modify (sha256 token) TokenRow.revoke TokenRow.revoke_tokenHash

def revokeAllUserTokens (tokens : TokenTable) (userId : ℕ) : TokenTable :=
  tokens.update (fun row => if row.userId = userId then row.revoke else row) fun row => by
    split_ifs
    · exact row.revoke_tokenHash
    · rfl

/-! ## Runs -/

/-- What a call has written; one that raises has written nothing. -/
inductive Event where
  | stored (token : String) (userId : ℕ) (issued : Datetime)
  | revoked (token : String)
  | revokedAll (userId : ℕ)
  deriving DecidableEq

structure System where
  clock : Datetime
  tokens : TokenTable
  history : List Event

def empty (clock : Datetime) : System := ⟨clock, ⟨[], List.nodup_nil⟩, []⟩

inductive Op where
  | store (userId : ℕ) (token userAgent remoteIp : String)
  | validate (token : String)
  | revoke (token : String)
  | revokeAll (userId : ℕ)

structure Act where
  now : Datetime
  op : Op

/-- The tokens that an operation is called with. -/
def Op.tokens : Op → List String
  | .store _ token _ _ => [token]
  | .validate token => [token]
  | .revoke token => [token]
  | .revokeAll _ => []

def System.write (s : System) (tokens : TokenTable) (e : Event) : System :=
  { s with tokens, history := s.history ++ [e] }

def perform (s : System) (a : Act) : System :=
  match a.op with
  | .store userId token userAgent remoteIp =>
    match storeRefreshToken sha256 s.tokens a.now userId token userAgent remoteIp with
    | none => s
    | some tokens => s.write tokens (.stored token userId a.now)
  | .validate _ => s
  | .revoke token => s.write (revokeRefreshToken sha256 s.tokens token) (.revoked token)
  | .revokeAll userId => s.write (revokeAllUserTokens s.tokens userId) (.revokedAll userId)

/-- The clock never goes back. -/
def step (s : System) (a : Act) : Option System :=
  if s.clock.micros ≤ a.now.micros then some { perform sha256 s a with clock := a.now } else none

end

/-! ## What the history says of a token -/

def Event.ends (token : String) (userId : ℕ) : Event → Bool
  | .stored .. => false
  | .revoked token' => token' = token
  | .revokedAll userId' => userId' = userId

/-- After the event with number `i`, the token or all tokens of the user were revoked. -/
def RevokedAfter (history : List Event) (token : String) (userId i : ℕ) : Prop :=
  ∃ j e, i < j ∧ history[j]? = some e ∧ e.ends token userId = true

/-- Stored less than seven days before `now`, and not revoked since. -/
def Standing (history : List Event) (token : String) (now : Datetime) : Prop :=
  ∃ i userId issued, history[i]? = some (.stored token userId issued) ∧ issued.micros ≤ now.micros ∧
    now.micros < issued.micros + days 7 ∧ ¬ RevokedAfter history token userId i

/-- Stored, and since then expired or revoked. -/
def Ended (history : List Event) (token : String) (now : Datetime) : Prop :=
  ∃ i userId issued, history[i]? = some (.stored token userId issued) ∧
    (issued.micros + days 7 ≤ now.micros ∨ RevokedAfter history token userId i)

theorem RevokedAfter.append {history : List Event} {token : String} {userId i : ℕ} (more : List Event)
    (h : RevokedAfter history token userId i) : RevokedAfter (history ++ more) token userId i := by
  obtain ⟨j, e, hj, he, hends⟩ := h
  exact ⟨j, e, hj, Slots.getElem?_append_some he more, hends⟩

theorem revokedAfter_concat {history : List Event} {token : String} {userId i : ℕ} (hi : i < history.length)
    (e : Event) : RevokedAfter (history ++ [e]) token userId i ↔
      RevokedAfter history token userId i ∨ e.ends token userId = true := by
  constructor
  · rintro ⟨j, e', hj, he, hends⟩
    rcases Slots.getElem?_concat_eq_some.mp he with he | ⟨rfl, rfl⟩
    · exact .inl ⟨j, e', hj, he, hends⟩
    · exact .inr hends
  · rintro (h | hends)
    · exact h.append [e]
    · exact ⟨history.length, e, hi, List.getElem?_concat_length, hends⟩

theorem not_revokedAfter_last {history : List Event} (e : Event) (token : String) (userId : ℕ) :
    ¬ RevokedAfter (history ++ [e]) token userId history.length := by
  rintro ⟨j, e', hj, he, -⟩
  have := (List.getElem?_eq_some_iff.mp he).1
  rw [List.length_append, List.length_singleton] at this
  omega

theorem Ended.later {history : List Event} {token : String} {now later : Datetime} (more : List Event)
    (hnow : now.micros ≤ later.micros) (h : Ended history token now) : Ended (history ++ more) token later := by
  obtain ⟨i, userId, issued, hstored, hend⟩ := h
  refine ⟨i, userId, issued, Slots.getElem?_append_some hstored more, ?_⟩
  rcases hend with hexpired | hrevoked
  · exact .inl (hexpired.trans hnow)
  · exact .inr (hrevoked.append more)

/-! ## The row of a token and its history -/

/-- The one time the token was stored is the row's, and the flag says what came after it. -/
structure Recorded (history : List Event) (token : String) (row : TokenRow) (i : ℕ) (issued expires : Datetime) :
    Prop where
  only : ∀ (j userId' : ℕ) (time : Datetime), history[j]? = some (.stored token userId' time) ↔
    j = i ∧ userId' = row.userId ∧ time = issued
  added : issued.add (days 7) = some expires
  expiresAt : row.expiresAt = expires.isoformat
  revoked : row.revoked = true ↔ RevokedAfter history token row.userId i

def Matches (history : List Event) (token : String) : Option TokenRow → Prop
  | none => ∀ (j userId : ℕ) (time : Datetime), history[j]? ≠ some (.stored token userId time)
  | some row => ∃ i issued expires, Recorded history token row i issued expires

theorem Recorded.stored {history : List Event} {token : String} {row : TokenRow} {i : ℕ} {issued expires : Datetime}
    (h : Recorded history token row i issued expires) : history[i]? = some (.stored token row.userId issued) :=
  (h.only _ _ _).mpr ⟨rfl, rfl, rfl⟩

/-- What an event does to the row of a token. -/
def Event.mark (token : String) (e : Event) (row : TokenRow) : TokenRow :=
  { row with revoked := row.revoked || e.ends token row.userId }

theorem Matches.concat {history : List Event} {token : String} {row : Option TokenRow} {e : Event}
    (h : Matches history token row) (he : ∀ userId issued, e ≠ .stored token userId issued) :
    Matches (history ++ [e]) token (row.map (e.mark token)) := by
  cases row with
  | none =>
    rw [Option.map_none, Matches]
    intro j userId time hj
    rcases Slots.getElem?_concat_eq_some.mp hj with hj | ⟨-, hnew⟩
    · exact h j userId time hj
    · exact he userId time hnew
  | some row =>
    obtain ⟨i, issued, expires, hrow⟩ := h
    have hi : i < history.length := (List.getElem?_eq_some_iff.mp hrow.stored).1
    refine ⟨i, issued, expires, fun j userId time => ?_, hrow.added, hrow.expiresAt, ?_⟩
    · rw [Slots.getElem?_concat_eq_some, hrow.only]
      exact ⟨fun hj => hj.resolve_right fun hnew => he userId time hnew.2, .inl⟩
    · rw [revokedAfter_concat hi]
      change (row.revoked || e.ends token row.userId) = true ↔ RevokedAfter history token row.userId i ∨ _
      rw [Bool.or_eq_true, hrow.revoked]
      rfl

theorem Matches.stored {history : List Event} {token : String} {row : TokenRow} {issued expires : Datetime}
    (h : Matches history token none) (hadd : issued.add (days 7) = some expires)
    (hexpires : row.expiresAt = expires.isoformat) (hrevoked : row.revoked = false) :
    Matches (history ++ [.stored token row.userId issued]) token (some row) := by
  refine ⟨history.length, issued, expires, fun j userId time => ?_, hadd, hexpires, ?_⟩
  · rw [Slots.getElem?_concat_eq_some]
    constructor
    · rintro (hold | ⟨rfl, hnew⟩)
      · exact absurd hold (h j userId time)
      · cases hnew
        exact ⟨rfl, rfl, rfl⟩
    · rintro ⟨rfl, rfl, rfl⟩
      exact .inr ⟨rfl, rfl⟩
  · rw [hrevoked]
    exact ⟨fun hf => absurd hf Bool.false_ne_true, fun hr => (not_revokedAfter_last _ _ _ hr).elim⟩

theorem mark_eq_self {token : String} {row : TokenRow} {e : Event} (h : e.ends token row.userId = false) :
    e.mark token row = row := by
  rw [Event.mark, h, Bool.or_false]

theorem mark_eq_revoke {token : String} {row : TokenRow} {e : Event} (h : e.ends token row.userId = true) :
    e.mark token row = row.revoke := by
  rw [Event.mark, h, Bool.or_true]
  rfl

section
variable {sha256 : String → String} {used : Set String} (hsha : Set.InjOn sha256 used) {token : String}
  (htoken : token ∈ used) (tokens : TokenTable)
include hsha htoken

theorem find_revoke {token' : String} (htoken' : token' ∈ used) :
    (revokeRefreshToken sha256 tokens token').find (sha256 token) =
      (tokens.find (sha256 token)).map ((Event.revoked token').mark token) := by
  rw [revokeRefreshToken, find_modify]
  split_ifs with hhash
  · obtain rfl := hsha htoken htoken' hhash
    refine congrArg (Option.map · _) (funext fun row => (mark_eq_revoke ?_).symm)
    simp [Event.ends]
  · have heq : token ≠ token' := fun h => hhash (congrArg sha256 h)
    have hself : (Event.revoked token').mark token = id := by
      funext row
      refine mark_eq_self ?_
      simp [Event.ends, Ne.symm heq]
    rw [hself, Option.map_id, id]

/-- **Frame.** -/
theorem validate_revoke {token' : String} (htoken' : token' ∈ used) (hne : token' ≠ token) (now : Datetime) :
    validateRefreshToken sha256 (revokeRefreshToken sha256 tokens token') now token =
      validateRefreshToken sha256 tokens now token := by
  rw [validateRefreshToken, revokeRefreshToken, find_modify, if_neg fun h => hne (hsha htoken htoken' h).symm]
  rfl

end

theorem find_revokeAll (sha256 : String → String) (token : String) (tokens : TokenTable) (userId : ℕ) :
    (revokeAllUserTokens tokens userId).find (sha256 token) =
      (tokens.find (sha256 token)).map ((Event.revokedAll userId).mark token) := by
  rw [revokeAllUserTokens, find_update]
  refine congrArg (Option.map · _) (funext fun row => ?_)
  split_ifs with huser
  · refine (mark_eq_revoke ?_).symm
    simp [Event.ends, huser]
  · refine (mark_eq_self ?_).symm
    simp [Event.ends, Ne.symm huser]

theorem store_spec {sha256 : String → String} {tokens tokens' : TokenTable} {now : Datetime} {userId : ℕ}
    {token userAgent remoteIp : String}
    (h : storeRefreshToken sha256 tokens now userId token userAgent remoteIp = some tokens') :
    ∃ row expires, now.add (days 7) = some expires ∧ row.expiresAt = expires.isoformat ∧ row.revoked = false ∧
      row.userId = userId ∧ tokens.find (sha256 token) = none ∧
      ∀ k, tokens'.find k = if sha256 token = k then some row else tokens.find k := by
  obtain ⟨expires, hadd, hinsert⟩ := Option.bind_eq_some_iff.mp h
  refine ⟨_, expires, hadd, rfl, rfl, rfl, ?_, find_insert tokens hinsert⟩
  exact find_none_of_insert tokens hinsert

/-- A token is stored exactly where its hash is free and its expiry is a time. -/
theorem store_isSome_iff {sha256 : String → String} {tokens : TokenTable} {now : Datetime} {userId : ℕ}
    {token userAgent remoteIp : String} :
    (storeRefreshToken sha256 tokens now userId token userAgent remoteIp).isSome = true ↔
      (now.add (days 7)).isSome = true ∧ tokens.find (sha256 token) = none := by
  rw [storeRefreshToken]
  cases now.add (days 7) with
  | none => simp
  | some expires =>
    rw [Option.bind_some, insert_isSome_iff]
    exact ⟨fun h => ⟨rfl, h⟩, And.right⟩

/-! ## Runs -/

structure Sound (sha256 : String → String) (used : Set String) (s : System) : Prop where
  past : ∀ (j userId : ℕ) (token : String) (time : Datetime), s.history[j]? = some (.stored token userId time) →
    time.micros ≤ s.clock.micros
  matched : ∀ token ∈ used, Matches s.history token (s.tokens.find (sha256 token))

theorem sound_empty (sha256 : String → String) (used : Set String) (clock : Datetime) :
    Sound sha256 used (empty clock) := by
  refine ⟨fun j userId token time h => ?_, fun token _ j userId time h => ?_⟩
  · cases h
  · cases h

section
variable {sha256 : String → String} {used : Set String} (hsha : Set.InjOn sha256 used)
include hsha

theorem matches_perform {s : System} {a : Act} (hs : ∀ token ∈ used, Matches s.history token (s.tokens.find (sha256 token)))
    (ha : ∀ token ∈ a.op.tokens, token ∈ used) {token : String} (htoken : token ∈ used) :
    Matches (perform sha256 s a).history token ((perform sha256 s a).tokens.find (sha256 token)) := by
  cases hop : a.op with
  | store userId token' userAgent remoteIp =>
    have htoken' : token' ∈ used := ha token' (by simp [hop, Op.tokens])
    simp only [perform, hop]
    cases hstore : storeRefreshToken sha256 s.tokens a.now userId token' userAgent remoteIp with
    | none => exact hs token htoken
    | some tokens =>
      obtain ⟨row, expires, hadd, hexpires, hrevoked, rfl, hnone, hfind⟩ := store_spec hstore
      by_cases heq : token' = token
      · subst heq
        have hold := hs token' htoken
        rw [hnone] at hold
        simp only [System.write, hfind, if_true]
        exact hold.stored hadd hexpires hrevoked
      · have hhash : sha256 token' ≠ sha256 token := fun h => heq (hsha htoken' htoken h)
        simp only [System.write, hfind, if_neg hhash]
        have hmark : (Event.stored token' row.userId a.now).mark token = id := funext fun _ => mark_eq_self rfl
        have := (hs token htoken).concat (e := .stored token' row.userId a.now) fun _ _ h => by
          cases h
          exact heq rfl
        rwa [hmark, Option.map_id, id] at this
  | validate token' =>
    simp only [perform, hop]
    exact hs token htoken
  | revoke token' =>
    have hfind := find_revoke hsha htoken s.tokens (ha token' (by simp [hop, Op.tokens]))
    simp only [perform, hop, System.write, hfind]
    refine (hs token htoken).concat fun _ _ h => ?_
    cases h
  | revokeAll userId =>
    simp only [perform, hop, System.write, find_revokeAll]
    refine (hs token htoken).concat fun _ _ h => ?_
    cases h

end

/-- A call adds to the history, and a token it stores is stored at the time of the call. -/
theorem history_perform (sha256 : String → String) (s : System) (a : Act) :
    ∃ more, (perform sha256 s a).history = s.history ++ more ∧
      ∀ token userId time, .stored token userId time ∈ more → time = a.now := by
  cases hop : a.op with
  | store userId token userAgent remoteIp =>
    simp only [perform, hop]
    cases storeRefreshToken sha256 s.tokens a.now userId token userAgent remoteIp with
    | none => exact ⟨[], (List.append_nil _).symm, by simp⟩
    | some tokens => exact ⟨[_], rfl, by simp⟩
  | validate token =>
    simp only [perform, hop]
    exact ⟨[], (List.append_nil _).symm, by simp⟩
  | revoke token =>
    simp only [perform, hop]
    exact ⟨[_], rfl, by simp⟩
  | revokeAll userId =>
    simp only [perform, hop]
    exact ⟨[_], rfl, by simp⟩

theorem step_spec {sha256 : String → String} {s s' : System} {a : Act} (h : step sha256 s a = some s') :
    s.clock.micros ≤ a.now.micros ∧ s' = { perform sha256 s a with clock := a.now } := by
  rw [step] at h
  split_ifs at h with hclock
  exact ⟨hclock, (Option.some.inj h).symm⟩

theorem sound_step {sha256 : String → String} {used : Set String} (hsha : Set.InjOn sha256 used) {s s' : System}
    {a : Act} (hs : Sound sha256 used s) (ha : ∀ token ∈ a.op.tokens, token ∈ used)
    (h : step sha256 s a = some s') : Sound sha256 used s' := by
  obtain ⟨hclock, rfl⟩ := step_spec h
  refine ⟨fun j userId token time hj => ?_, fun token htoken => matches_perform hsha hs.matched ha htoken⟩
  obtain ⟨more, hmore, hnow⟩ := history_perform sha256 s a
  simp only [hmore] at hj
  rcases List.mem_append.mp (List.mem_of_getElem? hj) with hold | hnew
  · obtain ⟨i, hi⟩ := List.mem_iff_getElem?.mp hold
    exact (hs.past i userId token time hi).trans hclock
  · rw [hnow token userId time hnew]

/-- A run adds to the history. -/
theorem history_exec {sha256 : String → String} {s s' : System} {acts : List Act}
    (h : exec (step sha256) s acts = some s') : ∃ more, s'.history = s.history ++ more := by
  induction acts generalizing s with
  | nil =>
    cases h
    exact ⟨[], (List.append_nil _).symm⟩
  | cons a acts ih =>
    obtain ⟨m, hm, h⟩ := exec_cons_some h
    obtain ⟨-, rfl⟩ := step_spec hm
    obtain ⟨first, hfirst, -⟩ := history_perform sha256 s a
    obtain ⟨rest, hrest⟩ := ih h
    refine ⟨first ++ rest, ?_⟩
    rw [hrest, ← List.append_assoc]
    exact congrArg (· ++ rest) hfirst

theorem clock_exec {sha256 : String → String} {s s' : System} {acts : List Act}
    (h : exec (step sha256) s acts = some s') : s.clock.micros ≤ s'.clock.micros := by
  induction acts generalizing s with
  | nil =>
    cases h
    exact Nat.le_refl _
  | cons a acts ih =>
    obtain ⟨m, hm, h⟩ := exec_cons_some h
    obtain ⟨hclock, rfl⟩ := step_spec hm
    exact hclock.trans (ih h)

theorem sound_exec {sha256 : String → String} {used : Set String} (hsha : Set.InjOn sha256 used) {s s' : System}
    {acts : List Act} (hs : Sound sha256 used s) (ha : ∀ a ∈ acts, ∀ token ∈ a.op.tokens, token ∈ used)
    (h : exec (step sha256) s acts = some s') : Sound sha256 used s' :=
  exec_invariant (fun _ _ _ hs (ha : ∀ token ∈ Op.tokens _, token ∈ used) h => sound_step hsha hs ha h) hs
    (along_of_mem (fun a hmem _ _ => ha a hmem) s) h

/-! ## Validity is what the history says -/

theorem isoformat_lt_expiry {issued expires now : Datetime} (h : issued.add (days 7) = some expires) :
    now.isoformat < expires.isoformat ↔ now.micros < issued.micros + days 7 := by
  rw [String.lt_iff, isoformat_lt_iff, Datetime.add_micros h]

theorem validate_iff_standing {sha256 : String → String} {used : Set String} {s : System} (hs : Sound sha256 used s)
    {token : String} (htoken : token ∈ used) {now : Datetime} (hnow : s.clock.micros ≤ now.micros) :
    (validateRefreshToken sha256 s.tokens now token).isSome = true ↔ Standing s.history token now := by
  have hmatch := hs.matched token htoken
  rw [validateRefreshToken]
  cases hrow : s.tokens.find (sha256 token) with
  | none =>
    rw [hrow] at hmatch
    refine ⟨fun h => absurd h Bool.false_ne_true, ?_⟩
    rintro ⟨i, userId, issued, hstored, -⟩
    exact absurd hstored (hmatch i userId issued)
  | some row =>
    rw [hrow] at hmatch
    obtain ⟨i, issued, expires, hrec⟩ := hmatch
    have hvalid : (!row.revoked && decide (now.isoformat < row.expiresAt)) = true ↔
        ¬ RevokedAfter s.history token row.userId i ∧ now.micros < issued.micros + days 7 := by
      rw [Bool.and_eq_true, decide_eq_true_iff, hrec.expiresAt, isoformat_lt_expiry hrec.added, ← hrec.revoked,
        Bool.not_eq_true', Bool.not_eq_true]
    rw [Option.isSome_filter, Option.any_some, hvalid]
    constructor
    · rintro ⟨hkept, hfresh⟩
      exact ⟨i, row.userId, issued, hrec.stored, (hs.past i _ _ _ hrec.stored).trans hnow, hfresh, hkept⟩
    · rintro ⟨j, userId, time, hstored, -, hfresh, hkept⟩
      obtain ⟨rfl, rfl, rfl⟩ := (hrec.only j userId time).mp hstored
      exact ⟨hkept, hfresh⟩

theorem not_standing_of_ended {sha256 : String → String} {used : Set String} {s : System} (hs : Sound sha256 used s)
    {token : String} (htoken : token ∈ used) {now : Datetime} (h : Ended s.history token now) :
    ¬ Standing s.history token now := by
  obtain ⟨i, userId, issued, hstored, hend⟩ := h
  rintro ⟨j, userId', issued', hstored', -, hfresh, hkept⟩
  have hmatch := hs.matched token htoken
  cases hrow : s.tokens.find (sha256 token) with
  | none =>
    rw [hrow] at hmatch
    exact hmatch i userId issued hstored
  | some row =>
    rw [hrow] at hmatch
    obtain ⟨k, time, expires, hrec⟩ := hmatch
    obtain ⟨rfl, rfl, rfl⟩ := (hrec.only i userId issued).mp hstored
    obtain ⟨rfl, rfl, rfl⟩ := (hrec.only j userId' issued').mp hstored'
    rcases hend with hexpired | hrevoked
    · exact absurd hfresh (Nat.not_lt.mpr hexpired)
    · exact hkept hrevoked

theorem Sound.wait {sha256 : String → String} {used : Set String} {s : System} (hs : Sound sha256 used s)
    {now : Datetime} (hnow : s.clock.micros ≤ now.micros) : Sound sha256 used { s with clock := now } :=
  ⟨fun j userId token time h => (hs.past j userId token time h).trans hnow, hs.matched⟩

/-- The hash of a token is free as long as the token was never stored. -/
theorem find_eq_none_iff {sha256 : String → String} {used : Set String} {s : System} (hs : Sound sha256 used s)
    {token : String} (htoken : token ∈ used) : s.tokens.find (sha256 token) = none ↔
      ∀ (userId : ℕ) (issued : Datetime), Event.stored token userId issued ∉ s.history := by
  have hmatch := hs.matched token htoken
  constructor
  · intro hfree userId issued hmem
    obtain ⟨i, hi⟩ := List.mem_iff_getElem?.mp hmem
    rw [hfree] at hmatch
    exact hmatch i userId issued hi
  · intro hnew
    cases hrow : s.tokens.find (sha256 token) with
    | none => rfl
    | some row =>
      rw [hrow] at hmatch
      obtain ⟨i, issued, expires, hrec⟩ := hmatch
      exact absurd (List.mem_of_getElem? hrec.stored) (hnew row.userId issued)

/-- A token that was never stored is stored, and stands from then on, where its expiry is a time. -/
theorem standing_of_new {sha256 : String → String} {used : Set String} {s : System} (hs : Sound sha256 used s)
    {token : String} (htoken : token ∈ used)
    (hnew : ∀ (userId : ℕ) (issued : Datetime), Event.stored token userId issued ∉ s.history) {now : Datetime}
    (hnow : (now.add (days 7)).isSome = true) (userId : ℕ) (userAgent remoteIp : String) :
    Standing (perform sha256 s ⟨now, .store userId token userAgent remoteIp⟩).history token now := by
  have hsome : (storeRefreshToken sha256 s.tokens now userId token userAgent remoteIp).isSome = true :=
    store_isSome_iff.mpr ⟨hnow, (find_eq_none_iff hs htoken).mpr hnew⟩
  obtain ⟨tokens, hstored⟩ := Option.isSome_iff_exists.mp hsome
  have hhistory : (perform sha256 s ⟨now, .store userId token userAgent remoteIp⟩).history =
      s.history ++ [.stored token userId now] := by simp only [perform, hstored, System.write]
  rw [hhistory]
  have hweek : 0 < days 7 := by decide
  exact ⟨s.history.length, userId, now, List.getElem?_concat_length, le_refl _, Nat.lt_add_of_pos_right hweek,
    not_revokedAfter_last _ _ _⟩

theorem ended_forever {sha256 : String → String} {used : Set String} (hsha : Set.InjOn sha256 used) {s s' : System}
    (hs : Sound sha256 used s) {token : String} (htoken : token ∈ used) (h : Ended s.history token s.clock)
    {acts : List Act} (hacts : ∀ a ∈ acts, ∀ token ∈ a.op.tokens, token ∈ used)
    (hrun : exec (step sha256) s acts = some s') {now : Datetime} (hnow : s'.clock.micros ≤ now.micros) :
    validateRefreshToken sha256 s'.tokens now token = none := by
  have hs' := sound_exec hsha hs hacts hrun
  obtain ⟨more, hmore⟩ := history_exec hrun
  have hclock := (clock_exec hrun).trans hnow
  have hended : Ended s'.history token now := hmore ▸ h.later more hclock
  rw [← Option.not_isSome_iff_eq_none, validate_iff_standing hs' htoken hnow]
  exact not_standing_of_ended hs' htoken hended

/-- **Refresh-token lifecycle.** A token is valid exactly where the history has it stored and neither expired nor
revoked; one that has ended is never valid again; and revoking another token changes nothing. -/
theorem token_lifecycle (sha256 : String → String) (used : Set String) (hsha : Set.InjOn sha256 used)
    (clock : Datetime) (acts : List Act) (hacts : ∀ a ∈ acts, ∀ token ∈ a.op.tokens, token ∈ used) (s : System)
    (hrun : exec (step sha256) (empty clock) acts = some s) (token : String) (htoken : token ∈ used) (now : Datetime)
    (hnow : s.clock.micros ≤ now.micros) :
    ((validateRefreshToken sha256 s.tokens now token).isSome = true ↔ Standing s.history token now) ∧
    (Ended s.history token now → ∀ later : List Act, (∀ a ∈ later, ∀ token ∈ a.op.tokens, token ∈ used) →
      ∀ s', exec (step sha256) { s with clock := now } later = some s' →
      ∀ time : Datetime, s'.clock.micros ≤ time.micros →
        validateRefreshToken sha256 s'.tokens time token = none) ∧
    ∀ token' ∈ used, token' ≠ token → validateRefreshToken sha256 (revokeRefreshToken sha256 s.tokens token') now token =
      validateRefreshToken sha256 s.tokens now token := by
  have hs : Sound sha256 used s := sound_exec hsha (sound_empty sha256 used clock) hacts hrun
  refine ⟨validate_iff_standing hs htoken hnow, fun hended later hlater s' hrun' time htime => ?_, ?_⟩
  · exact ended_forever hsha (hs.wait hnow) htoken hended hlater hrun' htime
  · exact fun token' htoken' hne => validate_revoke hsha htoken s.tokens htoken' hne now

/-- The digests of two tokens. -/
def sampleDigest (token : String) : String :=
  if token = "laptop" then "5eec0dc419aa8337bf725f026fda9c78c1cb1c642eeaff9d6e1112f37783e942"
  else if token = "phone" then "45569da57f4b7bf472d7a864ef4781451cae6383fee9fb0ae40c59aa1ce475b7"
  else token

def sampleTime (hours : ℕ) (h : hours < 80000000) : Datetime :=
  ⟨hours * 3600000000, by
    have hyear : daysBeforeYear 9999 = 3652059 := by decide
    omega⟩

def sampleActs : List Act :=
  [⟨sampleTime 17760000 (by decide), .store 1 "laptop" "" ""⟩,
    ⟨sampleTime 17760001 (by decide), .store 1 "phone" "" ""⟩, ⟨sampleTime 17760002 (by decide), .revoke "phone"⟩]

theorem sampleDigest_injOn : Set.InjOn sampleDigest {"laptop", "phone"} := by
  rintro a (rfl | rfl) b (rfl | rfl) h
  · rfl
  · exact absurd h (by decide)
  · exact absurd h (by decide)
  · rfl

theorem standing_laptop : Standing
    [.stored "laptop" 1 (sampleTime 17760000 (by decide)), .stored "phone" 1 (sampleTime 17760001 (by decide)),
      .revoked "phone"] "laptop" (sampleTime 17760003 (by decide)) := by
  refine ⟨0, 1, sampleTime 17760000 (by decide), rfl, by decide, by decide, ?_⟩
  rintro ⟨j, e, -, he, hends⟩
  have hkept : ∀ e ∈ [Event.stored "laptop" 1 (sampleTime 17760000 (by decide)),
      .stored "phone" 1 (sampleTime 17760001 (by decide)), .revoked "phone"], e.ends "laptop" 1 = false := by decide
  rw [hkept e (List.mem_of_getElem? he)] at hends
  cases hends

/-- One of two tokens is revoked, and the other is valid an hour later. -/
theorem token_lifecycle_laptop :
    ∃ s, exec (step sampleDigest) (empty (sampleTime 0 (by decide))) sampleActs = some s ∧
      Standing s.history "laptop" (sampleTime 17760003 (by decide)) ∧
      (validateRefreshToken sampleDigest s.tokens (sampleTime 17760003 (by decide)) "laptop").isSome = true :=
  ⟨_, rfl, standing_laptop, (token_lifecycle sampleDigest {"laptop", "phone"} sampleDigest_injOn
    (sampleTime 0 (by decide)) sampleActs (by decide) _ rfl "laptop" (.inl rfl) (sampleTime 17760003 (by decide))
    (by decide)).1.mpr standing_laptop⟩

/-! ## The table with times as numbers -/

/-- The same row, and the text of its expiry is that of the number. -/
structure Reads (row : TokenRow) (number : RefreshToken) : Prop where
  userId : row.userId = number.userId
  tokenHash : row.tokenHash = number.tokenHash
  revoked : row.revoked = number.revoked
  expiresAt : ∃ expires : Datetime, expires.isoformat = row.expiresAt ∧ expires.micros = number.expiresAt

def Represents (tokens : TokenTable) (numbers : RefreshTokens) : Prop :=
  ∀ k, Option.Rel Reads (tokens.find k) (numbers.find k)

section
variable {sha256 : String → String} {tokens : TokenTable} {numbers : RefreshTokens} (h : Represents tokens numbers)
include h

theorem store_represents {tokens' : TokenTable} {now : Datetime} {userId : ℕ} {token userAgent remoteIp : String}
    (hstore : storeRefreshToken sha256 tokens now userId token userAgent remoteIp = some tokens') :
    ∃ numbers', Db.storeRefreshToken numbers now.micros userId (sha256 token) = some numbers' ∧
      Represents tokens' numbers' := by
  obtain ⟨row, expires, hadd, hexpires, hrevoked, rfl, hnone, hfind⟩ := store_spec hstore
  have hfree : numbers.find (sha256 token) = none := by
    have := h (sha256 token)
    rw [hnone] at this
    cases hq : numbers.find (sha256 token) with
    | none => rfl
    | some q =>
      rw [hq] at this
      cases this
  cases hinsert : numbers.insert ⟨row.userId, sha256 token, now.micros + days 7, false⟩ with
  | none =>
    obtain ⟨q, hq⟩ := insert_eq_none numbers hinsert
    rw [hfree] at hq
    cases hq
  | some numbers' =>
    refine ⟨numbers', hinsert, fun k => ?_⟩
    have hself : tokens'.find (sha256 token) = some row := by rw [hfind, if_pos rfl]
    have hreads : Reads row ⟨row.userId, sha256 token, now.micros + days 7, false⟩ :=
      ⟨rfl, find_key tokens' hself, hrevoked, expires, hexpires.symm, Datetime.add_micros hadd⟩
    rw [hfind, find_insert numbers hinsert]
    by_cases hk : sha256 token = k
    · rw [if_pos hk, if_pos hk]
      exact .some hreads
    · rw [if_neg hk, if_neg hk]
      exact h k

theorem revoke_represents (token : String) :
    Represents (revokeRefreshToken sha256 tokens token) (Db.revokeRefreshToken numbers (sha256 token)) := by
  intro k
  rw [revokeRefreshToken, find_modify, Db.revokeRefreshToken, find_modify]
  have hk := h k
  generalize tokens.find k = row at hk ⊢
  generalize numbers.find k = number at hk ⊢
  split_ifs
  · cases hk with
    | none => exact .none
    | some hreads => exact .some ⟨hreads.userId, hreads.tokenHash, rfl, hreads.expiresAt⟩
  · exact hk

theorem validate_represents (token : String) (now : Datetime) :
    Option.Rel Reads (validateRefreshToken sha256 tokens now token)
      (Db.validateRefreshToken numbers now.micros (sha256 token)) := by
  have hk := h (sha256 token)
  rw [validateRefreshToken, Db.validateRefreshToken]
  generalize tokens.find (sha256 token) = found at hk ⊢
  generalize numbers.find (sha256 token) = found' at hk ⊢
  cases hk with
  | none => exact .none
  | @some row number hreads =>
    obtain ⟨expires, htext, hnumber⟩ := hreads.expiresAt
    have hlt : now.isoformat < row.expiresAt ↔ now.micros < number.expiresAt := by
      rw [← htext, ← hnumber, String.lt_iff, isoformat_lt_iff]
    simp only [Option.filter_some, hreads.revoked, hlt]
    split_ifs
    · exact .some hreads
    · exact .none

end

end Cadsa.Tokens
