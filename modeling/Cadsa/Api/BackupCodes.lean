import Cadsa.Lib.Calls
import Cadsa.Api.Effects

/-! `consume_backup_code` in several requests at once. The call reads the row on one connection and
writes the shortened list on another, and the write does not look whether the list is still the
one it was taken from. -/
namespace Cadsa.BackupCodes
open Db Auth Calls Runs
set_option autoImplicit false

structure Attempt where
  userId : ℕ
  code : String
  deriving DecidableEq

/-- It returns whether the code was accepted, or nothing when `ph.verify` raises. -/
def consumeBackupCode (verify : String → String → Verdict) :
    Protocol Users Empty Unit Attempt (Option UserRow) Consumption (Option Bool) where
  load users arg := getUserById users arg.userId
  decide _ arg row := checkBackupCode verify arg.code row
  commit _ arg d users :=
    match d with
    | .accepted left => (writeBackupCodes users arg.userId left, some true)
    | .refused => (users, some false)
    | .raised => (users, none)
  event e _ := e.elim

theorem loginBackupCode_alone (env : Env) (draws : Draws) (now : Time) (s : Server) {partialToken : String} {userId : ℕ}
    (code : String) (h : livePartialToken now s partialToken = some userId) :
    (loginBackupCode env draws now s partialToken code).1.users =
      match alone (consumeBackupCode env.verifyHash) () s.users ⟨userId, code⟩ with
      | (users, some true) => recordLoginSuccess users now userId
      | (users, _) => users := by
  simp only [loginBackupCode, h, alone, consumeBackupCode, dropPartialToken]
  cases checkBackupCode env.verifyHash code (getUserById s.users userId) with
  | accepted left => exact issueTokens_users ..
  | refused => rfl
  | raised => rfl

abbrev Sys := System Users Attempt (Option UserRow) Consumption (Option Bool)

abbrev Consume := Call Attempt (Option UserRow) Consumption (Option Bool)

def accepted (c : Consume) : Bool :=
  match c.phase with
  | .finished _ (some true) => true
  | _ => false

def storedCodes (users : Users) (userId : ℕ) : List String := ((users.account userId).bind Account.backupCodes).getD []

def rowCodes (row : Option UserRow) : List String := (row.bind (·.account.backupCodes)).getD []

def acceptedRow (c : Consume) : Option (Option UserRow) :=
  match c.phase with
  | .decided row (.accepted _) => some row
  | _ => none

section
variable (verify : String → String → Verdict)

/-- A code is accepted once, and is not among the stored ones afterwards. -/
def SingleUse (s : Sys) : Prop :=
  (∀ arg, s.calls.countP (fun c => c.arg = arg && accepted c) ≤ 1) ∧
    ∀ c ∈ s.calls, accepted c = true → ∀ hashed ∈ storedCodes s.store c.arg.userId, verify hashed c.arg.code ≠ .ok

/-- What is shortened is the list that is stored, and the code is on it once. -/
def UpToDate (s : Sys) (a : Action Unit Empty) : Prop :=
  ∀ c ∈ turn s a, ∀ row ∈ acceptedRow c, rowCodes row = storedCodes s.store c.arg.userId ∧
    (rowCodes row).countP (fun hashed => verify hashed c.arg.code = .ok) ≤ 1

instance (s : Sys) (a : Action Unit Empty) : Decidable (UpToDate verify s a) :=
  inferInstanceAs (Decidable (∀ c ∈ turn s a, ∀ row ∈ acceptedRow c, _ ∧ _))

def OneCode : Prop := ∀ hashed code code', verify hashed code = .ok → verify hashed code' = .ok → code = code'

/-- A row that was read is the stored one, or has a code that was accepted since. -/
structure Fresh (s : Sys) (userId : ℕ) (row : Option UserRow) : Prop where
  known : row.isSome = true → (s.store.account userId).isSome = true
  current : rowCodes row = storedCodes s.store userId ∨
    ∃ c ∈ s.calls, accepted c = true ∧ c.arg.userId = userId ∧ ∃ hashed ∈ rowCodes row, verify hashed c.arg.code = .ok

def Sound (s : Sys) (c : Consume) : Prop :=
  match c.phase with
  | .loaded row => Fresh verify s c.arg.userId row
  | .decided row d => Fresh verify s c.arg.userId row ∧ d = checkBackupCode verify c.arg.code row
  | _ => True

def Inv (s : Sys) : Prop := ∀ c ∈ s.calls, Sound verify s c

end

/-! ## The list after a write -/

section
variable {verify : String → String → Verdict} {s s' : Sys}

theorem storedCodes_write_self {users : Users} {userId : ℕ} (left : List String)
    (h : (users.account userId).isSome = true) : storedCodes (writeBackupCodes users userId left) userId = left := by
  obtain ⟨a, ha⟩ := Option.isSome_iff_exists.mp h
  simp [storedCodes, writeBackupCodes, ha]

theorem storedCodes_write_of_ne (users : Users) {userId v : ℕ} (left : List String) (h : v ≠ userId) :
    storedCodes (writeBackupCodes users userId left) v = storedCodes users v := by
  simp [storedCodes, writeBackupCodes, h]

theorem isSome_account_write (users : Users) (userId v : ℕ) (left : List String) :
    ((writeBackupCodes users userId left).account v).isSome = (users.account v).isSome := by
  rw [writeBackupCodes, account_update]
  split_ifs <;> simp

theorem rowCodes_of_load (users : Users) (userId : ℕ) : rowCodes (getUserById users userId) = storedCodes users userId := by
  rw [rowCodes, storedCodes, Users.account]
  cases getUserById users userId <;> rfl

theorem rowCodes_of_accepted {code : String} {row : Option UserRow} {left : List String}
    (h : checkBackupCode verify code row = .accepted left) :
    row.isSome = true ∧ ∃ before hashed after, rowCodes row = before ++ hashed :: after ∧ left = before ++ after ∧
      verify hashed code = .ok := by
  obtain ⟨before, hashed, after, hrow, hleft, hv, -⟩ := checkBackupCode_accepted h
  refine ⟨?_, before, hashed, after, by rw [rowCodes, hrow]; rfl, hleft, hv⟩
  cases row with
  | none => cases hrow
  | some row => rfl

theorem Fresh.mono {userId : ℕ} {row : Option UserRow} (h : Fresh verify s userId row)
    (hk : (s.store.account userId).isSome = true → (s'.store.account userId).isSome = true)
    (hcodes : storedCodes s'.store userId = storedCodes s.store userId)
    (hacc : ∀ c ∈ s.calls, accepted c = true → c ∈ s'.calls) : Fresh verify s' userId row := by
  refine ⟨fun hrow => hk (h.known hrow), ?_⟩
  rcases h.current with hc | ⟨c, hc, ha, hrest⟩
  · exact .inl (hc.trans hcodes.symm)
  · exact .inr ⟨c, hacc c hc ha, ha, hrest⟩

theorem Sound.mono {c : Consume} (h : Sound verify s c)
    (hf : ∀ row, Fresh verify s c.arg.userId row → Fresh verify s' c.arg.userId row) : Sound verify s' c := by
  obtain ⟨arg, phase⟩ := c
  cases phase with
  | ready => trivial
  | loaded row => exact hf row h
  | decided row d => exact ⟨hf row h.1, h.2⟩
  | finished d result => trivial

end

theorem countP_le_one_iff {α : Type} {p : α → Bool} {before after : List α} {x : α} (hx : p x = true) :
    (before ++ x :: after).countP p ≤ 1 ↔ ∀ y ∈ before ++ after, p y = false := by
  have hcount : (before ++ x :: after).countP p = (before ++ after).countP p + 1 := by
    simp only [List.countP_append, List.countP_cons, hx, if_true]
    omega
  rw [hcount, Nat.succ_le_succ_iff, Nat.le_zero, List.countP_eq_zero]
  simp

/-! ## One step -/

/-- The two kinds of step: one call goes on and the store stays, or an accepted code is written off. -/
inductive Steps (verify : String → String → Verdict) (s : Sys) (a : Action Unit Empty) : Sys → Prop where
  | quiet {before after : List Consume} {c c' : Consume} (hc : s.calls = before ++ c :: after)
      (hn : accepted c = false) (hn' : accepted c' = false) (hsound : Sound verify ⟨s.store, before ++ c' :: after⟩ c')
      (ht : ∀ c ∈ turn s a, acceptedRow c = none) :
      Steps verify s a ⟨s.store, before ++ c' :: after⟩
  | accept {before after : List Consume} {arg : Attempt} {row : Option UserRow} {left : List String}
      (hc : s.calls = before ++ ⟨arg, .decided row (.accepted left)⟩ :: after)
      (ht : turn s a = some ⟨arg, .decided row (.accepted left)⟩) :
      Steps verify s a ⟨writeBackupCodes s.store arg.userId left,
        before ++ ⟨arg, .finished (.accepted left) (some true)⟩ :: after⟩

section
variable {verify : String → String → Verdict} {s s' : Sys} {a : Action Unit Empty}

theorem fresh_replace {before after : List Consume} {c c' : Consume} {userId : ℕ} {row : Option UserRow}
    (hc : s.calls = before ++ c :: after) (hn : accepted c = false) (hf : Fresh verify s userId row) :
    Fresh verify ⟨s.store, before ++ c' :: after⟩ userId row := by
  refine hf.mono id rfl fun x hx ha => ?_
  rw [hc] at hx
  refine mem_replace hx ?_
  rintro rfl
  rw [hn] at ha
  cases ha

theorem steps (hi : Inv verify s) (h : step (consumeBackupCode verify) s a = some s') : Steps verify s a s' := by
  cases moves _ h with
  | event e => exact e.elim
  | @load i input before after arg hc ht =>
    refine .quiet hc rfl rfl ?_ (by simp [ht, acceptedRow])
    refine ⟨fun hrow => ?_, .inl (rowCodes_of_load s.store arg.userId)⟩
    rw [Users.account, Option.isSome_map]
    exact hrow
  | @decide i input before after arg row hc ht =>
    refine .quiet hc rfl rfl ⟨?_, rfl⟩ (by simp [ht, acceptedRow])
    exact fresh_replace hc rfl (hi ⟨arg, .loaded row⟩ (by simp [hc]))
  | @commit i input before after arg row d hc ht =>
    cases d with
    | accepted left => exact .accept hc ht
    | refused => exact .quiet hc rfl rfl trivial (by simp [ht, acceptedRow])
    | raised => exact .quiet hc rfl rfl trivial (by simp [ht, acceptedRow])

theorem inv_step (hi : Inv verify s) (h : step (consumeBackupCode verify) s a = some s') (hg : UpToDate verify s a) :
    Inv verify s' := by
  cases steps hi h with
  | @quiet before after c c' hc hn hn' hsound ht =>
    intro x hx
    rcases mem_of_mem_replace (d := c) hx with rfl | hx
    · exact hsound
    · exact (hi x (hc ▸ hx)).mono fun row hf => fresh_replace hc hn hf
  | @accept before after arg row left hc ht =>
    intro x hx
    rcases mem_of_mem_replace (d := ⟨arg, .decided row (.accepted left)⟩) hx with rfl | hx
    · trivial
    obtain ⟨-, hdec⟩ := hi ⟨arg, .decided row (.accepted left)⟩ (by simp [hc])
    obtain ⟨-, bef, hashed, aft, hrow, -, hv⟩ := rowCodes_of_accepted hdec.symm
    refine (hi x (hc ▸ hx)).mono fun row' hf => ?_
    have hk := isSome_account_write s.store arg.userId x.arg.userId left
    by_cases hu : x.arg.userId = arg.userId
    · -- the list that the others have read still has the code that is written off
      refine ⟨fun hr => hk.trans (hf.known hr), .inr ?_⟩
      rcases hf.current with hcur | ⟨y, hy, ha, hrest⟩
      · refine ⟨⟨arg, .finished (.accepted left) (some true)⟩, by simp, rfl, hu.symm, hashed, ?_, hv⟩
        rw [hcur, hu, ← (hg _ ht row rfl).1, hrow]
        simp
      · refine ⟨y, mem_replace (hc ▸ hy) ?_, ha, hrest⟩
        rintro rfl
        cases ha
    · refine hf.mono hk.trans (storedCodes_write_of_ne _ _ hu) fun y hy ha => ?_
      refine mem_replace (hc ▸ hy) ?_
      rintro rfl
      cases ha

theorem singleUse_step (hi : Inv verify s) (hp : SingleUse verify s)
    (h : step (consumeBackupCode verify) s a = some s') (hg : UpToDate verify s a) : SingleUse verify s' := by
  obtain ⟨hcount, hgone⟩ := hp
  cases steps hi h with
  | @quiet before after c c' hc hn hn' hsound ht =>
    constructor
    · intro arg
      have := hcount arg
      simp only [hc, List.countP_append, List.countP_cons, hn, hn', Bool.and_false, Bool.false_eq_true, if_false] at this ⊢
      exact this
    · intro x hx ha
      rcases mem_of_mem_replace (d := c) hx with rfl | hx
      · rw [hn'] at ha
        cases ha
      · exact hgone x (hc ▸ hx) ha
  | @accept before after arg row left hc ht =>
    obtain ⟨hrow, hdec⟩ := hi ⟨arg, .decided row (.accepted left)⟩ (by simp [hc])
    obtain ⟨hsome, bef, hashed, aft, hcodes, rfl, hv⟩ := rowCodes_of_accepted hdec.symm
    obtain ⟨hcur, honce⟩ := hg _ ht row rfl
    have hstored : storedCodes s.store arg.userId = bef ++ hashed :: aft := hcur.symm.trans hcodes
    have hleft : ∀ g ∈ bef ++ aft, verify g arg.code ≠ .ok := by
      rw [hcodes, countP_le_one_iff (by simpa using hv)] at honce
      simpa using honce
    constructor
    · intro arg'
      have hold := hcount arg'
      rw [hc, List.countP_append, List.countP_cons_of_neg (by simp [accepted]), ← List.countP_append] at hold
      by_cases ha : arg' = arg
      · -- a call that was accepted before would have taken the hash with it
        subst ha
        rw [countP_le_one_iff (by simp [accepted])]
        intro x hx
        by_contra hacc
        simp only [Bool.not_eq_false, Bool.and_eq_true, decide_eq_true_eq] at hacc
        exact hgone x (hc ▸ mem_insert hx) hacc.2 hashed (by rw [hacc.1, hstored]; simp) (by rw [hacc.1]; exact hv)
      · rw [List.countP_append, List.countP_cons_of_neg (by simp [Ne.symm ha]), ← List.countP_append]
        exact hold
    · intro x hx ha g hg
      have hstored' := storedCodes_write_self (bef ++ aft) (hrow.known hsome)
      rcases mem_of_mem_replace (d := ⟨arg, .decided row (.accepted (bef ++ aft))⟩) hx with rfl | hx
      · rw [hstored'] at hg
        exact hleft g hg
      · refine hgone x (hc ▸ hx) ha g ?_
        by_cases hu : x.arg.userId = arg.userId
        · rw [hu, hstored'] at hg
          rw [hu, hstored]
          simp only [List.mem_append, List.mem_cons] at hg ⊢
          exact hg.imp_right .inr
        · rw [storedCodes_write_of_ne _ _ hu] at hg
          exact hg

theorem upToDate_of_singleUse (hd : OneCode verify) (hi : Inv verify s)
    (h : step (consumeBackupCode verify) s a = some s') (hp : SingleUse verify s') : UpToDate verify s a := by
  intro c ht row hrow
  cases steps hi h with
  | quiet hc hn hn' hsound hne => simp [hne c ht] at hrow
  | @accept before after arg' row' left' hc ht' =>
    obtain rfl := Option.some.inj (ht'.symm.trans ht)
    obtain rfl := Option.some.inj hrow
    obtain ⟨hrow, hdec⟩ := hi ⟨arg', .decided row' (.accepted left')⟩ (by simp [hc])
    obtain ⟨hsome, bef, hashed, aft, hcodes, rfl, hv⟩ := rowCodes_of_accepted hdec.symm
    obtain ⟨hcount, hgone⟩ := hp
    have hstored' := storedCodes_write_self (bef ++ aft) (hrow.known hsome)
    constructor
    · rcases hrow.current with hcur | ⟨y, hy, ha, hu, g, hg, hvg⟩
      · exact hcur
      have hy' : y ∈ before ++ after := by
        have hne : y ≠ ⟨arg', .decided row' (.accepted (bef ++ aft))⟩ := by
          rintro rfl
          cases ha
        simpa [hc, hne] using hy
      have hgleft : g ∉ bef ++ aft := fun hmem' => hgone y (mem_insert hy') ha g (by rw [hu, hstored']; exact hmem') hvg
      obtain rfl : g = hashed := by
        rw [hcodes] at hg
        simp only [List.mem_append, List.mem_cons, not_or] at hg hgleft
        simpa [hgleft] using hg
      -- the same code would have been accepted twice
      have harg : y.arg = arg' := by
        have hcode := hd g _ _ hvg hv
        cases hya : y.arg
        cases arg'
        simp_all
      have htwice := (countP_le_one_iff (by simp [accepted])).mp (hcount arg') y hy'
      simp [harg, ha] at htwice
    · rw [hcodes, countP_le_one_iff (by simpa using hv)]
      intro g hg
      have hne := hgone ⟨arg', .finished (.accepted (bef ++ aft)) (some true)⟩ (by simp) rfl g (by rw [hstored']; exact hg)
      simpa using hne

end

/-- **Single use.** In every interleaving of the calls a code is accepted once and then gone, if and only if
every list is still the stored one when an accepted code is written off, and has the code once. -/
theorem single_use_iff (verify : String → String → Verdict) (hd : OneCode verify) (users : Users)
    (args : List Attempt) (as : List (Action Unit Empty)) :
    Visited (step (consumeBackupCode verify)) (SingleUse verify) (start users args) as ↔
      Along (step (consumeBackupCode verify)) (fun s a _ => UpToDate verify s a) (start users args) as := by
  have hnone : ∀ c ∈ (start users args : Sys).calls, accepted c = false := fun c hc => by
    rw [accepted, ready_of_mem_start hc]
  refine visited_iff_along (fun s a s' hi hp hs hg => ⟨inv_step hi hs hg, singleUse_step hi hp hs hg⟩)
    (fun s a s' hi _ hs hp => upToDate_of_singleUse hd hi hs hp) ?_ ⟨fun arg => ?_, fun c hc ha => ?_⟩
  · intro c hc
    rw [Sound, ready_of_mem_start hc]
    trivial
  · rw [List.countP_eq_zero.mpr fun c hc => by simp [hnone c hc]]
    exact Nat.zero_le 1
  · rw [hnone c hc] at ha
    cases ha

theorem oneCode_plain : OneCode plainEnv.verifyHash := by
  intro hashed code code' h h'
  have hplain : ∀ c, plainEnv.verifyHash hashed c = .ok → hashed = "#" ++ c := fun c hc => by
    by_contra hn
    simp [plainEnv, hn] at hc
  simpa using (hplain code h).symm.trans (hplain code' h')

theorem single_use_in_turn : Visited (step (consumeBackupCode plainEnv.verifyHash)) (SingleUse plainEnv.verifyHash)
    (start adminOnly.users [⟨1, "c2"⟩, ⟨1, "c1"⟩, ⟨1, "c2"⟩])
    ((List.range 3).flatMap fun i => List.replicate 3 (.call i ())) :=
  (single_use_iff _ oneCode_plain _ _ _).mpr (by decide +kernel)

theorem code_used_twice : OneCode plainEnv.verifyHash ∧
    ¬ Visited (step (consumeBackupCode plainEnv.verifyHash)) (SingleUse plainEnv.verifyHash)
      (start adminOnly.users [⟨1, "c1"⟩, ⟨1, "c1"⟩])
      [.call 0 (), .call 1 (), .call 0 (), .call 1 (), .call 0 (), .call 1 ()] := by
  refine ⟨oneCode_plain, fun h => ?_⟩
  have hend := (h.of_exec rfl).1 ⟨1, "c1"⟩
  exact absurd hend (by decide +kernel)

end Cadsa.BackupCodes
