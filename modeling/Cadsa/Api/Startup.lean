import Cadsa.Api.Effects

/-! Starting the server again and again: `main.py` creates the user `admin` with a default password where there is
none. Whatever requests come between two starts, the default password is accepted just as long as the user still has
to change it, and no start brings it back. -/
namespace Cadsa.Startup
open Db Auth Tables Runs
set_option autoImplicit false

/-! ## `create_user` and `_ensure_admin_user` -/

/-- With the id of the new row; nothing where the name is taken. -/
def createUser (users : Users) (username passwordHash email : String) (mustChangePassword : Bool) : Option (Users × ℕ) :=
  if h : username ∈ users.table.rows.map UserRow.username then none
  else
    let row : UserRow := ⟨nextKey (users.table.rows.map UserRow.id), username, some email,
      ⟨passwordHash, true, mustChangePassword, none, false, none, none, 0, none⟩⟩
    some (⟨users.table.push row (nextKey_fresh _), nodup_map_concat users.names h⟩, row.id)

/-- The hash is one of `"admin"`. -/
def ensureAdminUser (users : Users) (pwHash : String) : Option Users :=
  match getUserByUsername users "admin" with
  | some _ => some users
  | none => (createUser users "admin" pwHash "" true).map Prod.fst

/-! ## Starts and requests -/

inductive Event
  | start (pwHash : String)
  | call (c : Call)

def boot : Server := ⟨0, ⟨⟨[], List.nodup_nil⟩, List.nodup_nil⟩, ⟨[], List.nodup_nil⟩, fun _ => none⟩

/-- The partial tokens live in the memory of the process. -/
def step (env : Env) (s : Server) : Event → Option Server
  | .start pwHash => (ensureAdminUser s.users pwHash).map fun users => { s with users, partialTokens := fun _ => none }
  | .call c => Auth.step env s c

/-- What is documented of argon2: a hash verifies the password that it was made of, and no other. -/
def Hashes (env : Env) : Event → Prop
  | .start pwHash => ∀ password, env.verifyPassword pwHash password = true ↔ password = "admin"
  | .call ⟨_, draws, .changePassword _ _ new⟩ =>
    ∀ password, env.verifyPassword draws.passwordHash password = true ↔ password = new
  | .call _ => True

/-- The default password is accepted of the account just while it has to be changed. -/
def Owed (env : Env) (a : Account) : Prop :=
  env.verifyPassword a.passwordHash "admin" = true ↔ a.mustChangePassword = true

/-- There is no user but `admin`. -/
structure Guarded (env : Env) (s : Server) : Prop where
  names : ∀ name ∈ s.users.table.rows.map UserRow.username, name = "admin"
  owed : ∀ userId a, s.users.account userId = some a → Owed env a

/-- An account stays; a start leaves it as it is, and no password is owed again. -/
def Stays (s : Server) (e : Event) (s' : Server) : Prop :=
  ∀ userId a, s.users.account userId = some a → ∃ a', s'.users.account userId = some a' ∧
    (∀ pwHash, e = .start pwHash → a' = a) ∧ (a.mustChangePassword = false → a'.mustChangePassword = false)

/-! ## What a request does to the names and the passwords -/

theorem update_names (users : Users) (userId : ℕ) (f : Account → Account) :
    (users.update userId f).table.rows.map UserRow.username = users.table.rows.map UserRow.username := by
  show (users.table.modify userId (UserRow.change f) (UserRow.change_id f)).rows.map UserRow.username = _
  rw [rows_modify, map_setRow UserRow.username (UserRow.change_username f)]

theorem apply_names (e : Effect) (now : Time) (users : Users) :
    (e.apply now users).table.rows.map UserRow.username = users.table.rows.map UserRow.username := by
  cases e with
  | none => rfl
  | failed userId => apply update_names
  | accepted userId codes =>
    cases codes with
    | none => apply update_names
    | some left => exact (update_names _ _ _).trans (update_names _ _ _)
  | newPassword userId hash => apply update_names
  | newSecret userId secret => apply update_names
  | confirmed userId codes => apply update_names

section
variable {env : Env} {s s' : Server}

theorem effect_newPassword {c : Call} {userId : ℕ} {hash : String} (h : effect env s c = .newPassword userId hash) :
    ∃ credentials current new, c.request = .changePassword credentials current new ∧ weakPassword env new = none ∧
      hash = c.draws.passwordHash := by
  unfold effect at h
  split at h
  · split at h
    · cases h
    · cases h
    · split_ifs at h
  · next credentials current new hrequest =>
    split at h
    · cases h
    · split_ifs at h with hcond
      cases h
      have hstrong := (Bool.and_eq_true_iff.mp hcond).1
      exact ⟨credentials, current, new, hrequest, Option.isNone_iff_eq_none.mp hstrong, rfl⟩
  · split at h
    · cases h
    · cases h
  · split at h
    · cases h
    · split at h <;> cases h
  · split at h <;> cases h

/-- The default password is too short to be chosen. -/
theorem strong_ne_default {new : String} (h : weakPassword env new = none) : "admin" ≠ new := by
  rintro rfl
  cases h

theorem owed_onAccount {c : Call} (hhash : Hashes env (.call c)) {userId : ℕ} {a : Account} (h : Owed env a) :
    Owed env ((effect env s c).onAccount userId c.now a) ∧
      (a.mustChangePassword = false → ((effect env s c).onAccount userId c.now a).mustChangePassword = false) := by
  cases heffect : effect env s c with
  | none => exact ⟨h, id⟩
  | failed v => by_cases hv : userId = v <;> simpa [Effect.onAccount, hv, Account.fail, Owed] using h
  | accepted v codes => by_cases hv : userId = v <;> simpa [Effect.onAccount, hv, Owed] using h
  | newSecret v secret => by_cases hv : userId = v <;> simpa [Effect.onAccount, hv, Owed] using h
  | confirmed v codes => by_cases hv : userId = v <;> simpa [Effect.onAccount, hv, Owed] using h
  | newPassword v hash =>
    obtain ⟨credentials, current, new, hrequest, hstrong, rfl⟩ := effect_newPassword heffect
    obtain ⟨now, draws, request⟩ := c
    obtain rfl : request = .changePassword credentials current new := hrequest
    have hdefault : env.verifyPassword draws.passwordHash "admin" = false :=
      Bool.eq_false_iff.mpr fun hv => strong_ne_default hstrong ((hhash "admin").mp hv)
    by_cases hv : userId = v
    · simp [Effect.onAccount, hv, Owed, hdefault]
    · simpa [Effect.onAccount, hv, Owed] using h

theorem guarded_call {c : Call} (hs : Guarded env s) (hhash : Hashes env (.call c))
    (hstep : Auth.step env s c = some s') :
    Guarded env s' ∧ Stays s (.call c) s' := by
  have haccount := step_account hstep
  have hnames : s'.users.table.rows.map UserRow.username = s.users.table.rows.map UserRow.username := by
    unfold Auth.step at hstep
    split_ifs at hstep
    cases hstep
    show (handle env s c).1.users.table.rows.map UserRow.username = _
    rw [handle_users, apply_names]
  refine ⟨⟨fun name hname => hs.names name (hnames ▸ hname), fun userId a' ha' => ?_⟩, fun userId a ha => ?_⟩
  · rw [haccount, Option.map_eq_some_iff] at ha'
    obtain ⟨a, ha, rfl⟩ := ha'
    exact (owed_onAccount hhash (hs.owed userId a ha)).1
  · rw [haccount, ha]
    exact ⟨_, rfl, nofun, (owed_onAccount hhash (hs.owed userId a ha)).2⟩

/-! ## What a start does -/

theorem ensureAdminUser_of_some {users : Users} {user : UserRow} (h : getUserByUsername users "admin" = some user)
    (pwHash : String) : ensureAdminUser users pwHash = some users := by
  rw [ensureAdminUser, h]

theorem createUser_rows {users users' : Users} {username passwordHash email : String} {mustChangePassword : Bool} {id : ℕ}
    (h : createUser users username passwordHash email mustChangePassword = some (users', id)) :
    users'.table.rows = users.table.rows ++ [⟨id, username, some email,
      ⟨passwordHash, true, mustChangePassword, none, false, none, none, 0, none⟩⟩] := by
  rw [createUser] at h
  split_ifs at h
  obtain ⟨rfl, rfl⟩ := Prod.mk.inj (Option.some.inj h)
  rfl

theorem account_singleton {users : Users} {r : UserRow} (h : users.table.rows = [r]) (userId : ℕ) :
    users.account userId = if r.id = userId then some r.account else none := by
  rw [Users.account, getUserById, Table.find, Table.findBy, h, List.find?_singleton]
  by_cases hid : r.id = userId
  all_goals simp [hid]

/-- Where all users are `admin` and there is no `admin`, there are no users. -/
theorem rows_nil {users : Users} (hnames : ∀ name ∈ users.table.rows.map UserRow.username, name = "admin")
    (h : getUserByUsername users "admin" = none) : users.table.rows = [] := by
  rw [List.eq_nil_iff_forall_not_mem]
  intro r hr
  have hname := hnames r.username (List.mem_map_of_mem hr)
  have hnone := List.find?_eq_none.mp h r hr
  simp [hname] at hnone

theorem guarded_start {pwHash : String} (hs : Guarded env s) (hhash : Hashes env (.start pwHash))
    (hstep : step env s (.start pwHash) = some s') : Guarded env s' ∧ Stays s (.start pwHash) s' := by
  obtain ⟨users, husers, rfl⟩ := Option.map_eq_some_iff.mp hstep
  cases hadmin : getUserByUsername s.users "admin" with
  | some user =>
    rw [ensureAdminUser_of_some hadmin] at husers
    cases husers
    exact ⟨⟨hs.names, hs.owed⟩, fun userId a ha => ⟨a, ha, fun _ _ => rfl, id⟩⟩
  | none =>
    have hnil := rows_nil hs.names hadmin
    have hempty : ∀ userId, s.users.account userId = none := by
      intro userId
      rw [Users.account, getUserById, Table.find, Table.findBy, hnil]
      rfl
    rw [ensureAdminUser, hadmin] at husers
    obtain ⟨⟨created, id⟩, hcreated, rfl⟩ := Option.map_eq_some_iff.mp husers
    have hrows := createUser_rows hcreated
    rw [hnil, List.nil_append] at hrows
    refine ⟨⟨fun name hname => ?_, fun userId a ha => ?_⟩, fun userId a ha => ?_⟩
    · rw [hrows] at hname
      exact List.mem_singleton.mp hname
    · rw [account_singleton hrows] at ha
      split_ifs at ha
      cases ha
      exact iff_of_true ((hhash "admin").mpr rfl) rfl
    · rw [hempty] at ha
      cases ha

theorem guarded_step {e : Event} (hs : Guarded env s) (hhash : Hashes env e) (hstep : step env s e = some s') :
    Guarded env s' ∧ Stays s e s' := by
  cases e with
  | start pwHash => exact guarded_start hs hhash hstep
  | call c => exact guarded_call hs hhash hstep

theorem guarded_boot (env : Env) : Guarded env boot where
  names := nofun
  owed := nofun

theorem account_of_right {now : Time} {username password : String} {user : UserRow}
    (h : judgeLogin env now password (getUserByUsername s.users username) = .right user) :
    s.users.account user.id = some user.account ∧ env.verifyPassword user.account.passwordHash password = true := by
  have hgate := loginGate_of_judge (.inr h)
  refine ⟨(account_of_gate hgate).1, ?_⟩
  rw [judgeLogin, hgate] at h
  by_contra hwrong
  simp [hwrong] at h

/-! ## Over every run -/

/-- **The default password**: in any run of starts and requests, whoever logs in with it has to change it, and once it
is changed it is not accepted again, not after a start either. -/
theorem default_password_owed (es : List Event) (hhash : ∀ e ∈ es, Hashes env e) :
    Visited (step env) (fun s => Guarded env s ∧ ∀ now username user,
      judgeLogin env now "admin" (getUserByUsername s.users username) = .right user →
        user.account.mustChangePassword = true) boot es ∧
    Along (step env) Stays boot es := by
  have halong : Along (step env) (fun _ e _ => Hashes env e) boot es := along_of_mem (fun e he _ _ => hhash e he) boot
  constructor
  · refine visited_of_invariant (fun s hs => ⟨hs, ?_⟩) ?_ (guarded_boot env) halong
    · exact fun s e s' hs hhash hstep => (guarded_step hs hhash hstep).1
    · intro now username user hright
      obtain ⟨haccount, hverified⟩ := account_of_right hright
      exact (hs.owed user.id user.account haccount).mp hverified
  · refine along_of_invariant ?_ (guarded_boot env) halong
    exact fun s e s' hs hhash hstep => guarded_step hs hhash hstep

end

def sampleEvents : List Event :=
  [.start "#admin", .call ⟨0, plainDraws, .login "admin" "admin"⟩,
    .call ⟨1, { plainDraws with passwordHash := "#Correct horse 1" },
      .changePassword (some ⟨1, 0⟩) "admin" "Correct horse 1"⟩,
    .start "#admin"]

theorem plainEnv_hashes (password new : String) :
    plainEnv.verifyPassword ("#" ++ new) password = true ↔ password = new := by
  simp [plainEnv, eq_comm]

theorem sampleEvents_hashed : ∀ e ∈ sampleEvents, Hashes plainEnv e := by
  simp only [sampleEvents, List.forall_mem_cons]
  exact ⟨fun p => plainEnv_hashes p "admin", trivial, fun p => plainEnv_hashes p "Correct horse 1",
    fun p => plainEnv_hashes p "admin", nofun⟩

theorem default_password_owed_sample :
    Visited (step plainEnv) (fun s => Guarded plainEnv s ∧ ∀ now username user,
      judgeLogin plainEnv now "admin" (getUserByUsername s.users username) = .right user →
        user.account.mustChangePassword = true) boot sampleEvents ∧
    Along (step plainEnv) Stays boot sampleEvents :=
  default_password_owed sampleEvents sampleEvents_hashed

end Cadsa.Startup
