import Mathlib.Data.Nat.Notation
import Cadsa.Lib.Table

/-! The user helpers of `db/sqlite_manager.py`. Each function is one SQL transaction; the `users`
table is a value, with the uniqueness of its columns `id` and `username` part of it. -/
namespace Cadsa.Db
open Tables
set_option autoImplicit false

/-- Microseconds: the resolution of `datetime`. -/
abbrev Time := ℕ

def minutes (n : ℕ) : Time := n * 60000000

/-- The columns that a request may change. `totp_secret` and `backup_codes` may be NULL; the
latter holds a JSON list of hashes. -/
structure Account where
  passwordHash : String
  isActive : Bool
  mustChangePassword : Bool
  totpSecret : Option String
  totpConfirmed : Bool
  backupCodes : Option (List String)
  lastLogin : Option Time
  failedAttempts : ℕ
  lockedUntil : Option Time
  deriving DecidableEq

structure UserRow where
  id : ℕ
  username : String
  email : Option String
  account : Account
  deriving DecidableEq

structure Users where
  table : Table ℕ UserRow UserRow.id
  names : (table.rows.map UserRow.username).Nodup

def UserRow.change (f : Account → Account) (r : UserRow) : UserRow := { r with account := f r.account }

theorem UserRow.change_id (f : Account → Account) (r : UserRow) : (r.change f).id = r.id := rfl

theorem UserRow.change_username (f : Account → Account) (r : UserRow) : (r.change f).username = r.username := rfl

def Users.update (users : Users) (userId : ℕ) (f : Account → Account) : Users :=
  ⟨users.table.modify userId (UserRow.change f) (UserRow.change_id f), by
    rw [rows_modify, map_setRow UserRow.username (UserRow.change_username f)]
    exact users.names⟩

def getUserById (users : Users) (userId : ℕ) : Option UserRow := users.table.find userId

def getUserByUsername (users : Users) (username : String) : Option UserRow :=
  users.table.findBy UserRow.username username

def updatePassword (users : Users) (userId : ℕ) (passwordHash : String) : Users :=
  users.update userId fun a => { a with passwordHash, mustChangePassword := false }

def setTotpSecret (users : Users) (userId : ℕ) (secret : String) : Users :=
  users.update userId fun a => { a with totpSecret := some secret, totpConfirmed := false }

def confirmTotp (users : Users) (userId : ℕ) (backupCodes : List String) : Users :=
  users.update userId fun a => { a with totpConfirmed := true, backupCodes := some backupCodes }

def recordLoginSuccess (users : Users) (now : Time) (userId : ℕ) : Users :=
  users.update userId fun a => { a with lastLogin := some now, failedAttempts := 0, lockedUntil := none }

/-- The tenth failure and every one after it lock the account for 15 minutes. -/
def Account.fail (now : Time) (a : Account) : Account :=
  let attempts := a.failedAttempts + 1
  { a with failedAttempts := attempts, lockedUntil := if 10 ≤ attempts then some (now + minutes 15) else a.lockedUntil }

def recordLoginFailure (users : Users) (now : Time) (userId : ℕ) : Users := users.update userId (Account.fail now)

/-! ## `consume_backup_code` -/

/-- What `ph.verify` does: it returns, raises `VerifyMismatchError`, or raises something else. -/
inductive Verdict where
  | ok
  | mismatch
  | raised
  deriving DecidableEq

inductive Consumption where
  | accepted (left : List String)
  | refused
  | raised
  deriving DecidableEq

def tryCodes (verify : String → String → Verdict) (code : String) : List String → Consumption
  | [] => .refused
  | hashed :: codes => match verify hashed code with
    | .ok => .accepted codes
    | .raised => .raised
    | .mismatch => match tryCodes verify code codes with
      | .accepted left => .accepted (hashed :: left)
      | other => other

/-- `consume_backup_code` up to its write, on the row it read. -/
def checkBackupCode (verify : String → String → Verdict) (code : String) (user : Option UserRow) : Consumption :=
  match user.bind (·.account.backupCodes) with
  | none => .refused
  | some codes => tryCodes verify code codes

def writeBackupCodes (users : Users) (userId : ℕ) (codes : List String) : Users :=
  users.update userId fun a => { a with backupCodes := some codes }

/-! ## Reading after writing -/

def Users.account (users : Users) (userId : ℕ) : Option Account := (getUserById users userId).map UserRow.account

@[simp] theorem getUserById_update (users : Users) (userId : ℕ) (f : Account → Account) (j : ℕ) :
    getUserById (users.update userId f) j =
      if j = userId then (getUserById users j).map (UserRow.change f) else getUserById users j :=
  find_modify users.table (UserRow.change_id f) j

@[simp] theorem account_update (users : Users) (userId : ℕ) (f : Account → Account) (j : ℕ) :
    (users.update userId f).account j = if j = userId then (users.account j).map f else users.account j := by
  rw [Users.account, getUserById_update]
  split_ifs
  · rw [Option.map_map, Users.account, Option.map_map]
    rfl
  · rfl

theorem account_of_getUserById {users : Users} {userId : ℕ} {r : UserRow} (h : getUserById users userId = some r) :
    users.account userId = some r.account := by
  rw [Users.account, h]
  rfl

theorem getUserById_of_username {users : Users} {username : String} {r : UserRow}
    (h : getUserByUsername users username = some r) : getUserById users r.id = some r :=
  find_of_mem users.table (mem_of_findBy users.table h)

theorem account_of_username {users : Users} {username : String} {r : UserRow}
    (h : getUserByUsername users username = some r) : users.account r.id = some r.account :=
  account_of_getUserById (getUserById_of_username h)

theorem tryCodes_accepted {verify : String → String → Verdict} {code : String} {codes left : List String}
    (h : tryCodes verify code codes = .accepted left) :
    ∃ before hashed after, codes = before ++ hashed :: after ∧ left = before ++ after ∧ verify hashed code = .ok ∧
      ∀ g ∈ before, verify g code = .mismatch := by
  induction codes generalizing left with
  | nil => cases h
  | cons hashed codes ih =>
    rw [tryCodes] at h
    cases hv : verify hashed code with
    | ok =>
      rw [hv] at h
      cases h
      exact ⟨[], hashed, codes, rfl, rfl, hv, nofun⟩
    | raised =>
      rw [hv] at h
      cases h
    | mismatch =>
      rw [hv] at h
      cases ht : tryCodes verify code codes with
      | refused => simp [ht] at h
      | raised => simp [ht] at h
      | accepted rest =>
        simp only [ht, Consumption.accepted.injEq] at h
        obtain ⟨before, g, after, rfl, rfl, hg, hb⟩ := ih ht
        exact ⟨hashed :: before, g, after, rfl, h.symm, hg, List.forall_mem_cons.mpr ⟨hv, hb⟩⟩

theorem checkBackupCode_accepted {verify : String → String → Verdict} {code : String} {user : Option UserRow}
    {left : List String} (h : checkBackupCode verify code user = .accepted left) :
    ∃ before hashed after, user.bind (·.account.backupCodes) = some (before ++ hashed :: after) ∧
      left = before ++ after ∧ verify hashed code = .ok ∧ ∀ g ∈ before, verify g code = .mismatch := by
  rw [checkBackupCode] at h
  cases hc : user.bind (·.account.backupCodes) with
  | none => simp [hc] at h
  | some codes =>
    rw [hc] at h
    obtain ⟨before, hashed, after, rfl, hl, hv, hb⟩ := tryCodes_accepted h
    exact ⟨before, hashed, after, rfl, hl, hv, hb⟩

end Cadsa.Db
