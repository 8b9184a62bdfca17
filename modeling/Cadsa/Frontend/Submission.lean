import Mathlib.Tactic.Common
import Cadsa.Frontend.Refresh
import Cadsa.Api.Effects

/-! What one submission of the login page puts on the wire. The three credential endpoints go
through `_fetch`, which takes every 401 for an expired access token: when a refresh token is
held and the refresh succeeds, the credentials are sent a second time. -/
namespace Cadsa.Frontend.Api
open Runs
set_option autoImplicit false

def auth.login (username password : String) : Request :=
  ⟨"/auth/login", "POST", [("username", username), ("password", password)]⟩

def auth.login2fa (partial_token code : String) : Request :=
  ⟨"/auth/login/2fa", "POST", [("partial_token", partial_token), ("code", code)]⟩

def auth.loginBackupCode (partial_token code : String) : Request :=
  ⟨"/auth/login/backup-code", "POST", [("partial_token", partial_token), ("code", code)]⟩

inductive Submission
  | login (username password : String)
  | login2fa (partial_token code : String)
  | loginBackupCode (partial_token code : String)
  deriving DecidableEq, Repr

def Submission.request : Submission → Request
  | .login username password => auth.login username password
  | .login2fa partial_token code => auth.login2fa partial_token code
  | .loginBackupCode partial_token code => auth.loginBackupCode partial_token code

/-- How often call `k` has put the request on the wire. -/
def posts (k : ℕ) (request : Request) (wire : List Wire) : ℕ :=
  wire.countP fun w => w.sender = .call k ∧ w.request = { request with path := BASE ++ request.path }

/-- Call `k` goes on after a refresh that succeeded. -/
def Refreshed (k : ℕ) (s : World) (a : Action) : Prop :=
  a = .resume k ∧ ∃ c o, s.calls[k]? = some c ∧ c.pc = .awaiting o ∧ outcome s o = some true

theorem posts_concat (k : ℕ) (request : Request) (wire : List Wire) (w : Wire) :
    posts k request (wire ++ [w]) = posts k request wire +
      if w.sender = .call k ∧ w.request = { request with path := BASE ++ request.path } then 1 else 0 := by
  simp [posts, List.countP_append, List.countP_cons]

theorem posts_other (k : ℕ) (request : Request) (wire : List Wire) {w : Wire} (h : w.sender ≠ .call k) :
    posts k request (wire ++ [w]) = posts k request wire := by
  simp [posts_concat, h]

theorem doRefresh_posts (k : ℕ) (request : Request) (s : World) :
    posts k request (_doRefresh s).2.wire = posts k request s.wire := by
  unfold _doRefresh
  split
  · rfl
  · split
    · rfl
    · exact posts_other k request s.wire (by simp)

theorem Turn.kind {s s' : World} {c : Call} {o : Option Call} (h : Turn s s' (some c) o) :
    ∃ c', o = some c' ∧ c'.kind = c.kind := by
  cases h with
  | same => exact ⟨c, rfl, rfl⟩
  | refused _ o => exact ⟨_, rfl, rfl⟩
  | failed => exact ⟨_, rfl, rfl⟩
  | kept _ code => exact ⟨_, rfl, rfl⟩
  | resumed _ o b authorization => exact ⟨_, rfl, rfl⟩
  | finished _ code body => exact ⟨_, rfl, rfl⟩

theorem readBody_wire (k : ℕ) (c : Call) (reply : Reply) (s : World) : (readBody k c reply s).wire = s.wire := by
  cases reply <;> rfl

/-- Only a step of call `k` after a successful refresh sends its request. -/
theorem resume_posts {s : World} {k j : ℕ} {c d : Call} {request : Request} (hk : s.calls[k]? = some c)
    (hc : c.kind = .fetch request) (hj : s.calls[j]? = some d) (b : Bool) :
    posts k request (resume j d b s).wire = posts k request s.wire + if j = k ∧ b = true then 1 else 0 := by
  unfold resume
  split
  · next r hd =>
    cases b with
    | true =>
      by_cases hjk : j = k
      · subst hjk
        obtain rfl : c = d := Option.some.inj (hk.symm.trans hj)
        obtain rfl : request = r := by simpa [hc] using hd
        simp [fetch, setCall, posts_concat]
      · simp [fetch, setCall, posts_concat, hjk]
    | false => cases hu : s.onUnauthorized <;> simp [setCall, unauthorized, clearTokens]
  · next saved hd =>
    have hjk : j ≠ k := by
      rintro rfl
      obtain rfl : c = d := Option.some.inj (hk.symm.trans hj)
      cases hc.symm.trans hd
    simp [setCall, hjk]

theorem step_posts {s s' : World} {a : Action} {k : ℕ} {c : Call} {request : Request} (hk : s.calls[k]? = some c)
    (hc : c.kind = .fetch request) (hs : step s a = some s') :
    Refreshed k s a ∧ posts k request s'.wire = posts k request s.wire + 1 ∨
    ¬ Refreshed k s a ∧ posts k request s'.wire = posts k request s.wire := by
  have hlt : k < s.calls.length := (List.getElem?_eq_some_iff.mp hk).1
  have hne : ∀ b : Action, (∀ j, b ≠ .resume j) → ¬ Refreshed k s b := fun b hb h => hb k h.1
  cases a with
  | resume j =>
    obtain ⟨d, o, b, hj, hd, hb, rfl⟩ := step_resume hs
    have hp := resume_posts hk hc hj b
    by_cases hr : j = k ∧ b = true
    · obtain ⟨rfl, rfl⟩ := hr
      exact .inl ⟨⟨rfl, d, o, hj, hd, hb⟩, by simpa using hp⟩
    · rw [if_neg hr] at hp
      refine .inr ⟨?_, hp⟩
      rintro ⟨heq, e, o', he, ho', hb'⟩
      obtain rfl : j = k := by simpa using heq
      obtain rfl : d = e := Option.some.inj (hj.symm.trans he)
      obtain rfl : o = o' := Pc.awaiting.inj (hd.symm.trans ho')
      exact hr ⟨rfl, Option.some.inj (hb.symm.trans hb')⟩
  | fetch r =>
    obtain rfl := Option.some.inj hs
    refine .inr ⟨hne _ (by simp), posts_other k request s.wire ?_⟩
    simpa using fun h : s.calls.length = k => Nat.lt_irrefl k (h ▸ hlt)
  | initSession =>
    obtain rfl := Option.some.inj hs
    refine .inr ⟨hne _ (by simp), ?_⟩
    unfold initSession
    split
    · rfl
    · exact doRefresh_posts k request { s with onUnauthorized := false }
  | reply j reply =>
    refine .inr ⟨hne _ (by simp), ?_⟩
    obtain ⟨d, hj, ⟨-, rfl⟩ | ⟨-, rfl⟩⟩ := step_reply hs
    · unfold firstReply
      split
      · exact doRefresh_posts k request s
      · rw [readBody_wire]
    · rw [readBody_wire]
  | body j body =>
    refine .inr ⟨hne _ (by simp), ?_⟩
    obtain ⟨d, code, hj, -, rfl⟩ := step_body hs
    rfl
  | refreshReply p reply =>
    refine .inr ⟨hne _ (by simp), ?_⟩
    obtain ⟨-, hs⟩ := Option.ite_none_right_eq_some.mp hs
    obtain rfl := Option.some.inj hs
    rcases refreshReply_cases p reply s with ⟨code, -, -, hr⟩ | ⟨-, hr⟩
    · rw [hr, setPhase]
    · rw [hr, settle, setPhase, clearTokens]
  | refreshBody p body =>
    refine .inr ⟨hne _ (by simp), ?_⟩
    obtain ⟨-, hs⟩ := Option.ite_none_right_eq_some.mp hs
    obtain rfl := Option.some.inj hs
    cases body <;> rfl
  | _ =>
    obtain rfl := Option.some.inj hs
    exact .inr ⟨hne _ (by simp), rfl⟩

/-- The request is sent once more in every step that follows a successful refresh. -/
theorem posts_le {s s' : World} {as : List Action} {k : ℕ} {c : Call} {request : Request} (h : Inv s)
    (hk : s.calls[k]? = some c) (hc : c.kind = .fetch request) (hs : exec step s as = some s') :
    posts k request s.wire ≤ posts k request s'.wire ∧
      (posts k request s'.wire = posts k request s.wire ↔ Along step (fun m a _ => ¬ Refreshed k m a) s as) := by
  induction as generalizing s c with
  | nil =>
    obtain rfl : s = s' := Option.some.inj hs
    exact ⟨Nat.le_refl _, iff_of_true rfl trivial⟩
  | cons a as ih =>
    obtain ⟨m, hm, hs⟩ := exec_cons_some hs
    have ht := step_turn h hm k
    rw [hk] at ht
    obtain ⟨c', hk', hc'⟩ := ht.kind
    obtain ⟨hle, hiff⟩ := ih (h.step hm) hk' (hc'.trans hc) hs
    rcases step_posts hk hc hm with ⟨hr, hp⟩ | ⟨hr, hp⟩
    · refine ⟨by omega, iff_of_false (by omega) fun ha => (ha m hm).1 hr⟩
    · rw [← hp, hiff]
      refine ⟨hle, fun ha m' hm' => ?_, fun ha => (ha m hm).2⟩
      obtain rfl : m = m' := Option.some.inj (hm.symm.trans hm')
      exact ⟨hr, ha⟩

theorem fetch_posts {s : World} (h : Inv s) (request : Request) :
    posts s.calls.length request (_fetch request s).wire = 1 := by
  have h0 : attempts s.wire s.calls.length ≤ 0 := by simpa [allowance] using h.budget s.calls.length
  have hle : posts s.calls.length request s.wire ≤ attempts s.wire s.calls.length :=
    List.countP_mono_left fun w _ hw => by
      have hs : w.sender = .call s.calls.length := (of_decide_eq_true hw).1
      simp [Wire.isOwn, hs]
  have hp : posts s.calls.length request (_fetch request s).wire = posts s.calls.length request s.wire + 1 := by
    simp [_fetch, fetch, posts_concat]
  omega

/-! ## What the server counts -/

section
open Auth Db Tables

variable (env : Env) (draws : Draws) (username password : String)

/-- The server after it has handled the same login at each of the times. -/
def afterLogins (times : List Time) (server : Server) : Server :=
  times.foldl (fun s now => (login env draws now s username password).1) server

variable {env draws username password}

theorem login_wrong (draws : Draws) {server : Server} {user : UserRow} {now : Time}
    (hrow : getUserByUsername server.users username = some user) (hl : lockedAt now user.account = false)
    (ha : user.account.isActive = true) (hw : env.verifyPassword user.account.passwordHash password = false) :
    (login env draws now server username password).1 =
      { server with users := recordLoginFailure server.users now user.id } := by
  simp [login, judgeLogin, loginGate, hrow, hl, ha, hw]

theorem getUserByUsername_failure {users : Users} {user : UserRow} (now : Time)
    (hrow : getUserByUsername users username = some user) :
    getUserByUsername (recordLoginFailure users now user.id) username = some (user.change (Account.fail now)) := by
  have h := findBy_modify users.table (k := user.id) (UserRow.change_id (Account.fail now))
    (UserRow.change_username (Account.fail now)) username
  have hfind : users.table.findBy UserRow.username username = some user := hrow
  rw [hfind, Option.map_some, setRow, if_pos rfl] at h
  exact h

/-- Below the limit every handling of a wrong password counts once. -/
theorem wrong_password_counted {server : Server} {user : UserRow} {times : List Time}
    (hrow : getUserByUsername server.users username = some user)
    (hl : ∀ now ∈ times, lockedAt now user.account = false) (ha : user.account.isActive = true)
    (hw : env.verifyPassword user.account.passwordHash password = false)
    (hn : user.account.failedAttempts + times.length < 10) :
    (afterLogins env draws username password times server).users.account user.id =
      some { user.account with failedAttempts := user.account.failedAttempts + times.length } := by
  induction times generalizing server user with
  | nil => exact account_of_username hrow
  | cons now times ih =>
    have hlen : user.account.failedAttempts + 1 + times.length < 10 := by
      simp only [List.length_cons] at hn
      omega
    have hfail : Account.fail now user.account =
        { user.account with failedAttempts := user.account.failedAttempts + 1 } := by
      have hlt : ¬ 10 ≤ user.account.failedAttempts + 1 := by omega
      simp [Account.fail, hlt]
    have hnext : getUserByUsername { server with users := recordLoginFailure server.users now user.id }.users username =
        some (user.change (Account.fail now)) := getUserByUsername_failure now hrow
    have := ih hnext
      (fun t ht => by simpa [UserRow.change, hfail, lockedAt] using hl t (List.mem_cons_of_mem _ ht))
      (by simpa [UserRow.change, hfail] using ha) (by simpa [UserRow.change, hfail] using hw)
      (by simpa [UserRow.change, hfail] using hlen)
    have hfirst := login_wrong draws hrow (hl now (List.mem_cons_self ..)) ha hw
    simp only [afterLogins, List.foldl_cons, hfirst] at this ⊢
    rw [UserRow.change_id] at this
    rw [this]
    simp [UserRow.change, hfail, Nat.add_assoc, Nat.add_comm 1]

end

/-- A submission is sent exactly once, and a wrong password counted once, as long as it does not
go on after a successful refresh. -/
theorem one_post_iff (stored : Option String) (as bs : List Action) (s s' : World) (submission : Submission)
    (hs : exec step (load stored) as = some s) (hb : exec step (_fetch submission.request s) bs = some s') :
    (posts s.calls.length submission.request s'.wire = 1 ↔
      Along step (fun m a _ => ¬ Refreshed s.calls.length m a) (_fetch submission.request s) bs) ∧
    ∀ (env : Cadsa.Auth.Env) (draws : Cadsa.Auth.Draws) (username password : String) (server : Cadsa.Auth.Server)
      (user : Cadsa.Db.UserRow) (times : List Cadsa.Db.Time), submission = .login username password →
      times.length = posts s.calls.length submission.request s'.wire →
      Cadsa.Db.getUserByUsername server.users username = some user →
      (∀ now ∈ times, Cadsa.Auth.lockedAt now user.account = false) → user.account.isActive = true →
      env.verifyPassword user.account.passwordHash password = false →
      user.account.failedAttempts + times.length < 10 →
      (((afterLogins env draws username password times server).users.account user.id).map (·.failedAttempts) =
          some (user.account.failedAttempts + 1) ↔
        Along step (fun m a _ => ¬ Refreshed s.calls.length m a) (_fetch submission.request s) bs) := by
  have h := reachable_inv hs
  have hi : Inv (_fetch submission.request s) := h.step (a := .fetch submission.request) rfl
  obtain ⟨c, hk, hc⟩ : ∃ c, (_fetch submission.request s).calls[s.calls.length]? = some c ∧
      c.kind = .fetch submission.request := by simp [_fetch, fetch]
  have hiff := (posts_le hi hk hc hb).2
  rw [fetch_posts h] at hiff
  refine ⟨hiff, fun env draws username password server user times _ hlen hrow hl ha hw hn => ?_⟩
  rw [wrong_password_counted hrow hl ha hw hn, ← hiff, ← hlen]
  simp

/-- A login that is refused while no session is stored. -/
def refusedLogin : List Action := [.reply 0 (.status 401), .body 0 (.json none)]

theorem one_post_no_session :
    ∃ s', exec step (_fetch (Submission.login "admin" "guess").request (load none)) refusedLogin = some s' ∧
      (posts 0 (Submission.login "admin" "guess").request s'.wire = 1 ↔
        Along step (fun m a _ => ¬ Refreshed 0 m a) (_fetch (Submission.login "admin" "guess").request (load none))
          refusedLogin) ∧
      (((afterLogins Auth.plainEnv Auth.plainDraws "admin" "guess" [0] Auth.adminOnly).users.account 1).map
          (·.failedAttempts) = some 1 ↔
        Along step (fun m a _ => ¬ Refreshed 0 m a) (_fetch (Submission.login "admin" "guess").request (load none))
          refusedLogin) := by
  refine ⟨_, rfl, ?_⟩
  have h := one_post_iff none [] refusedLogin (load none) _ (.login "admin" "guess") rfl rfl
  exact ⟨h.1, h.2 Auth.plainEnv Auth.plainDraws "admin" "guess" Auth.adminOnly Auth.admin [0] rfl rfl rfl (by decide) rfl
    (by decide) (by decide)⟩

/-- One wrong password, typed while a session of the browser can still be refreshed, is sent twice. -/
theorem wrong_password_twice :
    ¬ ∀ (as bs : List Action) (s s' : World) (submission : Submission), exec step (load (some "r1")) as = some s →
      exec step (_fetch submission.request s) bs = some s' →
      posts s.calls.length submission.request s'.wire = 1 := by
  intro h
  have := h [] [.reply 0 (.status 401), .refreshReply 0 (.status 200), .refreshBody 0 (.data (some "a1")),
    .resume 0, .reply 0 (.status 401), .body 0 (.json (some "Invalid credentials"))] _ _ (.login "admin" "guess") rfl rfl
  exact absurd this (by decide)

end Cadsa.Frontend.Api
