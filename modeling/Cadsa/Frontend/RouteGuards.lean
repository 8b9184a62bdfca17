import Cadsa.Lib.Runs

/-! Which page one sees: the guards of `App.tsx` over the session store of `stores/auth.ts`, in one tab. A guard shows
its page or sends the reader on; `main.tsx` restores the session when the page is loaded. -/
namespace Cadsa.Frontend.RouteGuards
open Runs
set_option autoImplicit false

/-- What the guards read of it. -/
structure User where
  totpConfirmed : Bool
  mustChangePassword : Bool

structure AuthState where
  user : Option User
  accessToken : String
  refreshToken : String

/-! ## `App.tsx` -/

/-- The pages inside the layout. -/
inductive Child
  | dashboard
  | realtime
  | requests
  | analytics
  | security
  | hosts
  | hostDetail (host : String)
  | ipDetail (ip : String)
  | geo
  | alerts
  | settings

inductive Route
  | login
  | changePassword
  | setup2fa
  | layout (child : Child)

/-- `/`. -/
def Route.index : Route := .layout .dashboard

inductive Element
  | navigate (target : Route)
  | page (route : Route)

section
variable (s : AuthState)

/-- `user?.totp_confirmed && !user?.must_change_password`. -/
def onboarded : Bool := s.user.any fun user => user.totpConfirmed && !user.mustChangePassword

def guestOnly (children : Element) : Element := if onboarded s then .navigate .index else children

def setup2faGate (children : Element) : Element :=
  if s.refreshToken = "" then .navigate .login
  else if onboarded s then .navigate .index
  else children

def changePasswordGate (children : Element) : Element :=
  if s.refreshToken = "" then .navigate .login else children

def requireAuth (children : Element) : Element :=
  if s.refreshToken = "" then .navigate .login
  else if s.user.any (·.mustChangePassword) then .navigate .changePassword
  else if s.user.any fun user => !user.totpConfirmed then .navigate .setup2fa
  else children

def app : Route → Element
  | .login => guestOnly s (.page .login)
  | .changePassword => changePasswordGate s (.page .changePassword)
  | .setup2fa => setup2faGate s (.page .setup2fa)
  | .layout child => requireAuth s (.page (.layout child))

/-- The page that is shown after so many renders at most. -/
def follow : ℕ → Route → Option Route
  | 0, _ => none
  | n + 1, route =>
    match app s route with
    | .page shown => some shown
    | .navigate target => follow n target

/-- A page of the layout is for a session whose user, if known, has nothing left to set up. -/
def Permitted : Route → Prop
  | .layout _ => s.refreshToken ≠ "" ∧ ∀ user ∈ s.user, user.totpConfirmed = true ∧ user.mustChangePassword = false
  | .changePassword => s.refreshToken ≠ ""
  | .setup2fa => s.refreshToken ≠ "" ∧ onboarded s = false
  | .login => onboarded s = false

/-- Whatever is asked for, a page is shown in the end, and it is one that may be. -/
def Settled : Prop := ∀ route, ∃ n shown, follow s n route = some shown ∧ Permitted s shown

end

/-! ## The store, the client and the storage of the browser -/

structure Tab where
  store : AuthState
  /-- `_refreshToken` of the client. -/
  refreshToken : String
  cadsaRefresh : Option String
  /-- What the store keeps of itself. -/
  cadsaAuth : Option String

/-- A browser where nobody has logged in. -/
def opened : Tab := ⟨⟨none, "", ""⟩, "", none, none⟩

def setTokens (refresh : String) (t : Tab) : Tab := { t with refreshToken := refresh, cadsaRefresh := some refresh }

def clearTokens (t : Tab) : Tab := { t with refreshToken := "", cadsaRefresh := none }

/-- `set` and `setState`: the new state is stored each time. -/
def set (store : AuthState) (t : Tab) : Tab := { t with store := store, cadsaAuth := some store.refreshToken }

def removeAuth (t : Tab) : Tab := { t with cadsaAuth := none }

def signedOut : AuthState := ⟨none, "", ""⟩

/-- The modules of a page that is loaded: the client and the store read what is kept. -/
def load (t : Tab) : Tab :=
  { t with store := ⟨none, "", t.cadsaAuth.getD ""⟩, refreshToken := t.cadsaRefresh.getD "" }

/-- `bootstrap`, by whether the server takes the refresh token, and what it says of `/me`. -/
def bootstrap (refreshed : Bool) (me : Option User) (t : Tab) : Tab :=
  if t.refreshToken ≠ "" ∧ refreshed then
    match me with
    | some user => set { t.store with user := some user } t
    | none => set signedOut (removeAuth (clearTokens t))
  else set signedOut (clearTokens t)

inductive Event
  | load (refreshed : Bool) (me : Option User)
  /-- The reply to a login or a second factor that brings tokens. -/
  | tokens (access refresh : String)
  /-- The reply to the `/me` of `loadUser`. -/
  | me (user : Option User)
  /-- The end of `logout`. -/
  | loggedOut
  /-- `_doRefresh` without success. -/
  | refreshFailed
  /-- The handler that `main.tsx` registers. -/
  | unauthorized
  /-- `isLoading` or `error` is set. -/
  | written

def step (t : Tab) : Event → Option Tab
  | .load refreshed me => some (bootstrap refreshed me (load t))
  | .tokens access refresh =>
    some (set { t.store with accessToken := access, refreshToken := refresh } (setTokens refresh t))
  | .me user => some (set { t.store with user := user } t)
  | .loggedOut => some (set signedOut (clearTokens t))
  | .refreshFailed => some (clearTokens t)
  | .unauthorized => some (set signedOut (removeAuth (clearTokens t)))
  | .written => some (set t.store t)

/-- A user who has nothing left to set up is stored, or stays, only beside a session. -/
def Keeps (t : Tab) : Event → Prop
  | .me (some user) => user.totpConfirmed = true → user.mustChangePassword = false → t.store.refreshToken ≠ ""
  | .tokens _ refresh => onboarded t.store = true → refresh ≠ ""
  | _ => True

/-! ## Where the redirects end -/

section
variable {s : AuthState}

variable {route target shown : Route}

theorem follow_page (h : app s route = .page shown) (n : ℕ) : follow s (n + 1) route = some shown := by
  rw [follow, h]

theorem follow_navigate (h : app s route = .navigate target) (n : ℕ) :
    follow s (n + 1) route = follow s n target := by
  rw [follow, h]

theorem login_shown (h : onboarded s = false) (n : ℕ) : follow s (n + 1) .login = some .login :=
  follow_page (by simp [app, guestOnly, h]) n

theorem changePassword_shown (hsession : s.refreshToken ≠ "") (n : ℕ) :
    follow s (n + 1) .changePassword = some .changePassword :=
  follow_page (by simp [app, changePasswordGate, hsession]) n

theorem setup2fa_shown (hsession : s.refreshToken ≠ "") (huser : onboarded s = false) (n : ℕ) :
    follow s (n + 1) .setup2fa = some .setup2fa :=
  follow_page (by simp [app, setup2faGate, hsession, huser]) n

/-- Without a session every guard but the one of `/login` sends the reader there. -/
theorem to_login (hsession : s.refreshToken = "") (hroute : route ≠ .login) : app s route = .navigate .login := by
  cases route with
  | login => exact absurd rfl hroute
  | changePassword => exact if_pos hsession
  | setup2fa => exact if_pos hsession
  | layout child => exact if_pos hsession

/-- With no session and a user, the guards of `/login` and of `/` send the reader to each other. -/
theorem redirects_loop (hsession : s.refreshToken = "") (huser : onboarded s = true) (n : ℕ) :
    follow s n .login = none ∧ follow s n .index = none := by
  induction n with
  | zero => exact ⟨rfl, rfl⟩
  | succ n ih =>
    constructor
    · have hlogin : app s .login = .navigate .index := if_pos huser
      exact (follow_navigate hlogin n).trans ih.2
    · have hindex : app s .index = .navigate .login := if_pos hsession
      exact (follow_navigate hindex n).trans ih.1

theorem settled_signedOut (hsession : s.refreshToken = "") (huser : onboarded s = false) : Settled s := by
  intro route
  refine ⟨2, .login, ?_, huser⟩
  by_cases hroute : route = .login
  · subst hroute
    exact login_shown huser 1
  · exact (follow_navigate (to_login hsession hroute) 1).trans (login_shown huser 0)

/-- A session that has to be set up still, or whose user is not known. -/
theorem settled_onboarding (hsession : s.refreshToken ≠ "") (huser : onboarded s = false) : Settled s := by
  intro route
  cases route with
  | login => exact ⟨1, .login, login_shown huser 0, huser⟩
  | changePassword => exact ⟨1, .changePassword, changePassword_shown hsession 0, hsession⟩
  | setup2fa => exact ⟨1, .setup2fa, setup2fa_shown hsession huser 0, hsession, huser⟩
  | layout child =>
    by_cases hchange : s.user.any (·.mustChangePassword)
    · have hto : app s (.layout child) = .navigate .changePassword := by simp [app, requireAuth, hsession, hchange]
      exact ⟨2, .changePassword, (follow_navigate hto 1).trans (changePassword_shown hsession 0), hsession⟩
    simp only [Bool.not_eq_true] at hchange
    by_cases hconfirm : s.user.any fun user => !user.totpConfirmed
    · have hto : app s (.layout child) = .navigate .setup2fa := by
        simp [app, requireAuth, hsession, hchange, hconfirm]
      exact ⟨2, .setup2fa, (follow_navigate hto 1).trans (setup2fa_shown hsession huser 0), hsession, huser⟩
    · simp only [Bool.not_eq_true] at hconfirm
      refine ⟨1, .layout child, follow_page ?_ 0, hsession, ?_⟩
      · simp [app, requireAuth, hsession, hchange, hconfirm]
      · simpa [Option.any_eq_false, forall_and, and_comm] using And.intro hchange hconfirm

theorem settled_onboarded (hsession : s.refreshToken ≠ "") (huser : onboarded s = true) : Settled s := by
  obtain ⟨user, hs, hdone⟩ := (Option.any_eq_true _ _).mp huser
  obtain ⟨hconfirmed, hchange⟩ : user.totpConfirmed = true ∧ user.mustChangePassword = false := by simpa using hdone
  have hlayout : ∀ child n, follow s (n + 1) (.layout child) = some (.layout child) := by
    intro child n
    exact follow_page (by simp [app, requireAuth, hsession, hs, hchange, hconfirmed]) n
  have hpermitted : ∀ child, Permitted s (.layout child) := by
    intro child
    refine ⟨hsession, fun user' huser' => ?_⟩
    rw [hs] at huser'
    cases huser'
    exact ⟨hconfirmed, hchange⟩
  intro route
  cases route with
  | login =>
    have hto : app s .login = .navigate .index := if_pos huser
    exact ⟨2, .index, (follow_navigate hto 1).trans (hlayout .dashboard 0), hpermitted _⟩
  | changePassword => exact ⟨1, .changePassword, changePassword_shown hsession 0, hsession⟩
  | setup2fa =>
    have hto : app s .setup2fa = .navigate .index := by simp [app, setup2faGate, hsession, huser]
    exact ⟨2, .index, (follow_navigate hto 1).trans (hlayout .dashboard 0), hpermitted _⟩
  | layout child => exact ⟨1, .layout child, hlayout child 0, hpermitted child⟩

theorem settled_iff : Settled s ↔ (onboarded s = true → s.refreshToken ≠ "") := by
  constructor
  · intro hsettled huser hsession
    obtain ⟨n, shown, hshown, -⟩ := hsettled .login
    rw [(redirects_loop hsession huser n).1] at hshown
    cases hshown
  · intro h
    cases huser : onboarded s with
    | true => exact settled_onboarded (h huser) huser
    | false =>
      by_cases hsession : s.refreshToken = ""
      · exact settled_signedOut hsession huser
      · exact settled_onboarding hsession huser

end

/-! ## Over every run of the tab -/

/-- A refresh token that the client keeps is the one of the store, which keeps it too. -/
def Inv (t : Tab) : Prop :=
  t.cadsaRefresh.getD "" ≠ "" → t.store.refreshToken = t.cadsaRefresh.getD "" ∧ t.cadsaAuth = some t.store.refreshToken

section
variable {t t' : Tab}

@[simp] theorem set_store (store : AuthState) (t : Tab) : (set store t).store = store := rfl

theorem inv_cleared (h : t.cadsaRefresh = none) : Inv t := by
  intro hkept
  rw [h] at hkept
  exact absurd rfl hkept

theorem settled_out : Settled signedOut := settled_signedOut rfl rfl

theorem bootstrap_keeps (hinv : Inv t) (refreshed : Bool) (me : Option User) :
    Inv (bootstrap refreshed me (load t)) ∧ Settled (bootstrap refreshed me (load t)).store := by
  unfold bootstrap
  split_ifs with hrefreshed
  · obtain ⟨hsame, hauth⟩ := hinv hrefreshed.1
    have hstore : (load t).store.refreshToken = t.cadsaRefresh.getD "" := by
      show t.cadsaAuth.getD "" = _
      rw [hauth]
      exact hsame
    cases me with
    | none => exact ⟨inv_cleared rfl, settled_out⟩
    | some user =>
      refine ⟨fun _ => ⟨hstore, rfl⟩, settled_iff.mpr fun _ => ?_⟩
      show (load t).store.refreshToken ≠ ""
      rw [hstore]
      exact hrefreshed.1
  · exact ⟨inv_cleared rfl, settled_out⟩

theorem inv_set {store : AuthState} (hinv : Inv t) (h : store.refreshToken = t.store.refreshToken) :
    Inv (set store t) := by
  intro hkept
  exact ⟨h.trans (hinv hkept).1, rfl⟩

theorem step_keeps {e : Event} (hinv : Inv t) (hsettled : Settled t.store) (hstep : step t e = some t') (h : Keeps t e) :
    Inv t' ∧ Settled t'.store := by
  cases e with
  | load refreshed me =>
    cases hstep
    exact bootstrap_keeps hinv refreshed me
  | tokens access refresh =>
    cases hstep
    exact ⟨fun _ => ⟨rfl, rfl⟩, settled_iff.mpr h⟩
  | me user =>
    cases hstep
    refine ⟨inv_set hinv rfl, settled_iff.mpr ?_⟩
    cases user with
    | none => nofun
    | some user =>
      intro huser
      obtain ⟨hconfirmed, hchange⟩ : user.totpConfirmed = true ∧ user.mustChangePassword = false := by
        simpa [onboarded] using huser
      exact h hconfirmed hchange
  | loggedOut =>
    cases hstep
    exact ⟨inv_cleared rfl, settled_out⟩
  | refreshFailed =>
    cases hstep
    exact ⟨inv_cleared rfl, hsettled⟩
  | unauthorized =>
    cases hstep
    exact ⟨inv_cleared rfl, settled_out⟩
  | written =>
    cases hstep
    exact ⟨inv_set hinv rfl, hsettled⟩

theorem step_needs {e : Event} (hstep : step t e = some t') (hsettled : Settled t'.store) : Keeps t e := by
  cases e with
  | tokens access refresh =>
    cases hstep
    exact settled_iff.mp hsettled
  | me user =>
    cases hstep
    cases user with
    | none => trivial
    | some user =>
      intro hconfirmed hchange
      apply settled_iff.mp hsettled
      simp [onboarded, hconfirmed, hchange]
  | load refreshed me => trivial
  | loggedOut => trivial
  | refreshFailed => trivial
  | unauthorized => trivial
  | written => trivial

end

/-- **The redirects end**: in every state of a tab whatever is asked for ends at a page that may be shown, just as long
as no reply brings a user who has nothing left to set up into a store without a session. -/
theorem routes_settle_iff (es : List Event) :
    Visited step (fun t => Settled t.store) opened es ↔ Along step (fun t e _ => Keeps t e) opened es :=
  visited_iff_along (fun _ _ _ hinv hsettled hstep h => step_keeps hinv hsettled hstep h)
    (fun _ _ _ _ _ hstep hsettled => step_needs hstep hsettled) (inv_cleared rfl) settled_out

end Cadsa.Frontend.RouteGuards
