import Cadsa.Core.DirectoryScan
import Cadsa.Db.Whitelist

/-! The whitelist beside the security engine. Neither knows of the other: the page says that a whitelisted
address bypasses the alerts, and it does where nothing would have been raised. -/
namespace Cadsa.SecurityEngine
open Db IpNetworks
set_option autoImplicit false

structure System where
  whitelist : Whitelist
  engine : State

inductive Action
  | addWhitelist (cidr note createdAt : String)
  | removeWhitelist (entryId : ℕ)
  | engine (c : Call)

variable (t : Text) (lib : Ipaddress) {κ : Type} (callbacks : List κ)

def System.act (sys : System) : Action → System
  | .addWhitelist cidr note createdAt => { sys with whitelist := (addWhitelist sys.whitelist cidr note createdAt).1 }
  | .removeWhitelist entryId => { sys with whitelist := removeWhitelist sys.whitelist entryId }
  | .engine c => { sys with engine := step t sys.engine c }

def history (actions : List Action) : System := actions.foldl (System.act t) ⟨Whitelist.empty, initial⟩

def engineCalls (actions : List Action) : List Call := actions.filterMap fun
  | .engine c => some c
  | _ => none

def System.deliveredFor (sys : System) (cfg : SecurityConfig) (row : Row) (now : ℤ) (stores : ℕ → Bool) : Delivered κ :=
  (evaluateAsync t cfg now row sys.engine callbacks stores).2

/-- What the page promises of a row: nothing for a covered address, whatever the database does, and for any
other what there would be without a whitelist. -/
structure Bypasses (sys : System) (cfg : SecurityConfig) (row : Row) (now : ℤ) : Prop where
  covered : Covered lib sys.whitelist row.remoteIp → ∀ stores,
    sys.deliveredFor t callbacks cfg row now stores = ⟨[], []⟩
  others : ¬ Covered lib sys.whitelist row.remoteIp → ∀ stores,
    sys.deliveredFor t callbacks cfg row now stores =
      ({ sys with whitelist := Whitelist.empty } : System).deliveredFor t callbacks cfg row now stores

/-- No rule has anything to say of the row, with such counts for its address. -/
structure Quiet (cfg : SecurityConfig) (row : Row) (n : Counts) : Prop where
  rate : n.requests < cfg.rateLimitThreshold
  uri : (sqli t).search (row.lowerUri t) = false ∧ (xss t).search (row.lowerUri t) = false ∧
    pathTraversal.search (row.lowerUri t) = false
  agent : scannerUa.search (row.lowerUa t) = false ∧ badBotUa.search (row.lowerUa t) = false
  emptyUa : row.lowerUa t = "" → n.requests ≤ 50
  missing : row.is404 = true → n.paths404 ≤ 50
  login : row.isLoginPost t = true → n.loginPosts ≤ 10
  method : row.upperMethod t ∉ ["TRACE", "CONNECT"] ∧ (row.upperMethod t = "OPTIONS" → n.requests ≤ 20)
  slow : row.durationMs.getD 0 ≤ cfg.slowRequestThresholdMs

/-- The counts for a row's address, from the calls before it. -/
def countsFor (cfg : SecurityConfig) (row : Row) (now : ℤ) (calls : List Call) : Counts where
  requests := min 1000 (countSince (ofIp row.remoteIp) (now - seconds 60) (calls ++ [.evaluate cfg row now]))
  paths404 := (missingSinceIdle t row.remoteIp (calls ++ [.evaluate cfg row now])).card
  loginPosts := min 100
    (countSince (loginOf t row.remoteIp) (now - seconds 3600) (calls ++ [.evaluate cfg row now]))

section
variable {t} {lib} {callbacks} {cfg : SecurityConfig} {row : Row} {now : ℤ} {n m : Counts} {calls : List Call}

theorem findings_eq_nil : findings t cfg row n = [] ↔ Quiet t cfg row n := by
  simp only [findings, List.append_eq_nil_iff, rateLimitRule, sqliRule, xssRule, pathTraversalRule, scannerRule,
    badBotRule, emptyUaRule, portScanRule, authFailRule, methodAbuseRule, slowRequestRule, ite_eq_right_iff,
    List.cons_ne_nil, imp_false, not_le, not_lt, not_and, not_or, Bool.not_eq_true, and_assoc]
  constructor
  · rintro ⟨hrate, hsqli, hxss, hpath, hscanner, hbot, hempty, hmissing, hlogin, hmethod, hoptions, hslow⟩
    have hbad : badBotUa.search (row.lowerUa t) = false := by simpa [hscanner] using hbot
    exact ⟨hrate, ⟨hsqli, hxss, hpath⟩, ⟨hscanner, hbad⟩, hempty, hmissing, hlogin, ⟨hmethod, hoptions⟩, hslow⟩
  · intro h
    have hbot : (badBotUa.search (row.lowerUa t) && !scannerUa.search (row.lowerUa t)) = false := by
      rw [h.agent.2]
      rfl
    exact ⟨h.rate, h.uri.1, h.uri.2.1, h.uri.2.2, h.agent.1, hbot, h.emptyUa, h.missing, h.login, h.method.1,
      h.method.2, h.slow⟩

theorem Quiet.congr (hr : m.requests = n.requests) (hp : row.is404 = true → m.paths404 = n.paths404)
    (hl : row.isLoginPost t = true → m.loginPosts = n.loginPosts) (h : Quiet t cfg row m) : Quiet t cfg row n where
  rate := hr ▸ h.rate
  uri := h.uri
  agent := h.agent
  emptyUa hua := hr ▸ h.emptyUa hua
  missing h404 := hp h404 ▸ h.missing h404
  login hlogin := hl hlogin ▸ h.login hlogin
  method := hr ▸ h.method
  slow := h.slow

theorem quiet_iff (hord : InOrder (calls ++ [.evaluate cfg row now])) :
    Quiet t cfg row (counts (track t now row (after t calls)) row.remoteIp) ↔
      Quiet t cfg row (countsFor t cfg row now calls) := by
  have hr := counts_requests (reflects_before (t := t) hord) hord
  have hl := counts_loginPosts (reflects_before (t := t) hord) hord
  have hp : row.is404 = true → (counts (track t now row (after t calls)) row.remoteIp).paths404 =
      (countsFor t cfg row now calls).paths404 := counts_paths404 hord.of_concat.1
  constructor
  · exact Quiet.congr hr hp hl
  · exact Quiet.congr hr.symm (fun h404 => (hp h404).symm) fun hlogin => (hl hlogin).symm

theorem engine_history (actions : List Action) : (history t actions).engine = after t (engineCalls actions) := by
  induction actions using List.reverseRecOn with
  | nil => rfl
  | append_singleton actions a ih =>
    rw [history, List.foldl_concat, engineCalls, List.filterMap_append]
    cases a with
    | addWhitelist cidr note createdAt => rw [List.filterMap_cons_none rfl, List.filterMap_nil, List.append_nil]; exact ih
    | removeWhitelist entryId => rw [List.filterMap_cons_none rfl, List.filterMap_nil, List.append_nil]; exact ih
    | engine c =>
      change step t (history t actions).engine c = after t (engineCalls actions ++ [c])
      rw [after_concat, ih]

/-- Nothing is delivered in any case where there is no event, and in no other. -/
theorem deliver_nil_iff (callbacks : List κ) {events : List Event} :
    (∀ stores, deliver callbacks stores events = ⟨[], []⟩) ↔ events = [] := by
  constructor
  · intro h
    have hstored := congrArg Delivered.stored (h fun _ => true)
    simpa [deliver] using hstored
  · rintro rfl stores
    rfl

theorem delivers_nothing_iff (actions : List Action) (hord : InOrder (engineCalls actions ++ [.evaluate cfg row now])) :
    (∀ stores, (history t actions).deliveredFor t callbacks cfg row now stores = ⟨[], []⟩) ↔
      Quiet t cfg row (countsFor t cfg row now (engineCalls actions)) := by
  rw [← quiet_iff hord, ← findings_eq_nil, ← engine_history]
  exact (deliver_nil_iff callbacks).trans List.map_eq_nil_iff

/-- **Whitelisted addresses bypass nothing.** They get no event where no rule has anything to say. -/
theorem bypasses_iff (actions : List Action) (hord : InOrder (engineCalls actions ++ [.evaluate cfg row now])) :
    Bypasses t lib callbacks (history t actions) cfg row now ↔
      (Covered lib (history t actions).whitelist row.remoteIp →
        Quiet t cfg row (countsFor t cfg row now (engineCalls actions))) := by
  constructor
  · exact fun h hcov => (delivers_nothing_iff actions hord).mp (h.covered hcov)
  · exact fun h => ⟨fun hcov => (delivers_nothing_iff actions hord).mpr (h hcov), fun _ _ => rfl⟩

end

/-! ## A whitelisted address with a slow request -/

def visitor : Address := ⟨.v4, 3325256711, by decide⟩

/-- What `ipaddress` makes of one address and of one network. -/
def sampleLib : Ipaddress where
  ipAddress s := if s = "198.51.100.7" then some visitor else none
  ipNetwork s := if s = "198.51.100.0/24" then some (visitor.network 24) else none

def listed : Action := .addWhitelist "198.51.100.0/24" "" "2026-01-01T00:00:00+00:00"

theorem covered_listed (actions : List Action)
    (h : (history asciiText actions).whitelist = (history asciiText [listed]).whitelist) :
    Covered sampleLib (history asciiText actions).whitelist "198.51.100.7" := by
  rw [h]
  exact ⟨visitor, rfl, ⟨1, "198.51.100.0/24", "", "2026-01-01T00:00:00+00:00"⟩, List.mem_singleton_self _,
    visitor.network 24, rfl, contains_iff.mp (contains_network visitor 24)⟩

/-- A covered address with a missing page, a cleanup and a request that nothing can be said of. -/
theorem bypasses_quiet :
    let actions := [listed, .engine (.evaluate ⟨300, 2000⟩ (probe 0) 0), .engine (.cleanup (seconds 1)),
      .engine (.evaluate ⟨300, 2000⟩ pageView (seconds 2))]
    Covered sampleLib (history asciiText actions).whitelist pageView.remoteIp ∧
      Bypasses asciiText sampleLib ["page"] (history asciiText actions) ⟨300, 2000⟩ pageView (seconds 3) := by
  intro actions
  have hord : InOrder (engineCalls actions ++ [.evaluate ⟨300, 2000⟩ pageView (seconds 3)]) := by decide
  have hquiet : Quiet asciiText ⟨300, 2000⟩ pageView
      (countsFor asciiText ⟨300, 2000⟩ pageView (seconds 3) (engineCalls actions)) := by
    constructor
    case rate => decide +kernel
    case uri => decide +kernel
    case agent => decide +kernel
    case method => decide +kernel
    case slow => decide
    all_goals
      intro hnever
      exact absurd hnever (by decide +kernel)
  exact ⟨covered_listed actions rfl, (bypasses_iff actions hord).mpr fun _ => hquiet⟩

/-- The slow request of an address on the whitelist is reported all the same. -/
theorem whitelisted_reported : ¬ ∀ (t : Text) (lib : Ipaddress) (callbacks : List String) (actions : List Action)
    (cfg : SecurityConfig) (row : Row) (now : ℤ), InOrder (engineCalls actions ++ [.evaluate cfg row now]) →
      Bypasses t lib callbacks (history t actions) cfg row now := by
  intro h
  have hord : InOrder (engineCalls [listed] ++
      [.evaluate ⟨300, 2000⟩ { pageView with durationMs := some 5000 } 0]) := List.pairwise_singleton ..
  have hbypass := h asciiText sampleLib [] _ ⟨300, 2000⟩ { pageView with durationMs := some 5000 } 0 hord
  have hquiet := (delivers_nothing_iff _ hord).mp (hbypass.covered (covered_listed [listed] rfl))
  exact absurd hquiet.slow (by decide)

end Cadsa.SecurityEngine
