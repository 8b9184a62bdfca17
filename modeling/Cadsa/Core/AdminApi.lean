import Cadsa.Core.Discovery
import Cadsa.Lib.Outcomes

/-! What `try_caddy_admin_api` makes of a configuration of any shape: which ones it raises on, and what it records of
the others. -/
namespace Cadsa.Discovery
open PyJson
set_option autoImplicit false

/-! ## What a configuration says -/

/-- Of a value that is no dict, nothing. -/
def members : Json → List (String × Json)
  | .obj ms => ms
  | _ => []

def serversOf (config : Json) : List Json := (members (deepGet config ["apps", "http", "servers"])).map Prod.snd

def logsOf (config : Json) : List (String × Json) := members (deepGet config ["logging", "logs"])

/-- `set(skip_hosts or [])`. -/
def skipElems (skip : Json) : Except PyError (List Json) := if skip.truthy then skip.setElems else .ok []

/-- The hosts that a server skips. -/
def skipped (server : Json) : List Json :=
  match skipElems (deepGet server ["logs", "skip_hosts"]) with
  | .ok elems => elems
  | .error _ => []

def namesOf (server : Json) : List (String × Json) := members (deepGet server ["logs", "logger_names"])

section
variable (m : Machine) (config server : Json) (loggerId : String)

/-- The loggers of one host: a list of them, or one that is truthy. -/
def idsOf : Json → List String
  | .arr lids => lids.map (Json.pyStr m.containerRepr)
  | id => if id.truthy then [id.pyStr m.containerRepr] else []

/-- The hosts of one server, once for each time a logger is named. -/
def serverHosts : List String :=
  (namesOf server).flatMap fun name =>
    if (skipped server).any (Json.isStr name.1) then []
    else List.replicate ((idsOf m name.2).count loggerId) name.1

def recordedHosts : List String := (serversOf config).flatMap fun server => serverHosts m server loggerId

end

/-! ## Which shapes are read -/

/-- Falsy, or what `set` takes. -/
def Iterable : Json → Prop
  | .arr items => ∀ j ∈ items, j.hashable = true
  | .obj _ | .str _ => True
  | j => j.truthy = false

/-- No server but one that is no dict, or whose `logs` is falsy or a dict with a list of hosts to skip. -/
def Shaped : Json → Prop
  | .obj server =>
    match getMember server "logs" with
    | .obj logsCfg => Iterable (getMember logsCfg "skip_hosts")
    | logs => logs.truthy = false
  | _ => True

section
variable {m : Machine}

/-- The hosts recorded for a logger. -/
def hostsIn (hosts : List (String × List String)) (loggerId : String) : List String := (hosts.lookup loggerId).getD []

theorem hostsIn_appendItem (hosts : List (String × List String)) (id hostname loggerId : String) :
    hostsIn (appendItem hosts id hostname) loggerId =
      hostsIn hosts loggerId ++ List.replicate ([id].count loggerId) hostname := by
  rw [hostsIn, lookup_appendItem, List.count_singleton]
  by_cases h : loggerId = id
  · rw [if_pos h, if_pos (beq_iff_eq.mpr h.symm)]
    rfl
  · rw [if_neg h, if_neg fun he => h (beq_iff_eq.mp he).symm]
    rfl

theorem hostsIn_foldl (hostname : String) (lids : List Json) (hosts : List (String × List String)) (loggerId : String) :
    hostsIn (lids.foldl (fun hosts lid => appendItem hosts (lid.pyStr m.containerRepr) hostname) hosts) loggerId =
      hostsIn hosts loggerId ++ List.replicate ((lids.map (Json.pyStr m.containerRepr)).count loggerId) hostname := by
  induction lids generalizing hosts with
  | nil => exact (List.append_nil _).symm
  | cons lid lids ih =>
    rw [List.foldl_cons, ih, hostsIn_appendItem, List.append_assoc, List.replicate_append_replicate,
      ← List.count_append]
    rfl

theorem hostsIn_addHost (hostname : String) (hosts : List (String × List String)) (ids : Json) (loggerId : String) :
    hostsIn (addHost m hostname hosts ids) loggerId =
      hostsIn hosts loggerId ++ List.replicate ((idsOf m ids).count loggerId) hostname := by
  have hone (ids : Json) : hostsIn (if ids.truthy then appendItem hosts (ids.pyStr m.containerRepr) hostname else hosts)
      loggerId = hostsIn hosts loggerId ++
        List.replicate ((if ids.truthy then [ids.pyStr m.containerRepr] else []).count loggerId) hostname := by
    by_cases h : ids.truthy = true
    · rw [if_pos h, if_pos h, hostsIn_appendItem]
    · rw [if_neg h, if_neg h]
      exact (List.append_nil _).symm
  cases ids with
  | arr lids => exact hostsIn_foldl hostname lids hosts loggerId
  | null => exact hone .null
  | bool b => exact hone (.bool b)
  | int n => exact hone (.int n)
  | float r => exact hone (.float r)
  | str s => exact hone (.str s)
  | obj ms => exact hone (.obj ms)

theorem hostsIn_names (sSkip : List Json) (names : List (String × Json)) (hosts : List (String × List String))
    (loggerId : String) :
    hostsIn (names.foldl (fun hosts (hostname, loggerIds) =>
      if sSkip.any (Json.isStr hostname) then hosts else addHost m hostname hosts loggerIds) hosts) loggerId =
      hostsIn hosts loggerId ++ names.flatMap fun name =>
        if sSkip.any (Json.isStr name.1) then [] else List.replicate ((idsOf m name.2).count loggerId) name.1 := by
  induction names generalizing hosts with
  | nil => exact (List.append_nil _).symm
  | cons name names ih =>
    rw [List.foldl_cons, ih, List.flatMap_cons, ← List.append_assoc]
    dsimp only
    split_ifs with h
    · rw [List.append_nil]
    · rw [hostsIn_addHost]

theorem iterable_iff (skip : Json) : Iterable skip ↔ ∃ elems, skipElems skip = .ok elems := by
  rw [skipElems]
  by_cases htrue : skip.truthy = true
  · rw [if_pos htrue]
    cases skip with
    | arr items =>
      rw [Iterable, Json.setElems]
      by_cases hall : items.all Json.hashable = true
      · rw [if_pos hall]
        exact iff_of_true (List.all_eq_true.mp hall) ⟨items, rfl⟩
      · rw [if_neg hall]
        refine iff_of_false (fun h => hall (List.all_eq_true.mpr h)) ?_
        rintro ⟨elems, h⟩
        cases h
    | obj ms => exact iff_of_true trivial ⟨_, rfl⟩
    | str s => exact iff_of_true trivial ⟨_, rfl⟩
    | null | bool | int | float =>
      refine iff_of_false (fun h => Bool.eq_false_iff.mp h htrue) ?_
      rintro ⟨elems, h⟩
      cases h
  · rw [if_neg htrue]
    refine iff_of_true ?_ ⟨[], rfl⟩
    cases skip with
    | arr items =>
      cases items with
      | nil => exact fun j hj => absurd hj List.not_mem_nil
      | cons j items => exact absurd rfl htrue
    | obj ms => exact trivial
    | str s => exact trivial
    | null | bool | int | float => exact Bool.eq_false_iff.mpr htrue

theorem members_orEmpty (j : Json) : members j.orEmpty = members j := by
  rw [Json.orEmpty]
  by_cases htrue : j.truthy = true
  · rw [if_pos htrue]
  · rw [if_neg htrue]
    cases j with
    | obj ms =>
      cases ms with
      | nil => rfl
      | cons m ms => exact absurd rfl htrue
    | null | bool | int | float | str | arr => rfl

theorem foldl_members (j : Json) {α : Type} (f : α → String × Json → α) (a : α) : (match j.orEmpty with
    | .obj ms => ms.foldl f a
    | _ => a) = (members j).foldl f a := by
  rw [← members_orEmpty]
  cases j.orEmpty <;> rfl

/-- A server whose `logs` is a dict or falsy. -/
theorem readServer_logs {server logsCfg : List (String × Json)} (h : (getMember server "logs").orEmpty = .obj logsCfg)
    (acc : List (String × List String) × List Json) :
    readServer m acc (.obj server) = (skipElems (getMember logsCfg "skip_hosts")).map fun sSkip =>
      ((members (getMember logsCfg "logger_names")).foldl (fun hosts (hostname, loggerIds) =>
        if sSkip.any (Json.isStr hostname) then hosts else addHost m hostname hosts loggerIds) acc.1, acc.2 ++ sSkip) := by
  have hdone (sSkip : List Json) := congrArg (fun hosts => (hosts, acc.2 ++ sSkip))
    (foldl_members (getMember logsCfg "logger_names") (fun hosts (name : String × Json) =>
      if sSkip.any (Json.isStr name.1) then hosts else addHost m name.1 hosts name.2) acc.1)
  rw [readServer, h, skipElems]
  by_cases htrue : (getMember logsCfg "skip_hosts").truthy = true
  · rw [if_pos htrue]
    dsimp only
    rw [if_pos htrue]
    cases (getMember logsCfg "skip_hosts").setElems with
    | error err => rfl
    | ok sSkip => exact congrArg Except.ok (hdone sSkip)
  · rw [if_neg htrue]
    dsimp only
    rw [if_neg htrue]
    exact congrArg Except.ok (hdone [])

theorem shaped_obj (server : List (String × Json)) : Shaped (.obj server) ↔
    ∃ logsCfg, (getMember server "logs").orEmpty = .obj logsCfg ∧ Iterable (getMember logsCfg "skip_hosts") := by
  rw [Shaped]
  generalize getMember server "logs" = logs
  have hfalsy {logs : Json} (h : logs.truthy = false) :
      ∃ logsCfg, logs.orEmpty = .obj logsCfg ∧ Iterable (getMember logsCfg "skip_hosts") := by
    refine ⟨[], ?_, rfl⟩
    rw [Json.orEmpty, h, if_neg Bool.false_ne_true]
  have hother {logs : Json} (hdict : ∀ ms, logs ≠ .obj ms)
      (h : ∃ logsCfg, logs.orEmpty = .obj logsCfg ∧ Iterable (getMember logsCfg "skip_hosts")) : logs.truthy = false := by
    obtain ⟨logsCfg, hlogs, -⟩ := h
    by_contra htrue
    rw [Json.orEmpty, if_pos (Bool.of_not_eq_false htrue)] at hlogs
    exact hdict logsCfg hlogs
  cases logs with
  | obj ms =>
    have hsame : (Json.obj ms).orEmpty = .obj ms := by
      cases ms <;> rfl
    rw [hsame]
    constructor
    · exact fun h => ⟨ms, rfl, h⟩
    · rintro ⟨logsCfg, hlogs, h⟩
      cases hlogs
      exact h
  | null | bool | int | float | str | arr => exact ⟨hfalsy, hother fun ms h => by cases h⟩

/-- A server is read exactly where its shape is right, and what it adds does not depend on the others. -/
theorem readServer_iff (server : Json) (acc : List (String × List String) × List Json) :
    Shaped server ↔ ∃ acc', readServer m acc server = .ok acc' := by
  cases server with
  | obj server =>
    rw [shaped_obj]
    constructor
    · rintro ⟨logsCfg, hlogs, hskip⟩
      obtain ⟨elems, helems⟩ := (iterable_iff _).mp hskip
      rw [readServer_logs hlogs, helems]
      exact ⟨_, rfl⟩
    · rintro ⟨acc', hread⟩
      cases hlogs : (getMember server "logs").orEmpty with
      | obj logsCfg =>
        rw [readServer_logs hlogs] at hread
        refine ⟨logsCfg, rfl, (iterable_iff _).mpr ?_⟩
        cases helems : skipElems (getMember logsCfg "skip_hosts") with
        | error err =>
          rw [helems] at hread
          cases hread
        | ok elems => exact ⟨elems, rfl⟩
      | null | bool | int | float | str | arr =>
        rw [readServer, hlogs] at hread
        cases hread
  | null | bool | int | float | str | arr => exact iff_of_true trivial ⟨acc, rfl⟩

theorem deepGet_orEmpty {j : Json} {ms : List (String × Json)} (h : j.orEmpty = .obj ms) (key : String) :
    deepGet j [key] = getMember ms key := by
  rw [Json.orEmpty] at h
  by_cases htrue : j.truthy = true
  · rw [if_pos htrue] at h
    rw [h]
    rfl
  · rw [if_neg htrue, Json.obj.injEq] at h
    rw [← h]
    cases j with
    | obj ms =>
      cases ms with
      | nil => rfl
      | cons m ms => exact absurd rfl htrue
    | null | bool | int | float | str | arr => rfl

theorem hostsIn_readServer {server : Json} {acc acc' : List (String × List String) × List Json}
    (h : readServer m acc server = .ok acc') (loggerId : String) :
    hostsIn acc'.1 loggerId = hostsIn acc.1 loggerId ++ serverHosts m server loggerId := by
  cases server with
  | obj server =>
    obtain ⟨logsCfg, hlogs, -⟩ := (shaped_obj server).mp ((readServer_iff _ acc).mpr ⟨acc', h⟩)
    have hskip : deepGet (.obj server) ["logs", "skip_hosts"] = getMember logsCfg "skip_hosts" :=
      deepGet_orEmpty hlogs "skip_hosts"
    have hnames : deepGet (.obj server) ["logs", "logger_names"] = getMember logsCfg "logger_names" :=
      deepGet_orEmpty hlogs "logger_names"
    rw [readServer_logs hlogs] at h
    rw [serverHosts, namesOf, hnames, skipped, hskip]
    cases helems : skipElems (getMember logsCfg "skip_hosts") with
    | error err =>
      rw [helems] at h
      cases h
    | ok sSkip =>
      rw [helems] at h
      cases h
      exact hostsIn_names sSkip _ acc.1 loggerId
  | null | bool | int | float | str | arr =>
    cases h
    exact (List.append_nil _).symm

/-! ## All servers -/

theorem hostsIn_foldlM {servers : List Json} {acc acc' : List (String × List String) × List Json}
    (h : servers.foldlM (readServer m) acc = .ok acc') (loggerId : String) :
    hostsIn acc'.1 loggerId = hostsIn acc.1 loggerId ++ servers.flatMap fun server => serverHosts m server loggerId := by
  induction servers generalizing acc with
  | nil =>
    cases h
    exact (List.append_nil _).symm
  | cons server servers ih =>
    rw [List.foldlM_cons] at h
    obtain ⟨mid, hmid, hrest⟩ := Outcomes.bind_eq_ok.mp h
    rw [ih hrest, hostsIn_readServer hmid, List.append_assoc, List.flatMap_cons]

/-! ## File names -/

def filename (logger : String × Json) : Json := deepGet logger.2 ["writer", "filename"]

def adminUrl (baseUrl : String) : String := String.ofList (baseUrl.toList.rdropWhile (· = '/')) ++ "/config/"

/-- The names that are found. -/
def filesOf (m : Machine) (config : Json) : List String :=
  loggedFiles m (.obj (logsOf config)) (readLogs m [] (logsOf config))

/-- What is made of the hosts and the hosts to skip, once all servers are read. -/
def resultOf (m : Machine) (baseUrl : String) (logs : Json) (acc : List (String × List String) × List Json) :
    DiscoveryResult :=
  if loggedFiles m (.obj (members logs)) (readLogs m [] (members logs)) = [] then
    .failure s!"Caddy Admin API at {adminUrl baseUrl} succeeded but no log file paths found in config"
  else
    { success := true
      logFiles := loggedFiles m (.obj (members logs)) (readLogs m [] (members logs))
      loggerToHosts := acc.1
      loggerToFile := readLogs m [] (members logs)
      skipHosts := acc.2
      source := "caddy_admin_api" }

theorem tryCaddyAdminApi_config {baseUrl : String} {config : Json}
    (hget : m.get (adminUrl baseUrl) = .ok (200, .ok config)) : tryCaddyAdminApi m baseUrl =
      ((serversOf config).foldlM (readServer m) ([], [])).map
        (resultOf m baseUrl (deepGet config ["logging", "logs"])) := by
  have hurl : String.ofList (baseUrl.toList.rdropWhile (· = '/')) ++ "/config/" = adminUrl baseUrl := rfl
  have hfinish (logs : Json) (read : Except PyError (List (String × List String) × List Json)) :
      (do
        let acc ← read
        let loggerToFile := match logs with
          | .obj logs => readLogs m [] logs
          | _ => []
        if loggedFiles m logs loggerToFile = [] then
          pure (.failure s!"Caddy Admin API at {adminUrl baseUrl} succeeded but no log file paths found in config")
        else
          pure { success := true, logFiles := loggedFiles m logs loggerToFile, loggerToHosts := acc.1,
                 loggerToFile, skipHosts := acc.2, source := "caddy_admin_api" }) =
        read.map (resultOf m baseUrl logs) := by
    cases read with
    | error err => rfl
    | ok acc =>
      rw [Except.map, resultOf]
      cases logs with
      | obj logs => exact (apply_ite Except.ok _ _ _).symm
      | null | bool | int | float | str | arr => exact (apply_ite Except.ok _ _ _).symm
  have hmembers (acc : List (String × List String) × List Json) :
      resultOf m baseUrl (deepGet config ["logging", "logs"]) acc =
        resultOf m baseUrl (deepGet config ["logging", "logs"]).orEmpty acc := by
    rw [resultOf, ← members_orEmpty]
    rfl
  rw [tryCaddyAdminApi, hurl, hget, serversOf, ← members_orEmpty (deepGet config ["apps", "http", "servers"]),
    funext hmembers]
  dsimp only
  rw [if_neg (not_not.mpr rfl)]
  cases (deepGet config ["apps", "http", "servers"]).orEmpty with
  | obj servers => exact hfinish _ _
  | null | bool | int | float | str | arr => exact hfinish _ (.ok ([], []))

theorem hostsIn_recorded {config : Json} {acc : List (String × List String) × List Json}
    (h : (serversOf config).foldlM (readServer m) ([], []) = .ok acc) (loggerId : String) :
    hostsIn acc.1 loggerId = recordedHosts m config loggerId :=
  (hostsIn_foldlM h loggerId).trans (List.nil_append _)

theorem resultOf_files {baseUrl : String} {config : Json} (h : filesOf m config ≠ [])
    (acc : List (String × List String) × List Json) :
    (resultOf m baseUrl (deepGet config ["logging", "logs"]) acc).success = true ∧
      (resultOf m baseUrl (deepGet config ["logging", "logs"]) acc).logFiles = filesOf m config ∧
      (resultOf m baseUrl (deepGet config ["logging", "logs"]) acc).loggerToHosts = acc.1 := by
  have hresult : resultOf m baseUrl (deepGet config ["logging", "logs"]) acc =
      { success := true, logFiles := filesOf m config, loggerToHosts := acc.1,
        loggerToFile := readLogs m [] (logsOf config), skipHosts := acc.2, source := "caddy_admin_api" } := if_neg h
  rw [hresult]
  exact ⟨rfl, rfl, rfl⟩

theorem resultOf_no_files {baseUrl : String} {config : Json} (h : filesOf m config = [])
    (acc : List (String × List String) × List Json) :
    (resultOf m baseUrl (deepGet config ["logging", "logs"]) acc).success = false := by
  have hresult : resultOf m baseUrl (deepGet config ["logging", "logs"]) acc = .failure _ := if_pos h
  rw [hresult]
  rfl

end

/-! ## Configurations at work -/

/-- The Admin API answers, and nothing else is found on the machine. -/
def answering (config : Json) : Machine where
  get _ := .ok (200, .ok config)
  readText _ := .error ""
  readLines _ := []
  loads _ := none
  containerRepr _ := ""
  setOrder := ⟨id, fun l => .refl l⟩
  cmdlines := []
  userCaddyfile := ""
  isFile _ := false
  scandir _ := []

def enabled : Settings := ⟨"http://localhost:2019", true, "", []⟩

end Cadsa.Discovery
