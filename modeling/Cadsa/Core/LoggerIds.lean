import Cadsa.Core.AdminApi
import Cadsa.Core.HostResolution

/-! The ids of loggers on both sides: the discovery keys the hosts by the id of the configuration, the parser takes
the id from the name of a logged entry. -/
namespace Cadsa.Discovery
open PyJson LogParser
set_option autoImplicit false

/-- The name under which Caddy logs for a logger. -/
def accessLogger (loggerId : String) : String := "http.log.access." ++ loggerId

/-- No host, no name of a TLS handshake, no `Host` header. -/
def Unhosted (py : Python) (entry : List (String × Json)) : Prop := ∀ j ∈ hostFields py entry, j = .null

/-- The entry resolves to the first host that is recorded for the logger. -/
def RoundTrips (py : Python) (result : DiscoveryResult) (label loggerId : String) (entry : List (String × Json)) : Prop :=
  ∃ first, (hostsIn result.loggerToHosts loggerId).head? = some first ∧
    resolveHost py result.loggerToHosts label entry = .ok first

/-- What stands behind the last dot has the same first host; or no host is recorded for it, and the label is that host. -/
def Recovered (m : Machine) (config : Json) (label loggerId : String) : Prop :=
  (idOf loggerId ≠ "" ∧ recordedHosts m config (idOf loggerId) ≠ [] ∧
    (recordedHosts m config (idOf loggerId)).head? = (recordedHosts m config loggerId).head?) ∨
  ((idOf loggerId = "" ∨ recordedHosts m config (idOf loggerId) = []) ∧
    (recordedHosts m config loggerId).head? = some (labelHost label))

section
variable {py : Python} {m : Machine} {config : Json} {baseUrl label loggerId logger : String} {result : DiscoveryResult}
  {entry : List (String × Json)}

/-! ## Ids in names -/

theorem takeWhile_stopped {p : Char → Bool} {c : Char} (hc : p c = false) (a b : List Char) :
    (a ++ c :: b).takeWhile p = a.takeWhile p := by
  induction a with
  | nil => exact List.takeWhile_cons_of_neg (Bool.eq_false_iff.mp hc)
  | cons d a ih => rw [List.cons_append, List.takeWhile_cons, List.takeWhile_cons, ih]

theorem idOf_behind (a b : List Char) : idOf (String.ofList (a ++ '.' :: b)) = idOf (String.ofList b) := by
  have hstop := takeWhile_stopped (p := fun c => decide (c ≠ '.')) (c := '.') (by decide) b.reverse a.reverse
  rw [idOf, idOf, String.toList_ofList, String.toList_ofList, List.rtakeWhile, List.rtakeWhile, List.reverse_append,
    List.reverse_cons, List.append_assoc, List.singleton_append, hstop]

theorem idOf_accessLogger (loggerId : String) : idOf (accessLogger loggerId) = idOf loggerId := by
  have hdot : "http.log.access.".toList = "http.log.access".toList ++ ['.'] := rfl
  have hname : (accessLogger loggerId).toList = "http.log.access".toList ++ '.' :: loggerId.toList :=
    String.toList_append.trans ((congrArg (· ++ loggerId.toList) hdot).trans (List.append_assoc ..))
  have hbehind := idOf_behind "http.log.access".toList loggerId.toList
  rwa [← hname, String.ofList_toList, String.ofList_toList] at hbehind

theorem recovered_plain (hdot : '.' ∉ loggerId.toList) (hne : loggerId ≠ "")
    (hmapped : recordedHosts m config loggerId ≠ []) : Recovered m config label loggerId := by
  rw [Recovered, idOf_plain hdot]
  exact .inl ⟨hne, hmapped, rfl⟩

/-! ## Round trips -/

theorem resolveHost_unhosted (hentry : Unhosted py entry) (hlogger : loggerName entry = .str logger)
    (hosts : List (String × List String)) :
    resolveHost py hosts label entry = .ok (mappedOrLabel hosts label logger) := by
  have htyped : HostTyped py entry := fun j hj => .inl (hentry j hj)
  have hnone : hostTexts py entry = [] := by
    refine List.filterMap_eq_nil_iff.mpr fun j hj => ?_
    rw [hentry j hj]
    rfl
  rw [resolveHost_typed htyped hlogger, hnone]
  rfl

theorem hostsIn_result (hget : m.get (adminUrl baseUrl) = .ok (200, .ok config))
    (hresult : tryCaddyAdminApi m baseUrl = .ok result) (hsuccess : result.success = true) (loggerId : String) :
    hostsIn result.loggerToHosts loggerId = recordedHosts m config loggerId := by
  rw [tryCaddyAdminApi_config hget] at hresult
  cases hread : (serversOf config).foldlM (readServer m) ([], []) with
  | error err =>
    rw [hread] at hresult
    cases hresult
  | ok acc =>
    rw [hread, Except.map, Except.ok.injEq] at hresult
    have hfiles : filesOf m config ≠ [] := by
      intro hnone
      rw [← hresult, resultOf_no_files hnone] at hsuccess
      cases hsuccess
    rw [← hresult, (resultOf_files hfiles acc).2.2]
    exact hostsIn_recorded hread loggerId

theorem round_trip_iff (hget : m.get (adminUrl baseUrl) = .ok (200, .ok config))
    (hresult : tryCaddyAdminApi m baseUrl = .ok result) (hsuccess : result.success = true)
    (hmapped : recordedHosts m config loggerId ≠ []) (hentry : Unhosted py entry)
    (hlogger : loggerName entry = .str (accessLogger loggerId)) :
    RoundTrips py result label loggerId entry ↔ Recovered m config label loggerId := by
  have hrecorded := hostsIn_result hget hresult hsuccess
  rw [RoundTrips, Recovered, resolveHost_unhosted hentry hlogger, mappedOrLabel, mappedHost, idOf_accessLogger,
    hrecorded, ← hostsIn, hrecorded]
  obtain ⟨first, rest, hfirst⟩ := List.exists_cons_of_ne_nil hmapped
  rw [hfirst, List.head?_cons]
  have hresolved (host : String) : (∃ f, some first = some f ∧ (.ok host : Except PyError String) = .ok f) ↔
      host = first := by
    constructor
    · rintro ⟨f, hf, hhost⟩
      rw [Option.some.inj hf]
      exact Except.ok.inj hhost
    · rintro rfl
      exact ⟨host, rfl, rfl⟩
  rw [hresolved]
  by_cases hid : idOf loggerId = ""
  · rw [if_pos hid, or_iff_right fun h => h.1 hid, and_iff_right (.inl hid), Option.getD_none, Option.some.injEq, eq_comm]
  rw [if_neg hid, and_iff_right hid, or_iff_right hid]
  cases hother : recordedHosts m config (idOf loggerId) with
  | nil =>
    rw [or_iff_right fun h => h.1 rfl, and_iff_right rfl, List.head?_nil, Option.getD_none, Option.some.injEq, eq_comm]
  | cons other others =>
    rw [or_iff_left fun h => List.cons_ne_nil other others h.1, and_iff_right (List.cons_ne_nil other others),
      List.head?_cons, Option.getD_some, Option.some.injEq]

end

/-! ## Configurations at work -/

/-- One host of one server for a logger, and a file to make the discovery succeed. -/
def loggerConfig (loggerId : String) : Json :=
  .obj [("apps", .obj [("http", .obj [("servers", .obj [("srv0", .obj [("logs", .obj
      [("logger_names", .obj [("example.com", .arr [.str loggerId])])])])])])]),
    ("logging", .obj [("logs", .obj [("access", .obj [("writer", .obj [("filename", .str "/var/log/access.log")])])])])]

def accessEntry (loggerId : String) : List (String × Json) := [("logger", .str (accessLogger loggerId))]

theorem unhosted_accessEntry (loggerId : String) : Unhosted asciiLibrary (accessEntry loggerId) := by
  rw [Unhosted, hostFields, List.forall_mem_cons, List.forall_mem_cons, List.forall_mem_singleton]
  exact ⟨rfl, rfl, rfl⟩

theorem recorded_loggerConfig (m : Machine) (loggerId : String) :
    recordedHosts m (loggerConfig loggerId) loggerId = ["example.com"] := by
  change (List.replicate ([loggerId].count loggerId) "example.com" ++ []) ++ [] = _
  rw [List.count_singleton_self]
  rfl

theorem recorded_other {loggerId other : String} (h : loggerId ≠ other) (m : Machine) :
    recordedHosts m (loggerConfig loggerId) other = [] := by
  change (List.replicate ([loggerId].count other) "example.com" ++ []) ++ [] = _
  rw [List.count_eq_zero_of_not_mem (mt List.mem_singleton.mp (Ne.symm h))]
  rfl

theorem api_loggerConfig (loggerId : String) : ∃ result,
    tryCaddyAdminApi (answering (loggerConfig loggerId)) "" = .ok result ∧ result.success = true :=
  ⟨_, rfl, rfl⟩

theorem plain_id_round_trips : ∃ result, tryCaddyAdminApi (answering (loggerConfig "log8")) "" = .ok result ∧
    RoundTrips asciiLibrary result "" "log8" (accessEntry "log8") := by
  obtain ⟨result, hresult, hsuccess⟩ := api_loggerConfig "log8"
  have hmapped : recordedHosts (answering (loggerConfig "log8")) (loggerConfig "log8") "log8" ≠ [] := by
    rw [recorded_loggerConfig]
    decide
  have hget : (answering (loggerConfig "log8")).get (adminUrl "") = .ok (200, .ok (loggerConfig "log8")) := rfl
  exact ⟨result, hresult, (round_trip_iff hget hresult hsuccess hmapped (unhosted_accessEntry "log8") rfl).mpr
    (recovered_plain (by decide) (by decide) hmapped)⟩

/-- The hosts are recorded under the whole id, and asked for under what stands behind its dot. -/
theorem dotted_id_lost : ¬ ∀ (py : Python) (m : Machine) (config : Json) (baseUrl label loggerId : String)
    (result : DiscoveryResult) (entry : List (String × Json)), m.get (adminUrl baseUrl) = .ok (200, .ok config) →
    tryCaddyAdminApi m baseUrl = .ok result → result.success = true → recordedHosts m config loggerId ≠ [] →
    Unhosted py entry → loggerName entry = .str (accessLogger loggerId) → RoundTrips py result label loggerId entry := by
  intro h
  obtain ⟨result, hresult, hsuccess⟩ := api_loggerConfig "site.log"
  have hrecorded := recorded_loggerConfig (answering (loggerConfig "site.log")) "site.log"
  have hmapped : recordedHosts (answering (loggerConfig "site.log")) (loggerConfig "site.log") "site.log" ≠ [] := by
    rw [hrecorded]
    decide
  have hget : (answering (loggerConfig "site.log")).get (adminUrl "") = .ok (200, .ok (loggerConfig "site.log")) := rfl
  have htrip := h asciiLibrary _ _ "" "" "site.log" result (accessEntry "site.log") hget hresult hsuccess hmapped
    (unhosted_accessEntry "site.log") rfl
  have hid : idOf "site.log" = "log" := by decide
  have hrecovered := (round_trip_iff hget hresult hsuccess hmapped (unhosted_accessEntry "site.log") rfl).mp htrip
  rw [Recovered, hid, hrecorded, recorded_other (by decide)] at hrecovered
  obtain ⟨-, hsome, -⟩ | ⟨-, hlabel⟩ := hrecovered
  · exact hsome rfl
  · exact absurd hlabel (by decide)

end Cadsa.Discovery
