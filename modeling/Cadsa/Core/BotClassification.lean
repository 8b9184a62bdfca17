import Cadsa.Core.Accounting
import Cadsa.Core.SecurityEngine

/-! What `enrich` and the rules of the security engine say of one user agent: the device, the flag, the score
and the events of known scanners and bad bots. -/
namespace Cadsa.BotClassification
open LogParser Ingestion Lowercase Regexes
open SecurityEngine (Text SecurityConfig State EventType Finding Counts)
set_option autoImplicit false

/-- `row.get("user_agent") or ""`, of a row whose agent is text or falsy. -/
def agentText (row : LogParser.Row) : String :=
  match row.userAgent.getD .null with
  | .str s => s
  | _ => ""

def isBotDevice (lower : String → String) (agent : Agent) : Bool :=
  occurs "bot" (lower agent.deviceFamily) || occurs "spider" (lower agent.deviceFamily)

section
variable {e : Machine} {row row' : LogParser.Row}

/-! ## What the enrichment leaves -/

theorem agentText_falsy (h : ¬ (row.userAgent.getD .null).truthy = true) : agentText row = "" := by
  rw [agentText]
  generalize row.userAgent.getD .null = ua at h ⊢
  cases ua with
  | str s => exact not_ne_iff.mp fun hne => h (decide_eq_true hne)
  | null | bool | int | float | arr | obj => rfl

theorem agentText_truthy {s : String} (htrue : (row.userAgent.getD .null).truthy = true)
    (h : row.userAgent.getD .null = .str s) : agentText row = s ∧ s ≠ "" := by
  rw [h] at htrue
  rw [agentText, h]
  exact ⟨rfl, of_decide_eq_true htrue⟩

theorem agentText_enrichGeoip (e : Machine) (row : LogParser.Row) :
    agentText (enrichGeoip e row) = agentText row ∧ (enrichGeoip e row).isBot = row.isBot := by
  unfold enrichGeoip
  split
  · exact ⟨rfl, rfl⟩
  · split
    · exact ⟨rfl, rfl⟩
    · split <;> exact ⟨rfl, rfl⟩

/-- The flag and the device that `_enrich_ua` gives an agent. -/
def flagOf (row : LogParser.Row) : Bool := agentText row = "" || row.isBot || isBadBot (agentText row)

def deviceFound (e : Machine) (row : LogParser.Row) : String :=
  if agentText row = "" then "bot"
  else match e.parseAgent (agentText row) with
  | .ok agent => deviceOf e.py.lower (flagOf row) agent
  | .error _ => "unknown"

theorem deviceFound_of_agent {s : String} {agent : Agent} (htext : agentText row = s) (hne : s ≠ "")
    (hagent : e.parseAgent s = .ok agent) : deviceFound e row = deviceOf e.py.lower (flagOf row) agent := by
  rw [deviceFound, htext, if_neg hne, hagent]

theorem deviceFound_of_error {s : String} {err : PyJson.PyError} (htext : agentText row = s) (hne : s ≠ "")
    (herr : e.parseAgent s = .error err) : deviceFound e row = "unknown" := by
  rw [deviceFound, htext, if_neg hne, herr]

theorem enrichUa_found (h : enrichUa e row = .ok row') :
    agentText row' = agentText row ∧ row'.isBot = flagOf row ∧ row'.uaDevice = some (deviceFound e row) := by
  rw [enrichUa] at h
  by_cases htrue : (row.userAgent.getD .null).truthy = true
  · rw [if_pos htrue] at h
    split at h
    · rename_i s hs
      obtain ⟨htext, hne⟩ := agentText_truthy htrue hs
      have hflag : flagOf row = (row.isBot || isBadBot s) := by
        rw [flagOf, htext, decide_eq_false hne, Bool.false_or]
      split at h
      · rename_i agent hagent
        have hdevice := deviceFound_of_agent htext hne hagent
        rw [hdevice, hflag, htext]
        cases h
        exact ⟨htext, rfl, rfl⟩
      · rename_i err herr
        have hdevice := deviceFound_of_error htext hne herr
        rw [hdevice, hflag, htext]
        cases h
        exact ⟨htext, rfl, rfl⟩
    · cases h
  · rw [if_neg htrue] at h
    have htext := agentText_falsy htrue
    cases h
    rw [flagOf, deviceFound, if_pos htext, htext]
    exact ⟨htext, rfl, rfl⟩

theorem scoreThreat_found (h : scoreThreat e row = .ok row') :
    agentText row' = agentText row ∧ row'.isBot = row.isBot ∧ row'.uaDevice = row.uaDevice ∧
      (agentText row = "" → 15 ≤ row'.threatScore) ∧
      (isBadBot (e.py.lower (agentText row)) = true → agentText row ≠ "" → 40 ≤ row'.threatScore) := by
  have hbase (n : ℤ) (hn : n ≤ 100) (a b c : ℤ) (ha : n ≤ a + b) (hc : 0 ≤ c) : n ≤ min (a + b + c) 100 :=
    le_min (by omega) hn
  have hstatus : 0 ≤ (if row.status.getD 0 ∈ [400, 401, 403, 404, 405, 429] then 5 else 0 : ℤ) := by
    split <;> decide
  rw [scoreThreat] at h
  by_cases htrue : (row.userAgent.getD .null).truthy = true
  · rw [if_pos htrue] at h
    split at h
    · rename_i s hs
      obtain ⟨htext, hne⟩ := agentText_truthy htrue hs
      rw [htext]
      cases h
      refine ⟨htext, rfl, rfl, fun hempty => absurd hempty hne, fun hbad _ => ?_⟩
      refine hbase 40 (by decide) _ _ _ ?_ hstatus
      rw [if_pos hbad]
      split <;> decide
    · cases h
  · rw [if_neg htrue] at h
    have htext := agentText_falsy htrue
    rw [htext]
    cases h
    refine ⟨htext, rfl, rfl, fun _ => ?_, fun _ hne => absurd rfl hne⟩
    refine hbase 15 (by decide) _ _ _ ?_ hstatus
    rw [if_pos rfl]
    split <;> decide

/-- What `enrich` leaves of a row. -/
theorem enrich_found (h : enrich e row = .ok row') :
    agentText row' = agentText row ∧ row'.isBot = flagOf row ∧ row'.uaDevice = some (deviceFound e row) ∧
      (agentText row = "" → 15 ≤ row'.threatScore) ∧
      (isBadBot (e.py.lower (agentText row)) = true → agentText row ≠ "" → 40 ≤ row'.threatScore) := by
  obtain ⟨mid, hmid, hscore⟩ := Outcomes.bind_eq_ok.mp h
  obtain ⟨hgeo, hgeobot⟩ := agentText_enrichGeoip e row
  obtain ⟨htext, hbot, hdevice⟩ := enrichUa_found hmid
  obtain ⟨hscored, hflag, hsame, hscores⟩ := scoreThreat_found hscore
  have hfound : flagOf (enrichGeoip e row) = flagOf row ∧ deviceFound e (enrichGeoip e row) = deviceFound e row := by
    rw [deviceFound, deviceFound, flagOf, flagOf, hgeo, hgeobot]
    exact ⟨rfl, rfl⟩
  rw [htext, hgeo] at hscored hscores
  exact ⟨hscored, hflag.trans (hbot.trans hfound.1), hsame.trans (hdevice.trans (congrArg some hfound.2)), hscores⟩

/-! ## The device and the flag -/

theorem deviceOf_bot (lower : String → String) (isBot : Bool) (agent : Agent) :
    deviceOf lower isBot agent = "bot" ↔ isBot = true ∨ isBotDevice lower agent = true := by
  rw [deviceOf, isBotDevice, ← Bool.or_eq_true, ← Bool.or_assoc]
  split_ifs with hbot hmobile htablet
  · exact iff_of_true rfl hbot
  all_goals exact iff_of_false (by decide) hbot

/-- The parser reads the agent and finds a device for bots only where the agent counts as a bot before, or it
raises on an agent that does not. -/
def Recognized (e : Machine) (row : LogParser.Row) : Prop :=
  agentText row = "" ∨ match e.parseAgent (agentText row) with
  | .ok agent => isBotDevice e.py.lower agent = true → row.isBot = true ∨ isBadBot (agentText row) = true
  | .error _ => row.isBot = false ∧ isBadBot (agentText row) = false

theorem device_iff_flag (e : Machine) (row : LogParser.Row) :
    (deviceFound e row = "bot" ↔ flagOf row = true) ↔ Recognized e row := by
  rw [deviceFound, Recognized]
  by_cases hempty : agentText row = ""
  · have hflag : flagOf row = true := by
      rw [flagOf, decide_eq_true hempty, Bool.true_or, Bool.true_or]
    rw [if_pos hempty]
    exact iff_of_true (iff_of_true rfl hflag) (.inl hempty)
  have hflag : flagOf row = (row.isBot || isBadBot (agentText row)) := by
    rw [flagOf, decide_eq_false hempty, Bool.false_or]
  rw [if_neg hempty, or_iff_right hempty, hflag]
  cases e.parseAgent (agentText row) with
  | ok agent =>
    dsimp only
    rw [deviceOf_bot, Bool.or_eq_true]
    exact or_iff_left_iff_imp
  | error err =>
    dsimp only
    have hunknown : ¬ "unknown" = "bot" := by decide
    rw [← Bool.or_eq_false_iff, ← Bool.not_eq_true, iff_false_left hunknown]

/-! ## The events -/

theorem ascii_patterns {w : String} (h : w ∈ badBotPatterns) : w ≠ "" ∧ IsAscii w.toList := by
  have hall : badBotPatterns.all (fun w => decide (w ≠ "") && w.toList.all fun c => decide (c.toNat < 128)) = true := by
    decide +kernel
  have hw := List.all_eq_true.mp hall w h
  rw [Bool.and_eq_true, decide_eq_true_eq, List.all_eq_true] at hw
  exact ⟨hw.1, fun c hc => of_decide_eq_true (hw.2 c hc)⟩

/-- What is found in the lower case text is found in the text. -/
theorem isBadBot_of_lower {lower : String → String} (hlower : Lowercases lower) {ua : String}
    (h : isBadBot (lower ua) = true) : isBadBot ua = true := by
  obtain ⟨w, hw, hfound⟩ := (search_words badBotPatterns (lower ua)).mp h
  obtain ⟨hne, hascii⟩ := ascii_patterns hw
  exact (search_words badBotPatterns ua).mpr ⟨w, hw, search_word_of_lower hlower hascii hne hfound⟩

/-- The engine's two lists are parts of the one of the enrichment. -/
theorem isBadBot_of_engine {s : String}
    (h : SecurityEngine.scannerUa.search s = true ∨ SecurityEngine.badBotUa.search s = true) : isBadBot s = true := by
  cases h with
  | inl hscanner =>
    refine search_words_subset ?_ hscanner
    decide +kernel
  | inr hbot =>
    refine search_words_subset ?_ hbot
    decide +kernel

theorem userAgent_ofParsed {r : SecurityEngine.Row} (h : SecurityEngine.Row.ofParsed row = some r) :
    r.userAgent.getD "" = agentText row := by
  rw [SecurityEngine.Row.ofParsed] at h
  by_cases htrue : (row.userAgent.getD .null).truthy = true
  · rw [if_pos htrue] at h
    split at h
    · rename_i s hs
      rw [(agentText_truthy htrue hs).1]
      cases h
      rfl
    · cases h
  · rw [if_neg htrue] at h
    rw [agentText_falsy htrue]
    cases h
    rfl

/-- An event of scanners or bad bots comes of the patterns, or of an empty agent. -/
theorem agent_of_event {t : Text} {cfg : SecurityConfig} {r : SecurityEngine.Row} {n : Counts} {f : Finding}
    (hf : f ∈ SecurityEngine.findings t cfg r n) (htype : f.eventType = .knownScanner ∨ f.eventType = .badBot) :
    isBadBot (r.lowerUa t) = true ∨ r.lowerUa t = "" := by
  rw [SecurityEngine.mem_findings] at hf
  cases htype with
  | inl hscanner =>
    rw [hscanner, SecurityEngine.findingsOf, SecurityEngine.scannerRule, List.mem_ite_nil_right] at hf
    exact .inl (isBadBot_of_engine (.inl hf.1))
  | inr hbot =>
    rw [hbot, SecurityEngine.findingsOf, SecurityEngine.badBotRule, SecurityEngine.emptyUaRule, List.mem_append,
      List.mem_ite_nil_right, List.mem_ite_nil_right] at hf
    cases hf with
    | inl hpattern => exact .inl (isBadBot_of_engine (.inr (Bool.and_eq_true_iff.mp hpattern.1).1))
    | inr hempty => exact .inr hempty.1.1

end

/-! ## One classification -/

/-- The device is a bot's where the flag is set; where the engine reports the agent, flag and score say so too. -/
structure BotsAgree (t : Text) (row : LogParser.Row) : Prop where
  device : row.uaDevice = some "bot" ↔ row.isBot = true
  events : ∀ (cfg : SecurityConfig) (now : ℤ) (s : State) (r : SecurityEngine.Row),
    SecurityEngine.Row.ofParsed row = some r → ∀ ev ∈ (SecurityEngine.evaluate t cfg now r s).2,
      ev.finding.eventType = .knownScanner ∨ ev.finding.eventType = .badBot →
        row.isBot = true ∧ (if agentText row = "" then 15 else 40) ≤ row.threatScore

section
variable {e : Machine} {t : Text} {row row' : LogParser.Row}

theorem reported_flagged (hlower : Lowercases e.py.lower) (htext : t.lower = e.py.lower) (h : enrich e row = .ok row')
    {cfg : SecurityConfig} {now : ℤ} {s : State} {r : SecurityEngine.Row}
    (hr : SecurityEngine.Row.ofParsed row' = some r) {ev : SecurityEngine.Event}
    (hev : ev ∈ (SecurityEngine.evaluate t cfg now r s).2)
    (htype : ev.finding.eventType = .knownScanner ∨ ev.finding.eventType = .badBot) :
    row'.isBot = true ∧ (if agentText row' = "" then 15 else 40) ≤ row'.threatScore := by
  obtain ⟨hsame, hbot, -, hempty, hscore⟩ := enrich_found h
  obtain ⟨f, hf, rfl⟩ := List.mem_map.mp hev
  have hfound := agent_of_event hf htype
  rw [SecurityEngine.Row.lowerUa, userAgent_ofParsed hr, htext, lower_eq_empty hlower, hsame] at hfound
  rw [hbot, hsame, flagOf, Bool.or_eq_true, Bool.or_eq_true, decide_eq_true_eq]
  by_cases hnone : agentText row = ""
  · rw [if_pos hnone]
    exact ⟨.inl (.inl hnone), hempty hnone⟩
  · have hbad := hfound.resolve_right hnone
    rw [if_neg hnone]
    exact ⟨.inr (isBadBot_of_lower hlower hbad), hscore hbad hnone⟩

theorem bots_agree_iff (hlower : Lowercases e.py.lower) (htext : t.lower = e.py.lower) (h : enrich e row = .ok row') :
    BotsAgree t row' ↔ Recognized e row := by
  have hdevice : (row'.uaDevice = some "bot" ↔ row'.isBot = true) ↔ Recognized e row := by
    obtain ⟨-, hbot, hdev, -⟩ := enrich_found h
    rw [hbot, hdev, Option.some.injEq]
    exact device_iff_flag e row
  rw [← hdevice]
  exact ⟨BotsAgree.device, fun hagree => ⟨hagree, fun _ _ _ _ hr _ hev htype =>
    reported_flagged hlower htext h hr hev htype⟩⟩

end

/-! ## Agents at work -/

/-- The row of a request as the parser leaves it, of the columns that are read here. -/
def visit (ua : String) : LogParser.Row where
  ts := 0
  host := "unknown"
  remoteIp := "127.0.0.1"
  method := none
  uri := none
  path := none
  query := none
  protocol := none
  status := some 200
  statusClass := some "2xx"
  responseBytes := none
  requestBytes := none
  durationMs := none
  userAgent := some (.str ua)
  uaBrowser := none
  uaOs := none
  uaDevice := none
  referer := none
  refererDomain := none
  tlsVersion := none
  tlsCipher := none
  tlsAlpn := none
  tlsResumed := none
  tlsEch := none
  httpProto := none
  loggerId := none
  loggerName := none
  logSource := ""
  countryCode := none
  countryName := none
  city := none
  latitude := none
  longitude := none
  asn := none
  org := none
  isBot := false
  threatScore := 0

/-- The parser knows one crawler. -/
def knowingMachine : Machine :=
  { machineOn "" [] with
    parseAgent := fun s =>
      if s = "Googlebot/2.1" then .ok ⟨"Googlebot", "2", "Other", "", "Spider", "Spider"⟩
      else .ok ⟨"Other", "", "Other", "", "Other", ""⟩ }

theorem lowercases_knowing : Lowercases knowingMachine.py.lower := lowercases_lowerAscii

theorem nikto_agrees : ∃ row', enrich knowingMachine (visit "Nikto/2.5") = .ok row' ∧
    BotsAgree SecurityEngine.asciiText row' := by
  have h : (enrich knowingMachine (visit "Nikto/2.5")).isOk = true := by decide +kernel
  cases henrich : enrich knowingMachine (visit "Nikto/2.5") with
  | error err =>
    rw [henrich] at h
    cases h
  | ok row' =>
    refine ⟨row', rfl, (bots_agree_iff lowercases_knowing rfl henrich).mpr (.inr ?_)⟩
    exact fun _ => .inr (by decide +kernel)

/-- A crawler that the parser knows and the patterns do not: the device is a bot, the flag stays unset. -/
theorem googlebot_unflagged : ¬ ∀ (e : Machine) (t : Text) (row row' : LogParser.Row), Lowercases e.py.lower →
    t.lower = e.py.lower → enrich e row = .ok row' → BotsAgree t row' := by
  intro h
  have hok : (enrich knowingMachine (visit "Googlebot/2.1")).toOption.map
      (fun row => (row.uaDevice, row.isBot)) = some (some "bot", false) := by decide +kernel
  cases henrich : enrich knowingMachine (visit "Googlebot/2.1") with
  | error err =>
    rw [henrich] at hok
    cases hok
  | ok row' =>
    rw [henrich, Except.toOption, Option.map_some, Option.some.injEq, Prod.mk.injEq] at hok
    have hagree := (h knowingMachine SecurityEngine.asciiText _ row' lowercases_knowing rfl henrich).device.mp hok.1
    rw [hok.2] at hagree
    cases hagree

end Cadsa.BotClassification
