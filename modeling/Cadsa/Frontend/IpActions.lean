import Cadsa.Api.SecurityLists
import Cadsa.Lib.Runs
import Mathlib.Data.List.Find

/-! The buttons of `IPActions` on the page of an address: which of them the status offers, and what pressing them does
to the lists. An entry that they add or remove is one of that address alone. -/
namespace Cadsa.Frontend.IpActions
open Db IpNetworks SecurityLists Runs
set_option autoImplicit false

inductive Button
  | block
  | removeBlock
  | whitelist
  | removeWhitelist

section
variable (lib : Ipaddress) (ip : String)

def status (s : Lists) : IpStatus := getIpStatus lib s.whitelist s.blocklist ip

/-- The entry that a button removes: one of a single address. -/
def individual (listed : Bool) (entry : Option EntryInfo) : Option ℕ :=
  (entry.filter fun e => listed && e.isIndividual).map EntryInfo.id

/-- Nothing where the button is not offered; the second is the time of the request. -/
def press (s : Lists) : Button × String → Option Lists
  | (.block, now) => if (status lib ip s).blocked then none else some (createBlocklistEntry s ⟨ip, ""⟩ now).1
  | (.removeBlock, _) =>
    (individual (status lib ip s).blocked (status lib ip s).blockEntry).map (deleteBlocklistEntry s)
  | (.whitelist, now) => if (status lib ip s).whitelisted then none else some (createWhitelistEntry s ⟨ip, ""⟩ now).1
  | (.removeWhitelist, _) =>
    (individual (status lib ip s).whitelisted (status lib ip s).whitelistEntry).map (deleteWhitelistEntry s)

/-- A new entry is seen at once, and offered to be removed. -/
def Shown (button : Button) (status : IpStatus) : Prop :=
  match button with
  | .block => status.blocked = true ∧ (individual status.blocked status.blockEntry).isSome = true
  | .whitelist => status.whitelisted = true ∧ (individual status.whitelisted status.whitelistEntry).isSome = true
  | _ => True

end

/-! ## One list -/

section
variable {lib : Ipaddress} {ip text : String} {addr : Address} {w : Whitelist}

theorem matchCidr_congr {w' : Whitelist}
    (h : ∀ a, lib.ipAddress text = some a → (getWhitelist w').find? (fun entry => inNetwork lib a entry.cidr) =
      (getWhitelist w).find? fun entry => inNetwork lib a entry.cidr) :
    matchCidr lib text (getWhitelist w') = matchCidr lib text (getWhitelist w) := by
  cases ha : lib.ipAddress text with
  | none => rw [matchCidr_of_invalid ha, matchCidr_of_invalid ha]
  | some a => rw [matchCidr_of_address ha, matchCidr_of_address ha, h a ha]

/-- An entry of a single address matches no other. -/
theorem other_of_individual {cidr : String} (hin : inNetwork lib addr cidr = true)
    (hindividual : isIndividual lib cidr = true) {a : Address} (ha : a ≠ addr) : inNetwork lib a cidr = false := by
  obtain ⟨net, hnet, hcontains⟩ := (Option.any_eq_true _ _).mp hin
  have hwhole : net.prefixLength = net.version.width := by
    rw [isIndividual, hnet] at hindividual
    have hlength := of_decide_eq_true hindividual
    rw [hlength]
    cases net.version <;> rfl
  rw [inNetwork, hnet, Option.any_some, Bool.eq_false_iff]
  exact fun hother => ha (eq_of_contains hwhole hother hcontains)

section
variable (hnet : lib.ipNetwork ip = some (addr.network addr.version.width))
include hnet

theorem inNetwork_self : inNetwork lib addr ip = true := by
  rw [inNetwork, hnet]
  exact contains_network addr _

theorem isIndividual_self : isIndividual lib ip = true := by
  rw [isIndividual, hnet]
  cases hv : addr.version
  all_goals simp [Address.network, hv, Version.width]

theorem matchCidr_add (htext : lib.ipAddress text ≠ some addr) (now : String) :
    matchCidr lib text (getWhitelist (addWhitelist w ip "" now).1) = matchCidr lib text (getWhitelist w) := by
  by_cases hlisted : Listed (getWhitelist w) ip
  · rw [addWhitelist_listed "" now hlisted]
  · obtain ⟨entry, hcidr, -, -, -, hentries⟩ := addWhitelist_unlisted "" now hlisted
    apply matchCidr_congr
    intro a ha
    have hne : a ≠ addr := fun h => htext (h ▸ ha)
    have hother : inNetwork lib a entry.cidr = false := by
      rw [hcidr]
      exact other_of_individual (inNetwork_self hnet) (isIndividual_self hnet) hne
    rw [hentries, List.find?_append, List.find?_singleton, hother]
    simp

theorem matchCidr_added (haddr : lib.ipAddress ip = some addr) (hnone : matchCidr lib ip (getWhitelist w) = none)
    (now : String) :
    ∃ entry, matchCidr lib ip (getWhitelist (addWhitelist w ip "" now).1) = some entry ∧ entry.cidr = ip := by
  rw [matchCidr_of_address haddr] at hnone
  have hunlisted : ¬Listed (getWhitelist w) ip := by
    intro hlisted
    obtain ⟨entry, hentry, hcidr⟩ := List.mem_map.mp hlisted
    exact List.find?_eq_none.mp hnone entry hentry (hcidr ▸ inNetwork_self hnet)
  obtain ⟨entry, hcidr, -, -, -, hentries⟩ := addWhitelist_unlisted "" now hunlisted
  refine ⟨entry, ?_, hcidr⟩
  rw [matchCidr_of_address haddr, hentries, List.find?_append, hnone, List.find?_singleton, hcidr, inNetwork_self hnet]
  rfl

end

theorem matchCidr_remove (haddr : lib.ipAddress ip = some addr) {entry : WhitelistEntry}
    (hmatch : matchCidr lib ip (getWhitelist w) = some entry) (hindividual : isIndividual lib entry.cidr = true)
    (htext : lib.ipAddress text ≠ some addr) :
    matchCidr lib text (getWhitelist (removeWhitelist w entry.id)) = matchCidr lib text (getWhitelist w) := by
  rw [matchCidr_of_address haddr] at hmatch
  have hentry := List.mem_of_find?_eq_some hmatch
  have hin : inNetwork lib addr entry.cidr = true := by simpa using List.find?_some hmatch
  apply matchCidr_congr
  intro a ha
  have hother := other_of_individual hin hindividual fun h => htext (h ▸ ha)
  show ((getWhitelist w).filter fun r => r.id ≠ entry.id).find? _ = _
  rw [List.find?_filter]
  refine List.find?_congr fun r hr => ?_
  by_cases hid : r.id = entry.id
  · obtain rfl := List.inj_on_of_nodup_map w.table.nodup hr hentry hid
    simp [hother]
  · simp [hid]

end

/-! ## The buttons -/

section
variable {lib : Ipaddress}

theorem status_congr {text : String} {s s' : Lists}
    (hwhitelist : matchCidr lib text (getWhitelist s'.whitelist) = matchCidr lib text (getWhitelist s.whitelist))
    (hblocklist : matchCidr lib text (getBlocklist s'.blocklist) = matchCidr lib text (getBlocklist s.blocklist)) :
    status lib text s' = status lib text s := by
  rw [status, status, getIpStatus, getIpStatus, hwhitelist, hblocklist]

theorem individual_some {entry : Option WhitelistEntry} {id : ℕ}
    (h : individual entry.isSome (entryInfo lib entry) = some id) :
    ∃ e, entry = some e ∧ isIndividual lib e.cidr = true ∧ e.id = id := by
  cases entry with
  | none => cases h
  | some e =>
    obtain ⟨info, hinfo, rfl⟩ := Option.map_eq_some_iff.mp h
    obtain ⟨hsome, hindividual⟩ := Option.filter_eq_some_iff.mp hinfo
    obtain rfl := Option.some.inj hsome
    exact ⟨e, rfl, by simpa using hindividual, rfl⟩

theorem individual_isSome {entry : Option WhitelistEntry} {e : WhitelistEntry} (h : entry = some e)
    (hindividual : isIndividual lib e.cidr = true) :
    entry.isSome = true ∧ (individual entry.isSome (entryInfo lib entry)).isSome = true := by
  subst h
  simp [individual, entryInfo, hindividual]

variable {ip : String} {addr : Address} (haddr : lib.ipAddress ip = some addr)
  (hnet : lib.ipNetwork ip = some (addr.network addr.version.width)) {s s' : Lists} {pressed : Button × String}
include haddr hnet

theorem press_local (hpress : press lib ip s pressed = some s') {text : String} (htext : lib.ipAddress text ≠ some addr) :
    status lib text s' = status lib text s := by
  obtain ⟨button, now⟩ := pressed
  cases button with
  | block =>
    rw [press] at hpress
    split_ifs at hpress
    cases hpress
    exact status_congr rfl (matchCidr_add hnet htext now)
  | whitelist =>
    rw [press] at hpress
    split_ifs at hpress
    cases hpress
    exact status_congr (matchCidr_add hnet htext now) rfl
  | removeBlock =>
    obtain ⟨id, hid, rfl⟩ := Option.map_eq_some_iff.mp hpress
    obtain ⟨entry, hmatch, hindividual, rfl⟩ := individual_some hid
    exact status_congr rfl (matchCidr_remove haddr hmatch hindividual htext)
  | removeWhitelist =>
    obtain ⟨id, hid, rfl⟩ := Option.map_eq_some_iff.mp hpress
    obtain ⟨entry, hmatch, hindividual, rfl⟩ := individual_some hid
    exact status_congr (matchCidr_remove haddr hmatch hindividual htext) rfl

theorem press_shown (hpress : press lib ip s pressed = some s') : Shown pressed.1 (status lib ip s') := by
  obtain ⟨button, now⟩ := pressed
  cases button with
  | block =>
    rw [press] at hpress
    split_ifs at hpress with hblocked
    cases hpress
    have hnone : matchCidr lib ip (getWhitelist s.blocklist) = none := Option.not_isSome_iff_eq_none.mp hblocked
    obtain ⟨entry, hmatch, hcidr⟩ := matchCidr_added hnet haddr hnone now
    exact individual_isSome hmatch (hcidr ▸ isIndividual_self hnet)
  | whitelist =>
    rw [press] at hpress
    split_ifs at hpress with hwhitelisted
    cases hpress
    have hnone : matchCidr lib ip (getWhitelist s.whitelist) = none := Option.not_isSome_iff_eq_none.mp hwhitelisted
    obtain ⟨entry, hmatch, hcidr⟩ := matchCidr_added hnet haddr hnone now
    exact individual_isSome hmatch (hcidr ▸ isIndividual_self hnet)
  | removeBlock => trivial
  | removeWhitelist => trivial

/-- **The buttons of an address are about it alone**: in any run of presses that the status offers, a new entry is seen
at once, and no other address changes its status. -/
theorem panel_local (presses : List (Button × String)) (hrun : exec (press lib ip) s presses = some s') :
    Along (press lib ip) (fun _ pressed after => Shown pressed.1 (status lib ip after)) s presses ∧
    ∀ text, lib.ipAddress text ≠ some addr → status lib text s' = status lib text s := by
  constructor
  · have hall : Along (press lib ip) (fun _ _ _ => True) s presses := along_of_mem (fun _ _ _ _ => trivial) s
    refine Along.mono ?_ hall
    exact fun s pressed s' hpress _ => press_shown haddr hnet hpress
  · intro text htext
    induction presses generalizing s with
    | nil =>
      cases hrun
      rfl
    | cons pressed presses ih =>
      obtain ⟨m, hpress, hrun⟩ := exec_cons_some hrun
      exact (ih hrun).trans (press_local haddr hnet hpress htext)

end

def visitor : Address := ⟨.v4, 3325256727, by decide⟩

def neighbour : Address := ⟨.v4, 3325256728, by decide⟩

def sampleLib : Ipaddress where
  ipAddress s := if s = "198.51.100.23" then some visitor else if s = "198.51.100.24" then some neighbour else none
  ipNetwork s := if s = "198.51.100.23" then some (visitor.network 32) else if s = "198.51.100.0/24" then
    some (visitor.network 24) else none

/-- The network is on the whitelist. -/
def sampleLists : Lists := after [.createWhitelist ⟨"198.51.100.0/24", "office"⟩ "2026-01-01T00:00:00+00:00"]

def samplePresses : List (Button × String) :=
  [(.block, "2026-01-02T00:00:00+00:00"), (.removeBlock, "2026-01-03T00:00:00+00:00"),
    (.block, "2026-01-04T00:00:00+00:00")]

def afterPresses : Lists := (exec (press sampleLib "198.51.100.23") sampleLists samplePresses).getD sampleLists

theorem panel_local_sample :
    (status sampleLib "198.51.100.23" afterPresses).blocked = true ∧
    Along (press sampleLib "198.51.100.23")
      (fun _ pressed after => Shown pressed.1 (status sampleLib "198.51.100.23" after)) sampleLists samplePresses ∧
    ∀ text, sampleLib.ipAddress text ≠ some visitor →
      status sampleLib text afterPresses = status sampleLib text sampleLists :=
  ⟨by decide, panel_local rfl rfl samplePresses rfl⟩

end Cadsa.Frontend.IpActions
