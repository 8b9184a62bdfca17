import Cadsa.Db.Whitelist

/-! The whitelist and the blocklist as `api/security_api.py` has them: which entry the status of an address comes
from, and what a request to add an entry and one to delete it do. -/
namespace Cadsa.SecurityLists
open Db IpNetworks Tables
set_option autoImplicit false

/-! ## The blocklist

The table has the columns of the whitelist, and the helpers differ in its name alone. -/

abbrev BlocklistEntry := WhitelistEntry

abbrev Blocklist := Whitelist

def getBlocklist (b : Blocklist) : List BlocklistEntry := getWhitelist b

def addBlocklist (b : Blocklist) (cidr note createdAt : String) : Blocklist × ℕ := addWhitelist b cidr note createdAt

def removeBlocklist (b : Blocklist) (entryId : ℕ) : Blocklist := removeWhitelist b entryId

/-! ## The status of an address -/

section
variable (lib : Ipaddress)

def isIndividual (cidr : String) : Bool :=
  match lib.ipNetwork cidr with
  | some net => net.prefixLength = if net.version = .v4 then 32 else 128
  | none => true

structure EntryInfo where
  id : ℕ
  cidr : String
  note : String
  isIndividual : Bool
  deriving DecidableEq

def entryInfo (entry : Option WhitelistEntry) : Option EntryInfo :=
  entry.map fun e => ⟨e.id, e.cidr, e.note, isIndividual lib e.cidr⟩

structure IpStatus where
  ip : String
  whitelisted : Bool
  whitelistEntry : Option EntryInfo
  blocked : Bool
  blockEntry : Option EntryInfo
  deriving DecidableEq

def getIpStatus (whitelist : Whitelist) (blocklist : Blocklist) (ip : String) : IpStatus :=
  let wlMatch := matchCidr lib ip (getWhitelist whitelist)
  let blMatch := matchCidr lib ip (getBlocklist blocklist)
  { ip := ip
    whitelisted := wlMatch.isSome
    whitelistEntry := entryInfo lib wlMatch
    blocked := blMatch.isSome
    blockEntry := entryInfo lib blMatch }

/-- The text is that of a network of the address's version, and the two share its prefix. -/
def Within (addr : Address) (entry : WhitelistEntry) : Prop :=
  ∃ net, lib.ipNetwork entry.cidr = some net ∧ addr.version = net.version ∧ net.SharesPrefix addr

/-- The entry is the first in the list that the address is within. -/
def FirstMatch (ip : String) (entries : List WhitelistEntry) (entry : WhitelistEntry) : Prop :=
  ∃ addr earlier later, lib.ipAddress ip = some addr ∧ entries = earlier ++ entry :: later ∧ Within lib addr entry ∧
    ∀ e ∈ earlier, ¬ Within lib addr e

def validEntries (entries : List WhitelistEntry) : List WhitelistEntry :=
  entries.filter fun entry => (lib.ipNetwork entry.cidr).isSome

end

section
variable {lib : Ipaddress} {ip : String} {entries : List WhitelistEntry}

theorem inNetwork_iff_within {addr : Address} {entry : WhitelistEntry} :
    inNetwork lib addr entry.cidr = true ↔ Within lib addr entry := by
  rw [inNetwork, Option.any_eq_true, Within]
  simp only [contains_iff_sharesPrefix]

theorem matchCidr_of_address {addr : Address} (h : lib.ipAddress ip = some addr) :
    matchCidr lib ip entries = entries.find? fun entry => inNetwork lib addr entry.cidr := by
  rw [matchCidr, h]

theorem matchCidr_of_invalid (h : lib.ipAddress ip = none) : matchCidr lib ip entries = none := by
  rw [matchCidr, h]

theorem matchCidr_eq_some_iff {entry : WhitelistEntry} :
    matchCidr lib ip entries = some entry ↔ FirstMatch lib ip entries entry := by
  constructor
  · intro h
    cases haddr : lib.ipAddress ip with
    | none =>
      rw [matchCidr_of_invalid haddr] at h
      contradiction
    | some addr =>
      rw [matchCidr_of_address haddr, List.find?_eq_some_iff_append] at h
      obtain ⟨hentry, earlier, later, hsplit, hearlier⟩ := h
      refine ⟨addr, earlier, later, haddr, hsplit, inNetwork_iff_within.mp hentry, fun e he hwithin => ?_⟩
      have hnot := hearlier e he
      rw [inNetwork_iff_within.mpr hwithin] at hnot
      contradiction
  · rintro ⟨addr, earlier, later, haddr, hsplit, hentry, hearlier⟩
    rw [matchCidr_of_address haddr, List.find?_eq_some_iff_append]
    refine ⟨inNetwork_iff_within.mpr hentry, earlier, later, hsplit, fun e he => ?_⟩
    rw [Bool.not_eq_true', Bool.eq_false_iff]
    exact fun hin => hearlier e he (inNetwork_iff_within.mp hin)

theorem matchCidr_isSome_iff :
    (matchCidr lib ip entries).isSome = true ↔
      ∃ addr, lib.ipAddress ip = some addr ∧ ∃ entry ∈ entries, Within lib addr entry := by
  cases haddr : lib.ipAddress ip with
  | none =>
    rw [matchCidr_of_invalid haddr]
    simp
  | some addr =>
    rw [matchCidr_of_address haddr, List.find?_isSome]
    simp only [inNetwork_iff_within, Option.some.injEq, exists_eq_left']

theorem matchCidr_eq_none_iff :
    matchCidr lib ip entries = none ↔
      ∀ addr, lib.ipAddress ip = some addr → ∀ entry ∈ entries, ¬ Within lib addr entry := by
  rw [← Option.not_isSome_iff_eq_none, matchCidr_isSome_iff]
  push Not
  rfl

/-- No address is in an entry whose text is no network. -/
theorem matchCidr_validEntries : matchCidr lib ip (validEntries lib entries) = matchCidr lib ip entries := by
  cases haddr : lib.ipAddress ip with
  | none => rw [matchCidr_of_invalid haddr, matchCidr_of_invalid haddr]
  | some addr =>
    rw [matchCidr_of_address haddr, matchCidr_of_address haddr, validEntries, List.find?_filter]
    congr 1
    funext entry
    rw [inNetwork]
    cases lib.ipNetwork entry.cidr with
    | none => rfl
    | some net => simp

/-- **The lookup is exact**: it gives the first entry of the list that the address is within, and nothing where
there is none or where the text is no address. Entries that are no networks make no difference, and the order of
the entries none to whether one is found. -/
theorem matchCidr_exact (lib : Ipaddress) (ip : String) (entries : List WhitelistEntry) :
    (∀ entry, matchCidr lib ip entries = some entry ↔ FirstMatch lib ip entries entry) ∧
    (matchCidr lib ip entries = none ↔
      ∀ addr, lib.ipAddress ip = some addr → ∀ entry ∈ entries, ¬ Within lib addr entry) ∧
    (∀ others, validEntries lib others = validEntries lib entries →
      matchCidr lib ip others = matchCidr lib ip entries) ∧
    ∀ others : List WhitelistEntry, others.Perm entries →
      (matchCidr lib ip others).isSome = (matchCidr lib ip entries).isSome := by
  refine ⟨fun entry => matchCidr_eq_some_iff, matchCidr_eq_none_iff, fun others hvalid => ?_, fun others hperm => ?_⟩
  · rw [← matchCidr_validEntries, hvalid, matchCidr_validEntries]
  · rw [Bool.eq_iff_iff, matchCidr_isSome_iff, matchCidr_isSome_iff]
    simp only [hperm.mem_iff]

/-- An address has the status of a list just where some entry covers it. -/
theorem getIpStatus_covered (whitelist : Whitelist) (blocklist : Blocklist) :
    ((getIpStatus lib whitelist blocklist ip).whitelisted = true ↔ Covered lib whitelist ip) ∧
      ((getIpStatus lib whitelist blocklist ip).blocked = true ↔ Covered lib blocklist ip) :=
  ⟨matchCidr_isSome lib, matchCidr_isSome lib⟩

end

/-! ## Requests to add and to delete -/

/-- `WhitelistRequest` and `BlocklistRequest`. -/
structure ListRequest where
  cidr : String
  note : String

structure Created where
  id : ℕ
  cidr : String
  deriving DecidableEq

structure Lists where
  whitelist : Whitelist
  blocklist : Blocklist

def createWhitelistEntry (s : Lists) (body : ListRequest) (now : String) : Lists × Created :=
  let (whitelist, entryId) := addWhitelist s.whitelist body.cidr body.note now
  ({ s with whitelist }, ⟨entryId, body.cidr⟩)

def deleteWhitelistEntry (s : Lists) (entryId : ℕ) : Lists := { s with whitelist := removeWhitelist s.whitelist entryId }

def createBlocklistEntry (s : Lists) (body : ListRequest) (now : String) : Lists × Created :=
  let (blocklist, entryId) := addBlocklist s.blocklist body.cidr body.note now
  ({ s with blocklist }, ⟨entryId, body.cidr⟩)

def deleteBlocklistEntry (s : Lists) (entryId : ℕ) : Lists := { s with blocklist := removeBlocklist s.blocklist entryId }

inductive Request
  | createWhitelist (body : ListRequest) (now : String)
  | deleteWhitelist (entryId : ℕ)
  | createBlocklist (body : ListRequest) (now : String)
  | deleteBlocklist (entryId : ℕ)

def handle (s : Lists) : Request → Lists
  | .createWhitelist body now => (createWhitelistEntry s body now).1
  | .deleteWhitelist entryId => deleteWhitelistEntry s entryId
  | .createBlocklist body now => (createBlocklistEntry s body now).1
  | .deleteBlocklist entryId => deleteBlocklistEntry s entryId

def after (requests : List Request) : Lists := requests.foldl handle ⟨Whitelist.empty, Whitelist.empty⟩

/-- The requests of one list, with its entries and those of the other. -/
structure Endpoints where
  entries : Lists → List WhitelistEntry
  others : Lists → List WhitelistEntry
  create : Lists → ListRequest → String → Lists × Created
  delete : Lists → ℕ → Lists

def whitelistEndpoints : Endpoints where
  entries s := getWhitelist s.whitelist
  others s := getBlocklist s.blocklist
  create := createWhitelistEntry
  delete := deleteWhitelistEntry

def blocklistEndpoints : Endpoints where
  entries s := getBlocklist s.blocklist
  others s := getWhitelist s.whitelist
  create := createBlocklistEntry
  delete := deleteBlocklistEntry

/-- The answer to the request names the one entry of the text, and the deletion of what it names leaves of the list
what it had of other texts, and the other list alone. -/
structure RoundTrip (e : Endpoints) (s : Lists) (body : ListRequest) (now : String) : Prop where
  identifies : ∃ entry ∈ e.entries (e.create s body now).1,
    entry.id = (e.create s body now).2.id ∧ entry.cidr = body.cidr
  single : ((e.entries (e.create s body now).1).filter fun entry => entry.cidr = body.cidr).length ≤ 1
  removed : e.entries (e.delete (e.create s body now).1 (e.create s body now).2.id) =
    (e.entries s).filter fun entry => entry.cidr ≠ body.cidr
  others : e.others (e.delete (e.create s body now).1 (e.create s body now).2.id) = e.others s

def Listed (entries : List WhitelistEntry) (cidr : String) : Prop := cidr ∈ entries.map WhitelistEntry.cidr

instance (entries : List WhitelistEntry) (cidr : String) : Decidable (Listed entries cidr) :=
  inferInstanceAs (Decidable (cidr ∈ entries.map WhitelistEntry.cidr))

/-! ### One list -/

section
variable {w : Whitelist} {cidr : String} (note now : String)

theorem addWhitelist_listed (h : Listed (getWhitelist w) cidr) : addWhitelist w cidr note now = (w, 0) := dif_pos h

/-- A text that is not listed becomes the last entry, under an id that no other has. -/
theorem addWhitelist_unlisted (h : ¬ Listed (getWhitelist w) cidr) :
    ∃ entry : WhitelistEntry, entry.cidr = cidr ∧ entry.id = (addWhitelist w cidr note now).2 ∧ 1 ≤ entry.id ∧
      entry.id ∉ w.table.rows.map WhitelistEntry.id ∧
      getWhitelist (addWhitelist w cidr note now).1 = getWhitelist w ++ [entry] := by
  unfold addWhitelist
  split_ifs with hlisted
  · exact absurd hlisted h
  · exact ⟨_, rfl, rfl, Nat.le_add_left .., nextKey_fresh _, rfl⟩

theorem filter_cidr_of_unlisted {entries : List WhitelistEntry} (h : ¬ Listed entries cidr) :
    entries.filter (fun entry => entry.cidr ≠ cidr) = entries := by
  refine List.filter_eq_self.mpr fun entry hentry => decide_eq_true ?_
  exact fun he => h (he ▸ List.mem_map_of_mem hentry)

/-- A UNIQUE text has one entry at most. -/
theorem length_filter_cidr_le (w : Whitelist) (cidr : String) :
    ((getWhitelist w).filter fun entry => entry.cidr = cidr).length ≤ 1 := by
  have hcount := List.nodup_iff_count_le_one.mp w.cidrs cidr
  rw [List.count_eq_length_filter, List.filter_map, List.length_map] at hcount
  refine le_of_eq_of_le (congrArg List.length (List.filter_congr fun entry _ => ?_)) hcount
  rw [Function.comp_apply, beq_eq_decide]

/-- To delete the id that a text was given leaves the entries as they were. -/
theorem removeWhitelist_added (h : ¬ Listed (getWhitelist w) cidr) :
    getWhitelist (removeWhitelist (addWhitelist w cidr note now).1 (addWhitelist w cidr note now).2) =
      getWhitelist w := by
  obtain ⟨entry, -, hid, -, hfresh, hrows⟩ := addWhitelist_unlisted note now h
  have hremoved : getWhitelist (removeWhitelist (addWhitelist w cidr note now).1 entry.id) =
      (getWhitelist (addWhitelist w cidr note now).1).filter fun r => r.id ≠ entry.id := rfl
  rw [← hid, hremoved, hrows, List.filter_append, List.filter_singleton]
  have hkept : (getWhitelist w).filter (fun r => r.id ≠ entry.id) = getWhitelist w := by
    refine List.filter_eq_self.mpr fun r hr => decide_eq_true ?_
    exact fun he => hfresh (he ▸ List.mem_map_of_mem hr)
  rw [hkept]
  simp

end

/-! ### The ids of reachable lists -/

/-- SQLite gives out no id below one. -/
def Positive (w : Whitelist) : Prop := ∀ entry ∈ getWhitelist w, 1 ≤ entry.id

theorem positive_addWhitelist {w : Whitelist} (h : Positive w) (cidr note now : String) :
    Positive (addWhitelist w cidr note now).1 := by
  by_cases hlisted : Listed (getWhitelist w) cidr
  · rw [addWhitelist_listed note now hlisted]
    exact h
  · obtain ⟨entry, -, -, hpos, -, hrows⟩ := addWhitelist_unlisted note now hlisted
    intro r hr
    rw [hrows] at hr
    rcases List.mem_append.mp hr with hr | hr
    · exact h r hr
    · rw [List.mem_singleton.mp hr]
      exact hpos

theorem positive_removeWhitelist {w : Whitelist} (h : Positive w) (entryId : ℕ) : Positive (removeWhitelist w entryId) :=
  fun r hr => h r (List.mem_of_mem_filter hr)

theorem positive_handle {s : Lists} (h : Positive s.whitelist ∧ Positive s.blocklist) (request : Request) :
    Positive (handle s request).whitelist ∧ Positive (handle s request).blocklist := by
  cases request with
  | createWhitelist body now => exact ⟨positive_addWhitelist h.1 _ _ _, h.2⟩
  | deleteWhitelist entryId => exact ⟨positive_removeWhitelist h.1 entryId, h.2⟩
  | createBlocklist body now => exact ⟨h.1, positive_addWhitelist h.2 _ _ _⟩
  | deleteBlocklist entryId => exact ⟨h.1, positive_removeWhitelist h.2 entryId⟩

theorem positive_foldl {s : Lists} (h : Positive s.whitelist ∧ Positive s.blocklist) (requests : List Request) :
    Positive (requests.foldl handle s).whitelist ∧ Positive (requests.foldl handle s).blocklist := by
  induction requests generalizing s with
  | nil => exact h
  | cons request requests ih => exact ih (positive_handle h request)

theorem positive_after (requests : List Request) :
    Positive (after requests).whitelist ∧ Positive (after requests).blocklist := by
  apply positive_foldl
  exact ⟨fun _ h => absurd h List.not_mem_nil, fun _ h => absurd h List.not_mem_nil⟩

/-! ### The round trip -/

section
variable {e : Endpoints} {s : Lists} {w : Whitelist} {body : ListRequest} {now : String}

/-- The endpoints do to the entries of their list what the helpers do to the list. -/
structure Serves (e : Endpoints) (s : Lists) (w : Whitelist) (body : ListRequest) (now : String) : Prop where
  entries : e.entries s = getWhitelist w
  created : e.entries (e.create s body now).1 = getWhitelist (addWhitelist w body.cidr body.note now).1
  answer : (e.create s body now).2.id = (addWhitelist w body.cidr body.note now).2
  deleted : ∀ entryId, e.entries (e.delete (e.create s body now).1 entryId) =
    getWhitelist (removeWhitelist (addWhitelist w body.cidr body.note now).1 entryId)
  others : ∀ entryId, e.others (e.delete (e.create s body now).1 entryId) = e.others s

theorem serves_whitelist : Serves whitelistEndpoints s s.whitelist body now where
  entries := rfl
  created := rfl
  answer := rfl
  deleted _ := rfl
  others _ := rfl

theorem serves_blocklist : Serves blocklistEndpoints s s.blocklist body now where
  entries := rfl
  created := rfl
  answer := rfl
  deleted _ := rfl
  others _ := rfl

theorem Serves.roundTrip_iff (h : Serves e s w body now) (hpos : Positive w) :
    RoundTrip e s body now ↔ ¬ Listed (e.entries s) body.cidr := by
  rw [h.entries]
  constructor
  · -- The id that is answered for a text already listed is no entry's.
    intro hr hlisted
    obtain ⟨entry, hentry, hid, -⟩ := hr.identifies
    rw [h.created, addWhitelist_listed _ _ hlisted] at hentry
    rw [h.answer, addWhitelist_listed _ _ hlisted] at hid
    have := hpos entry hentry
    omega
  · intro hunlisted
    obtain ⟨entry, hcidr, hid, -, -, hrows⟩ := addWhitelist_unlisted body.note now hunlisted
    refine ⟨⟨entry, ?_, ?_, hcidr⟩, ?_, ?_, h.others _⟩
    · rw [h.created, hrows]
      exact List.mem_append_right _ (List.mem_singleton.mpr rfl)
    · rw [h.answer, hid]
    · rw [h.created]
      exact length_filter_cidr_le _ _
    · rw [h.deleted, h.answer, h.entries, removeWhitelist_added _ _ hunlisted, filter_cidr_of_unlisted hunlisted]

end

/-- **To add a text and delete the id that is answered** takes it out of the list just where it was not listed before:
the answer for a text that is listed already names no entry. -/
theorem roundTrip_iff_unlisted (requests : List Request) (body : ListRequest) (now : String) :
    (RoundTrip whitelistEndpoints (after requests) body now ↔
      ¬ Listed (getWhitelist (after requests).whitelist) body.cidr) ∧
    (RoundTrip blocklistEndpoints (after requests) body now ↔
      ¬ Listed (getBlocklist (after requests).blocklist) body.cidr) :=
  ⟨serves_whitelist.roundTrip_iff (positive_after requests).1, serves_blocklist.roundTrip_iff (positive_after requests).2⟩

/-- The same range added twice: the second answer has the id 0, and to delete that deletes nothing. -/
theorem roundTrip_twice :
    ¬ ∀ (requests : List Request) (body : ListRequest) (now : String),
      RoundTrip whitelistEndpoints (after requests) body now := by
  intro h
  have hrange := h [.createWhitelist ⟨"10.0.0.0/8", "office"⟩ "2026-01-01T00:00:00+00:00"] ⟨"10.0.0.0/8", ""⟩
    "2026-01-02T00:00:00+00:00"
  have hremoved := congrArg List.length hrange.removed
  revert hremoved
  decide

end Cadsa.SecurityLists
