import Cadsa.Lib.IpNetwork
import Cadsa.Lib.Table

/-! The whitelist helpers of `db/sqlite_manager.py`, and `_match_cidr` of `api/security_api.py`. -/
namespace Cadsa.Db
open IpNetworks Tables
set_option autoImplicit false

structure WhitelistEntry where
  id : ℕ
  cidr : String
  note : String
  createdAt : String
  deriving DecidableEq

structure Whitelist where
  table : Table ℕ WhitelistEntry WhitelistEntry.id
  cidrs : (table.rows.map WhitelistEntry.cidr).Nodup

def Whitelist.empty : Whitelist := ⟨⟨[], List.nodup_nil⟩, List.nodup_nil⟩

def getWhitelist (w : Whitelist) : List WhitelistEntry := w.table.rows

/-- With the id of the new entry. `INSERT OR IGNORE` leaves the table as it is where the text is there already. -/
def addWhitelist (w : Whitelist) (cidr note createdAt : String) : Whitelist × ℕ :=
  if h : cidr ∈ w.table.rows.map WhitelistEntry.cidr then (w, 0)
  else
    let entry : WhitelistEntry := ⟨nextKey (w.table.rows.map WhitelistEntry.id), cidr, note, createdAt⟩
    (⟨w.table.push entry (nextKey_fresh _), nodup_map_concat w.cidrs h⟩, entry.id)

def removeWhitelist (w : Whitelist) (entryId : ℕ) : Whitelist :=
  ⟨w.table.delete entryId, w.cidrs.sublist (List.filter_sublist.map _)⟩

/-! ## `_match_cidr` -/

/-- `ip_address` and `ip_network` with `strict=False`; nothing where they raise. -/
structure Ipaddress where
  ipAddress : String → Option Address
  ipNetwork : String → Option Network

variable (lib : Ipaddress)

/-- `addr in ip_network(cidr, strict=False)`. -/
def inNetwork (addr : Address) (cidr : String) : Bool := (lib.ipNetwork cidr).any (·.contains addr)

def matchCidr (ip : String) (entries : List WhitelistEntry) : Option WhitelistEntry :=
  match lib.ipAddress ip with
  | none => none
  | some addr => entries.find? fun entry => inNetwork lib addr entry.cidr

/-- The address is in the range of some entry. -/
def Covered (w : Whitelist) (ip : String) : Prop :=
  ∃ addr, lib.ipAddress ip = some addr ∧ ∃ entry ∈ getWhitelist w, ∃ net, lib.ipNetwork entry.cidr = some net ∧
    addr.version = net.version ∧ net.base ≤ addr.number ∧ addr.number < net.base + net.version.block net.prefixLength

theorem inNetwork_iff {addr : Address} {cidr : String} : inNetwork lib addr cidr = true ↔
    ∃ net, lib.ipNetwork cidr = some net ∧ addr.version = net.version ∧ net.base ≤ addr.number ∧
      addr.number < net.base + net.version.block net.prefixLength := by
  rw [inNetwork, Option.any_eq_true]
  simp only [contains_iff]

theorem matchCidr_isSome {w : Whitelist} {ip : String} :
    (matchCidr lib ip (getWhitelist w)).isSome ↔ Covered lib w ip := by
  rw [matchCidr, Covered]
  cases haddr : lib.ipAddress ip with
  | none => simp
  | some addr => simp [List.find?_isSome, inNetwork_iff]

end Cadsa.Db
