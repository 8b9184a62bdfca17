import Mathlib.Data.List.Infix
import Mathlib.Data.Int.Notation

/-! The values `json.loads` builds, and the operations Python code performs on them without
looking at their type first: truth, `a or b`, `j or {}`, `dict.get`, `str`, `set`, membership, and the
updates `d[key] = value` and `d.setdefault(key, []).append(value)`. -/
namespace PyJson
set_option autoImplicit false

/-- A Python value made from JSON. A float is given by its `repr`; the keys of an object are
distinct, in the order they were first seen. -/
inductive Json where
  | null
  | bool (b : Bool)
  | int (n : ℤ)
  | float (repr : String)
  | str (s : String)
  | arr (items : List Json)
  | obj (members : List (String × Json))

inductive PyError where
  | attributeError
  | typeError
  | valueError
  | overflowError
  deriving DecidableEq

def Json.truthy : Json → Bool
  | .null => false
  | .bool b => b
  | .int n => n ≠ 0
  | .float r => r ≠ "0.0" && r ≠ "-0.0"
  | .str s => s ≠ ""
  | .arr items => !items.isEmpty
  | .obj members => !members.isEmpty

def Json.orEmpty (j : Json) : Json := if j.truthy then j else .obj []

/-- `a or b`. -/
def Json.or (a b : Json) : Json := if a.truthy then a else b

def getMember (members : List (String × Json)) (key : String) : Json := (members.lookup key).getD .null

/-- `str(j)`; the `repr` of a list or a dict is given. -/
def Json.pyStr (containerRepr : Json → String) : Json → String
  | .null => "None"
  | .bool true => "True"
  | .bool false => "False"
  | .int n => toString n
  | .float r => r
  | .str s => s
  | j => containerRepr j

def Json.hashable : Json → Bool
  | .arr _ => false
  | .obj _ => false
  | _ => true

/-- The elements `set(j)` is made of. -/
def Json.setElems : Json → Except PyError (List Json)
  | .arr items => if items.all Json.hashable then .ok items else .error .typeError
  | .obj members => .ok (members.map fun m => .str m.1)
  | .str s => .ok (s.toList.map fun c => .str (String.singleton c))
  | _ => .error .typeError

def Json.isStr (s : String) : Json → Bool
  | .str t => s = t
  | _ => false

def Json.contains (s : String) : Json → Except PyError Bool
  | .arr items => .ok (items.any (Json.isStr s))
  | .obj members => .ok (members.any fun m => m.1 = s)
  | .str t => .ok (decide (s.toList <:+: t.toList))
  | _ => .error .typeError

def setItem {α : Type} (d : List (String × α)) (key : String) (value : α) : List (String × α) :=
  if d.any (fun m => m.1 = key) then d.map fun m => if m.1 = key then (key, value) else m
  else d ++ [(key, value)]

def appendItem {α : Type} (d : List (String × List α)) (key : String) (value : α) : List (String × List α) :=
  setItem d key ((d.lookup key).getD [] ++ [value])

/-! ## Lookups -/

section
variable {α : Type}

theorem lookup_cons (a : String) (b : α) (d : List (String × α)) (k : String) :
    ((a, b) :: d).lookup k = if k = a then some b else d.lookup k := by
  rw [List.lookup_cons]
  by_cases h : k = a
  · rw [beq_iff_eq.mpr h, if_pos h]
  · rw [beq_eq_false_iff_ne.mpr h, if_neg h]

theorem lookup_replaced (d : List (String × α)) (key : String) (value : α) (k : String) :
    (d.map fun m => if m.1 = key then (key, value) else m).lookup k =
      if k = key then (d.lookup key).map fun _ => value else d.lookup k := by
  induction d with
  | nil => exact (ite_self none).symm
  | cons m d ih =>
    obtain ⟨a, b⟩ := m
    rw [List.map_cons, lookup_cons a b, lookup_cons a b]
    dsimp only
    by_cases ha : a = key
    · rw [if_pos ha, lookup_cons, ih, ha, if_pos rfl]
      split_ifs <;> rfl
    · rw [if_neg ha, lookup_cons, ih, if_neg (Ne.symm ha)]
      by_cases hk : k = a
      · rw [if_pos hk, if_neg fun h => ha (hk.symm.trans h), if_pos hk]
      · rw [if_neg hk, if_neg hk]

theorem any_key_iff (d : List (String × α)) (key : String) :
    d.any (fun m => m.1 = key) = true ↔ (d.lookup key).isSome = true := by
  rw [List.lookup_isSome_iff, List.any_eq_true]
  refine exists_congr fun m => and_congr_right fun _ => ?_
  rw [decide_eq_true_eq, beq_iff_eq, eq_comm]

theorem lookup_setItem (d : List (String × α)) (key : String) (value : α) (k : String) :
    (setItem d key value).lookup k = if k = key then some value else d.lookup k := by
  rw [setItem]
  by_cases hany : d.any (fun m => m.1 = key) = true
  · obtain ⟨old, hold⟩ := Option.isSome_iff_exists.mp ((any_key_iff d key).mp hany)
    rw [if_pos hany, lookup_replaced, hold, Option.map_some]
  · have hnone : d.lookup key = none := Option.not_isSome_iff_eq_none.mp (mt (any_key_iff d key).mpr hany)
    rw [if_neg hany, List.lookup_append, lookup_cons]
    by_cases hk : k = key
    · rw [if_pos hk, if_pos hk, hk, hnone]
      rfl
    · rw [if_neg hk, if_neg hk]
      exact Option.or_none

/-- What a default of an empty list makes of the append. -/
theorem lookup_appendItem (d : List (String × List α)) (key : String) (value : α) (k : String) :
    ((appendItem d key value).lookup k).getD [] = (d.lookup k).getD [] ++ if k = key then [value] else [] := by
  rw [appendItem, lookup_setItem]
  by_cases hk : k = key
  · rw [if_pos hk, if_pos hk, hk]
    rfl
  · rw [if_neg hk, if_neg hk, List.append_nil]

/-- A new key stands at the end. -/
theorem setItem_new {d : List (String × α)} {key : String} (h : key ∉ d.map Prod.fst) (value : α) :
    setItem d key value = d ++ [(key, value)] := by
  refine if_neg fun hany => h ?_
  obtain ⟨m, hm, hkey⟩ := List.any_eq_true.mp hany
  exact List.mem_map.mpr ⟨m, hm, of_decide_eq_true hkey⟩

theorem mem_of_lookup {d : List (String × α)} {key : String} {value : α} (h : d.lookup key = some value) :
    (key, value) ∈ d := by
  obtain ⟨before, after, rfl, -⟩ := List.lookup_eq_some_iff.mp h
  exact List.mem_append_right before List.mem_cons_self

end

/-! ## What `json.loads` builds -/

/-- The keys of every object are distinct. -/
inductive Json.Built : Json → Prop
  | null : Json.Built .null
  | bool (b : Bool) : Json.Built (.bool b)
  | int (n : ℤ) : Json.Built (.int n)
  | float (r : String) : Json.Built (.float r)
  | str (s : String) : Json.Built (.str s)
  | arr {items : List Json} : (∀ j ∈ items, Json.Built j) → Json.Built (.arr items)
  | obj {members : List (String × Json)} : (members.map Prod.fst).Nodup → (∀ m ∈ members, Json.Built m.2) →
      Json.Built (.obj members)

theorem Json.Built.single {key : String} {value : Json} (h : value.Built) : (Json.obj [(key, value)]).Built :=
  .obj (List.nodup_cons.mpr ⟨List.not_mem_nil, List.nodup_nil⟩) (List.forall_mem_singleton.mpr h)

theorem Json.Built.getMember {members : List (String × Json)} (h : Json.Built (.obj members)) (key : String) :
    (getMember members key).Built := by
  cases h with
  | obj _ hvalues =>
    rw [PyJson.getMember]
    cases hlookup : members.lookup key with
    | none => exact .null
    | some value => exact hvalues _ (mem_of_lookup hlookup)

end PyJson
