import Mathlib.Data.List.Basic

/-! Lists of names and values in which a name may stand more than once, as in the query of a URL: the first value of a
name is read, setting one drops the others, and what has another name keeps its place. -/
namespace NamedValues
set_option autoImplicit false

variable {κ β : Type} [DecidableEq κ]

def get (p : List (κ × β)) (key : κ) : Option β := (p.find? fun pair => pair.1 = key).map Prod.snd

def delete (p : List (κ × β)) (key : κ) : List (κ × β) := p.filter fun pair => pair.1 ≠ key

def set (p : List (κ × β)) (key : κ) (value : β) : List (κ × β) :=
  match p with
  | [] => [(key, value)]
  | (name, old) :: rest => if name = key then (key, value) :: delete rest key else (name, old) :: set rest key value

/-- A value is set, or the name deleted. -/
def put (p : List (κ × β)) (key : κ) : Option β → List (κ × β)
  | some value => set p key value
  | none => delete p key

theorem get_cons (name : κ) (value : β) (p : List (κ × β)) (key : κ) :
    get ((name, value) :: p) key = if name = key then some value else get p key := by
  rw [get, List.find?_cons]
  by_cases h : name = key
  · simp [h]
  · simp [h, get]

@[simp] theorem get_delete (p : List (κ × β)) (key k : κ) :
    get (delete p key) k = if k = key then none else get p k := by
  induction p with
  | nil => simp [get, delete]
  | cons pair p ih =>
    obtain ⟨name, value⟩ := pair
    have hdelete : delete ((name, value) :: p) key =
        if name = key then delete p key else (name, value) :: delete p key := by
      simp only [delete, List.filter_cons]
      by_cases h : name = key
      all_goals simp [h]
    rw [hdelete, get_cons]
    by_cases hname : name = key
    · rw [if_pos hname, ih, hname]
      by_cases hk : k = key
      · simp [hk]
      · simp [hk, Ne.symm hk]
    · rw [if_neg hname, get_cons, ih]
      by_cases hk : k = key
      · simp [hk, hname]
      · simp [hk]

@[simp] theorem get_set (p : List (κ × β)) (key k : κ) (value : β) :
    get (set p key value) k = if k = key then some value else get p k := by
  induction p with
  | nil => simp [set, get, eq_comm]
  | cons pair p ih =>
    obtain ⟨name, old⟩ := pair
    by_cases hname : name = key
    · rw [set, if_pos hname, get_cons, get_cons, get_delete, hname]
      by_cases hk : k = key
      · simp [hk]
      · simp [hk, Ne.symm hk]
    · rw [set, if_neg hname, get_cons, get_cons, ih]
      by_cases hk : k = key
      · simp [hk, hname]
      · simp [hk]

@[simp] theorem get_put (p : List (κ × β)) (key k : κ) (value : Option β) :
    get (put p key value) k = if k = key then value else get p k := by
  cases value with
  | none => exact get_delete p key k
  | some value => exact get_set p key k value

section
variable (keeps : κ → Bool) {key : κ}

theorem filter_delete (h : keeps key = false) (p : List (κ × β)) :
    (delete p key).filter (fun pair => keeps pair.1) = p.filter fun pair => keeps pair.1 := by
  rw [delete, List.filter_filter]
  refine List.filter_congr fun pair _ => ?_
  by_cases hname : pair.1 = key
  · simp [hname, h]
  · simp [hname]

theorem filter_set (h : keeps key = false) (p : List (κ × β)) (value : β) :
    (set p key value).filter (fun pair => keeps pair.1) = p.filter fun pair => keeps pair.1 := by
  induction p with
  | nil => simp [set, h]
  | cons pair p ih =>
    obtain ⟨name, old⟩ := pair
    by_cases hname : name = key
    · rw [set, if_pos hname, List.filter_cons_of_neg (by simp [h]), List.filter_cons_of_neg (by simp [hname, h])]
      exact filter_delete keeps h p
    · rw [set, if_neg hname, List.filter_cons, List.filter_cons, ih]

theorem filter_put (h : keeps key = false) (p : List (κ × β)) (value : Option β) :
    (put p key value).filter (fun pair => keeps pair.1) = p.filter fun pair => keeps pair.1 := by
  cases value with
  | none => exact filter_delete keeps h p
  | some value => exact filter_set keeps h p value

end

end NamedValues
