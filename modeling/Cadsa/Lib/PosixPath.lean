import Mathlib.Data.Nat.Notation
import Mathlib.Tactic.Common

/-! Python's `posixpath` on strings: `join`, `normpath` and `abspath` for a given working
directory. Normalisation is lexical: no file system is consulted. -/
namespace PosixPath
set_option autoImplicit false

def push (absolute : Bool) (kept : List (List Char)) (comp : List Char) : List (List Char) :=
  if comp = [] ∨ comp = ['.'] then kept
  else if comp ≠ ['.', '.'] ∨ (absolute = false ∧ kept = []) ∨ kept.head? = some ['.', '.'] then comp :: kept
  else kept.tail

/-- One or two leading slashes are kept, three or more count as one. -/
def leadingSlashes : List Char → ℕ
  | '/' :: '/' :: '/' :: _ => 1
  | '/' :: '/' :: _ => 2
  | '/' :: _ => 1
  | _ => 0

def normpathChars (p : List Char) : List Char :=
  let slashes := leadingSlashes p
  let comps := ((p.splitOn '/').foldl (push (slashes ≠ 0)) []).reverse
  let path := List.replicate slashes '/' ++ ['/'].intercalate comps
  if path = [] then ['.'] else path

def joinChars (base p : List Char) : List Char :=
  if p.head? = some '/' then p
  else if base = [] ∨ base.getLast? = some '/' then base ++ p
  else base ++ '/' :: p

def abspath (cwd p : String) : String := String.ofList (normpathChars (joinChars cwd.toList p.toList))

example : abspath "/srv" "/var//log/./caddy/../a.log" = "/var/log/a.log" := by decide

/-! ## Normalised paths -/

def IsAbsolute (p : String) : Prop := p.toList.head? = some '/'

/-- A component that names an entry of a directory. -/
structure IsName (comp : List Char) : Prop where
  ne_nil : comp ≠ []
  ne_dot : comp ≠ ['.']
  ne_dotdot : comp ≠ ['.', '.']
  slash : '/' ∉ comp

/-- The path of such names below the root. -/
def rooted (slashes : ℕ) (names : List (List Char)) : List Char :=
  List.replicate slashes '/' ++ ['/'].intercalate names

section
variable {p comp : List Char} {kept comps names : List (List Char)} {slashes : ℕ}

theorem slash_not_mem_splitOn (p : List Char) : ∀ comp ∈ p.splitOn '/', '/' ∉ comp := by
  induction p with
  | nil =>
    intro comp hcomp
    rw [List.splitOn_nil, List.mem_singleton] at hcomp
    subst hcomp
    exact List.not_mem_nil
  | cons c p ih =>
    rw [List.splitOn_cons_eq_if_modifyHead]
    split_ifs with hc
    · intro comp hcomp
      rcases List.mem_cons.mp hcomp with rfl | hcomp
      · exact List.not_mem_nil
      · exact ih comp hcomp
    · obtain ⟨first, rest, hsplit⟩ := List.exists_cons_of_ne_nil (List.splitOn_ne_nil '/' p)
      rw [hsplit] at ih ⊢
      intro comp hcomp
      rw [List.modifyHead_cons] at hcomp
      rcases List.mem_cons.mp hcomp with rfl | hcomp
      · refine fun hmem => ?_
        rcases List.mem_cons.mp hmem with rfl | hmem
        · exact hc (beq_self_eq_true _)
        · exact ih first List.mem_cons_self hmem
      · exact ih comp (List.mem_cons_of_mem _ hcomp)

theorem push_of_name (h : IsName comp) (absolute : Bool) : push absolute kept comp = comp :: kept := by
  rw [push, if_neg (not_or.mpr ⟨h.ne_nil, h.ne_dot⟩), if_pos (.inl h.ne_dotdot)]

/-- Below the root two points never stay. -/
theorem push_names (hkept : ∀ c ∈ kept, IsName c) (hcomp : '/' ∉ comp) : ∀ c ∈ push true kept comp, IsName c := by
  rw [push]
  split_ifs with hskip hkeep
  · exact hkept
  · rw [not_or] at hskip
    have hne : comp ≠ ['.', '.'] := by
      rcases hkeep with hne | ⟨habs, -⟩ | hhead
      · exact hne
      · contradiction
      · exact absurd rfl (hkept _ (List.mem_of_head? hhead)).ne_dotdot
    intro c hc
    rcases List.mem_cons.mp hc with rfl | hc
    · exact ⟨hskip.1, hskip.2, hne, hcomp⟩
    · exact hkept c hc
  · exact fun c hc => hkept c (List.mem_of_mem_tail hc)

theorem foldl_push_names (hcomps : ∀ c ∈ comps, '/' ∉ c) (hkept : ∀ c ∈ kept, IsName c) :
    ∀ c ∈ comps.foldl (push true) kept, IsName c := by
  induction comps generalizing kept with
  | nil => exact hkept
  | cons comp comps ih =>
    refine ih (fun c hc => hcomps c (List.mem_cons_of_mem _ hc)) ?_
    exact push_names hkept (hcomps comp List.mem_cons_self)

theorem foldl_push_of_names (hnames : ∀ c ∈ names, IsName c) (kept : List (List Char)) :
    names.foldl (push true) kept = names.reverse ++ kept := by
  induction names generalizing kept with
  | nil => rfl
  | cons name names ih =>
    rw [List.foldl_cons, push_of_name (hnames name List.mem_cons_self),
      ih fun c hc => hnames c (List.mem_cons_of_mem _ hc), List.reverse_cons, List.append_assoc, List.singleton_append]

theorem leadingSlashes_le (p : List Char) : leadingSlashes p ≤ 2 := by
  unfold leadingSlashes
  split <;> decide

/-- An absolute path is normalised to one of names below the root. -/
theorem normpathChars_rooted (h : leadingSlashes p ≠ 0) :
    ∃ names, (∀ c ∈ names, IsName c) ∧ normpathChars p = rooted (leadingSlashes p) names := by
  refine ⟨((p.splitOn '/').foldl (push true) []).reverse, fun c hc => ?_, ?_⟩
  · exact foldl_push_names (slash_not_mem_splitOn p) (fun c hc => absurd hc List.not_mem_nil) c (List.mem_reverse.mp hc)
  · rw [normpathChars, rooted, decide_eq_true h]
    refine if_neg fun hnil => ?_
    rw [List.append_eq_nil_iff, List.replicate_eq_nil_iff] at hnil
    exact h hnil.1

theorem intercalate_names_head (hnames : ∀ c ∈ names, IsName c) : (['/'].intercalate names).head? ≠ some '/' := by
  cases names with
  | nil => simp
  | cons name names =>
    have hname := hnames name List.mem_cons_self
    obtain ⟨c, rest, rfl⟩ := List.exists_cons_of_ne_nil hname.ne_nil
    have hc : c ≠ '/' := fun he => hname.slash (he ▸ List.mem_cons_self)
    cases names with
    | nil => simpa using hc
    | cons name' names => simpa [List.intercalate_cons_cons] using hc

theorem leadingSlashes_rooted (h0 : slashes ≠ 0) (h2 : slashes ≤ 2) (hnames : ∀ c ∈ names, IsName c) :
    leadingSlashes (rooted slashes names) = slashes := by
  have hhead := intercalate_names_head hnames
  rw [rooted]
  generalize ['/'].intercalate names = path at hhead
  obtain rfl | rfl : slashes = 1 ∨ slashes = 2 := by omega
  all_goals
    cases path with
    | nil => rfl
    | cons c path =>
      have hc : c ≠ '/' := fun he => hhead (he ▸ rfl)
      simp [leadingSlashes, hc]

theorem foldl_push_slashes (path : List Char) (slashes : ℕ) :
    ((List.replicate slashes '/' ++ path).splitOn '/').foldl (push true) [] = (path.splitOn '/').foldl (push true) [] := by
  induction slashes with
  | zero => rfl
  | succ slashes ih =>
    rw [List.replicate_succ, List.cons_append, List.splitOn_cons_eq_if_modifyHead, if_pos (beq_self_eq_true _),
      List.foldl_cons]
    exact ih

theorem foldl_push_rooted (hnames : ∀ c ∈ names, IsName c) :
    ((rooted slashes names).splitOn '/').foldl (push true) [] = names.reverse := by
  rw [rooted, foldl_push_slashes]
  cases names with
  | nil => rfl
  | cons name names =>
    rw [List.splitOn_intercalate '/' (fun c hc => (hnames c hc).slash) (List.cons_ne_nil _ _), foldl_push_of_names hnames,
      List.append_nil]

theorem normpathChars_of_rooted (h0 : slashes ≠ 0) (h2 : slashes ≤ 2) (hnames : ∀ c ∈ names, IsName c) :
    normpathChars (rooted slashes names) = rooted slashes names := by
  rw [normpathChars, leadingSlashes_rooted h0 h2 hnames, decide_eq_true h0, foldl_push_rooted hnames, List.reverse_reverse]
  refine if_neg fun hnil => ?_
  rw [List.append_eq_nil_iff, List.replicate_eq_nil_iff] at hnil
  exact h0 hnil.1

theorem leadingSlashes_ne_zero (h : p.head? = some '/') : leadingSlashes p ≠ 0 := by
  obtain ⟨rest, rfl⟩ := List.head?_eq_some_iff.mp h
  unfold leadingSlashes
  split
  all_goals first | decide | skip
  rename_i hno
  exact absurd rfl (hno rest)

theorem joinChars_head {base : List Char} (h : base.head? = some '/') (p : List Char) :
    (joinChars base p).head? = some '/' := by
  rw [joinChars]
  split_ifs with hp
  · exact hp
  · rw [List.head?_append, h]
    rfl
  · rw [List.head?_append, h]
    rfl

theorem rooted_head (h : slashes ≠ 0) : (rooted slashes names).head? = some '/' := by
  obtain ⟨n, rfl⟩ := Nat.exists_eq_succ_of_ne_zero h
  rfl

end

/-- What `abspath` gives is its own absolute path, in whatever directory. -/
theorem abspath_abspath {cwd : String} (h : IsAbsolute cwd) (cwd' p : String) :
    abspath cwd' (abspath cwd p) = abspath cwd p := by
  have hslashes := leadingSlashes_ne_zero (joinChars_head h p.toList)
  obtain ⟨names, hnames, hnorm⟩ := normpathChars_rooted hslashes
  rw [abspath, abspath, hnorm, String.toList_ofList, joinChars, if_pos (rooted_head hslashes),
    normpathChars_of_rooted hslashes (leadingSlashes_le _) hnames]

end PosixPath
