import Mathlib.Data.List.Infix
import Mathlib.Data.List.Nodup
import Mathlib.Data.List.Pairwise
import Mathlib.Data.List.Perm.Basic
import Mathlib.Data.List.Perm.Subperm
import Mathlib.Order.Basic

/-! Search from left to right, each time behind what was found last. What is found are occurrences of a pattern one
behind the other, such that any other occurrence begins within one of them; there is one such selection. -/
namespace Scanning
set_option autoImplicit false

variable {α β : Type}

/-- What is found at the beginning of a text, with the rest of the text. -/
structure Pattern (α β : Type) where
  matchAt : List α → Option (β × List α)
  suffix : ∀ {s b rest}, matchAt s = some (b, rest) → rest <:+ s
  shorter : ∀ {s b rest}, matchAt s = some (b, rest) → rest.length < s.length

variable (p : Pattern α β)

/-- The places of all that is found, each the rest of the text from there on. The fuel is the length of the text. -/
def Pattern.findAll : ℕ → List α → List (List α × β)
  | 0, _ => []
  | _, [] => []
  | fuel + 1, c :: s =>
    match p.matchAt (c :: s) with
    | some (b, rest) => (c :: s, b) :: Pattern.findAll fuel rest
    | none => Pattern.findAll fuel s

def Pattern.Occurs (s : List α) : Prop := ∃ b rest, p.matchAt s = some (b, rest)

/-- What is found at `s` has ended where `t` begins. -/
def Pattern.Before (s t : List α) : Prop := ∀ b rest, p.matchAt s = some (b, rest) → t.length ≤ rest.length

/-- What is found at `s` has begun and not ended where `t` begins. -/
def Pattern.Inside (s t : List α) : Prop :=
  t.length < s.length ∧ ∃ b rest, p.matchAt s = some (b, rest) ∧ rest.length < t.length

structure Pattern.Selection (text : List α) (places : List (List α)) : Prop where
  suffix : ∀ s ∈ places, s <:+ text
  occurs : ∀ s ∈ places, p.Occurs s
  disjoint : places.Pairwise p.Before
  covers : ∀ s, s <:+ text → p.Occurs s → s ∈ places ∨ ∃ t ∈ places, p.Inside t s

section
variable {p} {text s t : List α} {ps qs : List (List α)}

theorem eq_or_suffix_of_suffix_cons {c : α} (h : s <:+ c :: text) : s = c :: text ∨ s <:+ text := List.suffix_cons_iff.mp h

/-- What is found is a match, at a place in the text. -/
theorem mem_findAll {fuel : ℕ} : ∀ f ∈ p.findAll fuel text,
    f.1 <:+ text ∧ ∃ rest, p.matchAt f.1 = some (f.2, rest) := by
  induction fuel generalizing text with
  | zero => exact fun f hf => absurd hf List.not_mem_nil
  | succ fuel ih =>
    cases text with
    | nil => exact fun f hf => absurd hf List.not_mem_nil
    | cons c text =>
      intro f hf
      rw [Pattern.findAll] at hf
      split at hf
      · rename_i b rest hmatch
        rcases List.mem_cons.mp hf with rfl | hf
        · exact ⟨List.suffix_refl _, rest, hmatch⟩
        · exact ⟨(ih f hf).1.trans (p.suffix hmatch), (ih f hf).2⟩
      · exact ⟨(ih f hf).1.trans (List.suffix_cons c text), (ih f hf).2⟩

theorem findAll_suffix {fuel : ℕ} : ∀ f ∈ p.findAll fuel text, f.1 <:+ text := fun f hf => (mem_findAll f hf).1

theorem findAll_match {fuel : ℕ} : ∀ f ∈ p.findAll fuel text, ∃ rest, p.matchAt f.1 = some (f.2, rest) :=
  fun f hf => (mem_findAll f hf).2

theorem findAll_before {fuel : ℕ} : (p.findAll fuel text).Pairwise fun f g => p.Before f.1 g.1 := by
  induction fuel generalizing text with
  | zero => exact .nil
  | succ fuel ih =>
    cases text with
    | nil => exact .nil
    | cons c text =>
      rw [Pattern.findAll]
      split
      · rename_i b rest hmatch
        refine List.pairwise_cons.mpr ⟨fun g hg b' rest' hmatch' => ?_, ih⟩
        obtain ⟨-, rfl⟩ := Prod.mk.inj (Option.some.inj (hmatch.symm.trans hmatch'))
        exact (findAll_suffix g hg).length_le
      · exact ih

theorem findAll_covers {fuel : ℕ} (hfuel : text.length ≤ fuel) (hs : s <:+ text) (hocc : p.Occurs s) :
    s ∈ (p.findAll fuel text).map Prod.fst ∨ ∃ t ∈ (p.findAll fuel text).map Prod.fst, p.Inside t s := by
  obtain ⟨b, rest, hmatch⟩ := hocc
  induction fuel generalizing text with
  | zero =>
    have hshorter := p.shorter hmatch
    have hle := hs.length_le
    omega
  | succ fuel ih =>
    cases text with
    | nil =>
      have hshorter := p.shorter hmatch
      have hle : s.length ≤ 0 := hs.length_le
      omega
    | cons c text =>
      rw [List.length_cons] at hfuel
      rw [Pattern.findAll]
      split
      · rename_i b' rest' hhead
        have hshorter := p.shorter hhead
        rw [List.length_cons] at hshorter
        rcases eq_or_suffix_of_suffix_cons hs with rfl | hs'
        · exact .inl List.mem_cons_self
        · by_cases hlen : s.length ≤ rest'.length
          · have hin : s <:+ rest' := List.suffix_of_suffix_length_le hs (p.suffix hhead) hlen
            rcases ih (by omega) hin with hmem | ⟨t, ht, hinside⟩
            · exact .inl (List.mem_cons_of_mem _ hmem)
            · exact .inr ⟨t, List.mem_cons_of_mem _ ht, hinside⟩
          · refine .inr ⟨c :: text, List.mem_cons_self, ?_, b', rest', hhead, by omega⟩
            have hle := hs'.length_le
            rw [List.length_cons]
            omega
      · rename_i hhead
        rcases eq_or_suffix_of_suffix_cons hs with rfl | hs'
        · rw [hmatch] at hhead
          contradiction
        · exact ih (by omega) hs'

theorem selection_findAll (p : Pattern α β) (text : List α) :
    p.Selection text ((p.findAll text.length text).map Prod.fst) where
  suffix s hs := by
    obtain ⟨f, hf, rfl⟩ := List.mem_map.mp hs
    exact findAll_suffix f hf
  occurs s hs := by
    obtain ⟨f, hf, rfl⟩ := List.mem_map.mp hs
    obtain ⟨rest, hmatch⟩ := findAll_match f hf
    exact ⟨f.2, rest, hmatch⟩
  disjoint := List.pairwise_map.mpr findAll_before
  covers _ hs hocc := findAll_covers le_rfl hs hocc

/-! ## Uniqueness -/

theorem Pattern.Selection.decreasing (h : p.Selection text ps) : ps.Pairwise fun s t => t.length < s.length := by
  refine h.disjoint.imp_of_mem fun hs _ hbefore => ?_
  obtain ⟨b, rest, hmatch⟩ := h.occurs _ hs
  exact Nat.lt_of_le_of_lt (hbefore b rest hmatch) (p.shorter hmatch)

theorem nodup_of_decreasing (h : ps.Pairwise fun s t => t.length < s.length) : ps.Nodup :=
  h.imp fun hlt he => by
    rw [he] at hlt
    exact Nat.lt_irrefl _ hlt

/-- Two lists of places from left to right are the same when they have the same places. -/
theorem eq_of_decreasing (hps : ps.Pairwise fun s t => t.length < s.length)
    (hqs : qs.Pairwise fun s t => t.length < s.length) (hmem : ∀ s, s ∈ ps ↔ s ∈ qs) : ps = qs := by
  have hperm := (List.perm_ext_iff_of_nodup (nodup_of_decreasing hps) (nodup_of_decreasing hqs)).mpr hmem
  refine hperm.eq_of_pairwise (fun s t _ _ hst hts => ?_) hps hqs
  omega

/-- Places of the second list, as many as it has, are all of them. -/
theorem eq_of_decreasing_subset (hps : ps.Pairwise fun s t => t.length < s.length)
    (hqs : qs.Pairwise fun s t => t.length < s.length) (hsubset : ps ⊆ qs) (hlength : qs.length ≤ ps.length) :
    ps = qs := by
  have hperm := (List.subperm_of_subset (nodup_of_decreasing hps) hsubset).perm_of_length_le hlength
  exact eq_of_decreasing hps hqs fun s => hperm.mem_iff

theorem Pattern.Selection.not_inside (h : p.Selection text ps) (hs : s ∈ ps) (ht : t ∈ ps) : ¬ p.Inside s t := by
  rintro ⟨hlt, b, rest, hmatch, hrest⟩
  have hne : s ≠ t := by
    rintro rfl
    exact Nat.lt_irrefl _ hlt
  have hsymm : ps.Pairwise fun s t => p.Before s t ∨ p.Before t s := h.disjoint.imp Or.inl
  have : Std.Symm fun s t => p.Before s t ∨ p.Before t s := ⟨fun _ _ => Or.symm⟩
  rcases hsymm.forall hs ht hne with hbefore | hbefore
  · have hle := hbefore b rest hmatch
    omega
  · obtain ⟨b', rest', hmatch'⟩ := h.occurs t ht
    have hle := hbefore b' rest' hmatch'
    have hshorter := p.shorter hmatch'
    omega

theorem Pattern.Selection.subset (hps : p.Selection text ps) (hqs : p.Selection text qs) (s : List α) (hs : s ∈ ps) :
    s ∈ qs := by
  -- The place furthest to the left that is not in both would begin within one of the other selection.
  induction hn : text.length - s.length using Nat.strong_induction_on generalizing s with
  | h n ih =>
    rcases hqs.covers s (hps.suffix s hs) (hps.occurs s hs) with hmem | ⟨q, hq, hinside⟩
    · exact hmem
    · rcases hps.covers q (hqs.suffix q hq) (hqs.occurs q hq) with hmem | ⟨t, ht, hinside'⟩
      · exact absurd hinside (hps.not_inside hmem hs)
      · have hlt := hinside.1
        have hlt' := hinside'.1
        have hle := (hps.suffix t ht).length_le
        have htq := ih (text.length - t.length) (by omega) t ht rfl
        exact absurd hinside' (hqs.not_inside htq hq)

theorem Pattern.Selection.unique (hps : p.Selection text ps) (hqs : p.Selection text qs) : ps = qs :=
  eq_of_decreasing hps.decreasing hqs.decreasing fun s => ⟨hps.subset hqs s, hqs.subset hps s⟩

end

end Scanning
