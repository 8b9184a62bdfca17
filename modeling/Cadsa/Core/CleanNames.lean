import Cadsa.Core.LogParser
import Cadsa.Lib.AddressText

/-! `clean_host` and `clean_ip` of `core/log_parser.py` on the ways in which a client writes a host or an address. -/
namespace Cadsa.LogParser
open AddressText Lowercase PyText
set_option autoImplicit false

section
variable {py : Python} {text : String} {lead trail s x h a b p : List Char}

/-- The text of a host, whatever blanks are around it. -/
theorem strip_text (hlead : Blank lead) (htrail : Blank trail) (hs : Unspaced s) :
    strip (String.ofList (lead ++ s ++ trail)).toList = s := by
  rw [String.toList_ofList, strip_surrounded hlead htrail, strip_eq_self hs]

theorem takeWhile_cut {c : Char} (ha : c ∉ a) (b : List Char) : (a ++ c :: b).takeWhile (· ≠ c) = a := by
  have hstop : (c :: b).takeWhile (· ≠ c) = [] := List.takeWhile_cons_of_neg fun h => of_decide_eq_true h rfl
  rw [List.takeWhile_append_of_pos fun d hd => decide_eq_true (ne_of_mem_of_not_mem hd ha), hstop, List.append_nil]

theorem isAddressText_port (hp : IsPort p) : IsAddressText (':' :: p) := .cons (by decide) hp.facts.1

theorem count_port (ha : ':' ∉ a) (hp : IsPort p) : (a ++ ':' :: p).count ':' = 1 := by
  rw [List.count_append, List.count_cons_self, List.count_eq_zero_of_not_mem ha,
    List.count_eq_zero_of_not_mem hp.facts.2.1]

/-! ## `clean_host` -/

theorem cleanHost_bare (hs : strip text.toList = x) (hdots : x.rdropWhile (· = '.') = h) (hne : h ≠ [])
    (hbracket : '[' ∉ h) :
    cleanHost py text = py.lower (String.ofList (if h.count ':' = 1 then h.takeWhile (· ≠ ':') else h)) := by
  rw [cleanHost, hs, hdots]
  dsimp only
  rw [if_neg hne]
  split
  · exact absurd List.mem_cons_self hbracket
  · rfl

theorem cleanHost_bracketed (hs : strip text.toList = '[' :: (a ++ ']' :: b))
    (hdots : ('[' :: (a ++ ']' :: b)).rdropWhile (· = '.') = '[' :: (a ++ ']' :: b)) (ha : ']' ∉ a) :
    cleanHost py text = py.lower (String.ofList a) := by
  rw [cleanHost, hs, hdots]
  dsimp only
  rw [if_neg (List.cons_ne_nil _ _)]
  change py.lower (String.ofList (if ']' ∈ a ++ ']' :: b then (a ++ ']' :: b).takeWhile (· ≠ ']') else _)) = _
  rw [if_pos (List.mem_append_right a List.mem_cons_self), takeWhile_cut ha]

/-- A port is cut off, and no dot before it. -/
theorem cleanHost_port (hlower : Lowercases py.lower) (hlead : Blank lead) (htrail : Blank trail) (ha : IsAddressText a)
    (hcolon : ':' ∉ a) (hp : IsPort p) :
    cleanHost py (String.ofList (lead ++ (a ++ ':' :: p) ++ trail)) = String.ofList (a.map Char.toLower) := by
  have htext : IsAddressText (a ++ ':' :: p) := ha.append (isAddressText_port hp)
  have hends : EndsPlain (a ++ ':' :: p) := hp.facts.2.2.cons.append
  rw [cleanHost_bare (strip_text hlead htrail htext.unspaced) hends.rdropWhile hends.ne_nil htext.not_mem.1,
    if_pos (count_port hcolon hp), takeWhile_cut hcolon, lower_ascii hlower ha.ascii]

def dotText (dot : Bool) : List Char := if dot then ['.'] else []

/-- Without a port, the dot is cut off. -/
theorem cleanHost_portless (hlower : Lowercases py.lower) (hlead : Blank lead) (htrail : Blank trail)
    (ha : IsAddressText a) (hends : EndsPlain a) (hcolon : a.count ':' ≠ 1) (dot : Bool) :
    cleanHost py (String.ofList (lead ++ (a ++ dotText dot) ++ trail)) = String.ofList (a.map Char.toLower) := by
  have hdot : IsAddressText (dotText dot) := by
    cases dot with
    | false => exact fun c hc => absurd hc List.not_mem_nil
    | true => exact .cons (by decide) fun c hc => absurd hc List.not_mem_nil
  have hdots : (a ++ dotText dot).rdropWhile (· = '.') = a := by
    cases dot with
    | false =>
      rw [dotText, if_neg Bool.false_ne_true, List.append_nil]
      exact hends.rdropWhile
    | true =>
      rw [dotText, if_pos rfl, List.rdropWhile_concat_pos _ _ _ (by decide)]
      exact hends.rdropWhile
  rw [cleanHost_bare (strip_text hlead htrail (ha.append hdot).unspaced) hdots hends.ne_nil ha.not_mem.1,
    if_neg hcolon, lower_ascii hlower ha.ascii]

/-- What is cleaned stays. -/
theorem cleanHost_cleaned (hlower : Lowercases py.lower) (ha : IsAddressText a) (hends : EndsPlain a)
    (hcolon : a.count ':' ≠ 1) :
    cleanHost py (String.ofList (a.map Char.toLower)) = String.ofList (a.map Char.toLower) := by
  have hclean := cleanHost_portless hlower blank_nil blank_nil ha.map hends.map
    (by rwa [count_colon_map]) false
  rwa [dotText, if_neg Bool.false_ne_true, List.append_nil, List.append_nil, List.nil_append,
    map_toLower_idem ha.ascii] at hclean

theorem cleanHost_literal (hlower : Lowercases py.lower) (hlead : Blank lead) (htrail : Blank trail)
    (ha : IsAddressText a) (port : Option (List Char)) (hport : ∀ p ∈ port, IsPort p) :
    cleanHost py (String.ofList (lead ++ '[' :: (a ++ ']' :: portText port) ++ trail)) =
      String.ofList (a.map Char.toLower) := by
  have hafter : Unspaced (']' :: portText port) := by
    refine .cons (by decide) ?_
    cases port with
    | none => exact fun c hc => absurd hc List.not_mem_nil
    | some p => exact (isAddressText_port (hport p rfl)).unspaced
  have hunspaced : Unspaced ('[' :: (a ++ ']' :: portText port)) := .cons (by decide) (ha.unspaced.append hafter)
  have hends : EndsPlain ('[' :: (a ++ ']' :: portText port)) := by
    refine .cons (.append ?_)
    cases port with
    | none => exact ⟨[], ']', rfl, by decide⟩
    | some p => exact (hport p rfl).facts.2.2.cons.cons
  rw [cleanHost_bracketed (strip_text hlead htrail hunspaced) hends.rdropWhile ha.not_mem.2.1, lower_ascii hlower ha.ascii]

end

/-! ## Spellings of a host -/

/-- A name in some case, perhaps with a dot and a port, or an address of version 6 in brackets. -/
inductive Written
  | name (n spelled : List Char) (dot : Bool) (port : Option (List Char))
  | literal (a : List Char) (port : Option (List Char))

def Written.text : Written → List Char
  | .name _ spelled dot port => spelled ++ dotText dot ++ portText port
  | .literal a port => '[' :: (a ++ ']' :: portText port)

def Written.canonical : Written → List Char
  | .name n _ _ _ => n.map Char.toLower
  | .literal a _ => a.map Char.toLower

def Written.Valid : Written → Prop
  | .name n spelled _ port => Hostname n ∧ spelled.map Char.toLower = n.map Char.toLower ∧ ∀ p ∈ port, IsPort p
  | .literal a port => IsIpv6 a ∧ ∀ p ∈ port, IsPort p

def Written.dotAndPort : Written → Bool
  | .name _ _ dot port => dot && port.isSome
  | .literal _ _ => false

section
variable {py : Python} {w : Written} {lead trail : List Char}

theorem cleanHost_name (hlower : Lowercases py.lower) (hlead : Blank lead) (htrail : Blank trail)
    {n spelled : List Char} (hn : Hostname n) (hspelled : spelled.map Char.toLower = n.map Char.toLower) (dot : Bool)
    {port : Option (List Char)} (hport : ∀ p ∈ port, IsPort p) :
    cleanHost py (String.ofList (lead ++ (spelled ++ dotText dot ++ portText port) ++ trail)) =
      String.ofList (n.map Char.toLower ++ dotText (dot && port.isSome)) := by
  obtain ⟨htext, hcolon, hends⟩ := (hn.respelled hspelled).facts
  have hcount : spelled.count ':' ≠ 1 := by
    rw [List.count_eq_zero_of_not_mem hcolon]
    decide
  cases port with
  | none =>
    rw [portText, List.append_nil, cleanHost_portless hlower hlead htrail htext hends hcount, hspelled,
      Option.isSome_none, Bool.and_false, dotText, if_neg Bool.false_ne_true, List.append_nil]
  | some p =>
    have hdot : IsAddressText (spelled ++ dotText dot) ∧ ':' ∉ spelled ++ dotText dot := by
      cases dot with
      | false => rwa [dotText, if_neg Bool.false_ne_true, List.append_nil, and_iff_left hcolon]
      | true =>
        rw [dotText, if_pos rfl, List.mem_append, List.mem_singleton, not_or]
        exact ⟨htext.append (.cons (by decide) fun c hc => absurd hc List.not_mem_nil), hcolon, by decide⟩
    have hsame : (dotText dot).map Char.toLower = dotText dot := by
      cases dot <;> rfl
    rw [portText, cleanHost_port hlower hlead htrail hdot.1 hdot.2 (hport p rfl), List.map_append, hspelled, hsame,
      Option.isSome_some, Bool.and_true]

/-- The cleaned text is the canonical one, and stays as it is. -/
def Canonical (py : Python) (text : String) (canonical : List Char) : Prop :=
  cleanHost py text = String.ofList canonical ∧ cleanHost py (cleanHost py text) = cleanHost py text

theorem clean_host_iff (hlower : Lowercases py.lower) (hw : w.Valid) (hlead : Blank lead) (htrail : Blank trail) :
    Canonical py (String.ofList (lead ++ w.text ++ trail)) w.canonical ↔ w.dotAndPort = false := by
  rw [Canonical]
  cases w with
  | name n spelled dot port =>
    obtain ⟨hn, hspelled, hport⟩ := hw
    obtain ⟨htext, hcolon, hends⟩ := hn.facts
    rw [Written.text, Written.canonical, Written.dotAndPort, cleanHost_name hlower hlead htrail hn hspelled dot hport]
    cases dot && port.isSome with
    | false =>
      rw [dotText, if_neg Bool.false_ne_true, List.append_nil]
      refine iff_of_true ⟨rfl, cleanHost_cleaned hlower htext hends ?_⟩ rfl
      rw [List.count_eq_zero_of_not_mem hcolon]
      decide
    | true =>
      refine iff_of_false (fun h => ?_) (by decide)
      have hlength := congrArg List.length (String.ofList_inj.mp h.1)
      rw [List.length_append] at hlength
      exact absurd hlength (Nat.ne_of_gt (Nat.lt_succ_self _))
  | literal a port =>
    obtain ⟨ha, hport⟩ := hw
    obtain ⟨htext, hends, hcount⟩ := ha.facts
    rw [Written.text, Written.canonical, cleanHost_literal hlower hlead htrail htext port hport]
    exact iff_of_true ⟨rfl, cleanHost_cleaned hlower htext hends (by omega)⟩ rfl

end

theorem lowercases_asciiLibrary : Lowercases asciiLibrary.lower := lowercases_lowerAscii

theorem hostname_example : Hostname "example.com".toList :=
  .dotted (l := "example".toList) ⟨by decide, List.all_eq_true.mp rfl⟩ (.label ⟨by decide, List.all_eq_true.mp rfl⟩)

theorem dot_cut : Canonical asciiLibrary " Example.com.\n" "example.com".toList :=
  (@clean_host_iff asciiLibrary (.name "example.com".toList "Example.com".toList true none) [' '] ['\n']
    lowercases_asciiLibrary ⟨hostname_example, by decide, fun p hp => absurd hp (Option.not_mem_none p)⟩ (by decide)
    (by decide)).mpr rfl

/-- The dots are cut off before the port, and the one between name and port stays. -/
theorem dot_kept : ¬ ∀ (py : Python) (w : Written) (lead trail : List Char), Lowercases py.lower → w.Valid → Blank lead →
    Blank trail → Canonical py (String.ofList (lead ++ w.text ++ trail)) w.canonical := by
  intro h
  have hvalid : (Written.name "example.com".toList "example.com".toList true (some "443".toList)).Valid := by
    refine ⟨hostname_example, rfl, fun p hp => ?_⟩
    rw [← Option.mem_some.mp hp]
    exact ⟨by decide, List.all_eq_true.mp rfl⟩
  have hclean := h asciiLibrary _ [] [] lowercases_asciiLibrary hvalid blank_nil blank_nil
  exact Bool.noConfusion ((clean_host_iff lowercases_asciiLibrary hvalid blank_nil blank_nil).mp hclean)

/-! ## `clean_ip` -/

/-- What `clean_ip` cuts off begins so. -/
def Cut (r : List Char) : Prop := r = [] ∨ ∃ s, r = ']' :: s ∨ r = '%' :: s

section
variable {text : String} {lead trail a b r s z p : List Char}

theorem cut_address (hb : IsAddressText b) (hr : Cut r) :
    ((b ++ r).takeWhile (· ≠ ']')).takeWhile (· ≠ '%') = b := by
  obtain ⟨-, hclose, hpercent⟩ := hb.not_mem
  have hopen : ∀ c ∈ b, decide (c ≠ ']') = true := fun c hc => decide_eq_true (ne_of_mem_of_not_mem hc hclose)
  have hwhole : b.takeWhile (· ≠ '%') = b :=
    List.takeWhile_eq_self_iff.mpr fun c hc => decide_eq_true (ne_of_mem_of_not_mem hc hpercent)
  obtain rfl | ⟨s, rfl | rfl⟩ := hr
  · rw [List.append_nil, List.takeWhile_eq_self_iff.mpr hopen, hwhole]
  · rw [takeWhile_cut hclose, hwhole]
  · rw [List.takeWhile_append_of_pos hopen, List.takeWhile_cons_of_pos (by decide), takeWhile_cut hpercent]

theorem not_open (hb : IsAddressText b) (hr : Cut r) (s : List Char) : b ++ r ≠ '[' :: s := by
  intro h
  cases b with
  | nil =>
    rw [List.nil_append] at h
    obtain rfl | ⟨t, rfl | rfl⟩ := hr <;> cases h
  | cons c b =>
    rw [List.cons_append, List.cons.injEq] at h
    exact hb.not_mem.1 (h.1 ▸ List.mem_cons_self)

theorem cleanIp_cut (hs : strip text.toList = b ++ r ∨ strip text.toList = '[' :: (b ++ r)) (hb : IsAddressText b)
    (hr : Cut r) : cleanIp text = String.ofList (if b.count ':' = 1 then b.takeWhile (· ≠ ':') else b) := by
  rw [cleanIp]
  cases hs with
  | inl hbare =>
    rw [hbare]
    split
    · rename_i rest hrest
      exact absurd hrest (not_open hb hr rest)
    · rw [cut_address hb hr]
  | inr hbracket =>
    rw [hbracket]
    change String.ofList (if (((b ++ r).takeWhile (· ≠ ']')).takeWhile (· ≠ '%')).count ':' = 1 then
      (((b ++ r).takeWhile (· ≠ ']')).takeWhile (· ≠ '%')).takeWhile (· ≠ ':')
      else ((b ++ r).takeWhile (· ≠ ']')).takeWhile (· ≠ '%')) = _
    rw [cut_address hb hr]

theorem Cut.rdropWhile (hr : Cut r) : Cut (r.rdropWhile isSpace) := by
  have hmark (c : Char) (hc : isSpace c = false) (s : List Char) :
      (c :: s).rdropWhile isSpace = c :: s.rdropWhile isSpace := by
    refine rdropWhile_append (s := [c]) ?_ s
    rw [List.rdropWhile_singleton, hc, if_neg Bool.false_ne_true]
  obtain rfl | ⟨s, rfl | rfl⟩ := hr
  · exact .inl rfl
  · exact .inr ⟨_, .inl (hmark ']' (by decide) s)⟩
  · exact .inr ⟨_, .inr (hmark '%' (by decide) s)⟩

/-- What comes of an address, in brackets or bare, with blanks around it. -/
theorem cleanIp_written (hlead : Blank lead) (htrail : Blank trail) (hb : IsAddressText b) (hne : b ≠ []) (hr : Cut r)
    (hs : s = b ++ r ∨ s = '[' :: (b ++ r)) : cleanIp (String.ofList (lead ++ s ++ trail)) =
      String.ofList (if b.count ':' = 1 then b.takeWhile (· ≠ ':') else b) := by
  refine cleanIp_cut (r := r.rdropWhile isSpace) ?_ hb hr.rdropWhile
  rw [String.toList_ofList, strip_surrounded hlead htrail]
  refine hs.imp ?_ ?_
  · rintro rfl
    exact strip_unspaced hb.unspaced hne r
  · rintro rfl
    exact strip_unspaced (.cons (by decide) hb.unspaced) (List.cons_ne_nil '[' b) r

/-- An address that is not cut at a colon comes back whole. -/
theorem cleanIp_whole (hlead : Blank lead) (htrail : Blank trail) (ha : IsAddressText a) (hne : a ≠ [])
    (hcount : a.count ':' ≠ 1) (hr : Cut r) (hs : s = a ++ r ∨ s = '[' :: (a ++ r)) :
    cleanIp (String.ofList (lead ++ s ++ trail)) = String.ofList a := by
  rw [cleanIp_written hlead htrail ha hne hr hs, if_neg hcount]

/-! ## Spellings of an address -/

def ipv4Spellings (a p : List Char) : List (List Char) :=
  [a, a ++ ':' :: p, '[' :: (a ++ [']']), '[' :: (a ++ ']' :: ':' :: p)]

def ipv6Spellings (a z p : List Char) : List (List Char) :=
  [a, a ++ '%' :: z, '[' :: (a ++ [']']), '[' :: (a ++ '%' :: (z ++ [']'])), '[' :: (a ++ ']' :: ':' :: p),
    '[' :: (a ++ '%' :: (z ++ ']' :: ':' :: p))]

/-- The ways in which an address is logged. -/
inductive Decorated (a : List Char) : List Char → Prop
  | ipv4 {p s : List Char} : IsIpv4 a → IsPort p → s ∈ ipv4Spellings a p → Decorated a s
  | ipv6 {z p s : List Char} : IsIpv6 a → ']' ∉ z → IsPort p → s ∈ ipv6Spellings a z p → Decorated a s

theorem cleanIp_ipv4 (ha : IsIpv4 a) (hp : IsPort p) (hs : s ∈ ipv4Spellings a p) (hlead : Blank lead)
    (htrail : Blank trail) : cleanIp (String.ofList (lead ++ s ++ trail)) = String.ofList a := by
  obtain ⟨htext, hcolon, hends⟩ := ha.facts
  have hcount : a.count ':' ≠ 1 := by
    rw [List.count_eq_zero_of_not_mem hcolon]
    decide
  have hclean {r : List Char} := @cleanIp_whole lead trail a r s hlead htrail htext hends.ne_nil hcount
  simp only [ipv4Spellings, List.mem_cons, List.not_mem_nil, or_false] at hs
  obtain rfl | rfl | rfl | rfl := hs
  · exact hclean (.inl rfl) (.inl (List.append_nil s).symm)
  · have hport := htext.append (isAddressText_port hp)
    have hne : a ++ ':' :: p ≠ [] := List.append_ne_nil_of_right_ne_nil a (List.cons_ne_nil ':' p)
    rw [cleanIp_written hlead htrail hport hne (.inl rfl) (.inl (List.append_nil _).symm), if_pos (count_port hcolon hp),
      takeWhile_cut hcolon]
  · exact hclean (.inr ⟨[], .inl rfl⟩) (.inr rfl)
  · exact hclean (.inr ⟨':' :: p, .inl rfl⟩) (.inr rfl)

theorem cleanIp_ipv6 (ha : IsIpv6 a) (hs : s ∈ ipv6Spellings a z p) (hlead : Blank lead) (htrail : Blank trail) :
    cleanIp (String.ofList (lead ++ s ++ trail)) = String.ofList a := by
  obtain ⟨htext, hends, hcolons⟩ := ha.facts
  have hcount : a.count ':' ≠ 1 := by omega
  have hclean {r : List Char} := @cleanIp_whole lead trail a r s hlead htrail htext hends.ne_nil hcount
  simp only [ipv6Spellings, List.mem_cons, List.not_mem_nil, or_false] at hs
  obtain rfl | rfl | rfl | rfl | rfl | rfl := hs
  · exact hclean (.inl rfl) (.inl (List.append_nil s).symm)
  · exact hclean (.inr ⟨z, .inr rfl⟩) (.inl rfl)
  · exact hclean (.inr ⟨[], .inl rfl⟩) (.inr rfl)
  · exact hclean (.inr ⟨z ++ [']'], .inr rfl⟩) (.inr rfl)
  · exact hclean (.inr ⟨':' :: p, .inl rfl⟩) (.inr rfl)
  · exact hclean (.inr ⟨z ++ ']' :: ':' :: p, .inr rfl⟩) (.inr rfl)

theorem cleanIp_decorated (h : Decorated a s) (hlead : Blank lead) (htrail : Blank trail) :
    cleanIp (String.ofList (lead ++ s ++ trail)) = String.ofList a := by
  cases h with
  | ipv4 ha hp hs => exact cleanIp_ipv4 ha hp hs hlead htrail
  | ipv6 ha _ _ hs => exact cleanIp_ipv6 ha hs hlead htrail

/-- Every decoration of an address gives way to the address, which stays as it is. -/
theorem clean_ip_undoes (h : Decorated a s) (hlead : Blank lead) (htrail : Blank trail) :
    cleanIp (String.ofList (lead ++ s ++ trail)) = String.ofList a ∧
      cleanIp (cleanIp (String.ofList (lead ++ s ++ trail))) = cleanIp (String.ofList (lead ++ s ++ trail)) := by
  have hself : Decorated a a := by
    cases h with
    | ipv4 ha hp _ => exact .ipv4 ha hp List.mem_cons_self
    | ipv6 ha hz hp _ => exact .ipv6 ha hz hp List.mem_cons_self
  have hclean := cleanIp_decorated h hlead htrail
  have hagain := cleanIp_decorated hself blank_nil blank_nil
  rw [List.nil_append, List.append_nil] at hagain
  rw [hclean]
  exact ⟨rfl, hagain⟩

end

theorem zone_undone : cleanIp "[fe80::1%eth0]:443" = "fe80::1" ∧
    cleanIp (cleanIp "[fe80::1%eth0]:443") = cleanIp "[fe80::1%eth0]:443" := by
  have hgroup : IsGroup "fe80".toList ∧ IsGroup ['1'] :=
    ⟨⟨by decide, by decide, List.all_eq_true.mp rfl⟩, ⟨by decide, by decide, List.all_eq_true.mp rfl⟩⟩
  have haddress : IsIpv6 ("fe80".toList ++ ':' :: ':' :: ['1']) :=
    .compressed (.some (.group hgroup.1)) (.some (.group hgroup.2)) (by decide)
  have hport : IsPort "443".toList := ⟨by decide, List.all_eq_true.mp rfl⟩
  have hwritten : Decorated ("fe80".toList ++ ':' :: ':' :: ['1']) "[fe80::1%eth0]:443".toList :=
    .ipv6 (z := "eth0".toList) haddress (by decide) hport (by decide)
  have hundone := clean_ip_undoes hwritten blank_nil blank_nil
  have hliteral : String.ofList ("fe80".toList ++ ':' :: ':' :: ['1']) = "fe80::1" := by decide
  rwa [List.nil_append, List.append_nil, String.ofList_toList, hliteral] at hundone

end Cadsa.LogParser
