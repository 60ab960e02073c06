import Mathlib.Algebra.GroupWithZero.Nat
import Pseudo.Library.Joined
import Pseudo.Library.Regex
import Pseudo.Message

/-!
# libpseudo in the preload list

`without_libpseudo` deletes matches of `libpseudo_pattern` from a list of libraries, one after the
other, and `pseudo_dropenv` and `pseudo_dropenvp` take libpseudo out of `LD_PRELOAD` with it.
`with_libpseudo` puts it in.

Results:
1. `regexec_list`: in a list of tokens, the match is the first library and the spaces around it.
2. `removeMatches_zero_iff`, `removeMatches_one_iff`: when the rounds leave the other tokens. Tokens
   that became one show in the `weight` of the list, which only goes one way.
3. `withoutLibpseudo_iff`: for which values the code does what it should.
-/

namespace Pseudo

open Regex (Expr)

/-! ## 1. The pattern -/

/-- `' '`, which is `PSEUDO_LINKPATH_SEPARATOR`. -/
def space : Byte := 32

/-- `'='`. -/
def equals : Byte := 61

/-- `libpseudo`. -/
def libpseudoWord : Bytes := ascii ['l', 'i', 'b', 'p', 's', 'e', 'u', 'd', 'o']

/-- `.so`. -/
def soWord : Bytes := ascii ['.', 's', 'o']

/-- `libpseudo_name`. -/
def libpseudoName : Bytes := libpseudoWord ++ soWord

/-- `[^ ]*`. -/
def noSpaces : Expr Byte := .many (· ≠ space)

/-- `libpseudo_pattern`: `(^|=| )[^ ]*libpseudo[^ ]*\.so($| )`. -/
def libpseudoPattern : Expr Byte :=
  .cat (.alt .bol (.alt (.one (· = equals)) (.one (· = space))))
    (.cat noSpaces (.cat (Regex.literal libpseudoWord) (.cat noSpaces
      (.cat (Regex.literal soWord) (.alt .eol (.one (· = space)))))))

/-! ## 2. The code -/

/-- The rounds of the loop of `without_libpseudo`: `memmove` from the end of the match to
`skip_start` behind its start. -/
def removeMatches (skipStart : Nat) : Nat → Bytes → Bytes
  | 0, list => list
  | rounds + 1, list =>
    match Regex.regexec libpseudoPattern list with
    | none => list
    | some (so, eo) => removeMatches skipStart rounds (list.take (so + skipStart) ++ list.drop eo)

/-- "Found way too many libpseudo.so in environment, giving up" after this many rounds. -/
def maxRounds : Nat := 6

/-- `without_libpseudo`. -/
def withoutLibpseudo (list : Bytes) : Bytes :=
  let skipStart := if list.head? = some equals ∨ list.head? = some space then 1 else 0
  removeMatches skipStart maxRounds list

/-- `with_libpseudo`. -/
def withLibpseudo (list : Bytes) : Bytes :=
  match Regex.regexec libpseudoPattern list with
  -- insert space only if there were previous bits
  | none => list ++ (if list = [] then [] else [space]) ++ libpseudoName
  | some _ => list

/-- `PRELINK_LIBRARIES "="`. -/
def prelinkLibraries : Bytes := ascii ['L', 'D', '_', 'P', 'R', 'E', 'L', 'O', 'A', 'D', '=']

/-- What `pseudo_dropenv` sets `LD_PRELOAD` to, if it is set. -/
def pseudoDropenv (ldPreload : Option Bytes) : Option Bytes := ldPreload.map withoutLibpseudo

/-- One entry in the loop of `pseudo_dropenvp`. -/
def dropEntry (entry : Bytes) : List Bytes :=
  if prelinkLibraries.isPrefixOf entry then
    -- don't keep an empty value
    if withoutLibpseudo entry = prelinkLibraries then [] else [withoutLibpseudo entry]
  else [entry]

def pseudoDropenvp (envp : List Bytes) : List Bytes := envp.flatMap dropEntry

/-! ## 3. What it should do -/

/-- A libpseudo library. -/
def IsLibpseudo (token : Bytes) : Prop := libpseudoWord <:+: token ∧ soWord <:+ token

instance (token : Bytes) : Decidable (IsLibpseudo token) :=
  inferInstanceAs (Decidable (_ ∧ _))

/-- The list of these tokens. -/
def listOf (tokens : List Bytes) : Bytes := [space].intercalate tokens

/-- The tokens that should stay. -/
def others (tokens : List Bytes) : List Bytes := tokens.filter fun t => ¬ IsLibpseudo t

/-- Behind the libraries at the front, at most the last token is one, and there are at most
`rounds` of them. -/
def AtTheEnds (rounds : Nat) (tokens : List Bytes) : Prop :=
  (∀ t ∈ (tokens.dropWhile fun t => IsLibpseudo t).dropLast, ¬ IsLibpseudo t) ∧
    tokens.countP (fun t => IsLibpseudo t) ≤ rounds

instance (rounds : Nat) (tokens : List Bytes) : Decidable (AtTheEnds rounds tokens) :=
  inferInstanceAs (Decidable (_ ∧ _))

/-- They stand between other tokens, and there are at most `rounds`. -/
def Between (rounds : Nat) (tokens : List Bytes) : Prop :=
  (∀ t ∈ tokens.head?, ¬ IsLibpseudo t) ∧ (∀ t ∈ tokens.getLast?, ¬ IsLibpseudo t) ∧
    tokens.countP (fun t => IsLibpseudo t) ≤ rounds

instance (rounds : Nat) (tokens : List Bytes) : Decidable (Between rounds tokens) :=
  inferInstanceAs (Decidable (_ ∧ _ ∧ _))

namespace LibpseudoLemmas

open Joined

/-! ## 4. Where the pattern matches -/

/-- `libpseudo` and `.so` do not overlap. -/
theorem isLibpseudo_iff {token : Bytes} :
    IsLibpseudo token ↔ ∃ a b, token = a ++ (libpseudoWord ++ (b ++ soWord)) := by
  constructor
  · rintro ⟨⟨x, y, hx⟩, ⟨z, hz⟩⟩
    rcases List.append_eq_append_iff.mp (hx.trans hz.symm) with ⟨w, -, rfl⟩ | ⟨w, hxw, hso⟩
    · exact ⟨x, w, by rw [← hx, List.append_assoc]⟩
    · cases w with
      | nil => exact ⟨x, [], by rw [← hx, List.append_assoc, hso, List.nil_append]; rfl⟩
      | cons c w =>
        have hle : (c :: w).length ≤ libpseudoWord.length := by
          have hlen := congrArg List.length hso
          rw [List.length_append] at hlen
          exact (Nat.le_add_right _ _).trans (hlen.symm.le.trans (by decide))
        have hsuffix : c :: w <:+ libpseudoWord :=
          List.suffix_of_suffix_length_le ⟨z, hxw.symm⟩ ⟨x, rfl⟩ hle
        have hdot : c = dot := by
          rw [List.cons_append] at hso
          exact (List.cons.inj hso).1.symm
        have hmem : dot ∈ libpseudoWord := hdot ▸ hsuffix.subset List.mem_cons_self
        exact absurd hmem (by decide)
  · rintro ⟨a, b, rfl⟩
    exact ⟨⟨a, b ++ soWord, List.append_assoc _ _ _⟩, ⟨a ++ (libpseudoWord ++ b), by simp⟩⟩

theorem isLibpseudo_append {token : Bytes} (h : IsLibpseudo token) (before : Bytes) :
    IsLibpseudo (before ++ token) :=
  ⟨h.1.trans (List.suffix_append before token).isInfix, h.2.trans (List.suffix_append before token)⟩

/-- A library's name does not start in front of the token without an `l`. -/
theorem isLibpseudo_append_iff {before token : Bytes} (h : 108 ∉ before) :
    IsLibpseudo (before ++ token) ↔ IsLibpseudo token := by
  refine ⟨fun hlib => ?_, fun hlib => isLibpseudo_append hlib before⟩
  obtain ⟨a, b, heq⟩ := isLibpseudo_iff.mp hlib
  rcases List.append_eq_append_iff.mp heq with ⟨w, rfl, rfl⟩ | ⟨w, rfl, hw⟩
  · exact isLibpseudo_iff.mpr ⟨w, b, rfl⟩
  · cases w with
    | nil => exact isLibpseudo_iff.mpr ⟨[], b, hw.symm⟩
    | cons c w =>
      obtain ⟨rfl, -⟩ := List.cons.inj (hw : 108 :: _ = c :: (w ++ token))
      exact absurd (List.mem_append_right a List.mem_cons_self) h

theorem isLibpseudo_length {token : Bytes} (h : IsLibpseudo token) : 0 < token.length :=
  lt_of_lt_of_le (by decide) h.1.length_le

theorem match_noSpaces {before m after : Bytes} :
    Regex.Match noSpaces before m after ↔ space ∉ m := by
  simp only [noSpaces, Regex.Match, decide_eq_true_eq]
  exact ⟨fun h hm => h space hm rfl, fun h c hc he => h (he ▸ hc)⟩

/-- The pattern matches a library with what is around it. -/
theorem match_pattern {before m after : Bytes} :
    Regex.Match libpseudoPattern before m after ↔ ∃ lead token trail, m = lead ++ (token ++ trail) ∧
      (lead = [] ∧ before = [] ∨ lead = [equals] ∨ lead = [space]) ∧
      space ∉ token ∧ IsLibpseudo token ∧ (trail = [] ∧ after = [] ∨ trail = [space]) := by
  have hlead : ∀ {m a : Bytes},
      Regex.Match (.alt .bol (.alt (.one (· = equals)) (.one (· = space)))) before m a ↔
        (m = [] ∧ before = [] ∨ m = [equals] ∨ m = [space]) := by
    intro m a
    simp only [Regex.Match, exists_eq_left, decide_eq_true_eq, and_comm]
  have htrail : ∀ {b m : Bytes}, Regex.Match (.alt .eol (.one (· = space))) b m after ↔
      (m = [] ∧ after = [] ∨ m = [space]) := by
    intro b m
    simp only [Regex.Match, exists_eq_left, decide_eq_true_eq, and_comm]
  constructor
  · rintro ⟨lead, _, rfl, h1, a, _, rfl, h2, w, _, rfl, h3, b, _, rfl, h4, so, trail, rfl, h5, h6⟩
    rw [match_noSpaces] at h2 h4
    rw [Regex.match_literal] at h3 h5
    subst h3 h5
    refine ⟨lead, a ++ (libpseudoWord ++ (b ++ soWord)), trail, by simp, hlead.mp h1, ?_,
      isLibpseudo_iff.mpr ⟨a, b, rfl⟩, htrail.mp h6⟩
    have hwords : space ∉ libpseudoWord ∧ space ∉ soWord := by decide
    simp only [List.mem_append, h2, h4, hwords, or_self, not_false_eq_true]
  · rintro ⟨lead, token, trail, rfl, h1, hspace, hlib, h6⟩
    obtain ⟨a, b, rfl⟩ := isLibpseudo_iff.mp hlib
    simp only [List.mem_append, not_or] at hspace
    refine ⟨lead, _, rfl, hlead.mpr h1, a, _, by simp only [List.append_assoc],
      match_noSpaces.mpr hspace.1, libpseudoWord, _, rfl, Regex.match_literal.mpr rfl, b, _,
      rfl, match_noSpaces.mpr hspace.2.2.1, soWord, trail, rfl, Regex.match_literal.mpr rfl,
      htrail.mpr h6⟩

section Search
variable {tokens as bs : List Bytes} {lib : Bytes} {so eo : Nat}

/-- A match in a list is one of its libraries. -/
theorem occurs_list (htokens : Tokens space tokens)
    (h : Regex.Occurs libpseudoPattern (listOf tokens) so eo) :
    ∃ as lib bs, tokens = as ++ lib :: bs ∧ IsLibpseudo lib ∧ (front space as).length ≤ so + 1 ∧
      eo ≤ (front space as).length + lib.length + (if bs = [] then 0 else 1) := by
  obtain ⟨before, m, after, htext, hm, rfl, rfl⟩ := h
  obtain ⟨lead, token, trail, rfl, hlead, hspace, hlib, htrail⟩ := match_pattern.mp hm
  have hne : tokens ≠ [] := by
    rintro rfl
    have hlen := congrArg List.length htext
    have hpos := isLibpseudo_length hlib
    simp only [listOf, List.intercalate_nil, List.length_nil, List.length_append] at hlen
    omega
  have hends : Cut.Ends space (trail ++ after) := by
    rcases htrail with ⟨rfl, rfl⟩ | rfl
    · exact Or.inl rfl
    · exact Or.inr rfl
  obtain ⟨as, t, bs, rfl, hfront, hbehind⟩ := exists_token htokens hne
    (show _ = (before ++ lead) ++ (token ++ (trail ++ after)) by
      rw [← listOf, htext]; simp only [List.append_assoc]) hspace hends
  have hlen := congrArg List.length hfront
  have hlead1 : lead.length ≤ 1 := by
    rcases hlead with ⟨rfl, -⟩ | rfl | rfl <;> simp
  have htrail1 : trail.length ≤ if bs = [] then 0 else 1 := by
    split
    · rename_i hbs
      rw [hbs] at hbehind
      rw [(List.append_eq_nil_iff.mp hbehind).1]
      exact Nat.le_refl 0
    · rcases htrail with ⟨rfl, -⟩ | rfl <;> simp
  simp only [List.length_append] at hlen ⊢
  refine ⟨as, t ++ token, bs, rfl, isLibpseudo_append hlib t, by omega, ?_⟩
  rw [List.length_append]
  omega

variable (has : ∀ t ∈ as, ¬ IsLibpseudo t) (hlib : IsLibpseudo lib)
include has hlib

/-- Another library of a list is not further left than the first one. -/
theorem first_library {as' bs' : List Bytes} {lib' : Bytes} (hlib' : IsLibpseudo lib')
    (h : as ++ lib :: bs = as' ++ lib' :: bs') :
    as' = as ∧ lib' = lib ∧ bs' = bs ∨
      (front space as).length + lib.length < (front space as').length := by
  rcases List.append_eq_append_iff.mp h with ⟨w, rfl, hw⟩ | ⟨w, rfl, hw⟩
  · cases w with
    | nil =>
      obtain ⟨rfl, rfl⟩ := List.cons.inj hw
      exact Or.inl ⟨List.append_nil as, rfl, rfl⟩
    | cons c w =>
      obtain ⟨rfl, -⟩ := List.cons.inj hw
      refine Or.inr ?_
      simp only [front, List.flatMap_append, List.flatMap_cons, List.length_append,
        List.length_singleton]
      omega
  · cases w with
    | nil =>
      obtain ⟨rfl, rfl⟩ := List.cons.inj hw
      exact Or.inl ⟨(List.append_nil as').symm, rfl, rfl⟩
    | cons c w =>
      obtain ⟨rfl, -⟩ := List.cons.inj hw
      exact absurd hlib' (has _ (List.mem_append_right _ List.mem_cons_self))

/-- The match that is found is the first library, with the space in front of it and the one behind
it. -/
theorem regexec_list (htokens : Tokens space (as ++ lib :: bs)) :
    Regex.regexec libpseudoPattern (listOf (as ++ lib :: bs)) =
      some ((front space as).length - 1,
        (front space as).length + lib.length + (if bs = [] then 0 else 1)) := by
  refine Regex.regexec_eq_some ?_ fun so' eo' hocc => ?_
  · have hspace : space ∉ lib := htokens lib (by simp)
    have htrail : ∃ trail after, behind space bs = trail ++ after ∧
        (trail = [] ∧ after = [] ∨ trail = [space]) ∧ trail.length = if bs = [] then 0 else 1 := by
      cases bs with
      | nil => exact ⟨[], [], rfl, Or.inl ⟨rfl, rfl⟩, rfl⟩
      | cons b bs => exact ⟨[space], b ++ behind space bs, rfl, Or.inr rfl, rfl⟩
    have hlead : ∃ before lead, front space as = before ++ lead ∧
        (lead = [] ∧ before = [] ∨ lead = [equals] ∨ lead = [space]) ∧
        before.length = (front space as).length - 1 := by
      rcases List.eq_nil_or_concat' as with rfl | ⟨as, a, rfl⟩
      · exact ⟨[], [], rfl, Or.inl ⟨rfl, rfl⟩, rfl⟩
      · rw [front_concat]
        refine ⟨front space as ++ a, [space], rfl, Or.inr (Or.inr rfl), ?_⟩
        simp
    obtain ⟨trail, after, hbehind, htrail, htlen⟩ := htrail
    obtain ⟨before, lead, hfront, hlead, hblen⟩ := hlead
    refine ⟨before, lead ++ (lib ++ trail), after, ?_,
      match_pattern.mpr ⟨lead, lib, trail, rfl, hlead, hspace, hlib, htrail⟩, hblen.symm, ?_⟩
    · rw [listOf, intercalate_append_cons, hfront, hbehind]
      simp only [List.append_assoc]
    · rw [hfront]
      simp only [List.length_append, htlen]
      omega
  · obtain ⟨as', lib', bs', heq, hlib', hso, heo⟩ := occurs_list htokens hocc
    rcases first_library has hlib hlib' heq with ⟨rfl, rfl, rfl⟩ | hlt
    · exact ⟨by omega, fun _ => heo⟩
    · have hpos := isLibpseudo_length hlib
      exact ⟨by omega, by omega⟩

omit has hlib in
theorem regexec_list_none (htokens : Tokens space tokens) (h : ∀ t ∈ tokens, ¬ IsLibpseudo t) :
    Regex.regexec libpseudoPattern (listOf tokens) = none := by
  refine Regex.regexec_eq_none fun so eo hocc => ?_
  obtain ⟨as, lib, bs, rfl, hlib, -⟩ := occurs_list htokens hocc
  exact h lib (by simp) hlib

end Search

/-! ## 5. One round -/

section Rounds
variable {tokens as bs : List Bytes} {lib : Bytes}

/-- Without a library nothing is removed. -/
theorem removeMatches_none (skip rounds : Nat) (htokens : Tokens space tokens)
    (h : ∀ t ∈ tokens, ¬ IsLibpseudo t) :
    removeMatches skip rounds (listOf tokens) = listOf tokens := by
  cases rounds with
  | zero => rfl
  | succ rounds =>
    rw [removeMatches, regexec_list_none htokens h]

theorem take_front (hne : as ≠ []) :
    (listOf (as ++ lib :: bs)).take ((front space as).length - 1) = listOf as := by
  rw [listOf, intercalate_append_cons, front_eq_intercalate hne, List.length_append,
    List.length_singleton, Nat.add_sub_cancel, List.append_assoc, List.take_left]
  rfl

theorem take_front_succ (hne : as ≠ []) :
    (listOf (as ++ lib :: bs)).take ((front space as).length - 1 + 1) = front space as := by
  have hpos : 0 < (front space as).length := by
    rw [front_eq_intercalate hne, List.length_append, List.length_singleton]
    exact Nat.succ_pos _
  rw [Nat.sub_add_cancel hpos, listOf, intercalate_append_cons, List.take_left]

variable (has : ∀ t ∈ as, ¬ IsLibpseudo t) (hlib : IsLibpseudo lib)
  (htokens : Tokens space (as ++ lib :: bs))
include has hlib htokens

/-- What stays in front of the match, and the tokens behind the library. -/
theorem removeMatches_succ (skip rounds : Nat) :
    removeMatches skip (rounds + 1) (listOf (as ++ lib :: bs)) =
      removeMatches skip rounds
        ((listOf (as ++ lib :: bs)).take ((front space as).length - 1 + skip) ++ listOf bs) := by
  have hdrop : (listOf (as ++ lib :: bs)).drop
      ((front space as).length + lib.length + if bs = [] then 0 else 1) = listOf bs := by
    rw [listOf, intercalate_append_cons, ← List.append_assoc, ← List.length_append]
    cases bs with
    | nil => simp [behind, listOf]
    | cons b bs =>
      rw [if_neg (List.cons_ne_nil b bs), behind_cons, ← List.drop_drop, List.drop_left]
      rfl
  rw [removeMatches, regexec_list has hlib htokens]
  show removeMatches skip rounds (_ ++ List.drop _ _) = _
  rw [hdrop]

end Rounds

/-! ## 6. What a list of tokens weighs -/

theorem exists_first_library (tokens : List Bytes) :
    (∀ t ∈ tokens, ¬ IsLibpseudo t) ∨ ∃ as lib bs, tokens = as ++ lib :: bs ∧
      (∀ t ∈ as, ¬ IsLibpseudo t) ∧ IsLibpseudo lib := by
  induction tokens with
  | nil => exact Or.inl fun t ht => (by cases ht)
  | cons t tokens ih =>
    by_cases hlib : IsLibpseudo t
    · exact Or.inr ⟨[], t, tokens, rfl, fun u hu => (by cases hu), hlib⟩
    · rcases ih with hnone | ⟨as, lib, bs, rfl, has, hl⟩
      · exact Or.inl (List.forall_mem_cons.mpr ⟨hlib, hnone⟩)
      · exact Or.inr ⟨t :: as, lib, bs, rfl, List.forall_mem_cons.mpr ⟨hlib, has⟩, hl⟩

/-- The room that the other tokens take, each with a separator. -/
def weight (tokens : List Bytes) : Nat := ((others tokens).map fun t => t.length + 1).sum

section Weight
variable {tokens as bs : List Bytes} {t : Bytes}

theorem others_eq_self (h : ∀ t ∈ tokens, ¬ IsLibpseudo t) : others tokens = tokens :=
  List.filter_eq_self.mpr fun t ht => decide_eq_true (h t ht)

theorem others_append : others (as ++ bs) = others as ++ others bs := List.filter_append ..

theorem others_cons_lib (h : IsLibpseudo t) : others (t :: tokens) = others tokens :=
  List.filter_cons_of_neg (by simpa using h)

theorem others_cons (h : ¬ IsLibpseudo t) : others (t :: tokens) = t :: others tokens :=
  List.filter_cons_of_pos (by simpa using h)

theorem weight_append : weight (as ++ bs) = weight as + weight bs := by
  unfold weight
  rw [others_append, List.map_append, List.sum_append]

theorem weight_cons_lib (h : IsLibpseudo t) : weight (t :: tokens) = weight tokens := by
  unfold weight
  rw [others_cons_lib h]

theorem weight_cons (h : ¬ IsLibpseudo t) :
    weight (t :: tokens) = t.length + 1 + weight tokens := by
  unfold weight
  rw [others_cons h, List.map_cons, List.sum_cons]

theorem weight_cons_le : weight (t :: tokens) ≤ t.length + 1 + weight tokens := by
  by_cases h : IsLibpseudo t
  · exact (weight_cons_lib h).le.trans (Nat.le_add_left _ _)
  · exact (weight_cons h).le

theorem others_forall : ∀ t ∈ others tokens, ¬ IsLibpseudo t :=
  fun _ ht => of_decide_eq_true (List.mem_filter.mp ht).2

theorem weight_others : weight (others tokens) = weight tokens := by
  unfold weight
  rw [others_eq_self others_forall]

theorem tokens_others (h : Tokens space tokens) : Tokens space (others tokens) :=
  fun t ht => h t (List.mem_of_mem_filter ht)

theorem listOf_ne_nil (hne : ∀ t ∈ tokens, t ≠ []) (h : tokens ≠ []) : listOf tokens ≠ [] := by
  cases tokens with
  | nil => exact absurd rfl h
  | cons t tokens =>
    rw [listOf, intercalate_cons]
    exact List.append_ne_nil_of_left_ne_nil (hne t List.mem_cons_self) _

/-- A list reads as another one that is not empty only if it is that one. -/
theorem eq_of_listOf_eq {us : List Bytes} (htokens : Tokens space tokens) (hus : Tokens space us)
    (hne : listOf us ≠ []) (h : listOf tokens = listOf us) : tokens = us := by
  refine intercalate_injective htokens hus ?_ ?_ h
  · rintro rfl
    exact hne (h.symm.trans List.intercalate_nil)
  · rintro rfl
    exact hne List.intercalate_nil

/-- A list reads as its other tokens only if it has no library. -/
theorem listOf_others_iff (htokens : Tokens space tokens) (hne : ∀ t ∈ tokens, t ≠ []) :
    listOf tokens = listOf (others tokens) ↔ ∀ t ∈ tokens, ¬ IsLibpseudo t := by
  constructor
  · intro h
    by_cases hnil : tokens = []
    · subst hnil
      exact fun t ht => (by cases ht)
    · have heq := eq_of_listOf_eq (tokens_others htokens) htokens (listOf_ne_nil hne hnil) h.symm
      exact heq ▸ others_forall
  · intro h
    rw [others_eq_self h]

theorem countP_eq_zero_iff :
    tokens.countP (fun t => IsLibpseudo t) ≤ 0 ↔ ∀ t ∈ tokens, ¬ IsLibpseudo t := by
  rw [Nat.le_zero, List.countP_eq_zero]
  simp only [decide_eq_true_eq]

theorem countP_append_lib {lib : Bytes} (has : ∀ t ∈ as, ¬ IsLibpseudo t)
    (hlib : IsLibpseudo lib) : (as ++ lib :: bs).countP (fun t => IsLibpseudo t) =
      bs.countP (fun t => IsLibpseudo t) + 1 := by
  rw [List.countP_append, Nat.le_zero.mp (countP_eq_zero_iff.mpr has), Nat.zero_add,
    List.countP_cons_of_pos (by simpa using hlib)]

end Weight

/-! ## 7. Values that do not start with an equals sign -/

section Plain
variable {tokens as bs : List Bytes} {lib : Bytes} {rounds : Nat}

/-- The first token goes with what is behind it. -/
theorem remove_front (hlib : IsLibpseudo lib) (htokens : Tokens space (lib :: bs)) :
    removeMatches 0 (rounds + 1) (listOf (lib :: bs)) = removeMatches 0 rounds (listOf bs) :=
  @removeMatches_succ [] bs lib (fun _ ht => (by cases ht)) hlib htokens 0 rounds

section Behind
variable {a b : Bytes} (has : ∀ t ∈ as ++ [a], ¬ IsLibpseudo t) (hlib : IsLibpseudo lib)
include has hlib

/-- The last token goes with what is in front of it. -/
theorem remove_last (htokens : Tokens space (as ++ [a] ++ [lib])) :
    removeMatches 0 (rounds + 1) (listOf (as ++ [a] ++ [lib])) = listOf (as ++ [a]) := by
  rw [removeMatches_succ has hlib htokens 0 rounds, Nat.add_zero, take_front (by simp), listOf,
    listOf, List.intercalate_nil, List.append_nil]
  exact removeMatches_none 0 rounds (tokens_append.mp htokens).1 has

/-- One in between takes the separators on both sides with it. -/
theorem remove_merges (htokens : Tokens space (as ++ [a] ++ lib :: b :: bs)) :
    removeMatches 0 (rounds + 1) (listOf (as ++ [a] ++ lib :: b :: bs)) =
      removeMatches 0 rounds (listOf (as ++ (a ++ b) :: bs)) := by
  have hmerged : listOf (as ++ [a]) ++ listOf (b :: bs) = listOf (as ++ (a ++ b) :: bs) := by
    simp only [listOf, intercalate_append_cons, intercalate_cons]
    simp [behind]
  rw [removeMatches_succ has hlib htokens 0 rounds, Nat.add_zero, take_front (by simp), hmerged]

/-- Two tokens in one need less room. -/
theorem weight_merged :
    weight (as ++ (a ++ b) :: bs) < weight (as ++ [a] ++ lib :: b :: bs) := by
  rw [weight_append, weight_append, weight_append, weight_cons_lib hlib,
    show weight [a] = a.length + 1 from weight_cons (has a (by simp))]
  by_cases hb : IsLibpseudo b
  · rw [weight_cons_lib (isLibpseudo_append hb a), weight_cons_lib hb]
    omega
  · have hle := @weight_cons_le bs (a ++ b)
    rw [List.length_append] at hle
    rw [weight_cons hb]
    omega

end Behind

theorem tokens_merged {a b : Bytes} (h : Tokens space (as ++ [a] ++ lib :: b :: bs)) :
    Tokens space (as ++ (a ++ b) :: bs) := by
  simp only [tokens_append, tokens_cons, List.mem_append, not_or] at h ⊢
  exact ⟨h.1.1, ⟨h.1.2.1, h.2.2.1⟩, h.2.2.2⟩

/-- The other tokens never take more room than before. -/
theorem removeMatches_weight (rounds : Nat) (htokens : Tokens space tokens) :
    ∃ us, Tokens space us ∧ removeMatches 0 rounds (listOf tokens) = listOf us ∧
      weight us ≤ weight tokens := by
  induction rounds generalizing tokens with
  | zero => exact ⟨tokens, htokens, rfl, Nat.le_refl _⟩
  | succ rounds ih =>
    rcases exists_first_library tokens with hnone | ⟨as, lib, bs, rfl, has, hlib⟩
    · exact ⟨tokens, htokens, removeMatches_none 0 _ htokens hnone, Nat.le_refl _⟩
    · rcases List.eq_nil_or_concat' as with rfl | ⟨as, a, rfl⟩
      · obtain ⟨us, hus, heq, hle⟩ := ih (tokens_cons.mp htokens).2
        rw [List.nil_append, remove_front hlib htokens, weight_cons_lib hlib]
        exact ⟨us, hus, heq, hle⟩
      · cases bs with
        | nil =>
          refine ⟨as ++ [a], (tokens_append.mp htokens).1, remove_last has hlib htokens, ?_⟩
          rw [@weight_append (as ++ [a]) [lib]]
          exact Nat.le_add_right _ _
        | cons b bs =>
          obtain ⟨us, hus, heq, hle⟩ := ih (tokens_merged htokens)
          rw [remove_merges has hlib htokens]
          exact ⟨us, hus, heq, hle.trans (weight_merged has hlib).le⟩

/-- What is in front of the last library that stays. -/
theorem atTheEnds_of_forall (h : ∀ t ∈ tokens, ¬ IsLibpseudo t) : AtTheEnds rounds tokens :=
  ⟨fun t ht => h t ((List.dropWhile_sublist _).subset (List.dropLast_subset _ ht)),
    (countP_eq_zero_iff.mpr h).trans (Nat.zero_le rounds)⟩

theorem atTheEnds_zero : AtTheEnds 0 tokens ↔ ∀ t ∈ tokens, ¬ IsLibpseudo t :=
  ⟨fun h => countP_eq_zero_iff.mp h.2, atTheEnds_of_forall⟩

theorem atTheEnds_cons (hlib : IsLibpseudo lib) :
    AtTheEnds (rounds + 1) (lib :: bs) ↔ AtTheEnds rounds bs := by
  unfold AtTheEnds
  rw [List.dropWhile_cons_of_pos (by simpa using hlib),
    List.countP_cons_of_pos (by simpa using hlib), Nat.add_le_add_iff_right]

/-- Behind another token, only the last one may be a library. -/
theorem atTheEnds_append (has : ∀ t ∈ as, ¬ IsLibpseudo t) (hne : as ≠ [])
    (hlib : IsLibpseudo lib) : AtTheEnds (rounds + 1) (as ++ lib :: bs) ↔ bs = [] := by
  have hkeep : ((as ++ lib :: bs).dropWhile fun t => IsLibpseudo t) = as ++ lib :: bs := by
    cases as with
    | nil => exact absurd rfl hne
    | cons a as => exact List.dropWhile_cons_of_neg (by simpa using has a List.mem_cons_self)
  unfold AtTheEnds
  rw [hkeep, countP_append_lib has hlib]
  constructor
  · rintro ⟨h, -⟩
    cases bs with
    | nil => rfl
    | cons b bs =>
      refine absurd hlib (h lib ?_)
      rw [List.dropLast_append_of_ne_nil (List.cons_ne_nil _ _)]
      exact List.mem_append_right _ (by simp)
  · rintro rfl
    rw [List.dropLast_concat]
    exact ⟨has, Nat.le_add_left _ _⟩

/-- The rounds leave the other tokens exactly when the libraries are at the ends. -/
theorem removeMatches_zero_iff (rounds : Nat) (htokens : Tokens space tokens)
    (hne : ∀ t ∈ tokens, t ≠ []) :
    removeMatches 0 rounds (listOf tokens) = listOf (others tokens) ↔ AtTheEnds rounds tokens := by
  induction rounds generalizing tokens with
  | zero => exact (listOf_others_iff htokens hne).trans atTheEnds_zero.symm
  | succ rounds ih =>
    rcases exists_first_library tokens with hnone | ⟨as, lib, bs, rfl, has, hlib⟩
    · rw [removeMatches_none 0 _ htokens hnone, others_eq_self hnone]
      exact iff_of_true rfl (atTheEnds_of_forall hnone)
    · rcases List.eq_nil_or_concat' as with rfl | ⟨as, a, rfl⟩
      · rw [List.nil_append, remove_front hlib htokens, others_cons_lib hlib,
          ih (tokens_cons.mp htokens).2 fun t ht => hne t (List.mem_cons_of_mem _ ht),
          atTheEnds_cons hlib]
      · rw [atTheEnds_append has (by simp) hlib]
        cases bs with
        | nil =>
          rw [remove_last has hlib htokens, others_append, others_cons_lib hlib,
            others_eq_self has]
          exact iff_of_true (congrArg listOf (List.append_nil _).symm) rfl
        | cons b bs =>
          -- two tokens become one, and what is lost does not come back
          refine iff_of_false (fun h => ?_) (List.cons_ne_nil b bs)
          obtain ⟨us, hus, heq, hle⟩ := removeMatches_weight rounds (tokens_merged htokens)
          rw [remove_merges has hlib htokens, heq] at h
          have hnonempty : listOf (others (as ++ [a] ++ lib :: b :: bs)) ≠ [] := by
            refine listOf_ne_nil (fun t ht => hne t (List.mem_of_mem_filter ht)) ?_
            rw [others_append, others_eq_self has]
            simp
          rw [eq_of_listOf_eq hus (tokens_others htokens) hnonempty h, weight_others] at hle
          exact absurd hle (Nat.not_le.mpr (weight_merged has hlib))

end Plain

/-! ## 8. Values that start with an equals sign -/

section Equals
variable {tokens as bs : List Bytes} {lib : Bytes} {rounds : Nat}

/-- The first token starts with an equals sign. -/
def StartsWithEquals (tokens : List Bytes) : Prop :=
  ∃ t rest, tokens = (equals :: t) :: rest

/-- What is behind the first token is appended to the equals sign. -/
def mergeEquals : List Bytes → List Bytes
  | [] => [[equals]]
  | b :: bs => (equals :: b) :: bs

theorem listOf_mergeEquals (bs : List Bytes) : listOf (mergeEquals bs) = equals :: listOf bs := by
  cases bs with
  | nil => rfl
  | cons b bs =>
    simp only [mergeEquals, listOf, intercalate_cons]
    rfl

theorem startsWithEquals_mergeEquals (bs : List Bytes) : StartsWithEquals (mergeEquals bs) := by
  cases bs with
  | nil => exact ⟨[], [], rfl⟩
  | cons b bs => exact ⟨b, bs, rfl⟩

theorem tokens_mergeEquals (h : Tokens space bs) : Tokens space (mergeEquals bs) := by
  cases bs with
  | nil => decide
  | cons b bs =>
    obtain ⟨hb, hbs⟩ := tokens_cons.mp h
    refine tokens_cons.mpr ⟨fun hc => ?_, hbs⟩
    rcases List.mem_cons.mp hc with hc | hc
    · exact absurd hc (by decide)
    · exact hb hc

theorem StartsWithEquals.append (h : StartsWithEquals as) (bs : List Bytes) :
    StartsWithEquals (as ++ bs) := by
  obtain ⟨t, rest, rfl⟩ := h
  exact ⟨t, rest ++ bs, rfl⟩

/-- The part in front of the first library starts with an equals sign as the whole does. -/
theorem StartsWithEquals.of_append (hne : as ≠ []) (h : StartsWithEquals (as ++ bs)) :
    StartsWithEquals as := by
  obtain ⟨t, rest, heq⟩ := h
  cases as with
  | nil => exact absurd rfl hne
  | cons a as =>
    obtain ⟨rfl, -⟩ := List.cons.inj heq
    exact ⟨t, as, rfl⟩

/-- The equals sign of the first token stays. -/
theorem keep_equals (hlib : IsLibpseudo lib) (htokens : Tokens space (lib :: bs))
    (hstart : StartsWithEquals (lib :: bs)) :
    removeMatches 1 (rounds + 1) (listOf (lib :: bs)) =
      removeMatches 1 rounds (listOf (mergeEquals bs)) := by
  obtain ⟨t, rest, heq⟩ := hstart
  obtain ⟨rfl, rfl⟩ := List.cons.inj heq
  have h := @removeMatches_succ [] bs (equals :: t) (fun _ ht => (by cases ht)) hlib htokens 1
    rounds
  rw [listOf_mergeEquals]
  refine h.trans ?_
  rw [List.nil_append, listOf, intercalate_cons]
  rfl

/-- A library behind another token goes with the separator behind it. -/
theorem keep_space (has : ∀ t ∈ as, ¬ IsLibpseudo t) (hlib : IsLibpseudo lib) (hne : as ≠ [])
    (htokens : Tokens space (as ++ lib :: bs)) :
    removeMatches 1 (rounds + 1) (listOf (as ++ lib :: bs)) =
      removeMatches 1 rounds (listOf (as ++ if bs = [] then [[]] else bs)) := by
  rw [removeMatches_succ has hlib htokens 1 rounds, take_front_succ hne]
  cases bs with
  | nil =>
    rw [if_pos rfl, listOf, listOf, List.intercalate_nil, intercalate_append_cons]
    rfl
  | cons b bs =>
    rw [if_neg (List.cons_ne_nil b bs), listOf, listOf, intercalate_append_cons, intercalate_cons]

/-- Behind a removed library, either the first token is one again or the others take more room. -/
theorem weight_mergeEquals (bs : List Bytes) :
    weight bs < weight (mergeEquals bs) ∨
      weight bs = weight (mergeEquals bs) ∧ ∀ t ∈ (mergeEquals bs).head?, IsLibpseudo t := by
  cases bs with
  | nil => exact Or.inl (by decide)
  | cons b bs =>
    have hiff : IsLibpseudo (equals :: b) ↔ IsLibpseudo b :=
      @isLibpseudo_append_iff [equals] b (by decide)
    rw [mergeEquals]
    by_cases hb : IsLibpseudo b
    · refine Or.inr ⟨(weight_cons_lib hb).trans (weight_cons_lib (hiff.mpr hb)).symm, ?_⟩
      rintro t ht
      obtain rfl := Option.some.inj ht
      exact hiff.mpr hb
    · rw [weight_cons hb, weight_cons (mt hiff.mp hb), List.length_cons]
      omega

/-- The others never take less room than before; with a library in front they end up with more. -/
theorem weight_removeMatches (rounds : Nat) (htokens : Tokens space tokens)
    (hstart : StartsWithEquals tokens) :
    ∃ us, Tokens space us ∧ StartsWithEquals us ∧
      removeMatches 1 rounds (listOf tokens) = listOf us ∧ weight tokens ≤ weight us ∧
      ((∀ t ∈ tokens.head?, IsLibpseudo t) → (∀ t ∈ us, ¬ IsLibpseudo t) →
        weight tokens < weight us) := by
  have hhead : ∀ {tokens}, StartsWithEquals tokens → (∀ t ∈ tokens.head?, IsLibpseudo t) →
      ¬ ∀ t ∈ tokens, ¬ IsLibpseudo t := by
    rintro _ ⟨t, rest, rfl⟩ hlib hnone
    exact hnone _ List.mem_cons_self (hlib _ rfl)
  induction rounds generalizing tokens with
  | zero =>
    exact ⟨tokens, htokens, hstart, rfl, Nat.le_refl _,
      fun hlib hnone => absurd hnone (hhead hstart hlib)⟩
  | succ rounds ih =>
    rcases exists_first_library tokens with hnone | ⟨as, lib, bs, rfl, has, hlib⟩
    · exact ⟨tokens, htokens, hstart, removeMatches_none 1 _ htokens hnone, Nat.le_refl _,
        fun hlib => absurd hnone (hhead hstart hlib)⟩
    · cases as with
      | nil =>
        obtain ⟨us, hus, hstart', heq, hle, hlt⟩ :=
          ih (tokens_mergeEquals (tokens_cons.mp htokens).2) (startsWithEquals_mergeEquals bs)
        rw [List.nil_append, keep_equals hlib htokens hstart, weight_cons_lib hlib]
        refine ⟨us, hus, hstart', heq, ?_, fun _ hnone => ?_⟩
        · rcases weight_mergeEquals bs with hmore | ⟨hsame, -⟩
          · exact (hmore.trans_le hle).le
          · exact hsame.le.trans hle
        · rcases weight_mergeEquals bs with hmore | ⟨hsame, hagain⟩
          · exact hmore.trans_le hle
          · exact hsame.trans_lt (hlt hagain hnone)
      | cons a as =>
        have hne := List.cons_ne_nil a as
        have hrest : Tokens space (if bs = [] then [[]] else bs) := by
          split
          · decide
          · exact (tokens_cons.mp (tokens_append.mp htokens).2).2
        obtain ⟨us, hus, hstart', heq, hle, -⟩ :=
          @ih (a :: as ++ if bs = [] then [[]] else bs)
            (tokens_append.mpr ⟨(tokens_append.mp htokens).1, hrest⟩)
            ((hstart.of_append hne).append _)
        rw [keep_space has hlib hne htokens, weight_append, weight_cons_lib hlib]
        refine ⟨us, hus, hstart', heq, ?_, fun hfirst => ?_⟩
        · rw [weight_append] at hle
          refine (Nat.add_le_add_left ?_ _).trans hle
          split
          · rename_i hbs
            rw [hbs]
            exact Nat.zero_le _
          · exact Nat.le_refl _
        · exact absurd (hfirst a rfl) (has a List.mem_cons_self)

theorem between_of_forall (h : ∀ t ∈ tokens, ¬ IsLibpseudo t) : Between rounds tokens :=
  ⟨fun t ht => h t (List.mem_of_mem_head? ht), fun t ht => h t (List.mem_of_mem_getLast? ht),
    (countP_eq_zero_iff.mpr h).trans (Nat.zero_le rounds)⟩

theorem between_zero : Between 0 tokens ↔ ∀ t ∈ tokens, ¬ IsLibpseudo t :=
  ⟨fun h => countP_eq_zero_iff.mp h.2.2, between_of_forall⟩

/-- A library in between does not matter, and may not be the last token. -/
theorem between_append (has : ∀ t ∈ as, ¬ IsLibpseudo t) (hne : as ≠ []) (hlib : IsLibpseudo lib) :
    Between (rounds + 1) (as ++ lib :: bs) ↔ bs ≠ [] ∧ Between rounds (as ++ bs) := by
  unfold Between
  rw [countP_append_lib has hlib, List.head?_append_of_ne_nil as hne,
    List.head?_append_of_ne_nil as hne, Nat.add_le_add_iff_right, List.countP_append,
    Nat.le_zero.mp (countP_eq_zero_iff.mpr has), Nat.zero_add]
  cases bs with
  | nil =>
    refine iff_of_false (fun h => ?_) fun h => h.1 rfl
    exact h.2.1 lib (by simp) hlib
  | cons b bs =>
    rw [List.getLast?_append_of_ne_nil _ (List.cons_ne_nil _ _),
      List.getLast?_append_of_ne_nil _ (List.cons_ne_nil _ _), List.getLast?_cons_cons]
    exact ⟨fun h => ⟨List.cons_ne_nil b bs, h⟩, fun h => h.2⟩

/-- The rounds leave the other tokens exactly when the libraries are between these. -/
theorem removeMatches_one_iff (rounds : Nat) (htokens : Tokens space tokens)
    (hne : ∀ t ∈ tokens, t ≠ []) (hstart : StartsWithEquals tokens) :
    removeMatches 1 rounds (listOf tokens) = listOf (others tokens) ↔ Between rounds tokens := by
  induction rounds generalizing tokens with
  | zero => exact (listOf_others_iff htokens hne).trans between_zero.symm
  | succ rounds ih =>
    rcases exists_first_library tokens with hnone | ⟨as, lib, bs, rfl, has, hlib⟩
    · rw [removeMatches_none 1 _ htokens hnone, others_eq_self hnone]
      exact iff_of_true rfl (between_of_forall hnone)
    · cases as with
      | nil =>
        -- the equals sign of the first token is what is left of it
        refine iff_of_false (fun h => ?_) fun h => h.1 lib rfl hlib
        obtain ⟨us, hus, ⟨t, rest, rfl⟩, heq, -, hlt⟩ :=
          weight_removeMatches (rounds + 1) htokens hstart
        rw [heq] at h
        have hsame := eq_of_listOf_eq (tokens_others htokens) hus
          (by rw [listOf, intercalate_cons]; exact List.cons_ne_nil _ _) h.symm
        have hmore := hlt (fun t ht => Option.some.inj ht ▸ hlib) (hsame ▸ others_forall)
        rw [← hsame, weight_others] at hmore
        exact absurd hmore (Nat.lt_irrefl _)
      | cons a as =>
        have hfirst := List.cons_ne_nil a as
        rw [keep_space has hlib hfirst htokens, between_append has hfirst hlib, others_append,
          others_cons_lib hlib, ← others_append]
        obtain ⟨hto, hrest⟩ := tokens_append.mp htokens
        by_cases hbs : bs = []
        · subst hbs
          refine iff_of_false (fun h => ?_) fun h => h.1 rfl
          -- a separator is left behind the last token
          rw [if_pos rfl, List.append_nil, others_eq_self has,
            removeMatches_none 1 _ (tokens_append.mpr ⟨hto, by decide⟩)
              (List.forall_mem_append.mpr ⟨has, by decide⟩)] at h
          have hlen := congrArg List.length h
          rw [listOf, intercalate_append_cons, front_eq_intercalate hfirst] at hlen
          simp [listOf, behind] at hlen
        · rw [if_neg hbs, and_iff_right hbs]
          refine ih (tokens_append.mpr ⟨hto, (tokens_cons.mp hrest).2⟩) (fun t ht => hne t ?_)
            ((hstart.of_append hfirst).append bs)
          rcases List.mem_append.mp ht with ht | ht
          · exact List.mem_append_left _ ht
          · exact List.mem_append_right _ (List.mem_cons_of_mem _ ht)

end Equals

/-! ## 9. Values and entries -/

section Values
variable {tokens : List Bytes}

/-- The value alone. -/
theorem withoutLibpseudo_value (htokens : Tokens space tokens) (hne : ∀ t ∈ tokens, t ≠ []) :
    withoutLibpseudo (listOf tokens) = listOf (others tokens) ↔
      if (listOf tokens).head? = some equals then Between maxRounds tokens
      else AtTheEnds maxRounds tokens := by
  have hspace : (listOf tokens).head? ≠ some space := by
    cases tokens with
    | nil => decide
    | cons t tokens =>
      obtain ⟨c, t, rfl⟩ := List.exists_cons_of_ne_nil (hne t List.mem_cons_self)
      rw [listOf, intercalate_cons]
      intro h
      exact (tokens_cons.mp htokens).1 (Option.some.inj h ▸ List.mem_cons_self)
  unfold withoutLibpseudo
  simp only [hspace, or_false]
  split
  · rename_i hequals
    refine removeMatches_one_iff maxRounds htokens hne ?_
    cases tokens with
    | nil => cases hequals
    | cons t tokens =>
      obtain ⟨c, t, rfl⟩ := List.exists_cons_of_ne_nil (hne t List.mem_cons_self)
      rw [listOf, intercalate_cons] at hequals
      exact ⟨t, tokens, by rw [Option.some.inj hequals]⟩
  · exact removeMatches_zero_iff maxRounds htokens hne

/-- The tokens of an entry: the first one has the name of the variable in front. -/
def entryTokens : List Bytes → List Bytes
  | [] => [prelinkLibraries]
  | t :: tokens => (prelinkLibraries ++ t) :: tokens

theorem listOf_entryTokens (tokens : List Bytes) :
    listOf (entryTokens tokens) = prelinkLibraries ++ listOf tokens := by
  cases tokens with
  | nil => rfl
  | cons t tokens =>
    simp only [entryTokens, listOf, intercalate_cons, List.append_assoc]

theorem tokens_entryTokens (htokens : Tokens space tokens) :
    Tokens space (entryTokens tokens) := by
  cases tokens with
  | nil => decide
  | cons t tokens =>
    obtain ⟨ht, hrest⟩ := tokens_cons.mp htokens
    refine tokens_cons.mpr ⟨fun hc => ?_, hrest⟩
    rcases List.mem_append.mp hc with hc | hc
    · exact absurd hc (by decide)
    · exact ht hc

theorem isLibpseudo_entry {t : Bytes} : IsLibpseudo (prelinkLibraries ++ t) ↔ IsLibpseudo t :=
  isLibpseudo_append_iff (by decide)

/-- The name of the variable is one more thing to keep. -/
theorem weight_entryTokens : weight tokens < weight (entryTokens (others tokens)) := by
  rw [← weight_others]
  cases hothers : others tokens with
  | nil => decide
  | cons u us =>
    have hu : ¬ IsLibpseudo u := @others_forall tokens u (by simp [hothers])
    rw [entryTokens, weight_cons hu, weight_cons (mt isLibpseudo_entry.mp hu), List.length_append]
    exact Nat.add_lt_add_right (Nat.add_lt_add_right (Nat.lt_add_of_pos_left (by decide)) 1) _

/-- The name of the variable goes with a library behind it. -/
theorem entry_loses_name {t : Bytes} (htokens : Tokens space (t :: tokens)) (ht : IsLibpseudo t) :
    removeMatches 0 maxRounds (listOf (entryTokens (t :: tokens))) ≠
      listOf (entryTokens (others (t :: tokens))) := by
  intro h
  obtain ⟨us, hus, heq, hle⟩ := removeMatches_weight maxRounds (tokens_entryTokens htokens)
  rw [heq] at h
  have hnonempty : listOf (entryTokens (others (t :: tokens))) ≠ [] := by
    rw [listOf_entryTokens]
    exact List.append_ne_nil_of_left_ne_nil (by decide) _
  rw [eq_of_listOf_eq hus (tokens_entryTokens (tokens_others htokens)) hnonempty h,
    others_cons_lib ht] at hle
  have hlib : weight (entryTokens (t :: tokens)) = weight tokens :=
    weight_cons_lib (isLibpseudo_entry.mpr ht)
  exact absurd (weight_entryTokens.trans_le (hle.trans hlib.le)) (Nat.lt_irrefl _)

theorem atTheEnds_entryTokens {t : Bytes} (ht : ¬ IsLibpseudo t) :
    AtTheEnds maxRounds (entryTokens (t :: tokens)) ↔
      ∀ u ∈ (t :: tokens).dropLast, ¬ IsLibpseudo u := by
  have hfirst : ¬ IsLibpseudo (prelinkLibraries ++ t) := mt isLibpseudo_entry.mp ht
  rcases exists_first_library tokens with hnone | ⟨as, lib, bs, rfl, has, hlib⟩
  · refine iff_of_true (atTheEnds_of_forall (List.forall_mem_cons.mpr ⟨hfirst, hnone⟩)) ?_
    intro u hu
    have hall : ∀ v ∈ t :: tokens, ¬ IsLibpseudo v := List.forall_mem_cons.mpr ⟨ht, hnone⟩
    exact hall u (List.dropLast_subset _ hu)
  · have hends : AtTheEnds maxRounds (entryTokens (t :: (as ++ lib :: bs))) ↔ bs = [] :=
      @atTheEnds_append ((prelinkLibraries ++ t) :: as) bs lib _
        (List.forall_mem_cons.mpr ⟨hfirst, has⟩) (List.cons_ne_nil _ _) hlib
    rw [hends, ← List.cons_append]
    cases bs with
    | nil =>
      rw [List.dropLast_concat]
      exact iff_of_true rfl (List.forall_mem_cons.mpr ⟨ht, has⟩)
    | cons b bs =>
      refine iff_of_false (List.cons_ne_nil b bs) fun h => h lib ?_ hlib
      rw [List.dropLast_append_of_ne_nil (List.cons_ne_nil _ _)]
      exact List.mem_append_right _ (by simp)

/-- The entry, whose first token has to stay whatever it is. -/
theorem withoutLibpseudo_entry (htokens : Tokens space tokens) (hne : ∀ t ∈ tokens, t ≠ []) :
    withoutLibpseudo (prelinkLibraries ++ listOf tokens) =
        prelinkLibraries ++ listOf (others tokens) ↔
      (∀ t ∈ tokens.head?, ¬ IsLibpseudo t) ∧ ∀ t ∈ tokens.dropLast, ¬ IsLibpseudo t := by
  have hskip : withoutLibpseudo (prelinkLibraries ++ listOf tokens) =
      removeMatches 0 maxRounds (listOf (entryTokens tokens)) := by
    have hhead : ¬ ((prelinkLibraries ++ listOf tokens).head? = some equals ∨
        (prelinkLibraries ++ listOf tokens).head? = some space) := by
      rintro (h | h) <;> cases h
    rw [listOf_entryTokens, withoutLibpseudo, if_neg hhead]
  rw [hskip, ← listOf_entryTokens]
  cases tokens with
  | nil =>
    refine iff_of_true (removeMatches_none 0 _ (by decide) (by decide)) (by simp)
  | cons t tokens =>
    rcases Classical.em (IsLibpseudo t) with ht | ht
    · exact iff_of_false (entry_loses_name htokens ht) fun h => h.1 t rfl ht
    · have hothers : entryTokens (others (t :: tokens)) = others (entryTokens (t :: tokens)) := by
        rw [others_cons ht, entryTokens, entryTokens, others_cons (mt isLibpseudo_entry.mp ht)]
      have hne' : ∀ u ∈ entryTokens (t :: tokens), u ≠ [] := by
        refine List.forall_mem_cons.mpr
          ⟨List.append_ne_nil_of_left_ne_nil (by decide) _, fun u hu => hne u ?_⟩
        exact List.mem_cons_of_mem t hu
      rw [hothers, removeMatches_zero_iff maxRounds (tokens_entryTokens htokens) hne',
        atTheEnds_entryTokens ht,
        and_iff_right (show ∀ u ∈ (t :: tokens).head?, ¬ IsLibpseudo u by simpa using ht)]

theorem dropEntry_other {entry : Bytes} (h : ¬ prelinkLibraries <+: entry) :
    dropEntry entry = [entry] :=
  if_neg (mt List.isPrefixOf_iff_prefix.mp h)

theorem pseudoDropenvp_others {envp : List Bytes} (h : ∀ e ∈ envp, ¬ prelinkLibraries <+: e) :
    pseudoDropenvp envp = envp := by
  induction envp with
  | nil => rfl
  | cons e envp ih =>
    obtain ⟨he, hrest⟩ := List.forall_mem_cons.mp h
    rw [pseudoDropenvp, List.flatMap_cons, dropEntry_other he]
    exact congrArg (e :: ·) (ih hrest)

/-- What the loop of `pseudo_dropenvp` makes of the entry. -/
theorem dropEntry_iff (hne : ∀ t ∈ tokens, t ≠ []) :
    dropEntry (prelinkLibraries ++ listOf tokens) =
        (if others tokens = [] then [] else [prelinkLibraries ++ listOf (others tokens)]) ↔
      withoutLibpseudo (prelinkLibraries ++ listOf tokens) =
        prelinkLibraries ++ listOf (others tokens) := by
  have hlist : listOf (others tokens) = [] ↔ others tokens = [] := by
    constructor
    · intro h
      by_contra hothers
      exact listOf_ne_nil (fun t ht => hne t (List.mem_of_mem_filter ht)) hothers h
    · intro h
      rw [h]
      rfl
  unfold dropEntry
  rw [if_pos (List.isPrefixOf_iff_prefix.mpr (List.prefix_append _ _))]
  constructor
  · intro h
    split at h
    · rename_i hempty
      split at h
      · rename_i hothers
        rw [hempty, hlist.mpr hothers, List.append_nil]
      · cases h
    · split at h
      · cases h
      · exact (List.cons.inj h).1
  · intro h
    rw [h]
    by_cases hothers : others tokens = []
    · rw [hlist.mpr hothers, List.append_nil, if_pos rfl, if_pos hothers]
    · rw [if_neg hothers, if_neg]
      intro heq
      exact hothers (hlist.mp (List.append_right_eq_self.mp heq))

end Values

end LibpseudoLemmas

open LibpseudoLemmas

/-- What `pseudo_dropenvp` should do with an entry for these tokens: the entry stays for the others,
unless there are none, and so do all other entries. -/
def DropsLibpseudo (tokens : List Bytes) : Prop :=
  ∀ before after : List Bytes, (∀ e ∈ before ++ after, ¬ prelinkLibraries <+: e) →
    pseudoDropenvp (before ++ (prelinkLibraries ++ listOf tokens) :: after) =
      before ++ (if others tokens = [] then [] else [prelinkLibraries ++ listOf (others tokens)]) ++
        after

/-- When exactly libpseudo is taken out of a value, and out of an entry, and nothing else is. -/
theorem withoutLibpseudo_iff (tokens : List Bytes) (htokens : Joined.Tokens space tokens)
    (hne : ∀ t ∈ tokens, t ≠ []) :
    (pseudoDropenv (some (listOf tokens)) = some (listOf (others tokens)) ↔
      if (listOf tokens).head? = some equals then Between maxRounds tokens
      else AtTheEnds maxRounds tokens) ∧
    (withoutLibpseudo (prelinkLibraries ++ listOf tokens) =
        prelinkLibraries ++ listOf (others tokens) ↔
      (∀ t ∈ tokens.head?, ¬ IsLibpseudo t) ∧ ∀ t ∈ tokens.dropLast, ¬ IsLibpseudo t) ∧
    (DropsLibpseudo tokens ↔
      (∀ t ∈ tokens.head?, ¬ IsLibpseudo t) ∧ ∀ t ∈ tokens.dropLast, ¬ IsLibpseudo t) := by
  have hentry := withoutLibpseudo_entry htokens hne
  have hdrop := dropEntry_iff hne
  refine ⟨?_, hentry, ?_⟩
  · rw [← withoutLibpseudo_value htokens hne]
    exact ⟨Option.some.inj, congrArg some⟩
  · rw [← hentry, ← hdrop]
    constructor
    · intro h
      have hone := h [] [] (fun _ he => (by cases he))
      rw [List.nil_append, List.nil_append, List.append_nil, pseudoDropenvp,
        List.flatMap_singleton] at hone
      exact hone
    · intro h before after hothers
      obtain ⟨hbefore, hafter⟩ := List.forall_mem_append.mp hothers
      have hb := pseudoDropenvp_others hbefore
      have ha := pseudoDropenvp_others hafter
      unfold pseudoDropenvp at hb ha ⊢
      rw [List.flatMap_append, List.flatMap_cons, hb, ha, h, List.append_assoc]

/-- `a`. -/
def exToken : Bytes := ascii ['a']

/-- The value `libpseudo.so a libpseudo.so` loses both libraries. -/
theorem withoutLibpseudo_iff_both :
    pseudoDropenv (some (listOf [libpseudoName, exToken, libpseudoName])) =
      some (listOf (others [libpseudoName, exToken, libpseudoName])) :=
  (withoutLibpseudo_iff [libpseudoName, exToken, libpseudoName] (by decide) (by decide)).1.mpr
    (by decide)

/-- `a libpseudo.so a` becomes `aa`, and `LD_PRELOAD=libpseudo.so` an entry without a name. -/
theorem withoutLibpseudo_merges :
    pseudoDropenv (some (listOf [exToken, libpseudoName, exToken])) ≠
        some (listOf [exToken, exToken]) ∧
      pseudoDropenvp [prelinkLibraries ++ listOf [libpseudoName]] = [[]] := by
  constructor
  · decide
  · decide

end Pseudo
