import Pseudo.FixPath
import Pseudo.Library.Resolve

/-!
# The text of a path

Canonical paths as lists of names and as texts. `text` writes a slash before each name, so that
the root of the file system is the empty text, as in the buffer of `pseudo_fix_path`. The pieces
that `pseudo_append_elements` takes off a path are its components (`elements_link` for the
contents of a link, `elements_path` for an argument with trailing slashes).
-/

namespace Pseudo

/-! ## 1. Names and texts -/

/-- A name as a directory holds it. -/
structure PlainName (n : Bytes) : Prop where
  ne_nil : n ≠ []
  ne_dot : n ≠ [dot]
  ne_dots : n ≠ [dot, dot]
  no_slash : slash ∉ n

instance (n : Bytes) : Decidable (PlainName n) :=
  decidable_of_iff (n ≠ [] ∧ n ≠ [dot] ∧ n ≠ [dot, dot] ∧ slash ∉ n)
    ⟨fun ⟨h, h', h'', hs⟩ => ⟨h, h', h'', hs⟩, fun ⟨h, h', h'', hs⟩ => ⟨h, h', h'', hs⟩⟩

/-- A list of names: the canonical form of an absolute path. -/
def Plain (p : List Bytes) : Prop := ∀ n ∈ p, PlainName n

instance (p : List Bytes) : Decidable (Plain p) := inferInstanceAs (Decidable (∀ n ∈ p, _))

/-- The text of a canonical path without trailing slash. -/
def text (p : List Bytes) : Bytes := p.flatMap (slash :: ·)

/-- The text of a canonical path, `/` for the root. -/
def dirText (p : List Bytes) : Bytes := if p = [] then [slash] else text p

theorem plain_append {p q : List Bytes} : Plain (p ++ q) ↔ Plain p ∧ Plain q := by
  simp only [Plain, List.mem_append]
  constructor
  · exact fun h => ⟨fun n hn => h n (.inl hn), fun n hn => h n (.inr hn)⟩
  · rintro ⟨hp, hq⟩ n (hn | hn)
    · exact hp n hn
    · exact hq n hn

theorem plain_singleton {n : Bytes} : Plain [n] ↔ PlainName n := by simp [Plain]

theorem Plain.dropLast {p : List Bytes} (h : Plain p) : Plain p.dropLast :=
  fun n hn => h n (List.dropLast_subset p hn)

@[simp] theorem text_nil : text [] = [] := rfl

@[simp] theorem text_append (p q : List Bytes) : text (p ++ q) = text p ++ text q :=
  List.flatMap_append

@[simp] theorem text_singleton (n : Bytes) : text [n] = slash :: n := by simp [text]

theorem text_cons (n : Bytes) (p : List Bytes) : text (n :: p) = slash :: n ++ text p := rfl

theorem text_ne_nil {p : List Bytes} (h : p ≠ []) : text p ≠ [] := by
  cases p with
  | nil => exact absurd rfl h
  | cons n p => simp [text_cons]

theorem one_lt_text_length {p : List Bytes} (hp : Plain p) (h : p ≠ []) :
    1 < (text p).length := by
  cases p with
  | nil => exact absurd rfl h
  | cons n p =>
    have hn := List.length_pos_iff.mpr (hp n (by simp)).ne_nil
    simp only [text_cons, List.cons_append, List.length_cons, List.length_append]
    omega

/-- The lengths of texts compare as the lists do. -/
theorem text_length_le_iff {root p : List Bytes} (h : root <+: p) :
    (text p).length ≤ (text root).length ↔ p.length ≤ root.length := by
  obtain ⟨rest, rfl⟩ := h
  cases rest with
  | nil => simp
  | cons n rest =>
    simp only [text_append, text_cons, List.length_append, List.length_cons]
    omega

/-- A text splits at its slashes into its names, behind the empty piece before the first
slash. -/
theorem splitOn_text {p : List Bytes} (h : ∀ n ∈ p, slash ∉ n) :
    (text p).splitOn slash = [] :: p := by
  induction p with
  | nil => rfl
  | cons n p ih =>
    have hrest := ih fun m hm => h m (List.mem_cons_of_mem n hm)
    have hn : slash ∉ n := h n (by simp)
    rw [text_cons, List.cons_append, List.splitOn_cons_eq_if_modifyHead]
    simp only [beq_self_eq_true, if_true, List.cons.injEq, true_and]
    cases p with
    | nil => simpa using List.splitOn_eq_singleton hn
    | cons m p =>
      rw [text_cons, List.cons_append, List.splitOn_cons_eq_if_modifyHead] at hrest
      simp only [beq_self_eq_true, if_true, List.cons.injEq, true_and] at hrest
      rw [text_cons, List.cons_append, List.splitOn_append_cons_self_of_not_mem hn, hrest]

theorem Plain.no_slash {p : List Bytes} (h : Plain p) : ∀ n ∈ p, slash ∉ n :=
  fun n hn => (h n hn).no_slash

theorem text_injective {p q : List Bytes} (hp : Plain p) (hq : Plain q)
    (h : text p = text q) : p = q := by
  have hs := splitOn_text hp.no_slash
  rw [h, splitOn_text hq.no_slash] at hs
  exact (List.cons.inj hs).2.symm

/-- No name is empty, so a text does not end in a slash. -/
theorem text_ne_append_slash {p : List Bytes} (hp : Plain p) (s : Bytes) :
    text p ≠ s ++ [slash] := by
  intro h
  have hsplit := splitOn_text hp.no_slash
  rw [h, List.splitOn_append_cons_self, List.splitOn_nil] at hsplit
  cases hs : s.splitOn slash with
  | nil => exact List.splitOn_ne_nil slash s hs
  | cons first rest =>
    rw [hs, List.cons_append, List.cons.injEq] at hsplit
    exact (hp [] (by rw [← hsplit.2]; simp)).ne_nil rfl

/-- The step back over the last name. -/
theorem backtrack_text {root p : List Bytes} {n : Bytes} (hroot : root <+: p)
    (hn : slash ∉ n) : backtrack (text root).length (text (p ++ [n])) = text p := by
  obtain ⟨rest, rfl⟩ := hroot
  have hkeep : ∀ b ∈ n.reverse, decide (b ≠ slash) = true := by
    intro b hb
    rw [decide_eq_true_eq]
    rintro rfl
    exact hn (List.mem_reverse.mp hb)
  simp only [backtrack, text_append, text_singleton, List.append_assoc, List.take_left,
    List.drop_left, List.reverse_append, List.reverse_cons]
  rw [List.dropWhile_append_of_pos hkeep]
  simp

/-! ## 2. Components -/

/-- The components among the pieces between slashes: a slash at the end adds none. -/
def components : List Bytes → List Bytes
  | [] => []
  | [s] => if s = [] then [] else [s]
  | s :: rest => s :: components rest

/-- Each component with a flag, which is `last` for the last one. -/
def flag (last : Bool) : List Bytes → List (Bytes × Bool)
  | [] => []
  | [s] => [(s, last)]
  | s :: rest => (s, false) :: flag last rest

/-- What a component asks for. -/
def toStep (element : Bytes) : Resolve.Step Bytes :=
  if element = [] ∨ element = [dot] then .stay
  else if element = [dot, dot] then .up
  else .down element

theorem PlainName.toStep {n : Bytes} (h : PlainName n) : Pseudo.toStep n = .down n := by
  simp [Pseudo.toStep, h.ne_nil, h.ne_dot, h.ne_dots]

/-- A component asks to stay, to go up, or for a name. -/
theorem toStep_cases {element : Bytes} (hslash : slash ∉ element) :
    (element = [] ∨ element = [dot]) ∧ toStep element = .stay ∨
      element = [dot, dot] ∧ toStep element = .up ∨
      PlainName element ∧ toStep element = .down element := by
  unfold toStep
  split
  · rename_i hdot
    exact .inl ⟨hdot, rfl⟩
  · rename_i hdot
    rw [not_or] at hdot
    split
    · rename_i hdots
      exact .inr (.inl ⟨hdots, rfl⟩)
    · rename_i hdots
      exact .inr (.inr ⟨⟨hdot.1, hdot.2, hdots, hslash⟩, rfl⟩)

/-- The steps that a path asks for. -/
def pathSteps (path : Bytes) : List (Resolve.Step Bytes) :=
  (components (path.splitOn slash)).map toStep

/-- The contents of a link as a target. -/
def parseLink (link : Bytes) : Resolve.Target Bytes :=
  { absolute := link.head? = some slash, steps := pathSteps link }

theorem components_of_ne_nil {ps : List Bytes} (h : ∀ s ∈ ps, s ≠ []) : components ps = ps := by
  induction ps with
  | nil => rfl
  | cons s ps ih =>
    cases ps with
    | nil => simp [components, h s (by simp)]
    | cons t ps => simpa [components] using ih fun u hu => h u (List.mem_cons_of_mem s hu)

theorem components_subset (ps : List Bytes) : components ps ⊆ ps := by
  induction ps with
  | nil => simp [components]
  | cons s ps ih =>
    cases ps with
    | nil =>
      simp only [components]
      split <;> simp
    | cons t ps => exact List.cons_subset_cons s ih

/-- The steps of a canonical text: the empty piece before the first slash, and its names. -/
theorem pathSteps_text {p : List Bytes} (hp : Plain p) (hne : p ≠ []) :
    pathSteps (text p) = .stay :: p.map .down := by
  have hnames : components p = p := components_of_ne_nil fun n hn => (hp n hn).ne_nil
  have hall : components ([] :: p) = [] :: p := by
    cases p with
    | nil => exact absurd rfl hne
    | cons n p => simpa [components] using hnames
  rw [pathSteps, splitOn_text hp.no_slash, hall, List.map_cons]
  congr 1
  exact List.map_congr_left fun n hn => (hp n hn).toStep

theorem no_slash_of_mem_splitOn {path s : Bytes} (h : s ∈ path.splitOn slash) : slash ∉ s := by
  induction path generalizing s with
  | nil => simp_all
  | cons b path ih =>
    rw [List.splitOn_cons_eq_if_modifyHead] at h
    cases hb : b == slash with
    | true =>
      rw [if_pos hb] at h
      cases h with
      | head => simp
      | tail _ h => exact ih h
    | false =>
      rw [if_neg (by simp [hb])] at h
      cases hsplit : path.splitOn slash with
      | nil => exact absurd hsplit (List.splitOn_ne_nil slash path)
      | cons t rest =>
        rw [hsplit, List.modifyHead_cons] at h
        cases h with
        | head =>
          have ht := ih (by rw [hsplit]; simp : t ∈ path.splitOn slash)
          have hne : b ≠ slash := by simpa using hb
          simp [ht, Ne.symm hne]
        | tail _ h => exact ih (by rw [hsplit]; exact List.mem_cons_of_mem t h)

theorem no_slash_of_mem_components {path s : Bytes}
    (h : s ∈ components (path.splitOn slash)) : slash ∉ s :=
  no_slash_of_mem_splitOn (components_subset _ h)

/-! ## 3. The elements that are taken off a path -/

theorem flag_false (ps : List Bytes) : flag false ps = ps.map fun s => (s, false) := by
  induction ps with
  | nil => rfl
  | cons s ps ih =>
    cases ps with
    | nil => rfl
    | cons t ps => simpa [flag] using ih

theorem flag_and (last leaveLast : Bool) (ps : List Bytes) :
    (flag last ps).map (fun e => (e.1, e.2 && leaveLast)) = flag (last && leaveLast) ps := by
  induction ps with
  | nil => rfl
  | cons s ps ih =>
    cases ps with
    | nil => rfl
    | cons t ps => simpa [flag] using ih

/-- The elements are the components when the length covers the path. -/
theorem elements_fst {ps : List Bytes} {elen : Nat}
    (h : ([slash].intercalate ps).length ≤ elen) :
    (elements elen ps).map Prod.fst = components ps := by
  induction ps generalizing elen with
  | nil => cases elen <;> rfl
  | cons s ps ih =>
    cases ps with
    | nil =>
      cases elen with
      | zero =>
        have hs : s = [] := by simpa [List.intercalate] using h
        simp [elements, components, hs]
      | succ elen => cases s <;> simp [elements, components]
    | cons t ps =>
      rw [List.intercalate_cons_cons] at h
      simp only [List.length_append, List.length_singleton] at h
      cases elen with
      | zero => omega
      | succ elen =>
        have hrest := @ih (elen - s.length) (by omega)
        simp [elements, components, hrest]

/-- Without an empty piece at the end every piece is an element, and the last one ends with the
path. -/
theorem elements_flag {ps : List Bytes} {elen : Nat} (hlast : ps.getLast? ≠ some [])
    (h : ([slash].intercalate ps).length ≤ elen) :
    components ps = ps ∧ elements elen ps = flag true ps := by
  induction ps generalizing elen with
  | nil => cases elen <;> exact ⟨rfl, rfl⟩
  | cons s ps ih =>
    cases ps with
    | nil =>
      have hs : s ≠ [] := by simpa using hlast
      cases elen with
      | zero => exact absurd (by simpa [List.intercalate] using h) hs
      | succ elen => simp [elements, components, flag, hs]
    | cons t ps =>
      rw [List.intercalate_cons_cons] at h
      simp only [List.length_append, List.length_singleton] at h
      cases elen with
      | zero => omega
      | succ elen =>
        obtain ⟨hcomp, helem⟩ := @ih (elen - s.length) (by simpa using hlast) (by omega)
        simp [elements, components, flag, hcomp, helem]

/-- Behind a path that is followed by slashes, no element ends with the string. -/
theorem elements_trailing {ps : List Bytes} (hne : ps ≠ []) (hlast : ps.getLast? ≠ some [])
    (k : Nat) :
    elements ([slash].intercalate ps).length (ps ++ List.replicate (k + 1) []) =
      flag false ps := by
  induction ps with
  | nil => exact absurd rfl hne
  | cons s ps ih =>
    cases ps with
    | nil =>
      have hs : s ≠ [] := by simpa using hlast
      cases s with
      | nil => exact absurd rfl hs
      | cons b s => simp [List.intercalate, List.replicate_succ, elements, flag]
    | cons t ps =>
      have hlen : ([slash].intercalate (s :: t :: ps)).length =
          s.length + ([slash].intercalate (t :: ps)).length + 1 := by
        rw [List.intercalate_cons_cons]
        simp only [List.length_append, List.length_singleton]
        omega
      rw [hlen, List.cons_append, List.cons_append, elements, ← List.cons_append]
      · rw [Nat.add_sub_cancel_left, ih (by simp) (by simpa using hlast)]
        rfl
      · simp

theorem getLast_splitOn {t : Bytes} (h : (t.splitOn slash).getLast? = some []) :
    t = [] ∨ t.getLast? = some slash := by
  induction t with
  | nil => exact .inl rfl
  | cons b t ih =>
    right
    rw [List.splitOn_cons_eq_if_modifyHead] at h
    cases hsplit : t.splitOn slash with
    | nil => exact absurd hsplit (List.splitOn_ne_nil slash t)
    | cons s rest =>
      rw [hsplit] at h ih
      cases hb : b == slash with
      | true =>
        rw [if_pos hb, List.getLast?_cons_cons] at h
        rcases ih h with rfl | hslash
        · simpa using hb
        · simp [List.getLast?_cons, hslash]
      | false =>
        rw [if_neg (by simp [hb]), List.modifyHead_cons] at h
        cases rest with
        | nil => simp at h
        | cons u rest =>
          rw [List.getLast?_cons_cons] at h
          rcases ih (by rwa [List.getLast?_cons_cons]) with rfl | hslash
          · simp at hsplit
          · simp [List.getLast?_cons, hslash]

/-- A path is its trimmed part and slashes. -/
theorem trimSlashes_append (path : Bytes) :
    ∃ k, path = trimSlashes path ++ List.replicate k slash ∧
      (trimSlashes path).getLast? ≠ some slash := by
  refine ⟨(path.reverse.takeWhile (· = slash)).length, ?_, ?_⟩
  · have hslashes : path.reverse.takeWhile (fun b => decide (b = slash)) =
        List.replicate (path.reverse.takeWhile (fun b => decide (b = slash))).length slash := by
      rw [List.eq_replicate_iff]
      exact ⟨rfl, fun b hb => by simpa using List.mem_takeWhile_imp hb⟩
    apply List.reverse_injective
    rw [trimSlashes, List.reverse_append, List.reverse_reverse, List.reverse_replicate,
      ← hslashes, List.takeWhile_append_dropWhile]
  · rw [trimSlashes, List.getLast?_reverse]
    intro h
    have := List.head?_dropWhile_not (fun b => decide (b = slash)) path.reverse
    rw [h] at this
    simp at this

theorem trimSlashes_of_length_le {path : Bytes}
    (h : path.length ≤ (trimSlashes path).length) : trimSlashes path = path := by
  obtain ⟨k, hpath, -⟩ := trimSlashes_append path
  have hk := congrArg List.length hpath
  simp only [List.length_append, List.length_replicate] at hk
  obtain rfl : k = 0 := by omega
  simpa using hpath.symm

theorem trimSlashes_text {p : List Bytes} (hp : Plain p) : trimSlashes (text p) = text p := by
  obtain ⟨k, hpath, -⟩ := trimSlashes_append (text p)
  cases k with
  | zero => simpa using hpath.symm
  | succ k =>
    rw [List.replicate_succ', ← List.append_assoc] at hpath
    exact absurd hpath (text_ne_append_slash hp _)

theorem splitOn_replicate (t : Bytes) (k : Nat) :
    (t ++ List.replicate (k + 1) slash).splitOn slash =
      t.splitOn slash ++ List.replicate (k + 1) [] := by
  induction k generalizing t with
  | zero =>
    rw [List.replicate_succ, List.splitOn_append_cons_self]
    rfl
  | succ k ih =>
    have hslashes := ih []
    rw [List.replicate_succ, List.splitOn_append_cons_self]
    simp only [List.nil_append, List.splitOn_nil] at hslashes
    rw [hslashes]
    rfl

/-- The contents of a link are appended component by component. -/
theorem elements_link (link : Bytes) :
    (elements link.length (link.splitOn slash)).map (fun e => (e.1, e.2 && false)) =
      flag false (components (link.splitOn slash)) := by
  have hlen : ([slash].intercalate (link.splitOn slash)).length ≤ link.length := by
    rw [List.intercalate_splitOn]
  rw [flag_false, ← elements_fst hlen, List.map_map]
  simp [Function.comp_def]

/-- The argument is appended component by component, and its last component is left alone only
without trailing slash. -/
theorem elements_path (path : Bytes) (leaveLast : Bool) :
    (elements (trimSlashes path).length (path.splitOn slash)).map
        (fun e => (e.1, e.2 && leaveLast)) =
      flag (decide ((trimSlashes path).length = path.length) && leaveLast)
        (components ((trimSlashes path).splitOn slash)) := by
  obtain ⟨k, hpath, hlast⟩ := trimSlashes_append path
  generalize trimSlashes path = t at hpath hlast ⊢
  subst hpath
  cases t with
  | nil => simp [elements, components, flag]
  | cons b t =>
    have hpieces : ((b :: t).splitOn slash).getLast? ≠ some [] := by
      intro h
      exact (getLast_splitOn h).elim (by simp) hlast
    have hlen : ([slash].intercalate ((b :: t).splitOn slash)).length = (b :: t).length := by
      rw [List.intercalate_splitOn]
    obtain ⟨hcomp, helem⟩ := elements_flag hpieces (Nat.le_of_eq hlen)
    rw [hcomp, ← flag_and]
    congr 1
    cases k with
    | zero => simpa using helem
    | succ k =>
      have := elements_trailing (List.splitOn_ne_nil _ _) hpieces k
      rw [splitOn_replicate, ← hlen, this]
      simp

end Pseudo
