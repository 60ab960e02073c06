import Mathlib.Computability.StateTransition
import Pseudo.Canonical

/-!
# Canonical paths and a second canonicalisation

`pseudo_fix_path` applied to its own result. `Pending` resolves a path with a list of elements
still to come: a link is replaced by its contents in front of what remains, and the first
component that is neither a directory nor a link blocks it.

* The code, which calls itself for the contents of a link, comes to where the list does, with what
  is left appended as it stands (`appendElements_arrives`). The invariant `Sits` says what a
  finished prefix looks like.
* The second run appends all of it as it stands and keeps one slash at the end
  (`Sits.pseudoFixPath_again`): slashes at the end of the argument are trimmed, but those at the
  end of a link's contents are not. So the result is a fixed point when no two slashes stay there
  (`fixPath_again_iff`), as when no contents of a link end in two (`not_doublesSlash`).
-/

namespace Pseudo

open StateTransition (Reaches)

/-! ## 1. Paths with elements still to come -/

/-- The root, which the buffer holds as the empty path, is a directory. -/
def Fs.isDir (fs : Fs) (path : Bytes) : Bool := path = [] || sIsdir (fs.mode path)

/-- Nothing lies below what is neither a directory nor a link: `lstat` fails there with `ENOTDIR`
or `ENOENT`. -/
def Fs.Closed (fs : Fs) : Prop :=
  ∀ p s, p ≠ [] → sIsdir (fs.mode p) = false → sIslnk (fs.mode p) = false →
    fs.lstat (p ++ slash :: s) = none

/-- The names reached, and the elements to come, each with the number of links that may still nest
in it. -/
structure Pending where
  names : List Bytes
  todo : List (Bytes × Nat)
  deriving DecidableEq, Repr

/-- The elements of a path. -/
def elementsOf (depth : Nat) (path : Bytes) : List (Bytes × Nat) :=
  (components (path.splitOn slash)).map fun e => (e, depth)

namespace Pending

/-- The next element, taken in the directory reached. There is no step without one, in what is no
directory, and at a link that nests too deep or cannot be read. -/
def step (fs : Fs) (pathMax : Nat) : Pending → Option Pending
  | ⟨_, []⟩ => none
  | ⟨names, (e, depth) :: rest⟩ =>
    if fs.isDir (text names) then
      match toStep e with
      | .stay => some ⟨names, rest⟩
      | .up => some ⟨names.dropLast, rest⟩
      | .down n =>
        if sIslnk (fs.mode (text (names ++ [n]))) then
          match depth, fs.readlink (text (names ++ [n])) with
          | depth + 1, some link =>
            let link := link.take pathMax
            some ⟨if link.head? = some slash then [] else names, elementsOf depth link ++ rest⟩
          | _, _ => none
        else some ⟨names ++ [n], rest⟩
    else none

/-- The first `n` states. -/
def trace (fs : Fs) (pathMax : Nat) : Nat → Pending → List Pending
  | 0, _ => []
  | n + 1, s => s :: (s.step fs pathMax).elim [] (trace fs pathMax n)

/-- The next element is a link that nests too deep or cannot be read. -/
def unfollowed (fs : Fs) : Pending → Bool
  | ⟨names, (e, depth) :: _⟩ =>
    fs.isDir (text names) && toStep e = .down e && sIslnk (fs.mode (text (names ++ [e]))) &&
      (depth = 0 || fs.readlink (text (names ++ [e])) = none)
  | _ => false

/-- An absolute path starts at the root, another one at the base. -/
def start (base : List Bytes) (path : Bytes) : Pending :=
  ⟨if path.head? = some slash then [] else base, elementsOf maxLinkRecursion (trimSlashes path)⟩

/-- No link on the way nests too deep, and none is unreadable. -/
def Clean (fs : Fs) (pathMax : Nat) (s : Pending) : Prop :=
  ∀ t, Reaches (step fs pathMax) s t → t.unfollowed fs = false

section Steps

variable {fs : Fs} {pathMax depth : Nat} {names : List Bytes} {e : Bytes}
  {rest : List (Bytes × Nat)} {s t : Pending}

theorem Clean.of_reaches (h : Clean fs pathMax s) (hst : Reaches (step fs pathMax) s t) :
    Clean fs pathMax t :=
  fun u htu => h u (hst.trans htu)

theorem step_stay (hdir : fs.isDir (text names) = true) (he : toStep e = .stay) :
    step fs pathMax ⟨names, (e, depth) :: rest⟩ = some ⟨names, rest⟩ := by
  simp only [step, hdir, he, if_true]

theorem step_up (hdir : fs.isDir (text names) = true) (he : toStep e = .up) :
    step fs pathMax ⟨names, (e, depth) :: rest⟩ = some ⟨names.dropLast, rest⟩ := by
  simp only [step, hdir, he, if_true]

theorem step_down (hdir : fs.isDir (text names) = true) (he : PlainName e)
    (hlink : sIslnk (fs.mode (text (names ++ [e]))) = false) :
    step fs pathMax ⟨names, (e, depth) :: rest⟩ = some ⟨names ++ [e], rest⟩ := by
  simp only [step, hdir, he.toStep, hlink, if_true, Bool.false_eq_true, if_false]

theorem step_link {link : Bytes} (hdir : fs.isDir (text names) = true) (he : PlainName e)
    (hlink : sIslnk (fs.mode (text (names ++ [e]))) = true)
    (hread : fs.readlink (text (names ++ [e])) = some link) :
    step fs pathMax ⟨names, (e, depth + 1) :: rest⟩ =
      some ⟨if (link.take pathMax).head? = some slash then [] else names,
        elementsOf depth (link.take pathMax) ++ rest⟩ := by
  simp only [step, hdir, he.toStep, hlink, hread, if_true]

/-- What a link on the way allows. -/
theorem Clean.readable (h : Clean fs pathMax ⟨names, (e, depth) :: rest⟩)
    (hdir : fs.isDir (text names) = true) (he : PlainName e)
    (hlink : sIslnk (fs.mode (text (names ++ [e]))) = true) :
    ∃ d link, depth = d + 1 ∧ fs.readlink (text (names ++ [e])) = some link := by
  have hnot := h _ Relation.ReflTransGen.refl
  simp only [unfollowed, hdir, he.toStep, hlink, decide_true, Bool.and_self, Bool.true_and,
    Bool.or_eq_false_iff, decide_eq_false_iff_not] at hnot
  obtain ⟨d, hd⟩ := Nat.exists_eq_succ_of_ne_zero hnot.1
  obtain ⟨link, hread⟩ := Option.ne_none_iff_exists'.mp hnot.2
  exact ⟨d, link, hd, hread⟩

/-- Where it ends is determined. -/
theorem eq_of_reaches {u : Pending} (hst : Reaches (step fs pathMax) s t)
    (ht : step fs pathMax t = none) (hsu : Reaches (step fs pathMax) s u)
    (hu : step fs pathMax u = none) : t = u := by
  have hend : ∀ {a b : Pending}, Reaches (step fs pathMax) a b → step fs pathMax a = none →
      a = b := by
    intro a b hab ha
    rcases hab.cases_head with heq | ⟨c, hac, -⟩
    · exact heq
    · rw [ha] at hac
      exact absurd hac (by simp)
  rcases StateTransition.reaches_total hst hsu with htu | hut
  · exact hend htu ht
  · exact (hend hut hu).symm

/-- The first states are all there are when the steps do not leave them. -/
theorem mem_trace_of_reaches {n : Nat}
    (hn : ∀ t ∈ trace fs pathMax (n + 1) s, ∀ u ∈ step fs pathMax t, u ∈ trace fs pathMax (n + 1) s)
    (hst : Reaches (step fs pathMax) s t) : t ∈ trace fs pathMax (n + 1) s := by
  induction hst with
  | refl => exact List.mem_cons_self
  | tail _ hstep ih => exact hn _ ih _ hstep

theorem Clean.of_trace (n : Nat)
    (hn : ∀ t ∈ trace fs pathMax (n + 1) s, t.unfollowed fs = false ∧
      ∀ u ∈ step fs pathMax t, u ∈ trace fs pathMax (n + 1) s) : Clean fs pathMax s :=
  fun t hst => (hn t (mem_trace_of_reaches (fun t ht => (hn t ht).2) hst)).1

theorem step_blocked (h : fs.isDir (text s.names) = false) : step fs pathMax s = none := by
  obtain ⟨names, todo⟩ := s
  cases todo with
  | nil => rfl
  | cons e rest =>
    simp only [step]
    rw [if_neg (by simpa using h)]

end Steps

end Pending

/-! ## 2. What a finished path looks like -/

/-- Names in directories, none of which leads to a link. -/
structure Fs.Canonical (fs : Fs) (names : List Bytes) : Prop where
  plain : Plain names
  dirs : ∀ p n, p ++ [n] <+: names → fs.isDir (text p) = true
  not_link : ∀ p n, p ++ [n] <+: names → sIslnk (fs.mode (text (p ++ [n]))) = false

@[simp] theorem Fs.isDir_nil (fs : Fs) : fs.isDir [] = true := rfl

theorem Fs.isDir_of_ne_nil (fs : Fs) {path : Bytes} (h : path ≠ []) :
    fs.isDir path = sIsdir (fs.mode path) := by
  simp [Fs.isDir, h]

theorem text_eq_cons {ps : List Bytes} (h : ps ≠ []) : ∃ s, text ps = slash :: s := by
  cases ps with
  | nil => exact absurd rfl h
  | cons n ps => exact ⟨n ++ text ps, by simp [text_cons]⟩

namespace Fs.Canonical

variable {fs : Fs} {names : List Bytes} {n : Bytes}

theorem nil : fs.Canonical [] where
  plain := by simp [Plain]
  dirs p n h := by simp at h
  not_link p n h := by simp at h

theorem concat (h : fs.Canonical names) (hdir : fs.isDir (text names) = true)
    (hn : PlainName n) (hlink : sIslnk (fs.mode (text (names ++ [n]))) = false) :
    fs.Canonical (names ++ [n]) := by
  have hcases : ∀ p m, p ++ [m] <+: names ++ [n] → p = names ∧ m = n ∨ p ++ [m] <+: names := by
    intro p m hp
    rcases List.prefix_concat_iff.mp hp with heq | hp
    · exact .inl (List.append_singleton_inj.mp heq)
    · exact .inr hp
  refine ⟨plain_append.mpr ⟨h.plain, plain_singleton.mpr hn⟩, fun p m hp => ?_, fun p m hp => ?_⟩
  · rcases hcases p m hp with ⟨rfl, -⟩ | hp
    · exact hdir
    · exact h.dirs p m hp
  · rcases hcases p m hp with ⟨rfl, rfl⟩ | hp
    · exact hlink
    · exact h.not_link p m hp

theorem of_prefix {p : List Bytes} (h : fs.Canonical names) (hp : p <+: names) :
    fs.Canonical p :=
  ⟨fun n hn => h.plain n (hp.subset hn), fun q n hq => h.dirs q n (hq.trans hp),
    fun q n hq => h.not_link q n (hq.trans hp)⟩

theorem isDir_dropLast (h : fs.Canonical names) (hdir : fs.isDir (text names) = true) :
    fs.isDir (text names.dropLast) = true := by
  rcases List.eq_nil_or_concat names with rfl | ⟨p, n, rfl⟩
  · exact hdir
  · rw [List.concat_eq_append, List.dropLast_concat]
    exact h.dirs p n (by rw [List.concat_eq_append])

/-- What is no directory is no link either, so nothing below it is a directory. -/
theorem blocked_append (hfs : fs.Closed) (h : fs.Canonical names)
    (hblock : fs.isDir (text names) = false) (left : List Bytes) :
    fs.isDir (text (names ++ left)) = false := by
  rcases List.eq_nil_or_concat names with rfl | ⟨p, n, hnames⟩
  · simp at hblock
  · rw [List.concat_eq_append] at hnames
    have hne : text names ≠ [] := text_ne_nil (by simp [hnames])
    have hlink : sIslnk (fs.mode (text names)) = false := by
      rw [hnames]
      exact h.not_link p n (by rw [hnames])
    rcases eq_or_ne left [] with rfl | hleft
    · rwa [List.append_nil]
    · obtain ⟨s, hs⟩ := text_eq_cons hleft
      rw [Fs.isDir_of_ne_nil fs hne] at hblock
      rw [text_append, hs, Fs.isDir_of_ne_nil fs (by simp),
        Fs.mode_of_lstat (hfs (text names) s hne hblock hlink)]
      exact sIsdir_zero

end Fs.Canonical

/-- The buffer holds canonical names and, if these are blocked, the elements after them as they
stand. -/
structure Sits (fs : Fs) (pathMax : Nat) (w : Walk) (names left : List Bytes) : Prop where
  newpath : w.newpath = text (names ++ left)
  canonical : fs.Canonical names
  no_slash : ∀ e ∈ left, slash ∉ e
  mode : sIsdir w.mode = fs.isDir (text names)
  left_nil : fs.isDir (text names) = true → left = []
  room : names ++ left ≠ [] → w.newpath.length + 2 ≤ pathMax

section Simulation

variable {fs : Fs} {pathMax depth : Nat} {w w' : Walk} {names left : List Bytes} {e : Bytes}
  {rest : List (Bytes × Nat)} {expand : Option (Walk → Bytes → Option Walk)}

theorem Sits.appendElement_blocked (hfs : fs.Closed) (hw : Sits fs pathMax w names left)
    (hblock : fs.isDir (text names) = false) (he : slash ∉ e)
    (h : appendElement fs 0 pathMax pathMax expand w e false = some w') :
    Sits fs pathMax w' names (left ++ [e]) := by
  have hdir : sIsdir w.mode = false := hw.mode.trans hblock
  obtain ⟨hroom, rfl⟩ := appendElement_not_dir hdir h
  have hgrown : w.newpath ++ slash :: e = text (names ++ (left ++ [e])) := by
    rw [hw.newpath, ← List.append_assoc, text_append _ [e], text_singleton]
  refine ⟨hgrown, hw.canonical, ?_, ?_, ?_, ?_⟩
  · intro x hx
    rcases List.mem_append.mp hx with hx | hx
    · exact hw.no_slash x hx
    · rw [List.mem_singleton.mp hx]
      exact he
  · show sIsdir (fs.mode (w.newpath ++ slash :: e)) = _
    rw [← Fs.isDir_of_ne_nil fs (by simp), hgrown,
      hw.canonical.blocked_append hfs hblock (left ++ [e]), hblock]
  · intro hdir'
    rw [hblock] at hdir'
    cases hdir'
  · intro _
    show (w.newpath ++ slash :: e).length + 2 ≤ pathMax
    rw [List.length_append, List.length_cons]
    omega

/-- `..` in a directory. -/
theorem Sits.up (hw : Sits fs pathMax w names []) (hdir : fs.isDir (text names) = true) :
    Sits fs pathMax (if w.newpath.length ≤ 0 then w
      else { w with newpath := backtrack 0 w.newpath }) names.dropLast [] := by
  have hpath : w.newpath = text names := by simpa using hw.newpath
  rcases List.eq_nil_or_concat names with rfl | ⟨p, n, hnames⟩
  · rw [if_pos (by simp [hpath])]
    exact hw
  · rw [List.concat_eq_append] at hnames
    subst hnames
    have hn : slash ∉ n := (hw.canonical.plain n (by simp)).no_slash
    have hback : backtrack 0 (text (p ++ [n])) = text p :=
      @backtrack_text [] p n List.nil_prefix hn
    rw [if_neg (by simp [hpath]), List.dropLast_concat, hpath, hback]
    have hpdir : fs.isDir (text p) = true := hw.canonical.dirs p n List.prefix_rfl
    refine ⟨by simp, hw.canonical.of_prefix (List.prefix_append p [n]), by simp, ?_, fun _ => rfl,
      fun _ => ?_⟩
    · show sIsdir w.mode = _
      rw [hw.mode, hdir, hpdir]
    · have hroom := hw.room (by simp)
      rw [hpath, text_append, List.length_append] at hroom
      show (text p).length + 2 ≤ pathMax
      omega

/-- A name that is appended in a directory. -/
theorem Sits.down (hw : Sits fs pathMax w names []) (hdir : fs.isDir (text names) = true)
    (he : PlainName e) (hlink : sIslnk (fs.mode (text (names ++ [e]))) = false)
    (hlen : ¬ pathMax < w.newpath.length + e.length + 3) :
    Sits fs pathMax ⟨w.newpath ++ slash :: e, fs.mode (w.newpath ++ slash :: e)⟩
      (names ++ [e]) [] := by
  have hpath : w.newpath ++ slash :: e = text (names ++ [e]) := by simp [hw.newpath]
  refine ⟨by simpa using hpath, hw.canonical.concat hdir he hlink, by simp, ?_, fun _ => rfl,
    fun _ => ?_⟩
  · show sIsdir (fs.mode (w.newpath ++ slash :: e)) = _
    rw [hpath, Fs.isDir_of_ne_nil fs (text_ne_nil (by simp))]
  · show (w.newpath ++ slash :: e).length + 2 ≤ pathMax
    rw [List.length_append, List.length_cons]
    omega

/-- The buffer that the contents of a link are appended to. -/
theorem Sits.expandFrom (hw : Sits fs pathMax w names []) (hdir : fs.isDir (text names) = true)
    (link : Bytes) :
    Sits fs pathMax (expandFrom 0 w link) (if link.head? = some slash then [] else names) [] := by
  unfold Pseudo.expandFrom
  split
  · exact ⟨by simp, .nil, by simp, sIsdir_sIfdir, fun _ => rfl, fun h => absurd rfl h⟩
  · exact ⟨hw.newpath, hw.canonical, by simp, sIsdir_sIfdir.trans hdir.symm, fun _ => rfl,
      hw.room⟩

/-- From `s` the list comes to where the buffer is, with `rest` still to come. -/
def Arrives (fs : Fs) (pathMax : Nat) (s : Pending) (rest : List (Bytes × Nat)) (w : Walk) : Prop :=
  ∃ names left, Reaches (Pending.step fs pathMax) s ⟨names, left ++ rest⟩ ∧
    Sits fs pathMax w names (left.map Prod.fst)

theorem Arrives.of_step {s t : Pending} (hst : s.step fs pathMax = some t)
    (h : Arrives fs pathMax t rest w) : Arrives fs pathMax s rest w := by
  obtain ⟨names, left, hreach, hsits⟩ := h
  exact ⟨names, left, hreach.head hst, hsits⟩

/-- The step lemma: one element, if the contents of links arrive one level deeper. -/
theorem Sits.appendElement
    (hexpand : ∀ d w names link rest w', depth = d + 1 → Sits fs pathMax w names [] →
      Pending.Clean fs pathMax ⟨names, elementsOf d link ++ rest⟩ →
      appendElements fs 0 pathMax pathMax d w link link.length false = some w' →
      Arrives fs pathMax ⟨names, elementsOf d link ++ rest⟩ rest w')
    (hw : Sits fs pathMax w names []) (hdir : fs.isDir (text names) = true) (he : slash ∉ e)
    (hclean : Pending.Clean fs pathMax ⟨names, (e, depth) :: rest⟩)
    (h : appendElement fs 0 pathMax pathMax (expandLinks fs 0 pathMax pathMax depth) w e false =
      some w') :
    Arrives fs pathMax ⟨names, (e, depth) :: rest⟩ rest w' := by
  have hwdir : sIsdir w.mode = true := hw.mode.trans hdir
  rcases toStep_cases he with ⟨hstay, hstep⟩ | ⟨rfl, hstep⟩ | ⟨hname, hstep⟩
  · rw [appendElement_stay hwdir hstay] at h
    cases h
    exact .of_step (Pending.step_stay hdir hstep) ⟨names, [], .refl, hw⟩
  · rw [appendElement_up hwdir] at h
    cases h
    exact .of_step (Pending.step_up hdir hstep) ⟨names.dropLast, [], .refl, hw.up hdir⟩
  · have hlen : ¬ pathMax < w.newpath.length + e.length + 3 := by
      intro hlen
      rw [appendElement_tooLong hname hlen] at h
      cases h
    have hpath : w.newpath ++ slash :: e = text (names ++ [e]) := by simp [hw.newpath]
    cases hlink : sIslnk (fs.mode (text (names ++ [e]))) with
    | false =>
      rw [appendElement_down hname hlen (.inr (by rw [hpath, hlink]))] at h
      cases h
      exact .of_step (Pending.step_down hdir hname hlink)
        ⟨names ++ [e], [], .refl, hw.down hdir hname hlink hlen⟩
    | true =>
      obtain ⟨d, link, rfl, hread⟩ := hclean.readable hdir hname hlink
      have hnext := @Pending.step_link fs pathMax d names e rest link hdir hname hlink hread
      have hlink' : sIslnk (fs.mode (w.newpath ++ slash :: e)) = true := by rw [hpath, hlink]
      have hread' : fs.readlink (w.newpath ++ slash :: e) = some link := by rw [hpath, hread]
      rw [expandLinks, appendElement_readlink hwdir hname hlen hlink' hread'] at h
      exact .of_step hnext (hexpand d _ _ _ rest w' rfl (hw.expandFrom hdir _)
        (hclean.of_reaches (.single hnext)) h)

/-- The run lemma for the elements of one path, of which none is a link that stays. -/
theorem Sits.appendLoop (hfs : fs.Closed)
    (hexpand : ∀ d w names link rest w', depth = d + 1 → Sits fs pathMax w names [] →
      Pending.Clean fs pathMax ⟨names, elementsOf d link ++ rest⟩ →
      appendElements fs 0 pathMax pathMax d w link link.length false = some w' →
      Arrives fs pathMax ⟨names, elementsOf d link ++ rest⟩ rest w')
    {es : List (Bytes × Bool)} (left : List (Bytes × Nat)) (hes : ∀ e ∈ es, slash ∉ e.1)
    (hw : Sits fs pathMax w names (left.map Prod.fst))
    (hclean : Pending.Clean fs pathMax
      ⟨names, left ++ (es.map (fun e => (e.1, depth)) ++ rest)⟩)
    (h : appendLoop (Pseudo.appendElement fs 0 pathMax pathMax
      (expandLinks fs 0 pathMax pathMax depth)) false es w = some w') :
    Arrives fs pathMax ⟨names, left ++ (es.map (fun e => (e.1, depth)) ++ rest)⟩ rest w' := by
  induction es generalizing w names left with
  | nil =>
    cases h
    exact ⟨names, left, .refl, hw⟩
  | cons e es ih =>
    obtain ⟨he, hes⟩ := List.forall_mem_cons.mp hes
    rw [Pseudo.appendLoop, Bool.and_false] at h
    cases hnext : Pseudo.appendElement fs 0 pathMax pathMax
        (expandLinks fs 0 pathMax pathMax depth) w e.1 false with
    | none => simp [hnext] at h
    | some next =>
      simp only [hnext] at h
      cases hdir : fs.isDir (text names) with
      | false =>
        -- the element stays in the list, behind those that are left
        have hblocked := hw.appendElement_blocked hfs hdir he hnext
        have hmove : left ++ ((e :: es).map (fun e => (e.1, depth)) ++ rest) =
            (left ++ [(e.1, depth)]) ++ (es.map (fun e => (e.1, depth)) ++ rest) := by simp
        rw [hmove] at hclean ⊢
        exact ih _ hes (by simpa using hblocked) hclean h
      | true =>
        obtain rfl : left = [] := List.map_eq_nil_iff.mp (hw.left_nil hdir)
        obtain ⟨names', left', hreach, hsits⟩ := hw.appendElement hexpand hdir he hclean hnext
        obtain ⟨names'', left'', hreach', hsits'⟩ :=
          ih left' hes hsits (hclean.of_reaches hreach) h
        exact ⟨names'', left'', hreach.trans hreach', hsits'⟩

theorem elements_map_fst (path : Bytes) (elen : Nat) {ps : List Bytes}
    (h : (elements elen (path.splitOn slash)).map Prod.fst = ps) (depth : Nat) :
    (elements elen (path.splitOn slash)).map (fun e => (e.1, depth)) =
      ps.map fun e => (e, depth) := by
  rw [← h, List.map_map]
  rfl

/-- The code comes to where the list does. -/
theorem appendElements_arrives (hfs : fs.Closed) {path : Bytes} {elen : Nat} {ps : List Bytes}
    (hps : (elements elen (path.splitOn slash)).map Prod.fst = ps) (hslash : ∀ e ∈ ps, slash ∉ e)
    (hw : Sits fs pathMax w names [])
    (hclean : Pending.Clean fs pathMax ⟨names, ps.map (fun e => (e, depth)) ++ rest⟩)
    (h : appendElements fs 0 pathMax pathMax depth w path elen false = some w') :
    Arrives fs pathMax ⟨names, ps.map (fun e => (e, depth)) ++ rest⟩ rest w' := by
  induction depth generalizing w names path elen ps rest w' with
  | zero =>
    rw [appendElements_eq] at h
    rw [← elements_map_fst path elen hps] at hclean ⊢
    refine Sits.appendLoop hfs (fun d _ _ _ _ _ hd => by cases hd) [] ?_ hw hclean h
    exact fun e he => hslash e.1 (hps ▸ List.mem_map_of_mem he)
  | succ depth ih =>
    rw [appendElements_eq] at h
    rw [← elements_map_fst path elen hps] at hclean ⊢
    refine Sits.appendLoop hfs ?_ [] ?_ hw hclean h
    · intro d w names link rest w' hd hw hclean h
      cases hd
      have hlen : ([slash].intercalate (link.splitOn slash)).length ≤ link.length := by
        rw [List.intercalate_splitOn]
      exact ih (elements_fst hlen) (fun e he => no_slash_of_mem_components he) hw hclean h
    · exact fun e he => hslash e.1 (hps ▸ List.mem_map_of_mem he)

end Simulation

/-! ## 3. The second run -/

/-- The path with at most one slash at its end. -/
def oneSlash (path : Bytes) : Bytes :=
  if trailingSlash path then trimSlashes path ++ [slash] else path

/-- The path that a result stands for. -/
def Fixed.path (argument : Bytes) : Fixed → Option Bytes
  | .null => none
  | .same => some argument
  | .recorded path => some path
  | .built path => some path

/-- Canonicalising the absolute path gives it again, whatever the base. -/
def FixedPoint (fs : Fs) (pathMax : Nat) (path : Bytes) : Prop :=
  ∀ base baselen, (pseudoFixPath fs pathMax base path 0 baselen false).path path = some path

section Again

variable {fs : Fs} {pathMax : Nat} {w v : Walk} {names left : List Bytes} {e : Bytes}
  {expand : Option (Walk → Bytes → Option Walk)}

/-- What was appended once is appended again as it stands: in a directory it is a name and no
link, and after a blocked name everything is. -/
theorem Sits.appendElement_again (hfs : fs.Closed) (hw : Sits fs pathMax w names left)
    {p : List Bytes} (hp : p ++ [e] <+: names ++ left) (hv : v.newpath = text p)
    (hmode : sIsdir v.mode = fs.isDir (text p)) :
    Pseudo.appendElement fs 0 pathMax pathMax expand v e false =
      some ⟨text (p ++ [e]), fs.mode (text (p ++ [e]))⟩ := by
  have hgrown : text (p ++ [e]) = v.newpath ++ slash :: e := by
    rw [hv, text_append, text_singleton]
  have hlen : ¬ pathMax < v.newpath.length + e.length + 3 := by
    obtain ⟨rest, hrest⟩ := hp
    have hroom := hw.room (by simp [← hrest])
    rw [hw.newpath, ← hrest, text_append, hgrown] at hroom
    simp only [List.length_append, List.length_cons] at hroom
    omega
  rw [hgrown]
  rcases List.prefix_or_prefix_of_prefix hp (List.prefix_append names left) with hin | hin
  · have hname : PlainName e := hw.canonical.plain e (hin.subset (by simp))
    have hlink := hw.canonical.not_link p e hin
    exact appendElement_down hname hlen (.inr (by rw [← hgrown, hlink]))
  · rcases List.prefix_concat_iff.mp hin with heq | hin
    · have hname : PlainName e := hw.canonical.plain e (by simp [heq])
      have hlink := hw.canonical.not_link p e (by rw [heq])
      exact appendElement_down hname hlen (.inr (by rw [← hgrown, hlink]))
    · obtain ⟨left', rfl⟩ := hin
      rw [List.append_assoc, List.prefix_append_right_inj] at hp
      have hblock : fs.isDir (text names) = false := by
        cases hdir : fs.isDir (text names) with
        | false => rfl
        | true =>
          rw [hw.left_nil hdir] at hp
          simp at hp
      have hdir : sIsdir v.mode = false :=
        hmode.trans (hw.canonical.blocked_append hfs hblock left')
      rw [appendElement_not_dir_eq hdir, if_neg hlen]

theorem Sits.appendLoop_again (hfs : fs.Closed) (hw : Sits fs pathMax w names left)
    {p ps : List Bytes} (hp : p ++ ps <+: names ++ left) (hv : v.newpath = text p)
    (hmode : sIsdir v.mode = fs.isDir (text p)) :
    ∃ v', Pseudo.appendLoop (Pseudo.appendElement fs 0 pathMax pathMax expand) false
      (ps.map fun e => (e, false)) v = some v' ∧ v'.newpath = text (p ++ ps) := by
  induction ps generalizing p v with
  | nil => exact ⟨v, rfl, by simpa using hv⟩
  | cons e ps ih =>
    have hp' : p ++ [e] ++ ps <+: names ++ left := by simpa using hp
    have hstep : Pseudo.appendElement fs 0 pathMax pathMax expand v e false = some _ :=
      hw.appendElement_again hfs ((List.prefix_append (p ++ [e]) ps).trans hp') hv hmode
    obtain ⟨v', hloop, hnew⟩ := @ih ⟨text (p ++ [e]), fs.mode (text (p ++ [e]))⟩ (p ++ [e]) hp' rfl
      (Fs.isDir_of_ne_nil fs (text_ne_nil (by simp))).symm
    refine ⟨v', ?_, by simpa using hnew⟩
    rw [List.map_cons, Pseudo.appendLoop, Bool.false_and, hstep]
    exact hloop

/-- The pieces of a trimmed text are those of the text up to the last that is not empty. -/
theorem splitOn_trimSlashes {ps tail : List Bytes} (hps : ∀ e ∈ ps ++ tail, slash ∉ e)
    (htail : tail = [] ∨ tail = [[]]) (hne : trimSlashes (text (ps ++ tail)) ≠ []) :
    ∃ qs, qs <+: ps ∧ (trimSlashes (text (ps ++ tail))).splitOn slash = [] :: qs ∧
      trimSlashes (text (ps ++ tail)) = text qs := by
  obtain ⟨k, hpath, hlast⟩ := trimSlashes_append (text (ps ++ tail))
  generalize trimSlashes (text (ps ++ tail)) = t at hne hpath hlast ⊢
  have hpieces : t.splitOn slash ++ List.replicate k [] = [] :: (ps ++ tail) := by
    rw [← splitOn_text hps, hpath]
    cases k with
    | zero => simp
    | succ k => exact (splitOn_replicate t k).symm
  have hlast' : (t.splitOn slash).getLast? ≠ some [] :=
    fun h => (getLast_splitOn h).elim hne hlast
  cases hsplit : t.splitOn slash with
  | nil => exact absurd hsplit (List.splitOn_ne_nil slash t)
  | cons q qs =>
    rw [hsplit, List.cons_append, List.cons.injEq] at hpieces
    obtain ⟨rfl, hpieces⟩ := hpieces
    have hqs : qs <+: ps ++ tail := ⟨_, hpieces⟩
    have htext : t = text qs := by
      have hfree : ∀ e ∈ qs, slash ∉ e := fun e he => hps e (hqs.subset he)
      have hjoin : [slash].intercalate (t.splitOn slash) = t := List.intercalate_splitOn slash
      rw [← hjoin, hsplit, ← splitOn_text hfree, List.intercalate_splitOn]
    refine ⟨qs, ?_, rfl, htext⟩
    rcases htail with rfl | rfl
    · simpa using hqs
    · refine (List.prefix_concat_iff.mp hqs).resolve_left fun h => hlast' ?_
      rw [hsplit, h, ← List.cons_append, List.getLast?_concat]

/-- The flags say nothing when no last element is left alone. -/
theorem appendLoop_false {append : Walk → Bytes → Bool → Option Walk}
    (es : List (Bytes × Bool)) (w : Walk) :
    appendLoop append false es w =
      appendLoop append false ((es.map Prod.fst).map fun e => (e, false)) w := by
  induction es generalizing w with
  | nil => rfl
  | cons e es ih =>
    simp only [List.map_cons, appendLoop, Bool.and_false]
    cases append w e.1 false with
    | none => rfl
    | some next => exact ih next

theorem elements_path_fst (path : Bytes) :
    (elements (trimSlashes path).length (path.splitOn slash)).map Prod.fst =
      components ((trimSlashes path).splitOn slash) := by
  have h := congrArg (List.map Prod.fst) (elements_path path false)
  rw [Bool.and_false, flag_false, List.map_map, List.map_map] at h
  simpa [Function.comp_def] using h

theorem Sits.no_slash_append (hw : Sits fs pathMax w names left) {tail : List Bytes}
    (htail : tail = [] ∨ tail = [[]]) : ∀ e ∈ names ++ left ++ tail, slash ∉ e := by
  intro e he
  rcases List.mem_append.mp he with he | he
  · rcases List.mem_append.mp he with he | he
    · exact hw.canonical.plain.no_slash e he
    · exact hw.no_slash e he
  · rcases htail with rfl | rfl
    · simp at he
    · rw [List.mem_singleton.mp he]
      simp

/-- Appended again, the path is what it was without the slashes at its end. -/
theorem Sits.appendElements_again (hfs : fs.Closed) (hw : Sits fs pathMax w names left)
    {tail : List Bytes} (htail : tail = [] ∨ tail = [[]]) (depth : Nat) :
    ∃ v, appendElements fs 0 pathMax pathMax depth ⟨[], sIfdir⟩ (text (names ++ left ++ tail))
        (trimSlashes (text (names ++ left ++ tail))).length false = some v ∧
      v.newpath = trimSlashes (text (names ++ left ++ tail)) := by
  rw [appendElements_eq, appendLoop_false, elements_path_fst]
  cases ht : decide (trimSlashes (text (names ++ left ++ tail)) = []) with
  | true =>
    rw [of_decide_eq_true ht]
    exact ⟨⟨[], sIfdir⟩, rfl, rfl⟩
  | false =>
    have hne := of_decide_eq_false ht
    obtain ⟨qs, hqs, hsplit, htext⟩ := splitOn_trimSlashes (hw.no_slash_append htail) htail hne
    have hlast : (trimSlashes (text (names ++ left ++ tail))).getLast? ≠ some slash := by
      obtain ⟨_, _, hlast⟩ := trimSlashes_append (text (names ++ left ++ tail))
      exact hlast
    have hcomp : components ([] :: qs) = [] :: qs := by
      rw [← hsplit]
      refine (elements_flag (fun h => (getLast_splitOn h).elim hne hlast) (Nat.le_refl _)).1
    have hagain : ∃ v, Pseudo.appendLoop (Pseudo.appendElement fs 0 pathMax pathMax
        (expandLinks fs 0 pathMax pathMax depth)) false (qs.map fun e => (e, false))
        ⟨[], sIfdir⟩ = some v ∧ v.newpath = text ([] ++ qs) :=
      hw.appendLoop_again hfs (show [] ++ qs <+: names ++ left from hqs) rfl sIsdir_sIfdir
    obtain ⟨v, hloop, hnew⟩ := hagain
    refine ⟨v, ?_, hnew.trans htext.symm⟩
    rw [hsplit, hcomp, List.map_cons, Pseudo.appendLoop, Bool.false_and,
      appendElement_stay sIsdir_sIfdir (.inl rfl)]
    exact hloop

/-- Canonicalised again, the path keeps one of the slashes at its end. -/
theorem Sits.pseudoFixPath_again (hfs : fs.Closed) (hw : Sits fs pathMax w names left)
    {tail : List Bytes} (htail : tail = [] ∨ tail = [[]]) (hne : names ++ left ++ tail ≠ [])
    (base : Bytes) (baselen : Nat) :
    pseudoFixPath fs pathMax base (text (names ++ left ++ tail)) 0 baselen false =
      if pathMax ≤ (text (names ++ left ++ tail)).length + skipSlash baselen then .same
      else .built (oneSlash (text (names ++ left ++ tail))) := by
  have habs : (text (names ++ left ++ tail)).head? = some slash := by
    cases hps : names ++ left ++ tail with
    | nil => exact absurd hps hne
    | cons x ps => simp [text_cons]
  obtain ⟨v, happ, hnew⟩ := hw.appendElements_again hfs htail maxLinkRecursion
  generalize text (names ++ left ++ tail) = r at habs happ hnew ⊢
  have hstart : startPath base r (skipSlash 0) (skipSlash baselen) = [] := by
    simp [startPath, skipSlash, habs]
  simp only [pseudoFixPath, hstart]
  split
  · rfl
  · rename_i hlen
    rw [if_neg (by simp)]
    simp only [skipSlash, Nat.zero_ne_one, if_false] at happ ⊢
    rw [happ]
    obtain ⟨k, hr, -⟩ := trimSlashes_append r
    have hrlen := congrArg List.length hr
    simp only [List.length_append, List.length_replicate] at hrlen
    simp only [hnew, oneSlash, trailingSlash, decide_eq_true_eq]
    cases k with
    | zero =>
      have htrim : trimSlashes r = r := by simpa using hr.symm
      have hrne : r.length ≠ 0 := by
        intro h
        simp [List.length_eq_zero_iff.mp h] at habs
      rw [htrim, if_neg fun h => h.1.elim hrne (Nat.lt_irrefl _), if_neg (Nat.lt_irrefl _)]
    | succ k =>
      rw [if_pos (by omega), if_pos (by omega)]

end Again

theorem oneSlash_eq_iff (path : Bytes) : oneSlash path = path ↔ ¬ [slash, slash] <:+ path := by
  obtain ⟨k, hpath, hlast⟩ := trimSlashes_append path
  simp only [oneSlash, trailingSlash, decide_eq_true_eq]
  generalize trimSlashes path = t at hpath hlast ⊢
  subst hpath
  rcases k with - | - | k
  · refine iff_of_true (by simp) ?_
    rintro ⟨u, hu⟩
    apply hlast
    rw [← List.append_nil t, ← List.replicate_zero (a := slash), ← hu]
    simp
  · refine iff_of_true (by simp) ?_
    rintro ⟨u, hu⟩
    have ht : t = u ++ [slash] := by
      have hu' : t ++ [slash] = u ++ [slash] ++ [slash] := by simpa using hu.symm
      exact List.append_cancel_right hu'
    simp [ht] at hlast
  · refine iff_of_false ?_ ?_
    · rw [if_pos (by simp)]
      intro h
      have := congrArg List.length h
      simp at this
    · refine not_not_intro ⟨t ++ List.replicate k slash, ?_⟩
      rw [List.append_assoc]
      simp [List.replicate_succ']

/-- Two slashes at the end of a text are two empty elements. -/
theorem slashes_suffix_iff {ps : List Bytes} (hps : ∀ e ∈ ps, slash ∉ e) :
    [slash, slash] <:+ text ps ↔ [[], []] <:+ ps := by
  constructor
  · rintro ⟨u, hu⟩
    have hsplit := splitOn_text hps
    have hu' : text ps = u ++ List.replicate (1 + 1) slash := hu.symm
    rw [hu', splitOn_replicate] at hsplit
    cases hus : u.splitOn slash with
    | nil => exact absurd hus (List.splitOn_ne_nil slash u)
    | cons x us =>
      rw [hus, List.cons_append, List.cons.injEq] at hsplit
      exact ⟨us, hsplit.2⟩
  · rintro ⟨us, rfl⟩
    exact ⟨text us, by simp [text_cons]⟩

/-- Names are not empty, so two empty elements at the end lie behind them. -/
theorem empties_suffix_iff {names : List Bytes} (hnames : Plain names) (l : List Bytes) :
    [[], []] <:+ names ++ l ↔ [[], []] <:+ l := by
  constructor
  · rintro ⟨us, hus⟩
    rcases List.append_eq_append_iff.mp hus with ⟨a, hn, ha⟩ | ⟨c, -, hl⟩
    · cases a with
      | nil => exact ⟨[], by simpa using ha⟩
      | cons x a =>
        have hx : x = [] := (List.cons.inj ha).1.symm
        exact absurd hx (hnames x (by simp [hn])).ne_nil
    · exact ⟨c, hl.symm⟩
  · exact fun h => h.trans (List.suffix_append names l)

/-! ## 4. Fixed points -/

/-- A base that is canonical and a directory, with the room that canonicalisation leaves. -/
structure Fs.CanonicalDir (fs : Fs) (pathMax : Nat) (names : List Bytes) : Prop where
  canonical : fs.Canonical names
  dir : fs.isDir (text names) = true
  room : names ≠ [] → (text names).length + 2 ≤ pathMax

/-- The path leads to a name that is neither a directory nor a link, with two empty elements at the
end of what is left; a slash at the end of the path is one. -/
def DoublesSlash (fs : Fs) (pathMax : Nat) (base : List Bytes) (path : Bytes) : Prop :=
  ∃ s, Reaches (Pending.step fs pathMax) (Pending.start base path) s ∧
    fs.isDir (text s.names) = false ∧
    [[], []] <:+ s.todo.map Prod.fst ++ if trailingSlash path then [[]] else []

theorem components_concat_nil (ps : List Bytes) : components (ps ++ [[]]) = ps := by
  induction ps with
  | nil => rfl
  | cons s ps ih =>
    cases ps with
    | nil => rfl
    | cons t ps => simpa [components] using ih

/-- Without two slashes at its end, only the path `/` has an empty element there. -/
theorem eq_slash_of_getLast_elementsOf {depth : Nat} {path : Bytes}
    (hpath : ¬ [slash, slash] <:+ path)
    (h : ((elementsOf depth path).map Prod.fst).getLast? = some []) : path = [slash] := by
  have hmap : (elementsOf depth path).map Prod.fst = components (path.splitOn slash) := by
    simp [elementsOf, Function.comp_def]
  rw [hmap] at h
  have hlast : (path.splitOn slash).getLast? = some [] := by
    refine by_contra fun hlast => hlast ?_
    rwa [(elements_flag hlast (Nat.le_refl _)).1] at h
  rcases getLast_splitOn hlast with rfl | hslash
  · simp [components] at h
  · obtain ⟨u, rfl⟩ := List.getLast?_eq_some_iff.mp hslash
    rw [List.splitOn_append_cons_self, List.splitOn_nil, components_concat_nil] at h
    rcases getLast_splitOn h with rfl | hu
    · rfl
    · obtain ⟨u', rfl⟩ := List.getLast?_eq_some_iff.mp hu
      exact absurd ⟨u', by simp⟩ hpath

/-- The list ends in an empty element only as long as nothing but the link `/` is left. -/
def Pending.Tidy (s : Pending) : Prop :=
  (s.todo.map Prod.fst).getLast? = some [] → s.names = [] ∧ s.todo.length = 1

theorem Pending.tidy_rest {names : List Bytes} {e : Bytes × Nat} {rest : List (Bytes × Nat)}
    (h : Pending.Tidy ⟨names, e :: rest⟩) (names' : List Bytes) : Pending.Tidy ⟨names', rest⟩ := by
  intro hlast
  cases rest with
  | nil => simp at hlast
  | cons e' rest =>
    have := (h (by simpa using hlast)).2
    simp at this

/-- No step leaves an empty element at the end when no contents of a link end in two slashes. -/
theorem Pending.tidy_step {fs : Fs} {pathMax : Nat}
    (hlinks : ∀ p link, fs.readlink p = some link → ¬ [slash, slash] <:+ link.take pathMax)
    {s t : Pending} (h : s.Tidy) (hst : s.step fs pathMax = some t) : t.Tidy := by
  obtain ⟨names, todo⟩ := s
  match todo with
  | [] => cases hst
  | (e, depth) :: rest =>
    simp only [step] at hst
    split at hst
    · split at hst
      · cases hst
        exact tidy_rest h _
      · cases hst
        exact tidy_rest h _
      · split at hst
        · split at hst
          · rename_i link hread
            cases hst
            intro hlast
            cases rest with
            | nil =>
              rw [List.append_nil] at hlast ⊢
              have hroot := eq_slash_of_getLast_elementsOf (hlinks _ link hread) hlast
              simp only [hroot]
              exact ⟨rfl, rfl⟩
            | cons e' rest =>
              have := (h (by simpa [List.getLast?_append] using hlast)).2
              simp at this
          · cases hst
        · cases hst
          exact tidy_rest h _
    · cases hst

/-- Where no contents of a link end in two slashes, no path leaves two. -/
theorem not_doublesSlash {fs : Fs} {pathMax : Nat}
    (hlinks : ∀ p link, fs.readlink p = some link → ¬ [slash, slash] <:+ link.take pathMax)
    (base : List Bytes) (path : Bytes) : ¬ DoublesSlash fs pathMax base path := by
  rintro ⟨s, hreach, hblock, hsuffix⟩
  have hstart : (Pending.start base path).Tidy := by
    obtain ⟨-, -, hlast⟩ := trimSlashes_append path
    have hpath : ¬ [slash, slash] <:+ trimSlashes path := by
      rintro ⟨u, hu⟩
      exact hlast (by simp [← hu])
    intro h
    have := eq_slash_of_getLast_elementsOf hpath h
    simp [this] at hlast
  have htidy : s.Tidy := by
    clear hblock hsuffix
    induction hreach with
    | refl => exact hstart
    | tail _ hstep ih => exact Pending.tidy_step hlinks ih hstep
  have hlast : (s.todo.map Prod.fst).getLast? = some [] := by
    obtain ⟨u, hu⟩ := hsuffix
    cases hslash : trailingSlash path with
    | false =>
      rw [hslash] at hu
      simp only [Bool.false_eq_true, if_false, List.append_nil] at hu
      simp [← hu]
    | true =>
      rw [hslash, if_pos rfl] at hu
      have hcut : u ++ [[]] ++ [[]] = s.todo.map Prod.fst ++ [[]] := by simpa using hu
      simp [← List.append_cancel_right hcut]
  rw [(htidy hlast).1] at hblock
  simp at hblock

/-- A path that was built is a fixed point when no two slashes stay at its end. -/
theorem Sits.fixedPoint_iff {fs : Fs} {pathMax : Nat} {w : Walk} {names left tail : List Bytes}
    (hfs : fs.Closed) (hw : Sits fs pathMax w names left) (htail : tail = [] ∨ tail = [[]])
    (hne : names ++ left ++ tail ≠ []) :
    FixedPoint fs pathMax (text (names ++ left ++ tail)) ↔
      ¬ [[], []] <:+ names ++ left ++ tail := by
  have hslashes := slashes_suffix_iff (hw.no_slash_append htail)
  rw [← hslashes]
  constructor
  · intro hfix hsuffix
    have htwo : 2 ≤ (names ++ left ++ tail).length := (hslashes.mp hsuffix).length_le
    have htaillen : tail.length ≤ 1 := by rcases htail with rfl | rfl <;> simp
    have hroom := hw.room (by rintro h; simp [h] at htwo; omega)
    have hshort : ¬ pathMax ≤ (text (names ++ left ++ tail)).length + skipSlash 0 := by
      have hlen : (text tail).length ≤ 1 := by rcases htail with rfl | rfl <;> simp
      have hzero : skipSlash 0 = 0 := rfl
      rw [text_append, List.length_append, ← hw.newpath, hzero]
      omega
    have hagain := hfix [] 0
    rw [hw.pseudoFixPath_again hfs htail hne, if_neg hshort] at hagain
    exact (oneSlash_eq_iff _).mp (Option.some.inj hagain) hsuffix
  · intro hsuffix base baselen
    rw [hw.pseudoFixPath_again hfs htail hne]
    split
    · rfl
    · exact congrArg some ((oneSlash_eq_iff _).mpr hsuffix)

section FixPath

variable {fs : Fs} {pathMax baselen : Nat} {names : List Bytes} {base path r : Bytes}

/-- Where canonicalisation starts. -/
theorem sits_start (hbase : path.head? = some slash ∨
      PassedAs names base baselen ∧ fs.CanonicalDir pathMax names) :
    Sits fs pathMax ⟨startPath base path 0 (skipSlash baselen),
      if 0 < (startPath base path 0 (skipSlash baselen)).length then
        fs.mode (startPath base path 0 (skipSlash baselen)) else sIfdir⟩
      (if path.head? = some slash then [] else names) [] := by
  rcases eq_or_ne (path.head?) (some slash) with habs | hrel
  · have hstart : startPath base path 0 (skipSlash baselen) = [] := by simp [startPath, habs]
    rw [hstart, if_pos habs]
    exact ⟨rfl, .nil, by simp, sIsdir_sIfdir, fun _ => rfl, fun h => absurd rfl h⟩
  · obtain ⟨hpassed, hdir⟩ := hbase.resolve_left hrel
    have hstart : startPath base path 0 (skipSlash baselen) = text names := by
      unfold startPath
      rw [hpassed.start, hpassed.length]
      cases names with
      | nil => simp
      | cons n names => simp [text_cons, hrel]
    rw [hstart, if_neg hrel]
    refine ⟨by simp, hdir.canonical, by simp, ?_, fun _ => rfl, fun h => ?_⟩
    · show sIsdir (if 0 < (text names).length then fs.mode (text names) else sIfdir) = _
      cases names with
      | nil => exact sIsdir_sIfdir
      | cons n names =>
        rw [if_pos (by simp [text_cons]), Fs.isDir_of_ne_nil fs (by simp [text_cons])]
    · rw [List.append_nil] at h
      exact hdir.room h

/-- What the first run builds: the names it comes to and what is left, as they stand. -/
theorem pseudoFixPath_sits (hfs : fs.Closed)
    (hbase : path.head? = some slash ∨
      PassedAs names base baselen ∧ fs.CanonicalDir pathMax names)
    (hclean : Pending.Clean fs pathMax (Pending.start names path))
    (hr : pseudoFixPath fs pathMax base path 0 baselen false = .built r) :
    ∃ w s, Reaches (Pending.step fs pathMax) (Pending.start names path) s ∧
      Sits fs pathMax w s.names (s.todo.map Prod.fst) ∧
      r = text (s.names ++ s.todo.map Prod.fst ++
        if s.names ++ s.todo.map Prod.fst = [] ∨ trailingSlash path = true then [[]] else []) := by
  have hrun : ∀ w, appendElements fs 0 pathMax pathMax maxLinkRecursion
      ⟨startPath base path 0 (skipSlash baselen),
        if 0 < (startPath base path 0 (skipSlash baselen)).length then
          fs.mode (startPath base path 0 (skipSlash baselen)) else sIfdir⟩ path
      (trimSlashes path).length false = some w →
      Arrives fs pathMax (Pending.start names path) [] w := by
    intro w happ
    simp only [Pending.start, elementsOf] at hclean ⊢
    rw [← List.append_nil (List.map _ _)] at hclean ⊢
    exact appendElements_arrives hfs (elements_path_fst path)
      (fun e he => no_slash_of_mem_components he) (sits_start hbase) hclean happ
  have hroot : skipSlash 0 = 0 := rfl
  simp only [pseudoFixPath, hroot] at hr
  split at hr
  · cases hr
  · rename_i hshort
    split at hr
    · cases hr
    · rename_i w happ
      obtain ⟨reached, left, hreach, hsits⟩ := hrun w happ
      rw [List.append_nil] at hreach
      refine ⟨w, ⟨reached, left⟩, hreach, hsits, ?_⟩
      -- the buffer holds nothing at the root, and nowhere else
      have hempty : w.newpath.length = 0 ↔ reached ++ left.map Prod.fst = [] := by
        rw [hsits.newpath, List.length_eq_zero_iff]
        constructor
        · exact fun h => by_contra fun hne => text_ne_nil hne h
        · rintro h
          rw [h, text_nil]
      have hroom : w.newpath.length < pathMax := by
        rcases eq_or_ne (reached ++ left.map Prod.fst) [] with hnil | hne
        · rw [hempty.mpr hnil]
          omega
        · have := hsits.room hne
          omega
      simp only [hempty, hroom, and_true] at hr
      show r = text (reached ++ left.map Prod.fst ++ _)
      simp only [trailingSlash, decide_eq_true_eq]
      split at hr
      · rename_i hslash
        cases hr
        rw [if_pos hslash, text_append, hsits.newpath]
        rfl
      · rename_i hslash
        cases hr
        rw [if_neg hslash, List.append_nil, hsits.newpath]

end FixPath

/-- Where the list ends says whether two slashes stay. -/
theorem doublesSlash_iff {fs : Fs} {pathMax : Nat} {w : Walk} {base : List Bytes} {path : Bytes}
    {s : Pending} (hreach : Reaches (Pending.step fs pathMax) (Pending.start base path) s)
    (hw : Sits fs pathMax w s.names (s.todo.map Prod.fst)) :
    DoublesSlash fs pathMax base path ↔ fs.isDir (text s.names) = false ∧
      [[], []] <:+ s.todo.map Prod.fst ++ if trailingSlash path then [[]] else [] := by
  constructor
  · rintro ⟨t, hreach', hblock, hsuffix⟩
    have hend : s.step fs pathMax = none := by
      cases hdir : fs.isDir (text s.names) with
      | false => exact Pending.step_blocked hdir
      | true =>
        obtain ⟨reached, todo⟩ := s
        obtain rfl : todo = [] := List.map_eq_nil_iff.mp (hw.left_nil hdir)
        rfl
    obtain rfl := Pending.eq_of_reaches hreach hend hreach' (Pending.step_blocked hblock)
    exact ⟨hblock, hsuffix⟩
  · exact fun ⟨hblock, hsuffix⟩ => ⟨s, hreach, hblock, hsuffix⟩

/-- `pseudo_fix_path` gives its own result again exactly when no two slashes stay at its end. -/
theorem fixPath_again_iff (fs : Fs) (pathMax : Nat) (hfs : fs.Closed) (names : List Bytes)
    (base path : Bytes) (baselen : Nat)
    (hbase : path.head? = some slash ∨
      PassedAs names base baselen ∧ fs.CanonicalDir pathMax names)
    (hclean : Pending.Clean fs pathMax (Pending.start names path)) {r : Bytes}
    (hr : pseudoFixPath fs pathMax base path 0 baselen false = .built r) :
    FixedPoint fs pathMax r ↔ ¬ DoublesSlash fs pathMax names path := by
  obtain ⟨w, s, hreach, hw, rfl⟩ := pseudoFixPath_sits hfs hbase hclean hr
  have htail : ∀ (p : Prop) [Decidable p], (if p then [[]] else [] : List Bytes) = [] ∨
      (if p then [[]] else [] : List Bytes) = [[]] := by
    intro p _
    split
    · exact .inr rfl
    · exact .inl rfl
  rw [hw.fixedPoint_iff hfs (htail _) (by split <;> simp_all), doublesSlash_iff hreach hw,
    List.append_assoc, empties_suffix_iff hw.canonical.plain]
  cases hdir : fs.isDir (text s.names) with
  | true =>
    -- at a directory nothing is left, and one slash at most is added
    rw [hw.left_nil hdir]
    refine iff_of_true (fun h => ?_) (by simp)
    have := h.length_le
    split at this <;> simp at this
  | false =>
    have hne : s.names ++ s.todo.map Prod.fst ≠ [] := by
      intro h
      rw [(List.append_eq_nil_iff.mp h).1] at hdir
      simp at hdir
    simp only [hne, false_or, true_and]

/-- Every tree is closed. -/
theorem closed_toFs (tree : DirTree) : (toFs tree).Closed := by
  intro p s _ hdir _
  have hsplit : names (p ++ slash :: s) = names p ++ s.splitOn slash := by
    rw [names, names, List.splitOn_append_cons_self]
    exact List.tail_append_of_ne_nil (List.splitOn_ne_nil slash p)
  have hnone : tree.node (names p ++ s.splitOn slash) = none := by
    cases hnode : tree.node (names p ++ s.splitOn slash) with
    | none => rfl
    | some node =>
      have hp : tree.node (names p) = some .dir := Resolve.Tree.isDir_iff.mp
        (Resolve.Tree.isDir_of_append (by rw [hnode]; simp) (List.splitOn_ne_nil slash s))
      simp [Fs.mode, toFs, hp] at hdir
  simp [toFs, hsplit, hnone]

/-- `/d`, the file `/f`, and the links `/k` to `d/../f/..` and `/l` to `f///`. -/
def slashTree : DirTree :=
  .ofEntries [([ascii ['d']], .dir), ([ascii ['f']], .file),
    ([ascii ['k']], .link (ascii ['d', '/', '.', '.', '/', 'f', '/', '.', '.'])),
    ([ascii ['l']], .link (ascii ['f', '/', '/', '/']))] (by decide)

/-- `/k//` is `/f/../`, with `..` kept behind the file, and stays so. -/
theorem fixPath_again_iff_exSlash :
    FixedPoint (toFs slashTree) 4096 (ascii ['/', 'f', '/', '.', '.', '/']) := by
  refine (fixPath_again_iff (toFs slashTree) 4096 (closed_toFs slashTree) [] []
    (ascii ['/', 'k', '/', '/']) 0 (.inl rfl) (.of_trace 7 (by decide)) (by decide)).mpr ?_
  rintro ⟨s, hs, hblock, hsuffix⟩
  have hends : ∀ t ∈ Pending.trace (toFs slashTree) 4096 8
      (Pending.start [] (ascii ['/', 'k', '/', '/'])), (toFs slashTree).isDir (text t.names) = false →
        ¬ [[], []] <:+ t.todo.map Prod.fst ++ [[]] := by decide
  exact hends s (Pending.mem_trace_of_reaches (by decide) hs) hblock hsuffix

/-- `/l` is `/f//`, and that is `/f/`. -/
theorem fixPath_drops_slash :
    (toFs slashTree).Closed ∧
      Pending.Clean (toFs slashTree) 4096 (Pending.start [] (ascii ['/', 'l'])) ∧
      pseudoFixPath (toFs slashTree) 4096 [] (ascii ['/', 'l']) 0 0 false =
        .built (ascii ['/', 'f', '/', '/']) ∧
      pseudoFixPath (toFs slashTree) 4096 [] (ascii ['/', 'f', '/', '/']) 0 0 false =
        .built (ascii ['/', 'f', '/']) ∧
      ¬ FixedPoint (toFs slashTree) 4096 (ascii ['/', 'f', '/', '/']) := by
  refine ⟨closed_toFs slashTree, .of_trace 5 (by decide), by decide, by decide, fun h => ?_⟩
  exact absurd (h [] 0) (by decide)

end Pseudo
