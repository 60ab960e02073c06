import Pseudo.PathText

/-!
# Canonicalisation is path resolution

`pseudo_fix_path` against the resolver of `Pseudo.Library.Resolve`. A file system `Represents` a
tree when `lstat` and `readlink` answer as the tree says. The invariant `At` ties the buffer and
the cached mode to the list of names reached so far; `Agrees` says what the code does for each
outcome of the resolver.

* Every element, and so every path with the links in it, agrees with the resolver
  (`appendElement_agrees`, `appendElements_agrees`). After a component that is no directory the
  buffer only grows, so it names something below a dead end (`Broken`).
* Where the path resolves, `pseudo_fix_path` returns the text of what it resolves to
  (`pseudoFixPath_resolves`). An absolute path is appended to the base, so this needs the root
  to be the base or `/` (`absolute_from_base`).
-/

namespace Pseudo

abbrev DirTree := Resolve.Tree Bytes Bytes

/-- A component that nothing can follow: a file, or a name that is free in its directory. -/
structure DeadEnd (tree : DirTree) (p : List Bytes) : Prop where
  parent : tree.isDir p.dropLast = true
  not_dir : tree.isDir p = false
  not_link : ¬ tree.IsLink p

/-- The file system is the tree, for links that fit the buffer they are read into. -/
structure Represents (tree : DirTree) (fs : Fs) (pathMax : Nat) : Prop where
  dir : ∀ p, Plain p → p ≠ [] → tree.node p = some .dir → sIsdir (fs.mode (text p)) = true
  file : ∀ p, Plain p → tree.node p = some .file →
    sIsdir (fs.mode (text p)) = false ∧ sIslnk (fs.mode (text p)) = false
  link : ∀ p k, Plain p → tree.node p = some (.link k) →
    sIslnk (fs.mode (text p)) = true ∧ fs.readlink (text p) = some k ∧ k.length ≤ pathMax
  missing : ∀ p, Plain p → tree.isDir p.dropLast = true → tree.node p = none →
    fs.lstat (text p) = none
  below : ∀ p s, Plain p → DeadEnd tree p → fs.lstat (text p ++ slash :: s) = none

/-- The room that the buffer leaves for a path. -/
def fits (pathMax : Nat) (p : List Bytes) : Bool := (text p).length + 2 ≤ pathMax

/-! ## 1. Modes -/

@[simp] theorem sIsdir_sIfdir : sIsdir sIfdir = true := by decide

@[simp] theorem sIsdir_zero : sIsdir 0#64 = false := by decide

@[simp] theorem sIslnk_zero : sIslnk 0#64 = false := by decide

theorem sIsdir_of_sIslnk {mode : BitVec 64} (h : sIslnk mode = true) : sIsdir mode = false := by
  have hmode : mode &&& sIfmt = 0o120000 := by simpa [sIslnk] using h
  rw [sIsdir, hmode]
  decide

theorem Fs.mode_of_lstat {fs : Fs} {path : Bytes} (h : fs.lstat path = none) :
    fs.mode path = 0 := by
  rw [Fs.mode, h]
  rfl

namespace Represents

variable {tree : DirTree} {fs : Fs} {pathMax : Nat} {p : List Bytes}

theorem sIsdir_mode (h : Represents tree fs pathMax) (hp : Plain p) (hne : p ≠ [])
    (hparent : tree.isDir p.dropLast = true) :
    sIsdir (fs.mode (text p)) = tree.isDir p := by
  cases hnode : tree.node p with
  | none => simp [Resolve.Tree.isDir, hnode, Fs.mode_of_lstat (h.missing p hp hparent hnode)]
  | some node =>
    cases node with
    | dir => rw [h.dir p hp hne hnode, Resolve.Tree.isDir_iff.mpr hnode]
    | file => simp [Resolve.Tree.isDir, hnode, (h.file p hp hnode).1]
    | link k => simp [Resolve.Tree.isDir, hnode, sIsdir_of_sIslnk (h.link p k hp hnode).1]

theorem sIslnk_mode (h : Represents tree fs pathMax) (hp : Plain p) (hne : p ≠ [])
    (hparent : tree.isDir p.dropLast = true) (hlink : ¬ tree.IsLink p) :
    sIslnk (fs.mode (text p)) = false := by
  cases hnode : tree.node p with
  | none => simp [Fs.mode_of_lstat (h.missing p hp hparent hnode)]
  | some node =>
    cases node with
    | dir =>
      cases hl : sIslnk (fs.mode (text p)) with
      | false => rfl
      | true => simpa [h.dir p hp hne hnode] using sIsdir_of_sIslnk hl
    | file => exact (h.file p hp hnode).2
    | link k => exact absurd ⟨k, hnode⟩ hlink

end Represents

/-! ## 2. The buffer and the names -/

/-- The buffer names `cur`, which the root is above, and the mode says whether it is a
directory. -/
structure At (tree : DirTree) (root : List Bytes) (pathMax : Nat) (w : Walk)
    (cur : List Bytes) : Prop where
  newpath : w.newpath = text cur
  plain : Plain cur
  root : root <+: cur
  mode : sIsdir w.mode = tree.isDir cur
  parent : tree.isDir cur.dropLast = true
  short : w.newpath.length < pathMax

/-- The buffer names something below a dead end. -/
structure Broken (tree : DirTree) (w : Walk) : Prop where
  mode : sIsdir w.mode = false
  newpath : ∃ p s, Plain p ∧ DeadEnd tree p ∧ w.newpath = text p ++ slash :: s

/-- What the code does for each outcome of the resolver. -/
def Agrees (tree : DirTree) (root : List Bytes) (pathMax : Nat) :
    Except Resolve.Failure (List Bytes) → Option Walk → Prop
  | .ok q, result => ∃ w, result = some w ∧ At tree root pathMax w q
  | .error .notDirectory, result => ∀ w, result = some w → Broken tree w
  | .error .tooLong, result => result = none
  | .error .tooDeep, _ => True

/-- How the contents of links are appended when links may still nest `depth` deep. -/
def expandLinks (fs : Fs) (root allocated pathMax : Nat) :
    Nat → Option (Walk → Bytes → Option Walk)
  | 0 => none
  | depth + 1 => some fun w link =>
    appendElements fs root allocated pathMax depth w link link.length false

theorem appendElements_eq (fs : Fs) (root allocated pathMax depth : Nat) (w : Walk)
    (path : Bytes) (elen : Nat) (leaveLast : Bool) :
    appendElements fs root allocated pathMax depth w path elen leaveLast =
      appendLoop (appendElement fs root allocated pathMax
        (expandLinks fs root allocated pathMax depth)) leaveLast
        (elements elen (path.splitOn slash)) w := by
  cases depth <;> rfl

section Simulation

variable {tree : DirTree} {fs : Fs} {root cur : List Bytes} {pathMax depth : Nat} {w w' : Walk}
  {element : Bytes} {expand : Option (Walk → Bytes → Option Walk)} {leaveThis leaveLast : Bool}

/-- An element behind something that is no directory is appended as it is, if it fits. -/
theorem appendElement_not_dir_eq {rootlen allocated : Nat} (hdir : sIsdir w.mode = false) :
    appendElement fs rootlen allocated pathMax expand w element leaveThis =
      if allocated < w.newpath.length + element.length + 3 then none
      else some ⟨w.newpath ++ slash :: element, fs.mode (w.newpath ++ slash :: element)⟩ := by
  simp only [appendElement, hdir, Bool.false_eq_true, false_and, and_false, if_false]

theorem appendElement_not_dir {rootlen allocated : Nat} (hdir : sIsdir w.mode = false)
    (h : appendElement fs rootlen allocated pathMax expand w element leaveThis = some w') :
    w.newpath.length + element.length + 3 ≤ allocated ∧
      w' = ⟨w.newpath ++ slash :: element, fs.mode (w.newpath ++ slash :: element)⟩ := by
  rw [appendElement_not_dir_eq hdir] at h
  split at h
  · cases h
  · rename_i hlen
    exact ⟨Nat.not_lt.mp hlen, (Option.some.inj h).symm⟩

theorem appendElement_stay {rootlen allocated : Nat} (hdir : sIsdir w.mode = true)
    (hel : element = [] ∨ element = [dot]) :
    appendElement fs rootlen allocated pathMax expand w element leaveThis = some w := by
  simp only [appendElement]
  rw [if_pos ⟨hdir, hel⟩]

theorem appendElement_up {rootlen allocated : Nat} (hdir : sIsdir w.mode = true) :
    appendElement fs rootlen allocated pathMax expand w [dot, dot] leaveThis =
      some (if w.newpath.length ≤ rootlen then w
        else { w with newpath := backtrack rootlen w.newpath }) := by
  simp only [appendElement]
  rw [if_neg (by simp), if_pos ⟨hdir, trivial⟩]
  split <;> rfl

theorem appendElement_tooLong {rootlen allocated : Nat} (hname : PlainName element)
    (hlen : allocated < w.newpath.length + element.length + 3) :
    appendElement fs rootlen allocated pathMax expand w element leaveThis = none := by
  simp only [appendElement]
  rw [if_neg (by simp [hname.ne_nil, hname.ne_dot]), if_neg (by simp [hname.ne_dots]),
    if_pos hlen]

theorem appendElement_down {rootlen allocated : Nat} (hname : PlainName element)
    (hlen : ¬ allocated < w.newpath.length + element.length + 3)
    (hstop : leaveThis = true ∨ sIslnk (fs.mode (w.newpath ++ slash :: element)) = false) :
    appendElement fs rootlen allocated pathMax expand w element leaveThis =
      some ⟨w.newpath ++ slash :: element, fs.mode (w.newpath ++ slash :: element)⟩ := by
  simp only [appendElement]
  rw [if_neg (by simp [hname.ne_nil, hname.ne_dot]), if_neg (by simp [hname.ne_dots]),
    if_neg hlen, if_neg]
  rintro ⟨hleave, -, hlnk⟩
  rcases hstop with h | h
  · simp [h] at hleave
  · simp [h] at hlnk

/-- The contents of a link are read as far as the buffer reaches. -/
theorem appendElement_readlink {rootlen allocated : Nat}
    {expandLink : Walk → Bytes → Option Walk} {link : Bytes} (hdir : sIsdir w.mode = true)
    (hname : PlainName element) (hlen : ¬ allocated < w.newpath.length + element.length + 3)
    (hlnk : sIslnk (fs.mode (w.newpath ++ slash :: element)) = true)
    (hlink : fs.readlink (w.newpath ++ slash :: element) = some link) :
    appendElement fs rootlen allocated pathMax (some expandLink) w element false =
      expandLink (expandFrom rootlen w (link.take pathMax)) (link.take pathMax) := by
  simp only [appendElement]
  rw [if_neg (by simp [hname.ne_nil, hname.ne_dot]), if_neg (by simp [hname.ne_dots]),
    if_neg hlen, if_pos ⟨trivial, hdir, hlnk⟩, hlink]

theorem appendElement_link {rootlen allocated : Nat}
    {expandLink : Walk → Bytes → Option Walk} {link : Bytes} (hdir : sIsdir w.mode = true)
    (hname : PlainName element) (hlen : ¬ allocated < w.newpath.length + element.length + 3)
    (hlnk : sIslnk (fs.mode (w.newpath ++ slash :: element)) = true)
    (hlink : fs.readlink (w.newpath ++ slash :: element) = some link)
    (hshort : link.length ≤ pathMax) :
    appendElement fs rootlen allocated pathMax (some expandLink) w element false =
      expandLink (expandFrom rootlen w link) link := by
  rw [appendElement_readlink hdir hname hlen hlnk hlink, List.take_of_length_le hshort]

theorem Broken.appendElement {rootlen allocated : Nat} (hfs : Represents tree fs pathMax)
    (hw : Broken tree w)
    (h : appendElement fs rootlen allocated pathMax expand w element leaveThis = some w') :
    Broken tree w' := by
  obtain ⟨-, rfl⟩ := appendElement_not_dir hw.mode h
  obtain ⟨p, s, hp, hdead, hnp⟩ := hw.newpath
  have hgrown : w.newpath ++ slash :: element = text p ++ slash :: (s ++ slash :: element) := by
    rw [hnp, List.append_assoc, List.cons_append]
  refine ⟨?_, p, _, hp, hdead, hgrown⟩
  rw [hgrown, Fs.mode_of_lstat (hfs.below p _ hp hdead)]
  exact sIsdir_zero

theorem Broken.appendLoop {append : Walk → Bytes → Bool → Option Walk}
    (happend : ∀ w e l w', Broken tree w → append w e l = some w' → Broken tree w')
    {es : List (Bytes × Bool)} (hw : Broken tree w)
    (h : appendLoop append leaveLast es w = some w') : Broken tree w' := by
  induction es generalizing w with
  | nil =>
    cases h
    exact hw
  | cons e es ih =>
    rw [Pseudo.appendLoop] at h
    cases hstep : append w e.1 (e.2 && leaveLast) with
    | none => simp [hstep] at h
    | some next =>
      rw [hstep] at h
      exact ih (happend _ _ _ _ hw hstep) h

theorem At.not_dir (hfs : Represents tree fs pathMax) (hw : At tree root pathMax w cur)
    (hdir : tree.isDir cur = false) (hlink : ¬ tree.IsLink cur)
    {rootlen allocated : Nat}
    (h : appendElement fs rootlen allocated pathMax expand w element leaveThis = some w') :
    Broken tree w' := by
  have hdead : DeadEnd tree cur := ⟨hw.parent, hdir, hlink⟩
  obtain ⟨-, rfl⟩ := appendElement_not_dir (hw.mode.trans hdir) h
  rw [hw.newpath]
  refine ⟨?_, cur, element, hw.plain, hdead, rfl⟩
  rw [Fs.mode_of_lstat (hfs.below cur element hw.plain hdead)]
  exact sIsdir_zero

/-- `..` in a directory. -/
theorem At.up (hw : At tree root pathMax w cur) (hdir : tree.isDir cur = true) :
    At tree root pathMax (if w.newpath.length ≤ (text root).length then w
      else { w with newpath := backtrack (text root).length w.newpath })
      (Resolve.up root cur) := by
  unfold Resolve.up
  simp only [hw.newpath, text_length_le_iff hw.root]
  split
  · exact hw
  · rename_i hlen
    obtain ⟨p, n, rfl⟩ : ∃ p n, cur = p ++ [n] := by
      refine List.eq_nil_or_concat cur |>.resolve_left ?_ |>.imp fun p => ?_
      · rintro rfl
        simp at hlen
      · simp
    have hplain := plain_append.mp hw.plain
    have hn : slash ∉ n := (plain_singleton.mp hplain.2).no_slash
    have hroot : root <+: p := by
      refine List.prefix_of_prefix_length_le hw.root (List.prefix_append p [n]) ?_
      simp at hlen
      omega
    rw [List.dropLast_concat]
    have hback : backtrack (text root).length (text (p ++ [n])) = text p :=
      backtrack_text hroot hn
    refine ⟨hback, hplain.1, hroot, ?_, Resolve.Tree.isDir_dropLast ?_, ?_⟩
    · show sIsdir w.mode = _
      rw [hw.mode, hdir]
      simpa using (Resolve.Tree.isDir_dropLast hdir).symm
    · simpa using Resolve.Tree.isDir_dropLast hdir
    · show (backtrack (text root).length (text (p ++ [n]))).length < pathMax
      have := hw.short
      rw [hw.newpath] at this
      rw [hback]
      simp at this
      omega

/-- A name that is appended in a directory. -/
theorem At.down (hfs : Represents tree fs pathMax) (hw : At tree root pathMax w cur)
    (hdir : tree.isDir cur = true) (hname : PlainName element)
    (hfits : fits pathMax (cur ++ [element]) = true) :
    At tree root pathMax
      ⟨w.newpath ++ slash :: element, fs.mode (w.newpath ++ slash :: element)⟩
      (cur ++ [element]) := by
  have hplain : Plain (cur ++ [element]) :=
    plain_append.mpr ⟨hw.plain, plain_singleton.mpr hname⟩
  have htext : w.newpath ++ slash :: element = text (cur ++ [element]) := by
    rw [hw.newpath, text_append, text_singleton]
  rw [htext]
  refine ⟨rfl, hplain, hw.root.trans (List.prefix_append _ _), ?_, ?_, ?_⟩
  · exact hfs.sIsdir_mode hplain (by simp) (by simpa using hdir)
  · simpa using hdir
  · have : (text (cur ++ [element])).length + 2 ≤ pathMax := by simpa [fits] using hfits
    show (text (cur ++ [element])).length < pathMax
    omega

/-- The buffer that the contents of a link are appended to. -/
theorem At.expandFrom (hw : At tree root pathMax w cur) (hdir : tree.isDir cur = true)
    (hroot : tree.isDir root = true) (link : Bytes) :
    At tree root pathMax (expandFrom (text root).length w link)
      (if (parseLink link).absolute then root else cur) := by
  have hplain := hw.plain
  have hpath := hw.newpath
  have hshort := hw.short
  unfold Pseudo.expandFrom
  simp only [parseLink, decide_eq_true_eq]
  split
  · obtain ⟨rest, rfl⟩ := hw.root
    have htake : w.newpath.take (text root).length = text root := by
      rw [hpath, text_append, List.take_left]
    refine ⟨htake, (plain_append.mp hplain).1, List.prefix_rfl, ?_,
      Resolve.Tree.isDir_dropLast hroot, ?_⟩
    · rw [hroot]
      exact sIsdir_sIfdir
    · show (w.newpath.take (text root).length).length < pathMax
      rw [List.length_take]
      omega
  · refine ⟨hpath, hplain, hw.root, ?_, hw.parent, hshort⟩
    rw [hdir]
    exact sIsdir_sIfdir

/-- The step lemma: one element agrees with one step of the resolver, if the contents of links
agree one level deeper. -/
theorem appendElement_agrees (hfs : Represents tree fs pathMax)
    (hexpand : ∀ w cur link, At tree root pathMax w cur → tree.isDir cur = true →
      Agrees tree root pathMax
        (Resolve.expand tree parseLink (fits pathMax) root depth cur link)
        ((expandLinks fs (text root).length pathMax pathMax depth).elim none
          fun expand => expand (expandFrom (text root).length w link) link))
    (hslash : slash ∉ element) (hw : At tree root pathMax w cur) (hlink : ¬ tree.IsLink cur) :
    Agrees tree root pathMax
      (Resolve.step tree (fits pathMax) root
        (Resolve.expand tree parseLink (fits pathMax) root depth) leaveThis cur (toStep element))
      (appendElement fs (text root).length pathMax pathMax
        (expandLinks fs (text root).length pathMax pathMax depth) w element leaveThis) := by
  cases hdir : tree.isDir cur with
  | false =>
    have hstep : Resolve.step tree (fits pathMax) root
        (Resolve.expand tree parseLink (fits pathMax) root depth) leaveThis cur
        (toStep element) = .error .notDirectory := by
      simp [Resolve.step, hdir]
    rw [hstep]
    exact fun w' h => hw.not_dir hfs hdir hlink h
  | true =>
    have hmode : sIsdir w.mode = true := hw.mode.trans hdir
    rcases toStep_cases hslash with ⟨hel, hs⟩ | ⟨rfl, hs⟩ | ⟨hname, hs⟩
    · rw [hs, Resolve.step_stay hdir, appendElement_stay hmode hel]
      exact ⟨w, rfl, hw⟩
    · rw [hs, Resolve.step_up hdir, appendElement_up hmode]
      exact ⟨_, rfl, hw.up hdir⟩
    · rw [hs]
      cases hfits : fits pathMax (cur ++ [element]) with
      | false =>
        rw [Resolve.step_tooLong hdir hfits, appendElement_tooLong hname]
        · rfl
        · rw [hw.newpath]
          simp [fits] at hfits
          omega
      | true =>
        have hroom : ¬ pathMax < w.newpath.length + element.length + 3 := by
          rw [hw.newpath]
          simp [fits] at hfits
          omega
        have hdown := hw.down hfs hdir hname hfits
        have hplain := hdown.plain
        have htext : w.newpath ++ slash :: element = text (cur ++ [element]) := hdown.newpath
        have hstop : ∀ _ : leaveThis = true ∨ ¬ tree.IsLink (cur ++ [element]),
            Agrees tree root pathMax
              (Resolve.step tree (fits pathMax) root
                (Resolve.expand tree parseLink (fits pathMax) root depth) leaveThis cur
                (.down element))
              (appendElement fs (text root).length pathMax pathMax
                (expandLinks fs (text root).length pathMax pathMax depth) w element
                leaveThis) := by
          intro h
          rw [Resolve.step_down hdir hfits h, appendElement_down hname hroom]
          · exact ⟨_, rfl, hdown⟩
          · rw [htext]
            refine h.imp_right fun hno => ?_
            exact hfs.sIslnk_mode hplain (by simp) (by simpa using hdir) hno
        cases hnode : tree.node (cur ++ [element]) with
        | none => exact hstop (.inr (by simp [Resolve.Tree.IsLink, hnode]))
        | some node =>
          cases node with
          | dir => exact hstop (.inr (by simp [Resolve.Tree.IsLink, hnode]))
          | file => exact hstop (.inr (by simp [Resolve.Tree.IsLink, hnode]))
          | link k =>
            cases leaveThis with
            | true => exact hstop (.inl rfl)
            | false =>
              obtain ⟨hlnk, hread, hshort⟩ := hfs.link _ k hplain hnode
              rw [Resolve.step_link hdir hfits hnode]
              have hagree := hexpand w cur k hw hdir
              cases depth with
              | zero => trivial
              | succ depth =>
                rw [← htext] at hlnk hread
                rw [expandLinks, appendElement_link hmode hname hroom hlnk hread hshort]
                exact hagree

/-- The elements in order, if each agrees. -/
theorem appendLoop_agrees {exp : List Bytes → Bytes → Except Resolve.Failure (List Bytes)}
    {append : Walk → Bytes → Bool → Option Walk}
    (hbroken : ∀ w e l w', Broken tree w → append w e l = some w' → Broken tree w')
    (hstep : ∀ w cur e l, slash ∉ e → At tree root pathMax w cur → ¬ tree.IsLink cur →
      Agrees tree root pathMax (Resolve.step tree (fits pathMax) root exp l cur (toStep e))
        (append w e l))
    (hexp : ∀ cur k q, tree.isDir cur = true → exp cur k = .ok q → ¬ tree.IsLink q)
    {nofollow : Bool} {ps : List Bytes} {es : List (Bytes × Bool)} (hps : ∀ s ∈ ps, slash ∉ s)
    (hes : es.map (fun e => (e.1, e.2 && leaveLast)) = flag nofollow ps)
    (hw : At tree root pathMax w cur) (hlink : ps ≠ [] → ¬ tree.IsLink cur) :
    Agrees tree root pathMax
      (Resolve.walk tree (fits pathMax) root exp nofollow cur (ps.map toStep))
      (appendLoop append leaveLast es w) := by
  induction ps generalizing es w cur with
  | nil =>
    obtain rfl : es = [] := by simpa [flag] using hes
    exact ⟨w, rfl, hw⟩
  | cons s ps ih =>
    obtain ⟨e, es', rfl, he, hrest⟩ : ∃ e es', es = e :: es' ∧
        (e.1, e.2 && leaveLast) = (s, nofollow && ps.isEmpty) ∧
        es'.map (fun e => (e.1, e.2 && leaveLast)) = flag nofollow ps := by
      cases es with
      | nil => cases ps <;> simp [flag] at hes
      | cons e es' =>
        refine ⟨e, es', rfl, ?_⟩
        cases ps with
        | nil => simpa [flag] using hes
        | cons t ps => simpa [flag] using hes
    obtain ⟨rfl, hl⟩ := Prod.mk.inj he
    have hone := hstep w cur e.1 (nofollow && ps.isEmpty) (hps _ (by simp)) hw
      (hlink (by simp))
    have hempty : (ps.map toStep).isEmpty = ps.isEmpty := by cases ps <;> rfl
    rw [List.map_cons, Resolve.walk, appendLoop, hl, hempty]
    cases hres : Resolve.step tree (fits pathMax) root exp (nofollow && ps.isEmpty) cur
        (toStep e.1) with
    | ok next =>
      rw [hres] at hone
      obtain ⟨w', hw', hat⟩ := hone
      rw [hw']
      refine ih (fun s hs => hps s (List.mem_cons_of_mem _ hs)) hrest hat fun hne => ?_
      cases ps with
      | nil => exact absurd rfl hne
      | cons t ps =>
        simp only [List.isEmpty_cons, Bool.and_false] at hres
        exact Resolve.step_not_link hexp hres
    | error failure =>
      rw [hres] at hone
      cases failure with
      | notDirectory =>
        intro w' h
        cases happ : append w e.1 (nofollow && ps.isEmpty) with
        | none => simp [happ] at h
        | some next =>
          rw [happ] at h
          exact (hone next happ).appendLoop hbroken h
      | tooDeep => trivial
      | tooLong =>
        have hnone : append w e.1 (nofollow && ps.isEmpty) = none := hone
        rw [hnone]
        rfl

/-- The run lemma: a path agrees with the resolver, by induction on how deep links may nest. -/
theorem appendElements_agrees (depth : Nat) (hfs : Represents tree fs pathMax)
    (hroot : tree.isDir root = true) {nofollow : Bool} {path : Bytes} {elen : Nat}
    {ps : List Bytes} (hps : ∀ s ∈ ps, slash ∉ s)
    (hes : (elements elen (path.splitOn slash)).map (fun e => (e.1, e.2 && leaveLast)) =
      flag nofollow ps)
    (hw : At tree root pathMax w cur) (hlink : ¬ tree.IsLink cur) :
    Agrees tree root pathMax
      (Resolve.resolve tree parseLink (fits pathMax) root depth nofollow cur (ps.map toStep))
      (appendElements fs (text root).length pathMax pathMax depth w path elen leaveLast) := by
  induction depth generalizing cur w path elen leaveLast nofollow ps with
  | zero =>
    rw [appendElements_eq]
    refine appendLoop_agrees (fun w e l w' hb h => hb.appendElement hfs h) ?_ ?_ hps hes hw
      fun _ => hlink
    · exact fun w cur e l he hw hl => appendElement_agrees hfs (fun _ _ _ _ _ => trivial) he hw hl
    · exact fun cur k q hdir h => Resolve.expand_not_link hroot hdir h
  | succ depth ih =>
    rw [appendElements_eq]
    refine appendLoop_agrees (fun w e l w' hb h => hb.appendElement hfs h) ?_ ?_ hps hes hw
      fun _ => hlink
    · refine fun w cur e l he hw hl => appendElement_agrees hfs (fun w cur link hw hdir => ?_) he
        hw hl
      have hfrom := hw.expandFrom hdir hroot link
      refine ih (fun s hs => no_slash_of_mem_components hs) (elements_link link) hfrom ?_
      split
      · exact Resolve.Tree.not_isLink_of_isDir hroot
      · exact Resolve.Tree.not_isLink_of_isDir hdir
    · exact fun cur k q hdir h => Resolve.expand_not_link hroot hdir h

end Simulation

/-! ## 3. `pseudo_fix_path` -/

/-- The path ends in a slash. -/
def trailingSlash (path : Bytes) : Bool := (trimSlashes path).length < path.length

/-- A directory as a caller passes it: a text and its length, where the root may be `/` or
empty. -/
structure PassedAs (base : List Bytes) (baseText : Bytes) (baselen : Nat) : Prop where
  length : skipSlash baselen = (text base).length
  start : baseText.take (skipSlash baselen) = text base

theorem passedAs_dirText {base : List Bytes} (h : Plain base) :
    PassedAs base (dirText base) (dirText base).length := by
  cases base with
  | nil => exact ⟨rfl, rfl⟩
  | cons n base =>
    have hlen := one_lt_text_length h (by simp)
    have htext : dirText (n :: base) = text (n :: base) := rfl
    rw [htext]
    have hskip : skipSlash (text (n :: base)).length = (text (n :: base)).length := by
      unfold skipSlash
      rw [if_neg (by omega)]
    exact ⟨hskip, by rw [hskip, List.take_length]⟩

/-- What `pseudo_fix_path` returns for each outcome of the resolver. -/
def Returns (tree : DirTree) (root : List Bytes) (trailing : Bool) :
    Except Resolve.Failure (List Bytes) → Fixed → Prop
  | .ok q, fixed => Plain q ∧ root <+: q ∧
    fixed = .built (text q ++ if q = root ∨ trailing = true then [slash] else [])
  | .error .notDirectory, fixed => ∀ path, fixed = .built path →
    ∃ p s, Plain p ∧ DeadEnd tree p ∧ path = text p ++ slash :: s
  | .error .tooLong, fixed => fixed = .null
  | .error .tooDeep, _ => True

section FixPath

variable {tree : DirTree} {fs : Fs} {root base : List Bytes} {pathMax rootlen baselen : Nat}
  {baseText path : Bytes} {leaveLast : Bool}

/-- The buffer at the start: the base, or the root for an absolute path. -/
theorem startPath_at (hfs : Represents tree fs pathMax) (hdir : tree.node base = some .dir)
    (hplain : Plain base) (hroot : root <+: base) (hbase : PassedAs base baseText baselen)
    (hrootlen : skipSlash rootlen = (text root).length)
    (habs : path.head? = some slash → root = [] ∨ root = base)
    (hlen : path.length + (text base).length < pathMax) :
    At tree root pathMax
      ⟨startPath baseText path (skipSlash rootlen) (skipSlash baselen),
        if skipSlash rootlen < (startPath baseText path (skipSlash rootlen)
            (skipSlash baselen)).length then
          fs.mode (startPath baseText path (skipSlash rootlen) (skipSlash baselen))
        else sIfdir⟩
      (if path.head? = some slash then root else base) := by
  -- a directory on the way to the base, and what the buffer says about it
  have hat : ∀ cur, tree.isDir cur = true → Plain cur → root <+: cur → cur <+: base →
      At tree root pathMax
        ⟨text cur, if skipSlash rootlen < (text cur).length then fs.mode (text cur) else sIfdir⟩
        cur := by
    intro cur hcur hp hr hle
    refine ⟨rfl, hp, hr, ?_, Resolve.Tree.isDir_dropLast hcur, ?_⟩
    · show sIsdir (if _ then _ else _) = _
      rw [hcur]
      split
      · rename_i hlt
        have hne : cur ≠ [] := by
          rintro rfl
          simp at hlt
        exact hfs.dir cur hp hne (Resolve.Tree.isDir_iff.mp hcur)
      · exact sIsdir_sIfdir
    · obtain ⟨rest, rfl⟩ := hle
      simp only [text_append, List.length_append] at hlen
      show (text cur).length < pathMax
      omega
  have hbdir : tree.isDir base = true := Resolve.Tree.isDir_iff.mpr hdir
  have hrdir : tree.isDir root = true := Resolve.Tree.isDir_of_prefix hroot hbdir
  have hrplain : Plain root := fun n hn => hplain n (hroot.subset hn)
  have hstart : startPath baseText path (skipSlash rootlen) (skipSlash baselen) =
      text (if path.head? = some slash then root else base) := by
    unfold startPath
    rw [hbase.start, hbase.length, hrootlen]
    cases base with
    | nil =>
      obtain rfl : root = [] := List.prefix_nil.mp hroot
      simp
    | cons n base =>
      have hbne : (text (n :: base)).length ≠ 0 := by
        simp [text_cons]
      cases hslash : decide (path.head? = some slash) with
      | false => simp [of_decide_eq_false hslash, hbne]
      | true =>
        have habs' := habs (of_decide_eq_true hslash)
        cases root with
        | nil => simp [of_decide_eq_true hslash]
        | cons m root =>
          have hrb := habs'.resolve_left (by simp)
          have hrne : (text (m :: root)).length ≠ 0 := by
            simp [text_cons]
          simp [of_decide_eq_true hslash, hrb, hbne]
  rw [hstart]
  split
  · exact hat root hrdir hrplain List.prefix_rfl hroot
  · exact hat base hbdir hplain hroot List.prefix_rfl

/-- What is built from a path that resolves: the slash is for the root and for a trailing
slash. -/
theorem built_of_at {w : Walk} {q : List Bytes} {trailing : Bool}
    (hw : At tree root pathMax w q) :
    (if (w.newpath.length = (text root).length ∨ trailing = true) ∧ w.newpath.length < pathMax then
        Fixed.built (w.newpath ++ [slash])
      else .built w.newpath) =
      .built (text q ++ if q = root ∨ trailing = true then [slash] else []) := by
  have hiff : w.newpath.length = (text root).length ↔ q = root := by
    rw [hw.newpath]
    constructor
    · intro h
      have hle := (text_length_le_iff hw.root).mp (Nat.le_of_eq h)
      exact (hw.root.eq_of_length_le hle).symm
    · rintro rfl
      rfl
  simp only [hiff, hw.short, and_true]
  split
  · rw [hw.newpath]
  · rw [hw.newpath, List.append_nil]

theorem pseudoFixPath_returns (hfs : Represents tree fs pathMax)
    (hdir : tree.node base = some .dir) (hplain : Plain base) (hroot : root <+: base)
    (hbase : PassedAs base baseText baselen) (hrootlen : skipSlash rootlen = (text root).length)
    (habs : path.head? = some slash → root = [] ∨ root = base)
    (hlen : path.length + (text base).length < pathMax) :
    Returns tree root (trailingSlash path)
      (Resolve.resolve tree parseLink (fits pathMax) root maxLinkRecursion
        (leaveLast && !trailingSlash path) (if path.head? = some slash then root else base)
        (pathSteps (trimSlashes path)))
      (pseudoFixPath fs pathMax baseText path rootlen baselen leaveLast) := by
  have hstart := startPath_at hfs hdir hplain hroot hbase hrootlen habs hlen
  have hrdir : tree.isDir root = true :=
    Resolve.Tree.isDir_of_prefix hroot (Resolve.Tree.isDir_iff.mpr hdir)
  have hcur : tree.isDir (if path.head? = some slash then root else base) = true := by
    split
    · exact hrdir
    · exact Resolve.Tree.isDir_iff.mpr hdir
  have hflag : (decide ((trimSlashes path).length = path.length) && leaveLast) =
      (leaveLast && !trailingSlash path) := by
    obtain ⟨k, hpath, -⟩ := trimSlashes_append path
    have hk := congrArg List.length hpath
    simp only [List.length_append, List.length_replicate] at hk
    rw [Bool.and_comm, trailingSlash]
    congr 1
    simp only [← decide_not, Nat.not_lt]
    exact decide_eq_decide.mpr (by omega)
  have hagree := appendElements_agrees maxLinkRecursion hfs hrdir
    (fun s hs => no_slash_of_mem_components hs) (hflag ▸ elements_path path leaveLast) hstart
    (Resolve.Tree.not_isLink_of_isDir hcur)
  have hshort : ¬ pathMax ≤ path.length + skipSlash baselen := by
    rw [hbase.length]
    omega
  simp only [hrootlen] at hagree
  simp only [pseudoFixPath, if_neg hshort, hrootlen]
  rw [pathSteps]
  generalize Resolve.resolve tree parseLink (fits pathMax) root maxLinkRecursion
    (leaveLast && !trailingSlash path) (if path.head? = some slash then root else base)
    ((components ((trimSlashes path).splitOn slash)).map toStep) = outcome at hagree ⊢
  cases outcome with
  | ok q =>
    obtain ⟨w, hw, hat⟩ := hagree
    rw [hw]
    have hbuilt := @built_of_at _ _ _ _ _ (trailingSlash path) hat
    simp only [trailingSlash, decide_eq_true_eq] at hbuilt
    refine ⟨hat.plain, hat.root, ?_⟩
    simpa [trailingSlash] using hbuilt
  | error failure =>
    cases failure with
    | tooDeep => trivial
    | tooLong =>
      have hnone : appendElements fs (text root).length pathMax pathMax maxLinkRecursion _ path
          (trimSlashes path).length leaveLast = none := hagree
      rw [hnone]
      rfl
    | notDirectory =>
      intro built hbuilt
      cases happ : appendElements fs (text root).length pathMax pathMax maxLinkRecursion
          ⟨startPath baseText path (text root).length (skipSlash baselen),
            if (text root).length < (startPath baseText path (text root).length
                (skipSlash baselen)).length then
              fs.mode (startPath baseText path (text root).length (skipSlash baselen))
            else sIfdir⟩ path (trimSlashes path).length leaveLast with
      | none => simp [happ] at hbuilt
      | some w =>
        obtain ⟨p, s, hp, hdead, hnew⟩ := (hagree w happ).newpath
        simp only [happ] at hbuilt
        split at hbuilt
        · cases hbuilt
          exact ⟨p, s ++ [slash], hp, hdead, by rw [hnew, List.append_assoc]; rfl⟩
        · cases hbuilt
          exact ⟨p, s, hp, hdead, hnew⟩

end FixPath

/-- Canonicalisation is path resolution: where the path resolves from the base, or from the root
if it is absolute, the text of what it resolves to is returned, with a slash for the root and
for a trailing slash. -/
theorem pseudoFixPath_resolves (tree : DirTree) (fs : Fs) (pathMax : Nat)
    (hfs : Represents tree fs pathMax) (root base : List Bytes) (hroot : root <+: base)
    (hdir : tree.node base = some .dir) (hplain : Plain base) (baseText : Bytes)
    (rootlen baselen : Nat) (hbase : PassedAs base baseText baselen)
    (hrootlen : skipSlash rootlen = (text root).length) (path : Bytes) (leaveLast : Bool)
    (habs : path.head? = some slash → root = [] ∨ root = base)
    (hlen : path.length + (text base).length < pathMax) {q : List Bytes}
    (hq : Resolve.resolve tree parseLink (fits pathMax) root maxLinkRecursion
      (leaveLast && !trailingSlash path) (if path.head? = some slash then root else base)
      (pathSteps (trimSlashes path)) = .ok q) :
    pseudoFixPath fs pathMax baseText path rootlen baselen leaveLast =
      .built (text q ++ if q = root ∨ trailingSlash path = true then [slash] else []) := by
  have hreturns := @pseudoFixPath_returns _ _ _ _ _ _ _ _ _ leaveLast hfs hdir hplain hroot hbase
    hrootlen habs hlen
  rw [hq] at hreturns
  exact hreturns.2.2

/-! ## 4. Every tree is a file system -/

/-- `S_IFREG` and `S_IFLNK`. -/
def sIfreg : BitVec 64 := 0o100000

def sIflnk : BitVec 64 := 0o120000

/-- The names in an absolute path. -/
def names (path : Bytes) : List Bytes := (path.splitOn slash).tail

/-- The file system that holds a tree. -/
def toFs (tree : DirTree) : Fs where
  lstat path :=
    match tree.node (names path) with
    | some .dir => some sIfdir
    | some .file => some sIfreg
    | some (.link _) => some sIflnk
    | none => none
  readlink path :=
    match tree.node (names path) with
    | some (.link k) => some k
    | _ => none

theorem names_text {p : List Bytes} (hp : Plain p) : names (text p) = p := by
  rw [names, splitOn_text hp.no_slash, List.tail_cons]

theorem represents_toFs {tree : DirTree} {pathMax : Nat}
    (hlinks : ∀ p k, tree.node p = some (.link k) → k.length ≤ pathMax) :
    Represents tree (toFs tree) pathMax where
  dir p hp _ h := by
    have : (toFs tree).lstat (text p) = some sIfdir := by simp [toFs, names_text hp, h]
    simp [Fs.mode, this]
  file p hp h := by
    have : (toFs tree).lstat (text p) = some sIfreg := by simp [toFs, names_text hp, h]
    rw [Fs.mode, this]
    decide
  link p k hp h := by
    have hmode : (toFs tree).lstat (text p) = some sIflnk := by simp [toFs, names_text hp, h]
    refine ⟨?_, by simp [toFs, names_text hp, h], hlinks p k h⟩
    rw [Fs.mode, hmode]
    decide
  missing p hp _ h := by simp [toFs, names_text hp, h]
  below p s hp hdead := by
    have hnames : names (text p ++ slash :: s) = p ++ s.splitOn slash := by
      rw [names, List.splitOn_append_cons_self, splitOn_text hp.no_slash, List.cons_append,
        List.tail_cons]
    have hnone : tree.node (p ++ s.splitOn slash) = none := by
      cases hnode : tree.node (p ++ s.splitOn slash) with
      | none => rfl
      | some node =>
        have hp' : tree.isDir p = true :=
          Resolve.Tree.isDir_of_append (by rw [hnode]; simp) (List.splitOn_ne_nil slash s)
        rw [hdead.not_dir] at hp'
        cases hp'
    simp [toFs, hnames, hnone]

/-- `/r`, `/r/d`, and the link `/r/d/l` to `../d`. -/
def linkTree : DirTree :=
  .ofEntries [([ascii ['r']], .dir), ([ascii ['r'], ascii ['d']], .dir),
    ([ascii ['r'], ascii ['d'], ascii ['l']], .link (ascii ['.', '.', '/', 'd']))] (by decide)

theorem represents_linkTree : Represents linkTree (toFs linkTree) 4096 := by
  refine represents_toFs fun p k hk => ?_
  have hmem := Resolve.Tree.mem_entries_of_link hk
  simp only [List.mem_cons, Prod.mk.injEq, reduceCtorEq, and_false, Resolve.Node.link.injEq,
    List.not_mem_nil, or_false, false_or] at hmem
  rw [hmem.2]
  decide

/-- From `/r/d` with the root `/r`, the path `l/../../y/` leads to `/r/y/`: the second `..` stays
at the root. -/
theorem pseudoFixPath_resolves_link :
    pseudoFixPath (toFs linkTree) 4096 (ascii ['/', 'r', '/', 'd'])
        (ascii ['l', '/', '.', '.', '/', '.', '.', '/', 'y', '/']) 2 4 true =
      .built (ascii ['/', 'r', '/', 'y', '/']) :=
  pseudoFixPath_resolves linkTree (toFs linkTree) 4096 represents_linkTree [ascii ['r']]
    [ascii ['r'], ascii ['d']] (by decide) rfl (by decide) (ascii ['/', 'r', '/', 'd']) 2 4
    ⟨rfl, rfl⟩ rfl (ascii ['l', '/', '.', '.', '/', '.', '.', '/', 'y', '/']) true (by decide)
    (by decide) (q := [ascii ['r'], ascii ['y']]) rfl

/-- An absolute path is appended to the base: from `/r/d` with the root `/r`, the path `/d` is
`/r/d`, but `/r/d/d` is returned. -/
theorem absolute_from_base :
    Represents linkTree (toFs linkTree) 4096 ∧
      linkTree.node [ascii ['r'], ascii ['d']] = some .dir ∧
      Resolve.resolve linkTree parseLink (fits 4096) [ascii ['r']] maxLinkRecursion true
        [ascii ['r']] (pathSteps (ascii ['/', 'd'])) = .ok [ascii ['r'], ascii ['d']] ∧
      pseudoFixPath (toFs linkTree) 4096 (ascii ['/', 'r', '/', 'd']) (ascii ['/', 'd']) 2 4 true =
        .built (ascii ['/', 'r', '/', 'd', '/', 'd']) :=
  ⟨represents_linkTree, rfl, rfl, by decide⟩

end Pseudo
