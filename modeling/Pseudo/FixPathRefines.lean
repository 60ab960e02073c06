import Pseudo.Canonical
import Pseudo.FixPathBuffer

/-!
# The buffer and the path that it holds

`pseudo_fix_path` on its memory does what it does on paths as lists of bytes. The buffer `Shows` a
walk when its string is the path up to the cursor; the counter of nested links is what is missing of
the depth to which links may still nest.

Results:
1. `appendElementAt_refines`, `appendElementsAt_refines`: an element, and all the elements of a
   string with the links in it.
2. `run_refines`: a call returns what `pseudoFixPath` says, whatever the buffer held before.
-/

namespace Pseudo

open Block FixPathBufferLemmas

/-- The contents of links are strings: no NUL is in them. -/
def Fs.CLinks (fs : Fs) : Prop := ∀ path link, fs.readlink path = some link → IsCString link

/-- The string in the buffer is the path of the walk. -/
structure NewPath.Shows (root allocated : Nat) (s : NewPath) (w : Walk) : Prop where
  inside : s.Inside root allocated
  text : s.text allocated = w.newpath
  mode : s.mode = w.mode

/-- What a helper returns, next to what it returns on lists: -1 for none, and otherwise a buffer that
shows the walk, with the counter that it found. -/
def Refines (root allocated linkRecursion : Nat) (r : Int × NewPath) : Option Walk → Prop
  | none => r.1 = -1
  | some w => r.1 ≠ -1 ∧ r.2.Shows root allocated w ∧ r.2.linkRecursion = linkRecursion

section Refinement

variable {fs : Fs} {root allocated pathMax steps elen c : Nat} {s s' : NewPath} {w : Walk}
  {element path : Bytes} {leaveThis leaveLast : Bool} {r : Int × NewPath}

/-! ## 1. The string in the buffer -/

theorem NewPath.Shows.length (h : s.Shows root allocated w) : w.newpath.length = s.current := by
  rw [← h.text, length_text h.inside.toTerminated]

/-- The string cut at the cursor. -/
theorem string_cut (h : s.Inside root allocated) (hroot : root ≤ c) (hc : c ≤ s.current)
    (mode : BitVec 64) :
    NewPath.text { s.write c [0] with current := c, mode := mode } allocated =
      (s.text allocated).take c := by
  rw [string_eq_read (inside_cut h hroot hc mode).toTerminated, string_eq_read h.toTerminated,
    take_read s.mem 0 hc]
  exact read_store_before (by simp)

/-- The string with a slash and an element behind it. -/
theorem string_append (h : s.Inside root allocated) (hel : 0 ∉ element)
    (hroom : s.current + element.length + 3 ≤ allocated) (mode : BitVec 64) :
    NewPath.text { ((s.write s.current [slash]).write (s.current + 1) element).write
        (s.current + 1 + element.length) [0] with
      current := s.current + 1 + element.length, mode := mode } allocated =
      s.text allocated ++ slash :: element := by
  rw [string_eq_read (inside_append h hel hroom mode).toTerminated, string_eq_read h.toTerminated]
  -- the slash, the element, and the NUL behind both
  have hslash := holds_store_append s.mem 0 s.current [slash]
  have helement := holds_store_append (store s.mem ⟨s.current, [slash]⟩) 0 (s.current + 1) element
  rw [Holds, List.length_append, length_read, List.length_singleton, Nat.zero_add] at hslash
  rw [hslash, Holds, List.length_append, List.length_append, length_read, List.length_singleton,
    Nat.zero_add, List.append_assoc] at helement
  exact (read_store_before (Nat.le_of_eq (Nat.zero_add _))).trans helement

/-- The step back over the last element. -/
theorem previousSlash_eq (mem : Nat → Byte) (root : Nat) (u : Bytes)
    (hu : Holds mem root u) (hend : mem (root + u.length) ≠ slash) :
    previousSlash mem root (root + u.length) =
      root + ((u.reverse.dropWhile (· ≠ slash)).tail).length := by
  induction u using List.reverseRecOn with
  | nil => cases root <;> simp [previousSlash]
  | append_singleton u b ih =>
    obtain ⟨hu, hb⟩ := holds_append.mp hu
    rw [holds_singleton] at hb
    rw [List.length_append, List.length_singleton, ← Nat.add_assoc] at hend ⊢
    rw [previousSlash, if_pos ⟨by omega, hend⟩, List.reverse_append, List.reverse_singleton,
      List.singleton_append]
    rcases eq_or_ne b slash with rfl | hne
    · rw [List.dropWhile_cons_of_neg (by simp), List.tail_cons, List.length_reverse]
      cases hn : root + u.length with
      | zero => rfl
      | succ n =>
        rw [previousSlash, if_neg]
        rintro ⟨-, hno⟩
        exact hno (hn ▸ hb)
    · rw [List.dropWhile_cons_of_pos (by simpa using hne)]
      exact ih hu (hb ▸ hne)

theorem take_previousSlash (h : s.Inside root allocated) :
    (s.text allocated).take (previousSlash s.mem root s.current) =
      backtrack root (s.text allocated) := by
  rw [string_eq_read h.toTerminated]
  obtain ⟨n, hn⟩ := Nat.exists_eq_add_of_le h.root
  have hnul := h.nul
  rw [hn] at hnul ⊢
  have hu : (read s.mem root n).length = n := length_read ..
  have hprev := previousSlash_eq s.mem root (read s.mem root n) (by rw [Holds, hu])
    (by rw [hu, hnul]; decide)
  rw [hu] at hprev
  have hroot : (read s.mem 0 (root + n)).take root = read s.mem 0 root :=
    take_read s.mem 0 (Nat.le_add_right root n)
  have hdrop : (read s.mem 0 (root + n)).drop root = read s.mem root n := by
    rw [drop_read s.mem 0 (Nat.le_add_right root n), Nat.zero_add, Nat.add_sub_cancel_left]
  rw [backtrack, hprev, List.take_add, hroot, hdrop]
  congr 1
  -- what is left of the end is where the string begins
  have hprefix : ((read s.mem root n).reverse.dropWhile (· ≠ slash)).tail.reverse <+:
      read s.mem root n := by
    rw [← List.reverse_reverse (read s.mem root n), List.reverse_prefix, List.reverse_reverse]
    exact (List.tail_suffix _).trans (List.dropWhile_suffix _)
  have htake := List.prefix_iff_eq_take.mp hprefix
  rw [List.length_reverse] at htake
  exact htake.symm

/-! ## 2. One element -/

theorem shows_enter (h : s.Shows root allocated w) : s.enter.Shows root allocated w :=
  ⟨inside_enter h.inside, h.text, h.mode⟩

theorem shows_leave (h : s.Shows root allocated w) : s.leave.Shows root allocated w :=
  ⟨inside_leave h.inside, h.text, h.mode⟩

theorem shows_note (h : s.Shows root allocated w) : s.note.Shows root allocated w :=
  ⟨inside_note h.inside, h.text, h.mode⟩

/-- The buffer with an element behind its string, and the mode of what it names then. -/
def NewPath.appended (s : NewPath) (fs : Fs) (newpath element : Bytes) : NewPath :=
  { ((s.write s.current [slash]).write (s.current + 1) element).write
      (s.current + 1 + element.length) [0] with
    current := s.current + 1 + element.length, mode := fs.mode newpath }

theorem shows_appended (h : s.Shows root allocated w) (hel : 0 ∉ element)
    (hroom : s.current + element.length + 3 ≤ allocated) :
    (s.appended fs (w.newpath ++ slash :: element) element).Shows root allocated
      ⟨w.newpath ++ slash :: element, fs.mode (w.newpath ++ slash :: element)⟩ := by
  refine ⟨inside_append h.inside hel hroom _, ?_, rfl⟩
  rw [← h.text]
  exact string_append h.inside hel hroom _

/-- Where the contents of a link are appended. -/
theorem shows_expandFrom (h : s.Shows root allocated w) (hel : 0 ∉ element)
    (hroom : s.current + element.length + 3 ≤ allocated) (link : Bytes) :
    ((s.appended fs (w.newpath ++ slash :: element) element).expandFrom root
      (s.current + 1 + element.length) element.length link).Shows root allocated
      (expandFrom root w link) := by
  have happended := @shows_appended fs root allocated s w element h hel hroom
  have hroot : root ≤ s.current := h.inside.root
  have hlen : w.newpath.length = s.current := h.length
  have hbound : ∀ c, c ≤ s.current →
      c ≤ (s.appended fs (w.newpath ++ slash :: element) element).current := by
    intro c hc
    show c ≤ s.current + 1 + element.length
    omega
  have htake : ∀ c, c ≤ s.current → (w.newpath ++ slash :: element).take c = w.newpath.take c :=
    fun c hc => List.take_append_of_le_length (hlen ▸ hc)
  unfold NewPath.expandFrom expandFrom
  dsimp only
  split
  · refine ⟨inside_cut happended.inside (Nat.le_refl root) (hbound root hroot) _, ?_, rfl⟩
    rw [string_cut happended.inside (Nat.le_refl root) (hbound root hroot), happended.text]
    exact htake root hroot
  · have hback : s.current + 1 + element.length - (element.length + 1) = s.current := by omega
    rw [hback]
    have hcut := hbound s.current (Nat.le_refl _)
    refine ⟨inside_cut happended.inside hroot hcut _, ?_, rfl⟩
    rw [string_cut happended.inside hroot hcut, happended.text]
    show (w.newpath ++ slash :: element).take s.current = w.newpath
    rw [htake s.current (Nat.le_refl _), ← hlen, List.take_length]

/-- An element that is neither skipped nor a step back, and fits. -/
theorem appendElementAt_eq {expand : NewPath → Bytes → Returning}
    (h : s.Shows root allocated w) (hel : 0 ∉ element)
    (hskip : ¬ (sIsdir s.mode = true ∧ (element = [] ∨ element = [dot])))
    (hup : ¬ (sIsdir s.mode = true ∧ element = [dot, dot]))
    (hroom : ¬ allocated < s.current + element.length + 3) :
    appendElementAt fs root allocated pathMax expand s element leaveThis =
      if leaveThis = false ∧ sIsdir s.mode = true ∧
          sIslnk (fs.mode (w.newpath ++ slash :: element)) = true ∧
          s.linkRecursion < maxLinkRecursion then
        match fs.readlink (w.newpath ++ slash :: element) with
        | none => some (0, s.appended fs (w.newpath ++ slash :: element) element)
        | some link =>
          (expand ((s.appended fs (w.newpath ++ slash :: element) element).expandFrom root
            (s.current + 1 + element.length) element.length (link.take pathMax)).enter
            (link.take pathMax)).map fun r => (r.1, r.2.leave)
      else some (1, s.appended fs (w.newpath ++ slash :: element) element) := by
  have htext : w.newpath ++ slash :: element =
      (((s.write s.current [slash]).write (s.current + 1) element).write
        (s.current + 1 + element.length) [0]).text allocated := by
    rw [← h.text]
    exact (string_append h.inside hel (Nat.le_of_not_lt hroom) s.mode).symm
  unfold appendElementAt
  rw [if_neg hskip, if_neg hup, if_neg hroom, htext]
  rfl

theorem refines_leave {n : Nat} {o : Option Walk} (h : Refines root allocated (n + 1) r o) :
    Refines root allocated n (r.1, r.2.leave) o := by
  cases o with
  | none => exact h
  | some w =>
    obtain ⟨hret, hshows, hcounter⟩ := h
    exact ⟨hret, shows_leave hshows, by rw [NewPath.leave, hcounter, Nat.add_sub_cancel]⟩

/-- The step lemma. -/
theorem appendElementAt_refines {expand : NewPath → Bytes → Returning} (hlinks : fs.CLinks)
    (hexpand : ∀ s' w' link r, s'.linkRecursion = s.linkRecursion + 1 →
      s'.Shows root allocated w' → IsCString link → expand s' link = some r →
      Refines root allocated s'.linkRecursion r (appendElements fs root allocated pathMax
        (maxLinkRecursion - s'.linkRecursion) w' link link.length false))
    (h : s.Shows root allocated w) (hel : 0 ∉ element)
    (hrun : appendElementAt fs root allocated pathMax expand s element leaveThis = some r) :
    Refines root allocated s.linkRecursion r (appendElement fs root allocated pathMax
      (expandLinks fs root allocated pathMax (maxLinkRecursion - s.linkRecursion)) w element
      leaveThis) := by
  have hlen : w.newpath.length = s.current := h.length
  have hsame : ∀ n : Int, n ≠ -1 → Refines root allocated s.linkRecursion (n, s) (some w) :=
    fun n hn => ⟨hn, h, rfl⟩
  unfold appendElement
  simp only [hlen, ← h.mode]
  rcases Decidable.em (sIsdir s.mode = true ∧ (element = [] ∨ element = [dot])) with hskip | hskip
  · unfold appendElementAt at hrun
    rw [if_pos hskip] at hrun ⊢
    cases hrun
    exact hsame 0 (by decide)
  · rw [if_neg hskip]
    rcases Decidable.em (sIsdir s.mode = true ∧ element = [dot, dot]) with hup | hup
    · unfold appendElementAt at hrun
      rw [if_neg hskip, if_pos hup] at hrun
      rw [if_pos hup]
      split at hrun
      · rename_i hroot
        rw [if_pos hroot]
        cases hrun
        exact hsame 0 (by decide)
      · rename_i hroot
        rw [if_neg hroot]
        cases hrun
        have hback := root_le_previousSlash s.mem (Nat.le_of_not_le hroot)
        have hle := previousSlash_le s.mem root s.current
        refine ⟨show (1 : Int) ≠ -1 by decide, ⟨inside_cut h.inside hback hle _, ?_, rfl⟩, rfl⟩
        rw [string_cut h.inside hback hle, take_previousSlash h.inside, h.text]
    · rw [if_neg hup]
      rcases Decidable.em (allocated < s.current + element.length + 3) with hlong | hroom
      · unfold appendElementAt at hrun
        rw [if_neg hskip, if_neg hup, if_pos hlong] at hrun
        rw [if_pos hlong]
        cases hrun
        rfl
      · rw [appendElementAt_eq h hel hskip hup hroom] at hrun
        rw [if_neg hroom]
        have hfits := Nat.le_of_not_lt hroom
        have happended : ∀ n : Int, n ≠ -1 → Refines root allocated s.linkRecursion
            (n, s.appended fs (w.newpath ++ slash :: element) element)
            (some ⟨w.newpath ++ slash :: element, fs.mode (w.newpath ++ slash :: element)⟩) :=
          fun n hn => ⟨hn, shows_appended h hel hfits, rfl⟩
        split at hrun
        · rename_i hlink
          obtain ⟨hleave, hdir, hlnk, hless⟩ := hlink
          rw [if_pos ⟨hleave, hdir, hlnk⟩]
          obtain ⟨d, hd⟩ := Nat.exists_eq_add_of_lt hless
          have hdepth : maxLinkRecursion - s.linkRecursion = d + 1 := by omega
          rw [hdepth, expandLinks]
          cases hread : fs.readlink (w.newpath ++ slash :: element) with
          | none =>
            rw [hread] at hrun
            cases hrun
            exact happended 0 (by decide)
          | some link =>
            rw [hread] at hrun
            obtain ⟨r', hr', rfl⟩ := Option.map_eq_some_iff.mp hrun
            have hc : IsCString (link.take pathMax) :=
              fun h0 => hlinks _ link hread (List.mem_of_mem_take h0)
            have hnext : Refines root allocated (s.linkRecursion + 1) r' (appendElements fs root
                allocated pathMax (maxLinkRecursion - (s.linkRecursion + 1))
                (expandFrom root w (link.take pathMax)) (link.take pathMax)
                (link.take pathMax).length false) :=
              hexpand _ _ _ r' rfl (shows_enter (shows_expandFrom h hel hfits _)) hc hr'
            have hdepth' : maxLinkRecursion - (s.linkRecursion + 1) = d := by omega
            rw [hdepth'] at hnext
            exact refines_leave hnext
        · rename_i hlink
          cases hrun
          split
          · rename_i hcond
            -- links nest as deep as they may
            have hdepth : maxLinkRecursion - s.linkRecursion = 0 :=
              Nat.sub_eq_zero_of_le (Nat.le_of_not_lt fun hless =>
                hlink ⟨hcond.1, hcond.2.1, hcond.2.2, hless⟩)
            rw [hdepth]
            exact happended 1 (by decide)
          · exact happended 1 (by decide)

/-! ## 3. The elements of a string -/

theorem nextElement_append {b : Byte} {rest : Bytes} (hslash : slash ∉ element)
    (hnul : 0 ∉ element) (hb : b = slash ∨ b = 0) :
    nextElement (element ++ b :: rest) = element := by
  have hall : ∀ x ∈ element, decide (x ≠ slash ∧ x ≠ 0) = true := by
    intro x hx
    rw [decide_eq_true_eq]
    exact ⟨fun h => hslash (h ▸ hx), fun h => hnul (h ▸ hx)⟩
  rw [nextElement, List.takeWhile_append_of_pos hall, List.takeWhile_cons_of_neg,
    List.append_nil]
  rw [decide_eq_true_eq]
  rintro ⟨hns, hn0⟩
  exact hb.elim hns hn0

theorem elements_zero (ps : List Bytes) : elements 0 ps = [] := by
  rw [elements]

theorem elements_cons {n : Nat} {piece : Bytes} {ps : List Bytes} (h : ps ≠ []) :
    elements (n + 1) (piece :: ps) = (piece, false) :: elements (n - piece.length) ps := by
  cases ps with
  | nil => exact absurd rfl h
  | cons q ps => rw [elements]; simp

/-- After an element the loop stops at -1, or goes on from the buffer that shows the next walk. -/
theorem refines_next {n : Nat} {r₁ : Int × NewPath} {o : Option Walk} {next : NewPath → Returning}
    {nextWalk : Walk → Option Walk} (hstep : Refines root allocated n r₁ o)
    (hrun : (if r₁.1 = -1 then some (-1, r₁.2.note) else next r₁.2.note) = some r)
    (hnext : ∀ s w, s.linkRecursion = n → s.Shows root allocated w → next s = some r →
      Refines root allocated n r (nextWalk w)) :
    Refines root allocated n r
      (match o with
      | some w => nextWalk w
      | none => none) := by
  cases o with
  | none =>
    have hret : r₁.1 = -1 := hstep
    rw [if_pos hret] at hrun
    cases hrun
    rfl
  | some w =>
    obtain ⟨hret, hshows, hcounter⟩ := hstep
    rw [if_neg hret] at hrun
    exact hnext r₁.2.note w hcounter (shows_note hshows) hrun

/-- The run lemma. The string behind `path` goes down with the list of its pieces. -/
theorem appendLoopAt_refines {append : NewPath → Bytes → Bool → Returning}
    {appendWalk : Walk → Bytes → Bool → Option Walk} {n : Nat}
    (happend : ∀ s w element leaveThis r, s.linkRecursion = n → s.Shows root allocated w →
      0 ∉ element → append s element leaveThis = some r →
      Refines root allocated n r (appendWalk w element leaveThis))
    (hc : IsCString path) (helen : elen ≤ path.length) (hn : s.linkRecursion = n)
    (h : s.Shows root allocated w)
    (hrun : appendLoopAt append leaveLast steps (path ++ [0]) elen s = some r) :
    Refines root allocated n r
      (appendLoop appendWalk leaveLast (elements elen (path.splitOn slash)) w) := by
  induction steps generalizing path elen s w with
  | zero => cases hrun
  | succ steps ih =>
    rw [appendLoopAt] at hrun
    split at hrun
    · rename_i hstop
      have hnone : elements elen (path.splitOn slash) = [] := by
        rcases hstop with rfl | hhead
        · exact elements_zero _
        · cases path with
          | nil => cases elen <;> rfl
          | cons b path => exact absurd (by simp_all) hc
      cases hrun
      rw [hnone]
      exact ⟨show (1 : Int) ≠ -1 by decide, h, hn⟩
    · rename_i hmore
      obtain ⟨helen0, hhead⟩ := not_or.mp hmore
      obtain ⟨k, rfl⟩ := Nat.exists_eq_succ_of_ne_zero helen0
      dsimp only at hrun
      rcases Decidable.em (slash ∈ path) with hmem | hlast
      · obtain ⟨e, rest, rfl, he⟩ := List.eq_append_cons_of_mem hmem
        have hcs : 0 ∉ e ∧ 0 ∉ rest :=
          ⟨fun h0 => hc (by simp [h0]), fun h0 => hc (by simp [h0])⟩
        rw [List.append_assoc, List.cons_append,
          nextElement_append he hcs.1 (.inl rfl)] at hrun
        have hget : (e ++ slash :: (rest ++ [0]))[e.length]? = some slash := by simp
        have hdrop : (e ++ slash :: (rest ++ [0])).drop (e.length + 1) = rest ++ [0] := by simp
        rw [hget, hdrop] at hrun
        obtain ⟨r₁, hr₁, hrun⟩ := Option.bind_eq_some_iff.mp hrun
        have hstep := happend s.note w e _ r₁ hn (shows_note h) hcs.1 hr₁
        rw [List.splitOn_append_cons_self_of_not_mem he,
          elements_cons (List.splitOn_ne_nil slash rest), appendLoop]
        simp only [beq_self_eq_true, Bool.not_true, Bool.and_false] at hstep
        simp only [Bool.false_and]
        have hlen : k + 1 - (e.length + 1) = k - e.length := by omega
        rw [Nat.succ_eq_add_one, hlen] at hrun
        refine refines_next hstep hrun fun s w hs hw hnext => ih hcs.2 ?_ hs hw hnext
        simp only [List.length_append, List.length_cons] at helen
        omega
      · have hne : path ≠ [] := by
          rintro rfl
          simp at hhead
        rw [nextElement_append hlast hc (.inr rfl)] at hrun
        have hget : (path ++ [0])[path.length]? = some 0 := by simp
        have hdrop : (path ++ [0]).drop (path.length + 1) = [] := by simp
        rw [hget, hdrop] at hrun
        obtain ⟨r₁, hr₁, hrun⟩ := Option.bind_eq_some_iff.mp hrun
        have hstep := happend s.note w path _ r₁ hn (shows_note h) hc hr₁
        have hflag : (leaveLast && !((some 0 : Option Byte) == some slash)) = leaveLast := by
          rw [show ((some 0 : Option Byte) == some slash) = false from rfl, Bool.not_false,
            Bool.and_true]
        rw [hflag] at hstep
        rw [List.splitOn_eq_singleton hlast, elements, if_neg hne, appendLoop, Bool.true_and]
        refine refines_next hstep hrun fun s w hs hw hnext => ?_
        -- nothing is behind the last element
        have hend : k.succ - (path.length + 1) = 0 := by omega
        cases steps with
        | zero => cases hnext
        | succ steps =>
          rw [appendLoopAt, if_pos (.inl hend)] at hnext
          cases hnext
          exact ⟨show (1 : Int) ≠ -1 by decide, hw, hs⟩

theorem appendElementsAt_refines (hlinks : fs.CLinks) (hc : IsCString path)
    (helen : elen ≤ path.length) (h : s.Shows root allocated w)
    (hrun : appendElementsAt fs root allocated pathMax steps s (path ++ [0]) elen leaveLast =
      some r) :
    Refines root allocated s.linkRecursion r (appendElements fs root allocated pathMax
      (maxLinkRecursion - s.linkRecursion) w path elen leaveLast) := by
  induction steps generalizing s w path elen leaveLast r with
  | zero => cases hrun
  | succ steps ih =>
    rw [appendElementsAt] at hrun
    rw [appendElements_eq]
    refine appendLoopAt_refines (fun s' w' e l r' hs' hw' he happ => ?_) hc helen rfl h hrun
    rw [← hs']
    exact appendElementAt_refines hlinks
      (fun _ _ link _ _ hshows hclink hexpand => ih hclink (Nat.le_refl link.length) hshows hexpand)
      hw' he happ

/-! ## 4. The whole path -/

/-- The base, or nothing, before the first element. -/
theorem shows_start {base : Bytes} {rootlen baselen : Nat} (h : s.Filled pathMax 0)
    (hbase : IsCString base) (hlen : baselen ≤ base.length) (hroot : rootlen ≤ baselen)
    (hroom : baselen + 2 ≤ pathMax) :
    ((s.start base path rootlen baselen).statStart fs pathMax rootlen).Shows rootlen pathMax
      ⟨startPath base path rootlen baselen,
        if rootlen < (startPath base path rootlen baselen).length then
          fs.mode (startPath base path rootlen baselen) else sIfdir⟩ := by
  have hinside : NewPath.Inside rootlen pathMax (s.start base path rootlen baselen) :=
    inside_start h hbase hlen hroot hroom (s.start base path rootlen baselen).mode
  have htake : (base.take baselen).length = baselen := List.length_take_of_le hlen
  have htext : (s.start base path rootlen baselen).text pathMax =
      startPath base path rootlen baselen := by
    rw [string_eq_read hinside.toTerminated]
    unfold NewPath.start startPath
    dsimp only
    split
    · have hread : read (store (store s.mem ⟨0, [0]⟩) ⟨0, base.take baselen⟩) 0 baselen =
          base.take baselen := by
        have := read_store_self (store s.mem ⟨0, [0]⟩) 0 (base.take baselen)
        rwa [htake] at this
      exact (read_store_before (show 0 + baselen ≤ baselen by omega)).trans hread
    · rfl
  have hcurrent : (s.start base path rootlen baselen).current =
      (startPath base path rootlen baselen).length := by
    rw [← htext, length_text hinside.toTerminated]
  refine ⟨inside_start h hbase hlen hroot hroom _, htext, ?_⟩
  show (if rootlen < (s.start base path rootlen baselen).current then
    fs.mode ((s.start base path rootlen baselen).text pathMax) else sIfdir) = _
  rw [htext, hcurrent]

/-- The slash at the end, if there is to be one. -/
theorem string_finish (h : s.Inside root pathMax) (hmax : pathMax < 2 ^ 31) (rootlen : Nat)
    (trailing : Bool) :
    (s.finish pathMax rootlen trailing).text pathMax =
      if (s.current = rootlen ∨ trailing = true) ∧ s.current < pathMax then
        s.text pathMax ++ [slash]
      else s.text pathMax := by
  have hint : (BitVec.ofNat 32 pathMax).toInt = pathMax := by
    have hnat : (BitVec.ofNat 32 pathMax).toNat = pathMax := by
      rw [BitVec.toNat_ofNat]
      exact Nat.mod_eq_of_lt (by omega)
    rw [BitVec.toInt_eq_toNat_of_lt (by omega), hnat]
  have hterminated := terminated_finish h rootlen trailing
  unfold NewPath.finish at hterminated ⊢
  simp only [hint, Int.ofNat_lt] at hterminated ⊢
  split
  · rename_i hslash
    rw [if_pos hslash] at hterminated
    rw [string_eq_read hterminated, string_eq_read h.toTerminated]
    have hslash := holds_store_append s.mem 0 s.current [slash]
    rw [Holds, List.length_append, length_read, List.length_singleton, Nat.zero_add] at hslash
    exact (read_store_before (Nat.le_of_eq (Nat.zero_add _))).trans hslash
  · rfl

end Refinement

/-- A call returns what it returns on lists, whatever the buffer held before. -/
theorem run_refines (call : FixPathCall) (hlinks : call.fs.CLinks) (hmax : call.pathMax < 2 ^ 31)
    (hpath : call.path ≠ []) (hc : IsCString call.path)
    (hbase : call.base.length = call.baselen) (hcbase : IsCString call.base)
    (hroot : call.rootlen ≤ call.baselen) {steps : Nat} (hsteps : call.steps ≤ steps) :
    (call.run steps 0).map FixPathRun.fixed =
      some (pseudoFixPath call.fs call.pathMax call.base call.path call.rootlen call.baselen
        call.leaveLast) := by
  obtain ⟨r, hr, -⟩ := run_returns call 0
  have hrun := hr steps hsteps
  rw [hrun, Option.map_some]
  congr 1
  obtain ⟨fs, pathMax, base, path, rootlen, baselen, leaveLast, heap⟩ := call
  dsimp only at hlinks hmax hpath hc hbase hcbase hroot hrun ⊢
  unfold FixPathCall.run fixPathAt at hrun
  dsimp only at hrun
  simp only [pseudoFixPath]
  split at hrun
  · rename_i hlong
    rw [if_pos hlong]
    cases hrun
    rfl
  · rename_i hshort
    rw [if_neg hshort]
    obtain ⟨⟨retval, s⟩, happ, rfl⟩ := Option.map_eq_some_iff.mp hrun
    have hle : skipSlash baselen ≤ base.length := hbase ▸ skipSlash_le baselen
    have hpos := List.length_pos_iff.mpr hpath
    have hstart := @shows_start fs pathMax _ path base (skipSlash rootlen) (skipSlash baselen)
      (filled_ofHeap heap 0) hcbase hle (skipSlash_le_skipSlash hroot) (by omega)
    have hcounter := (start_counters (NewPath.ofHeap heap 0) base path (skipSlash rootlen)
      (skipSlash baselen)).1
    have hrefines := appendElementsAt_refines hlinks hc (length_trimSlashes_le path) hstart happ
    have hzero : (((NewPath.ofHeap heap 0).start base path (skipSlash rootlen)
        (skipSlash baselen)).statStart fs pathMax (skipSlash rootlen)).linkRecursion = 0 :=
      hcounter
    rw [hzero, Nat.sub_zero] at hrefines
    generalize appendElements fs (skipSlash rootlen) pathMax pathMax maxLinkRecursion
      ⟨startPath base path (skipSlash rootlen) (skipSlash baselen), _⟩ path
      (trimSlashes path).length leaveLast = o at hrefines ⊢
    unfold FixPathRun.ofReturn
    cases o with
    | none =>
      have hret : retval = -1 := hrefines
      rw [if_pos hret]
    | some w =>
      obtain ⟨hret, hshows, -⟩ := hrefines
      have hlen : w.newpath.length = s.current := hshows.length
      have htext : s.text pathMax = w.newpath := hshows.text
      rw [if_neg hret]
      show Fixed.built ((s.finish pathMax (skipSlash rootlen) _).text pathMax) = _
      rw [string_finish hshows.inside hmax, htext]
      simp only [hlen, decide_eq_true_eq]
      split <;> rfl

end Pseudo
