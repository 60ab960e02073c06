import Pseudo.FixPath
import Pseudo.Library.Block

/-!
# Canonical paths in their buffer

`pseudo_fix_path` and its two helpers on the memory that they share: the buffer `newpath`, the
cursor in it, and the static counter of nested links. The helpers call each other for as long as the
file system has them expand links, so they are run with a number of steps, and a result is one that
does not run out of these. `lstat` and `readlink` answer as they like; what `readlink` gives may hold
NUL bytes.

Results:
1. `returns_appendElements`: with enough steps the helpers return; they leave the counter as it was
   and the cursor in the buffer.
2. `fixPath_stays_inside`: what `pseudo_fix_path` writes, and the length it reports.
3. `fixPathCalls_return`: it returns on every file system, and nothing but the result is left of it.
-/

namespace Pseudo

open Block

/-- The buffer, `*pcurrent` as an offset in it, `buf->st_mode` and the static `link_recursion`. Next
to these stands what has happened up to now: the writes to the buffer, the cursor with the byte that
it points at before and after each element, and the greatest value of `link_recursion`. -/
structure NewPath where
  mem : Nat → Byte
  current : Nat
  mode : BitVec 64
  linkRecursion : Nat
  writes : List (Write Byte)
  cursors : List (Nat × Byte)
  deepest : Nat

namespace NewPath

def write (s : NewPath) (offset : Nat) (bytes : Bytes) : NewPath :=
  { s with mem := store s.mem ⟨offset, bytes⟩, writes := s.writes ++ [⟨offset, bytes⟩] }

def note (s : NewPath) : NewPath :=
  { s with cursors := s.cursors ++ [(s.current, s.mem s.current)] }

/-- The string in the buffer. -/
def text (s : NewPath) (allocated : Nat) : Bytes := cstr (read s.mem 0 allocated)

/-- `++link_recursion` -/
def enter (s : NewPath) : NewPath :=
  { s with linkRecursion := s.linkRecursion + 1,
           deepest := max s.deepest (s.linkRecursion + 1) }

/-- `--link_recursion` -/
def leave (s : NewPath) : NewPath := { s with linkRecursion := s.linkRecursion - 1 }

end NewPath

/-- `while (current > root && *current != '/') --current;` -/
def previousSlash (mem : Nat → Byte) (root : Nat) : Nat → Nat
  | 0 => 0
  | n + 1 => if root < n + 1 ∧ mem (n + 1) ≠ slash then previousSlash mem root n else n + 1

/-- A function that returns -1 or a number of elements, unless it runs out of steps. -/
abbrev Returning := Option (Int × NewPath)

/-- Where the expansion of a link starts: absolute contents go back to the root, others to the end
of the previous path. -/
def NewPath.expandFrom (s : NewPath) (root current elen : Nat) (link : Bytes) : NewPath :=
  let current := if link.head? = some slash then root else current - (elen + 1)
  { s.write current [0] with current := current, mode := sIfdir }

/-- `pseudo_append_element`. -/
def appendElementAt (fs : Fs) (root allocated pathMax : Nat)
    (expand : NewPath → Bytes → Returning) (s : NewPath) (element : Bytes) (leaveThis : Bool) :
    Returning :=
  let isDir := sIsdir s.mode
  -- ignore // or /./
  if isDir ∧ (element = [] ∨ element = [dot]) then some (0, s)
  else if isDir ∧ element = [dot, dot] then
    if s.current ≤ root then some (0, s)
    else
      let current := previousSlash s.mem root s.current
      some (1, { s.write current [0] with current := current })
  else if allocated < s.current + element.length + 3 then some (-1, s)
  else
    let current := s.current + 1 + element.length
    let s := ((s.write s.current [slash]).write (s.current + 1) element).write current [0]
    let s := { s with mode := fs.mode (s.text allocated) }
    -- uses the "stale" is_dir for the file we were appending to
    if leaveThis = false ∧ isDir ∧ sIslnk s.mode ∧ s.linkRecursion < maxLinkRecursion then
      match fs.readlink (s.text allocated) with
      | none => some (0, { s with current := current })
      | some link =>
        let link := link.take pathMax
        (expand (s.expandFrom root current element.length link).enter link).map fun r =>
          (r.1, r.2.leave)
    else some (1, { s with current := current })

/-- The element that a string starts with. -/
def nextElement (text : Bytes) : Bytes := text.takeWhile fun b => b ≠ slash ∧ b ≠ 0

/-- The loop of `pseudo_append_elements`; `text` is what lies behind `path`, and `elen` how much of
it is to be appended. -/
def appendLoopAt (append : NewPath → Bytes → Bool → Returning) (leaveLast : Bool) :
    Nat → Bytes → Nat → NewPath → Returning
  | 0, _, _, _ => none
  | steps + 1, text, elen, s =>
    if elen = 0 ∨ text.head? = some 0 then some (1, s)
    else
      let element := nextElement text
      let leaveThis := leaveLast && !(text[element.length]? == some slash)
      (append s.note element leaveThis).bind fun r =>
        if r.1 = -1 then some (-1, r.2.note)
        else
          appendLoopAt append leaveLast steps (text.drop (element.length + 1))
            (elen - (element.length + 1)) r.2.note

/-- `pseudo_append_elements`, with a buffer for `lstat` that is there. -/
def appendElementsAt (fs : Fs) (root allocated pathMax : Nat) :
    Nat → NewPath → Bytes → Nat → Bool → Returning
  | 0, _, _, _, _ => none
  | steps + 1, s, text, elen, leaveLast =>
    let expand (s : NewPath) (link : Bytes) : Returning :=
      appendElementsAt fs root allocated pathMax steps s (link ++ [0]) link.length false
    appendLoopAt (appendElementAt fs root allocated pathMax expand) leaveLast steps text elen s

/-- What `pseudo_fix_path` leaves: its result, `*lenp`, and the state of its buffer. -/
structure FixPathRun where
  fixed : Fixed
  lenp : Option Nat
  buffer : NewPath

/-- Before anything is written. -/
def NewPath.ofHeap (heap : Nat → Byte) (linkRecursion : Nat) : NewPath :=
  ⟨heap, 0, 0, linkRecursion, [], [], linkRecursion⟩

/-- What is written before the first element: the base, unless the path is absolute and there is no
root. -/
def NewPath.start (s : NewPath) (base path : Bytes) (rootlen baselen : Nat) : NewPath :=
  let s := { s.write 0 [0] with current := 0 }
  let s :=
    if baselen ≠ 0 ∧ (path.head? ≠ some slash ∨ rootlen ≠ 0) then
      { s.write 0 (base.take baselen) with current := baselen }
    else s
  s.write s.current [0]

/-- "Don't call lstat on an empty path, or at all when we know that root is always directory-like." -/
def NewPath.statStart (s : NewPath) (fs : Fs) (pathMax rootlen : Nat) : NewPath :=
  { s with mode := if rootlen < s.current then fs.mode (s.text pathMax) else sIfdir }

/-- "If we are expecting a trailing slash, or the path ended up being completely empty, we need a
slash here." -/
def NewPath.finish (s : NewPath) (pathMax rootlen : Nat) (trailingSlash : Bool) : NewPath :=
  if (s.current = rootlen ∨ trailingSlash) ∧
      (s.current : Int) < (BitVec.ofNat 32 pathMax).toInt then
    { (s.write s.current [slash]).write (s.current + 1) [0] with current := s.current + 1 }
  else s

/-- What becomes of the return value of `pseudo_append_elements`. -/
def FixPathRun.ofReturn (pathMax rootlen : Nat) (trailingSlash : Bool) (r : Int × NewPath) :
    FixPathRun :=
  if r.1 = -1 then ⟨.null, none, r.2⟩
  else
    let s := r.2.finish pathMax rootlen trailingSlash
    ⟨.built (s.text pathMax), some s.current, s.note⟩

/-- `pseudo_fix_path`; `newpathlen` is `pathMax`, `heap` what the buffer holds before, and
`linkRecursion` the value of the static counter. The buffer has been allocated. -/
def fixPathAt (steps : Nat) (fs : Fs) (pathMax : Nat) (base path : Bytes) (rootlen baselen : Nat)
    (leaveLast : Bool) (heap : Nat → Byte) (linkRecursion : Nat) : Option FixPathRun :=
  let baselen := skipSlash baselen
  let rootlen := skipSlash rootlen
  let s := NewPath.ofHeap heap linkRecursion
  if pathMax ≤ path.length + baselen then some ⟨.same, none, s⟩
  else
    let pathlen := (trimSlashes path).length
    let trailingSlash := decide (pathlen < path.length)
    let s := (s.start base path rootlen baselen).statStart fs pathMax rootlen
    (appendElementsAt fs rootlen pathMax pathMax steps s (path ++ [0]) pathlen leaveLast).map
      (FixPathRun.ofReturn pathMax rootlen trailingSlash)

/-- A call of `pseudo_fix_path`, with the file system that it finds and its buffer. -/
structure FixPathCall where
  fs : Fs
  pathMax : Nat
  base : Bytes
  path : Bytes
  rootlen : Nat
  baselen : Nat
  leaveLast : Bool
  heap : Nat → Byte

def FixPathCall.run (call : FixPathCall) (steps linkRecursion : Nat) : Option FixPathRun :=
  fixPathAt steps call.fs call.pathMax call.base call.path call.rootlen call.baselen
    call.leaveLast call.heap linkRecursion

/-- Steps that are enough for a call. -/
def FixPathCall.steps (call : FixPathCall) : Nat :=
  call.path.length + call.pathMax + maxLinkRecursion + 2

/-- Calls one after the other. The counter is static, so each starts with what the one before has
left. -/
def fixPathCalls (steps : Nat) : List FixPathCall → Nat → Option (List FixPathRun × Nat)
  | [], linkRecursion => some ([], linkRecursion)
  | call :: calls, linkRecursion =>
    (call.run steps linkRecursion).bind fun r =>
      (fixPathCalls steps calls r.buffer.linkRecursion).map fun rest => (r :: rest.1, rest.2)

/-! ## What holds between two elements -/

/-- The buffer holds `n` bytes of a string. Nothing has been written behind its end, and the cursor
has always pointed at a NUL in it. -/
structure NewPath.Filled (allocated n : Nat) (s : NewPath) : Prop where
  text : ∀ i < n, s.mem i ≠ 0
  writes : Block.Within allocated s.writes
  cursors : ∀ c ∈ s.cursors, c.1 < allocated ∧ c.2 = 0

/-- The cursor points at the NUL behind the string. -/
structure NewPath.Terminated (allocated : Nat) (s : NewPath) : Prop
    extends s.Filled allocated s.current where
  bound : s.current < allocated
  nul : s.mem s.current = 0

/-- The root does not cut the string short, and another byte fits in the buffer. -/
structure NewPath.Inside (root allocated : Nat) (s : NewPath) : Prop
    extends s.Terminated allocated where
  root : root ≤ s.current
  room : s.current + 2 ≤ allocated

/-- What a call of the helpers leaves of the state before it. -/
structure NewPath.Keeps (root allocated : Nat) (s s' : NewPath) : Prop where
  counter : s'.linkRecursion = s.linkRecursion
  deepest : s'.deepest ≤ max s.deepest maxLinkRecursion
  inside : s.Inside root allocated → s'.Inside root allocated

/-- Nothing is written behind the end of the buffer, and the length is that of the result. -/
def FixPathRun.Sound (pathMax : Nat) (r : FixPathRun) : Prop :=
  r.buffer.Filled pathMax 0 ∧
    ∀ n, r.lenp = some n → ∃ result, r.fixed = .built result ∧ result.length = n

/-- A call returns. -/
def ReturnsTo (root allocated : Nat) (s : NewPath) (r : Returning) : Prop :=
  ∃ retval s', r = some (retval, s') ∧ s.Keeps root allocated s'

namespace FixPathBufferLemmas

variable {fs : Fs} {root allocated pathMax steps elen c : Nat} {s s' s'' : NewPath}
  {expand : NewPath → Bytes → Returning} {append : NewPath → Bytes → Bool → Returning}
  {element text : Bytes} {leaveThis leaveLast : Bool}

/-! ## The buffer -/

theorem keeps_refl (root allocated : Nat) (s : NewPath) : s.Keeps root allocated s :=
  ⟨rfl, Nat.le_max_left .., id⟩

theorem keeps_trans (h : s.Keeps root allocated s') (h' : s'.Keeps root allocated s'') :
    s.Keeps root allocated s'' :=
  ⟨h'.counter.trans h.counter,
    Nat.le_trans h'.deepest (Nat.max_le.mpr ⟨h.deepest, Nat.le_max_right ..⟩),
    fun hs => h'.inside (h.inside hs)⟩

theorem filled_le {n : Nat} (h : s.Filled allocated n) (hc : c ≤ n) : s.Filled allocated c :=
  ⟨fun i hi => h.text i (Nat.lt_of_lt_of_le hi hc), h.writes, h.cursors⟩

theorem filled_write (h : s.Filled allocated c) (htext : 0 ∉ text)
    (hroom : c + text.length ≤ allocated) :
    (s.write c text).Filled allocated (c + text.length) := by
  refine ⟨fun i hi => ?_, within_append.mpr ⟨h.writes, within_cons.mpr ⟨hroom, within_nil⟩⟩,
    h.cursors⟩
  unfold NewPath.write store
  dsimp only
  split
  · have hlt : i - c < text.length := by omega
    rw [List.getElem?_eq_getElem hlt]
    intro h0
    exact htext (h0 ▸ List.getElem_mem hlt)
  · rename_i hout
    exact h.text i (Nat.lt_of_not_le hout)

/-- Ending the string. -/
theorem terminated_write (h : s.Filled allocated c) (hc : c < allocated) (mode : BitVec 64) :
    NewPath.Terminated allocated { s.write c [0] with current := c, mode := mode } := by
  refine ⟨⟨fun i hi => ?_, ?_, h.cursors⟩, hc, holds_singleton.mp (holds_store_self s.mem c [0])⟩
  · have hsame : (s.write c [0]).mem i = s.mem i := store_of_lt hi
    dsimp only
    rw [hsame]
    exact h.text i hi
  · exact within_append.mpr ⟨h.writes, within_cons.mpr ⟨hc, within_nil⟩⟩

theorem inside_cut (h : s.Inside root allocated) (hroot : root ≤ c) (hc : c ≤ s.current)
    (mode : BitVec 64) :
    NewPath.Inside root allocated { s.write c [0] with current := c, mode := mode } :=
  ⟨terminated_write (filled_le h.toFilled hc) (Nat.lt_of_le_of_lt hc h.bound) mode, hroot,
    Nat.le_trans (Nat.add_le_add_right hc 2) h.room⟩

/-- The string with a slash and an element behind it. -/
theorem inside_append (h : s.Inside root allocated) (hel : 0 ∉ element)
    (hroom : s.current + element.length + 3 ≤ allocated) (mode : BitVec 64) :
    NewPath.Inside root allocated
      { ((s.write s.current [slash]).write (s.current + 1) element).write
          (s.current + 1 + element.length) [0] with
        current := s.current + 1 + element.length, mode := mode } := by
  have hroot := h.root
  have hzero : (0 : Byte) ∉ [slash] := by decide
  have hfirst : s.current + 1 ≤ allocated := by omega
  have hslash : (s.write s.current [slash]).Filled allocated (s.current + 1) :=
    filled_write h.toFilled hzero hfirst
  have hlast : s.current + 1 + element.length ≤ allocated := by omega
  have helement := filled_write hslash hel hlast
  refine ⟨terminated_write helement (by omega) mode, ?_, ?_⟩
  · dsimp only
    omega
  · dsimp only
    omega

theorem terminated_note (h : s.Terminated allocated) : s.note.Terminated allocated := by
  refine ⟨⟨h.text, h.writes, fun c hc => ?_⟩, h.bound, h.nul⟩
  rcases List.mem_append.mp hc with hold | hnew
  · exact h.cursors c hold
  · cases List.mem_singleton.mp hnew
    exact ⟨h.bound, h.nul⟩

theorem inside_note (h : s.Inside root allocated) : s.note.Inside root allocated :=
  ⟨terminated_note h.toTerminated, h.root, h.room⟩

theorem keeps_note (root allocated : Nat) (s : NewPath) : s.Keeps root allocated s.note :=
  ⟨rfl, Nat.le_max_left .., inside_note⟩

theorem previousSlash_le (mem : Nat → Byte) (root n : Nat) : previousSlash mem root n ≤ n := by
  induction n with
  | zero => exact Nat.le_refl 0
  | succ n ih =>
    rw [previousSlash]
    split
    · exact Nat.le_succ_of_le ih
    · exact Nat.le_refl _

theorem root_le_previousSlash (mem : Nat → Byte) {n : Nat} (h : root ≤ n) :
    root ≤ previousSlash mem root n := by
  induction n with
  | zero => exact h
  | succ n ih =>
    rw [previousSlash]
    split
    · rename_i hback
      exact ih (Nat.le_of_lt_succ hback.1)
    · exact h

/-- The counter of links says nothing about the buffer. -/
theorem inside_enter (h : s.Inside root allocated) : s.enter.Inside root allocated :=
  ⟨⟨⟨h.text, h.writes, h.cursors⟩, h.bound, h.nul⟩, h.root, h.room⟩

theorem inside_leave (h : s.Inside root allocated) : s.leave.Inside root allocated :=
  ⟨⟨⟨h.text, h.writes, h.cursors⟩, h.bound, h.nul⟩, h.root, h.room⟩

/-! ## One element -/

theorem returns_some {retval : Int} (h : s.Keeps root allocated s') :
    ReturnsTo root allocated s (some (retval, s')) := ⟨retval, s', rfl, h⟩

/-- The expansion of a link, from the end of the element on. -/
theorem returns_expand {link : Bytes} {n : Nat}
    (hexpand : ReturnsTo root allocated (s'.expandFrom root c n link).enter
      (expand (s'.expandFrom root c n link).enter link))
    (hcounter : s'.linkRecursion = s.linkRecursion) (hdeepest : s'.deepest = s.deepest)
    (hless : s.linkRecursion < maxLinkRecursion)
    (hinside : s.Inside root allocated → (s'.expandFrom root c n link).Inside root allocated) :
    ReturnsTo root allocated s
      ((expand (s'.expandFrom root c n link).enter link).map fun r => (r.1, r.2.leave)) := by
  obtain ⟨retval, s₁, hr, hkeeps⟩ := hexpand
  have henter : s₁.linkRecursion = s'.linkRecursion + 1 := hkeeps.counter
  have hdeep : s₁.deepest ≤ max (max s'.deepest (s'.linkRecursion + 1)) maxLinkRecursion :=
    hkeeps.deepest
  rw [hr]
  refine returns_some ⟨?_, ?_, fun hs => ?_⟩
  · unfold NewPath.leave
    dsimp only
    omega
  · unfold NewPath.leave
    dsimp only
    omega
  · exact inside_leave (hkeeps.inside (inside_enter (hinside hs)))

theorem returns_appendElementAt (hel : 0 ∉ element)
    (hexpand : s.linkRecursion < maxLinkRecursion → ∀ s' link,
      s'.linkRecursion = s.linkRecursion + 1 → link.length ≤ pathMax →
      ReturnsTo root allocated s' (expand s' link)) :
    ReturnsTo root allocated s
      (appendElementAt fs root allocated pathMax expand s element leaveThis) := by
  unfold appendElementAt
  dsimp only
  split
  · exact returns_some (keeps_refl ..)
  · split
    · split
      · exact returns_some (keeps_refl ..)
      · rename_i hback
        exact returns_some ⟨rfl, Nat.le_max_left .., fun hs => inside_cut hs
          (root_le_previousSlash s.mem (by omega)) (previousSlash_le s.mem root s.current) s.mode⟩
    · split
      · exact returns_some (keeps_refl ..)
      · rename_i hroom
        have hinside := fun (hs : s.Inside root allocated) mode =>
          inside_append hs hel (Nat.le_of_not_lt hroom) mode
        split
        · rename_i hlink
          split
          · exact returns_some ⟨rfl, Nat.le_max_left .., fun hs => hinside hs _⟩
          · rename_i link _
            have hlen : (link.take pathMax).length ≤ pathMax := List.length_take_le ..
            refine returns_expand (hexpand hlink.2.2.2 _ _ rfl hlen) rfl rfl hlink.2.2.2
              fun hs => ?_
            have happended := hinside hs 0
            have hroot : root ≤ s.current := hs.root
            unfold NewPath.expandFrom
            split
            · exact inside_cut happended (Nat.le_refl root) happended.root sIfdir
            · refine inside_cut happended ?_ (Nat.sub_le ..) sIfdir
              dsimp only
              omega
        · exact returns_some ⟨rfl, Nat.le_max_left .., fun hs => hinside hs _⟩

/-! ## The elements of a path -/

theorem zero_not_mem_nextElement (text : Bytes) : 0 ∉ nextElement text := by
  intro h
  have h0 := List.mem_takeWhile_imp h
  simp at h0

theorem returns_appendLoopAt (helen : elen < steps)
    (happend : ∀ s' element leaveThis, s'.linkRecursion = s.linkRecursion → 0 ∉ element →
      ReturnsTo root allocated s' (append s' element leaveThis)) :
    ReturnsTo root allocated s (appendLoopAt append leaveLast steps text elen s) := by
  induction steps generalizing text elen s with
  | zero => omega
  | succ steps ih =>
    rw [appendLoopAt]
    split
    · exact returns_some (keeps_refl ..)
    · rename_i hmore
      obtain ⟨retval, s₁, hr, hkeeps⟩ := happend s.note (nextElement text)
        (leaveLast && !(text[(nextElement text).length]? == some slash)) rfl
        (zero_not_mem_nextElement text)
      have hkeeps₁ : s.Keeps root allocated s₁.note :=
        keeps_trans (keeps_trans (keeps_note ..) hkeeps) (keeps_note ..)
      dsimp only
      rw [hr, Option.bind_some]
      split
      · exact returns_some hkeeps₁
      · have hrest : ReturnsTo root allocated s₁.note
            (appendLoopAt append leaveLast steps (text.drop ((nextElement text).length + 1))
              (elen - ((nextElement text).length + 1)) s₁.note) :=
          ih (by omega) fun s' e l hs' he => happend s' e l (hs'.trans hkeeps₁.counter) he
        obtain ⟨retval', s₂, hr', hkeeps'⟩ := hrest
        exact ⟨retval', s₂, hr', keeps_trans hkeeps₁ hkeeps'⟩

/-- Each level of nesting takes one step, and the elements of the longest link as many as it has
bytes. -/
theorem returns_appendElements (fs : Fs) (root allocated pathMax steps : Nat) (text : Bytes)
    (elen : Nat) (leaveLast : Bool)
    (hsteps : max elen pathMax + (maxLinkRecursion - s.linkRecursion) + 1 < steps) :
    ReturnsTo root allocated s
      (appendElementsAt fs root allocated pathMax steps s text elen leaveLast) := by
  induction steps generalizing s text elen leaveLast with
  | zero => omega
  | succ steps ih =>
    rw [appendElementsAt]
    refine returns_appendLoopAt (by omega) fun s' element leaveThis hs' hel =>
      returns_appendElementAt hel fun hless s₁ link hs₁ hlink =>
        ih (link ++ [0]) link.length false ?_
    omega

/-! ## More steps -/

theorem appendElementAt_mono {expand' : NewPath → Bytes → Returning} {r : Int × NewPath}
    (hexpand : ∀ s link r, expand s link = some r → expand' s link = some r)
    (h : appendElementAt fs root allocated pathMax expand s element leaveThis = some r) :
    appendElementAt fs root allocated pathMax expand' s element leaveThis = some r := by
  unfold appendElementAt at h ⊢
  dsimp only at h ⊢
  split at h
  · rename_i hskip
    rw [if_pos hskip]
    exact h
  · rename_i hskip
    rw [if_neg hskip]
    split at h
    · rename_i hback
      rw [if_pos hback]
      exact h
    · rename_i hback
      rw [if_neg hback]
      split at h
      · rename_i hlong
        rw [if_pos hlong]
        exact h
      · rename_i hlong
        rw [if_neg hlong]
        split at h
        · rename_i hlink
          rw [if_pos hlink]
          split at h
          · exact h
          · obtain ⟨r', hr', rfl⟩ := Option.map_eq_some_iff.mp h
            rw [hexpand _ _ r' hr']
            rfl
        · rename_i hlink
          rw [if_neg hlink]
          exact h

theorem appendLoopAt_mono {append' : NewPath → Bytes → Bool → Returning} {steps' : Nat}
    {r : Int × NewPath}
    (happend : ∀ s element leaveThis r, append s element leaveThis = some r →
      append' s element leaveThis = some r) (hle : steps ≤ steps')
    (h : appendLoopAt append leaveLast steps text elen s = some r) :
    appendLoopAt append' leaveLast steps' text elen s = some r := by
  induction steps generalizing steps' text elen s with
  | zero => cases h
  | succ steps ih =>
    obtain ⟨k, rfl⟩ := Nat.exists_eq_add_of_le' (Nat.le_trans (Nat.le_add_left 1 steps) hle)
    rw [appendLoopAt] at h ⊢
    split at h
    · rename_i hstop
      rw [if_pos hstop]
      exact h
    · rename_i hstop
      rw [if_neg hstop]
      dsimp only at h ⊢
      obtain ⟨r₁, hr₁, h⟩ := Option.bind_eq_some_iff.mp h
      rw [happend _ _ _ r₁ hr₁, Option.bind_some]
      split at h
      · rename_i hfail
        rw [if_pos hfail]
        exact h
      · rename_i hfail
        rw [if_neg hfail]
        exact ih (Nat.le_of_succ_le_succ hle) h

theorem appendElementsAt_mono {steps' : Nat} {r : Int × NewPath} (hle : steps ≤ steps')
    (h : appendElementsAt fs root allocated pathMax steps s text elen leaveLast = some r) :
    appendElementsAt fs root allocated pathMax steps' s text elen leaveLast = some r := by
  induction steps generalizing steps' s text elen leaveLast r with
  | zero => cases h
  | succ steps ih =>
    obtain ⟨k, rfl⟩ := Nat.exists_eq_add_of_le' (Nat.le_trans (Nat.le_add_left 1 steps) hle)
    have hle' := Nat.le_of_succ_le_succ hle
    rw [appendElementsAt] at h ⊢
    exact appendLoopAt_mono (fun _ _ _ _ =>
      appendElementAt_mono fun _ _ _ hexpand => ih hle' hexpand) hle' h

/-! ## The whole path -/

theorem fixPathAt_mono {base path : Bytes} {rootlen baselen linkRecursion steps' : Nat}
    {heap : Nat → Byte} {r : FixPathRun} (hle : steps ≤ steps')
    (h : fixPathAt steps fs pathMax base path rootlen baselen leaveLast heap linkRecursion =
      some r) :
    fixPathAt steps' fs pathMax base path rootlen baselen leaveLast heap linkRecursion =
      some r := by
  unfold fixPathAt at h ⊢
  dsimp only at h ⊢
  split at h
  · rename_i hlong
    rw [if_pos hlong]
    exact h
  · rename_i hlong
    rw [if_neg hlong]
    obtain ⟨r', hr', rfl⟩ := Option.map_eq_some_iff.mp h
    rw [appendElementsAt_mono hle hr', Option.map_some]

theorem skipSlash_le (len : Nat) : skipSlash len ≤ len := by
  unfold skipSlash
  split
  · exact Nat.zero_le _
  · exact Nat.le_refl _

theorem skipSlash_le_skipSlash {rootlen baselen : Nat} (h : rootlen ≤ baselen) :
    skipSlash rootlen ≤ skipSlash baselen := by
  unfold skipSlash
  split <;> split <;> omega

theorem filled_ofHeap (heap : Nat → Byte) (linkRecursion : Nat) :
    (NewPath.ofHeap heap linkRecursion).Filled pathMax 0 :=
  ⟨fun i hi => absurd hi (Nat.not_lt_zero i), within_nil, fun c hc => by cases hc⟩

theorem start_counters (s : NewPath) (base path : Bytes) (rootlen baselen : Nat) :
    (s.start base path rootlen baselen).linkRecursion = s.linkRecursion ∧
      (s.start base path rootlen baselen).deepest = s.deepest := by
  unfold NewPath.start
  dsimp only
  split <;> exact ⟨rfl, rfl⟩

/-- The base, ended by a NUL, leaves room for the path. -/
theorem inside_start {base path : Bytes} {rootlen baselen : Nat} (h : s.Filled pathMax 0)
    (hbase : IsCString base) (hlen : baselen ≤ base.length) (hroot : rootlen ≤ baselen)
    (hroom : baselen + 2 ≤ pathMax) (mode : BitVec 64) :
    NewPath.Inside rootlen pathMax
      { s.start base path rootlen baselen with mode := mode } := by
  have hempty : NewPath.Terminated pathMax { s.write 0 [0] with current := 0 } :=
    terminated_write h (by omega) s.mode
  have htake : (base.take baselen).length = baselen := List.length_take_of_le hlen
  have hnul : 0 ∉ base.take baselen := fun h0 => hbase (List.mem_of_mem_take h0)
  have hfits : 0 + (base.take baselen).length ≤ pathMax := by omega
  have hfilled : (NewPath.write { s.write 0 [0] with current := 0 } 0
      (base.take baselen)).Filled pathMax baselen := by
    have hwrite := filled_write hempty.toFilled hnul hfits
    rwa [htake, Nat.zero_add] at hwrite
  unfold NewPath.start
  dsimp only
  split
  · exact ⟨terminated_write hfilled (by omega) mode, hroot, hroom⟩
  · have hzero : rootlen = 0 := by
      rename_i hnone
      rcases Decidable.em (baselen = 0) with h0 | hne
      · omega
      · exact Decidable.not_not.mp fun hr => hnone ⟨hne, .inr hr⟩
    exact ⟨terminated_write hempty.toFilled hempty.bound mode, Nat.le_of_eq hzero,
      Nat.le_trans (Nat.add_le_add_right (Nat.zero_le baselen) 2) hroom⟩

/-- A slash, if there is one, still fits in front of the NUL. -/
theorem terminated_finish (h : s.Inside root pathMax) (rootlen : Nat) (trailingSlash : Bool) :
    (s.finish pathMax rootlen trailingSlash).Terminated pathMax := by
  have hroom := h.room
  have hzero : (0 : Byte) ∉ [slash] := by decide
  have hfits : s.current + 1 ≤ pathMax := by omega
  have hslash : (s.write s.current [slash]).Filled pathMax (s.current + 1) :=
    filled_write h.toFilled hzero hfits
  unfold NewPath.finish
  split
  · exact terminated_write hslash (by omega) s.mode
  · exact h.toTerminated

theorem string_eq_read (h : s.Terminated allocated) :
    s.text allocated = read s.mem 0 s.current := by
  have hstring : ∀ i < s.current, decide (s.mem (0 + i) ≠ 0) = true := by
    intro i hi
    rw [Nat.zero_add]
    exact decide_eq_true (h.text i hi)
  have hstop : decide (s.mem (0 + s.current) ≠ 0) = false := by
    rw [Nat.zero_add]
    exact decide_eq_false (not_not_intro h.nul)
  exact takeWhile_read hstring hstop h.bound

theorem length_text (h : s.Terminated allocated) : (s.text allocated).length = s.current := by
  rw [string_eq_read h, length_read]

theorem length_trimSlashes_le (path : Bytes) : (trimSlashes path).length ≤ path.length := by
  have hsub := (List.dropWhile_sublist (fun b => decide (b = slash)) (l := path.reverse)).length_le
  rw [List.length_reverse] at hsub
  rw [trimSlashes, List.length_reverse]
  exact hsub

theorem finish_counters (s : NewPath) (pathMax rootlen : Nat) (trailingSlash : Bool) :
    (s.finish pathMax rootlen trailingSlash).linkRecursion = s.linkRecursion ∧
      (s.finish pathMax rootlen trailingSlash).deepest = s.deepest := by
  unfold NewPath.finish
  split <;> exact ⟨rfl, rfl⟩

theorem sound_ofReturn (h : s.Inside root pathMax) (retval : Int) (rootlen : Nat)
    (trailingSlash : Bool) :
    (FixPathRun.ofReturn pathMax rootlen trailingSlash (retval, s)).Sound pathMax := by
  unfold FixPathRun.ofReturn
  split
  · exact ⟨filled_le h.toFilled (Nat.zero_le _), fun n hn => by cases hn⟩
  · have hfinish := terminated_finish h rootlen trailingSlash
    refine ⟨filled_le (terminated_note hfinish).toFilled (Nat.zero_le _), fun n hn => ?_⟩
    cases hn
    exact ⟨_, rfl, length_text hfinish⟩

theorem counters_ofReturn (retval : Int) (s : NewPath) (pathMax rootlen : Nat)
    (trailingSlash : Bool) :
    (FixPathRun.ofReturn pathMax rootlen trailingSlash (retval, s)).buffer.linkRecursion =
        s.linkRecursion ∧
      (FixPathRun.ofReturn pathMax rootlen trailingSlash (retval, s)).buffer.deepest =
        s.deepest := by
  unfold FixPathRun.ofReturn
  split
  · exact ⟨rfl, rfl⟩
  · exact finish_counters s pathMax rootlen trailingSlash

/-- With enough steps `pseudo_fix_path` returns. -/
theorem run_returns (call : FixPathCall) (linkRecursion : Nat) :
    ∃ r, (∀ steps, call.steps ≤ steps → call.run steps linkRecursion = some r) ∧
      r.buffer.linkRecursion = linkRecursion ∧
      r.buffer.deepest ≤ max linkRecursion maxLinkRecursion ∧
      (call.path ≠ [] → call.base.length = call.baselen → IsCString call.base →
        call.rootlen ≤ call.baselen → r.Sound call.pathMax) := by
  obtain ⟨fs, pathMax, base, path, rootlen, baselen, leaveLast, heap⟩ := call
  suffices h : ∃ r, fixPathAt (path.length + pathMax + maxLinkRecursion + 2) fs pathMax base path
      rootlen baselen leaveLast heap linkRecursion = some r ∧
      r.buffer.linkRecursion = linkRecursion ∧
      r.buffer.deepest ≤ max linkRecursion maxLinkRecursion ∧
      (path ≠ [] → base.length = baselen → IsCString base → rootlen ≤ baselen →
        r.Sound pathMax) by
    obtain ⟨r, hr, hrest⟩ := h
    exact ⟨r, fun steps hsteps => fixPathAt_mono hsteps hr, hrest⟩
  unfold fixPathAt
  dsimp only
  split
  · exact ⟨_, rfl, rfl, Nat.le_max_left ..,
      fun _ _ _ _ => ⟨filled_ofHeap heap linkRecursion, fun n hn => by cases hn⟩⟩
  · rename_i hfits
    obtain ⟨hcounter, hdeepest⟩ := start_counters (NewPath.ofHeap heap linkRecursion) base path
      (skipSlash rootlen) (skipSlash baselen)
    have hlen := length_trimSlashes_le path
    have hreturns : ReturnsTo (skipSlash rootlen) pathMax
        (((NewPath.ofHeap heap linkRecursion).start base path (skipSlash rootlen)
          (skipSlash baselen)).statStart fs pathMax (skipSlash rootlen)) _ :=
      returns_appendElements fs (skipSlash rootlen) pathMax pathMax
        (path.length + pathMax + maxLinkRecursion + 2) (path ++ [0]) (trimSlashes path).length
        leaveLast (by omega)
    obtain ⟨retval, s', hr, hkeeps⟩ := hreturns
    rw [hr]
    obtain ⟨hcounter', hdeepest'⟩ := counters_ofReturn retval s' pathMax (skipSlash rootlen)
      (decide ((trimSlashes path).length < path.length))
    refine ⟨_, rfl, hcounter'.trans (hkeeps.counter.trans hcounter),
      Nat.le_trans (Nat.le_of_eq hdeepest') (Nat.le_trans hkeeps.deepest ?_),
      fun hpath hbase hc hroot => sound_ofReturn (hkeeps.inside ?_) retval _ _⟩
    · exact Nat.le_of_eq (congrArg (max · maxLinkRecursion) hdeepest)
    · have hpos := List.length_pos_iff.mpr hpath
      have hle := skipSlash_le baselen
      exact inside_start (filled_ofHeap heap linkRecursion) hc (by omega)
        (skipSlash_le_skipSlash hroot) (by omega) _

end FixPathBufferLemmas

open FixPathBufferLemmas

/-- Past its length check, `pseudo_fix_path` writes nothing behind the `pathMax` bytes of its buffer,
its cursor points at a NUL in it before and after each element, and the length that it stores is
that of the result. -/
theorem fixPath_stays_inside (call : FixPathCall) (linkRecursion : Nat) (hpath : call.path ≠ [])
    (hbase : call.base.length = call.baselen) (hc : IsCString call.base)
    (hroot : call.rootlen ≤ call.baselen) :
    ∃ r, (∀ steps, call.steps ≤ steps → call.run steps linkRecursion = some r) ∧
      Block.Within call.pathMax r.buffer.writes ∧
      (∀ c ∈ r.buffer.cursors, c.1 < call.pathMax ∧ c.2 = 0) ∧
      ∀ n, r.lenp = some n → ∃ result, r.fixed = .built result ∧ result.length = n := by
  obtain ⟨r, hr, -, -, hsound⟩ := run_returns call linkRecursion
  obtain ⟨hfilled, hlen⟩ := hsound hpath hbase hc hroot
  exact ⟨r, hr, hfilled.writes, hfilled.cursors, hlen⟩

/-- A link that leads to itself, opened from `/r`. -/
def exCycle : FixPathCall where
  fs :=
    { lstat := fun path =>
        some (if path = ascii ['/', 'r', '/', 'l'] then 0o120777 else 0o040755)
      readlink := fun _ => some (ascii ['l', '/', '.', '.']) }
  pathMax := 64
  base := ascii ['/', 'r']
  path := ascii ['l', '/', 'y', '/']
  rootlen := 0
  baselen := 2
  leaveLast := false
  heap := fun _ => 120

theorem fixPath_stays_inside_exCycle :
    ∃ r, (∀ steps, exCycle.steps ≤ steps → exCycle.run steps 0 = some r) ∧
      Block.Within 64 r.buffer.writes ∧ (∀ c ∈ r.buffer.cursors, c.1 < 64 ∧ c.2 = 0) ∧
      ∀ n, r.lenp = some n → ∃ result, r.fixed = .built result ∧ result.length = n :=
  fixPath_stays_inside exCycle 0 (by decide) rfl (by decide) (by decide)

/-- Calls with whatever arguments and on whatever file systems all return, each with what it
returns when it is the only one; they leave the counter as they found it, and links nest no deeper
than they may. -/
theorem fixPathCalls_return (calls : List FixPathCall) (linkRecursion : Nat) :
    ∃ rs : List FixPathRun, (∀ steps, (∀ call ∈ calls, call.steps ≤ steps) →
        fixPathCalls steps calls linkRecursion = some (rs, linkRecursion) ∧
        rs.map some = calls.map fun call => call.run steps linkRecursion) ∧
      ∀ r ∈ rs, r.buffer.linkRecursion = linkRecursion ∧
        r.buffer.deepest ≤ max linkRecursion maxLinkRecursion := by
  induction calls with
  | nil => exact ⟨[], fun steps _ => ⟨rfl, rfl⟩, fun r hr => by cases hr⟩
  | cons call calls ih =>
    obtain ⟨r, hr, hcounter, hdeepest, -⟩ := run_returns call linkRecursion
    obtain ⟨rs, hrs, hcounters⟩ := ih
    refine ⟨r :: rs, fun steps hsteps => ?_, List.forall_mem_cons.mpr
      ⟨⟨hcounter, hdeepest⟩, hcounters⟩⟩
    obtain ⟨hstep, hsteps⟩ := List.forall_mem_cons.mp hsteps
    obtain ⟨hrest, hmap⟩ := hrs steps hsteps
    have hrun := hr steps hstep
    constructor
    · rw [fixPathCalls, hrun, Option.bind_some, hcounter, hrest]
      rfl
    · rw [List.map_cons, List.map_cons, hrun, hmap]

end Pseudo
