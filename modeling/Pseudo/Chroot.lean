import Pseudo.FixPath

/-!
# Containment in the chroot

With a root of the chroot's length, `pseudo_fix_path` builds paths below the chroot only. The
invariant of the buffer is `Contained`: it starts with the chroot path, and a slash or the end
follows. It holds after every element, backtrack and link expansion, for any file system at all
(`appendElement_contained`, `appendElements_contained`), and carries over to what `base_path`
returns (`basePath_contained`).
-/

namespace Pseudo

/-- `path` is `c` or lies below it: it starts with `c`, and the next character is `/` or the
end of the string. -/
def Contained (c path : Bytes) : Prop :=
  c <+: path ∧ ((path.drop c.length).head? = none ∨ (path.drop c.length).head? = some slash)

instance (c path : Bytes) : Decidable (Contained c path) :=
  inferInstanceAs (Decidable (_ ∧ (_ ∨ _)))

/-! ## 1. The buffer operations -/

namespace Contained

variable {c path : Bytes}

theorem of_append {rest : Bytes} (h : rest.head? = none ∨ rest.head? = some slash) :
    Contained c (c ++ rest) := by
  refine ⟨List.prefix_append c rest, ?_⟩
  rwa [List.drop_left]

theorem refl (c : Bytes) : Contained c c := by
  simpa using @of_append c [] (.inl rfl)

theorem exists_rest (h : Contained c path) :
    ∃ rest, path = c ++ rest ∧ (rest.head? = none ∨ rest.head? = some slash) := by
  obtain ⟨⟨rest, rfl⟩, hnext⟩ := h
  rw [List.drop_left] at hnext
  exact ⟨rest, rfl, hnext⟩

theorem append_slash (h : Contained c path) (s : Bytes) : Contained c (path ++ slash :: s) := by
  obtain ⟨rest, rfl, hnext⟩ := h.exists_rest
  rw [List.append_assoc]
  apply of_append
  cases rest with
  | nil => exact .inr rfl
  | cons b rest => simpa using hnext

theorem take_root (h : Contained c path) : path.take c.length = c := by
  obtain ⟨rest, rfl, -⟩ := h.exists_rest
  exact List.take_left

/-- What remains above the root after backtracking is a prefix of what was there. -/
theorem backtrack (h : Contained c path) : Contained c (backtrack c.length path) := by
  obtain ⟨rest, rfl, hnext⟩ := h.exists_rest
  have hsuffix : (rest.reverse.dropWhile (· ≠ slash)).tail <:+ rest.reverse :=
    (List.tail_suffix _).trans (List.dropWhile_suffix _)
  have hpre : ((rest.reverse.dropWhile (· ≠ slash)).tail).reverse <+: rest := by
    rw [← List.reverse_suffix, List.reverse_reverse]
    exact hsuffix
  have hkept : Pseudo.backtrack c.length (c ++ rest) =
      c ++ ((rest.reverse.dropWhile (· ≠ slash)).tail).reverse := by
    simp [Pseudo.backtrack]
  rw [hkept]
  apply of_append
  obtain ⟨gone, hgone⟩ := hpre
  cases hback : ((rest.reverse.dropWhile (· ≠ slash)).tail).reverse with
  | nil => exact .inl rfl
  | cons b back =>
    rw [hback] at hgone
    rw [← hgone] at hnext
    simpa using hnext

end Contained

/-! ## 2. One element, and a whole path -/

section Append

variable {fs : Fs} {c : Bytes} {allocated pathMax : Nat}

/-- The step lemma. A link that is expanded appends its contents to a contained buffer again. -/
theorem appendElement_contained {expand : Option (Walk → Bytes → Option Walk)} {w w' : Walk}
    {element : Bytes} {leaveThis : Bool}
    (hexpand : ∀ expand' ∈ expand, ∀ link w w', Contained c w.newpath →
      expand' w link = some w' → Contained c w'.newpath)
    (hw : Contained c w.newpath)
    (h : appendElement fs c.length allocated pathMax expand w element leaveThis = some w') :
    Contained c w'.newpath := by
  obtain rfl | rfl | ⟨expand', link, rfl, -, hrest⟩ | rfl := appendElement_cases h
  · exact hw
  · exact hw.backtrack
  · refine hexpand expand' rfl _ _ w' ?_ hrest
    show Contained c (if _ then w.newpath.take c.length else w.newpath)
    split
    · rw [hw.take_root]
      exact .refl c
    · exact hw
  · exact hw.append_slash element

theorem appendLoop_contained {append : Walk → Bytes → Bool → Option Walk}
    (happend : ∀ w element leaveThis w', Contained c w.newpath →
      append w element leaveThis = some w' → Contained c w'.newpath)
    {leaveLast : Bool} {es : List (Bytes × Bool)} {w w' : Walk} (hw : Contained c w.newpath)
    (h : appendLoop append leaveLast es w = some w') : Contained c w'.newpath := by
  induction es generalizing w with
  | nil =>
    cases h
    exact hw
  | cons e es ih =>
    obtain ⟨element, last⟩ := e
    rw [appendLoop] at h
    cases hstep : append w element (last && leaveLast) with
    | none => simp [hstep] at h
    | some next =>
      rw [hstep] at h
      exact ih (happend w element _ next hw hstep) h

/-- The run lemma, by induction on how deep links may still nest. -/
theorem appendElements_contained {depth : Nat} {w w' : Walk} {path : Bytes} {elen : Nat}
    {leaveLast : Bool} (hw : Contained c w.newpath)
    (h : appendElements fs c.length allocated pathMax depth w path elen leaveLast = some w') :
    Contained c w'.newpath := by
  induction depth generalizing w w' path elen leaveLast with
  | zero =>
    rw [appendElements] at h
    refine appendLoop_contained (fun w element leaveThis w' hw h => ?_) hw h
    exact appendElement_contained (by simp) hw h
  | succ depth ih =>
    rw [appendElements] at h
    refine appendLoop_contained (fun w element leaveThis w' hw h => ?_) hw h
    refine appendElement_contained (fun expand' hexpand link w w' hw h => ?_) hw h
    cases hexpand
    exact ih hw h

end Append

/-! ## 3. `pseudo_fix_path` and `base_path` -/

theorem skipSlash_of_lt {n : Nat} (h : 1 < n) : skipSlash n = n := by
  unfold skipSlash
  rw [if_neg (by omega)]

theorem pseudoFixPath_contained {fs : Fs} {pathMax : Nat} {c base path : Bytes} {leaveLast : Bool}
    {p : Bytes} (hc : 1 < c.length) (hbase : Contained c base)
    (h : pseudoFixPath fs pathMax base path c.length base.length leaveLast = .built p) :
    Contained c p := by
  have hle : c.length ≤ base.length := hbase.1.length_le
  have hstart : startPath base path c.length base.length = base := by
    unfold startPath
    rw [if_pos ⟨by omega, .inr (by omega)⟩, List.take_length]
  unfold pseudoFixPath at h
  simp only [skipSlash_of_lt hc, skipSlash_of_lt (Nat.lt_of_lt_of_le hc hle), hstart] at h
  split at h
  · cases h
  · split at h
    · cases h
    · rename_i w hw
      have hcont : Contained c w.newpath := appendElements_contained (by exact hbase) hw
      split at h
      · cases h
        exact hcont.append_slash []
      · cases h
        exact hcont

theorem inChroot_iff {client : Client} {path : Bytes} :
    client.inChroot path = true ↔ client.chroot ≠ [] ∧ Contained client.chroot path := by
  unfold Client.inChroot Contained
  simp [and_assoc]

/-- Containment: with a chroot in force, an absolute path, or a path relative to a directory in
the chroot, is canonicalised to a path in the chroot. -/
theorem basePath_contained (fs : Fs) (pathMax : Nat) (client : Client) (dirfd : Int)
    (path : Bytes) (leaveLast : Bool) (hchroot : 1 < client.chroot.length)
    (hroot : path.head? = some slash ∨
      ∃ base, client.baseDir dirfd = some base ∧ Contained client.chroot base)
    {p : Bytes} (h : basePath fs pathMax client dirfd path leaveLast = .built p) :
    Contained client.chroot p := by
  have hne : client.chroot ≠ [] := List.ne_nil_of_length_pos (by omega)
  unfold basePath at h
  cases path with
  | nil =>
    simp only [if_true] at h
    split at h
    · split at h <;> cases h
    · cases h
  | cons b path =>
    rw [if_neg (by simp)] at h
    split at h
    · -- relative: the root that is passed on is the chroot, as the base lies in it
      rename_i hrel
      obtain ⟨base, hbase, hcont⟩ := hroot.resolve_left hrel
      rw [hbase] at h
      simp only [if_pos (inChroot_iff.mpr ⟨hne, hcont⟩)] at h
      exact pseudoFixPath_contained hchroot hcont h
    · exact pseudoFixPath_contained hchroot (.refl _) h

/-- A file system with one link, `/r/up` to `/../..`. -/
def escapeFs : Fs where
  lstat path := if path = ascii ['/', 'r', '/', 'u', 'p'] then some 0o120777 else none
  readlink path :=
    if path = ascii ['/', 'r', '/', 'u', 'p'] then some (ascii ['/', '.', '.', '/', '.', '.'])
    else none

/-- A client in the chroot `/r`. -/
def escapeClient : Client where
  cwd := some (ascii ['/', 'r'])
  chroot := ascii ['/', 'r']
  fdPaths := []
  nosymlinkexp := false

/-- Through `/up`, the path `/up/x` ends at `/r/x`. -/
theorem basePath_contained_escape :
    basePath escapeFs 4096 escapeClient atFdcwd (ascii ['/', 'u', 'p', '/', 'x']) false =
        .built (ascii ['/', 'r', '/', 'x']) ∧
      Contained escapeClient.chroot (ascii ['/', 'r', '/', 'x']) := by
  have hbuilt : basePath escapeFs 4096 escapeClient atFdcwd (ascii ['/', 'u', 'p', '/', 'x'])
      false = .built (ascii ['/', 'r', '/', 'x']) := by decide
  exact ⟨hbuilt, basePath_contained escapeFs 4096 escapeClient atFdcwd _ false (by decide)
    (.inl rfl) hbuilt⟩

end Pseudo
