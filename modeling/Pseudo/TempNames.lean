import Pseudo.Chroot
import Pseudo.Library.Window

/-!
# Temporary names

`wrap_mkostemps`, `wrap_mkdtemp` and `wrap_mktemp` give the host a canonical path, and copy the six
bytes before its suffix back into the template, counted from the ends of the two strings, whatever
the host has returned.

Results:
1. `tempRun_spares_iff`: when no more than six bytes of the template are touched.
2. `tempNames_iff`: when each of the three wrappers does what it should.
-/

namespace Pseudo

open Window

/-! ## 1. The code -/

/-- What the host puts in the place of the six X's. -/
structure Letters where
  bytes : Bytes
  length_eq : bytes.length = 6
  not_nul : 0 ∉ bytes

/-- A C string in memory, and what is around it. -/
def stringMem (around : Int → Byte) (s : Bytes) : Int → Byte := patch around 0 (s ++ [0])

/-- Where `tmp_template` points: nowhere, at the template itself, or at another string. -/
inductive TmpTemplate
  | null
  | template
  | other (path : Bytes)
  deriving DecidableEq, Repr

/-- `PSEUDO_ROOT_PATH(AT_FDCWD, template, AT_SYMLINK_NOFOLLOW)`. `base_path` returns a `""` of its
own for an empty path, and `pseudo_fix_path` the path itself when it is too long. -/
def rootPath (fs : Fs) (pathMax : Nat) (client : Client) (template : Bytes) : TmpTemplate :=
  match basePath fs pathMax client atFdcwd template true with
  | .null => .null
  | .same => if template = [] then .other [] else .template
  | .recorded path => .other path
  | .built path => .other path

/-- The string that the host is given. -/
def TmpTemplate.text (tmp : TmpTemplate) (template : Bytes) : Option Bytes :=
  match tmp with
  | .null => none
  | .template => some template
  | .other path => some path

/-- `s + strlen(s) - 6 - suffixlen` -/
def beforeSuffix (s : Bytes) (suffixlen : Int) : Int := s.length - 6 - suffixlen

/-- There are six X's before the suffix. -/
def HasXs (s : Bytes) (suffixlen : Int) : Prop :=
  0 ≤ suffixlen ∧ 0 ≤ beforeSuffix s suffixlen ∧
    (s.drop (beforeSuffix s suffixlen).toNat).take 6 = List.replicate 6 88

instance (s : Bytes) (suffixlen : Int) : Decidable (HasXs s suffixlen) :=
  inferInstanceAs (Decidable (_ ∧ _ ∧ _))

/-- The host call on a string. `host`: the letters it finds, if the template is good and it finds
any. What it chose, and the memory of the string afterwards. -/
def hostCall (host : Option Letters) (s : Bytes) (suffixlen : Int) (m : Int → Byte) :
    Option Letters × (Int → Byte) :=
  match host with
  | some six =>
    if HasXs s suffixlen then (some six, patch m (beforeSuffix s suffixlen) six.bytes)
    else (none, m)
  | none => (none, m)

/-- The memory of the template when the wrapper returns, where six bytes have been written into it,
and what the host chose; it chose nothing when it failed, or was not called. -/
structure TempRun where
  mem : Int → Byte
  writes : List Int
  chosen : Option Letters

/-- What the three wrappers have in common. The host keeps the length of its string, which
`strlen(tmp_template)` counts again. -/
def tempRun (tmp : TmpTemplate) (suffixlen : Int) (host : Option Letters)
    (around aroundTmp : Int → Byte) (template : Bytes) : TempRun :=
  let m := stringMem around template
  let dest := beforeSuffix template suffixlen
  match tmp with
  | .null => ⟨m, [], none⟩
  | .template =>
    let (chosen, m) := hostCall host template suffixlen m
    ⟨patch m dest (window m dest 6), (chosen.map fun _ => dest).toList ++ [dest], chosen⟩
  | .other path =>
    let (chosen, mtmp) := hostCall host path suffixlen (stringMem aroundTmp path)
    ⟨patch m dest (window mtmp (beforeSuffix path suffixlen) 6), [dest], chosen⟩

section

variable (fs : Fs) (pathMax : Nat) (client : Client) (host : Option Letters)
  (around aroundTmp : Int → Byte)

/-- `wrap_mkostemps`; `fd` is the descriptor that the host returns. -/
def wrapMkostemps (fd : Nat) (template : Option Bytes) (suffixlen : Int) : Int × TempRun :=
  match template with
  | none => (0, ⟨around, [], none⟩)
  | some template =>
    let tmp := rootPath fs pathMax client template
    let run := tempRun tmp suffixlen host around aroundTmp template
    (if run.chosen.isSome then fd else -1, run)

/-- A `char *` that is returned. -/
inductive TempPtr
  | null
  | template
  deriving DecidableEq, Repr

/-- `wrap_mkdtemp` -/
def wrapMkdtemp (template : Option Bytes) : TempPtr × TempRun :=
  match template with
  | none => (.null, ⟨around, [], none⟩)
  | some template =>
    let tmp := rootPath fs pathMax client template
    (if tmp = .null then .null else .template, tempRun tmp 0 host around aroundTmp template)

/-- `wrap_mktemp` -/
def wrapMktemp (template : Option Bytes) : TempPtr × TempRun :=
  match template with
  | none => (.null, ⟨around, [], none⟩)
  | some template =>
    let tmp := rootPath fs pathMax client template
    (if tmp = .null then .null else .template, tempRun tmp 0 host around aroundTmp template)

end

/-! ## 2. What they should do -/

/-- A wrapper touches only the six X's of the template, whose bytes are those of its string and the
terminator. -/
structure SparesTemplate (around : Int → Byte) (template : Bytes) (suffixlen : Int)
    (run : TempRun) : Prop where
  inside : ∀ dest ∈ run.writes, 0 ≤ dest ∧ dest + 6 ≤ template.length + 1
  frame : ∀ i : Int, run.mem i ≠ stringMem around template i →
    beforeSuffix template suffixlen ≤ i ∧ i < beforeSuffix template suffixlen + 6
  success : ∀ six ∈ run.chosen, window run.mem (beforeSuffix template suffixlen) 6 = six.bytes
  failure : run.chosen = none → ∀ i : Int, 0 ≤ i → i ≤ template.length →
    run.mem i = stringMem around template i

/-- The place of the six X's lies in the template. -/
def HasRoom (template : Bytes) (suffixlen : Int) : Prop :=
  -1 ≤ suffixlen ∧ 6 + suffixlen ≤ template.length

instance (template : Bytes) (suffixlen : Int) : Decidable (HasRoom template suffixlen) :=
  inferInstanceAs (Decidable (_ ∧ _))

/-- The host is given a template that it accepts, and finds letters. -/
def HostSucceeds (tmp : TmpTemplate) (template : Bytes) (suffixlen : Int) (host : Option Letters) :
    Prop :=
  host.isSome ∧ ∃ path ∈ tmp.text template, HasXs path suffixlen

/-- The canonical path has the template's own bytes in the place of the six X's. -/
def EndsAlike (tmp : TmpTemplate) (suffixlen : Int) (around aroundTmp : Int → Byte)
    (template : Bytes) : Prop :=
  ∀ path, tmp = .other path →
    window (stringMem aroundTmp path) (beforeSuffix path suffixlen) 6 =
      window (stringMem around template) (beforeSuffix template suffixlen) 6

namespace TempNameLemmas

variable {tmp : TmpTemplate} {template s : Bytes} {suffixlen : Int} {host : Option Letters}
  {around aroundTmp m : Int → Byte}

/-! ## 3. The copy -/

theorem hostCall_of_xs {six : Letters} (h : HasXs s suffixlen) :
    hostCall (some six) s suffixlen m = (some six, patch m (beforeSuffix s suffixlen) six.bytes) :=
  if_pos h

theorem hostCall_fails (h : ¬ (host.isSome ∧ HasXs s suffixlen)) :
    hostCall host s suffixlen m = (none, m) := by
  cases host with
  | none => rfl
  | some six => exact if_neg fun hxs => h ⟨rfl, hxs⟩

/-- The letters that the host writes are found where they are copied from. -/
theorem window_letters (six : Letters) (a : Int) :
    window (patch m a six.bytes) a 6 = six.bytes := by
  rw [← six.length_eq]
  exact window_patch

/-- Six bytes are written before the suffix, once or twice. -/
theorem spares_copy_iff {cells : Bytes} (hcells : cells.length = 6) {writes : List Int}
    (hne : writes ≠ []) (hwrites : ∀ dest ∈ writes, dest = beforeSuffix template suffixlen)
    (chosen : Option Letters) :
    SparesTemplate around template suffixlen
        ⟨patch (stringMem around template) (beforeSuffix template suffixlen) cells, writes,
          chosen⟩ ↔
      HasRoom template suffixlen ∧ (∀ six ∈ chosen, cells = six.bytes) ∧
        (chosen = none →
          window (stringMem around template) (beforeSuffix template suffixlen) 6 = cells) := by
  have hwindow : window (patch (stringMem around template) (beforeSuffix template suffixlen) cells)
      (beforeSuffix template suffixlen) 6 = cells := by
    rw [← hcells]
    exact window_patch
  constructor
  · rintro ⟨hinside, -, hsuccess, hfailure⟩
    obtain ⟨dest, hdest⟩ := List.exists_mem_of_ne_nil writes hne
    have hroom := hinside dest hdest
    rw [hwrites dest hdest, beforeSuffix] at hroom
    refine ⟨⟨by omega, by omega⟩, fun six hsix => ?_, fun hnone => ?_⟩
    · rw [← hsuccess six hsix, hwindow]
    · -- outside the template nothing is written, so the copy has changed nothing at all
      have hsame : patch (stringMem around template) (beforeSuffix template suffixlen) cells =
          stringMem around template := by
        funext i
        by_cases hi : 0 ≤ i ∧ i ≤ template.length
        · exact hfailure hnone i hi.1 hi.2
        · exact patch_of_outside (by unfold beforeSuffix; omega)
      rw [← hcells]
      exact patch_eq_self_iff.mp hsame
  · rintro ⟨⟨hsuffix, hlen⟩, hsuccess, hfailure⟩
    refine ⟨fun dest hdest => ?_, fun i hi => ?_, fun six hsix => ?_, fun hnone i _ _ => ?_⟩
    · rw [hwrites dest hdest, beforeSuffix]
      omega
    · by_contra hout
      exact hi (patch_of_outside (by omega))
    · rw [hwindow, hsuccess six hsix]
    · have hsame := patch_eq_self_iff.mpr (hcells ▸ hfailure hnone)
      exact congrFun hsame i

/-- When a wrapper touches no more than it should. -/
theorem tempRun_spares_iff :
    SparesTemplate around template suffixlen
        (tempRun tmp suffixlen host around aroundTmp template) ↔
      tmp = .null ∨ (HasRoom template suffixlen ∧
        (HostSucceeds tmp template suffixlen host ∨
          EndsAlike tmp suffixlen around aroundTmp template)) := by
  cases tmp with
  | null =>
    refine iff_of_true ⟨?_, ?_, ?_, fun _ _ _ _ => rfl⟩ (Or.inl rfl)
    · exact fun _ h => absurd h List.not_mem_nil
    · exact fun _ h => absurd rfl h
    · exact fun _ h => by cases h
  | template =>
    have halike : EndsAlike .template suffixlen around aroundTmp template :=
      fun _ h => by cases h
    rw [show (TmpTemplate.template = .null) = False from eq_false nofun, false_or,
      and_iff_left (Or.inr halike)]
    by_cases hhost : host.isSome ∧ HasXs template suffixlen
    · obtain ⟨six, rfl⟩ := Option.isSome_iff_exists.mp hhost.1
      simp only [tempRun, hostCall_of_xs hhost.2, patch_window]
      rw [spares_copy_iff six.length_eq (by simp) (by simp)]
      simp
    · simp only [tempRun, hostCall_fails hhost]
      rw [spares_copy_iff length_window (by simp) (by simp)]
      simp
  | other path =>
    rw [show (TmpTemplate.other path = .null) = False from eq_false nofun, false_or]
    have hhost : HostSucceeds (.other path) template suffixlen host ↔
        host.isSome ∧ HasXs path suffixlen := by
      simp [HostSucceeds, TmpTemplate.text]
    have halike : EndsAlike (.other path) suffixlen around aroundTmp template ↔
        window (stringMem aroundTmp path) (beforeSuffix path suffixlen) 6 =
          window (stringMem around template) (beforeSuffix template suffixlen) 6 := by
      simp [EndsAlike]
    by_cases hsucceeds : host.isSome ∧ HasXs path suffixlen
    · rw [and_iff_left (Or.inl (hhost.mpr hsucceeds))]
      obtain ⟨six, rfl⟩ := Option.isSome_iff_exists.mp hsucceeds.1
      simp only [tempRun, hostCall_of_xs hsucceeds.2, window_letters]
      rw [spares_copy_iff six.length_eq (by simp) (by simp)]
      simp
    · rw [hhost, or_iff_right hsucceeds, halike]
      simp only [tempRun, hostCall_fails hsucceeds]
      rw [spares_copy_iff length_window (by simp) (by simp)]
      simp [eq_comm]

/-- The host has chosen letters when it has succeeded. -/
theorem tempRun_chosen_iff :
    (tempRun tmp suffixlen host around aroundTmp template).chosen.isSome ↔
      HostSucceeds tmp template suffixlen host := by
  have hcall (s : Bytes) (m : Int → Byte) :
      (hostCall host s suffixlen m).1.isSome ↔ host.isSome ∧ HasXs s suffixlen := by
    by_cases h : host.isSome ∧ HasXs s suffixlen
    · obtain ⟨six, rfl⟩ := Option.isSome_iff_exists.mp h.1
      simp [hostCall_of_xs h.2, h.2]
    · rw [hostCall_fails h]
      simpa using h
  cases tmp with
  | null => simp [tempRun, HostSucceeds, TmpTemplate.text]
  | template => simp [tempRun, HostSucceeds, TmpTemplate.text, hcall]
  | other path => simp [tempRun, HostSucceeds, TmpTemplate.text, hcall]

end TempNameLemmas

/-! ## 4. The result -/

/-- `mkdtemp` returns a null pointer when there is no new directory, and only then. -/
def ReturnsNullOnFailure (r : TempPtr × TempRun) : Prop := r.1 = .null ↔ r.2.chosen = none

open TempNameLemmas in
/-- When each of the wrappers touches only the six X's, and `mkdtemp` returns what it should. -/
theorem tempNames_iff (fs : Fs) (pathMax : Nat) (client : Client) (host : Option Letters)
    (around aroundTmp : Int → Byte) (fd : Nat) (template : Bytes) (suffixlen : Int) :
    (SparesTemplate around template suffixlen
        (wrapMkostemps fs pathMax client host around aroundTmp fd (some template) suffixlen).2 ↔
      rootPath fs pathMax client template = .null ∨ (HasRoom template suffixlen ∧
        (HostSucceeds (rootPath fs pathMax client template) template suffixlen host ∨
          EndsAlike (rootPath fs pathMax client template) suffixlen around aroundTmp template))) ∧
    ((SparesTemplate around template 0
          (wrapMkdtemp fs pathMax client host around aroundTmp (some template)).2 ∧
        ReturnsNullOnFailure
          (wrapMkdtemp fs pathMax client host around aroundTmp (some template))) ↔
      rootPath fs pathMax client template = .null ∨ (HasRoom template 0 ∧
        HostSucceeds (rootPath fs pathMax client template) template 0 host)) ∧
    (SparesTemplate around template 0
        (wrapMktemp fs pathMax client host around aroundTmp (some template)).2 ↔
      rootPath fs pathMax client template = .null ∨ (HasRoom template 0 ∧
        (HostSucceeds (rootPath fs pathMax client template) template 0 host ∨
          EndsAlike (rootPath fs pathMax client template) 0 around aroundTmp template))) := by
  refine ⟨tempRun_spares_iff, ?_, tempRun_spares_iff⟩
  simp only [wrapMkdtemp, ReturnsNullOnFailure]
  generalize rootPath fs pathMax client template = tmp
  have hchosen := @tempRun_chosen_iff tmp template 0 host around aroundTmp
  rw [tempRun_spares_iff, ← Option.not_isSome_iff_eq_none, hchosen]
  by_cases hnull : tmp = .null
  · subst hnull
    simp [HostSucceeds, TmpTemplate.text]
  · simp only [hnull, if_false, false_or, reduceCtorEq, false_iff, not_not]
    exact ⟨fun ⟨⟨hroom, _⟩, hsucceeds⟩ => ⟨hroom, hsucceeds⟩,
      fun ⟨hroom, hsucceeds⟩ => ⟨⟨hroom, Or.inl hsucceeds⟩, hsucceeds⟩⟩

/-- A client in the directory `/abcdef`. -/
def exTempClient : Client where
  cwd := some (ascii ['/', 'a', 'b', 'c', 'd', 'e', 'f'])
  chroot := []
  fdPaths := []
  nosymlinkexp := false

/-- `mkdtemp` returns the template when the host has failed, and a short template has bytes of the
directory written before it. -/
theorem tempNames_failed_call :
    ¬ ReturnsNullOnFailure (wrapMkdtemp escapeFs 4096 exTempClient none (fun _ => 0) (fun _ => 0)
        (some (ascii ['d', 'X', 'X', 'X', 'X', 'X', 'X']))) ∧
      (wrapMkostemps escapeFs 4096 exTempClient none (fun _ => 0) (fun _ => 0) 3
        (some (ascii ['x'])) 0).2.writes = [-5] ∧
      ¬ SparesTemplate (fun _ => 0) (ascii ['x']) 0
        (wrapMkostemps escapeFs 4096 exTempClient none (fun _ => 0) (fun _ => 0) 3
          (some (ascii ['x'])) 0).2 := by
  refine ⟨fun h => absurd (h.mpr rfl) (by decide), by decide, fun h => ?_⟩
  exact absurd (h.inside (-5) (by decide)).1 (by decide)

end Pseudo
