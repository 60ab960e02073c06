import Pseudo.Client
import Pseudo.Library.Memory

/-!
# The buffer of combined paths

`pseudo_client_op` keeps one buffer, `alloced_path`, in which it joins the path with an old path,
or with the name and the value of an attribute. The lengths are of type `size_t`; the model does
their arithmetic modulo `2^64` and lists every access to the buffer.

Results:
1. `pack_sound_iff`: for which calls the lengths are right and every access is in bounds.
2. `fullLen_packPaths`: the length is that of the combined buffer.
-/

namespace Pseudo

open Memory

/-- `alloced_path`, of which only the size is kept, and `alloced_len`. -/
structure PathBuffer where
  block : Option Nat
  allocedLen : Nat
  fits : allocedLen ≤ block.getD 0

def PathBuffer.start : PathBuffer := ⟨none, 0, Nat.le_refl 0⟩

/-- The operations with the name of an attribute. -/
def Op.takesName : Op → Bool
  | .getXattr | .removeXattr | .setXattr | .createXattr | .replaceXattr => true
  | _ => false

/-- A call, the length that is passed for the value, and whether `malloc` succeeds. The name of an
attribute is always there; `extra2` is the memory that the value points at. -/
structure BufferCall where
  call : ClientCall
  valueLen : Nat
  malloc : Bool
  valueLen_lt : valueLen < 2 ^ 64
  named : call.op.takesName = true → call.extra1.isSome

/-- `pathlen`, `strip_slash`, `path_extra_1len` and, with a value, `path_extra_2len`. -/
structure Lengths where
  pathlen : Nat
  stripSlash : Nat
  extra1 : Nat
  extra2 : Option Nat
  deriving DecidableEq, Repr

/-- Without a path the empty one is taken, and its length is 0. -/
def lengths (path : Option Bytes) (extra1 : Bytes) (extra2 : Option Bytes) (valueLen : Nat) :
    Lengths where
  pathlen := match path with
    | some path => path.length + 1
    | none => 0
  stripSlash := match path with
    | some path => if Pseudo.stripSlash path then 1 else 0
    | none => 0
  extra1 := extra1.length
  extra2 := extra2.map fun _ => valueLen

def Lengths.fullLen (l : Lengths) : Nat :=
  let fullLen := subSize ((l.extra1 + 1 + l.pathlen) % 2 ^ 64) l.stripSlash
  match l.extra2 with
  | some extra2 => (fullLen + extra2 + 1) % 2 ^ 64
  | none => fullLen

def Lengths.partialLen (l : Lengths) : Nat := subSize (subSize l.pathlen 1) l.stripSlash

/-- Neither subtraction goes below zero. -/
structure Lengths.NoUnderflow (l : Lengths) : Prop where
  fullLen : l.stripSlash ≤ l.extra1 + 1 + l.pathlen
  partialLen : 1 + l.stripSlash ≤ l.pathlen

/-- The copies into the buffer. A C string has one byte more than its length. -/
def packAccesses (path extra1 : Bytes) (extra2 : Option Bytes) (l : Lengths) : List Access :=
  let value := match l.extra2 with
    | some len => [.copy ((l.partialLen + l.extra1 + 2) % 2 ^ 64) len (extra2.getD []).length]
    | none => []
  [.copy 0 l.partialLen (path.length + 1), .store l.partialLen,
      .copy ((l.partialLen + 1) % 2 ^ 64) l.extra1 (extra1.length + 1),
      .store ((l.partialLen + l.extra1 + 1) % 2 ^ 64)] ++ value ++ [.store (subSize l.fullLen 1)]

/-- "Can't allocate space for paths": the flag tells whether there is room. -/
def PathBuffer.grow (b : PathBuffer) (len : Nat) (malloc : Bool) : PathBuffer × Bool :=
  if b.allocedLen < len then
    if malloc then (⟨some len, len, Nat.le_refl len⟩, true) else (.start, false)
  else (b, true)

/-- What a call does to the buffer: nothing, or it computes the lengths and fails to get the room,
or it fills `limit` bytes. -/
inductive Packing
  | untouched
  | failed (l : Lengths) (b : PathBuffer)
  | filled (l : Lengths) (limit : Nat) (b : PathBuffer) (accesses : List Access)

def PathBuffer.fill (b : PathBuffer) (malloc : Bool) (l : Lengths) (limit : Nat)
    (accesses : List Access) : Packing :=
  match b.grow limit malloc with
  | (b, true) => .filled l limit b accesses
  | (b, false) => .failed l b

/-- The call is over before the buffer: the path is ignored, or a rename lacks one of its paths. -/
def ReturnsEarly (env : ClientEnv) (t : FdTables) (call : ClientCall) : Prop :=
  (¬ call.op.neverIgnored ∧ pseudoClientIgnorePath env (callPath t call)) ∨
    (call.op = .rename ∧ (callPath t call = none ∨ call.extra1 = none))

instance (env : ClientEnv) (t : FdTables) (call : ClientCall) :
    Decidable (ReturnsEarly env t call) := inferInstanceAs (Decidable (_ ∨ _))

def PathBuffer.pack (b : PathBuffer) (env : ClientEnv) (t : FdTables) (c : BufferCall) : Packing :=
  if ReturnsEarly env t c.call then .untouched
  else
    let path := callPath t c.call
    match c.call.extra1 with
    | some extra1 =>
      let l := lengths path extra1 c.call.extra2 c.valueLen
      b.fill c.malloc l l.fullLen (packAccesses (path.getD []) extra1 c.call.extra2 l)
    | none =>
      -- only the slash is taken off
      match path with
      | some path =>
        if stripSlash path then
          b.fill c.malloc ⟨path.length + 1, 1, 0, none⟩ (path.length + 1)
            [.copy 0 (path.length + 1) (path.length + 1), .store (path.length + 1 - 2)]
        else .untouched
      | none => .untouched

/-- No length underflows, and every access stays below the length in a buffer of at least that
length. -/
def Packing.Sound : Packing → Prop
  | .untouched => True
  | .failed l _ => l.NoUnderflow
  | .filled l limit b accesses =>
    l.NoUnderflow ∧ limit ≤ b.allocedLen ∧ b.allocedLen ≤ b.block.getD 0 ∧ Fit limit accesses

/-- The bytes that the parts take, each with a NUL behind it. -/
def packedLen (path extra1 : Bytes) (extra2 : Option Bytes) (valueLen : Nat) : Nat :=
  (if stripSlash path then path.length - 1 else path.length) + 1 + (extra1.length + 1) +
    match extra2 with
    | some _ => valueLen + 1
    | none => 0

/-- A path is known, and there is no room for the parts, or their lengths can be added up and the
value is as long as it is said to be. -/
def Packable (b : PathBuffer) (t : FdTables) (c : BufferCall) : Prop :=
  ∀ extra1, c.call.extra1 = some extra1 → ∃ path, callPath t c.call = some path ∧
    ((b.allocedLen < packedLen path extra1 c.call.extra2 c.valueLen % 2 ^ 64 ∧ c.malloc = false) ∨
      (packedLen path extra1 c.call.extra2 c.valueLen < 2 ^ 64 ∧
        ∀ value, c.call.extra2 = some value → c.valueLen ≤ value.length))

namespace PathBufferLemmas

variable {path extra1 : Bytes} {extra2 : Option Bytes} {valueLen : Nat} {b : PathBuffer}

theorem length_of_stripSlash (h : stripSlash path = true) : 1 < path.length := by
  simp only [stripSlash, Bool.and_eq_true, decide_eq_true_eq] at h
  exact h.1

/-- With a path no subtraction goes below zero. -/
theorem noUnderflow_path (path extra1 : Bytes) (extra2 : Option Bytes) (valueLen : Nat) :
    (lengths (some path) extra1 extra2 valueLen).NoUnderflow := by
  unfold lengths
  constructor
  · dsimp only
    split <;> omega
  · dsimp only
    split
    · next h =>
      have := length_of_stripSlash h
      omega
    · omega

/-- Without a path the second one does. -/
theorem underflow_no_path (extra1 : Bytes) (extra2 : Option Bytes) (valueLen : Nat) :
    ¬ (lengths none extra1 extra2 valueLen).NoUnderflow := by
  intro h
  have hpart := h.partialLen
  simp [lengths] at hpart

theorem partialLen_path (h : path.length + 1 < 2 ^ 64) :
    (lengths (some path) extra1 extra2 valueLen).partialLen =
      if stripSlash path then path.length - 1 else path.length := by
  unfold Lengths.partialLen lengths subSize
  dsimp only
  split
  · next hstrip =>
    have := length_of_stripSlash hstrip
    omega
  · omega

theorem fullLen_path (h : path.length + 1 < 2 ^ 64) :
    (lengths (some path) extra1 extra2 valueLen).fullLen =
      packedLen path extra1 extra2 valueLen % 2 ^ 64 := by
  unfold Lengths.fullLen packedLen lengths subSize
  cases extra2 with
  | none =>
    dsimp only [Option.map_none]
    split
    · next hstrip =>
      have := length_of_stripSlash hstrip
      omega
    · omega
  | some value =>
    dsimp only [Option.map_some]
    split
    · next hstrip =>
      have := length_of_stripSlash hstrip
      omega
    · omega

/-- What goes into the buffer, part by part. -/
def parts (path extra1 : Bytes) (extra2 : Option Bytes) (valueLen : Nat) : List Piece :=
  ⟨if stripSlash path then path.length - 1 else path.length, path.length + 1⟩ ::
    ⟨extra1.length, extra1.length + 1⟩ ::
    match extra2 with
    | some value => [⟨valueLen, value.length⟩]
    | none => []

theorem extent_parts : extent (parts path extra1 extra2 valueLen) =
    packedLen path extra1 extra2 valueLen := by
  unfold parts packedLen
  cases extra2 with
  | none => simp [extent]
  | some value =>
    simp only [extent, List.map_cons, List.map_nil, List.sum_cons, List.sum_nil]
    omega

section Accesses
variable (hpath : path.length + 1 < 2 ^ 64) (hextra : extra1.length + 1 < 2 ^ 64)
include hpath hextra

omit hextra in
/-- When the lengths can be added up, the parts go one behind the other. -/
theorem packAccesses_value (value : Bytes)
    (h : packedLen path extra1 (some value) valueLen < 2 ^ 64) :
    packAccesses path extra1 (some value) (lengths (some path) extra1 (some value) valueLen) =
      pieces 0 (parts path extra1 (some value) valueLen) := by
  have hfull := @fullLen_path path extra1 (some value) valueLen hpath
  have hpart := @partialLen_path path extra1 (some value) valueLen hpath
  unfold packAccesses parts
  rw [hfull, hpart, Nat.mod_eq_of_lt h]
  unfold packedLen at h ⊢
  dsimp only at h ⊢
  generalize (if stripSlash path then path.length - 1 else path.length) = kept at h ⊢
  have hlast : subSize (kept + 1 + (extra1.length + 1) + (valueLen + 1)) 1 =
      kept + 1 + extra1.length + 1 + valueLen := by
    rw [subSize_of_le (by omega) h]
    omega
  have hextra : (kept + 1) % 2 ^ 64 = kept + 1 := Nat.mod_eq_of_lt (by omega)
  have hnul : (kept + extra1.length + 1) % 2 ^ 64 = kept + 1 + extra1.length := by omega
  have hvalue : (kept + extra1.length + 2) % 2 ^ 64 = kept + 1 + extra1.length + 1 := by omega
  simp only [lengths, Option.map_some, Option.getD_some, hlast, hextra, hnul, hvalue, pieces,
    Nat.zero_add, List.cons_append, List.nil_append]

omit hextra in
/-- Without a value the last NUL is written twice. -/
theorem packAccesses_none (h : packedLen path extra1 none valueLen < 2 ^ 64) :
    packAccesses path extra1 none (lengths (some path) extra1 none valueLen) =
      pieces 0 (parts path extra1 none valueLen) ++
        [.store (packedLen path extra1 none valueLen - 1)] := by
  have hfull := @fullLen_path path extra1 none valueLen hpath
  have hpart := @partialLen_path path extra1 none valueLen hpath
  unfold packAccesses parts
  rw [hfull, hpart, Nat.mod_eq_of_lt h]
  unfold packedLen at h ⊢
  dsimp only at h ⊢
  generalize (if stripSlash path then path.length - 1 else path.length) = kept at h ⊢
  rw [subSize_of_le (by omega) h]
  have hextra : (kept + 1) % 2 ^ 64 = kept + 1 := Nat.mod_eq_of_lt (by omega)
  have hnul : (kept + extra1.length + 1) % 2 ^ 64 = kept + 1 + extra1.length := by omega
  simp only [lengths, Option.map_none, hextra, hnul, pieces, Nat.zero_add, List.cons_append,
    List.nil_append]

omit hextra in
/-- Then they fit when the value has the bytes it is said to have. -/
theorem fit_packAccesses_iff (h : packedLen path extra1 extra2 valueLen < 2 ^ 64) :
    Fit (packedLen path extra1 extra2 valueLen)
        (packAccesses path extra1 extra2 (lengths (some path) extra1 extra2 valueLen)) ↔
      ∀ value, extra2 = some value → valueLen ≤ value.length := by
  have hpieces := fit_pieces_iff (parts path extra1 extra2 valueLen)
    (Nat.zero_le (packedLen path extra1 extra2 valueLen))
  rw [extent_parts, and_iff_right (by omega)] at hpieces
  have hkept : (if stripSlash path then path.length - 1 else path.length) ≤ path.length + 1 := by
    split <;> omega
  cases extra2 with
  | none =>
    rw [packAccesses_none hpath h, fit_append, hpieces]
    simp [parts, hkept]
    unfold packedLen
    omega
  | some value =>
    rw [packAccesses_value hpath value h, hpieces]
    simp [parts, hkept]

/-- When they cannot, some access is behind the end. -/
theorem not_fit_of_wrap (hvalue : valueLen < 2 ^ 64)
    (h : 2 ^ 64 ≤ packedLen path extra1 extra2 valueLen) :
    ¬ Fit (packedLen path extra1 extra2 valueLen % 2 ^ 64)
      (packAccesses path extra1 extra2 (lengths (some path) extra1 extra2 valueLen)) := by
  have hpart := @partialLen_path path extra1 extra2 valueLen hpath
  have hkept : (if stripSlash path then path.length - 1 else path.length) ≤ path.length := by
    split <;> omega
  intro hfit
  unfold packAccesses at hfit
  rw [hpart] at hfit
  unfold packedLen at h hfit
  generalize (if stripSlash path then path.length - 1 else path.length) = kept at *
  cases extra2 with
  | none =>
    dsimp only at h
    simp only [lengths, Option.map_none, fit_append, fit_cons, fits_copy, fits_store] at hfit
    omega
  | some value =>
    dsimp only at h
    simp only [lengths, Option.map_some, fit_append, fit_cons, fits_copy, fits_store] at hfit
    omega

end Accesses

/-- A buffer that is large enough, or made so, takes what fits its length. -/
theorem fill_sound_iff (malloc : Bool) (l : Lengths) (limit : Nat) (accesses : List Access) :
    (b.fill malloc l limit accesses).Sound ↔ l.NoUnderflow ∧
      ((b.allocedLen < limit ∧ malloc = false) ∨ Fit limit accesses) := by
  unfold PathBuffer.fill PathBuffer.grow
  by_cases hroom : b.allocedLen < limit
  · cases malloc with
    | true => simp [hroom, Packing.Sound]
    | false => simp [hroom, Packing.Sound]
  · simp [hroom, Packing.Sound, b.fits, Nat.not_lt.mp hroom]

/-- A call that only takes the slash off. -/
theorem plain_sound (malloc : Bool) (h : stripSlash path = true) :
    (b.fill malloc ⟨path.length + 1, 1, 0, none⟩ (path.length + 1)
      [.copy 0 (path.length + 1) (path.length + 1), .store (path.length + 1 - 2)]).Sound := by
  have hlen := length_of_stripSlash h
  rw [fill_sound_iff]
  refine ⟨⟨by dsimp only; omega, by dsimp only; omega⟩, Or.inr ?_⟩
  simp only [fit_cons, fits_copy, fits_store, fit_nil, and_true]
  omega

/-- A call with a second string and a path. -/
theorem compound_sound_iff (malloc : Bool) (hpath : path.length + 1 < 2 ^ 64)
    (hextra : extra1.length + 1 < 2 ^ 64) (hvalue : valueLen < 2 ^ 64) :
    (b.fill malloc (lengths (some path) extra1 extra2 valueLen)
        (lengths (some path) extra1 extra2 valueLen).fullLen
        (packAccesses path extra1 extra2 (lengths (some path) extra1 extra2 valueLen))).Sound ↔
      (b.allocedLen < packedLen path extra1 extra2 valueLen % 2 ^ 64 ∧ malloc = false) ∨
        (packedLen path extra1 extra2 valueLen < 2 ^ 64 ∧
          ∀ value, extra2 = some value → valueLen ≤ value.length) := by
  rw [fill_sound_iff, fullLen_path hpath,
    and_iff_right (noUnderflow_path path extra1 extra2 valueLen)]
  refine or_congr Iff.rfl ?_
  by_cases hlen : packedLen path extra1 extra2 valueLen < 2 ^ 64
  · rw [Nat.mod_eq_of_lt hlen, fit_packAccesses_iff hpath hlen, and_iff_right hlen]
  · exact iff_of_false (not_fit_of_wrap hpath hextra hvalue (Nat.not_lt.mp hlen))
      fun h => hlen h.1

end PathBufferLemmas

open PathBufferLemmas

/-- The lengths of a call are right and its accesses in bounds, whatever buffer earlier calls left,
exactly when it returns before, or a path is known, given or recorded for the descriptor, and the
parts have lengths that can be added up. -/
theorem pack_sound_iff (b : PathBuffer) (env : ClientEnv) (t : FdTables) (c : BufferCall)
    (hpath : ∀ path, callPath t c.call = some path → path.length + 1 < 2 ^ 64)
    (hextra : ∀ extra1, c.call.extra1 = some extra1 → extra1.length + 1 < 2 ^ 64) :
    (b.pack env t c).Sound ↔ ReturnsEarly env t c.call ∨ Packable b t c := by
  unfold PathBuffer.pack
  by_cases hearly : ReturnsEarly env t c.call
  · simp [hearly, Packing.Sound]
  · rw [if_neg hearly, or_iff_right hearly]
    unfold Packable
    cases he : c.call.extra1 with
    | none =>
      refine iff_of_true ?_ fun _ h => by cases h
      dsimp only
      cases callPath t c.call with
      | none => trivial
      | some path =>
        dsimp only
        split
        · next hstrip => exact plain_sound c.malloc hstrip
        · trivial
    | some extra1 =>
      cases hp : callPath t c.call with
      | none =>
        refine iff_of_false ?_ fun h => ?_
        · rw [fill_sound_iff]
          exact fun h => underflow_no_path _ _ _ h.1
        · obtain ⟨_, hnone, _⟩ := h extra1 rfl
          cases hnone
      | some path =>
        have hsound := @compound_sound_iff path extra1 c.call.extra2 c.valueLen b c.malloc
          (hpath path hp) (hextra extra1 he) c.valueLen_lt
        refine hsound.trans ⟨?_, ?_⟩
        · rintro h _ ⟨⟩
          exact ⟨path, rfl, h⟩
        · intro h
          obtain ⟨_, hsome, h⟩ := h extra1 rfl
          cases hsome
          exact h

/-- `setxattr` on `/a/`, with a value of three bytes. -/
def exSetxattr : BufferCall where
  call := { op := .setXattr, path := some (ascii ['/', 'a', '/']), buf := some exBuf,
            extra1 := some (ascii ['u', 's', 'e', 'r', '.', 'a']), extra2 := some [1, 2, 3] }
  valueLen := 3
  malloc := true
  valueLen_lt := by decide
  named := fun _ => rfl

theorem pack_sound_set : (PathBuffer.start.pack exEnv ⟨[], []⟩ exSetxattr).Sound := by
  refine (pack_sound_iff .start exEnv ⟨[], []⟩ exSetxattr ?_ ?_).mpr (Or.inr ?_)
  · rintro _ ⟨⟩
    decide
  · rintro _ ⟨⟩
    decide
  · rintro _ ⟨⟩
    refine ⟨_, rfl, Or.inr ⟨by decide, ?_⟩⟩
    rintro _ ⟨⟩
    decide

/-- `fgetxattr` on descriptor 3, for which no path is recorded. -/
def exUnknown : BufferCall where
  call := { op := .getXattr, fd := 3, path := none, buf := some exBuf,
            extra1 := some (ascii ['u', 's', 'e', 'r', '.', 'a']) }
  valueLen := 0
  malloc := true
  valueLen_lt := by decide
  named := fun _ => rfl

/-- The length of the empty path is one less than 0, and that many bytes are copied. -/
theorem pack_unknown_path : ¬ (PathBuffer.start.pack exEnv ⟨[], []⟩ exUnknown).Sound := by
  intro h
  exact absurd h.1.partialLen (by decide)

/-! ## The contents -/

theorem length_packPaths (path extra1 : Bytes) (extra2 : Option Bytes) (valueLen : Nat)
    (hvalue : ∀ value, extra2 = some value → valueLen = value.length) :
    (packPaths path extra1 extra2).length = packedLen path extra1 extra2 valueLen := by
  have hkept : (if stripSlash path then path.dropLast else path).length =
      if stripSlash path then path.length - 1 else path.length := by
    split
    · exact List.length_dropLast
    · rfl
  unfold packPaths packedLen
  cases extra2 with
  | none =>
    simp only [List.length_append, List.length_cons, List.length_nil, hkept]
    omega
  | some value =>
    rw [hvalue value rfl]
    simp only [List.length_append, List.length_cons, List.length_nil, hkept]
    omega

/-- The length that is computed is that of the combined buffer. -/
theorem fullLen_packPaths (path extra1 : Bytes) (extra2 : Option Bytes) (valueLen : Nat)
    (hvalue : ∀ value, extra2 = some value → valueLen = value.length)
    (h : (packPaths path extra1 extra2).length < 2 ^ 64) :
    (lengths (some path) extra1 extra2 valueLen).fullLen =
      (packPaths path extra1 extra2).length := by
  have hlen := length_packPaths path extra1 extra2 valueLen hvalue
  have hpath : path.length + 1 < 2 ^ 64 := by
    rw [hlen] at h
    unfold packedLen at h
    split at h <;> omega
  rw [fullLen_path hpath, ← hlen, Nat.mod_eq_of_lt h]

/-- The packing of the client's model has no result exactly where the length underflows. -/
theorem sentPath_eq_none_iff (path : Option Bytes) (extra1 : Bytes) (extra2 : Option Bytes)
    (valueLen : Nat) : sentPath path (some extra1) extra2 = none ↔
      ¬ (lengths path extra1 extra2 valueLen).NoUnderflow := by
  cases path with
  | none => exact iff_of_true rfl (underflow_no_path extra1 extra2 valueLen)
  | some path =>
    exact iff_of_false (fun h => by cases h)
      (not_not_intro (noUnderflow_path path extra1 extra2 valueLen))

end Pseudo
