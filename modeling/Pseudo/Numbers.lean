import Pseudo.Attributes
import Pseudo.Lookup

/-!
# Numbers in the database

Each column is bound with `sqlite3_bind_int` or `sqlite3_bind_int64`, statement by statement.
Inode numbers are bound with 64 bits everywhere. Device numbers are bound with 32 bits by all
statements but the insertion of an attribute.

Results:
1. `pdbLinkFile_find`: the row that is found for a new file.
2. `numbersAgree_iff`: exactly when the numbers of a message survive, no other inode is taken for
   the message's, and an attribute is found under the inode it was stored for.
3. `numbersAgree_high_dev`: a device number of more than 32 bits.
-/

namespace Pseudo

open Table

/-- What the header of a search has of the file it looks for. -/
structure HoldsFile (m h : MsgHeader) : Prop where
  dev : h.dev = m.dev
  ino : h.ino = m.ino
  uid : h.uid = m.uid
  gid : h.gid = m.gid
  mode : h.mode = m.mode
  rdev : h.rdev = m.rdev

/-- After `m` was recorded under `path`, the searches agree with it: the search by path returns
its numbers, those by inode find its row only for its own inode, and an attribute stored for the
inode is found under it. -/
structure NumbersAgree (sq : Sqlite) (db : Db) (m q : MsgHeader) (path name value tail : Bytes) :
    Prop where
  found : ∃ h, pdbFindFilePath sq (pdbLinkFile db m path) q path = some h ∧ HoldsFile m h
  exact : ∀ h, pdbFindFileExact sq (pdbLinkFile db m path) q path = some h →
    q.dev = m.dev ∧ q.ino = m.ino
  byDev : ∀ h, pdbFindFileDev sq (pdbLinkFile db m path) q = some (h, path) →
    q.dev = m.dev ∧ q.ino = m.ino
  attr : (pdbSetXattr sq db m (packAttr name value tail) (name.length + 1 + value.length)
      .none).2 = 0 →
    pdbGetXattr sq (pdbSetXattr sq db m (packAttr name value tail)
      (name.length + 1 + value.length) .none).1 m (name ++ 0 :: tail) = some value

/-- The two inodes are the same to the statements that bind 32 bits of a device number. -/
def Aliases (q m : MsgHeader) : Prop := q.key = m.key ∧ q.dev ≠ m.dev

namespace NumbersLemmas

open AttributesLemmas

section Link
variable {sq : Sqlite} {db : Db} {m q : MsgHeader} {path : Bytes}
  (hpath : ∀ r ∈ db.files, r.path ≠ path)
include hpath

/-- The new row is the only one with its path. -/
theorem eq_linkRow {r : FileRow} (hr : r ∈ (pdbLinkFile db m path).files) (hp : r.path = path) :
    r = linkRow m path := by
  rw [pdbLinkFile_files, List.mem_append, List.mem_singleton] at hr
  rcases hr with hr | hr
  · exact absurd hp (hpath r hr)
  · exact hr

theorem pdbLinkFile_find (sq : Sqlite) (hm : m.pathlen ≠ 0) (hq : q.pathlen ≠ 0) :
    pdbFindFilePath sq (pdbLinkFile db m path) q path = some (q.takeRow (linkRow m path)) := by
  have hrow : (linkRow m path).path = path := by simp [linkRow, hm]
  have hmem : linkRow m path ∈ (pdbLinkFile db m path).files := by simp
  cases hs : pdbFindFilePath sq (pdbLinkFile db m path) q path with
  | none => exact absurd hrow (pdbFindFilePath_none hs hq hmem)
  | some h =>
    obtain ⟨_, r, hr, hp, rfl⟩ := pdbFindFilePath_some hs
    rw [eq_linkRow hpath hr hp]

/-- The search by path and inode finds the new row exactly for what is its key to SQLite. -/
theorem findExact_iff (sq : Sqlite) (hm : m.pathlen ≠ 0) :
    (∃ h, pdbFindFileExact sq (pdbLinkFile db m path) q path = some h) ↔ q.key = m.key := by
  have hrow : (linkRow m path).path = path := by simp [linkRow, hm]
  have hmem : linkRow m path ∈ (pdbLinkFile db m path).files := by simp
  constructor
  · rintro ⟨h, hs⟩
    obtain ⟨r, hr, hp, hk, _⟩ := pdbFindFileExact_some hs
    rw [eq_linkRow hpath hr hp, linkRow_key] at hk
    exact hk.symm
  · intro hk
    cases hs : pdbFindFileExact sq (pdbLinkFile db m path) q path with
    | some h => exact ⟨h, rfl⟩
    | none =>
      have hne := pdbFindFileExact_none hs hmem hrow
      rw [linkRow_key] at hne
      exact absurd hk.symm hne

theorem findDev_key {h : MsgHeader}
    (hs : pdbFindFileDev sq (pdbLinkFile db m path) q = some (h, path)) : q.key = m.key := by
  obtain ⟨r, hr, hk, hp, _⟩ := pdbFindFileDev_some hs
  rw [eq_linkRow hpath hr hp, linkRow_key] at hk
  exact hk.symm

end Link

/-- The row of a new file holds the message's numbers exactly when its device numbers fit. -/
theorem holdsFile_iff {m q : MsgHeader} {path : Bytes} (hmode : m.mode.toNat < 2 ^ 31) :
    HoldsFile m (q.takeRow (linkRow m path)) ↔ DevFits m.dev ∧ DevFits m.rdev := by
  constructor
  · exact fun h => ⟨h.dev, h.rdev⟩
  · rintro ⟨hdev, hrdev⟩
    exact ⟨hdev, signedIno_eq m.ino, rfl, rfl, devFits_of_lt hmode, hrdev⟩

theorem key_eq_iff {q m : MsgHeader} : q.key = m.key ↔ bindInt q.dev = bindInt m.dev ∧
    q.ino = m.ino := by
  simp [MsgHeader.key]

end NumbersLemmas

open NumbersLemmas AttributesLemmas

/-- The numbers of a message survive the database exactly when its device numbers are what the
low 32 bits stand for, the inode asked for is not another one with the same low 32 bits of the
device number, and the value of the attribute is not empty (and short enough). -/
theorem numbersAgree_iff (sq : Sqlite) (db : Db) (m q : MsgHeader) (path name value tail : Bytes)
    (hpath : ∀ r ∈ db.files, r.path ≠ path) (hm : m.pathlen ≠ 0) (hq : q.pathlen ≠ 0)
    (hmode : m.mode.toNat < 2 ^ 31) (hv : ValidXattrs db.xattrs) (hn : IsCString name) :
    NumbersAgree sq db m q path name value tail ↔
      DevFits m.dev ∧ DevFits m.rdev ∧ ¬ Aliases q m ∧
        value ≠ [] ∧ bindText (value ++ tail) value.length = value := by
  have hfind := pdbLinkFile_find hpath sq hm hq
  have hset (hdev : DevFits m.dev) : (pdbSetXattr sq db m (packAttr name value tail)
      (name.length + 1 + value.length) .none).2 = 0 := by
    have hspec := set_spec sq value tail hv hdev hn .none
    rw [if_neg (by simp [Forbids])] at hspec
    exact hspec.1
  constructor
  · intro h
    obtain ⟨f, hf, hholds⟩ := h.found
    rw [hfind] at hf
    obtain rfl := Option.some.inj hf
    obtain ⟨hdev, hrdev⟩ := (holdsFile_iff hmode).mp hholds
    refine ⟨hdev, hrdev, ?_, (get_set_iff hv hdev hn .none (hset hdev)).mp (h.attr (hset hdev))⟩
    rintro ⟨hk, hne⟩
    obtain ⟨f, hf⟩ := (findExact_iff hpath sq hm).mpr hk
    exact hne (h.exact f hf).1
  · rintro ⟨hdev, hrdev, halias, hvalue⟩
    have hsame : q.key = m.key → q.dev = m.dev ∧ q.ino = m.ino := by
      intro hk
      refine ⟨?_, (key_eq_iff.mp hk).2⟩
      exact Decidable.byContradiction fun hne => halias ⟨hk, hne⟩
    exact
      { found := ⟨_, hfind, (holdsFile_iff hmode).mpr ⟨hdev, hrdev⟩⟩
        exact := fun h hs => hsame ((findExact_iff hpath sq hm).mp ⟨h, hs⟩)
        byDev := fun h hs => hsame (findDev_key hpath hs)
        attr := fun hok => (get_set_iff hv hdev hn .none hok).mpr hvalue }

/-- A file on the device `dev`, as a message with a path. -/
def exOnDevice (dev : BitVec 64) : MsgHeader :=
  { MsgHeader.zero with dev := dev, ino := 5, mode := 0o100644, pathlen := 3 }

/-- Device 1, looked for under inode 6. -/
theorem numbersAgree_small_dev :
    NumbersAgree Sqlite.inOrder (Db.empty ⟨0, []⟩) (exOnDevice 1)
      { exOnDevice 1 with ino := 6 } (ascii ['/', 'a']) (ascii ['n']) (ascii ['x']) [] := by
  have hv : ValidXattrs (Db.empty ⟨0, []⟩).xattrs :=
    ⟨List.nodup_nil, List.nodup_nil, fun _ hx => absurd hx List.not_mem_nil⟩
  refine (numbersAgree_iff _ _ _ _ _ _ _ _ (fun _ hr => absurd hr List.not_mem_nil) (by decide)
    (by decide) (by decide) hv (by decide)).mpr ⟨by decide, by decide, ?_, by decide, ?_⟩
  · rintro ⟨hk, _⟩
    exact absurd (key_eq_iff.mp hk).2 (by decide)
  · exact bindText_append (by decide)

/-- Device `2 ^ 32 + 1` is read back as device 1. -/
theorem numbersAgree_high_dev :
    (pdbFindFilePath Sqlite.inOrder (pdbLinkFile (Db.empty ⟨0, []⟩) (exOnDevice 0x100000001)
        (ascii ['/', 'a'])) (exOnDevice 0x100000001) (ascii ['/', 'a'])).map (·.dev) = some 1 ∧
      ¬ NumbersAgree Sqlite.inOrder (Db.empty ⟨0, []⟩) (exOnDevice 0x100000001)
        (exOnDevice 0x100000001) (ascii ['/', 'a']) (ascii ['n']) (ascii ['x']) [] := by
  refine ⟨by decide, fun h => ?_⟩
  obtain ⟨f, hf, hholds⟩ := h.found
  have hdev : (some f).map (·.dev) = some 1 := by
    rw [← hf]
    decide
  rw [Option.map_some, hholds.dev] at hdev
  exact absurd hdev (by decide)

end Pseudo
