import Pseudo.Attributes
import Pseudo.Refused

/-!
# Extended attributes of a renumbered file

`pdb_update_inode` gives a path another inode and has to take its attributes along: it copies
the attributes of the inode it finds for the path in a buffer, and drops those of the old inode
when no file has it any more. The names of an inode's attributes are kept apart by the code
alone, as the indexes of a new database are not unique.

Results:
1. `pdbUpdateInode_unique_iff`, `serveInput_unique_iff`: exactly when a step keeps the names of
   each inode unique.
2. `keepsXattrs_iff`: exactly when renumbering a path carries its attributes.
3. `xattrs_survive_iff`: both along every run from a new database.
4. `renumbered_file_loses_xattrs`: the buffer does not hold the path, and the new inode gets
   nothing.
-/

namespace Pseudo

open Table

/-! ## The attributes of an inode -/

/-- A device and an inode number, both at full width. -/
abbrev Inode := BitVec 64 × BitVec 64

/-- The inode that the columns of a row of `files` stand for. -/
def wide (k : BitVec 32 × BitVec 64) : Inode := (columnInt64 k.1, k.2)

def MsgHeader.inode (msg : MsgHeader) : Inode := (msg.dev, msg.ino)

def XattrRow.inode (x : XattrRow) : Inode := (x.dev, x.ino)

def xattrsOf (t : List XattrRow) (i : Inode) : List XattrRow := t.filter fun x => x.inode = i

/-- The names and values of an inode. -/
def entriesOf (t : List XattrRow) (i : Inode) : List (Bytes × Bytes) :=
  (xattrsOf t i).map fun x => (x.name, x.value)

/-! ## Steps -/

/-- What changes the tables: a message, or a call of `pdb_update_inode` by the check. -/
inductive Input
  | message (m : PseudoMsg)
  | renumber (msg : MsgHeader) (path : Bytes)

def serveInput (db : Db) (e : Sqlite × Input) : Db :=
  match e.2 with
  | .message m => serve db (e.1, m)
  | .renumber msg path => pdbUpdateInode e.1 db msg path

/-- The attribute is found when it is there. It is looked for under the device number that is
left of 32 bits. -/
def FindsName (db : Db) (msg : MsgHeader) (name : Bytes) : Prop :=
  (∃ x ∈ db.xattrs, atName msg name x = true) ∨ ∀ x ∈ db.xattrs, x.key ≠ attrKey msg name

/-- The inode found for the path in the buffer. -/
def foundOld (sq : Sqlite) (db : Db) (msg : MsgHeader) (path : Bytes) :
    Option (BitVec 32 × BitVec 64) :=
  (db.oldmsg.copy msg path).find sq db.files

/-- The inode found and the message's have no name in common. -/
def NamesApart (sq : Sqlite) (db : Db) (msg : MsgHeader) (path : Bytes) : Prop :=
  msg.pathlen ≠ 0 → ∀ k, foundOld sq db msg path = some k →
    ∀ x ∈ xattrsOf db.xattrs (wide k), ∀ y ∈ xattrsOf db.xattrs (wide msg.key), x.name ≠ y.name

/-- `pdb_set_xattr` finds the attribute it is called for when it is there, and
`pdb_update_inode` is called for inodes whose names are apart. -/
def KeepsNames (db : Db) (e : Sqlite × Input) : Prop :=
  match e.2 with
  | .renumber msg path => NamesApart e.1 db msg path
  | .message m =>
    let req := request m
    let c := checked e.1 db req
    aborts req c.lk = false →
      match req.hdr.op with
      | .setXattr | .createXattr => FindsName c.db c.lk.msg (cstr (req.oldpath.getD []))
      | .rename =>
        NamesApart e.1 (pdbRenameFile true true c.db (req.oldpath.map cstr) c.lk.msg req.path).1
          c.lk.msg req.path
      | _ => True

/-- Some other path has the inode as well. -/
def Shared (db : Db) (path : Bytes) (A : BitVec 32 × BitVec 64) : Prop :=
  ∃ r ∈ db.files, r.path ≠ path ∧ r.key = A

instance (db : Db) (path : Bytes) (A : BitVec 32 × BitVec 64) : Decidable (Shared db path A) :=
  inferInstanceAs (Decidable (∃ r ∈ db.files, _))

instance (db : Db) (msg : MsgHeader) (name : Bytes) : Decidable (FindsName db msg name) :=
  inferInstanceAs (Decidable (_ ∨ _))

/-- What `pdb_update_inode` is to do for a path whose rows have the inode `A`. -/
structure KeepsXattrs (sq : Sqlite) (db : Db) (msg : MsgHeader) (path : Bytes)
    (A : BitVec 32 × BitVec 64) : Prop where
  same : wide A = msg.inode → (pdbUpdateInode sq db msg path).xattrs = db.xattrs
  moved : wide A ≠ msg.inode → entriesOf db.xattrs msg.inode = [] →
    ∀ e, e ∈ entriesOf (pdbUpdateInode sq db msg path).xattrs msg.inode ↔
      e ∈ entriesOf db.xattrs (wide A)
  kept : wide A ≠ msg.inode → entriesOf db.xattrs msg.inode = [] → Shared db path A →
    entriesOf (pdbUpdateInode sq db msg path).xattrs (wide A) = entriesOf db.xattrs (wide A)
  dropped : wide A ≠ msg.inode → entriesOf db.xattrs msg.inode = [] → ¬ Shared db path A →
    entriesOf (pdbUpdateInode sq db msg path).xattrs (wide A) = []

/-- The names and values that are copied. -/
def copiedEntries (sq : Sqlite) (db : Db) (msg : MsgHeader) (path : Bytes) :
    List (Bytes × Bytes) :=
  match foundOld sq db msg path with
  | none => []
  | some k => entriesOf db.xattrs (wide k)

/-- Nothing is copied when the inode stays. Otherwise the path in the buffer leads to the old
inode, or to one with the same attributes while nothing has to be dropped. A device number that
does not fit is only right when there is nothing to carry. -/
def Carried (sq : Sqlite) (db : Db) (msg : MsgHeader) (path : Bytes)
    (A : BitVec 32 × BitVec 64) : Prop :=
  if wide A = msg.inode then copiedEntries sq db msg path = []
  else entriesOf db.xattrs msg.inode = [] →
    if DevFits msg.dev then
      foundOld sq db msg path = some A ∨
        (∀ e, e ∈ copiedEntries sq db msg path ↔ e ∈ entriesOf db.xattrs (wide A)) ∧
          (entriesOf db.xattrs (wide A) = [] ∨ Shared db path A)
    else entriesOf db.xattrs (wide A) = [] ∧ (A = msg.key → copiedEntries sq db msg path = [])

namespace RenumberLemmas

open RefusedLemmas

section Entries
variable {t : List XattrRow} {k : BitVec 32 × BitVec 64} {i : Inode} {x : XattrRow}

theorem wide_inj {k k' : BitVec 32 × BitVec 64} : wide k = wide k' ↔ k = k' := by
  refine ⟨fun h => ?_, fun h => h ▸ rfl⟩
  obtain ⟨hdev, hino⟩ := Prod.ext_iff.mp h
  exact Prod.ext (columnInt64_inj hdev) hino

theorem hasKey_iff : x.hasKey k = true ↔ x.inode = wide k := by
  simp [XattrRow.hasKey, XattrRow.inode, wide, Prod.ext_iff]

theorem hasKey_eq_decide (k : BitVec 32 × BitVec 64) :
    (fun x : XattrRow => x.hasKey k) = fun x => decide (x.inode = wide k) := by
  funext x
  rw [Bool.eq_iff_iff, hasKey_iff, decide_eq_true_iff]

theorem mem_xattrsOf : x ∈ xattrsOf t i ↔ x ∈ t ∧ x.inode = i := by
  simp [xattrsOf]

theorem entriesOf_append (t t' : List XattrRow) (i : Inode) :
    entriesOf (t ++ t') i = entriesOf t i ++ entriesOf t' i := by
  simp [entriesOf, xattrsOf]

/-- Dropping the rows of one inode. -/
theorem entriesOf_delete (t : List XattrRow) (k : BitVec 32 × BitVec 64) (i : Inode) :
    entriesOf (delete (fun x => x.hasKey k) t) i = if i = wide k then [] else entriesOf t i := by
  unfold entriesOf xattrsOf delete
  rw [List.filter_filter, hasKey_eq_decide]
  split
  · rename_i hi
    rw [List.map_eq_nil_iff, List.filter_eq_nil_iff]
    intro x _
    simp [hi]
  · rename_i hi
    congr 1
    refine List.filter_congr fun x _ => ?_
    by_cases hx : x.inode = i
    · simp [hx, hi]
    · simp [hx]

end Entries

/-! ## What is copied -/

/-- Copies for one inode: rows with the names and values of `found`. -/
structure Copies (i : Inode) (found copies : List XattrRow) : Prop where
  keys : copies.map XattrRow.key = found.map fun x => (i, x.name)
  entries : ∀ j, entriesOf copies j = if j = i then found.map fun x => (x.name, x.value) else []

theorem foldl_insertXattr (dev ino : BitVec 64) (found t : List XattrRow) :
    ∃ copies, Copies (dev, ino) found copies ∧
      found.foldl (fun t x => insertXattr t dev ino x.name x.value) t = t ++ copies := by
  induction found generalizing t with
  | nil => exact ⟨[], ⟨rfl, by simp [entriesOf, xattrsOf]⟩, by simp⟩
  | cons x found ih =>
    obtain ⟨copies, hc, he⟩ := ih (insertXattr t dev ino x.name x.value)
    refine ⟨⟨nextId t, dev, ino, x.name, x.value⟩ :: copies, ⟨?_, fun j => ?_⟩, ?_⟩
    · rw [List.map_cons, hc.keys, List.map_cons]
      rfl
    · rw [← List.singleton_append, entriesOf_append, hc.entries j]
      rcases Decidable.em (j = (dev, ino)) with rfl | hj
      · simp [entriesOf, xattrsOf, XattrRow.inode]
      · simp [entriesOf, xattrsOf, XattrRow.inode, hj, Ne.symm hj]
    · rw [List.foldl_cons, he, insertXattr, List.append_assoc, List.singleton_append]

/-- Copied names clash exactly with names that the inode has already. -/
theorem unique_copies_iff {t found copies : List XattrRow} {i j : Inode}
    (hc : Copies i found copies) (ht : UniqueKeys XattrRow.key t)
    (hfound : UniqueKeys XattrRow.key found) (hj : ∀ x ∈ found, x.inode = j) :
    UniqueKeys XattrRow.key (t ++ copies) ↔
      ∀ x ∈ found, ∀ y ∈ xattrsOf t i, x.name ≠ y.name := by
  have hnew : (found.map fun x => (i, x.name)).Nodup := by
    unfold UniqueKeys at hfound
    rw [List.Nodup, List.pairwise_map] at hfound ⊢
    refine hfound.imp_of_mem fun {x y} hx hy hne he => hne ?_
    have hname : x.name = y.name := congrArg Prod.snd he
    exact Prod.ext ((hj x hx).trans (hj y hy).symm) hname
  unfold UniqueKeys at ht ⊢
  rw [List.map_append, hc.keys, List.nodup_append]
  constructor
  · rintro ⟨_, _, hdisj⟩ x hx y hy hname
    obtain ⟨hyt, hyi⟩ := mem_xattrsOf.mp hy
    refine hdisj y.key (List.mem_map_of_mem hyt) (i, x.name) (List.mem_map.mpr ⟨x, hx, rfl⟩) ?_
    exact Prod.ext hyi hname.symm
  · intro h
    refine ⟨ht, hnew, fun a ha b hb hab => ?_⟩
    obtain ⟨y, hy, rfl⟩ := List.mem_map.mp ha
    obtain ⟨x, hx, rfl⟩ := List.mem_map.mp hb
    obtain ⟨hinode, hname⟩ := Prod.ext_iff.mp hab
    exact h x hx y (mem_xattrsOf.mpr ⟨hy, hinode⟩) hname.symm

/-! ## `pdb_update_inode` -/

section Renumber
variable {sq : Sqlite} {db : Db} {msg : MsgHeader} {path : Bytes} {k A : BitVec 32 × BitVec 64}

theorem pdbUpdateInode_none (hf : foundOld sq db msg path = none) :
    (pdbUpdateInode sq db msg path).xattrs = db.xattrs := by
  unfold pdbUpdateInode
  unfold foundOld at hf
  split
  · rfl
  · dsimp only
    rw [hf]

theorem pdbCheckXattrs_xattrs (db : Db) (msg : MsgHeader) : (pdbCheckXattrs db msg).xattrs =
    if count (atKey msg.key) db.files = 0 then delete (fun x => x.hasKey msg.key) db.xattrs
    else db.xattrs := by
  unfold pdbCheckXattrs
  dsimp only
  split
  · rename_i hgone
    unfold pdbClearXattrs
    dsimp only
    rw [hgone]
    simp
  · rfl

theorem pdbUpdateInode_some (hlen : msg.pathlen ≠ 0) (hf : foundOld sq db msg path = some k) :
    ∃ copies, Copies (wide msg.key) (xattrsOf db.xattrs (wide k)) copies ∧
      (pdbUpdateInode sq db msg path).xattrs =
        if count (atKey k) (setInode msg path db.files) = 0 then
          delete (fun x => x.hasKey k) (db.xattrs ++ copies)
        else db.xattrs ++ copies := by
  obtain ⟨copies, hc, he⟩ := foldl_insertXattr (columnInt64 (bindInt msg.dev))
    (signedIno msg.ino) (xattrsOf db.xattrs (wide k)) db.xattrs
  refine ⟨copies, hc, ?_⟩
  have hcopy : (pdbCopyXattrs { db with oldmsg := db.oldmsg.copy msg path } k msg).xattrs =
      db.xattrs ++ copies := by
    unfold pdbCopyXattrs
    dsimp only
    rw [hasKey_eq_decide, ← he]
    rfl
  have hkey : MsgHeader.key { msg with dev := columnInt64 k.1, ino := k.2 } = k := by
    simp [MsgHeader.key]
  unfold foundOld at hf
  unfold pdbUpdateInode
  rw [if_neg hlen]
  dsimp only
  rw [hf]
  dsimp only
  rw [pdbCheckXattrs_xattrs, hkey]
  dsimp only
  rw [hcopy, pdbCopyXattrs_files]

/-- The row found for the path in the buffer. -/
theorem foundOld_row (hf : foundOld sq db msg path = some k) : ∃ r ∈ db.files, r.key = k := by
  unfold foundOld OldMsg.find at hf
  split at hf
  · exact absurd hf (by simp)
  · obtain ⟨r, hr, rfl⟩ := Option.map_eq_some_iff.mp hf
    exact ⟨r, mem_of_select hr, rfl⟩

theorem mem_setInode {r : FileRow} {t : List FileRow} (h : r ∈ setInode msg path t) :
    r ∈ t ∧ r.path ≠ path ∨ r.path = path ∧ r.key = msg.key := by
  obtain ⟨s, hs, rfl⟩ := mem_update.mp h
  cases hp : atPath path s with
  | true => exact Or.inr ⟨by simpa using hp, rfl⟩
  | false => exact Or.inl ⟨by simpa using hs, by simpa using hp⟩

theorem setInode_of_path_ne {r : FileRow} {t : List FileRow} (h : r ∈ t) (hp : r.path ≠ path) :
    r ∈ setInode msg path t :=
  mem_update_of_not h (by simpa using hp)

/-- When no row has the old inode any more, it is not the message's. -/
theorem ne_of_gone (hf : foundOld sq db msg path = some k)
    (hgone : count (atKey k) (setInode msg path db.files) = 0) : k ≠ msg.key := by
  rintro rfl
  obtain ⟨r, hr, hk⟩ := foundOld_row hf
  rw [count_eq_zero] at hgone
  cases hp : atPath path r with
  | true =>
    have hnew := hgone _ (mem_update.mpr ⟨r, hr, rfl⟩)
    rw [if_pos hp] at hnew
    exact absurd rfl (atKey_eq_false.mp hnew)
  | false => exact atKey_eq_false.mp (hgone r (mem_update_of_not hr hp)) hk

/-- The old inode is gone exactly when it was that of the path, and of no other. -/
theorem gone_iff (hA : ∀ r ∈ db.files, r.path = path → r.key = A)
    (hf : foundOld sq db msg path = some k) :
    count (atKey k) (setInode msg path db.files) = 0 ↔
      k = A ∧ A ≠ msg.key ∧ ¬ Shared db path A := by
  constructor
  · intro hgone
    have hne := ne_of_gone hf hgone
    obtain ⟨r, hr, hk⟩ := foundOld_row hf
    rw [count_eq_zero] at hgone
    have hpath : r.path = path := by
      by_contra hp
      exact atKey_eq_false.mp (hgone r (setInode_of_path_ne hr hp)) hk
    obtain rfl : k = A := hk.symm.trans (hA r hr hpath)
    refine ⟨rfl, hne, ?_⟩
    rintro ⟨s, hs, hp, hsk⟩
    exact atKey_eq_false.mp (hgone s (setInode_of_path_ne hs hp)) hsk
  · rintro ⟨rfl, hne, hshared⟩
    rw [count_eq_zero]
    intro r hr
    rw [atKey_eq_false]
    intro hk
    rcases mem_setInode hr with ⟨hr, hp⟩ | ⟨_, hnew⟩
    · exact hshared ⟨r, hr, hp, hk⟩
    · exact hne (hk.symm.trans hnew)

/-- Renumbering keeps names unique exactly when those it copies are not taken. -/
theorem pdbUpdateInode_unique_iff (hu : UniqueKeys XattrRow.key db.xattrs) :
    UniqueKeys XattrRow.key (pdbUpdateInode sq db msg path).xattrs ↔
      NamesApart sq db msg path := by
  rcases Nat.eq_zero_or_pos msg.pathlen with hlen | hlen
  · have hsame : (pdbUpdateInode sq db msg path).xattrs = db.xattrs := by
      rw [pdbUpdateInode, if_pos hlen]
    rw [hsame]
    exact iff_of_true hu fun hne => absurd hlen hne
  · cases hf : foundOld sq db msg path with
    | none =>
      rw [pdbUpdateInode_none hf]
      refine iff_of_true hu fun _ k hk => ?_
      rw [hf] at hk
      exact absurd hk (by simp)
    | some k =>
      obtain ⟨copies, hc, he⟩ := pdbUpdateInode_some (by omega) hf
      have hsrc : UniqueKeys XattrRow.key (xattrsOf db.xattrs (wide k)) :=
        List.Nodup.sublist (List.Sublist.map _ List.filter_sublist) hu
      have hapart : NamesApart sq db msg path ↔ ∀ x ∈ xattrsOf db.xattrs (wide k),
          ∀ y ∈ xattrsOf db.xattrs (wide msg.key), x.name ≠ y.name := by
        unfold NamesApart
        rw [hf]
        simp [Nat.ne_of_gt hlen]
      rw [hapart, he]
      split
      · rename_i hgone
        have hne : wide msg.key ≠ wide k := fun h => ne_of_gone hf hgone (wide_inj.mp h).symm
        have hcopies : delete (fun x => x.hasKey k) copies = copies := by
          refine delete_eq_self fun x hx => ?_
          have hmem : x.key ∈ copies.map XattrRow.key := List.mem_map_of_mem hx
          rw [hc.keys] at hmem
          obtain ⟨s, _, hs⟩ := List.mem_map.mp hmem
          rw [Bool.eq_false_iff, ne_eq, hasKey_iff]
          exact fun h => hne ((congrArg Prod.fst hs).trans h)
        have hrest : xattrsOf (delete (fun x => x.hasKey k) db.xattrs) (wide msg.key) =
            xattrsOf db.xattrs (wide msg.key) := by
          unfold xattrsOf delete
          rw [List.filter_filter, hasKey_eq_decide]
          refine List.filter_congr fun x _ => ?_
          by_cases hx : x.inode = wide msg.key
          · simp [hx, hne]
          · simp [hx]
        rw [delete, List.filter_append, ← delete, ← delete, hcopies,
          unique_copies_iff hc (nodup_delete hu) hsrc fun x hx => (mem_xattrsOf.mp hx).2, hrest]
      · exact unique_copies_iff hc hu hsrc fun x hx => (mem_xattrsOf.mp hx).2

/-- The attributes of every inode after a renumbering. -/
theorem pdbUpdateInode_entries (hlen : msg.pathlen ≠ 0)
    (hA : ∀ r ∈ db.files, r.path = path → r.key = A) (i : Inode) :
    entriesOf (pdbUpdateInode sq db msg path).xattrs i =
      if foundOld sq db msg path = some A ∧ A ≠ msg.key ∧ ¬ Shared db path A ∧ i = wide A then []
      else entriesOf db.xattrs i ++
        if i = wide msg.key then copiedEntries sq db msg path else [] := by
  cases hf : foundOld sq db msg path with
  | none =>
    rw [pdbUpdateInode_none hf, if_neg (by simp), copiedEntries, hf]
    simp
  | some k =>
    obtain ⟨copies, hc, he⟩ := pdbUpdateInode_some hlen hf
    have hg := gone_iff hA hf
    have hentries : entriesOf copies i =
        if i = wide msg.key then entriesOf db.xattrs (wide k) else [] := hc.entries i
    rw [he, copiedEntries, hf]
    dsimp only
    rw [← hentries, ← entriesOf_append]
    split
    · rename_i hgone
      obtain ⟨rfl, hne, hsh⟩ := hg.mp hgone
      rw [entriesOf_delete]
      simp [hne, hsh]
    · rename_i hgone
      rw [if_neg]
      rintro ⟨hk, hne, hsh, _⟩
      exact hgone (hg.mpr ⟨Option.some.inj hk, hne, hsh⟩)

theorem wide_key_iff : wide msg.key = msg.inode ↔ DevFits msg.dev := by
  simp [wide, MsgHeader.key, MsgHeader.inode, DevFits]

theorem key_of_wide (h : wide A = msg.inode) : A = msg.key := by
  obtain ⟨hdev, hino⟩ := Prod.ext_iff.mp h
  have hdev : columnInt64 A.1 = msg.dev := hdev
  have hino : A.2 = msg.ino := hino
  exact Prod.ext (by simp [MsgHeader.key, ← hdev]) (by simp [MsgHeader.key, ← hino])

/-- The inode stays: the table stays exactly when nothing is copied. -/
theorem same_iff (hlen : msg.pathlen ≠ 0) (hA : ∀ r ∈ db.files, r.path = path → r.key = A)
    (hsame : wide A = msg.inode) : (pdbUpdateInode sq db msg path).xattrs = db.xattrs ↔
      copiedEntries sq db msg path = [] := by
  cases hf : foundOld sq db msg path with
  | none => simp [pdbUpdateInode_none hf, copiedEntries, hf]
  | some k =>
    obtain ⟨copies, hc, he⟩ := pdbUpdateInode_some hlen hf
    have hgone : ¬ count (atKey k) (setInode msg path db.files) = 0 :=
      fun h => ((gone_iff hA hf).mp h).2.1 (key_of_wide hsame)
    have hnil : copies = [] ↔ xattrsOf db.xattrs (wide k) = [] := by
      rw [← List.map_eq_nil_iff (f := XattrRow.key), hc.keys, List.map_eq_nil_iff]
    rw [he, if_neg hgone, List.append_right_eq_self, hnil, copiedEntries, hf]
    exact List.map_eq_nil_iff.symm

/-- The new inode, which had no attributes, afterwards. -/
theorem entries_new (hlen : msg.pathlen ≠ 0) (hA : ∀ r ∈ db.files, r.path = path → r.key = A)
    (hne : wide A ≠ msg.inode) (hnone : entriesOf db.xattrs msg.inode = []) :
    entriesOf (pdbUpdateInode sq db msg path).xattrs msg.inode =
      if DevFits msg.dev then copiedEntries sq db msg path else [] := by
  rw [pdbUpdateInode_entries hlen hA, if_neg (fun h => hne h.2.2.2.symm), hnone, List.nil_append]
  rcases Decidable.em (DevFits msg.dev) with hfit | hfit
  · rw [if_pos (wide_key_iff.mpr hfit).symm, if_pos hfit]
  · rw [if_neg (fun h => hfit (wide_key_iff.mp h.symm)), if_neg hfit]

/-- The old inode afterwards. -/
theorem entries_old (hlen : msg.pathlen ≠ 0) (hA : ∀ r ∈ db.files, r.path = path → r.key = A) :
    entriesOf (pdbUpdateInode sq db msg path).xattrs (wide A) =
      if foundOld sq db msg path = some A ∧ A ≠ msg.key ∧ ¬ Shared db path A then []
      else entriesOf db.xattrs (wide A) ++
        if A = msg.key then copiedEntries sq db msg path else [] := by
  rw [pdbUpdateInode_entries hlen hA]
  simp [wide_inj]

end Renumber

/-! ## The other changes -/

section Sublist
variable {sq : Sqlite} {db : Db} {msg : MsgHeader} {path : Bytes} {req : Request} {c : Checked}

theorem pdbClearXattrs_sublist : (pdbClearXattrs db msg).xattrs.Sublist db.xattrs :=
  List.filter_sublist

theorem pdbCheckXattrs_sublist : (pdbCheckXattrs db msg).xattrs.Sublist db.xattrs :=
  (pdbCheckXattrs_swept _).1

theorem pdbUnlinkFile_sublist : (pdbUnlinkFile db msg path).xattrs.Sublist db.xattrs :=
  pdbUnlinkFile_swept.1

theorem pdbUnlinkContents_sublist : (pdbUnlinkContents db msg path).xattrs.Sublist db.xattrs := by
  unfold pdbUnlinkContents
  split
  · exact List.Sublist.refl _
  · exact List.filter_sublist

theorem pdbUnlinkFileDev_sublist : (pdbUnlinkFileDev db msg).xattrs.Sublist db.xattrs :=
  pdbClearXattrs_sublist

theorem checkIno_sublist {lk : Lookup} : (checkIno db req lk).1.xattrs.Sublist db.xattrs := by
  have hpath : (pdbUpdateFilePath db lk.msg req.path).xattrs = db.xattrs := by
    unfold pdbUpdateFilePath
    split <;> rfl
  have hnamed : (if lk.msg.pathlen ≠ 0 then pdbUpdateFilePath db lk.msg req.path else db).xattrs =
      db.xattrs := by
    split
    · exact hpath
    · rfl
  have hdrop : ∀ db' : Db, db'.xattrs = db.xattrs →
      (if typeMismatch lk.byIno req.hdr then (pdbUnlinkFileDev db' lk.msg, false)
        else (db', true)).1.xattrs.Sublist db.xattrs := by
    intro db' hx
    split
    · exact hx ▸ pdbUnlinkFileDev_sublist
    · exact hx ▸ List.Sublist.refl _
  unfold checkIno
  split
  · cases lk.pathByIno with
    | none => exact hdrop _ hnamed
    | some _ => exact hdrop _ rfl
  · exact List.Sublist.refl _

theorem checked_sublist : (checked sq db req).db.xattrs.Sublist db.xattrs :=
  checkIno_sublist.trans checkPath_swept.1

/-- Apart from renames and `pdb_set_xattr`, an operation only removes attributes. -/
theorem opAction_sublist (hrename : req.hdr.op ≠ .rename) (hset : req.hdr.op ≠ .setXattr)
    (hcreate : req.hdr.op ≠ .createXattr) (hreplace : req.hdr.op ≠ .replaceXattr) :
    (opAction sq req c).db.xattrs.Sublist c.db.xattrs := by
  have hrefl := List.Sublist.refl c.db.xattrs
  have hchange : ∀ merge new, (opChange merge new c).db.xattrs.Sublist c.db.xattrs := by
    intro merge new
    unfold opChange
    split
    · exact hrefl
    · split <;> exact hrefl
  have hlink : ∀ db', (if c.foundPath then pdbUnlinkFile c.db c.lk.msg req.path else c.db) = db' →
      db'.xattrs.Sublist c.db.xattrs := by
    rintro db' rfl
    split
    · exact pdbUnlinkFile_sublist
    · exact hrefl
  unfold opAction
  cases hop : req.hdr.op
  case rename => exact absurd hop hrename
  case setXattr => exact absurd hop hset
  case createXattr => exact absurd hop hcreate
  case replaceXattr => exact absurd hop hreplace
  case creat =>
    simp only [opCreat]
    split
    · exact pdbUnlinkFileDev_sublist
    · exact hrefl
  case chmod | fchmod => exact hchange _ _
  case chown | fchown => exact hchange _ _
  case stat | fstat =>
    simp only [opStat]
    split <;> exact hrefl
  case link | symlink => exact hlink _ rfl
  case mkdir | mknod =>
    simp only [opMknod]
    split
    · exact pdbUnlinkFileDev_sublist.trans (hlink _ rfl)
    · exact hlink _ rfl
  case mayUnlink =>
    simp only [opMayUnlink, pdbMayUnlinkFile]
    split <;> exact hrefl
  case didUnlink => exact pdbClearXattrs_sublist
  case cancelUnlink =>
    simp only [pdbCancelUnlinkFile]
    split
    · exact hrefl
    · exact pdbCheckXattrs_sublist
  case unlink =>
    have hcontents : (pdbUnlinkContents (pdbUnlinkFile c.db c.lk.msg req.path) c.lk.msg
        req.path).xattrs.Sublist c.db.xattrs :=
      pdbUnlinkContents_sublist.trans pdbUnlinkFile_sublist
    simp only [opUnlink]
    split
    · exact pdbUnlinkFileDev_sublist.trans hcontents
    · exact hcontents
  case removeXattr => exact List.filter_sublist
  all_goals exact hrefl

end Sublist

/-! ## One step -/

section Step
variable {sq : Sqlite} {db : Db} {msg : MsgHeader}

/-- `pdb_set_xattr` keeps names unique exactly when it finds the row that is there. -/
theorem pdbSetXattr_unique_iff (hu : UniqueKeys XattrRow.key db.xattrs) (value : Bytes)
    (len : Nat) (flags : XattrFlags) :
    UniqueKeys XattrRow.key (pdbSetXattr sq db msg value len flags).1.xattrs ↔
      flags = .replace ∨ FindsName db msg (cstr value) := by
  cases hs : select sq.xattrs (atName msg (cstr value)) db.xattrs with
  | none =>
    have hfinds : FindsName db msg (cstr value) ↔
        ∀ x ∈ db.xattrs, x.key ≠ attrKey msg (cstr value) := by
      refine or_iff_right ?_
      rintro ⟨x, hx, hname⟩
      rw [select_eq_none_iff.mp hs x hx] at hname
      exact absurd hname (by simp)
    rw [pdbSetXattr_none hs, hfinds]
    split
    · rename_i hflags
      exact iff_of_true hu (Or.inl hflags)
    · rename_i hflags
      rw [or_iff_right hflags]
      dsimp only
      rw [signedIno_eq]
      exact nodup_append_iff hu
  | some x =>
    rw [pdbSetXattr_some hs]
    refine iff_of_true ?_ (Or.inr (Or.inl ⟨x, mem_of_select hs, prop_of_select hs⟩))
    split
    · exact hu
    · exact updateXattr_names hu _ _

theorem opSetXattr_unique_iff {req : Request} {c : Checked} {flags : XattrFlags}
    (hu : UniqueKeys XattrRow.key c.db.xattrs) :
    UniqueKeys XattrRow.key (opSetXattr sq flags req c).db.xattrs ↔
      flags = .replace ∨ FindsName c.db c.lk.msg (cstr (req.oldpath.getD [])) :=
  pdbSetXattr_unique_iff hu _ _ _

theorem serve_xattrs (m : PseudoMsg) : (serve db (sq, m)).xattrs =
    if aborts (request m) (lookup sq db (request m)) then
      (checkPath db (request m) (lookup sq db (request m))).1.xattrs
    else (opAction sq (request m) (checked sq db (request m))).db.xattrs :=
  handle_xattrs sq db (request m)

theorem serve_unique_iff (m : PseudoMsg) (hu : UniqueKeys XattrRow.key db.xattrs) :
    UniqueKeys XattrRow.key (serve db (sq, m)).xattrs ↔ KeepsNames db (sq, .message m) := by
  have hsub : ∀ {t : List XattrRow}, t.Sublist db.xattrs → UniqueKeys XattrRow.key t :=
    fun ht => List.Nodup.sublist (List.Sublist.map _ ht) hu
  rw [serve_xattrs]
  unfold KeepsNames
  dsimp only
  generalize hreq : request m = req
  have hlk : (checked sq db req).lk = lookup sq db req := rfl
  rw [hlk]
  cases hab : aborts req (lookup sq db req) with
  | true =>
    rw [if_pos rfl]
    exact iff_of_true (hsub checkPath_swept.1) fun h => absurd h (by simp)
  | false =>
    rw [if_neg (by simp), imp_iff_right (rfl : false = false)]
    have hc : UniqueKeys XattrRow.key (checked sq db req).db.xattrs := hsub checked_sublist
    generalize hchk : checked sq db req = c at hc hlk ⊢
    cases hop : req.hdr.op
    case setXattr =>
      have hact : opAction sq req c = opSetXattr sq .none req c := by rw [opAction, hop]
      rw [hact, opSetXattr_unique_iff hc, hlk]
      simp
    case createXattr =>
      have hact : opAction sq req c = opSetXattr sq .create req c := by rw [opAction, hop]
      rw [hact, opSetXattr_unique_iff hc, hlk]
      simp
    case replaceXattr =>
      have hact : opAction sq req c = opSetXattr sq .replace req c := by rw [opAction, hop]
      rw [hact, opSetXattr_unique_iff hc]
      simp
    case rename =>
      have hact : opAction sq req c = opRename sq req c := by rw [opAction, hop]
      rw [hact, ← hlk]
      refine pdbUpdateInode_unique_iff ?_
      unfold pdbRenameFile
      split <;> exact hc
    all_goals
      have hact : (opAction sq req c).db.xattrs.Sublist c.db.xattrs := by
        apply opAction_sublist <;> rw [hop] <;> simp
      exact iff_of_true (List.Nodup.sublist (List.Sublist.map _ hact) hc) trivial

theorem serveInput_unique_iff (e : Sqlite × Input) (hu : UniqueKeys XattrRow.key db.xattrs) :
    UniqueKeys XattrRow.key (serveInput db e).xattrs ↔ KeepsNames db e := by
  obtain ⟨sq, inp⟩ := e
  cases inp with
  | message m => exact serve_unique_iff m hu
  | renumber msg path => exact pdbUpdateInode_unique_iff hu

end Step

end RenumberLemmas

open RenumberLemmas

/-- Exactly when renumbering a path carries its attributes. -/
theorem keepsXattrs_iff {sq : Sqlite} {db : Db} {msg : MsgHeader} {path : Bytes}
    {A : BitVec 32 × BitVec 64} (hlen : msg.pathlen ≠ 0)
    (hA : ∀ r ∈ db.files, r.path = path → r.key = A) :
    KeepsXattrs sq db msg path A ↔ Carried sq db msg path A := by
  unfold Carried
  rcases Decidable.em (wide A = msg.inode) with hsame | hne
  · rw [if_pos hsame, ← same_iff hlen hA hsame]
    exact ⟨fun h => h.same hsame, fun h =>
      ⟨fun _ => h, fun hn => absurd hsame hn, fun hn => absurd hsame hn,
        fun hn => absurd hsame hn⟩⟩
  · rw [if_neg hne]
    have hsplit : KeepsXattrs sq db msg path A ↔ (entriesOf db.xattrs msg.inode = [] →
        (∀ e, e ∈ (if DevFits msg.dev then copiedEntries sq db msg path else []) ↔
          e ∈ entriesOf db.xattrs (wide A)) ∧
        (Shared db path A → entriesOf (pdbUpdateInode sq db msg path).xattrs (wide A) =
          entriesOf db.xattrs (wide A)) ∧
        (¬ Shared db path A →
          entriesOf (pdbUpdateInode sq db msg path).xattrs (wide A) = [])) := by
      constructor
      · intro h hnone
        have hmoved := h.moved hne hnone
        rw [entries_new hlen hA hne hnone] at hmoved
        exact ⟨hmoved, h.kept hne hnone, h.dropped hne hnone⟩
      · intro h
        refine ⟨fun hs => absurd hs hne, fun _ hnone => ?_, fun _ hnone => (h hnone).2.1,
          fun _ hnone => (h hnone).2.2⟩
        rw [entries_new hlen hA hne hnone]
        exact (h hnone).1
    rw [hsplit]
    refine imp_congr_right fun _ => ?_
    rw [entries_old hlen hA]
    rcases Decidable.em (DevFits msg.dev) with hfit | hfit
    · have hkey : A ≠ msg.key := fun h => hne (h ▸ wide_key_iff.mpr hfit)
      rw [if_pos hfit, if_pos hfit, if_neg hkey, List.append_nil]
      rcases Decidable.em (Shared db path A) with hsh | hsh
      · have hf : foundOld sq db msg path = some A →
            ∀ e, e ∈ copiedEntries sq db msg path ↔ e ∈ entriesOf db.xattrs (wide A) := by
          intro hf e
          rw [copiedEntries, hf]
        simp only [hsh, not_true_eq_false, and_false, if_false, or_true, and_true, true_imp_iff,
          false_imp_iff]
        exact (or_iff_right_of_imp hf).symm
      · simp only [hsh, hkey, not_false_eq_true, ne_eq, and_true, true_imp_iff, false_imp_iff,
          true_and, or_false]
        rcases Decidable.em (foundOld sq db msg path = some A) with hf | hf
        · simp [hf, copiedEntries]
        · simp [hf]
    · have hnil : (∀ e, e ∈ ([] : List (Bytes × Bytes)) ↔ e ∈ entriesOf db.xattrs (wide A)) ↔
          entriesOf db.xattrs (wide A) = [] := by
        simp [List.eq_nil_iff_forall_not_mem]
      rw [if_neg hfit, if_neg hfit, hnil]
      refine and_congr_right fun hold => ?_
      rw [hold]
      rcases Decidable.em (A = msg.key) with hkey | hkey
      · simp [hkey]
      · simp [hkey]

/-- Every step that keeps the names of an inode unique is one that finds the attribute it sets,
and copies no name that is taken; and in every state of a run a renumbering carries the
attributes of the path exactly when the buffer leads to them. -/
theorem xattrs_survive_iff (oldmsg : OldMsg) (es : List (Sqlite × Input)) :
    (Run.Guarded serveInput KeepsNames (Db.empty oldmsg) es ↔ ∀ pre, pre <+: es →
      UniqueKeys XattrRow.key (Run.run serveInput (Db.empty oldmsg) pre).xattrs) ∧
    ∀ pre, pre <+: es → ∀ sq msg path A, msg.pathlen ≠ 0 →
      (∀ r ∈ (Run.run serveInput (Db.empty oldmsg) pre).files, r.path = path → r.key = A) →
      (KeepsXattrs sq (Run.run serveInput (Db.empty oldmsg) pre) msg path A ↔
        Carried sq (Run.run serveInput (Db.empty oldmsg) pre) msg path A) := by
  constructor
  · have hstep : ∀ db e, UniqueKeys XattrRow.key db.xattrs →
        (UniqueKeys XattrRow.key (serveInput db e).xattrs ↔ KeepsNames db e) :=
      fun db e hu => serveInput_unique_iff e hu
    exact Run.guarded_iff hstep List.nodup_nil
  · exact fun pre _ sq msg path A hlen hA => keepsXattrs_iff hlen hA

/-- The copy of a short path does not reach the buffer's path, nor its length. -/
theorem copy_short {oldmsg : OldMsg} {msg : MsgHeader} {path : Bytes} (hlen : msg.pathlen ≤ 56) :
    oldmsg.copy msg path = oldmsg := by
  have hlength : sizeofPointer + msg.pathlen - offsetofPathlen = 0 := by
    unfold sizeofPointer offsetofPathlen
    omega
  have hpath : sizeofPointer + msg.pathlen - offsetofPath = 0 := by
    unfold sizeofPointer offsetofPath
    omega
  have hmask : BitVec.ofNat 32 (2 ^ (8 * min 4 0) - 1) = 0#32 := by decide
  have hall : ~~~0#32 = BitVec.allOnes 32 := by decide
  unfold OldMsg.copy
  dsimp only
  rw [hlength, hpath, hmask, hall, BitVec.and_allOnes, BitVec.and_zero, BitVec.zero_or,
    List.take_zero, List.drop_zero, List.nil_append]

/-- While the buffer is empty, a file with a short path takes no attributes along. -/
theorem keepsXattrs_short {sq : Sqlite} {db : Db} {msg : MsgHeader} {path : Bytes}
    {A : BitVec 32 × BitVec 64} (hne : msg.pathlen ≠ 0) (hlen : msg.pathlen ≤ 56)
    (hbuf : db.oldmsg.pathlen = 0) (hA : ∀ r ∈ db.files, r.path = path → r.key = A) :
    KeepsXattrs sq db msg path A ↔ (wide A ≠ msg.inode → entriesOf db.xattrs msg.inode = [] →
      entriesOf db.xattrs (wide A) = []) := by
  have hfound : foundOld sq db msg path = none := by
    rw [foundOld, copy_short hlen, OldMsg.find, if_pos hbuf]
  have hcopied : copiedEntries sq db msg path = [] := by
    rw [copiedEntries, hfound]
  rw [keepsXattrs_iff hne hA, Carried, hcopied, hfound]
  split
  · rename_i hsame
    simp [hsame]
  · rename_i hdiff
    simp only [ne_eq, hdiff, not_false_eq_true, true_imp_iff]
    refine imp_congr_right fun _ => ?_
    split
    · simp only [reduceCtorEq, false_or, List.not_mem_nil, false_iff,
        ← List.eq_nil_iff_forall_not_mem]
      exact ⟨fun h => h.1, fun h => ⟨h, Or.inl h⟩⟩
    · simp

/-- A message about the file `/a` on the device. -/
def exHdr (op : Op) (dev ino : BitVec 64) : MsgHeader :=
  { MsgHeader.zero with type := .op, op := op, dev := dev, ino := ino, mode := 0o100644,
                        nlink := 1, pathlen := 3 }

/-- The attribute `user.a` of `/a` is set. -/
def exSet (dev : BitVec 64) : Sqlite × Input :=
  (.inOrder, .message (.packed (exHdr .setXattr dev 5) (ascii ['/', 'a'])
    (ascii ['u', 's', 'e', 'r', '.', 'a'] ++ 0 :: ascii ['x'])))

/-- `/a` is created and gets the attribute. -/
def exAttribute : List (Sqlite × Input) :=
  [(.inOrder, .message (.plain (exHdr .creat 1 5) (ascii ['/', 'a']))), exSet 1]

/-- The attribute is unique, and stays when `/a` keeps its inode. -/
theorem xattrs_survive_same_inode :
    (∀ pre, pre <+: exAttribute →
      UniqueKeys XattrRow.key (Run.run serveInput (Db.empty ⟨0, []⟩) pre).xattrs) ∧
    KeepsXattrs .inOrder (Run.run serveInput (Db.empty ⟨0, []⟩) exAttribute) (exHdr .none 1 5)
      (ascii ['/', 'a']) (1, 5) := by
  obtain ⟨hunique, hkeeps⟩ := xattrs_survive_iff ⟨0, []⟩ exAttribute
  refine ⟨hunique.mp ⟨fun _ => trivial, fun _ => ?_, trivial⟩, ?_⟩
  · exact Or.inr (by decide)
  · refine (hkeeps _ (List.prefix_refl _) _ _ _ _ (by decide) (by decide)).mpr ?_
    rw [Carried, if_pos (by decide)]
    decide

/-- A new inode of `/a` gets no attribute; and an attribute set twice on a device whose number
has 32 bits is there twice. -/
theorem renumbered_file_loses_xattrs :
    ¬ KeepsXattrs .inOrder (Run.run serveInput (Db.empty ⟨0, []⟩) exAttribute) (exHdr .none 1 6)
      (ascii ['/', 'a']) (1, 5) ∧
    ¬ UniqueKeys XattrRow.key (Run.run serveInput (Db.empty ⟨0, []⟩)
      [exSet 0x80000000, exSet 0x80000000]).xattrs := by
  constructor
  · intro h
    have hmoved := h.moved (by decide) (by decide)
      (ascii ['u', 's', 'e', 'r', '.', 'a'], ascii ['x'])
    exact absurd (hmoved.mpr (by decide)) (by decide)
  · unfold UniqueKeys
    decide

end Pseudo
