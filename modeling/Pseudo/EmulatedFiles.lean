import Mathlib.Logic.Function.Basic
import Pseudo.FileCalls
import Pseudo.FileNotices

/-!
# What pseudo emulates

To a program it looks as if it could give its files to anybody and make devices. What it sees of a
file is the host's own description, unless something else is recorded for the inode: creations
record what was asked for, changes of owner and mode change the record, and all names of a file
share it. The server's table holds the record, one row for each name.

The calls come from any clients, one after the other. A file of which nothing is recorded must not
have two names when something is to be recorded for it.

Results:
1. `mirrors_host`, `mirrors_add`, `mirrors_drop`, `mirrors_revise`: the changes of a table that keep
   it in step with the host and the record.
2. `mirrors_carry`: so does a rename, which takes the rows below the old name along.
-/

namespace Pseudo

open Table
open TwoStoresLemmas (serverPath)

/-! ## The record -/

/-- What is recorded, by inode. -/
abbrev Metadata := BitVec 32 × BitVec 64 → Option FileData

/-- The host's files, and what is recorded about them. -/
structure Emulated where
  host : HostFs
  known : Metadata

/-- A buffer that shows the data. -/
def StatBuf.withData (buf : StatBuf) (d : FileData) : StatBuf :=
  { buf with uid := d.uid, gid := d.gid, mode := d.mode, rdev := d.rdev }

/-- What a program is to see of a file. -/
def Emulated.stat (a : Emulated) (path : Bytes) : Option StatBuf :=
  (a.host.lstat path).map fun buf => (a.known buf.key).elim buf buf.withData

/-- Something is recorded about the file, if there is one. -/
def Emulated.Recorded (a : Emulated) (path : Bytes) : Prop :=
  ∀ buf, a.host.lstat path = some buf → (a.known buf.key).isSome

/-- The file has no other name. -/
def HostFs.SoleName (host : HostFs) (path : Bytes) : Prop :=
  ∀ b q c, host.lstat path = some b → Canonical q → host.lstat q = some c → c.key = b.key → q = path

/-- Something new is recorded about the file, if there is one. -/
def Metadata.set (m : Metadata) (buf : Option StatBuf) (data : StatBuf → FileData) : Metadata :=
  match buf with
  | some buf => Function.update m buf.key (some (data buf))
  | none => m

namespace FileEvent

/-- What is recorded for a new file: the owner is the client's, and the mode is the one that it
asked for, as far as it is not the host's to say. -/
def newFile (e : FileEvent) (mode : BitVec 32) (buf : StatBuf) : FileData :=
  FileData.stored ⟨e.env.fuid, e.env.fgid, pseudoDbMode buf.mode (mode &&& ~~~ e.umask), buf.rdev⟩

def newDevice (e : FileEvent) (mode : BitVec 32) (dev : BitVec 64) (buf : StatBuf) : FileData :=
  let mode := mknodMode e.umask mode
  FileData.stored ⟨e.env.fuid, e.env.fgid,
    (pseudoDbMode buf.mode mode &&& 0o7777) ||| (mode &&& ~~~ 0o7777), dev⟩

/-- A file of which nothing is recorded goes to the client with its first change of mode. -/
def chmodded (e : FileEvent) (m : Metadata) (mode : BitVec 32) (buf : StatBuf) : FileData :=
  match m buf.key with
  | some d => { d with mode := withPermissions d.mode mode }
  | none => FileData.stored ⟨e.env.fuid, e.env.fgid, withPermissions buf.mode mode, buf.rdev⟩

def chowned (m : Metadata) (owner group : BitVec 32) (buf : StatBuf) : FileData :=
  let d := (m buf.key).getD buf.fileData.stored
  { d with uid := if owner = -1 then d.uid else owner
           gid := if group = -1 then d.gid else group }

/-- What a call does to the record. Links and removals leave it, and a rename records what the
host says if nothing is recorded. -/
def effect (e : FileEvent) (before : HostFs) (m : Metadata) : Metadata :=
  match e.call with
  | .openat path flags mode =>
    if e.real = -1 ∨ flags &&& oTmpfile = oTmpfile ∨ (before.lstat path).isSome then m
    else m.set (e.after.lstat path) (e.newFile mode)
  | .mkdirat path mode =>
    if e.real = -1 then m else m.set (e.after.lstat path) (e.newFile mode)
  | .mknodat path mode dev =>
    if e.real = -1 ∨ (before.lstat path).isSome then m
    else m.set (e.after.lstat path) (e.newDevice mode dev)
  | .symlinkat path =>
    if e.real = -1 then m
    else m.set (e.after.lstat path) fun buf =>
      FileData.stored ⟨e.env.fuid, e.env.fgid, buf.mode, buf.rdev⟩
  | .linkat _ _ | .unlinkat _ => m
  | .fchmodat path mode =>
    if (before.lstat path).all fun buf => sIslnk (buf.mode.setWidth 64) then m
    else m.set (before.lstat path) (e.chmodded m mode)
  | .fchownat path owner group => m.set (before.lstat path) (chowned m owner group)
  | .renameat oldpath newpath =>
    if e.real = -1 ∨ sameFile (before.lstat newpath) (before.lstat oldpath) = true then m
    else m.set (before.lstat oldpath) fun buf => (m buf.key).getD buf.fileData.stored

/-- What the call returns. A removal and a rename return what the host does; a change of mode or
owner succeeds for every file, a device is made wherever a regular file can be. -/
def returns (e : FileEvent) (before : HostFs) : Int :=
  match e.call with
  | .openat _ _ _ | .mkdirat _ _ | .linkat _ _ | .renameat _ _ => e.real
  | .mknodat path _ _ => if e.real = -1 ∨ (before.lstat path).isSome then -1 else 0
  | .symlinkat _ => if e.real = -1 then -1 else 0
  | .unlinkat path => if before.lstat path = none then -1 else e.real
  | .fchmodat path _ | .fchownat path _ _ => if before.lstat path = none then -1 else 0

/-- The emulation of one call. -/
def emulate (a : Emulated) (e : FileEvent) : Emulated := ⟨e.after, e.effect a.host a.known⟩

end FileEvent

/-! ## The calls that are emulated -/

def FileCall.paths : FileCall → List Bytes
  | .openat path _ _ | .mkdirat path _ | .mknodat path _ _ | .symlinkat path | .unlinkat path
  | .fchmodat path _ | .fchownat path _ _ => [path]
  | .linkat oldpath newpath | .renameat oldpath newpath => [oldpath, newpath]

/-- `path` is below `old` and repeats it. -/
def RepeatsBelow (old path : Bytes) : Prop := LiesBelow old path ∧ old <:+: path.drop old.length

/-- A device is neither a directory nor a link, an inode with something recorded has all of its
names recorded, and no path below a renamed directory repeats it. -/
def FileEvent.Clear (a : Emulated) (e : FileEvent) : Prop :=
  match e.call with
  | .mknodat _ mode _ => mknodMode e.umask mode &&& 0o170000 ≠ 0o040000 ∧
      mknodMode e.umask mode &&& 0o170000 ≠ 0o120000
  | .linkat oldpath _ => e.real ≠ -1 → a.Recorded oldpath
  | .fchmodat path _ | .fchownat path _ _ => a.Recorded path ∨ a.host.SoleName path
  | .renameat oldpath _ => e.real ≠ -1 → (a.Recorded oldpath ∨ a.host.SoleName oldpath) ∧
      ∀ q b, Canonical q → a.host.lstat q = some b → (a.known b.key).isSome →
        ¬ RepeatsBelow oldpath q
  | _ => True

/-- The server is asked about the paths, the host does its part, and the call is clear. -/
structure FileEvent.Emulable (a : Emulated) (e : FileEvent) : Prop where
  asks : ∀ p ∈ e.call.paths, AsksAbout e.env p
  host : HostDoes a.host e.after e.real e.call
  inodes : e.after.Inodes
  clear : e.Clear a

/-- The table has the names of the inodes of which something is recorded, and the record. -/
structure Mirrors (a : Emulated) (t : List FileRow) : Prop extends Tracked a.host t where
  inodes : a.host.Inodes
  data : ∀ r ∈ t, a.known r.key = some r.fileData
  named : ∀ p buf, Canonical p → a.host.lstat p = some buf → (a.known buf.key).isSome → ¬ Absent p t

namespace EmulatedFilesLemmas

open FailedRenameLemmas CarriedRenameLemmas FileNoticesLemmas

variable {a : Emulated} {t : List FileRow} {host after : HostFs} {path p : Bytes}
  {buf b c : StatBuf} {r : FileRow}

/-! ## Names that stay -/

/-- The path leads to the same inode, of the same type. -/
def SameNode (before after : HostFs) (path : Bytes) : Prop :=
  (after.lstat path).map StatBuf.node = (before.lstat path).map StatBuf.node

theorem node_of_object (h : b.object = c.object) : b.node = c.node := by
  have hmode : b.object.mode = c.object.mode := congrArg StatBuf.mode h
  have hmode : b.mode = c.mode := hmode
  unfold StatBuf.node
  rw [h, hmode]

theorem sameNode_of_persists (h : Persists host after path) : SameNode host after path := by
  unfold Persists at h
  unfold SameNode
  cases ha : after.lstat path with
  | none =>
    rw [ha, Option.map_none] at h
    rw [Option.map_eq_none_iff.mp h.symm]
  | some c =>
    rw [ha, Option.map_some] at h
    obtain ⟨b, hb, he⟩ := Option.map_eq_some_iff.mp h.symm
    rw [hb, Option.map_some, Option.map_some, node_of_object he]

theorem sort_of_node (h : b.node = c.node) :
    sIsdir (b.mode.setWidth 64) = sIsdir (c.mode.setWidth 64) ∧
      sIslnk (b.mode.setWidth 64) = sIslnk (c.mode.setWidth 64) := by
  have hmode : b.node.mode = c.node.mode := congrArg StatBuf.mode h
  have hmode : b.mode &&& ~~~ 0o7777 = c.mode &&& ~~~ 0o7777 := hmode
  have htype : b.mode &&& 0o170000 = c.mode &&& 0o170000 := by
    have hmask : (~~~ 0o7777 : BitVec 32) &&& 0o170000 = 0o170000 := by decide
    rw [← hmask, ← BitVec.and_assoc, hmode, BitVec.and_assoc]
  exact TwoStoresLemmas.sameKind_of_type htype

theorem key_of_node (h : b.node = c.node) : b.key = c.key := by
  have hdev : b.node.dev = c.node.dev := congrArg StatBuf.dev h
  have hino : b.node.ino = c.node.ino := congrArg StatBuf.ino h
  exact congrArg₂ Prod.mk (congrArg bindInt hdev) hino

theorem sameNode_some (h : SameNode host after path) (hb : host.lstat path = some b) :
    ∃ c, after.lstat path = some c ∧ c.node = b.node := by
  unfold SameNode at h
  rw [hb] at h
  exact Option.map_eq_some_iff.mp h

theorem sameNode_before (h : SameNode host after path) (hc : after.lstat path = some c) :
    ∃ b, host.lstat path = some b ∧ c.node = b.node := by
  unfold SameNode at h
  rw [hc] at h
  obtain ⟨b, hb, he⟩ := Option.map_eq_some_iff.mp h.symm
  exact ⟨b, hb, he.symm⟩

/-- The row is about the file as long as it is the same. -/
theorem describes_of_node (h : r.Describes b) (he : c.node = b.node) : r.Describes c := by
  obtain ⟨hdir, hlnk⟩ := sort_of_node he
  exact ⟨h.key.trans (key_of_node he).symm, h.type.1.trans hdir.symm, h.type.2.trans hlnk.symm⟩

/-! ## The table after a change -/

/-- What a name of the host says stays recorded under the same number. -/
theorem named_before (h : Mirrors a t) (hs : SameNode a.host after p) (hp : Canonical p)
    (hc : after.lstat p = some c) (hk : (a.known c.key).isSome) : ¬ Absent p t := by
  obtain ⟨b, hb, he⟩ := sameNode_before hs hc
  exact h.named p b hp hb (by rwa [← key_of_node he])

/-- The host's files may change in their permissions, owners and links. -/
theorem mirrors_host (h : Mirrors a t) (hsame : ∀ p, Canonical p → SameNode a.host after p)
    (hinodes : after.Inodes) : Mirrors ⟨after, a.known⟩ t where
  recorded := by
    intro r hr
    obtain ⟨b, hb, hdesc⟩ := h.recorded r hr
    obtain ⟨c, hc, he⟩ := sameNode_some (hsame r.path (h.canonical r hr)) hb
    exact ⟨c, hc, describes_of_node hdesc he⟩
  unique := h.unique
  unmarked := h.unmarked
  canonical := h.canonical
  complete := by
    intro r hr p c hp hc hk
    obtain ⟨b, hb, he⟩ := sameNode_before (hsame p hp) hc
    exact h.complete r hr p b hp hb (hk.trans (key_of_node he))
  inodes := hinodes
  data := h.data
  named := fun p c hp hc hk => named_before h (hsame p hp) hp hc hk

/-- A row is added for a path without one: a new file, a new name of a recorded one, or the only
name of one that was not recorded. -/
theorem mirrors_add (h : Mirrors a t) (hpath : Canonical path) (habs : Absent path t)
    (hbuf : after.lstat path = some buf) (hrow : r.path = path) (hdesc : r.Describes buf)
    (hzero : r.deleting = 0) (hsame : ∀ p, Canonical p → p ≠ path → SameNode a.host after p)
    (hdata : ∀ q ∈ t, q.key = buf.key → q.fileData = r.fileData)
    (halias : ∀ p c, Canonical p → p ≠ path → after.lstat p = some c → c.key = buf.key →
      ¬ Absent p t) (hinodes : after.Inodes) :
    Mirrors ⟨after, Function.update a.known buf.key (some r.fileData)⟩ (t ++ [r]) := by
  have hmem : ∀ q, q ∈ t ++ [r] ↔ q ∈ t ∨ q = r := by simp
  have hthere : ∀ {p}, ¬ Absent p t → ¬ Absent p (t ++ [r]) :=
    fun hno hall => hno fun q hq => hall q ((hmem q).mpr (Or.inl hq))
  have hnew : ¬ Absent path (t ++ [r]) := fun hall => hall r ((hmem r).mpr (Or.inr rfl)) hrow
  refine ⟨⟨⟨?_, ?_, ?_⟩, ?_, ?_⟩, hinodes, ?_, ?_⟩
  · -- every row has its file
    intro q hq
    rcases (hmem q).mp hq with hq | rfl
    · obtain ⟨b, hb, hd⟩ := h.recorded q hq
      obtain ⟨c, hc, he⟩ := sameNode_some (hsame q.path (h.canonical q hq) (habs q hq)) hb
      exact ⟨c, hc, describes_of_node hd he⟩
    · exact ⟨buf, by rw [hrow]; exact hbuf, hdesc⟩
  · intro q hq q' hq' hp
    rcases (hmem q).mp hq with hqt | hqr <;> rcases (hmem q').mp hq' with hqt' | hqr'
    · exact h.unique q hqt q' hqt' hp
    · exact absurd (hp.trans (hqr' ▸ hrow)) (habs q hqt)
    · exact absurd (hp.symm.trans (hqr ▸ hrow)) (habs q' hqt')
    · exact hqr.trans hqr'.symm
  · intro q hq
    rcases (hmem q).mp hq with hq | rfl
    · exact h.unmarked q hq
    · exact hzero
  · intro q hq
    rcases (hmem q).mp hq with hq | rfl
    · exact h.canonical q hq
    · rw [hrow]
      exact hpath
  · -- the names of an inode with a row
    intro q hq p c hp hc hk
    rcases Decidable.em (p = path) with rfl | hne
    · exact hnew
    · rcases (hmem q).mp hq with hq | rfl
      · obtain ⟨b, hb, he⟩ := sameNode_before (hsame p hp hne) hc
        exact hthere (h.complete q hq p b hp hb (hk.trans (key_of_node he)))
      · exact hthere (halias p c hp hne hc (hk.symm.trans hdesc.key))
  · intro q hq
    show Function.update a.known buf.key (some r.fileData) q.key = _
    rcases (hmem q).mp hq with hq | rfl
    · rcases Decidable.em (q.key = buf.key) with hk | hk
      · rw [hk, Function.update_self, hdata q hq hk]
      · rw [Function.update_of_ne hk]
        exact h.data q hq
    · rw [hdesc.key, Function.update_self]
  · intro p c hp hc hk
    rcases Decidable.em (p = path) with rfl | hne
    · exact hnew
    · rcases Decidable.em (c.key = buf.key) with hkey | hkey
      · exact hthere (halias p c hp hne hc hkey)
      · have hk' : (a.known c.key).isSome := by
          rwa [show (Emulated.mk after _).known c.key = a.known c.key from
            Function.update_of_ne hkey _ _] at hk
        exact hthere (named_before h (hsame p hp hne) hp hc hk')

/-- The row of a name that is gone goes. -/
theorem mirrors_drop (h : Mirrors a t) (hgone : after.lstat path = none)
    (hsame : ∀ p, Canonical p → p ≠ path → SameNode a.host after p) (hinodes : after.Inodes) :
    Mirrors ⟨after, a.known⟩ (delete (atPath path) t) := by
  have hmem : ∀ q, q ∈ delete (atPath path) t ↔ q ∈ t ∧ q.path ≠ path := by
    simp [mem_delete]
  have hne : ∀ {p c}, after.lstat p = some c → p ≠ path := by
    rintro p c hc rfl
    rw [hgone] at hc
    cases hc
  have hthere : ∀ {p}, p ≠ path → ¬ Absent p t → ¬ Absent p (delete (atPath path) t) := by
    intro p hp hno hall
    refine hno fun q hq hqp => hall q ((hmem q).mpr ⟨hq, ?_⟩) hqp
    rw [hqp]
    exact hp
  refine ⟨⟨⟨?_, ?_, ?_⟩, ?_, ?_⟩, hinodes, ?_, ?_⟩
  · intro q hq
    obtain ⟨hq, hqp⟩ := (hmem q).mp hq
    obtain ⟨b, hb, hd⟩ := h.recorded q hq
    obtain ⟨c, hc, he⟩ := sameNode_some (hsame q.path (h.canonical q hq) hqp) hb
    exact ⟨c, hc, describes_of_node hd he⟩
  · exact fun q hq q' hq' => h.unique q ((hmem q).mp hq).1 q' ((hmem q').mp hq').1
  · exact fun q hq => h.unmarked q ((hmem q).mp hq).1
  · exact fun q hq => h.canonical q ((hmem q).mp hq).1
  · intro q hq p c hp hc hk
    obtain ⟨b, hb, he⟩ := sameNode_before (hsame p hp (hne hc)) hc
    exact hthere (hne hc) (h.complete q ((hmem q).mp hq).1 p b hp hb (hk.trans (key_of_node he)))
  · exact fun q hq => h.data q ((hmem q).mp hq).1
  · exact fun p c hp hc hk => hthere (hne hc) (named_before h (hsame p hp (hne hc)) hp hc hk)

/-- The rows of an inode get new values, and so does the record. -/
theorem mirrors_revise (h : Mirrors a t) {k : BitVec 32 × BitVec 64} {f : FileRow → FileRow}
    {d : FileData} (hpath : ∀ q, (f q).path = q.path) (hkey : ∀ q, (f q).key = q.key)
    (hmark : ∀ q, (f q).deleting = q.deleting)
    (htype : ∀ q, (f q).mode &&& 0o170000 = q.mode &&& 0o170000)
    (hdata : ∀ q ∈ t, q.key = k → (f q).fileData = d) (hknown : (a.known k).isSome) :
    Mirrors ⟨a.host, Function.update a.known k (some d)⟩
      (t.map fun q => if q.key = k then f q else q) := by
  have hmem : ∀ q', q' ∈ (t.map fun q => if q.key = k then f q else q) ↔
      ∃ q ∈ t, (if q.key = k then f q else q) = q' := fun q' => List.mem_map
  have hpath' : ∀ q, (if q.key = k then f q else q).path = q.path := by
    intro q
    split
    · exact hpath q
    · rfl
  have hkey' : ∀ q, (if q.key = k then f q else q).key = q.key := by
    intro q
    split
    · exact hkey q
    · rfl
  have hthere : ∀ {p}, ¬ Absent p t → ¬ Absent p (t.map fun q => if q.key = k then f q else q) :=
    fun hno hall => hno fun q hq hqp => hall _ ((hmem _).mpr ⟨q, hq, rfl⟩) ((hpath' q).trans hqp)
  refine ⟨⟨⟨?_, ?_, ?_⟩, ?_, ?_⟩, h.inodes, ?_, ?_⟩
  · intro q' hq'
    obtain ⟨q, hq, rfl⟩ := (hmem q').mp hq'
    obtain ⟨b, hb, hd⟩ := h.recorded q hq
    refine ⟨b, by rw [hpath']; exact hb, (hkey' q).trans hd.key, ?_⟩
    have hmode : (if q.key = k then f q else q).mode &&& 0o170000 = q.mode &&& 0o170000 := by
      split
      · exact htype q
      · rfl
    have hsort := TwoStoresLemmas.sameKind_of_type hmode
    have hd' := hd.type
    unfold FileRow.SameType sIsdir sIslnk at hd' ⊢
    unfold TwoStoresLemmas.SameKind sIsdir sIslnk at hsort
    rw [TwoStoresLemmas.columnInt64_type] at hd' ⊢
    exact ⟨hsort.1.trans hd'.1, hsort.2.trans hd'.2⟩
  · intro q₁ hq₁ q₂ hq₂ hp
    obtain ⟨q, hq, rfl⟩ := (hmem q₁).mp hq₁
    obtain ⟨q', hq', rfl⟩ := (hmem q₂).mp hq₂
    rw [hpath', hpath'] at hp
    rw [h.unique q hq q' hq' hp]
  · intro q' hq'
    obtain ⟨q, hq, rfl⟩ := (hmem q').mp hq'
    split
    · rw [hmark]
      exact h.unmarked q hq
    · exact h.unmarked q hq
  · intro q' hq'
    obtain ⟨q, hq, rfl⟩ := (hmem q').mp hq'
    rw [hpath']
    exact h.canonical q hq
  · intro q' hq' p c hp hc hk
    obtain ⟨q, hq, rfl⟩ := (hmem q').mp hq'
    rw [hkey'] at hk
    exact hthere (h.complete q hq p c hp hc hk)
  · intro q' hq'
    obtain ⟨q, hq, rfl⟩ := (hmem q').mp hq'
    rw [hkey']
    show Function.update a.known k (some d) q.key = _
    rcases Decidable.em (q.key = k) with hk | hk
    · rw [if_pos hk, hk, Function.update_self, hdata q hq hk]
    · rw [if_neg hk, Function.update_of_ne hk]
      exact h.data q hq
  · intro p c hp hc hk
    refine hthere (h.named p c hp hc ?_)
    rcases Decidable.em (c.key = k) with hck | hck
    · rw [hck]
      exact hknown
    · rwa [show (Emulated.mk a.host _).known c.key = a.known c.key from
        Function.update_of_ne hck _ _] at hk

/-! ## The table after a rename -/

/-- The name after the rename. -/
def nameAfter (old new q : Bytes) : Bytes :=
  if q = old then new else if LiesBelow old q then new ++ q.drop old.length else q

section Names
variable {old new q rest : Bytes}

theorem liesBelow_append (hrest : rest ≠ []) : LiesBelow old (old ++ slash :: rest) :=
  ⟨rest, hrest, rfl⟩

theorem not_liesBelow_self : ¬ LiesBelow old old := by
  rintro ⟨rest, _, he⟩
  exact RenameLemmas.ne_append_slash he

theorem carryRow_path : (carryRow old new r).path = nameAfter old new r.path := by
  unfold carryRow nameAfter
  split
  · rfl
  · split <;> rfl

@[simp] theorem carryRow_rest : (carryRow old new r).key = r.key ∧
    (carryRow old new r).fileData = r.fileData ∧ (carryRow old new r).deleting = r.deleting ∧
    (carryRow old new r).mode = r.mode := by
  unfold carryRow
  split
  · exact ⟨rfl, rfl, rfl, rfl⟩
  · split <;> exact ⟨rfl, rfl, rfl, rfl⟩

/-- A name that the rename leaves something under has been renamed from where it was. -/
theorem nameBefore_nameAfter (hne : q ≠ new) (hbelow : ¬ LiesBelow new q) :
    nameBefore old new (nameAfter old new q) = some q := by
  unfold nameAfter
  split
  · next he =>
    rw [nameBefore, if_pos rfl, he]
  · next hold =>
    split
    · next hlies =>
      obtain ⟨rest, hrest, rfl⟩ := hlies
      rw [List.drop_left, nameBefore, if_neg RenameLemmas.ne_append_slash.symm,
        if_pos (liesBelow_append hrest), List.drop_left]
    · next hlies =>
      rw [nameBefore, if_neg hne, if_neg hbelow, if_neg (by simp [hold, hlies])]

theorem nameAfter_nameBefore (hne : old ≠ new) (hnew : ¬ LiesBelow old new)
    (h : nameBefore old new p = some q) : nameAfter old new q = p ∧ q ≠ new := by
  unfold nameBefore at h
  split at h
  · next he =>
    obtain rfl := Option.some.inj h
    exact ⟨by rw [nameAfter, if_pos rfl, he], hne⟩
  · next hp =>
    split at h
    · next hlies =>
      obtain ⟨rest, hrest, rfl⟩ := hlies
      rw [List.drop_left] at h
      obtain rfl := Option.some.inj h
      refine ⟨?_, fun he => hnew (he ▸ liesBelow_append hrest)⟩
      rw [nameAfter, if_neg RenameLemmas.ne_append_slash.symm, if_pos (liesBelow_append hrest),
        List.drop_left]
    · split at h
      · cases h
      · next hgone =>
        obtain rfl := Option.some.inj h
        rw [not_or] at hgone
        exact ⟨by rw [nameAfter, if_neg hgone.1, if_neg hgone.2], hp⟩

/-- What lies below a directory keeps its form when the directory is renamed. -/
theorem absPath_below (hold : AbsPath old) (h : AbsPath (new ++ slash :: rest)) :
    AbsPath (old ++ slash :: rest) := by
  have hlast := h.2
  rw [List.getLast?_append_cons] at hlast
  refine ⟨?_, by rw [List.getLast?_append_cons]; exact hlast⟩
  have hhead := hold.1
  cases old with
  | nil => cases hhead
  | cons c cs => exact hhead

theorem absPath_of_canonical (hne : new ≠ []) (h : Canonical (new ++ slash :: rest)) :
    AbsPath (new ++ slash :: rest) := by
  rcases h with he | h
  · have hlen := congrArg List.length he
    have hpos := List.length_pos_of_ne_nil hne
    simp only [List.length_append, List.length_cons, List.length_nil] at hlen
    omega
  · exact h

theorem nameAfter_canonical (hold : AbsPath old) (hnew : AbsPath new) (hq : Canonical q) :
    Canonical (nameAfter old new q) := by
  unfold nameAfter
  split
  · exact Or.inr hnew
  · split
    · next hlies =>
      obtain ⟨rest, _, rfl⟩ := hlies
      rw [List.drop_left]
      exact Or.inr (absPath_below hnew
        (absPath_of_canonical (RenameLemmas.absPath_ne_nil hold) hq))
    · exact hq

theorem nameBefore_canonical (hold : AbsPath old) (hnew : AbsPath new) (hp : Canonical p)
    (h : nameBefore old new p = some q) : Canonical q := by
  unfold nameBefore at h
  split at h
  · obtain rfl := Option.some.inj h
    exact Or.inr hold
  · split at h
    · next hlies =>
      obtain ⟨rest, _, rfl⟩ := hlies
      rw [List.drop_left] at h
      obtain rfl := Option.some.inj h
      exact Or.inr (absPath_below hold
        (absPath_of_canonical (RenameLemmas.absPath_ne_nil hnew) hp))
    · split at h
      · cases h
      · obtain rfl := Option.some.inj h
        exact hp

end Names

section Carry
variable {old new q : Bytes}

/-- The rows of the renamed table. -/
theorem mem_carry : r ∈ carry old new buf t ↔
    (∃ q ∈ t, q.path ≠ new ∧ carryRow old new q = r) ∨ Absent old t ∧ r = buf.row new := by
  unfold carry
  rw [List.mem_append, List.mem_map]
  refine or_congr (exists_congr fun q => ?_) ?_
  · rw [mem_delete, atPath_eq_false, and_assoc]
  · split <;> simp_all

/-- A renamed file is found under its new name. -/
theorem moved_some (hmoves : ∀ p, Canonical p → (after.lstat p).map StatBuf.object =
      ((nameBefore old new p).bind host.lstat).map StatBuf.object)
    (hp : Canonical p) (hq : nameBefore old new p = some q) (hb : host.lstat q = some b) :
    ∃ c, after.lstat p = some c ∧ c.node = b.node := by
  have he := hmoves p hp
  rw [hq, Option.bind_some, hb] at he
  obtain ⟨c, hc, hobj⟩ := Option.map_eq_some_iff.mp he
  exact ⟨c, hc, node_of_object hobj⟩

/-- What is found after the rename was there before. -/
theorem moved_before (hmoves : ∀ p, Canonical p → (after.lstat p).map StatBuf.object =
      ((nameBefore old new p).bind host.lstat).map StatBuf.object)
    (hp : Canonical p) (hc : after.lstat p = some c) :
    ∃ q b, nameBefore old new p = some q ∧ host.lstat q = some b ∧ c.key = b.key := by
  have he := hmoves p hp
  rw [hc] at he
  obtain ⟨b, hb, hobj⟩ := Option.map_eq_some_iff.mp he.symm
  obtain ⟨q, hq, hb⟩ := Option.bind_eq_some_iff.mp hb
  exact ⟨q, b, hq, hb, key_of_node (node_of_object hobj.symm)⟩

/-- A file with a row has one after the rename. -/
theorem carried_there (hne : old ≠ new) (hbelow : ¬ LiesBelow old new)
    (hq : nameBefore old new p = some q) (hthere : ¬ Absent q t) :
    ¬ Absent p (carry old new buf t) := by
  obtain ⟨r, hr, hrq⟩ := not_absent hthere
  obtain ⟨hp, hqn⟩ := nameAfter_nameBefore hne hbelow hq
  intro hall
  refine hall (carryRow old new r) (mem_carry.mpr (Or.inl ⟨r, hr, by rwa [hrq], rfl⟩)) ?_
  rw [carryRow_path, hrq, hp]

/-- The names of a renamed table are those of the host after the rename. -/
theorem mirrors_carry (h : Mirrors a t) (hr : HostRenames a.host old new buf)
    (hempty : ∀ p, LiesBelow new p → a.host.lstat p = none)
    (hmoves : ∀ p, Canonical p → (after.lstat p).map StatBuf.object =
      ((nameBefore old new p).bind a.host.lstat).map StatBuf.object)
    (hsole : Absent old t → a.host.SoleName old) (hinodes : after.Inodes) :
    Mirrors ⟨after, Function.update a.known buf.key
      (some ((a.known buf.key).getD buf.fileData.stored))⟩ (carry old new buf t) := by
  have hne := old_ne_new hr
  have hold : Canonical old := Or.inr hr.oldPath
  -- a row that stays has been renamed from its path
  have hback : ∀ q ∈ t, q.path ≠ new →
      nameBefore old new (nameAfter old new q.path) = some q.path := by
    intro q hq hqn
    obtain ⟨b, hb, _⟩ := h.recorded q hq
    refine nameBefore_nameAfter hqn fun hlies => ?_
    rw [hempty _ hlies] at hb
    cases hb
  have hknown : Absent old t → a.known buf.key = none := by
    intro habs
    refine Option.eq_none_iff_forall_ne_some.mpr fun d hd => ?_
    exact h.named old buf hold hr.source (by rw [hd]; rfl) habs
  have hrow : Absent old t → ¬ Absent new (carry old new buf t) := fun habs hall =>
    hall _ (mem_carry.mpr (Or.inr ⟨habs, rfl⟩)) rfl
  -- another name of the renamed file is recorded
  have halias : ∀ p q b, Canonical q → nameBefore old new p = some q → a.host.lstat q = some b →
      b.key = buf.key → ¬ Absent p (carry old new buf t) := by
    intro p q b hqc hq hb hk
    rcases Decidable.em (Absent old t) with habs | habs
    · obtain rfl := hsole habs buf q b hr.source hqc hb hk
      obtain ⟨rfl, _⟩ := nameAfter_nameBefore hne hr.notBelow hq
      rw [nameAfter, if_pos rfl]
      exact hrow habs
    · obtain ⟨r, hrt, hrp⟩ := not_absent habs
      obtain ⟨b', hb', hdesc⟩ := h.recorded r hrt
      rw [hrp, hr.source] at hb'
      obtain rfl := Option.some.inj hb'
      exact carried_there hne hr.notBelow hq
        (h.complete r hrt q b hqc hb (hdesc.key.trans hk.symm))
  refine ⟨⟨⟨?_, ?_, ?_⟩, ?_, ?_⟩, hinodes, ?_, ?_⟩
  · intro r' hr'
    rcases mem_carry.mp hr' with ⟨q, hq, hqn, rfl⟩ | ⟨habs, rfl⟩
    · obtain ⟨b, hb, hd⟩ := h.recorded q hq
      obtain ⟨c, hc, he⟩ := moved_some hmoves (nameAfter_canonical hr.oldPath hr.newPath
        (h.canonical q hq)) (hback q hq hqn) hb
      have hd' := describes_of_node hd he
      obtain ⟨hkey, _, _, hmode⟩ := @carryRow_rest q old new
      refine ⟨c, by rw [carryRow_path]; exact hc, hkey.trans hd'.key, ?_⟩
      have htype := hd'.type
      unfold FileRow.SameType at htype ⊢
      rwa [hmode]
    · obtain ⟨c, hc, he⟩ := moved_some hmoves (Or.inr hr.newPath)
        (show nameBefore old new new = some old from if_pos rfl) hr.source
      refine ⟨c, hc, describes_of_node ⟨rfl, ?_⟩ he⟩
      have hmode : columnInt64 (buf.row new).mode &&& sIfmt = buf.mode.setWidth 64 &&& sIfmt :=
        TwoStoresLemmas.columnInt64_type buf.mode
      unfold FileRow.SameType sIsdir sIslnk
      rw [hmode]
      exact ⟨rfl, rfl⟩
  · intro r₁ h₁ r₂ h₂ hp
    rcases mem_carry.mp h₁ with ⟨q, hq, hqn, rfl⟩ | ⟨habs, rfl⟩ <;>
      rcases mem_carry.mp h₂ with ⟨q', hq', hqn', rfl⟩ | ⟨habs', rfl⟩
    · rw [carryRow_path, carryRow_path] at hp
      have he := hback q hq hqn
      rw [hp, hback q' hq' hqn'] at he
      rw [h.unique q hq q' hq' (Option.some.inj he).symm]
    · rw [carryRow_path] at hp
      have he := hback q hq hqn
      rw [hp, show (buf.row new).path = new from rfl, nameBefore, if_pos rfl] at he
      exact absurd (Option.some.inj he).symm (habs' q hq)
    · rw [carryRow_path] at hp
      have he := hback q' hq' hqn'
      rw [← hp, show (buf.row new).path = new from rfl, nameBefore, if_pos rfl] at he
      exact absurd (Option.some.inj he).symm (habs q' hq')
    · rfl
  · intro r' hr'
    rcases mem_carry.mp hr' with ⟨q, hq, _, rfl⟩ | ⟨_, rfl⟩
    · rw [carryRow_rest.2.2.1]
      exact h.unmarked q hq
    · rfl
  · intro r' hr'
    rcases mem_carry.mp hr' with ⟨q, hq, _, rfl⟩ | ⟨_, rfl⟩
    · rw [carryRow_path]
      exact nameAfter_canonical hr.oldPath hr.newPath (h.canonical q hq)
    · exact Or.inr hr.newPath
  · intro r' hr' p c hp hc hk
    obtain ⟨q, b, hq, hb, hcb⟩ := moved_before hmoves hp hc
    have hqc := nameBefore_canonical hr.oldPath hr.newPath hp hq
    rcases mem_carry.mp hr' with ⟨r, hrt, _, rfl⟩ | ⟨_, rfl⟩
    · rw [carryRow_rest.1] at hk
      exact carried_there hne hr.notBelow hq (h.complete r hrt q b hqc hb (hk.trans hcb))
    · exact halias p q b hqc hq hb (hcb.symm.trans hk.symm)
  · intro r' hr'
    rcases mem_carry.mp hr' with ⟨q, hq, _, rfl⟩ | ⟨habs, rfl⟩
    · show Function.update a.known _ _ (carryRow old new q).key = _
      rw [carryRow_rest.1, carryRow_rest.2.1]
      rcases Decidable.em (q.key = buf.key) with hk | hk
      · rw [hk, Function.update_self, ← hk, h.data q hq]
        rfl
      · rw [Function.update_of_ne hk]
        exact h.data q hq
    · show Function.update a.known _ _ buf.key = _
      rw [Function.update_self, hknown habs]
      rfl
  · intro p c hp hc hk
    obtain ⟨q, b, hq, hb, hcb⟩ := moved_before hmoves hp hc
    have hqc := nameBefore_canonical hr.oldPath hr.newPath hp hq
    rcases Decidable.em (b.key = buf.key) with hkey | hkey
    · exact halias p q b hqc hq hb hkey
    · have hk' : (a.known b.key).isSome := by
        rwa [hcb, show (Emulated.mk after _).known b.key = a.known b.key from
          Function.update_of_ne hkey _ _] at hk
      exact carried_there hne hr.notBelow hq (h.named q b hqc hb hk')

end Carry

end EmulatedFilesLemmas

end Pseudo
