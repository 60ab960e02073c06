import Pseudo.Library.Keyed
import Pseudo.Database

/-!
# The store of extended attributes

The table `xattrs` holds, for each inode, a map from names to values: `pdb_set_xattr`,
`pdb_get_xattr`, `pdb_list_xattr` and `pdb_remove_xattr` are its operations.

Results:
1. `pdbSetXattr_spec`, `pdbRemoveXattr_attrs`: what the changes do to the map.
2. `pdbGetXattr_eq`, `pdbListXattr_eq`: what is read from it.
3. `pdbSetXattr_valid`: names and row ids stay unique.
4. `xattrStore_iff`: the store behaves as a map exactly for the values that are not empty.
-/

namespace Pseudo

open Table

abbrev AttrKey := (BitVec 64 × BitVec 64) × Bytes

def XattrRow.key (x : XattrRow) : AttrKey := ((x.dev, x.ino), x.name)

/-- The attribute of the message's inode with the name. -/
def attrKey (msg : MsgHeader) (name : Bytes) : AttrKey := ((msg.dev, msg.ino), name)

/-- The map that the table holds. -/
def attrs (t : List XattrRow) : AttrKey → Option Bytes := contents XattrRow.key XattrRow.value t

/-- What SQLite promises of the row ids, as long as they fit an `int`, and unique names. -/
structure ValidXattrs (t : List XattrRow) : Prop where
  names : UniqueKeys XattrRow.key t
  ids : UniqueKeys XattrRow.id t
  range : ∀ x ∈ t, 0 < x.id ∧ x.id < 2 ^ 31

/-- The device number is found again after it was bound with `sqlite3_bind_int`. -/
def DevFits (dev : BitVec 64) : Prop := columnInt64 (bindInt dev) = dev

instance (dev : BitVec 64) : Decidable (DevFits dev) := inferInstanceAs (Decidable (_ = _))

theorem devFits_of_lt {dev : BitVec 64} (h : dev.toNat < 2 ^ 31) : DevFits dev := by
  have hmsb : (bindInt dev).msb = false := by
    rw [BitVec.msb_eq_decide, decide_eq_false_iff_not, bindInt, BitVec.toNat_setWidth]
    omega
  unfold DevFits columnInt64
  rw [BitVec.signExtend_eq_setWidth_of_msb_false hmsb]
  refine BitVec.eq_of_toNat_eq ?_
  rw [BitVec.toNat_setWidth, bindInt, BitVec.toNat_setWidth]
  omega

section Operations
variable {sq : Sqlite} {db : Db} {msg : MsgHeader} {t : List XattrRow}

theorem atName_selects (hdev : DevFits msg.dev) (name : Bytes) (t : List XattrRow) :
    Selects (atName msg name) XattrRow.key (attrKey msg name) t := by
  have hdev : columnInt64 (bindInt msg.dev) = msg.dev := hdev
  intro x _
  simp [atName, XattrRow.hasKey, MsgHeader.key, XattrRow.key, attrKey, hdev, Prod.ext_iff]

/-- The value that is stored. -/
def storedText (value : Bytes) (len : Nat) : Bytes :=
  bindText (value.drop ((cstr value).length + 1)) (subSize len ((cstr value).length + 1))

/-- The id of a row survives being bound as an `int`. -/
theorem boundId_eq {id : Int} (hlo : 0 < id) (hhi : id < 2 ^ 31) :
    (BitVec.ofInt 32 id).toInt = id := by
  rw [BitVec.toInt_ofInt]
  exact Int.bmod_eq_of_le (by omega) (by omega)

theorem boundId_selects (hv : ValidXattrs t) {x : XattrRow} (hx : x ∈ t) :
    Selects (fun y => y.id == (BitVec.ofInt 32 x.id).toInt) XattrRow.key x.key t := by
  obtain ⟨hlo, hhi⟩ := hv.range x hx
  intro y hy
  rw [boundId_eq hlo hhi, beq_iff_eq]
  constructor
  · intro h
    rw [hv.ids.eq_of_key hy hx h]
  · intro h
    rw [hv.names.eq_of_key hy hx h]

/-- The flags forbid the change. -/
def Forbids (flags : XattrFlags) (present : Bool) : Prop :=
  flags = .create ∧ present = true ∨ flags = .replace ∧ present = false

instance (flags : XattrFlags) (present : Bool) : Decidable (Forbids flags present) :=
  inferInstanceAs (Decidable (_ ∨ _))

/-- No row has the name: it is inserted, unless the flags ask for a row to replace. -/
theorem pdbSetXattr_none {value : Bytes} {len : Nat} {flags : XattrFlags}
    (hs : select sq.xattrs (atName msg (cstr value)) db.xattrs = none) :
    pdbSetXattr sq db msg value len flags =
      if flags = .replace then (db, 1)
      else ({ db with xattrs := insertXattr db.xattrs msg.dev (signedIno msg.ino) (cstr value)
                                  (storedText value len) }, 0) := by
  unfold pdbSetXattr
  dsimp only
  rw [hs]
  cases flags <;> rfl

/-- A row has the name: it gets the value, unless the flags ask for none. -/
theorem pdbSetXattr_some {value : Bytes} {len : Nat} {flags : XattrFlags} {x : XattrRow}
    (hs : select sq.xattrs (atName msg (cstr value)) db.xattrs = some x) :
    pdbSetXattr sq db msg value len flags =
      if flags = .create then (db, 1)
      else ({ db with xattrs := update (fun y => y.id == (BitVec.ofInt 32 x.id).toInt)
                                  (fun y => { y with value := storedText value len })
                                  db.xattrs }, 0) := by
  unfold pdbSetXattr
  dsimp only
  rw [hs]
  cases flags <;> rfl

/-- A row that is inserted is the only one of its name. -/
theorem select_none_fresh (hdev : DevFits msg.dev) {name : Bytes}
    (hs : select sq.xattrs (atName msg name) t = none) :
    ∀ x ∈ t, x.key ≠ ((msg.dev, signedIno msg.ino), name) := by
  intro x hx hk
  rw [signedIno_eq] at hk
  have hno := select_eq_none_iff.mp hs x hx
  rw [(atName_selects hdev name t x hx).mpr hk] at hno
  exact absurd hno (by simp)

theorem insertXattr_attrs {dev ino : BitVec 64} {name : Bytes} (text : Bytes)
    (hno : ∀ x ∈ t, x.key ≠ ((dev, ino), name)) : attrs (insertXattr t dev ino name text) =
      Function.update (attrs t) ((dev, ino), name) (some text) :=
  contents_append hno

theorem updateXattr_attrs (hv : ValidXattrs t) {x : XattrRow} (hx : x ∈ t) (text : Bytes) :
    attrs (update (fun y => y.id == (BitVec.ofInt 32 x.id).toInt)
        (fun y => { y with value := text }) t) =
      Function.update (attrs t) x.key (some text) :=
  contents_update (boundId_selects hv hx) (fun _ => rfl) (fun _ => rfl) ⟨x, hx, rfl⟩

/-- `pdb_set_xattr` fails and changes nothing when the flags forbid it, and else puts the value
into the map. -/
theorem pdbSetXattr_spec (sq : Sqlite) (hv : ValidXattrs db.xattrs) (hdev : DevFits msg.dev)
    (value : Bytes) (len : Nat) (flags : XattrFlags) :
    if Forbids flags (attrs db.xattrs (attrKey msg (cstr value))).isSome then
      pdbSetXattr sq db msg value len flags = (db, 1)
    else (pdbSetXattr sq db msg value len flags).2 = 0 ∧
      attrs (pdbSetXattr sq db msg value len flags).1.xattrs =
        Function.update (attrs db.xattrs) (attrKey msg (cstr value))
          (some (storedText value len)) := by
  have hsel := atName_selects hdev (cstr value) db.xattrs
  have hattr : _ = attrs db.xattrs _ := select_contents hv.names hsel sq.xattrs
  rw [← hattr, Option.isSome_map]
  cases hs : select sq.xattrs (atName msg (cstr value)) db.xattrs with
  | none =>
    have hins := insertXattr_attrs (storedText value len) (select_none_fresh hdev hs)
    rw [pdbSetXattr_none hs]
    cases flags with
    | replace => simp [Forbids]
    | none | create =>
      rw [if_neg (by simp [Forbids])]
      refine ⟨rfl, ?_⟩
      rw [signedIno_eq] at hins
      rw [signedIno_eq]
      exact hins
  | some x =>
    have hx := mem_of_select hs
    have hk : x.key = attrKey msg (cstr value) := (hsel x hx).mp (prop_of_select hs)
    rw [pdbSetXattr_some hs, ← hk]
    cases flags with
    | create => simp [Forbids]
    | none | replace =>
      rw [if_neg (by simp [Forbids])]
      exact ⟨rfl, updateXattr_attrs hv hx _⟩

theorem pdbRemoveXattr_attrs (hdev : DevFits msg.dev) (value : Bytes) (len : Nat) :
    attrs (pdbRemoveXattr db msg value len).xattrs =
      Function.update (attrs db.xattrs) (attrKey msg (bindText value len)) none :=
  contents_delete (atName_selects hdev _ _)

/-- `pdb_get_xattr` reads the map, but takes an empty value for none. -/
theorem pdbGetXattr_eq (hv : UniqueKeys XattrRow.key db.xattrs) (hdev : DevFits msg.dev)
    (value : Bytes) :
    pdbGetXattr sq db msg value =
      (attrs db.xattrs (attrKey msg (cstr value))).filter fun v => v ≠ [] := by
  have h : _ = attrs db.xattrs _ :=
    select_contents hv (atName_selects hdev (cstr value) _) sq.xattrs
  unfold pdbGetXattr
  rw [← h]
  cases select sq.xattrs (atName msg (cstr value)) db.xattrs with
  | none => rfl
  | some x =>
    cases hx : x.value <;> simp [Option.filter, hx]

/-- `ORDER BY name`. -/
def nameLe (a b : Bytes) : Bool := !decide (b < a)

theorem nameLe_iff {a b : Bytes} : nameLe a b = true ↔ a ≤ b := by
  rw [nameLe, Bool.not_eq_true', decide_eq_false_iff_not, List.not_lt]

/-- `pdb_list_xattr` lists the names of the map in order, each followed by a NUL. -/
theorem pdbListXattr_eq (hv : UniqueKeys XattrRow.key db.xattrs) (hdev : DevFits msg.dev) :
    ∃ names : List Bytes, pdbListXattr db msg = names.flatMap (· ++ [0]) ∧
      names.Pairwise (· < ·) ∧
      ∀ name, name ∈ names ↔ (attrs db.xattrs (attrKey msg name)).isSome = true := by
  have hkey : ∀ x : XattrRow, x.hasKey msg.key = true ↔ x.key = attrKey msg x.name := by
    intro x
    have hdev : columnInt64 (bindInt msg.dev) = msg.dev := hdev
    simp [XattrRow.hasKey, MsgHeader.key, XattrRow.key, attrKey, hdev, Prod.ext_iff]
  have hmem : ∀ name, name ∈ (db.xattrs.filter fun x => x.hasKey msg.key).map (·.name) ↔
      (attrs db.xattrs (attrKey msg name)).isSome = true := by
    intro name
    unfold attrs
    rw [contents_isSome_iff, List.mem_map]
    constructor
    · rintro ⟨x, hx, rfl⟩
      rw [List.mem_filter] at hx
      exact ⟨x, hx.1, (hkey x).mp hx.2⟩
    · rintro ⟨x, hx, hk⟩
      have hname : x.name = name := congrArg Prod.snd hk
      exact ⟨x, List.mem_filter.mpr ⟨hx, (hkey x).mpr (hname ▸ hk)⟩, hname⟩
  have hnodup : ((db.xattrs.filter fun x => x.hasKey msg.key).map (·.name)).Nodup := by
    refine List.Nodup.of_map (fun name => attrKey msg name) ?_
    have hsub : ((db.xattrs.filter fun x => x.hasKey msg.key).map XattrRow.key).Nodup :=
      List.Nodup.sublist (List.Sublist.map _ List.filter_sublist) hv
    rw [List.map_map]
    rwa [List.map_congr_left fun x hx => (hkey x).mp (List.mem_filter.mp hx).2] at hsub
  refine ⟨_, rfl, ?_, fun name => List.mem_mergeSort.trans (hmem name)⟩
  have hsorted : (((db.xattrs.filter fun x => x.hasKey msg.key).map (·.name)).mergeSort
      nameLe).Pairwise fun a b => nameLe a b = true := by
    refine List.pairwise_mergeSort (fun a b c hab hbc => ?_) (fun a b => ?_) _
    · rw [nameLe_iff] at hab hbc ⊢
      exact List.le_trans hab hbc
    · rw [Bool.or_eq_true, nameLe_iff, nameLe_iff]
      exact List.le_total a b
  have hdistinct := (List.mergeSort_perm _ nameLe).nodup_iff.mpr hnodup
  refine (hsorted.and hdistinct).imp fun {a b} h => ?_
  rcases Decidable.em (a < b) with hlt | hge
  · exact hlt
  · exact absurd (List.le_antisymm (nameLe_iff.mp h.1) (List.not_lt.mp hge)) h.2

/-! ## Validity along a sequence of changes -/

theorem le_foldl_max (ids : List Int) (n : Int) :
    n ≤ ids.foldl max n ∧ ∀ id ∈ ids, id ≤ ids.foldl max n := by
  induction ids generalizing n with
  | nil => simp
  | cons id ids ih =>
    obtain ⟨hn, hall⟩ := ih (max n id)
    rw [List.foldl_cons]
    refine ⟨by omega, fun id' hid => ?_⟩
    rcases List.mem_cons.mp hid with rfl | hid
    · omega
    · exact hall id' hid

theorem lt_nextId {x : XattrRow} (hx : x ∈ t) : x.id < nextId t := by
  have := (le_foldl_max (t.map (·.id)) 0).2 x.id (List.mem_map_of_mem hx)
  unfold nextId
  omega

theorem nextId_pos (t : List XattrRow) : 0 < nextId t := by
  have := (le_foldl_max (t.map (·.id)) 0).1
  unfold nextId
  omega

theorem insertXattr_names (hv : UniqueKeys XattrRow.key t) {dev ino : BitVec 64}
    {name text : Bytes} (hno : ∀ x ∈ t, x.key ≠ ((dev, ino), name)) :
    UniqueKeys XattrRow.key (insertXattr t dev ino name text) :=
  nodup_append hv hno

theorem updateXattr_names (hv : UniqueKeys XattrRow.key t) (p : XattrRow → Bool) (text : Bytes) :
    UniqueKeys XattrRow.key (update p (fun x => { x with value := text }) t) :=
  nodup_update hv fun _ => rfl

/-- Names stay unique. -/
theorem pdbSetXattr_names (sq : Sqlite) (hv : UniqueKeys XattrRow.key db.xattrs)
    (hdev : DevFits msg.dev) (value : Bytes) (len : Nat) (flags : XattrFlags) :
    UniqueKeys XattrRow.key (pdbSetXattr sq db msg value len flags).1.xattrs := by
  cases hs : select sq.xattrs (atName msg (cstr value)) db.xattrs with
  | none =>
    rw [pdbSetXattr_none hs]
    split
    · exact hv
    · exact insertXattr_names hv (select_none_fresh hdev hs)
  | some x =>
    rw [pdbSetXattr_some hs]
    split
    · exact hv
    · exact updateXattr_names hv _ _

theorem insertXattr_valid (hv : ValidXattrs t) {dev ino : BitVec 64} {name text : Bytes}
    (hno : ∀ x ∈ t, x.key ≠ ((dev, ino), name)) (hid : nextId t < 2 ^ 31) :
    ValidXattrs (insertXattr t dev ino name text) := by
  refine ⟨insertXattr_names hv.names hno, nodup_append hv.ids fun x hx hk => ?_, fun x hx => ?_⟩
  · exact absurd (lt_nextId hx) (by rw [hk]; exact Int.lt_irrefl _)
  · rcases List.mem_append.mp hx with hx | hx
    · exact hv.range x hx
    · obtain rfl := List.mem_singleton.mp hx
      exact ⟨nextId_pos t, hid⟩

theorem updateXattr_valid (hv : ValidXattrs t) (p : XattrRow → Bool) (text : Bytes) :
    ValidXattrs (update p (fun x => { x with value := text }) t) := by
  refine ⟨updateXattr_names hv.names p text, nodup_update hv.ids fun _ => rfl, fun x hx => ?_⟩
  obtain ⟨y, hy, rfl⟩ := mem_update.mp hx
  have hid : (if p y then { y with value := text } else y).id = y.id := by
    split <;> rfl
  rw [hid]
  exact hv.range y hy

/-- Names and row ids stay unique, until the ids are used up. -/
theorem pdbSetXattr_valid (hv : ValidXattrs db.xattrs) (hdev : DevFits msg.dev) (value : Bytes)
    (len : Nat) (flags : XattrFlags) (hid : nextId db.xattrs < 2 ^ 31) :
    ValidXattrs (pdbSetXattr sq db msg value len flags).1.xattrs := by
  cases hs : select sq.xattrs (atName msg (cstr value)) db.xattrs with
  | none =>
    rw [pdbSetXattr_none hs]
    split
    · exact hv
    · exact insertXattr_valid hv (select_none_fresh hdev hs) hid
  | some x =>
    rw [pdbSetXattr_some hs]
    split
    · exact hv
    · exact updateXattr_valid hv _ _

theorem pdbRemoveXattr_valid (hv : ValidXattrs db.xattrs) (value : Bytes) (len : Nat) :
    ValidXattrs (pdbRemoveXattr db msg value len).xattrs :=
  ⟨nodup_delete hv.names, nodup_delete hv.ids, fun x hx => hv.range x (delete_subset hx)⟩

end Operations

/-! ## The store as a map -/

/-- The bytes that `pdb_set_xattr` is given for a name and a value, and what follows them. -/
def packAttr (name value tail : Bytes) : Bytes := name ++ 0 :: (value ++ tail)

/-- The name that `pdb_remove_xattr` binds. -/
def removedName (name tail : Bytes) : Bytes := bindText (name ++ 0 :: tail) name.length

/-- The operations on the attribute `name` of the message's inode are those of a map: `value` is
stored and read back, the flags see whether the name is present, and no other entry changes. -/
structure StoreIsMap (sq : Sqlite) (db : Db) (msg : MsgHeader) (name value tail : Bytes) :
    Prop where
  get_set : ∀ flags, (pdbSetXattr sq db msg (packAttr name value tail)
      (name.length + 1 + value.length) flags).2 = 0 →
    pdbGetXattr sq (pdbSetXattr sq db msg (packAttr name value tail)
      (name.length + 1 + value.length) flags).1 msg (name ++ 0 :: tail) = some value
  set : (pdbSetXattr sq db msg (packAttr name value tail) (name.length + 1 + value.length)
      .none).2 = 0
  create : pdbSetXattr sq db msg (packAttr name value tail) (name.length + 1 + value.length)
      .create = (db, 1) ↔ (attrs db.xattrs (attrKey msg name)).isSome = true
  replace : pdbSetXattr sq db msg (packAttr name value tail) (name.length + 1 + value.length)
      .replace = (db, 1) ↔ attrs db.xattrs (attrKey msg name) = none
  remove : attrs (pdbRemoveXattr db msg (name ++ 0 :: tail) name.length).xattrs
      (attrKey msg name) = none
  list : ∃ names : List Bytes, pdbListXattr db msg = names.flatMap (· ++ [0]) ∧
      names.Pairwise (· < ·) ∧
      ∀ n, n ∈ names ↔ (attrs db.xattrs (attrKey msg n)).isSome = true
  frame_set : ∀ flags, ∀ k, k ≠ attrKey msg name →
    attrs (pdbSetXattr sq db msg (packAttr name value tail) (name.length + 1 + value.length)
      flags).1.xattrs k = attrs db.xattrs k
  frame_remove : ∀ k, k ≠ attrKey msg name →
    attrs (pdbRemoveXattr db msg (name ++ 0 :: tail) name.length).xattrs k = attrs db.xattrs k

/-- The value is not empty, and it and the name come through SQLite's reading of a length as an
`int`, which only fails them from `2 ^ 31` bytes on. -/
def Storable (db : Db) (msg : MsgHeader) (name value tail : Bytes) : Prop :=
  value ≠ [] ∧ bindText (value ++ tail) value.length = value ∧
    (removedName name tail = name ∨ attrs db.xattrs (attrKey msg name) = none ∧
      attrs db.xattrs (attrKey msg (removedName name tail)) = none)

namespace AttributesLemmas

theorem bindText_append {b tail : Bytes} (h : b.length < 2 ^ 31) :
    bindText (b ++ tail) b.length = b := by
  have hnat : (BitVec.ofNat 32 b.length).toNat = b.length := by
    rw [BitVec.toNat_ofNat]
    omega
  have hn : (BitVec.ofNat 32 b.length).toInt = b.length := by
    rw [BitVec.toInt_eq_toNat_of_lt (by omega), hnat]
  unfold bindText
  dsimp only
  rw [hn, if_neg (by omega), Int.toNat_natCast, List.take_left]

/-- Short names and values are only asked not to be empty. -/
theorem storable_iff {db : Db} {msg : MsgHeader} {name value tail : Bytes}
    (hname : name.length < 2 ^ 31) (hvalue : value.length < 2 ^ 31) :
    Storable db msg name value tail ↔ value ≠ [] := by
  constructor
  · exact fun h => h.1
  · exact fun h => ⟨h, bindText_append hvalue, Or.inl (bindText_append hname)⟩

theorem subSize_add (a b : Nat) : subSize (a + b) a = b % 2 ^ 64 := by
  unfold subSize
  omega

section Map
variable {sq : Sqlite} {db : Db} {msg : MsgHeader} {name value tail : Bytes}

theorem cstr_packAttr (hn : IsCString name) : cstr (packAttr name value tail) = name :=
  cstr_append_nul hn _

/-- The value is cut out of the buffer behind the name. -/
theorem storedText_packAttr (hn : IsCString name) :
    storedText (packAttr name value tail) (name.length + 1 + value.length) =
      bindText (value ++ tail) value.length := by
  have hdrop : (packAttr name value tail).drop (name.length + 1) = value ++ tail := by
    have : packAttr name value tail = (name ++ [0]) ++ (value ++ tail) := by simp [packAttr]
    rw [this, List.drop_left' (by simp)]
  have hcut : BitVec.ofNat 32 (value.length % 2 ^ 64) = BitVec.ofNat 32 value.length := by
    refine BitVec.eq_of_toNat_eq ?_
    rw [BitVec.toNat_ofNat, BitVec.toNat_ofNat]
    omega
  rw [storedText, cstr_packAttr hn, hdrop, subSize_add]
  unfold bindText
  rw [hcut]

theorem set_spec (sq : Sqlite) (value tail : Bytes) (hv : ValidXattrs db.xattrs)
    (hdev : DevFits msg.dev) (hn : IsCString name) (flags : XattrFlags) :
    if Forbids flags (attrs db.xattrs (attrKey msg name)).isSome then
      pdbSetXattr sq db msg (packAttr name value tail) (name.length + 1 + value.length) flags =
        (db, 1)
    else (pdbSetXattr sq db msg (packAttr name value tail) (name.length + 1 + value.length)
        flags).2 = 0 ∧
      attrs (pdbSetXattr sq db msg (packAttr name value tail) (name.length + 1 + value.length)
        flags).1.xattrs = Function.update (attrs db.xattrs) (attrKey msg name)
          (some (bindText (value ++ tail) value.length)) := by
  have h := pdbSetXattr_spec sq hv hdev (packAttr name value tail)
    (name.length + 1 + value.length) flags
  rwa [cstr_packAttr hn, storedText_packAttr hn] at h

/-- The value is read back exactly when it is not empty and was stored as it is. -/
theorem get_set_iff (hv : ValidXattrs db.xattrs) (hdev : DevFits msg.dev) (hn : IsCString name)
    (flags : XattrFlags) (hok : (pdbSetXattr sq db msg (packAttr name value tail)
      (name.length + 1 + value.length) flags).2 = 0) :
    pdbGetXattr sq (pdbSetXattr sq db msg (packAttr name value tail)
        (name.length + 1 + value.length) flags).1 msg (name ++ 0 :: tail) = some value ↔
      value ≠ [] ∧ bindText (value ++ tail) value.length = value := by
  have hspec := set_spec sq value tail hv hdev hn flags
  have hnames := pdbSetXattr_names sq hv.names hdev (packAttr name value tail)
    (name.length + 1 + value.length) flags
  have hallowed : ¬ Forbids flags (attrs db.xattrs (attrKey msg name)).isSome := by
    intro hf
    rw [if_pos hf] at hspec
    rw [hspec] at hok
    exact absurd hok (by simp)
  rw [if_neg hallowed] at hspec
  rw [pdbGetXattr_eq hnames hdev, cstr_append_nul hn, hspec.2, Function.update_self]
  generalize bindText (value ++ tail) value.length = text
  simp only [Option.filter_eq_some_iff, Option.some.injEq, decide_eq_true_eq]
  exact And.comm

theorem create_iff (hv : ValidXattrs db.xattrs) (hdev : DevFits msg.dev) (hn : IsCString name) :
    pdbSetXattr sq db msg (packAttr name value tail) (name.length + 1 + value.length)
      .create = (db, 1) ↔ (attrs db.xattrs (attrKey msg name)).isSome = true := by
  have hspec := set_spec sq value tail hv hdev hn .create
  cases hp : (attrs db.xattrs (attrKey msg name)).isSome with
  | true =>
    rw [hp, if_pos (by simp [Forbids])] at hspec
    exact iff_of_true hspec rfl
  | false =>
    rw [hp, if_neg (by simp [Forbids])] at hspec
    refine iff_of_false (fun h => ?_) (by simp)
    rw [h] at hspec
    exact absurd hspec.1 (by simp)

theorem replace_iff (hv : ValidXattrs db.xattrs) (hdev : DevFits msg.dev) (hn : IsCString name) :
    pdbSetXattr sq db msg (packAttr name value tail) (name.length + 1 + value.length)
      .replace = (db, 1) ↔ attrs db.xattrs (attrKey msg name) = none := by
  have hspec := set_spec sq value tail hv hdev hn .replace
  cases hp : attrs db.xattrs (attrKey msg name) with
  | none =>
    rw [hp, if_pos (by simp [Forbids])] at hspec
    exact iff_of_true hspec rfl
  | some v =>
    rw [hp, if_neg (by simp [Forbids])] at hspec
    refine iff_of_false (fun h => ?_) (by simp)
    rw [h] at hspec
    exact absurd hspec.1 (by simp)

theorem set_frame (hv : ValidXattrs db.xattrs) (hdev : DevFits msg.dev) (hn : IsCString name)
    (flags : XattrFlags) {k : AttrKey} (hk : k ≠ attrKey msg name) :
    attrs (pdbSetXattr sq db msg (packAttr name value tail) (name.length + 1 + value.length)
      flags).1.xattrs k = attrs db.xattrs k := by
  have hspec := set_spec sq value tail hv hdev hn flags
  split at hspec
  · rw [hspec]
  · rw [hspec.2, Function.update_of_ne hk]

theorem attrKey_inj {n n' : Bytes} : attrKey msg n = attrKey msg n' ↔ n = n' := by
  simp [attrKey]

/-- The name that is removed is the one meant, or neither is there. -/
theorem remove_iff (hdev : DevFits msg.dev) :
    (attrs (pdbRemoveXattr db msg (name ++ 0 :: tail) name.length).xattrs (attrKey msg name) =
        none ∧ ∀ k, k ≠ attrKey msg name →
      attrs (pdbRemoveXattr db msg (name ++ 0 :: tail) name.length).xattrs k = attrs db.xattrs k) ↔
      removedName name tail = name ∨ attrs db.xattrs (attrKey msg name) = none ∧
        attrs db.xattrs (attrKey msg (removedName name tail)) = none := by
  rw [pdbRemoveXattr_attrs hdev, ← removedName]
  by_cases hname : removedName name tail = name
  · refine iff_of_true ⟨?_, fun k hk => ?_⟩ (Or.inl hname)
    · rw [hname, Function.update_self]
    · rw [hname, Function.update_of_ne hk]
  · have hne : attrKey msg (removedName name tail) ≠ attrKey msg name := by
      rwa [ne_eq, attrKey_inj]
    rw [or_iff_right hname, Function.update_of_ne hne.symm]
    refine and_congr_right fun _ => ⟨fun h => ?_, fun h k hk => ?_⟩
    · rw [← h _ hne, Function.update_self]
    · rcases Decidable.em (k = attrKey msg (removedName name tail)) with rfl | hk'
      · rw [Function.update_self, h]
      · rw [Function.update_of_ne hk']

end Map

end AttributesLemmas

open AttributesLemmas

/-- The store behaves as a map exactly for the values that are not empty, as far as SQLite's
reading of lengths does not get in the way. -/
theorem xattrStore_iff (sq : Sqlite) (db : Db) (msg : MsgHeader) (name value tail : Bytes)
    (hv : ValidXattrs db.xattrs) (hdev : msg.dev.toNat < 2 ^ 31) (hn : IsCString name) :
    StoreIsMap sq db msg name value tail ↔ Storable db msg name value tail := by
  have hfit := devFits_of_lt hdev
  have hset : (pdbSetXattr sq db msg (packAttr name value tail) (name.length + 1 + value.length)
      .none).2 = 0 := by
    have hspec := set_spec sq value tail hv hfit hn .none
    rw [if_neg (by simp [Forbids])] at hspec
    exact hspec.1
  constructor
  · intro h
    obtain ⟨hne, htext⟩ := (get_set_iff hv hfit hn .none hset).mp (h.get_set .none hset)
    exact ⟨hne, htext, (remove_iff hfit).mp ⟨h.remove, h.frame_remove⟩⟩
  · rintro ⟨hne, htext, hname⟩
    obtain ⟨hremove, hframe⟩ := (remove_iff hfit).mpr hname
    exact
      { get_set := fun flags hok => (get_set_iff hv hfit hn flags hok).mpr ⟨hne, htext⟩
        set := hset
        create := create_iff hv hfit hn
        replace := replace_iff hv hfit hn
        remove := hremove
        list := pdbListXattr_eq hv.names hfit
        frame_set := fun flags k hk => set_frame hv hfit hn flags hk
        frame_remove := hframe }

/-- A file on device 1. -/
def exFile : MsgHeader := { MsgHeader.zero with dev := 1, ino := 5 }

/-- `user.a` with the value `x`. -/
theorem xattrStore_one_byte :
    StoreIsMap Sqlite.inOrder (Db.empty ⟨0, []⟩) exFile (ascii ['u', 's', 'e', 'r', '.', 'a'])
      (ascii ['x']) [] := by
  have hv : ValidXattrs (Db.empty ⟨0, []⟩).xattrs :=
    ⟨List.nodup_nil, List.nodup_nil, fun _ hx => absurd hx List.not_mem_nil⟩
  exact (xattrStore_iff _ _ _ _ _ _ hv (by decide) (by decide)).mpr
    ((storable_iff (by decide) (by decide)).mpr (by decide))

/-- An empty value is stored, but `pdb_get_xattr` does not find it. -/
theorem xattrStore_empty_value :
    (attrs (pdbSetXattr Sqlite.inOrder (Db.empty ⟨0, []⟩) exFile
        (packAttr (ascii ['u', 's', 'e', 'r', '.', 'a']) [] []) 7 .none).1.xattrs
      (attrKey exFile (ascii ['u', 's', 'e', 'r', '.', 'a']))) = some [] ∧
      ¬ StoreIsMap Sqlite.inOrder (Db.empty ⟨0, []⟩) exFile
        (ascii ['u', 's', 'e', 'r', '.', 'a']) [] [] := by
  refine ⟨by decide, fun h => ?_⟩
  exact absurd (h.get_set .none h.set) (by decide)

end Pseudo
