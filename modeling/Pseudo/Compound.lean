import Pseudo.Client
import Pseudo.Server

/-!
# Compound messages

`pseudo_client_op` packs a path and one or two further parts into one buffer, `pseudo_op` splits
it, and `pdb_set_xattr` splits what is left for it once more.

Results:
1. `splitPaths_packed`: the server splits where the client has put the parts together.
2. `request_packed`: nothing is taken from a path that has lost its slash.
3. `compound_split`: the parts are those that were packed.
-/

namespace Pseudo

open Table

/-- A path without one trailing slash. -/
def withoutSlash (p : Bytes) : Bytes := if p.getLast? = some slash then p.dropLast else p

/-- What follows the path in the buffer, up to the last NUL. -/
def extraParts (extra1 : Bytes) : Option Bytes → Bytes
  | some value => extra1 ++ 0 :: value
  | none => extra1

/-- What `pdb_set_xattr` makes of its arguments: the name, where the value starts, and its
length. -/
structure XattrSplit where
  name : Bytes
  value : Bytes
  len : Nat
  deriving DecidableEq, Repr

/-- "the material after the name is the value". -/
def splitXattr (value : Bytes) (len : Nat) : XattrSplit where
  name := cstr value
  value := value.drop ((cstr value).length + 1)
  len := subSize len ((cstr value).length + 1)

/-- The text that is bound for the value. -/
def XattrSplit.text (s : XattrSplit) : Bytes := bindText s.value s.len

/-- `pdb_set_xattr` looks for the name and stores the text. -/
theorem pdbSetXattr_split (sq : Sqlite) (db : Db) (msg : MsgHeader) (value : Bytes) (len : Nat)
    (flags : XattrFlags) :
    pdbSetXattr sq db msg value len flags = (
      let split := splitXattr value len
      let existingRow := (select sq.xattrs (atName msg split.name) db.xattrs).map (·.id)
      if flags = .create ∧ existingRow.isSome then (db, 1)
      else if flags = .replace ∧ existingRow.isNone then (db, 1)
      else match existingRow with
        | some id =>
          let bound := (BitVec.ofInt 32 id).toInt
          let xattrs :=
            update (fun x => x.id == bound) (fun x => { x with value := split.text }) db.xattrs
          ({ db with xattrs := xattrs }, 0)
        | none =>
          let xattrs := insertXattr db.xattrs msg.dev (signedIno msg.ino) split.name split.text
          ({ db with xattrs := xattrs }, 0) : Db × Int) := rfl

/-! ## The split -/

section Split
variable {m : PseudoMsg} {q extra : Bytes}

/-- "for a rename op, we want to strip any trailing slashes". -/
def keptExtra (op : Op) (extra : Bytes) : Bytes :=
  if op = .rename then withoutSlash extra else extra

theorem buffer_packed (hpath : m.path = q ++ 0 :: (extra ++ [0])) :
    m.buffer = q ++ 0 :: (extra ++ 0 :: 0 :: m.leftover) := by
  have hne : m.path ≠ [] := by
    rw [hpath]
    simp
  rw [PseudoMsg.buffer, if_neg hne, hpath]
  simp

theorem keptExtra_stripped (hslash : extra.getLast? = some slash) :
    keptExtra .rename extra = extra.dropLast := by
  rw [keptExtra, if_pos rfl, withoutSlash, if_pos hslash]

theorem keptExtra_kept {op : Op} (h : op = .rename → extra.getLast? ≠ some slash) :
    keptExtra op extra = extra := by
  unfold keptExtra withoutSlash
  split
  · rename_i hrename
    rw [if_neg (h hrename)]
  · rfl

theorem getLast?_eq_getElem?_append (hpos : 0 < extra.length) (rest : Bytes) :
    (extra ++ rest)[extra.length - 1]? = extra.getLast? := by
  rw [List.getElem?_append_left (by omega), List.getLast?_eq_getElem?]

/-- The slash is overwritten with a NUL. -/
theorem set_slash (hslash : extra.getLast? = some slash) (rest : Bytes) :
    (extra ++ rest).set (extra.length - 1) 0 = extra.dropLast ++ 0 :: rest := by
  obtain ⟨init, rfl⟩ := List.getLast?_eq_some_iff.mp hslash
  have hlen : (init ++ [slash]).length - 1 = init.length := by
    rw [List.length_append, List.length_singleton, Nat.add_sub_cancel]
  rw [hlen, List.append_assoc, List.set_append_right _ _ (Nat.le_refl _), Nat.sub_self,
    List.dropLast_concat]
  rfl

/-- The server splits where the client has put the parts together, and counts all but the last
NUL. -/
theorem splitPaths_packed (hop : m.hdr.op.isPacked = true)
    (hpath : m.path = q ++ 0 :: (extra ++ [0])) (hq : IsCString q)
    (hlen : m.path.length < 2 ^ 64) :
    ∃ tail, splitPaths { m.hdr with result := .succeed } m.buffer =
      ({ m.hdr with result := .succeed, pathlen := q.length },
        some (keptExtra m.hdr.op extra ++ 0 :: tail), (keptExtra m.hdr.op extra).length) ∧
      (keptExtra m.hdr.op extra = extra → tail = 0 :: m.leftover) := by
  have hbuf := buffer_packed hpath
  have hcstr : cstr m.buffer = q := by
    rw [hbuf]
    exact cstr_append_nul hq _
  have hdrop : m.buffer.drop (q.length + 1) = extra ++ 0 :: 0 :: m.leftover := by
    rw [hbuf, List.append_cons, List.drop_left' (by simp)]
  have htotal : m.hdr.pathlen = q.length + 1 + (extra.length + 1) := by
    rw [← m.path_length, hpath]
    simp
    omega
  have hsub : subSize m.hdr.pathlen (q.length + 1 + 1) = extra.length := by
    have hlt : m.hdr.pathlen < 2 ^ 64 := m.path_length ▸ hlen
    rw [subSize_of_le (by omega) hlt]
    omega
  unfold splitPaths
  rw [if_pos ⟨show m.hdr.pathlen ≠ 0 by omega, hop⟩]
  dsimp only
  rw [hcstr, hdrop, hsub]
  split
  · rename_i hstrip
    obtain ⟨hpos, hrename, hslash⟩ := hstrip
    rw [getLast?_eq_getElem?_append hpos] at hslash
    rw [hrename, keptExtra_stripped hslash]
    refine ⟨0 :: 0 :: m.leftover, ?_, fun h => ?_⟩
    · rw [set_slash hslash, List.length_dropLast]
    · have := congrArg List.length h
      rw [List.length_dropLast] at this
      omega
  · rename_i hkeep
    have hkept : keptExtra m.hdr.op extra = extra := by
      refine keptExtra_kept fun hrename hslash => hkeep ?_
      have hpos : 0 < extra.length :=
        List.length_pos_iff.mpr fun hnil => by rw [hnil] at hslash; nomatch hslash
      exact ⟨hpos, hrename, (getLast?_eq_getElem?_append hpos _).trans hslash⟩
    exact ⟨0 :: m.leftover, by rw [hkept], fun _ => rfl⟩

/-- A path that does not end in a slash is left as it is. -/
theorem request_packed (hop : m.hdr.op.isPacked = true)
    (hpath : m.path = q ++ 0 :: (extra ++ [0])) (hq : IsCString q)
    (hslash : q.getLast? ≠ some slash) (hlen : m.path.length < 2 ^ 64) :
    (request m).path = q ∧ (request m).msg.pathlen = q.length ∧
      (request m).oldpathlen = (keptExtra m.hdr.op extra).length ∧
      ∃ tail, (request m).oldpath = some (keptExtra m.hdr.op extra ++ 0 :: tail) ∧
        (keptExtra m.hdr.op extra = extra → tail = 0 :: m.leftover) := by
  obtain ⟨tail, hsplit, htail⟩ := splitPaths_packed hop hpath hq hlen
  have hbuf := buffer_packed hpath
  have hcstr : cstr m.buffer = q := by
    rw [hbuf]
    exact cstr_append_nul hq _
  have hkeep : ¬ (q.length ≠ 0 ∧ m.buffer[q.length - 1]? = some slash) := by
    rintro ⟨hpos, hlast⟩
    rw [hbuf, List.getElem?_append_left (by omega), ← List.getLast?_eq_getElem?] at hlast
    exact hslash hlast
  unfold request
  rw [hsplit]
  dsimp only
  rw [if_neg hkeep]
  exact ⟨hcstr, rfl, rfl, tail, rfl, htail⟩

end Split

/-! ## What was packed -/

theorem withoutSlash_eq {p : Bytes} (hp : p ≠ [slash]) :
    (if stripSlash p then p.dropLast else p) = withoutSlash p := by
  unfold withoutSlash
  rcases Decidable.em (p.getLast? = some slash) with hlast | hlast
  · have hlong : 1 < p.length := by
      obtain ⟨init, rfl⟩ := List.getLast?_eq_some_iff.mp hlast
      have hinit : init ≠ [] := by
        rintro rfl
        exact hp rfl
      have := List.length_pos_iff.mpr hinit
      rw [List.length_append, List.length_singleton]
      omega
    rw [if_pos hlast, if_pos (by simp [stripSlash, hlong, hlast])]
  · rw [if_neg hlast, if_neg (by simp [stripSlash, hlast])]

theorem packPaths_eq {p : Bytes} (hp : p ≠ [slash]) (extra1 : Bytes) (extra2 : Option Bytes) :
    packPaths p extra1 extra2 = withoutSlash p ++ 0 :: (extraParts extra1 extra2 ++ [0]) := by
  unfold packPaths
  rw [withoutSlash_eq hp]
  cases extra2 <;> simp [extraParts]

theorem isCString_withoutSlash {p : Bytes} (hp : IsCString p) : IsCString (withoutSlash p) := by
  unfold withoutSlash
  split
  · exact fun h => hp (List.dropLast_subset p h)
  · exact hp

section Packed
variable {extra : Bytes}

theorem splitXattr_value (hextra : IsCString extra) (value tail : Bytes) :
    splitXattr (extra ++ 0 :: value ++ tail) (extra ++ 0 :: value).length =
      ⟨extra, value ++ tail, value.length % 2 ^ 64⟩ := by
  have hshape : extra ++ 0 :: value ++ tail = extra ++ 0 :: (value ++ tail) := by simp
  have hname : cstr (extra ++ 0 :: (value ++ tail)) = extra := cstr_append_nul hextra _
  have hdrop : (extra ++ 0 :: (value ++ tail)).drop (extra.length + 1) = value ++ tail := by
    rw [List.append_cons, List.drop_left' (by simp)]
  have hlen : subSize (extra ++ 0 :: value).length (extra.length + 1) = value.length % 2 ^ 64 := by
    unfold subSize
    rw [List.length_append, List.length_cons]
    omega
  rw [hshape, splitXattr, hname, hdrop, hlen]

/-- A null pointer for the value: the length wraps around, SQLite takes it for `-1`, and reads up
to the NUL that the receiver puts behind the buffer. -/
theorem splitXattr_null (hextra : IsCString extra) (tail : Bytes) :
    (splitXattr (extra ++ 0 :: 0 :: tail) extra.length).name = extra ∧
      (splitXattr (extra ++ 0 :: 0 :: tail) extra.length).text = [] := by
  have hname : cstr (extra ++ 0 :: 0 :: tail) = extra := cstr_append_nul hextra _
  have hdrop : (extra ++ 0 :: 0 :: tail).drop (extra.length + 1) = 0 :: tail := by
    rw [List.append_cons, List.drop_left' (by simp)]
  have hsub : subSize extra.length (extra.length + 1) = 2 ^ 64 - 1 := by
    unfold subSize
    omega
  have hneg : (BitVec.ofNat 32 (2 ^ 64 - 1)).toInt < 0 := by decide
  refine ⟨hname, ?_⟩
  rw [XattrSplit.text, splitXattr, hname, hdrop, hsub]
  exact (if_pos hneg).trans rfl

/-- The name and the value that `pdb_set_xattr` finds, with the value there or a null pointer. -/
theorem splitXattr_extraParts (hextra : IsCString extra) (value : Option Bytes) (tail : Bytes) :
    (extraParts extra value).length < 2 ^ 64 →
    let split := splitXattr (extraParts extra value ++ 0 :: 0 :: tail)
      (extraParts extra value).length
    split.name = extra ∧
      match value with
      | some value => split.len = value.length ∧ split.value.take value.length = value
      | none => split.text = [] := by
  intro hshort
  cases value with
  | none => exact splitXattr_null hextra tail
  | some value =>
    have hlen : (extra ++ 0 :: value).length < 2 ^ 64 := hshort
    rw [List.length_append, List.length_cons] at hlen
    have hsmall : value.length % 2 ^ 64 = value.length := Nat.mod_eq_of_lt (by omega)
    have hsplit := splitXattr_value hextra value (0 :: 0 :: tail)
    rw [hsmall] at hsplit
    dsimp only [extraParts]
    rw [hsplit]
    exact ⟨rfl, rfl, List.take_left⟩

end Packed

/-- The operations that set an attribute. -/
def Op.setsXattr : Op → Bool
  | .setXattr | .createXattr | .replaceXattr => true
  | _ => false

/-- The parts of a compound message are those that `pseudo_client_op` packed. -/
theorem compound_split {env : ClientEnv} {t : FdTables} {call : ClientCall} {sent : SentPath}
    {leftover p extra : Bytes} (hpath : callPath t call = some p)
    (hextra : call.extra1 = some extra)
    (hsent : sentPath (callPath t call) call.extra1 call.extra2 = some sent)
    (hop : call.op.isPacked = true) (hp : p ≠ [] ∧ p ≠ [slash] ∧ IsCString p)
    (hslash : (withoutSlash p).getLast? ≠ some slash) (hname : IsCString extra)
    (hlen : sent.1.length < 2 ^ 32) :
    let req := request ((clientRequest env call sent).received leftover)
    req.path = withoutSlash p ∧ req.msg.pathlen = (withoutSlash p).length ∧
    (call.op = .rename → call.extra2 = none →
      req.oldpath.map cstr = some (withoutSlash extra) ∧
      req.oldpathlen = (withoutSlash extra).length) ∧
    (call.op = .getXattr ∨ call.op = .removeXattr → call.extra2 = none →
      req.oldpath.map cstr = some extra ∧ req.oldpathlen = extra.length) ∧
    (call.op.setsXattr = true → ∃ buffer, req.oldpath = some buffer ∧
      (splitXattr buffer req.oldpathlen).name = extra ∧
      match call.extra2 with
      | some value => (splitXattr buffer req.oldpathlen).len = value.length ∧
          (splitXattr buffer req.oldpathlen).value.take value.length = value
      | none => (splitXattr buffer req.oldpathlen).text = []) := by
  intro req
  have hbytes : sent.1 =
      withoutSlash p ++ 0 :: (extraParts extra call.extra2 ++ [0]) := by
    rw [hpath, hextra] at hsent
    have h : packPaths p extra call.extra2 = sent.1 := congrArg Subtype.val (Option.some.inj hsent)
    rw [← h, packPaths_eq hp.2.1]
  have hshort : (extraParts extra call.extra2).length < 2 ^ 32 := by
    rw [hbytes] at hlen
    simp at hlen
    omega
  have hhdr : (clientHeader env call sent.1).op = call.op := by
    unfold clientHeader
    dsimp only
    cases call.buf <;> split <;> rfl
  obtain ⟨hq, hpathlen, holdlen, tail, hold, htail⟩ :=
    request_packed (m := (clientRequest env call sent).received leftover)
      (hhdr ▸ hop) hbytes (isCString_withoutSlash hp.2.2) hslash
      (Nat.lt_trans hlen (by decide))
  have hkind : ((clientRequest env call sent).received leftover).hdr.op = call.op := hhdr
  rw [hkind] at holdlen hold htail
  have hkept : call.op ≠ .rename →
      keptExtra call.op (extraParts extra call.extra2) = extraParts extra call.extra2 :=
    fun hne => if_neg hne
  refine ⟨hq, hpathlen, ?_, ?_, ?_⟩
  · intro hrename hnone
    rw [hrename, hnone] at hold holdlen
    refine ⟨?_, holdlen⟩
    show (request _).oldpath.map cstr = _
    rw [hold]
    exact congrArg some (cstr_append_nul (isCString_withoutSlash hname) _)
  · intro hget hnone
    have hne : call.op ≠ .rename := by rcases hget with h | h <;> rw [h] <;> decide
    rw [hkept hne, hnone] at hold holdlen
    refine ⟨?_, holdlen⟩
    show (request _).oldpath.map cstr = _
    rw [hold]
    exact congrArg some (cstr_append_nul hname _)
  · intro hset
    have hne : call.op ≠ .rename := by
      intro h
      rw [h] at hset
      exact absurd hset (by decide)
    rw [hkept hne] at hold holdlen htail
    refine ⟨_, hold, ?_⟩
    show (splitXattr _ (request _).oldpathlen).name = extra ∧ _
    rw [holdlen, htail rfl]
    exact splitXattr_extraParts hname call.extra2 leftover (Nat.lt_trans hshort (by decide))

/-- A value with NUL bytes, for a directory that is named with its slash. -/
def exSetCall : ClientCall :=
  { op := .setXattr, path := some [47, 97, 47], buf := some exBuf, extra1 := some [110]
    extra2 := some [0, 1, 0] }

/-- The server gets `/a`, and `pdb_set_xattr` the name and the three bytes. -/
theorem compound_split_nul :
    let sent : SentPath := ⟨packPaths [47, 97, 47] [110] (some [0, 1, 0]), fun _ => by decide⟩
    let req := request ((clientRequest exEnv exSetCall sent).received [9])
    req.path = [47, 97] ∧ req.msg.pathlen = 2 ∧
    ∃ buffer, req.oldpath = some buffer ∧ (splitXattr buffer req.oldpathlen).name = [110] ∧
      (splitXattr buffer req.oldpathlen).len = 3 ∧
      (splitXattr buffer req.oldpathlen).value.take 3 = [0, 1, 0] := by
  intro sent
  have hsplit := @compound_split exEnv ⟨[], []⟩ exSetCall sent [9]
    [47, 97, 47] [110] rfl rfl rfl rfl (by decide) (by decide) (by decide) (by decide)
  generalize request ((clientRequest exEnv exSetCall sent).received [9]) = req at hsplit
  obtain ⟨hpath, hlen, -, -, hset⟩ := hsplit
  exact ⟨hpath.trans (by decide), hlen.trans (by decide), hset rfl⟩

end Pseudo
