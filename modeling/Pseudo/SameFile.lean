import Pseudo.Calm
import Pseudo.Renumber
import Pseudo.SetXattr

/-!
# Requests about one file

The three requests for attributes name a file by its path and by the inode that `lstat` or `fstat`
gives. A request finds the rows that another one about the same file finds, as long as the checks
leave them.

Results:
1. `asks_request`: what the server makes of such a request.
2. `kept_checked`: when the next request finds the same inode.
3. `lost_path`, `inode_ne`: what happens to the next request otherwise.
-/

namespace Pseudo

open Table

/-- The inode that the lookups leave in the message. -/
def Hits.inode (h : Hits) (buf : StatBuf) : BitVec 64 × BitVec 64 :=
  match h.exact, h.path with
  | false, some r => (columnInt64 r.dev, r.ino)
  | _, _ => (buf.dev, buf.ino)

/-- The row found for the path is not one that the checks remove, unless it is the file's own. -/
def Kept (sq : Sqlite) (files : List FileRow) (req : Request) : Prop :=
  ∀ r, (hits sq files req).path = some r → r.key = req.hdr.key ∨ Calm req (hits sq files req)

namespace SameFileLemmas

/-! ## The requests about a file -/

/-- The server has taken the path of a request off the rest. -/
theorem request_xattr {m : PseudoMsg} {q rest : Bytes} (hop : m.hdr.op.isPacked = true)
    (hrename : m.hdr.op ≠ .rename) (hpath : m.path = q ++ 0 :: rest) (hq : IsCString q) :
    (request m).path = withoutSlash q ∧ (request m).msg.pathlen = (withoutSlash q).length ∧
      (request m).hdr.pathlen = q.length ∧
      (request m).oldpath = some (rest ++ 0 :: m.leftover) := by
  have hne : m.path ≠ [] := by simp [hpath]
  have hbuf : m.buffer = q ++ 0 :: (rest ++ 0 :: m.leftover) := by
    rw [PseudoMsg.buffer, if_neg hne, hpath]
    simp
  have hlen : m.hdr.pathlen ≠ 0 := by
    rw [← m.path_length]
    exact fun h => hne (List.eq_nil_of_length_eq_zero h)
  have hcstr : cstr m.buffer = q := by
    rw [hbuf]
    exact cstr_append_nul hq _
  have hdrop : m.buffer.drop (q.length + 1) = rest ++ 0 :: m.leftover := by
    rw [hbuf, List.append_cons, List.drop_left' (by simp)]
  have hsplit : splitPaths { m.hdr with result := .succeed } m.buffer =
      ({ m.hdr with result := .succeed, pathlen := q.length }, some (rest ++ 0 :: m.leftover),
        subSize m.hdr.pathlen (q.length + 1 + 1)) := by
    unfold splitPaths
    rw [if_pos ⟨hlen, hop⟩]
    dsimp only
    rw [hcstr, hdrop, if_neg fun h => hrename h.2.1]
  unfold request withoutSlash
  rw [hsplit]
  dsimp only
  rcases Decidable.em (q.getLast? = some slash) with hslash | hslash
  · have hpos : 0 < q.length :=
      List.length_pos_iff.mpr fun hnil => by rw [hnil] at hslash; cases hslash
    have hlast : m.buffer[q.length - 1]? = some slash := by
      rw [hbuf, getLast?_eq_getElem?_append hpos, hslash]
    have hset : cstr (m.buffer.set (q.length - 1) 0) = q.dropLast := by
      rw [hbuf, set_slash hslash]
      exact cstr_append_nul (fun h => hq (List.dropLast_subset q h)) _
    rw [if_pos ⟨by omega, hlast⟩, if_pos hslash]
    exact ⟨hset, by simp, rfl, rfl⟩
  · have hkeep : ¬ (q.length ≠ 0 ∧ m.buffer[q.length - 1]? = some slash) := by
      rintro ⟨hpos, hlast⟩
      rw [hbuf, getLast?_eq_getElem?_append (by omega)] at hlast
      exact hslash hlast
    rw [if_neg hkeep, if_neg hslash]
    exact ⟨hcstr, rfl, rfl, rfl⟩

/-- The operations that the three functions ask for. -/
def Op.xattr (op : Op) : Prop := op = .setXattr ∨ op = .getXattr ∨ op = .listXattr

/-- The request is about the file with this path and these attributes. -/
structure Asks (q : Bytes) (buf : StatBuf) (req : Request) : Prop where
  proper : req.Proper
  path : req.path = withoutSlash q
  pathlen : req.msg.pathlen = (withoutSlash q).length
  hdrlen : req.hdr.pathlen = q.length
  dev : req.hdr.dev = buf.dev
  ino : req.hdr.ino = buf.ino
  mode : req.hdr.mode = buf.mode.setWidth 64
  op : Op.xattr req.hdr.op
  result : req.hdr.result = .succeed

/-- `partial_path` -/
def sentName (p : Bytes) : Bytes := if stripSlash p then p.dropLast else p

theorem asks_request {env : ClientEnv} {call : ClientCall} {buf : StatBuf} {sent : SentPath}
    {q rest : Bytes} (leftover : Bytes) (hbuf : call.buf = some buf) (hop : Op.xattr call.op)
    (hsent : sent.1 = q ++ 0 :: rest) (hq : IsCString q) :
    Asks q buf (request ((clientRequest env call sent).received leftover)) ∧
      (request ((clientRequest env call sent).received leftover)).hdr.op = call.op ∧
      (request ((clientRequest env call sent).received leftover)).oldpath =
        some (rest ++ 0 :: leftover) := by
  have hhdr : (clientHeader env call sent.1).op = call.op ∧
      (clientHeader env call sent.1).dev = buf.dev ∧ (clientHeader env call sent.1).ino = buf.ino ∧
      (clientHeader env call sent.1).mode = buf.mode.setWidth 64 := by
    unfold clientHeader
    rw [hbuf]
    dsimp only
    split <;> exact ⟨rfl, rfl, rfl, rfl⟩
  obtain ⟨hhop, hdev, hino, hmode⟩ := hhdr
  generalize hm : (clientRequest env call sent).received leftover = m
  have hmhdr : m.hdr = clientHeader env call sent.1 := by rw [← hm]; rfl
  have hmpath : m.path = q ++ 0 :: rest := by rw [← hm, ← hsent]; rfl
  have hmleft : m.leftover = leftover := by rw [← hm]; rfl
  have hmop : m.hdr.op = call.op := by rw [hmhdr, hhop]
  have hpacked : m.hdr.op.isPacked = true := by
    rw [hmop]
    rcases hop with h | h | h <;> rw [h] <;> rfl
  have hrename : m.hdr.op ≠ .rename := by
    rw [hmop]
    rcases hop with h | h | h <;> rw [h] <;> decide
  obtain ⟨hpath, hlen, hhdrlen, hold⟩ := request_xattr hpacked hrename hmpath hq
  have hreq := request_hdr m
  refine ⟨⟨request_proper m, hpath, hlen, hhdrlen, ?_, ?_, ?_, ?_, ?_⟩, ?_, hmleft ▸ hold⟩
  · rw [hreq]; exact (congrArg MsgHeader.dev hmhdr).trans hdev
  · rw [hreq]; exact (congrArg MsgHeader.ino hmhdr).trans hino
  · rw [hreq]; exact (congrArg MsgHeader.mode hmhdr).trans hmode
  · rw [request_hdr_op, hmop]; exact hop
  · rw [hreq]
  · rw [request_hdr_op, hmop]

/-! ## The rows that they find -/

section Found
variable {sq : Sqlite} {files : List FileRow} {db : Db} {req req' : Request} {q : Bytes}
  {buf : StatBuf} {h : Hits}

theorem Op.xattr.plain {op : Op} (h : Op.xattr op) :
    op ≠ .didUnlink ∧ op ≠ .exec ∧ op ≠ .rename ∧ op ≠ .link := by
  rcases h with rfl | rfl | rfl <;> decide

theorem Asks.key (h : Asks q buf req) : req.hdr.key = (bindInt buf.dev, signedIno buf.ino) := by
  rw [MsgHeader.key, h.dev, h.ino]

theorem Asks.hasPath_iff (h : Asks q buf req) : req.HasPath ↔ withoutSlash q ≠ [] := by
  rw [Request.HasPath, h.pathlen, ne_eq, List.length_eq_zero_iff]

theorem Asks.hasInode_iff (h : Asks q buf req) : req.HasInode ↔ buf.dev ≠ 0 ∧ buf.ino ≠ 0 := by
  rw [Request.HasInode, h.dev, h.ino]

/-- The lookups only depend on the file. -/
theorem Asks.hits_eq (h : Asks q buf req) (h' : Asks q buf req') :
    hits sq files req' = hits sq files req := by
  have hkey : req'.hdr.key = req.hdr.key := by rw [h.key, h'.key]
  have hpath : req'.path = req.path := by rw [h.path, h'.path]
  have hexact : exactRow sq files req' = exactRow sq files req := by
    simp only [exactRow, h.hasPath_iff, h'.hasPath_iff, h.hasInode_iff, h'.hasInode_iff, hkey,
      hpath]
  have hrow : pathRow sq files req' = pathRow sq files req := by
    simp only [pathRow, h.hasPath_iff, h'.hasPath_iff, hpath]
  have hsearches : searchesInode req' (pathRow sq files req) ↔
      searchesInode req (pathRow sq files req) := by
    cases pathRow sq files req with
    | none => exact h'.hasInode_iff.trans h.hasInode_iff.symm
    | some r => exact Iff.rfl
  have hino : inoRow sq files req' = inoRow sq files req := by
    simp only [inoRow, hrow, hsearches, hkey]
  simp only [hits, hexact, hrow, hino]

/-- So do the checks. -/
theorem Asks.calm (h : Asks q buf req) (h' : Asks q buf req') {hit : Hits} (hcalm : Calm req hit) :
    Calm req' hit := by
  have htype (r : FileRow) : typeMismatch (req'.hdr.readRow r) req'.hdr =
      typeMismatch (req.hdr.readRow r) req.hdr := by
    unfold typeMismatch MsgHeader.readRow
    rw [h.mode, h'.mode]
  have hmismatch (r : FileRow) : pathMismatch req' r.path = pathMismatch req r.path := by
    have hpath : req'.path = req.path := by rw [h.path, h'.path]
    unfold pathMismatch
    rcases h.op with hop | hop | hop <;> rcases h'.op with hop' | hop' | hop' <;>
      rw [hop, hop', hpath]
  constructor
  · intro r hr
    obtain ⟨hexpected, hfits⟩ := hcalm.path r hr
    refine ⟨fun hgone => hexpected ?_, (htype r).trans hfits⟩
    rw [h'.ino] at hgone
    rw [h.ino]
    exact ⟨hgone.1, hgone.2.1, h.op.plain.2.1, hgone.2.2.2⟩
  · intro r hr
    obtain ⟨hlive, hfits⟩ := hcalm.ino r hr
    refine ⟨fun _ hpath hmis => ?_, (htype r).trans hfits⟩
    rw [hmismatch] at hmis
    exact hlive h.op.plain.1 (h.hasPath_iff.mpr (h'.hasPath_iff.mp hpath)) hmis

theorem Asks.lookup_msg (h : Asks q buf req) :
    ((lookup sq db req).msg.dev, (lookup sq db req).msg.ino) = (hits sq db.files req).inode buf ∧
      (lookup sq db req).msg.op = req.hdr.op ∧
      (lookup sq db req).msg.result = .succeed := by
  rw [lookup_hits h.proper, Hits.lookup, Hits.inode, ← h.dev, ← h.ino, ← h.result]
  have hmsg := h.proper.msg_eq
  cases hexact : (hits sq db.files req).exact with
  | true => exact ⟨rfl, rfl, rfl⟩
  | false =>
    cases (hits sq db.files req).path with
    | none =>
      rw [if_neg (by simp), hmsg]
      exact ⟨rfl, rfl, rfl⟩
    | some r =>
      rw [if_neg (by simp), hmsg]
      exact ⟨rfl, rfl, rfl⟩

/-- What the checks reject by path is not there afterwards. -/
theorem path_gone (h : Asks q buf req) {r : FileRow}
    (hr : (hits sq db.files req).path = some r)
    (htype : typeMismatch (lookup sq db req).byPath req.hdr = true) :
    ∀ r' ∈ (checked sq db req).db.files, r'.path ≠ req.path := by
  intro r' hr' hpath
  rw [checked_files, mem_delete] at hr'
  have hfound : (lookup sq db req).foundPath = true := by
    rw [lookup_foundPath h.proper, hr]
    rfl
  have hlen : (lookup sq db req).msg.pathlen ≠ 0 :=
    (lookup_msg_hasPath h.proper).mpr (hits_path hr).2.1
  have hdrop : droppedByPath req (lookup sq db req) r' = true := by
    simp [droppedByPath, hfound, h.op.plain.1, atPath_iff.mpr hpath, htype, hlen]
  simp [dropped, hdrop] at hr'

/-- What they reject by inode is not there either. -/
theorem ino_gone (h : Asks q buf req) {r : FileRow} (hr : (hits sq db.files req).ino = some r)
    (htype : typeMismatch (lookup sq db req).byIno req.hdr = true) :
    ∀ r' ∈ (checked sq db req).db.files, r'.key ≠ (lookup sq db req).msg.key := by
  have hfound : (lookup sq db req).foundIno = true := by
    rw [lookup_foundIno h.proper, hr]
    rfl
  refine checked_drop_ino h.op.plain.1 hfound ?_
  rw [checked_foundIno, hfound, htype]
  simp [h.op.plain.1]

theorem no_path_of_none (hexact : (hits sq files req).exact = false)
    (hr : (hits sq files req).path = none) (hpath : req.HasPath) :
    ∀ r ∈ files, r.path ≠ req.path := by
  rw [(hits_not_exact hexact).2] at hr
  have hrow : pathRow sq files req = none := hr
  rw [pathRow, if_pos hpath] at hrow
  exact fun r hmem => atPath_eq_false.mp (select_eq_none_iff.mp hrow r hmem)

theorem inode_of_none (hr : h.path = none) : h.inode buf = (buf.dev, buf.ino) := by
  unfold Hits.inode
  rw [hr]
  cases h.exact <;> rfl

/-- The checks compare the types that the rows have. -/
theorem byPath_type (h : Asks q buf req) {r : FileRow}
    (hr : (hits sq db.files req).path = some r) :
    typeMismatch (lookup sq db req).byPath req.hdr = typeMismatch (req.hdr.readRow r) req.hdr := by
  have hmode : (lookup sq db req).byPath.mode = columnInt64 r.mode := by
    rw [lookup_hits h.proper, Hits.lookup, hr]
    split <;> rfl
  exact typeMismatch_readRow hmode

theorem byIno_type (h : Asks q buf req) {r : FileRow}
    (hr : (hits sq db.files req).ino = some r) :
    typeMismatch (lookup sq db req).byIno req.hdr = typeMismatch (req.hdr.readRow r) req.hdr := by
  have hmode : (lookup sq db req).byIno.mode = columnInt64 r.mode := by
    rw [lookup_hits h.proper, Hits.lookup, hr]
    split <;> rfl
  exact typeMismatch_readRow hmode

/-- A row of the inode that a request is not refused for fits, unless it has another type. -/
theorem inoFits_of_live (h : Asks q buf req) {r : FileRow}
    (hr : (hits sq db.files req).ino = some r) (hlive : aborts req (lookup sq db req) = false)
    (htype : typeMismatch (lookup sq db req).byIno req.hdr ≠ true) : InoFits req r :=
  (inoFits_iff h.proper hr).mpr ⟨hlive, Bool.eq_false_iff.mpr htype⟩

theorem lookup_key_of_inode (h : Asks q buf req)
    (hinode : (hits sq db.files req).inode buf = (buf.dev, buf.ino)) :
    (lookup sq db req).msg.key = req.hdr.key := by
  have hmsg := (@Asks.lookup_msg sq db _ _ _ h).1
  rw [hinode] at hmsg
  obtain ⟨hdev, hino⟩ := Prod.mk.inj hmsg
  rw [h.key, MsgHeader.key, hdev, hino]

/-- Rows that pass the checks for one request pass them for the next. -/
theorem Asks.again (h : Asks q buf req) (h' : Asks q buf req') {db : Db}
    (hcalm : Calm req (hits sq db.files req)) :
    aborts req' (lookup sq db req') = false ∧ (checked sq db req').db = db := by
  have hcalm' : Calm req' (hits sq db.files req') := by
    rw [h.hits_eq h']
    exact h.calm h' hcalm
  refine ⟨hcalm'.live h'.proper, ?_⟩
  rw [hcalm'.checked h'.proper]

theorem inode_fits (hdev : DevFits buf.dev) (h : Hits) : DevFits (h.inode buf).1 := by
  unfold Hits.inode
  split
  · exact congrArg columnInt64 (bindInt_columnInt64 _)
  · exact hdev

/-- The attributes are looked up under the inode that the lookups leave in the message. -/
theorem Asks.attrKey_eq (h : Asks q buf req) (name : Bytes) :
    attrKey (lookup sq db req).msg name = ((hits sq db.files req).inode buf, name) := by
  rw [attrKey, h.lookup_msg.1]

theorem Asks.devFits (h : Asks q buf req) (hdev : DevFits buf.dev) :
    DevFits (lookup sq db req).msg.dev := by
  have hmsg : (lookup sq db req).msg.dev = ((hits sq db.files req).inode buf).1 :=
    congrArg Prod.fst h.lookup_msg.1
  rw [hmsg]
  exact inode_fits hdev _

/-! ## The rows that the checks leave -/

/-- Whichever rows are found, they fit. -/
theorem calm_of {p i : Option FileRow} (hp : h.path = p) (hi : h.ino = i)
    (hpath : ∀ r ∈ p, PathFits req r) (hino : ∀ r ∈ i, InoFits req r) : Calm req h :=
  ⟨fun r hr => hpath r (hp.symm.trans hr), fun r hr => hino r (hi.symm.trans hr)⟩

/-- The next request about the file passes the checks, and finds the inode again. -/
def FindsAgain (sq : Sqlite) (db : Db) (req : Request) (buf : StatBuf) : Prop :=
  Calm req (hits sq (checked sq db req).db.files req) ∧
    (hits sq (checked sq db req).db.files req).inode buf = (hits sq db.files req).inode buf

theorem again_of_nothing
    (hpaths : req.HasPath → ∀ r ∈ (checked sq db req).db.files, r.path ≠ req.path)
    (hkeys : req.HasInode → ∀ r ∈ (checked sq db req).db.files, r.key ≠ req.hdr.key)
    (hinode : (hits sq db.files req).inode buf = (buf.dev, buf.ino)) :
    FindsAgain sq db req buf := by
  rw [FindsAgain, hits_nothing hpaths hkeys, hinode]
  exact ⟨calm_nothing, rfl⟩

theorem again_of_none (h : Asks q buf req) (hlive : aborts req (lookup sq db req) = false)
    (hcalm : ¬ Calm req (hits sq db.files req)) (hpath : (hits sq db.files req).path = none) :
    FindsAgain sq db req buf := by
  have hexact : (hits sq db.files req).exact = false := by
    cases hex : (hits sq db.files req).exact with
    | false => rfl
    | true =>
      obtain ⟨r, -, -, -, -, -, he⟩ := hits_exact hex
      rw [he] at hpath
      cases hpath
  have hinode := @inode_of_none buf _ hpath
  refine again_of_nothing (fun hhas r hr => ?_) (fun _ => ?_) hinode
  · exact no_path_of_none hexact hpath hhas r (mem_of_mem_checked hr)
  cases hino : (hits sq db.files req).ino with
  | none => exact absurd (calm_of hpath hino nofun nofun) hcalm
  | some r =>
    rw [← lookup_key_of_inode h hinode]
    refine ino_gone h hino (Decidable.of_not_not fun htype => hcalm ?_)
    have hfits := inoFits_of_live h hino hlive htype
    exact calm_of hpath hino nofun fun _ hs => Option.some.inj hs ▸ hfits

section Row
variable {r : FileRow}

/-- The row of the file itself only fails a check by its type. -/
theorem pathFits_own (hkey : r.key = req.hdr.key)
    (htype : typeMismatch (req.hdr.readRow r) req.hdr ≠ true) : PathFits req r :=
  pathFits_of_key hkey (Bool.eq_false_iff.mpr htype)

theorem again_of_exact (h : Asks q buf req) (hlive : aborts req (lookup sq db req) = false)
    (hcalm : ¬ Calm req (hits sq db.files req)) (hpath : (hits sq db.files req).path = some r)
    (hkey : r.key = req.hdr.key) (hexact : (hits sq db.files req).exact = true) :
    FindsAgain sq db req buf := by
  obtain ⟨r', -, -, -, -, -, he⟩ := hits_exact hexact
  have hsame : r' = r := by
    rw [he] at hpath
    exact Option.some.inj hpath
  have hino : (hits sq db.files req).ino = some r := by rw [he, hsame]
  have hinode : (hits sq db.files req).inode buf = (buf.dev, buf.ino) := by
    rw [he, Hits.inode]
  have htype : typeMismatch (req.hdr.readRow r) req.hdr = true := by
    refine Decidable.of_not_not fun htype => hcalm ?_
    have hfits := inoFits_of_live h hino hlive (byIno_type h hino ▸ htype)
    exact calm_of hpath hino (fun _ hs => Option.some.inj hs ▸ pathFits_own hkey htype)
      fun _ hs => Option.some.inj hs ▸ hfits
  refine again_of_nothing (fun _ => ?_) (fun _ => ?_) hinode
  · exact path_gone h hpath ((byPath_type h hpath).trans htype)
  · rw [← lookup_key_of_inode h hinode]
    exact ino_gone h hino ((byIno_type h hino).trans htype)

/-- Only a file without a device or an inode is not found exactly. -/
theorem again_of_zero (h : Asks q buf req) (hdev : DevFits buf.dev)
    (hcalm : ¬ Calm req (hits sq db.files req)) (hpath : (hits sq db.files req).path = some r)
    (hkey : r.key = req.hdr.key) (hexact : (hits sq db.files req).exact = false) :
    FindsAgain sq db req buf := by
  obtain ⟨hmem, hhas, hrpath⟩ := hits_path hpath
  obtain ⟨hnone, he⟩ := hits_not_exact hexact
  have hzero : ¬ req.HasInode := fun hino => exactRow_none hnone hhas hino hmem hrpath hkey
  have hrow : (columnInt64 r.dev, r.ino) = (buf.dev, buf.ino) := by
    rw [h.key] at hkey
    obtain ⟨hrdev, hrino⟩ := Prod.mk.inj hkey
    rw [hrdev, hrino, signedIno_eq]
    exact congrArg (·, buf.ino) hdev
  have hinode : (hits sq db.files req).inode buf = (buf.dev, buf.ino) := by
    rw [Hits.inode, hexact, hpath]
    exact hrow
  have hpathRow : pathRow sq db.files req = some r := by
    rw [he] at hpath
    exact hpath
  have hino : (hits sq db.files req).ino = none := by
    rw [he]
    show inoRow sq db.files req = none
    rw [inoRow, hpathRow, if_neg]
    rintro ⟨hrdev, hrino⟩
    obtain ⟨hd, hi⟩ := Prod.mk.inj hrow
    exact hzero (h.hasInode_iff.mpr ⟨hd ▸ hrdev, hi ▸ hrino⟩)
  have htype : typeMismatch (req.hdr.readRow r) req.hdr = true := by
    refine Decidable.of_not_not fun htype => hcalm ?_
    exact calm_of hpath hino (fun _ hs => Option.some.inj hs ▸ pathFits_own hkey htype) nofun
  refine again_of_nothing (fun _ => ?_) (fun hhasino => absurd hhasino hzero) hinode
  exact path_gone h hpath ((byPath_type h hpath).trans htype)

end Row

/-- After the checks, the lookups for the next request about the file pass them, and find the
inode again. -/
theorem kept_checked (h : Asks q buf req) (hdev : DevFits buf.dev)
    (hlive : aborts req (lookup sq db req) = false) (hkept : Kept sq db.files req) :
    Calm req (hits sq (checked sq db req).db.files req) ∧
      (hits sq (checked sq db req).db.files req).inode buf =
        (hits sq db.files req).inode buf := by
  rcases Classical.em (Calm req (hits sq db.files req)) with hcalm | hcalm
  · rw [hcalm.checked h.proper]
    exact ⟨hcalm, rfl⟩
  · cases hpath : (hits sq db.files req).path with
    | none => exact again_of_none h hlive hcalm hpath
    | some r =>
      have hkey := (hkept r hpath).resolve_right hcalm
      cases hexact : (hits sq db.files req).exact with
      | true => exact again_of_exact h hlive hcalm hpath hkey hexact
      | false => exact again_of_zero h hdev hcalm hpath hkey hexact

/-- No row has the path any more when the checks have removed the one that had it. -/
theorem lost_path (h : Asks q buf req) (hlive : aborts req (lookup sq db req) = false)
    (hr : (hits sq db.files req).path = some r) (hkey : r.key ≠ req.hdr.key)
    (hnot : ¬ Calm req (hits sq db.files req))
    (hone : ∀ r' ∈ db.files, r'.path = req.path → r' = r) :
    ∀ r' ∈ (checked sq db req).db.files, r'.path ≠ req.path := by
  have hexact : (hits sq db.files req).exact = false := by
    cases hex : (hits sq db.files req).exact with
    | false => rfl
    | true =>
      obtain ⟨r', -, -, -, -, hkey', he⟩ := hits_exact hex
      rw [he] at hr
      exact absurd (Option.some.inj hr ▸ hkey') hkey
  have hgone (hrow : r ∉ (checked sq db req).db.files) :
      ∀ r' ∈ (checked sq db req).db.files, r'.path ≠ req.path := by
    intro r' hr' hpath
    exact hrow (hone r' (mem_of_mem_checked hr') hpath ▸ hr')
  have hrpath := (hits_path hr).2.2
  rcases Classical.em (PathFits req r) with hfits | hfits
  · -- the row found for the inode has another type
    cases hino : (hits sq db.files req).ino with
    | none => exact absurd (calm_of hr hino (fun _ hs => Option.some.inj hs ▸ hfits) nofun) hnot
    | some r₂ =>
      have htype : typeMismatch (lookup sq db req).byIno req.hdr = true := by
        refine Decidable.of_not_not fun htype => hnot ?_
        have hfits₂ := inoFits_of_live h hino hlive htype
        exact calm_of hr hino (fun _ hs => Option.some.inj hs ▸ hfits)
          fun _ hs => Option.some.inj hs ▸ hfits₂
      refine hgone fun hmem => ino_gone h hino htype r hmem ?_
      rw [lookup_hits h.proper, Hits.lookup, hexact, hr]
      show r.key = (bindInt (columnInt64 r.dev), signedIno r.ino)
      rw [bindInt_columnInt64, signedIno_eq]
      rfl
  · rcases Decidable.em (typeMismatch (lookup sq db req).byPath req.hdr = true) with htype | htype
    · exact path_gone h hr htype
    · have hexpected : expectedGone req (lookup sq db req) = true := by
        refine Decidable.of_not_not fun hno => hfits ((pathFits_iff h.proper hr).mpr ?_)
        exact ⟨Bool.eq_false_iff.mpr hno, Bool.eq_false_iff.mpr htype⟩
      refine hgone fun hmem => ?_
      rw [checked_files, mem_delete] at hmem
      have hfound : (lookup sq db req).foundPath = true := by
        rw [lookup_foundPath h.proper, hr]
        rfl
      have hdeleting : (lookup sq db req).byPath.deleting = r.deleting := by
        rw [lookup_hits h.proper, Hits.lookup, hexact, hr]
        rfl
      have hdrop : droppedByPath req (lookup sq db req) r = true := by
        simp [droppedByPath, hfound, h.op.plain.1, atPath_iff.mpr hrpath, hexpected, hdeleting]
      simp [dropped, hdrop] at hmem

/-- The file's own inode is another one than that of the row. -/
theorem inode_ne (h : Asks q buf req) (hr : (hits sq db.files req).path = some r)
    (hkey : r.key ≠ req.hdr.key) : (hits sq db.files req).inode buf ≠ (buf.dev, buf.ino) := by
  intro hinode
  refine hkey ?_
  rw [h.key]
  cases hexact : (hits sq db.files req).exact with
  | true =>
    obtain ⟨r', -, -, -, -, hkey', he⟩ := hits_exact hexact
    rw [he] at hr
    rw [← Option.some.inj hr, hkey', h.key]
  | false =>
    rw [Hits.inode, hexact, hr] at hinode
    obtain ⟨hdev, hino⟩ := Prod.mk.inj hinode
    rw [← hdev, ← hino, bindInt_columnInt64, signedIno_eq]
    rfl

end Found

end SameFileLemmas

end Pseudo
