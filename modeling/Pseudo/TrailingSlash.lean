import Pseudo.Calm
import Pseudo.Changes
import Pseudo.Names

/-!
# Trailing slashes

"trailing slashes are kept in paths because they affect path resolution, but we don't want them
in the database because they're optional." `pseudo_op` looks for a slash at `pathlen - 1`. There
it stands in the messages that pack two strings, whose length has been set to that of the first
one; the length of a plain path counts the NUL, and its slash stays.

Results:
1. `noSlash_iff`: from an empty table no path ends in a slash exactly as long as no message whose
   path does has its row inserted.
2. `slash_optional`: the answers to `OP_STAT` with and without the slash.
-/

namespace Pseudo

open Table

/-- A path other than the root that ends in a slash. -/
def Slashed (p : Bytes) : Prop := p.getLast? = some slash ∧ p ≠ [slash]

instance (p : Bytes) : Decidable (Slashed p) := inferInstanceAs (Decidable (_ ∧ _))

def NoSlash (t : List FileRow) : Prop := ∀ r ∈ t, ¬ Slashed r.path

instance (t : List FileRow) : Decidable (NoSlash t) :=
  inferInstanceAs (Decidable (∀ r ∈ t, _))

/-- The path ends in one slash at most. -/
def OneSlash (m : PseudoMsg) : Prop := ∀ q, cstr m.buffer ≠ q ++ [slash, slash]

/-- The operations that end in `pdb_link_file`. -/
def Op.inserts (op : Op) : Bool := op == .link || op.records

/-- A message with a slash behind its path for which a row is inserted. -/
def StoresSlash (db : Db) (e : Sqlite × PseudoMsg) : Prop :=
  e.2.hdr.op.inserts = true ∧ e.2.hdr.pathlen ≠ 0 ∧ Slashed (cstr e.2.buffer) ∧
    Inserts e.1 db e.2

/-- An `OP_STAT` for a path. -/
def statMsg (hdr : MsgHeader) (p : Bytes) : PseudoMsg := PseudoMsg.plain { hdr with op := .stat } p

/-- The header that is sent back; no path goes with it. -/
def answer (sq : Sqlite) (db : Db) (m : PseudoMsg) : MsgHeader :=
  { (pseudoOp sq db m).msg with pathlen := 0 }

/-- The row that the inode of a message stands for. -/
def inodeRow (sq : Sqlite) (db : Db) (hdr : MsgHeader) : Option FileRow :=
  if hdr.dev ≠ 0 ∧ hdr.ino ≠ 0 then select sq.files (atKey hdr.key) db.files else none

/-- The row of the inode, if any, decides on the answer for a path without a row. -/
def answerByInode (sq : Sqlite) (db : Db) (hdr : MsgHeader) : MsgHeader :=
  let found := inodeRow sq db hdr
  let hdr := { hdr with op := .stat, result := .succeed, pathlen := 0 }
  match found with
  | none => { hdr with result := .fail }
  | some r =>
    if r.path ≠ namelessFile ∧ r.deleting = 0 then { hdr with result := .abort }
    else if typeMismatch (hdr.readRow r) hdr then { hdr with result := .fail }
    else hdr.readRow r

namespace TrailingSlashLemmas

open NamesLemmas RecordLemmas

/-! ## Paths -/

/-- A NUL written into a C string cuts it there. -/
theorem cstr_set {b : Bytes} {n : Nat} (h : n < (cstr b).length) :
    cstr (b.set n 0) = (cstr b).take n := by
  induction b generalizing n with
  | nil => exact absurd h (by simp [cstr])
  | cons c b ih =>
    by_cases hc : c = 0
    · exact absurd h (by simp [cstr, hc])
    · have hcons : cstr (c :: b) = c :: cstr b := by simp [cstr, hc]
      rw [hcons] at h ⊢
      cases n with
      | zero => simp [cstr]
      | succ n =>
        have hset : cstr (c :: b.set n 0) = c :: cstr (b.set n 0) := by simp [cstr, hc]
        rw [List.set_cons_succ, hset, ih (by simpa using h), List.take_succ_cons]

/-- The characters of a C string are those of its buffer. -/
theorem getElem?_cstr {b : Bytes} {n : Nat} (h : n < (cstr b).length) :
    b[n]? = (cstr b)[n]? := by
  obtain ⟨rest, hrest⟩ : cstr b <+: b := List.takeWhile_prefix _
  conv_lhs => rw [← hrest]
  exact List.getElem?_append_left h

/-- Where a slash is the last character of the string, it is looked for there, and cut off. -/
theorem getElem?_last {b : Bytes} {n : Nat} (hn : n = (cstr b).length) (hne : n ≠ 0) :
    b[n - 1]? = (cstr b).getLast? := by
  rw [getElem?_cstr (by omega), List.getLast?_eq_getElem?, hn]

theorem cstr_set_last {b q : Bytes} {n : Nat} (hn : n = (cstr b).length)
    (hq : cstr b = q ++ [slash]) : cstr (b.set (n - 1) 0) = q ∧ n - 1 = q.length := by
  have hlen : n = q.length + 1 := by rw [hn, hq, List.length_append, List.length_singleton]
  refine ⟨?_, by omega⟩
  rw [cstr_set (by omega), hq, hlen, Nat.add_sub_cancel, List.take_left']
  rfl

theorem splitPaths_pathlen {hdr : MsgHeader} {b : Bytes} (hp : hdr.op.isPacked = true)
    (h : (splitPaths hdr b).1.pathlen ≠ 0) :
    (splitPaths hdr b).1.pathlen = (cstr b).length := by
  unfold splitPaths at h ⊢
  dsimp only at h ⊢
  split
  · split <;> rfl
  · next hcond =>
    rw [if_neg hcond] at h
    exact absurd ⟨h, hp⟩ hcond

/-- A rename that is carried out has a new path without a slash behind it. -/
theorem rename_path {m : PseudoMsg} (hop : m.hdr.op = .rename) (hone : OneSlash m)
    (hlen : (request m).msg.pathlen ≠ 0) :
    (request m).path ≠ [] ∧ (request m).path.getLast? ≠ some slash := by
  have hsplit := @splitPaths_pathlen { m.hdr with result := .succeed } m.buffer (by rw [hop]; rfl)
  revert hlen
  unfold request
  dsimp only
  split
  · next hcond =>
    obtain ⟨hne, hslash⟩ := hcond
    rw [getElem?_last (hsplit hne) hne] at hslash
    obtain ⟨q, hq⟩ := List.getLast?_eq_some_iff.mp hslash
    obtain ⟨hcut, hlen⟩ := cstr_set_last (hsplit hne) hq
    rw [hcut, hlen]
    refine fun hpos => ⟨List.length_pos_iff.mp (Nat.pos_of_ne_zero hpos), fun hlast => ?_⟩
    obtain ⟨q', rfl⟩ := List.getLast?_eq_some_iff.mp hlast
    exact hone q' (by simpa using hq)
  · next hcond =>
    intro hne
    have hpos := Nat.pos_of_ne_zero hne
    rw [hsplit hne] at hpos
    refine ⟨List.length_pos_iff.mp hpos, fun hlast => hcond ⟨hne, ?_⟩⟩
    rw [getElem?_last (hsplit hne) hne, hlast]

/-- What becomes of a row when the new path does not end in a slash. -/
theorem renameRow_noSlash {old new : Bytes} {r : FileRow} (hne : new ≠ [])
    (hlast : new.getLast? ≠ some slash) (hr : ¬ Slashed r.path) :
    ¬ Slashed (renameRow old new r).path := by
  have hexact : ∀ r', r' = (if atPath old r then { r with path := new, deleting := 0 } else r) →
      ¬ Slashed r'.path := by
    rintro r' rfl
    split
    · exact fun h => hlast h.1
    · exact hr
  have hr' := hexact _ rfl
  unfold renameRow
  dsimp only
  revert hr'
  generalize (if atPath old r then { r with path := new, deleting := 0 } else r) = r'
  intro hr'
  split
  · next hb =>
    obtain ⟨rest, hrest, he⟩ := below_iff.mp hb
    -- a path below another one is not the root
    have hroot : r'.path ≠ [slash] := by
      rw [he]
      intro h
      have hlen := congrArg List.length h
      have hpos := List.length_pos_iff.mpr hrest
      simp only [List.length_append, List.length_cons, List.length_nil] at hlen
      omega
    have hend : r'.path.getLast? ≠ some slash := fun h => hr' ⟨h, hroot⟩
    exact fun h => Text.replace_getLast hne hlast hend h.1
  · exact hr'

/-! ## The rows that are there afterwards -/

section Tables
variable {t t' : List FileRow}

theorem noSlash_iff_paths : NoSlash t ↔ ∀ p ∈ t.map (·.path), ¬ Slashed p := by
  simp [NoSlash]

theorem noSlash_of_sublist (h : NoSlash t)
    (hs : (t'.map (·.path)).Sublist (t.map (·.path))) : NoSlash t' :=
  noSlash_iff_paths.mpr fun p hp => noSlash_iff_paths.mp h p (hs.subset hp)

end Tables

section Step
variable {sq : Sqlite} {db : Db} {m : PseudoMsg} {req : Request}

/-- `pdb_link_file` is reached exactly where a row is to be inserted. -/
theorem linked_isSome_iff (hop : m.hdr.op.inserts = true) :
    (linked sq db (request m)).isSome = true ↔ Inserts sq db m := by
  cases hab : aborts (request m) (lookup sq db (request m)) with
  | true =>
    have hno : ¬ Inserts sq db m := by
      rintro ⟨hlive, _⟩
      rw [hab] at hlive
      cases hlive
    simp [linked, hab, hno]
  | false =>
    rw [Op.inserts, Bool.or_eq_true, beq_iff_eq] at hop
    rw [linked_eq hab, Option.isSome_map]
    rcases hop with hlink | hrec
    · have hact : opAction sq (request m) (checked sq db (request m)) =
          opLink (request m) (checked sq db (request m)) := by
        simp [opAction, hlink]
      simp [hact, opLink_link, Inserts, hab, hlink]
    · rw [inserts_iff hrec, opAction, request_hdr_op]
      simp only [hab, true_and]
      cases hop : m.hdr.op <;>
        simp only [hop, Op.records, Op.creates, Bool.false_eq_true] at hrec
      case creat => simp [opCreat]
      case chmod | fchmod => simp [opChmod, opChange_link]
      case chown | fchown => simp [opChown, opChange_link]
      case mkdir | mknod => simp [opMknod]
      case symlink => simp [opLink_link]

/-- The other operations insert no row. -/
theorem linked_inserts (h : (linked sq db (request m)).isSome = true) :
    m.hdr.op.inserts = true := by
  cases hab : aborts (request m) (lookup sq db (request m)) with
  | true => simp [linked, hab] at h
  | false =>
    rw [linked_eq hab, Option.isSome_map, opAction, request_hdr_op] at h
    cases hop : m.hdr.op <;> simp only [hop] at h <;> first | rfl | skip
    case stat | fstat =>
      unfold opStat at h
      split at h <;> cases h
    all_goals simp [opMayUnlink, opRename, opUnlink, opGetXattr, opSetXattr] at h

/-- Marks change no path, and a request that is refused only loses rows. -/
theorem serve_paths (h : aborts (request m) (lookup sq db (request m)) = false) :
    (serve db (sq, m)).files.map (·.path) =
      ((opAction sq (request m) (checked sq db (request m))).run (request m).path).db.files.map
        (·.path) := by
  unfold serve pseudoOp handle
  dsimp only
  rw [if_neg (by simp [h])]
  rcases markUnlinked_files sq (request m) (checked sq db (request m)) with he | ⟨_, _, _, he⟩
  · rw [he]
  · rw [he, update, List.map_map]
    refine List.map_congr_left fun r _ => ?_
    simp only [Function.comp_apply]
    split <;> rfl

theorem serve_aborted_noSlash (hab : aborts (request m) (lookup sq db (request m)) = true)
    (h : NoSlash db.files) : NoSlash (serve db (sq, m)).files := by
  unfold serve pseudoOp handle
  dsimp only
  rw [if_pos hab, checkPath_files]
  exact noSlash_of_sublist h map_path_delete

theorem checked_noSlash (h : NoSlash db.files) : NoSlash (checked sq db (request m)).db.files :=
  noSlash_of_sublist h (checked_files_sublist.map _)

/-- The paths after a message that is no rename: some of those that were there, and that of the
row inserted. -/
theorem serve_noSlash_iff (hop : m.hdr.op ≠ .rename) (h : NoSlash db.files) :
    NoSlash (serve db (sq, m)).files ↔
      ∀ r, linked sq db (request m) = some r → ¬ Slashed r.path := by
  cases hab : aborts (request m) (lookup sq db (request m)) with
  | true =>
    have hnone : linked sq db (request m) = none := by simp [linked, hab]
    rw [hnone]
    refine ⟨fun _ r hr => ?_, fun _ => serve_aborted_noSlash hab h⟩
    cases hr
  | false =>
    have hkeep : NoSlash (opAction sq (request m) (checked sq db (request m))).db.files :=
      noSlash_of_sublist (checked_noSlash h) (opAction_paths (by simpa using hop))
    rw [noSlash_iff_paths, serve_paths hab, ← noSlash_iff_paths, run_files, ← linked_eq hab]
    cases linked sq db (request m) with
    | none => simpa using hkeep
    | some r =>
      constructor
      · intro hall r' hr'
        exact hall r' (by simp [hr'])
      · intro hr r' hr'
        rcases List.mem_append.mp hr' with hold | hnew
        · exact hkeep r' hold
        · exact hr r' (by simpa [eq_comm] using hnew)

theorem serve_rename_noSlash (hop : m.hdr.op = .rename) (hone : OneSlash m)
    (h : NoSlash db.files) : NoSlash (serve db (sq, m)).files := by
  cases hab : aborts (request m) (lookup sq db (request m)) with
  | true => exact serve_aborted_noSlash hab h
  | false =>
    have hact : opAction sq (request m) (checked sq db (request m)) =
        opRename sq (request m) (checked sq db (request m)) := by
      simp [opAction, hop]
    have hrun : ((opRename sq (request m) (checked sq db (request m))).run
        (request m).path).db.files =
          (opRename sq (request m) (checked sq db (request m))).db.files := by
      simp [run_files, opRename]
    rw [noSlash_iff_paths, serve_paths hab, ← noSlash_iff_paths, hact, hrun]
    by_cases hlen : (lookup sq db (request m)).msg.pathlen = 0
    · rw [opRename_files_zero (by rwa [checked_lk])]
      exact checked_noSlash h
    · have hproper := request_proper m
      have hpacked : (request m).hdr.op.isPacked = true := by rw [request_hdr_op, hop]; rfl
      obtain ⟨old, hold⟩ := hproper.packed hpacked (lookup_hdr_pathlen hproper hlen)
      obtain ⟨hne, hlast⟩ := rename_path hop hone (lookup_pathlen hlen)
      rw [opRename_files hold, checked_lk, if_neg hlen]
      refine noSlash_of_sublist (t := (checked sq db (request m)).db.files.map
        (renameRow (cstr old) (request m).path)) ?_ (map_path_update_sublist fun _ => rfl)
      intro r hr
      obtain ⟨r', hr', rfl⟩ := List.mem_map.mp hr
      exact renameRow_noSlash hne hlast (checked_noSlash h r' hr')

/-- The path of a row that is inserted. -/
theorem linked_path {r : FileRow} (h : linked sq db (request m) = some r) :
    r.path = if m.hdr.pathlen = 0 then namelessFile else cstr m.buffer := by
  have hop := linked_inserts (by rw [h]; rfl)
  have hplain : m.hdr.op.isPacked = false := by
    rw [Op.inserts, Bool.or_eq_true, beq_iff_eq] at hop
    rcases hop with hlink | hrec
    · rw [hlink]
      rfl
    · exact isPacked_of_records hrec
  cases hab : aborts (request m) (lookup sq db (request m)) with
  | true => simp [linked, hab] at h
  | false =>
    rw [linked_eq hab, Option.map_eq_some_iff] at h
    obtain ⟨hdr, hlink, rfl⟩ := h
    obtain ⟨hlen, _⟩ := opAction_link_path (request_proper m) hlink
    rw [request_plain hplain] at hlen ⊢
    rw [linkRow, hlen]
    split <;> simp_all

theorem storesSlash_iff : StoresSlash db (sq, m) ↔
    ∃ r, linked sq db (request m) = some r ∧ Slashed r.path := by
  constructor
  · rintro ⟨hop, hlen, hslashed, hins⟩
    obtain ⟨r, hr⟩ := Option.isSome_iff_exists.mp ((linked_isSome_iff hop).mpr hins)
    refine ⟨r, hr, ?_⟩
    rwa [linked_path hr, if_neg hlen]
  · rintro ⟨r, hr, hslashed⟩
    have hsome : (linked sq db (request m)).isSome = true := by rw [hr]; rfl
    have hop := linked_inserts hsome
    rw [linked_path hr] at hslashed
    by_cases hlen : m.hdr.pathlen = 0
    · rw [if_pos hlen] at hslashed
      exact absurd hslashed (by decide)
    · rw [if_neg hlen] at hslashed
      exact ⟨hop, hlen, hslashed, (linked_isSome_iff hop).mp hsome⟩

/-- One message keeps slashes off exactly if it stores none. -/
theorem serve_noSlash {e : Sqlite × PseudoMsg} (hone : e.2.hdr.op = .rename → OneSlash e.2)
    (h : NoSlash db.files) : NoSlash (serve db e).files ↔ ¬ StoresSlash db e := by
  obtain ⟨sq, m⟩ := e
  by_cases hop : m.hdr.op = .rename
  · have hno : ¬ StoresSlash db (sq, m) := by
      rintro ⟨hins, _⟩
      rw [hop] at hins
      cases hins
    exact iff_of_true (serve_rename_noSlash hop (hone hop) h) hno
  · rw [serve_noSlash_iff hop h, storesSlash_iff, not_exists]
    exact forall_congr' fun r => not_and.symm

end Step

/-! ## The answers -/

section Stat
variable {sq : Sqlite} {db : Db} {hdr : MsgHeader} {p : Bytes}

theorem request_statMsg (hp : IsCString p) :
    request (statMsg hdr p) =
      { hdr := { hdr with op := .stat, result := .succeed, pathlen := p.length + 1 },
        msg := { hdr with op := .stat, result := .succeed, pathlen := p.length + 1 }, path := p,
        oldpath := none, oldpathlen := 0, trailingSlash := false } := by
  have hpath : cstr (statMsg hdr p).buffer = p := by
    have hbuf : (statMsg hdr p).buffer = p ++ 0 :: [0] := by
      simp [statMsg, PseudoMsg.plain, PseudoMsg.buffer]
    rw [hbuf, cstr_append_nul hp]
  rw [request_plain rfl, hpath]
  rfl

/-- Without a row at the path, only the row of the inode is found. -/
theorem hits_unknown {req : Request} {files : List FileRow}
    (h : ∀ r ∈ files, r.path ≠ req.path) :
    hits sq files req =
      ⟨false, none, if req.HasInode then select sq.files (atKey req.hdr.key) files else none⟩ := by
  have hexact : exactRow sq files req = none := by
    cases hex : exactRow sq files req with
    | none => rfl
    | some r =>
      obtain ⟨_, _, hr, hp, _⟩ := exactRow_some hex
      exact absurd hp (h r hr)
  have hpath : pathRow sq files req = none := by
    unfold pathRow
    split
    · exact select_eq_none_iff.mpr fun r hr => atPath_eq_false.mpr (h r hr)
    · rfl
  rw [hits, hexact]
  simp only [hpath, inoRow]
  rfl

theorem handle_stat {req : Request} (hop : req.hdr.op = .stat) : (handle sq db req).msg =
    if aborts req (lookup sq db req) then { (lookup sq db req).msg with result := .abort }
    else if (checked sq db req).foundIno ∨ (checked sq db req).foundPath then
      dbHeader (checked sq db req) .stat
    else { (lookup sq db req).msg with result := .fail } := by
  have hact : opAction sq req (checked sq db req) = opStat req (checked sq db req) := by
    unfold opAction
    rw [hop]
  rw [handle_msg, hact, opStat, hop]
  split
  · rfl
  · split <;> rfl

theorem answer_unknown (hp : IsCString p) (h : ∀ r ∈ db.files, r.path ≠ p) :
    answer sq db (statMsg hdr p) = answerByInode sq db hdr := by
  have hreq := @request_statMsg hdr p hp
  have hproper := request_proper (statMsg hdr p)
  have hhits : hits sq db.files (request (statMsg hdr p)) =
      ⟨false, none, inodeRow sq db hdr⟩ := by
    rw [hits_unknown (by rw [hreq]; exact h), hreq]
    rfl
  have hlk := @lookup_hits sq db (request (statMsg hdr p)) hproper
  rw [hhits] at hlk
  have hpath : (checked sq db (request (statMsg hdr p))).foundPath = false := by
    rw [checked_foundPath, hlk]
    rfl
  have hino : (checked sq db (request (statMsg hdr p))).foundIno =
      ((lookup sq db (request (statMsg hdr p))).foundIno &&
        !typeMismatch (lookup sq db (request (statMsg hdr p))).byIno
          (request (statMsg hdr p)).hdr) := by
    rw [checked_foundIno, hreq]
    rfl
  rw [answer, pseudoOp, handle_stat (by rw [hreq]), dbHeader, hpath, hino, checked_lk,
    answerByInode]
  cases hfound : inodeRow sq db hdr with
  | none =>
    rw [hfound] at hhits hlk
    rw [aborts_none hproper (by rw [hhits]), hlk, hreq]
    rfl
  | some r =>
    rw [hfound] at hhits hlk
    have habort := @aborts_iff sq db _ r hproper (by rw [hhits])
    have hr : r ∈ db.files := (hits_ino (by rw [hhits])).1
    have hlive : aborts (request (statMsg hdr p)) (lookup sq db (request (statMsg hdr p))) = true ↔
        r.path ≠ namelessFile ∧ r.deleting = 0 := by
      rw [habort, hreq]
      simp [Request.HasPath, pathMismatch, (h r hr).symm]
    dsimp only
    split
    · next hab =>
      rw [if_pos (hlive.mp hab), hlk, hreq]
      rfl
    · next hab =>
      rw [if_neg (mt hlive.mpr hab), hlk, hreq]
      have htype : ∀ n res, typeMismatch
          ({ hdr with op := .stat, result := res, pathlen := n }.readRow r)
          { hdr with op := .stat, result := res, pathlen := n } =
            typeMismatch (hdr.readRow r) hdr := fun _ _ => rfl
      rw [htype]
      simp only [Hits.lookup, Bool.false_eq_true, if_false, Option.map_some, Option.getD_some,
        Option.isSome_some, Bool.true_and, htype]
      cases typeMismatch (hdr.readRow r) hdr with
      | true => simp
      | false => simp [MsgHeader.readRow]

theorem isCString_slash (hp : IsCString p) : IsCString (p ++ [slash]) := by
  unfold IsCString at hp ⊢
  simp only [List.mem_append, List.mem_singleton, not_or]
  exact ⟨hp, by decide⟩

/-- With the slash no row has the path. -/
theorem ne_slash_of_noSlash (h : NoSlash db.files) (hne : p ≠ []) :
    ∀ r ∈ db.files, r.path ≠ p ++ [slash] := by
  intro r hr he
  refine h r hr ⟨by rw [he]; simp, ?_⟩
  rw [he]
  simpa using hne

theorem answer_aborted (hkey : ∃ r ∈ db.files, r.key = hdr.key) (hdev : hdr.dev ≠ 0)
    (hino : hdr.ino ≠ 0)
    (hlive : ∀ r ∈ db.files, r.key = hdr.key → r.path ≠ namelessFile ∧ r.deleting = 0) :
    (answerByInode sq db hdr).result = .abort := by
  unfold answerByInode inodeRow
  rw [if_pos ⟨hdev, hino⟩]
  cases hs : select sq.files (atKey hdr.key) db.files with
  | none =>
    obtain ⟨r, hr, hk⟩ := hkey
    exact absurd hk (atKey_eq_false.mp (select_eq_none_iff.mp hs r hr))
  | some r =>
    dsimp only
    rw [if_pos (hlive r (mem_of_select hs) (atKey_iff.mp (prop_of_select hs)))]

end Stat

end TrailingSlashLemmas

open TrailingSlashLemmas

/-- From an empty table, no stored path ends in a slash in any state of a run exactly if no
message of the run stores one. -/
theorem noSlash_iff (db : Db) (hempty : db.files = []) (es : List (Sqlite × PseudoMsg))
    (hone : ∀ e ∈ es, e.2.hdr.op = .rename → OneSlash e.2) :
    Run.Guarded serve (fun db e => ¬ StoresSlash db e) db es ↔
      ∀ pre, pre <+: es → NoSlash (Run.run serve db pre).files := by
  refine Run.guarded_iff_of_forall (P := fun db : Db => NoSlash db.files) hone ?_ ?_
  · exact fun db e he h => serve_noSlash he h
  · show NoSlash db.files
    rw [hempty]
    exact List.forall_mem_nil _

/-- A file is created as `/a` and renamed to `/b`, both named with a slash. -/
def exSlashes : List (Sqlite × PseudoMsg) :=
  [(.inOrder, exMsg .creat 1 (ascii ['/', 'a']) 2),
    (.inOrder, exRename 1 (ascii ['/', 'a', '/']) (ascii ['/', 'b', '/']) 2)]

theorem exSlashes_oneSlash : ∀ e ∈ exSlashes, e.2.hdr.op = .rename → OneSlash e.2 := by
  intro e he hop q h
  simp only [exSlashes, List.mem_cons, List.not_mem_nil, or_false] at he
  rcases he with rfl | rfl
  · cases hop
  · have hend := congrArg (fun s => s.reverse.take 2) h
    simp only [List.reverse_append, List.reverse_cons, List.reverse_nil, List.nil_append,
      List.cons_append, List.take_succ_cons, List.take_zero] at hend
    exact absurd hend (by decide)

end Pseudo
