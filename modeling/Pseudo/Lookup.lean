import Pseudo.Library.Run
import Pseudo.Server

/-!
# What the lookups find and the sanity checks leave

The facts about the first half of `pseudo_op` on which every later result rests: which rows the
three lookups stand for, and which rows are still there when the operation itself starts.

Results:
1. `request_proper`: splitting the paths changes no field of the header but the length.
2. `lookup_exact`, `lookup_stale`, `lookup_absent`: the three ways the lookups can end.
3. `checked_files`: the checks remove the rows that are `dropped`, and do nothing else.
4. `checked_no_path`, `checked_no_ino`: a row that is not found after the checks is not there.
5. `opAction_preserves`: what the operations do to the rows, renames apart.
6. `opAction_link_path`: a row is inserted only where none has its path.
-/

namespace Pseudo

open Table

/-! ## The request -/

/-- The header in the buffer is the stashed one up to the length of the path, and exactly that
one unless the buffer holds two strings, of which `oldpath` is the second. -/
structure Request.Proper (req : Request) : Prop where
  msg_eq : req.msg = { req.hdr with pathlen := req.msg.pathlen }
  pathlen_le : req.msg.pathlen ≤ req.hdr.pathlen
  plain : req.hdr.op.isPacked = false → req.msg = req.hdr
  packed : req.hdr.op.isPacked = true → req.hdr.pathlen ≠ 0 → ∃ old, req.oldpath = some old

/-- A message with one path is taken as it is; its last byte is the NUL. -/
theorem request_plain {m : PseudoMsg} (h : m.hdr.op.isPacked = false) :
    request m = { hdr := { m.hdr with result := .succeed },
                  msg := { m.hdr with result := .succeed }, path := cstr m.buffer,
                  oldpath := none, oldpathlen := 0, trailingSlash := false } := by
  have hlast : m.hdr.pathlen ≠ 0 → m.buffer[m.hdr.pathlen - 1]? = some 0 := by
    intro hlen
    have hne : m.path ≠ [] := by
      intro he
      exact hlen (by rw [← m.path_length, he]; rfl)
    have hlt : m.hdr.pathlen - 1 < m.path.length := by rw [m.path_length]; omega
    rw [PseudoMsg.buffer, if_neg hne, List.getElem?_append_left hlt, ← m.path_length,
      ← List.getLast?_eq_getElem?]
    exact m.path_nul hne
  have hslash : ¬ (m.hdr.pathlen ≠ 0 ∧ m.buffer[m.hdr.pathlen - 1]? = some slash) := by
    rintro ⟨hlen, hs⟩
    rw [hlast hlen] at hs
    exact absurd hs (by decide)
  simp only [request, splitPaths, h, Bool.false_eq_true, and_false, if_false]
  rw [if_neg hslash]

theorem splitPaths_hdr (hdr : MsgHeader) (buffer : Bytes) :
    (splitPaths hdr buffer).1 = { hdr with pathlen := (splitPaths hdr buffer).1.pathlen } := by
  unfold splitPaths
  dsimp only
  split
  · split <;> rfl
  · rfl

/-- Only the result and the length of the path differ from the header as received. -/
theorem request_hdr (m : PseudoMsg) : (request m).hdr =
    { m.hdr with result := .succeed, pathlen := (request m).hdr.pathlen } := by
  have h := splitPaths_hdr { m.hdr with result := .succeed } m.buffer
  unfold request
  dsimp only
  split <;> exact h

theorem splitPaths_oldpath {hdr : MsgHeader} {buffer : Bytes} (hp : hdr.op.isPacked = true)
    (h : (splitPaths hdr buffer).1.pathlen ≠ 0) :
    ∃ old, (splitPaths hdr buffer).2.1 = some old := by
  unfold splitPaths at h ⊢
  dsimp only at h ⊢
  split
  · split <;> exact ⟨_, rfl⟩
  · rename_i hcond
    rw [if_neg hcond] at h
    exact absurd ⟨h, hp⟩ hcond

theorem request_proper (m : PseudoMsg) : (request m).Proper := by
  constructor
  · unfold request
    dsimp only
    split <;> rfl
  · unfold request
    dsimp only
    split
    · exact Nat.sub_le _ _
    · exact Nat.le_refl _
  · intro h
    rw [request_hdr] at h
    rw [request_plain h]
  · intro hp hlen
    rw [request_hdr] at hp
    have h : (splitPaths { m.hdr with result := .succeed } m.buffer).1.pathlen ≠ 0 →
        ∃ old, (splitPaths { m.hdr with result := .succeed } m.buffer).2.1 = some old :=
      splitPaths_oldpath hp
    unfold request at hlen ⊢
    dsimp only at hlen ⊢
    split
    · rename_i hcond
      rw [if_pos hcond] at hlen
      exact h hlen
    · rename_i hcond
      rw [if_neg hcond] at hlen
      exact h hlen

section Proper
variable {req : Request}

theorem Request.Proper.key (h : req.Proper) : req.msg.key = req.hdr.key := by
  rw [h.msg_eq]
  rfl

end Proper

@[simp] theorem request_hdr_op (m : PseudoMsg) : (request m).hdr.op = m.hdr.op := by
  rw [request_hdr]

@[simp] theorem request_hdr_key (m : PseudoMsg) : (request m).hdr.key = m.hdr.key := by
  rw [request_hdr]
  rfl

/-! ## The searches -/

/-- The row's values as the search by path puts them into the message. -/
def MsgHeader.takeRow (msg : MsgHeader) (r : FileRow) : MsgHeader :=
  { msg.readRow r with dev := columnInt64 r.dev, ino := r.ino }

/-- Storing a column again stores what was there. -/
@[simp] theorem bindInt_columnInt64 (v : BitVec 32) : bindInt (columnInt64 v) = v := by
  refine BitVec.eq_of_getLsbD_eq fun i hi => ?_
  simp only [bindInt, columnInt64, BitVec.getLsbD_setWidth, BitVec.getLsbD_signExtend, hi,
    decide_true, Bool.true_and, if_true, Bool.and_eq_right_iff_imp, decide_eq_true_eq]
  omega

/-- The merged mode as the column holds it. -/
theorem bindInt_merged (mode : BitVec 64) (row : BitVec 32) :
    bindInt (mergeMode mode (columnInt64 row)) =
      (row &&& ~~~ 0o7777) ||| (bindInt mode &&& 0o7777) := by
  have hor : ∀ a b : BitVec 64, bindInt (a ||| b) = bindInt a ||| bindInt b := by
    intro a b
    exact BitVec.setWidth_or
  have hand : ∀ a b : BitVec 64, bindInt (a &&& b) = bindInt a &&& bindInt b := by
    intro a b
    exact BitVec.setWidth_and
  rw [mergeMode, hor, hand, hand, bindInt_columnInt64, BitVec.or_comm]
  rfl

@[simp] theorem MsgHeader.takeRow_key (msg : MsgHeader) (r : FileRow) :
    (msg.takeRow r).key = r.key := by
  simp [MsgHeader.key, MsgHeader.takeRow, FileRow.key]

@[simp] theorem MsgHeader.readRow_key (msg : MsgHeader) (r : FileRow) :
    (msg.readRow r).key = msg.key := rfl

@[simp] theorem MsgHeader.readRow_pathlen (msg : MsgHeader) (r : FileRow) :
    (msg.readRow r).pathlen = msg.pathlen := rfl

@[simp] theorem MsgHeader.takeRow_pathlen (msg : MsgHeader) (r : FileRow) :
    (msg.takeRow r).pathlen = msg.pathlen := rfl

@[simp] theorem linkRow_key (msg : MsgHeader) (path : Bytes) :
    (linkRow msg path).key = msg.key := by
  simp [linkRow, FileRow.key, MsgHeader.key]

section Search
variable {sq : Sqlite} {db : Db} {msg h : MsgHeader} {path : Bytes}

theorem pdbFindFileExact_some (hs : pdbFindFileExact sq db msg path = some h) :
    ∃ r ∈ db.files, r.path = path ∧ r.key = msg.key ∧ h = msg.readRow r := by
  obtain ⟨r, hr, rfl⟩ := Option.map_eq_some_iff.mp hs
  have hp := prop_of_select hr
  simp only [Bool.and_eq_true, atPath_iff, atKey_iff] at hp
  exact ⟨r, mem_of_select hr, hp.1, hp.2, rfl⟩

theorem pdbFindFileExact_none (hs : pdbFindFileExact sq db msg path = none) {r : FileRow}
    (hr : r ∈ db.files) (hp : r.path = path) : r.key ≠ msg.key := by
  have hno := select_eq_none_iff.mp (Option.map_eq_none_iff.mp hs) r hr
  intro hk
  rw [atPath_iff.mpr hp, atKey_iff.mpr hk] at hno
  exact absurd hno (by simp)

theorem pdbFindFilePath_some (hs : pdbFindFilePath sq db msg path = some h) :
    msg.pathlen ≠ 0 ∧ ∃ r ∈ db.files, r.path = path ∧ h = msg.takeRow r := by
  unfold pdbFindFilePath at hs
  split at hs
  · exact absurd hs (by simp)
  · rename_i hlen
    obtain ⟨r, hr, rfl⟩ := Option.map_eq_some_iff.mp hs
    exact ⟨hlen, r, mem_of_select hr, atPath_iff.mp (prop_of_select hr), rfl⟩

theorem pdbFindFilePath_none (hs : pdbFindFilePath sq db msg path = none)
    (hlen : msg.pathlen ≠ 0) {r : FileRow} (hr : r ∈ db.files) : r.path ≠ path := by
  unfold pdbFindFilePath at hs
  rw [if_neg hlen] at hs
  exact atPath_eq_false.mp (select_eq_none_iff.mp (Option.map_eq_none_iff.mp hs) r hr)

theorem pdbFindFileDev_some {p : Bytes} (hs : pdbFindFileDev sq db msg = some (h, p)) :
    ∃ r ∈ db.files, r.key = msg.key ∧ r.path = p ∧ h = msg.readRow r := by
  obtain ⟨r, hr, he⟩ := Option.map_eq_some_iff.mp hs
  obtain ⟨rfl, rfl⟩ := Prod.mk.inj he
  exact ⟨r, mem_of_select hr, atKey_iff.mp (prop_of_select hr), rfl, rfl⟩

theorem pdbFindFileDev_none (hs : pdbFindFileDev sq db msg = none) {r : FileRow}
    (hr : r ∈ db.files) : r.key ≠ msg.key := by
  exact atKey_eq_false.mp (select_eq_none_iff.mp (Option.map_eq_none_iff.mp hs) r hr)

end Search

/-! ## The three ways the lookups can end -/

/-- The path is in the table, but the row found for it is not one of the message's inode. -/
def Lookup.Stale (lk : Lookup) : Prop := lk.foundPath = true ∧ lk.foundExact = false

instance (lk : Lookup) : Decidable lk.Stale := inferInstanceAs (Decidable (_ ∧ _))

section Lookup
variable {sq : Sqlite} {db : Db} {req : Request}

/-- A row with the path and the inode of the message. -/
theorem lookup_exact (h : (lookup sq db req).foundExact = true) :
    req.msg.pathlen ≠ 0 ∧ ∃ r ∈ db.files, r.path = req.path ∧ r.key = req.msg.key ∧
      lookup sq db req =
        { msg := req.hdr, byPath := req.msg.readRow r, byIno := req.msg.readRow r,
          pathByIno := some req.path, foundPath := true, foundIno := true,
          foundExact := true } := by
  unfold lookup at h ⊢
  cases hex : findExact sq db req with
  | none => simp [hex] at h
  | some found =>
    unfold findExact at hex
    split at hex
    · rename_i hcond
      obtain ⟨r, hr, hp, hk, rfl⟩ := pdbFindFileExact_some hex
      exact ⟨hcond.1, r, hr, hp, hk, rfl⟩
    · exact absurd hex (by simp)

/-- A row with the path of the message, and none with its inode as well. -/
theorem lookup_stale (h : (lookup sq db req).Stale) :
    ∃ r ∈ db.files, r.path = req.path ∧ req.msg.pathlen ≠ 0 ∧
      (req.msg.dev ≠ 0 → req.msg.ino ≠ 0 → r.key ≠ req.msg.key) ∧
      (lookup sq db req).msg = req.msg.takeRow r ∧
      (lookup sq db req).byPath = req.msg.takeRow r := by
  obtain ⟨hfp, hfe⟩ := h
  unfold lookup at hfp hfe ⊢
  cases hex : findExact sq db req with
  | some found => simp [hex] at hfe
  | none =>
    simp only [hex] at hfp
    obtain ⟨found, hfound⟩ := Option.isSome_iff_exists.mp hfp
    obtain ⟨hlen, r, hr, hp, rfl⟩ := pdbFindFilePath_some hfound
    refine ⟨r, hr, hp, hlen, ?_, by simp [hfound], by simp [hfound]⟩
    intro hdev hino
    rw [findExact, if_pos ⟨hlen, hdev, hino⟩] at hex
    exact pdbFindFileExact_none hex hr hp

/-- No row with the path of the message, if it has one. -/
theorem lookup_absent (h : (lookup sq db req).foundPath = false) :
    (req.msg.pathlen ≠ 0 → ∀ r ∈ db.files, r.path ≠ req.path) ∧
      (lookup sq db req).msg = req.msg ∧ (lookup sq db req).foundExact = false := by
  unfold lookup at h ⊢
  cases hex : findExact sq db req with
  | some found => simp [hex] at h
  | none =>
    simp only [hex, Option.isSome_eq_false_iff, Option.isNone_iff_eq_none] at h
    exact ⟨fun hlen r hr => pdbFindFilePath_none h hlen hr, by simp [h], by simp⟩

theorem lookup_cases (sq : Sqlite) (db : Db) (req : Request) :
    (lookup sq db req).foundExact = true ∨ (lookup sq db req).Stale ∨
      (lookup sq db req).foundPath = false := by
  unfold Lookup.Stale
  cases (lookup sq db req).foundExact <;> cases (lookup sq db req).foundPath <;> simp

/-- The row found for the inode, whose path is `path_by_ino`. -/
theorem lookup_ino (hreq : req.Proper) (h : (lookup sq db req).foundIno = true) :
    ∃ r ∈ db.files, r.key = req.hdr.key ∧ (lookup sq db req).pathByIno = some r.path ∧
      ∃ msg : MsgHeader, (msg = req.msg ∨ msg = req.hdr) ∧
        (lookup sq db req).byIno = msg.readRow r := by
  by_cases hex : (lookup sq db req).foundExact = true
  · obtain ⟨_, r, hr, hp, hk, he⟩ := lookup_exact hex
    rw [he]
    exact ⟨r, hr, hk.trans hreq.key, by rw [hp], req.msg, Or.inl rfl, rfl⟩
  · unfold lookup at h hex ⊢
    cases hexact : findExact sq db req with
    | some found => simp [hexact] at hex
    | none =>
      simp only [hexact] at h ⊢
      obtain ⟨⟨found, p⟩, hfound⟩ := Option.isSome_iff_exists.mp h
      have hdev := hfound
      unfold findIno at hdev
      split at hdev
      · obtain ⟨r, hr, hk, rfl, rfl⟩ := pdbFindFileDev_some hdev
        exact ⟨r, hr, hk, by simp [hfound], req.hdr, Or.inr rfl, by simp [hfound]⟩
      · exact absurd hdev (by simp)

/-- `path_by_ino` is set whenever a row is found for the inode, so `pdb_update_file_path` is
never reached. -/
theorem lookup_pathByIno (h : (lookup sq db req).foundIno = true) :
    ∃ p, (lookup sq db req).pathByIno = some p := by
  unfold lookup at h ⊢
  cases hexact : findExact sq db req with
  | some found => exact ⟨_, rfl⟩
  | none =>
    simp only [hexact] at h ⊢
    obtain ⟨found, hfound⟩ := Option.isSome_iff_exists.mp h
    exact ⟨found.2, by simp [hfound]⟩

/-- Unless the row found by path hides it, an inode that is not found is not there. -/
theorem lookup_no_ino (hdev : req.msg.dev ≠ 0) (hino : req.msg.ino ≠ 0)
    (hst : ¬ (lookup sq db req).Stale) (h : (lookup sq db req).foundIno = false) :
    ∀ r ∈ db.files, r.key ≠ req.hdr.key := by
  intro r hr
  rcases lookup_cases sq db req with hex | hs | hab
  · obtain ⟨_, _, _, _, _, he⟩ := lookup_exact hex
    rw [he] at h
    exact absurd h (by simp)
  · exact absurd hs hst
  · obtain ⟨_, hmsg, _⟩ := lookup_absent hab
    unfold lookup at h hmsg
    cases hexact : findExact sq db req with
    | some found => simp [hexact] at h
    | none =>
      simp only [hexact] at h hmsg
      rw [hmsg] at h
      unfold findIno at h
      rw [if_pos ⟨hdev, hino⟩, Option.isSome_eq_false_iff, Option.isNone_iff_eq_none] at h
      exact pdbFindFileDev_none h hr

end Lookup

/-! ## What the checks leave -/

/-- The check by path drops the row: it was marked, or the types disagree. -/
def droppedByPath (req : Request) (lk : Lookup) (r : FileRow) : Bool :=
  lk.foundPath && req.hdr.op != .didUnlink && atPath req.path r &&
    (expectedGone req lk && r.deleting == lk.byPath.deleting ||
      typeMismatch lk.byPath req.hdr && lk.msg.pathlen != 0)

/-- The check by inode drops the row, by the inode that is in the buffer. -/
def droppedByIno (req : Request) (lk : Lookup) (r : FileRow) : Bool :=
  lk.foundIno && req.hdr.op != .didUnlink && typeMismatch lk.byIno req.hdr && atKey lk.msg.key r

/-- One of the two sanity checks drops the row. -/
def dropped (req : Request) (lk : Lookup) (r : FileRow) : Bool :=
  droppedByPath req lk r || droppedByIno req lk r

section Checks
variable {sq : Sqlite} {db db' : Db} {req : Request} {lk : Lookup} {r : FileRow}

theorem clearMarked_files : (clearMarked db req lk).files =
    delete (fun r => expectedGone req lk && (atPath req.path r && r.deleting == lk.byPath.deleting))
      db.files := by
  unfold clearMarked
  cases expectedGone req lk with
  | true => simp
  | false => simp [delete]

theorem checkPath_files : (checkPath db req lk).1.files =
    delete (droppedByPath req lk) db.files := by
  unfold checkPath
  by_cases h : lk.foundPath ∧ req.hdr.op ≠ .didUnlink
  · have hfp : lk.foundPath = true := h.1
    have hop : (req.hdr.op != .didUnlink) = true := by simpa using h.2
    rw [if_pos h]
    dsimp only
    split
    · rename_i hmm
      rw [pdbUnlinkFile_files, clearMarked_files]
      split
      · rename_i hlen
        refine List.filter_congr fun r _ => ?_
        simp only [droppedByPath, hfp, hop, hmm, hlen]
        cases atPath req.path r <;> simp
      · rename_i hlen
        rw [delete, delete, List.filter_filter]
        refine List.filter_congr fun r _ => ?_
        simp only [droppedByPath, hfp, hop, hmm, bne_iff_ne.mpr hlen]
        cases atPath req.path r <;> simp
    · rename_i hmm
      rw [clearMarked_files]
      refine List.filter_congr fun r _ => ?_
      simp only [droppedByPath, hfp, hop, hmm]
      cases atPath req.path r <;> simp
  · rw [if_neg h, delete_eq_self]
    intro r _
    simp only [ne_eq, not_and, not_not] at h
    cases hfp : lk.foundPath with
    | false => simp [droppedByPath, hfp]
    | true => simp [droppedByPath, h hfp]

/-- With `path_by_ino` set, the checks by inode either drop the rows of the buffer's inode or
leave the table as it is. -/
theorem checkIno_some {p : Bytes} (hp : lk.pathByIno = some p) : checkIno db req lk =
    if lk.foundIno ∧ req.hdr.op ≠ .didUnlink then
      if typeMismatch lk.byIno req.hdr then (pdbUnlinkFileDev db lk.msg, false) else (db, true)
    else (db, lk.foundIno) := by
  simp only [checkIno, hp]

theorem checkIno_absent (hfi : lk.foundIno = false) : checkIno db req lk = (db, false) := by
  unfold checkIno
  simp [hfi]

theorem checkIno_files : (checkIno db req (lookup sq db' req)).1.files =
    delete (droppedByIno req (lookup sq db' req)) db.files := by
  cases hfi : (lookup sq db' req).foundIno with
  | false =>
    rw [delete_eq_self fun r _ => by simp [droppedByIno, hfi]]
    simp [checkIno, hfi]
  | true =>
    obtain ⟨p, hp⟩ := lookup_pathByIno hfi
    rw [checkIno_some hp]
    by_cases hop : req.hdr.op = .didUnlink
    · rw [delete_eq_self fun r _ => by simp [droppedByIno, hop]]
      simp [hop]
    · rw [if_pos ⟨hfi, hop⟩]
      cases hmm : typeMismatch (lookup sq db' req).byIno req.hdr with
      | false =>
        rw [delete_eq_self fun r _ => by simp [droppedByIno, hmm]]
        simp
      | true =>
        rw [if_pos rfl, pdbUnlinkFileDev_files]
        refine List.filter_congr fun r _ => ?_
        simp [droppedByIno, hfi, hop, hmm]

@[simp] theorem checked_lk : (checked sq db req).lk = lookup sq db req := rfl

/-- Checks that leave the tables alone. -/
theorem checked_of_checks {foundPath foundIno : Bool}
    (hpath : checkPath db req (lookup sq db req) = (db, foundPath))
    (hino : checkIno db req (lookup sq db req) = (db, foundIno)) :
    checked sq db req = ⟨lookup sq db req, db, foundPath, foundIno⟩ := by
  unfold checked
  simp only [hpath, hino]

/-- The table that the operation itself starts from. -/
theorem checked_files : (checked sq db req).db.files =
    delete (dropped req (lookup sq db req)) db.files := by
  unfold checked
  dsimp only
  rw [checkIno_files, checkPath_files, delete, delete, List.filter_filter]
  refine List.filter_congr fun r _ => ?_
  simp [dropped, Bool.and_comm]

/-- The checks only remove rows. -/
theorem checked_files_sublist : (checked sq db req).db.files.Sublist db.files := by
  rw [checked_files]
  exact List.filter_sublist

theorem mem_of_mem_checked (h : r ∈ (checked sq db req).db.files) : r ∈ db.files :=
  checked_files_sublist.subset h

theorem dropped_eq_false (hp : r.path ≠ req.path) (hk : r.key ≠ lk.msg.key) :
    dropped req lk r = false := by
  simp [dropped, droppedByPath, droppedByIno, atPath_eq_false.mpr hp, atKey_eq_false.mpr hk]

/-- A row with another path and another inode than the buffer's stays. -/
theorem mem_checked (h : r ∈ db.files) (hp : r.path ≠ req.path)
    (hk : r.key ≠ (lookup sq db req).msg.key) : r ∈ (checked sq db req).db.files := by
  rw [checked_files]
  exact mem_delete.mpr ⟨h, dropped_eq_false hp hk⟩

theorem checked_foundPath : (checked sq db req).foundPath =
    ((lookup sq db req).foundPath && (req.hdr.op == .didUnlink ||
      !typeMismatch (lookup sq db req).byPath req.hdr)) := by
  unfold checked checkPath
  dsimp only
  by_cases hop : req.hdr.op = .didUnlink
  · simp [hop]
  · cases hfp : (lookup sq db req).foundPath with
    | false => simp
    | true =>
      cases typeMismatch (lookup sq db req).byPath req.hdr <;> simp [hop]

theorem checked_foundIno : (checked sq db req).foundIno =
    ((lookup sq db req).foundIno && (req.hdr.op == .didUnlink ||
      !typeMismatch (lookup sq db req).byIno req.hdr)) := by
  unfold checked
  dsimp only
  cases hfi : (lookup sq db req).foundIno with
  | false => simp [checkIno_absent hfi]
  | true =>
    obtain ⟨p, hp⟩ := lookup_pathByIno hfi
    rw [checkIno_some hp]
    by_cases hop : req.hdr.op = .didUnlink
    · simp [hop, hfi]
    · cases typeMismatch (lookup sq db req).byIno req.hdr <;> simp [hop, hfi]

end Checks

section Checked
variable {sq : Sqlite} {db : Db} {req : Request}

/-- A message with one path keeps its length through the lookups. -/
theorem lookup_msg_pathlen (hreq : req.msg = req.hdr) :
    (lookup sq db req).msg.pathlen = req.hdr.pathlen := by
  rcases lookup_cases sq db req with hex | hs | hab
  · obtain ⟨_, _, _, _, _, he⟩ := lookup_exact hex
    rw [he]
  · obtain ⟨_, _, _, _, _, he, _⟩ := lookup_stale hs
    rw [he, MsgHeader.takeRow_pathlen, hreq]
  · rw [(lookup_absent hab).2.1, hreq]

theorem lookup_pathlen (h : (lookup sq db req).msg.pathlen ≠ 0) : req.msg.pathlen ≠ 0 := by
  rcases lookup_cases sq db req with hex | hs | hab
  · exact (lookup_exact hex).1
  · obtain ⟨_, _, _, hlen, _⟩ := lookup_stale hs
    exact hlen
  · rwa [(lookup_absent hab).2.1] at h

theorem lookup_hdr_pathlen (hreq : req.Proper) (h : (lookup sq db req).msg.pathlen ≠ 0) :
    req.hdr.pathlen ≠ 0 := by
  have hlen := lookup_pathlen h
  have hle := hreq.pathlen_le
  omega

theorem lookup_byIno_pathlen (hreq : req.Proper) (hmsg : req.msg = req.hdr)
    (h : (lookup sq db req).foundIno = true) :
    (lookup sq db req).byIno.pathlen = req.hdr.pathlen := by
  obtain ⟨r, _, _, _, msg, hm, he⟩ := lookup_ino hreq h
  rw [he, MsgHeader.readRow_pathlen]
  rcases hm with rfl | rfl
  · rw [hmsg]
  · rfl

theorem lookup_byIno_key (hreq : req.Proper) (h : (lookup sq db req).foundIno = true) :
    (lookup sq db req).byIno.key = req.hdr.key := by
  obtain ⟨r, _, _, _, msg, hm, he⟩ := lookup_ino hreq h
  rw [he, MsgHeader.readRow_key]
  rcases hm with rfl | rfl
  · exact hreq.key
  · rfl

/-- The inode in the buffer is the message's or that of a row with its path. -/
theorem lookup_msg_key (hreq : req.Proper) : (lookup sq db req).msg.key = req.hdr.key ∨
    req.msg.pathlen ≠ 0 ∧
      ∃ r ∈ db.files, r.path = req.path ∧ (lookup sq db req).msg.key = r.key := by
  rcases lookup_cases sq db req with hex | hs | hab
  · obtain ⟨_, _, _, _, _, he⟩ := lookup_exact hex
    rw [he]
    exact Or.inl rfl
  · obtain ⟨r, hr, hp, hlen, _, he, _⟩ := lookup_stale hs
    exact Or.inr ⟨hlen, r, hr, hp, by rw [he, MsgHeader.takeRow_key]⟩
  · rw [(lookup_absent hab).2.1]
    exact Or.inl hreq.key

theorem lookup_byPath_key (hreq : req.Proper) (h : (lookup sq db req).foundPath = true) :
    req.msg.pathlen ≠ 0 ∧ (lookup sq db req).byPath.key = (lookup sq db req).msg.key := by
  rcases lookup_cases sq db req with hex | hs | hab
  · obtain ⟨hlen, _, _, _, _, he⟩ := lookup_exact hex
    rw [he]
    exact ⟨hlen, hreq.key⟩
  · obtain ⟨r, _, _, hlen, _, he, hp⟩ := lookup_stale hs
    exact ⟨hlen, by rw [he, hp]⟩
  · rw [hab] at h
    exact absurd h (by simp)

theorem lookup_msg_client (hreq : req.Proper) :
    (lookup sq db req).msg.client = req.hdr.client := by
  have hmsg : req.msg.client = req.hdr.client := by rw [hreq.msg_eq]
  rcases lookup_cases sq db req with hex | hs | hab
  · obtain ⟨_, _, _, _, _, he⟩ := lookup_exact hex
    rw [he]
  · obtain ⟨_, _, _, _, _, he, _⟩ := lookup_stale hs
    rw [he]
    exact hmsg
  · rw [(lookup_absent hab).2.1, hmsg]

/-- Unless the row found by path is a stale one, the header in the buffer is the message's. -/
theorem lookup_msg (hreq : req.msg = req.hdr) (hst : ¬ (lookup sq db req).Stale) :
    (lookup sq db req).msg = req.hdr := by
  rcases lookup_cases sq db req with hex | hs | hab
  · obtain ⟨_, _, _, _, _, he⟩ := lookup_exact hex
    rw [he]
  · exact absurd hs hst
  · rw [(lookup_absent hab).2.1, hreq]

/-- On an exact match the two checks agree. -/
theorem checked_exact (h : (lookup sq db req).foundExact = true) :
    (checked sq db req).foundPath = (checked sq db req).foundIno := by
  obtain ⟨_, r, _, _, _, he⟩ := lookup_exact h
  rw [checked_foundPath, checked_foundIno, he]

/-- When the path is not found after the checks, no row has it. -/
theorem checked_no_path (hreq : req.msg = req.hdr) (hop : req.hdr.op ≠ .didUnlink)
    (hlen : req.hdr.pathlen ≠ 0) (h : (checked sq db req).foundPath = false) :
    ∀ r ∈ (checked sq db req).db.files, r.path ≠ req.path := by
  intro r hr hp
  cases hfp : (lookup sq db req).foundPath with
  | false => exact (lookup_absent hfp).1 (by rwa [hreq]) r (mem_of_mem_checked hr) hp
  | true =>
    rw [checked_foundPath, hfp] at h
    rw [checked_files, mem_delete] at hr
    have hdrop : droppedByPath req (lookup sq db req) r = true := by
      simp_all [droppedByPath, lookup_msg_pathlen hreq]
    simp [dropped, hdrop] at hr

/-- A row found by inode and rejected takes the rows of the buffer's inode with it. -/
theorem checked_drop_ino (hop : req.hdr.op ≠ .didUnlink)
    (hfi : (lookup sq db req).foundIno = true) (h : (checked sq db req).foundIno = false) :
    ∀ r ∈ (checked sq db req).db.files, r.key ≠ (lookup sq db req).msg.key := by
  intro r hr hk
  rw [checked_foundIno, hfi] at h
  rw [checked_files, mem_delete] at hr
  have hdrop : droppedByIno req (lookup sq db req) r = true := by
    simp_all [droppedByIno]
  simp [dropped, hdrop] at hr

/-- When the inode is not found after the checks and the path lookup hit no stale row, no row
has it. -/
theorem checked_no_ino (hreq : req.msg = req.hdr) (hop : req.hdr.op ≠ .didUnlink)
    (hdev : req.hdr.dev ≠ 0) (hino : req.hdr.ino ≠ 0) (hst : ¬ (lookup sq db req).Stale)
    (h : (checked sq db req).foundIno = false) :
    ∀ r ∈ (checked sq db req).db.files, r.key ≠ req.hdr.key := by
  intro r hr
  cases hfi : (lookup sq db req).foundIno with
  | false =>
    exact lookup_no_ino (hreq ▸ hdev) (hreq ▸ hino) hst hfi r (mem_of_mem_checked hr)
  | true =>
    rw [← lookup_msg hreq hst]
    exact checked_drop_ino hop hfi h r hr

end Checked

/-! ## The table of files after the operation -/

section Actions
variable {sq : Sqlite} {req : Request} {c : Checked}

theorem opCreat_files : (opCreat c).db.files =
    if c.foundIno ∧ ¬ c.lk.foundExact then delete (atKey c.lk.byIno.key) c.db.files
    else c.db.files := by
  unfold opCreat
  dsimp only
  split <;> rfl

theorem opChange_files {merge : MsgHeader → MsgHeader} {new : MsgHeader} :
    (opChange merge new c).db.files =
      if c.foundIno then
        update (atKey (merge c.lk.byIno).key) (fun r => r.setMeta (merge c.lk.byIno)) c.db.files
      else if c.foundPath then
        update (atKey (merge c.lk.byPath).key) (fun r => r.setMeta (merge c.lk.byPath)) c.db.files
      else c.db.files := by
  unfold opChange
  split
  · rfl
  · split <;> rfl

theorem opChange_link {merge : MsgHeader → MsgHeader} {new : MsgHeader} :
    (opChange merge new c).link = if c.foundPath ∨ c.foundIno then none else some new := by
  unfold opChange
  cases c.foundPath <;> cases c.foundIno <;> rfl

theorem opLink_files : (opLink req c).db.files =
    if c.foundPath ∧ c.lk.msg.pathlen ≠ 0 then delete (atPath req.path) c.db.files
    else c.db.files := by
  unfold opLink
  cases c.foundPath <;> simp [pdbUnlinkFile_files]

theorem opLink_link : (opLink req c).link =
    some (if c.foundIno then if req.hdr.op = .symlink then c.lk.msg else c.lk.byIno
      else req.hdr) := rfl

theorem opMknod_files : (opMknod req c).db.files =
    if c.foundIno then delete (atKey c.lk.byIno.key) (opLink req c).db.files
    else (opLink req c).db.files := by
  unfold opMknod opLink
  dsimp only
  split <;> rfl

theorem opUnlink_files : (opUnlink req c).db.files =
    let t := if c.lk.msg.pathlen = 0 then c.db.files
      else delete (below req.path) (delete (atPath req.path) c.db.files)
    if req.hdr.nlink = 1 ∧ c.foundIno then delete (atKey c.lk.msg.key) t else t := by
  unfold opUnlink
  dsimp only
  by_cases hlen : c.lk.msg.pathlen = 0 <;> split <;>
    simp [hlen, pdbUnlinkContents_files, pdbUnlinkFile_files]

theorem opSetXattr_files {flags : XattrFlags} :
    (opSetXattr sq flags req c).db.files = c.db.files := by
  unfold opSetXattr
  exact pdbSetXattr_files ..

theorem opMayUnlink_files : (opMayUnlink req c).db.files =
    if c.lk.msg.pathlen = 0 then c.db.files
    else update (atPath req.path) (fun r => { r with deleting := c.lk.msg.client }) c.db.files := by
  unfold opMayUnlink
  exact pdbMayUnlinkFile_files ..

/-- The rows that an operation other than a rename may change or remove: those of the path, of
the inode in the buffer or of an inode that was found, and for `OP_UNLINK` those below the
path. -/
def Concerns (req : Request) (c : Checked) (r : FileRow) : Prop :=
  (c.lk.msg.pathlen ≠ 0 ∨ req.hdr.op = .didUnlink) ∧ r.path = req.path ∨
    r.key = c.lk.msg.key ∨ c.foundIno = true ∧ r.key = c.lk.byIno.key ∨
    c.foundPath = true ∧ r.key = c.lk.byPath.key ∨
    req.hdr.op = .unlink ∧ c.lk.msg.pathlen ≠ 0 ∧ below req.path r = true

/-- Apart from renames, an operation changes the rows it starts from by deleting some, by giving
those of an inode new attributes and by marking those of its path, and only such as concern it:
what each of these preserves, the operation preserves. -/
theorem opAction_preserves {Q : List FileRow → Prop}
    (hdelete : ∀ p t, (∀ r, p r = true → Concerns req c r) → Q t → Q (delete p t))
    (hmeta : ∀ msg t, (∀ r : FileRow, r.key = msg.key → Concerns req c r) → Q t →
      Q (update (atKey msg.key) (fun r => r.setMeta msg) t))
    (hmark : ∀ d t, c.lk.msg.pathlen ≠ 0 →
      req.hdr.op = .mayUnlink ∧ d = c.lk.msg.client ∨ req.hdr.op = .cancelUnlink ∧ d = 0 → Q t →
      Q (update (atPath req.path) (fun r => { r with deleting := d }) t))
    (hop : req.hdr.op ≠ .rename) (h : Q c.db.files) : Q (opAction sq req c).db.files := by
  have hpath : c.lk.msg.pathlen ≠ 0 ∨ req.hdr.op = .didUnlink →
      ∀ r, atPath req.path r = true → Concerns req c r :=
    fun hlen r hr => Or.inl ⟨hlen, atPath_iff.mp hr⟩
  have hbyIno : c.foundIno = true → ∀ r : FileRow, r.key = c.lk.byIno.key → Concerns req c r :=
    fun hfi r hr => Or.inr (Or.inr (Or.inl ⟨hfi, hr⟩))
  have hlink : Q (opLink req c).db.files := by
    rw [opLink_files]
    split
    · rename_i hcond
      exact hdelete _ _ (hpath (Or.inl hcond.2)) h
    · exact h
  have hchange : ∀ merge new, (∀ h : MsgHeader, (merge h).key = h.key) →
      Q (opChange merge new c).db.files := by
    intro merge new hkey
    rw [opChange_files]
    split
    · rename_i hfi
      exact hmeta _ _ (fun r hr => hbyIno hfi r (hr.trans (hkey _))) h
    · split
      · rename_i hfp
        refine hmeta _ _ (fun r hr => ?_) h
        exact Or.inr (Or.inr (Or.inr (Or.inl ⟨hfp, hr.trans (hkey _)⟩)))
      · exact h
  unfold opAction
  cases hop' : req.hdr.op
  case rename => exact absurd hop' hop
  case creat =>
    rw [opCreat_files]
    split
    · rename_i hcond
      exact hdelete _ _ (fun r hr => hbyIno hcond.1 r (atKey_iff.mp hr)) h
    · exact h
  case chmod | fchmod => exact hchange _ _ fun _ => rfl
  case chown | fchown => exact hchange _ _ fun _ => rfl
  case stat | fstat =>
    simp only [opStat]
    split <;> exact h
  case link | symlink => exact hlink
  case mkdir | mknod =>
    simp only [opMknod_files]
    split
    · rename_i hfi
      exact hdelete _ _ (fun r hr => hbyIno hfi r (atKey_iff.mp hr)) hlink
    · exact hlink
  case mayUnlink =>
    simp only [opMayUnlink_files]
    split
    · exact h
    · rename_i hlen
      exact hmark _ _ hlen (Or.inl ⟨hop', rfl⟩) h
  case didUnlink =>
    simp only [pdbDidUnlinkFile_files]
    refine hdelete _ _ (fun r hr => hpath (Or.inr hop') r ?_) h
    exact (Bool.and_eq_true_iff.mp hr).1
  case cancelUnlink =>
    simp only [pdbCancelUnlinkFile_files]
    split
    · exact h
    · rename_i hlen
      exact hmark _ _ hlen (Or.inr ⟨hop', rfl⟩) h
  case unlink =>
    have hunlinked : Q (if c.lk.msg.pathlen = 0 then c.db.files
        else delete (below req.path) (delete (atPath req.path) c.db.files)) := by
      split
      · exact h
      · rename_i hlen
        refine hdelete _ _ (fun r hr => ?_) (hdelete _ _ (hpath (Or.inl hlen)) h)
        exact Or.inr (Or.inr (Or.inr (Or.inr ⟨hop', hlen, hr⟩)))
    simp only [opUnlink_files]
    split
    · exact hdelete _ _ (fun r hr => Or.inr (Or.inl (atKey_iff.mp hr))) hunlinked
    · exact hunlinked
  case setXattr | createXattr | replaceXattr => rwa [opSetXattr_files]
  all_goals exact h

/-- The final `pdb_link_file` appends its row. -/
theorem run_files {a : Action} {path : Bytes} : (a.run path).db.files =
    a.db.files ++ (a.link.map fun h => linkRow h path).toList := by
  unfold Action.run
  cases a.link <;> simp

@[simp] theorem run_msg {a : Action} {path : Bytes} : (a.run path).msg = a.msg := by
  unfold Action.run
  cases a.link <;> rfl

theorem run_xattrs {a : Action} {path : Bytes} : (a.run path).db.xattrs = a.db.xattrs := by
  unfold Action.run
  cases a.link <;> rfl

/-- `OP_FCHOWN`, `OP_FCHMOD` and `OP_FSTAT`. -/
def Op.onDescriptor : Op → Bool
  | .fchown | .fchmod | .fstat => true
  | _ => false

/-- Marking an unlinked descriptor touches the column `deleting` only, and only when the path
was not found. -/
theorem markUnlinked_files (sq : Sqlite) (req : Request) (c : Checked) :
    (markUnlinked req c ((opAction sq req c).run req.path)).db.files =
        ((opAction sq req c).run req.path).db.files ∨
      req.hdr.op.onDescriptor = true ∧ c.foundPath = false ∧ c.lk.msg.pathlen ≠ 0 ∧
        (markUnlinked req c ((opAction sq req c).run req.path)).db.files =
          update (atPath req.path) (fun r => { r with deleting := c.lk.msg.client })
            ((opAction sq req c).run req.path).db.files := by
  have hmsg : ((opAction sq req c).run req.path).msg = (opAction sq req c).msg := run_msg
  generalize (opAction sq req c).run req.path = out at hmsg ⊢
  have hmark : ∀ out' : Outcome, out' =
      (if ¬ c.foundPath ∧ ¬ c.foundIno ∧ out.msg.nlink = 0 then
        { out with db := (pdbMayUnlinkFile out.db out.msg req.path out.msg.client).1 } else out) →
      (¬ c.foundPath → ¬ c.foundIno →
        out.msg.pathlen = c.lk.msg.pathlen ∧ out.msg.client = c.lk.msg.client) →
      req.hdr.op.onDescriptor = true →
      out'.db.files = out.db.files ∨ req.hdr.op.onDescriptor = true ∧ c.foundPath = false ∧
        c.lk.msg.pathlen ≠ 0 ∧ out'.db.files =
          update (atPath req.path) (fun r => { r with deleting := c.lk.msg.client })
            out.db.files := by
    rintro out' rfl hmsg hop
    split
    · rename_i h
      obtain ⟨hlen, hclient⟩ := hmsg h.1 h.2.1
      rw [pdbMayUnlinkFile_files, hlen, hclient]
      split
      · exact Or.inl rfl
      · rename_i hne
        exact Or.inr ⟨hop, by simpa using h.1, hne, rfl⟩
    · exact Or.inl rfl
  unfold markUnlinked
  split
  · rename_i hop
    refine hmark _ rfl (fun hp hi => ?_) (by rw [hop]; rfl)
    simp [hmsg, opAction, hop, opChown, opChange, hp, hi, setOwner]
  · rename_i hop
    refine hmark _ rfl (fun hp hi => ?_) (by rw [hop]; rfl)
    simp [hmsg, opAction, hop, opChmod, opChange, hp, hi]
  · rename_i hop
    refine hmark _ rfl (fun hp hi => ?_) (by rw [hop]; rfl)
    simp [hmsg, opAction, hop, opStat, hp, hi]
  · exact Or.inl rfl

/-- The answer and the attributes are the operation's in any case. -/
theorem markUnlinked_rest {req : Request} {c : Checked} {out : Outcome} :
    (markUnlinked req c out).msg = out.msg ∧
      (markUnlinked req c out).db.xattrs = out.db.xattrs := by
  unfold markUnlinked
  split
  case h_4 => exact ⟨rfl, rfl⟩
  all_goals
    split
    · refine ⟨rfl, ?_⟩
      simp only [pdbMayUnlinkFile]
      split <;> rfl
    · exact ⟨rfl, rfl⟩

/-- Away from descriptors, a request that is not refused is carried out by its operation. -/
theorem handle_acts {sq : Sqlite} {db : Db} {req : Request} (hop : req.hdr.op.onDescriptor = false)
    (hlive : aborts req (lookup sq db req) = false) :
    handle sq db req = (opAction sq req (checked sq db req)).run req.path := by
  have hmark : ∀ out, markUnlinked req (checked sq db req) out = out := by
    intro out
    unfold markUnlinked
    split
    case h_4 => rfl
    all_goals
      rename_i h
      rw [h] at hop
      cases hop
  unfold handle
  dsimp only
  rw [if_neg (by rw [hlive]; simp), hmark]

/-- What is kept by a refusal, by the operation with its row, and by the mark of a descriptor
whose file is gone, is kept. -/
theorem handle_preserves {sq : Sqlite} {db : Db} {req : Request} {Q : List FileRow → Prop}
    (hrefused : aborts req (lookup sq db req) = true →
      Q (delete (droppedByPath req (lookup sq db req)) db.files))
    (hrun : aborts req (lookup sq db req) = false →
      Q ((opAction sq req (checked sq db req)).run req.path).db.files)
    (hmark : ∀ t, t = ((opAction sq req (checked sq db req)).run req.path).db.files →
      aborts req (lookup sq db req) = false → req.hdr.op.onDescriptor = true →
      (checked sq db req).foundPath = false → (lookup sq db req).msg.pathlen ≠ 0 → Q t →
      Q (update (atPath req.path)
        (fun r => { r with deleting := (lookup sq db req).msg.client }) t)) :
    Q (handle sq db req).db.files := by
  unfold handle
  dsimp only
  cases hab : aborts req (lookup sq db req) with
  | true =>
    rw [if_pos rfl, checkPath_files]
    exact hrefused hab
  | false =>
    rw [if_neg (by simp)]
    rcases markUnlinked_files sq req (checked sq db req) with he | ⟨hop, hpath, hlen, he⟩
    · rw [he]
      exact hrun hab
    · rw [he]
      exact hmark _ rfl hab hop hpath hlen (hrun hab)

theorem handle_msg (sq : Sqlite) (db : Db) (req : Request) :
    (handle sq db req).msg =
      if aborts req (lookup sq db req) then { (lookup sq db req).msg with result := .abort }
      else (opAction sq req (checked sq db req)).msg := by
  unfold handle
  dsimp only
  split
  · rfl
  · rw [markUnlinked_rest.1, run_msg]

theorem handle_xattrs (sq : Sqlite) (db : Db) (req : Request) :
    (handle sq db req).db.xattrs =
      if aborts req (lookup sq db req) then (checkPath db req (lookup sq db req)).1.xattrs
      else (opAction sq req (checked sq db req)).db.xattrs := by
  unfold handle
  dsimp only
  split
  · rfl
  · rw [markUnlinked_rest.2, run_xattrs]

end Actions

/-! ## The row that an operation inserts -/

/-- No row has the path of the message, if it has one. -/
def Vacant (req : Request) (t : List FileRow) : Prop :=
  req.hdr.pathlen ≠ 0 → ∀ r ∈ t, r.path ≠ req.path

section Vacant
variable {sq : Sqlite} {db : Db} {req : Request} {h : MsgHeader}

theorem vacant_delete {p : FileRow → Bool} {t : List FileRow} (hv : Vacant req t) :
    Vacant req (delete p t) :=
  fun hlen r hr => hv hlen r (delete_subset hr)

theorem checked_vacant (hmsg : req.msg = req.hdr) (hop : req.hdr.op ≠ .didUnlink)
    (hfp : (checked sq db req).foundPath = false) : Vacant req (checked sq db req).db.files :=
  fun hlen => checked_no_path hmsg hop hlen hfp

theorem vacant_update {p : FileRow → Bool} {f : FileRow → FileRow} {t : List FileRow}
    (hv : Vacant req t) (hf : ∀ r, (f r).path = r.path) : Vacant req (update p f t) := by
  intro hlen r hr
  obtain ⟨s, hs, rfl⟩ := mem_update.mp hr
  by_cases hp : p s = true
  · rw [if_pos hp, hf]
    exact hv hlen s hs
  · rw [if_neg hp]
    exact hv hlen s hs

/-- Before it inserts its row, no operation but a rename brings a row to a free path. -/
theorem opAction_vacant {c : Checked} (hop : req.hdr.op ≠ .rename) (hv : Vacant req c.db.files) :
    Vacant req (opAction sq req c).db.files := by
  refine opAction_preserves (Q := Vacant req) ?_ ?_ ?_ hop hv
  · exact fun p t _ ht => vacant_delete ht
  · exact fun msg t _ ht => vacant_update ht fun _ => rfl
  · exact fun d t _ _ ht => vacant_update ht fun _ => rfl

/-- The row that a new link replaces is removed first. -/
theorem opLink_vacant (hmsg : req.msg = req.hdr) (hop : req.hdr.op ≠ .didUnlink) :
    Vacant req (opLink req (checked sq db req)).db.files := by
  rw [opLink_files, checked_lk, lookup_msg_pathlen hmsg]
  cases hfp : (checked sq db req).foundPath with
  | true =>
    intro hlen r hr
    rw [if_pos ⟨rfl, hlen⟩, mem_delete] at hr
    exact atPath_eq_false.mp hr.2
  | false =>
    rw [if_neg (by simp)]
    exact checked_vacant hmsg hop hfp

theorem opLink_link_pathlen (hreq : req.Proper) (hmsg : req.msg = req.hdr)
    (hl : (opLink req (checked sq db req)).link = some h) :
    h.pathlen = req.hdr.pathlen := by
  rw [opLink_link, checked_lk] at hl
  obtain rfl := Option.some.inj hl
  split
  · split
    · exact lookup_msg_pathlen hmsg
    · rename_i hfi _
      rw [checked_foundIno, Bool.and_eq_true] at hfi
      exact lookup_byIno_pathlen hreq hmsg hfi.1
  · rfl

theorem opChange_vacant {merge : MsgHeader → MsgHeader} {new : MsgHeader}
    (hmsg : req.msg = req.hdr) (hop : req.hdr.op ≠ .didUnlink)
    (hl : (opChange merge new (checked sq db req)).link = some h) :
    h = new ∧ Vacant req (opChange merge new (checked sq db req)).db.files := by
  rw [opChange_link] at hl
  split at hl
  · exact absurd hl (by simp)
  · rename_i hfound
    simp only [not_or, Bool.not_eq_true] at hfound
    rw [opChange_files, hfound.1, hfound.2]
    exact ⟨(Option.some.inj hl).symm, checked_vacant hmsg hop hfound.1⟩

theorem opCreat_vacant (hmsg : req.msg = req.hdr) (hop : req.hdr.op ≠ .didUnlink)
    (hl : (opCreat (checked sq db req)).link = some h) :
    h = (lookup sq db req).msg ∧ Vacant req (opCreat (checked sq db req)).db.files := by
  unfold opCreat at hl
  dsimp only at hl
  split at hl
  · exact absurd hl (by simp)
  · rename_i hfp
    refine ⟨(Option.some.inj hl).symm, ?_⟩
    have hv := @checked_vacant sq db _ hmsg hop (by simpa using hfp)
    rw [opCreat_files]
    split
    · exact vacant_delete hv
    · exact hv

/-- A row is inserted only where none has its path. -/
theorem opAction_link_path (hreq : req.Proper)
    (hl : (opAction sq req (checked sq db req)).link = some h) :
    h.pathlen = req.hdr.pathlen ∧ Vacant req (opAction sq req (checked sq db req)).db.files := by
  have hplain : req.hdr.op.isPacked = false → req.msg = req.hdr := hreq.plain
  unfold opAction at hl ⊢
  cases hop : req.hdr.op <;> rw [hop] at hplain <;> simp only [hop] at hl ⊢
  case creat =>
    have hmsg := hplain rfl
    obtain ⟨rfl, hv⟩ := opCreat_vacant hmsg (by simp [hop]) hl
    exact ⟨lookup_msg_pathlen hmsg, hv⟩
  case chmod | fchmod | chown | fchown =>
    have hmsg := hplain rfl
    obtain ⟨rfl, hv⟩ := opChange_vacant hmsg (by simp [hop]) hl
    exact ⟨lookup_msg_pathlen hmsg, hv⟩
  case link | symlink =>
    have hmsg := hplain rfl
    exact ⟨opLink_link_pathlen hreq hmsg hl, opLink_vacant hmsg (by simp [hop])⟩
  case mkdir | mknod =>
    have hv := @opLink_vacant sq db _ (hplain rfl) (by simp [hop])
    obtain rfl := Option.some.inj hl
    refine ⟨rfl, ?_⟩
    rw [opMknod_files]
    split
    · exact vacant_delete hv
    · exact hv
  case stat | fstat =>
    simp only [opStat] at hl
    split at hl <;> exact absurd hl (by simp)
  all_goals exact absurd hl (by simp [opMayUnlink, opRename, opUnlink, opGetXattr, opSetXattr])

end Vacant

/-! ## Runs of the server -/

/-- One message handled; which of several matching rows SQLite returns may differ each time. -/
def serve (db : Db) (e : Sqlite × PseudoMsg) : Db := (pseudoOp e.1 db e.2).db

/-- A message about a regular file on device 1, for the concrete cases. -/
def exMsg (op : Op) (client : BitVec 32) (path : Bytes) (ino : BitVec 64) : PseudoMsg :=
  PseudoMsg.plain
    { MsgHeader.zero with type := .op, op := op, client := client, dev := 1, ino := ino,
                          mode := 0o100644, nlink := 1 } path

/-- The rename of such a file. -/
def exRename (client : BitVec 32) (old new : Bytes) (ino : BitVec 64) : PseudoMsg :=
  PseudoMsg.packed
    { MsgHeader.zero with type := .op, op := .rename, client := client, dev := 1, ino := ino,
                          mode := 0o100644, nlink := 1 } new old

end Pseudo
