import Pseudo.Cleanups

/-!
# The lifetime of attributes

Extended attributes belong to an inode, and an inode is known by its rows in `files`: the
attributes are to go with the last row, and to stay as they are until then.

A clean-up that follows a deletion is for the inode in the message's buffer. That is not the inode
of every row that was deleted, and a row that the message is about to insert does not count.

Results:
1. `livesWithFile_iff`: the attributes removed are those left without a file.
2. `clears_iff`: what a message removes of the attributes that had a file.
3. `attrs_live_iff`: the attributes live exactly as long as their inode has a name, if and only
   if each inode that loses all its rows is cleaned up and not inserted again.
4. `link_loses_attrs`: a link to a file that is already recorded loses its attributes.
-/

namespace Pseudo

open Table Cleanup

/-- The attributes of inode `k` are gone with its last row, and unchanged as long as it has one. -/
structure LivesWithFile (db db' : Db) (k : BitVec 32 × BitVec 64) : Prop where
  gone : (∀ r ∈ db'.files, r.key ≠ k) → ∀ x ∈ db'.xattrs, x.hasKey k = false
  kept : (∃ r ∈ db'.files, r.key = k) →
    (db'.xattrs.filter fun x => x.hasKey k) = db.xattrs.filter fun x => x.hasKey k

/-- The rows of the attribute's inode all gave way to the message's inode at the path of the
message, where they were marked. -/
def GaveWay (req : Request) (lk : Lookup) (t : List FileRow) (x : XattrRow) : Prop :=
  lk.foundPath = true ∧ req.hdr.op ≠ .didUnlink ∧ expectedGone req lk = true ∧
    ∀ r ∈ t, r.owns x = true → marked req.path lk.byPath.deleting r = true

instance (req : Request) (lk : Lookup) (t : List FileRow) (x : XattrRow) :
    Decidable (GaveWay req lk t x) := inferInstanceAs (Decidable (_ ∧ _))

/-- A clean-up of the message has the attribute in its scope, once its inode has no row. -/
def CleanedUp (req : Request) (lk : Lookup) (t : List FileRow) (x : XattrRow) : Prop :=
  x.hasKey lk.msg.key = true ∨ req.hdr.op = .unlink ∨ GaveWay req lk t x

instance (req : Request) (lk : Lookup) (t : List FileRow) (x : XattrRow) :
    Decidable (CleanedUp req lk t x) := inferInstanceAs (Decidable (_ ∨ _ ∨ _))

/-- The operation deletes the row. -/
def opDeletes (req : Request) (c : Checked) (r : FileRow) : Bool :=
  match req.hdr.op with
  | .link => c.foundPath && c.lk.msg.pathlen != 0 && atPath req.path r
  | .didUnlink => marked req.path c.lk.msg.client r
  | .unlink =>
    c.lk.msg.pathlen != 0 && (atPath req.path r || below req.path r) ||
      req.hdr.nlink == 1 && c.foundIno && atKey c.lk.msg.key r
  | _ => false

/-- The checks or the operation delete the row. -/
def deletes (req : Request) (c : Checked) (r : FileRow) : Bool :=
  dropped req c.lk r || opDeletes req c r

/-- Every inode with attributes that loses all its rows is cleaned up, and is not inserted again. -/
def LossesCleanedUp (sq : Sqlite) (db : Db) (req : Request) : Prop :=
  ∀ x ∈ db.xattrs, Owned db.files x →
    (∀ r ∈ db.files, r.owns x = true → deletes req (checked sq db req) r = true) →
    CleanedUp req (lookup sq db req) db.files x ∧
      (insertedKey req (checked sq db req)).any x.hasKey = false

section Property
variable {db db' : Db} {wiped : XattrRow → Bool}

/-- When attributes are removed and none are added, those removed have to be the ones left without
a file. -/
theorem livesWithFile_iff (hx : db'.xattrs = delete wiped db.xattrs) :
    (∀ k, (∃ r ∈ db.files, r.key = k) → LivesWithFile db db' k) ↔
      ∀ x ∈ db.xattrs, Owned db.files x → wiped x = orphan FileRow.owns db'.files x := by
  have hnone : ∀ {x : XattrRow} {k : BitVec 32 × BitVec 64}, x.hasKey k = true →
      (orphan FileRow.owns db'.files x = true ↔ ∀ r ∈ db'.files, r.key ≠ k) := by
    intro x k hk
    rw [orphan_iff]
    refine forall₂_congr fun r _ => ?_
    constructor
    · rintro h rfl
      exact absurd hk (Bool.eq_false_iff.mp h)
    · intro h
      refine Bool.eq_false_iff.mpr fun ho => h ?_
      exact RefusedLemmas.hasKey_unique ho hk
  constructor
  · rintro hlives x hmem ⟨r, hr, hk⟩
    obtain ⟨hgone, hkept⟩ := hlives r.key ⟨r, hr, rfl⟩
    cases ho : orphan FileRow.owns db'.files x with
    | true =>
      refine Bool.of_not_eq_false fun hw => ?_
      have hstays : x ∈ db'.xattrs := hx ▸ mem_delete.mpr ⟨hmem, hw⟩
      have hno := hgone ((hnone hk).mp ho) x hstays
      rw [hk] at hno
      cases hno
    | false =>
      obtain ⟨r', hr', hk'⟩ := orphan_eq_false.mp ho
      have hsame := hkept ⟨r', hr', RefusedLemmas.hasKey_unique hk' hk⟩
      have hstays : x ∈ db'.xattrs.filter fun x => x.hasKey r.key :=
        hsame ▸ List.mem_filter.mpr ⟨hmem, hk⟩
      rw [hx] at hstays
      exact (mem_delete.mp (List.mem_filter.mp hstays).1).2
  · rintro hwiped k ⟨r, hr, rfl⟩
    have howned : ∀ x : XattrRow, x.hasKey r.key = true → Owned db.files x :=
      fun x hk => ⟨r, hr, hk⟩
    constructor
    · intro hno x hmem
      rw [hx] at hmem
      obtain ⟨hbefore, hw⟩ := mem_delete.mp hmem
      refine Bool.eq_false_iff.mpr fun hk => ?_
      rw [hwiped x hbefore (howned x hk), (hnone hk).mpr hno] at hw
      cases hw
    · rintro ⟨r', hr', hk'⟩
      rw [hx, delete, List.filter_filter]
      refine List.filter_congr fun x hbefore => ?_
      cases hk : x.hasKey r.key with
      | false => rfl
      | true =>
        have ho : orphan FileRow.owns db'.files x = false :=
          orphan_eq_false.mpr ⟨r', hr', by unfold FileRow.owns; rw [hk', hk]⟩
        rw [hwiped x hbefore (howned x hk), ho]
        rfl

end Property

/-! ## Which attributes a message removes -/

section Message
variable {sq : Sqlite} {db : Db} {req : Request} {m : PseudoMsg} {x : XattrRow}

theorem drops_opScript {c : Checked} {r : FileRow} (hop : req.hdr.op.onExisting = true) :
    drops (opScript req c) r = opDeletes req c r := by
  unfold opScript opDeletes
  cases hkind : req.hdr.op
  case chmod | fchmod | chown | fchown =>
    dsimp only
    unfold changeScript
    dsimp only
    split
    · rfl
    · split <;> rfl
  case link =>
    dsimp only
    unfold linkScript unlinkFileScript
    cases c.foundPath <;> by_cases hlen : c.lk.msg.pathlen = 0 <;>
      simp [hlen, drops, clearKey]
  case mayUnlink | cancelUnlink =>
    dsimp only
    split <;> rfl
  case didUnlink => exact Bool.or_false _
  case unlink =>
    have hlast : drops (if req.hdr.nlink = 1 ∧ c.foundIno then unlinkFileDevScript c.lk.msg
        else []) r = (req.hdr.nlink == 1 && c.foundIno && atKey c.lk.msg.key r) := by
      split
      · rename_i h
        show (atKey c.lk.msg.key r || false) = _
        rw [h.1, h.2, Bool.or_false, beq_self_eq_true, Bool.true_and, Bool.true_and]
      · rename_i h
        cases hfi : c.foundIno with
        | false => rw [Bool.and_false, Bool.false_and]; rfl
        | true => rw [beq_eq_false_iff_ne.mpr fun hn => h ⟨hn, hfi⟩]; rfl
    dsimp only
    unfold unlinkFileScript unlinkContentsScript
    by_cases hlen : c.lk.msg.pathlen = 0
    · rw [if_pos hlen, if_pos hlen, List.nil_append, List.nil_append, hlast, hlen]
      rfl
    · rw [if_neg hlen, if_neg hlen]
      show (atPath req.path r || (below req.path r || drops (if req.hdr.nlink = 1 ∧ c.foundIno
        then unlinkFileDevScript c.lk.msg else []) r)) = _
      rw [hlast, bne_iff_ne.mpr hlen, Bool.true_and, Bool.or_assoc]
  case creat | mkdir | mknod | symlink =>
    rw [hkind] at hop
    cases hop
  all_goals rfl

/-- A file that has rows loses all of them exactly when each is deleted. -/
theorem orphan_script (hop : req.hdr.op.onExisting = true) :
    orphan FileRow.owns (owners (script sq db req) db.files) x = true ↔
      ∀ r ∈ db.files, r.owns x = true → deletes req (checked sq db req) r = true := by
  have hfiles : owners (checkScript req (lookup sq db req)) db.files =
      delete (dropped req (lookup sq db req)) db.files := by
    rw [← checked_files]
    exact checked_follows.files.symm
  unfold script
  rw [owners_append, hfiles, orphan_owners, delete_delete, orphan_delete_iff]
  refine forall₂_congr fun r _ => ?_
  rw [drops_opScript hop]
  rfl

/-- Attributes of an inode other than the one in the buffer are removed only where marked rows give
way. -/
theorem checkPath_clears {lk : Lookup} {t : List FileRow} (hk : x.hasKey lk.msg.key = false) :
    clears (checkPathScript req lk) t x = true ↔ GaveWay req lk t x := by
  unfold checkPathScript
  by_cases hcond : lk.foundPath ∧ req.hdr.op ≠ .didUnlink
  · have hrest : ∀ t, clears (if typeMismatch lk.byPath req.hdr then
        unlinkFileScript lk.msg req.path else []) t x = false := by
      intro t
      split
      · exact clears_of_not_reaches (unlinkFile_reaches hk)
      · rfl
    rw [if_pos hcond, clears_append, hrest, Bool.or_false]
    unfold gaveWayScript GaveWay
    cases hgone : expectedGone req lk with
    | false =>
      rw [if_neg Bool.false_ne_true]
      refine ⟨fun h => (by cases h), fun h => (by cases h.2.2.1)⟩
    | true =>
      rw [if_pos rfl]
      show (orphan FileRow.owns (delete (marked req.path lk.byPath.deleting) t) x || false) =
        true ↔ _
      rw [Bool.or_false, orphan_delete_iff]
      exact ⟨fun h => ⟨hcond.1, hcond.2, rfl, h⟩, fun h => h.2.2.2⟩
  · rw [if_neg hcond]
    exact ⟨fun h => (by cases h), fun h => absurd ⟨h.1, h.2.1⟩ hcond⟩

/-- Behind every deletion of `OP_UNLINK` there is the sweep of the whole table. -/
theorem unlink_covered (hop : req.hdr.op = .unlink)
    (hk : x.hasKey (lookup sq db req).msg.key = false) : Covered x (script sq db req) := by
  have hdev : ∀ {msg : MsgHeader}, msg.key = (lookup sq db req).msg.key →
      Covered x (unlinkFileDevScript msg) := by
    intro msg hmsg
    refine ⟨Or.inl fun r hr => ?_, trivial⟩
    unfold FileRow.owns
    rwa [atKey_iff.mp hr, hmsg]
  have hlast : Covered x (if req.hdr.nlink = 1 ∧ (checked sq db req).foundIno then
      unlinkFileDevScript (lookup sq db req).msg else [] : Script) := by
    split
    · exact hdev rfl
    · exact trivial
  have hop' : opScript req (checked sq db req) =
      unlinkFileScript (lookup sq db req).msg req.path ++
        unlinkContentsScript (lookup sq db req).msg req.path ++
        (if req.hdr.nlink = 1 ∧ (checked sq db req).foundIno then
          unlinkFileDevScript (lookup sq db req).msg else []) := by
    unfold opScript
    rw [hop]
    rfl
  unfold script
  rw [hop']
  by_cases hlen : (lookup sq db req).msg.pathlen = 0
  · -- without a path the inode is the only thing that the message can be about
    have hnone : unlinkFileScript (lookup sq db req).msg req.path = [] := if_pos hlen
    have hcontents : unlinkContentsScript (lookup sq db req).msg req.path = [] := if_pos hlen
    have hpath : Covered x (checkPathScript req (lookup sq db req)) := by
      unfold checkPathScript
      rw [hnone]
      split
      · refine gaveWay_covered.append ?_
        split <;> exact trivial
      · exact trivial
    have hino : Covered x (checkInoScript req (lookup sq db req)) := by
      unfold checkInoScript
      split
      · exact hdev rfl
      · exact trivial
    rw [hnone, hcontents]
    exact (hpath.append hino).append hlast
  · have hreach : reaches (unlinkContentsScript (lookup sq db req).msg req.path) x = true := by
      rw [unlinkContents_reaches]
      exact decide_eq_true hlen
    rw [List.append_assoc, ← List.append_assoc]
    refine Covered.prepend (unlinkContents_covered.append hlast) ?_ _
    rw [reaches_append, hreach, Bool.true_or]

/-- A message removes the attributes of a file exactly when it deletes all its rows and cleans up
behind them. -/
theorem clears_iff (hop : req.hdr.op.onExisting = true) (hown : Owned db.files x) :
    clears (script sq db req) db.files x = true ↔
      orphan FileRow.owns (owners (script sq db req) db.files) x = true ∧
        CleanedUp req (lookup sq db req) db.files x := by
  have hnew : ¬ req.hdr.op.replacesInode = true := by
    revert hop
    cases req.hdr.op <;> simp [Op.onExisting, Op.replacesInode]
  have hcovered : Covered x (script sq db req) →
      clears (script sq db req) db.files x =
        orphan FileRow.owns (owners (script sq db req) db.files) x :=
    fun hc => clears_of_covered hc (owned_iff.mp hown)
  cases hk : x.hasKey (lookup sq db req).msg.key with
  | true =>
    have hopc : Covered x (opScript req (checked sq db req)) :=
      op_covered (c := checked sq db req) hk fun h => absurd h hnew
    rw [hcovered ((check_covered hk).append hopc)]
    exact ⟨fun h => ⟨h, Or.inl hk⟩, fun h => h.1⟩
  | false =>
    by_cases hunlink : req.hdr.op = .unlink
    · rw [hcovered (unlink_covered hunlink hk)]
      exact ⟨fun h => ⟨h, Or.inr (Or.inl hunlink)⟩, fun h => h.1⟩
    · have hopr : reaches (opScript req (checked sq db req)) x = false :=
        op_reaches_of_ne (c := checked sq db req) hunlink hk fun h => absurd h hnew
      have hclears : clears (script sq db req) db.files x =
          clears (checkPathScript req (lookup sq db req)) db.files x := by
        unfold script checkScript
        rw [clears_append, clears_append, clears_of_not_reaches (checkIno_reaches hk),
          clears_of_not_reaches hopr,
          Bool.or_false, Bool.or_false]
      have hgave : clears (script sq db req) db.files x = true ↔
          GaveWay req (lookup sq db req) db.files x := by
        rw [hclears, checkPath_clears hk]
      constructor
      · intro h
        exact ⟨orphan_of_clears h, Or.inr (Or.inr (hgave.mp h))⟩
      · rintro ⟨_, hown' | hop' | hgave'⟩
        · rw [hk] at hown'
          cases hown'
        · exact absurd hop' hunlink
        · exact hgave.mpr hgave'

/-- When all rows of a file were deleted and one is inserted again, it is that of the inode in the
buffer. -/
theorem inserted_own (hreq : req.Proper) (hop : req.hdr.op.onExisting = true)
    (hdev : req.hdr.dev ≠ 0) (hino : req.hdr.ino ≠ 0) (hown : Owned db.files x)
    (hlost : orphan FileRow.owns (owners (script sq db req) db.files) x = true)
    (hins : (insertedKey req (checked sq db req)).any x.hasKey = true) :
    x.hasKey (lookup sq db req).msg.key = true := by
  unfold insertedKey at hins
  cases hkind : req.hdr.op <;> rw [hkind] at hins hop
  case chmod | fchmod | chown | fchown =>
    dsimp only at hins
    split at hins
    · cases hins
    · exact hins
  case link =>
    have hkey : x.hasKey req.hdr.key = true := hins
    refine Bool.of_not_eq_false fun hk => ?_
    have hne : (lookup sq db req).msg.key ≠ req.hdr.key := by
      intro he
      rw [he, hkey] at hk
      cases hk
    have hst : (lookup sq db req).Stale := by
      rcases lookup_cases sq db req with hex | hs | hab
      · obtain ⟨_, _, _, _, _, he⟩ := lookup_exact hex
        exact absurd (by rw [he]) hne
      · exact hs
      · exact absurd (by rw [(lookup_absent hab).2.1, hreq.key]) hne
    obtain ⟨_, _, _, hlen, _⟩ := lookup_stale hst
    -- the rows of the inode are at other paths, and none of them is deleted
    have hfree := lookup_not_exact hreq hdev hino hst.2 hlen
    have havoid : Avoids (fun r => r.path ≠ req.path ∧ r.key ≠ (lookup sq db req).msg.key)
        (script sq db req) := by
      refine Avoids.append ((checkPath_avoids fun _ r hr => hr.1).append
        (checkIno_avoids fun r hr => hr.2)) ?_
      unfold opScript
      rw [hkind]
      exact link_avoids fun _ r hr => hr.1
    have hkept := orphan_owners_avoids (t := db.files) (x := x) havoid ?_
    · rw [hkept, owned_iff.mp hown] at hlost
      cases hlost
    · intro r hr ho
      have hrk : r.key = req.hdr.key := RefusedLemmas.hasKey_unique ho hkey
      exact ⟨fun hp => hfree r hr hp hrk, fun hm => hne (hm.symm.trans hrk)⟩
  all_goals first
    | cases hins
    | cases hop

/-- The attributes of every inode that had a row live exactly as long as it has one, if and only if
each inode that loses all its rows is cleaned up and not inserted again. -/
theorem attrs_live_iff (sq : Sqlite) (db : Db) (m : PseudoMsg) (hop : m.hdr.op.onExisting = true)
    (hdev : m.hdr.dev ≠ 0) (hino : m.hdr.ino ≠ 0)
    (hlive : (pseudoOp sq db m).msg.result ≠ .abort) :
    (∀ k, (∃ r ∈ db.files, r.key = k) → LivesWithFile db (pseudoOp sq db m).db k) ↔
      LossesCleanedUp sq db (request m) := by
  have hreq := request_proper m
  have hop' : (request m).hdr.op.onExisting = true := by rwa [request_hdr_op]
  have hdev' : (request m).hdr.dev ≠ 0 := by rwa [request_hdr]
  have hino' : (request m).hdr.ino ≠ 0 := by rwa [request_hdr]
  have hscripted : m.hdr.op.scripted = true := by
    revert hop
    cases m.hdr.op <;> simp [Op.onExisting, Op.scripted]
  have hno := (result_live_iff sq db m).mp hlive
  rw [livesWithFile_iff (pseudoOp_xattrs hscripted hno)]
  refine forall₂_congr fun x _ => forall_congr' fun hown => ?_
  have hclears : clears (script sq db (request m)) db.files x = true ↔ _ := clears_iff hop' hown
  rw [pseudoOp_orphan hscripted hno, Bool.eq_iff_iff, hclears, Bool.and_eq_true,
    Bool.not_eq_true', ← orphan_script hop']
  constructor
  · intro h hlost
    cases hins : (insertedKey (request m) (checked sq db (request m))).any x.hasKey with
    | false => exact ⟨(h.mpr ⟨hlost, hins⟩).2, rfl⟩
    | true =>
      have hcleaned : CleanedUp (request m) (lookup sq db (request m)) db.files x :=
        Or.inl (inserted_own hreq hop' hdev' hino' hown hlost hins)
      have hnot := (h.mp ⟨hlost, hcleaned⟩).2
      rw [hins] at hnot
      cases hnot
  · intro h
    exact ⟨fun hc => ⟨hc.1, (h hc.1).2⟩, fun hc => ⟨hc.1, (h hc.1).1⟩⟩

end Message

instance (t : List FileRow) (x : XattrRow) : Decidable (Owned t x) :=
  inferInstanceAs (Decidable (∃ r ∈ t, _))

instance (sq : Sqlite) (db : Db) (req : Request) : Decidable (LossesCleanedUp sq db req) :=
  inferInstanceAs (Decidable (∀ x ∈ db.xattrs, Owned db.files x → (∀ r ∈ db.files, _) → _ ∧ _))

/-- `/b` with inode 6 is the only file, and it has the attribute `a`. -/
def exTagged : Db where
  files := [exRow (ascii ['/', 'b']) 6]
  xattrs := [{ id := 1, dev := 1, ino := 6, name := ascii ['a'], value := ascii ['v'] }]
  oldmsg := ⟨0, []⟩

/-- Removing `/b` removes its attribute. -/
theorem attrs_live_unlink : LivesWithFile exTagged
    (pseudoOp Sqlite.inOrder exTagged (exMsg .unlink 1 (ascii ['/', 'b']) 6)).db (1, 6) :=
  (attrs_live_iff Sqlite.inOrder exTagged (exMsg .unlink 1 (ascii ['/', 'b']) 6) (by decide)
    (by decide) (by decide) (by decide)).mpr (by decide) (1, 6) (by decide)

/-- A link to `/b`, which is recorded already, is inserted after the attribute was removed. -/
theorem link_loses_attrs :
    Op.link.onExisting = true ∧
      (pseudoOp Sqlite.inOrder exTagged (exMsg .link 1 (ascii ['/', 'b']) 6)).msg.result ≠
        .abort ∧
      ¬ ∀ k, (∃ r ∈ exTagged.files, r.key = k) → LivesWithFile exTagged
        (pseudoOp Sqlite.inOrder exTagged (exMsg .link 1 (ascii ['/', 'b']) 6)).db k := by
  refine ⟨rfl, by decide, fun h => ?_⟩
  have hkept := (h (1, 6) (by decide)).kept (by decide)
  revert hkept
  decide

end Pseudo
