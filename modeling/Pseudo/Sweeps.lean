import Pseudo.Cleanups

/-!
# What a message removes of the attributes of a file that is elsewhere

A file none of whose rows is at the path of the message can still lose its attributes: through the
sweeps of the whole table, and through the deletions and clean-ups for the inode of the message,
when that is its own or is taken for it.

Results:
1. `checkPath_clears_outside`: what the checks by path remove.
2. `script_clears_iff`: what a message that is not refused removes.
-/

namespace Pseudo

open Table Cleanup

/-- No row of the attribute's inode is at the path of the message, or below it when what is below
is removed. -/
structure Outside (req : Request) (t : List FileRow) (x : XattrRow) : Prop where
  path : req.msg.pathlen ≠ 0 → ∀ r ∈ t, r.owns x = true → r.path ≠ req.path
  below : req.hdr.op = .unlink → req.msg.pathlen ≠ 0 →
    ∀ r ∈ t, r.owns x = true → below req.path r = false

/-- The deletions and clean-ups for the message's own inode: the rows of the inode are deleted, or
the clean-up finds that it has none. -/
def ClearsOwn (req : Request) (c : Checked) (t : List FileRow) : Prop :=
  req.hdr.op.replacesInode = true ∧ c.foundIno = true ∨
    c.lk.foundPath = false ∧
      (c.lk.foundIno = true ∧ req.hdr.op ≠ .didUnlink ∧ typeMismatch c.lk.byIno req.hdr = true ∨
        req.hdr.op = .unlink ∧ req.hdr.nlink = 1 ∧ c.foundIno = true ∨
        (req.hdr.op = .unlink ∨ req.hdr.op = .cancelUnlink) ∧ c.lk.msg.pathlen ≠ 0 ∧
          (∀ r ∈ t, r.key ≠ req.hdr.key) ∨
        req.hdr.op = .didUnlink ∧
          ∀ r ∈ t, r.key = req.hdr.key → marked req.path c.lk.msg.client r = true)

instance (req : Request) (c : Checked) (t : List FileRow) : Decidable (ClearsOwn req c t) :=
  inferInstanceAs (Decidable (_ ∧ _ ∨ _ ∧ (_ ∨ _ ∨ _ ∨ _)))

section Rows
variable {sq : Sqlite} {db : Db} {req : Request} {m : PseudoMsg} {x : XattrRow}

theorem request_pathlen (h : (request m).msg.pathlen ≠ 0) : m.hdr.pathlen ≠ 0 := by
  intro hzero
  have hle := (request_proper m).pathlen_le
  have hhdr : (request m).hdr.pathlen = 0 := by
    have hsplit : splitPaths { m.hdr with result := .succeed } m.buffer =
        ({ m.hdr with result := .succeed }, none, 0) := if_neg fun hcond => hcond.1 hzero
    unfold request
    rw [hsplit]
    dsimp only
    split <;> exact hzero
  omega

/-- The rows of the attribute's inode. -/
theorem owns_iff {r : FileRow} : r.owns x = true ↔ (columnInt64 r.dev, r.ino) = (x.dev, x.ino) := by
  unfold FileRow.owns XattrRow.hasKey
  rw [Bool.and_eq_true, beq_iff_eq, beq_iff_eq, Prod.mk.injEq]
  exact ⟨fun h => ⟨h.1.symm, h.2.symm⟩, fun h => ⟨h.1.symm, h.2.symm⟩⟩

theorem owns_iff_key {r : FileRow} {k : BitVec 32 × BitVec 64} (hk : x.hasKey k = true) :
    r.owns x = true ↔ r.key = k := by
  constructor
  · intro h
    exact RefusedLemmas.hasKey_unique h hk
  · rintro rfl
    exact hk

theorem key_eq_iff {a b : MsgHeader} :
    a.key = b.key ↔ bindInt a.dev = bindInt b.dev ∧ a.ino = b.ino := by
  unfold MsgHeader.key
  rw [signedIno_eq, signedIno_eq, Prod.mk.injEq]

theorem hasKey_iff {msg : MsgHeader} :
    x.hasKey msg.key = true ↔ x.dev = columnInt64 (bindInt msg.dev) ∧ x.ino = msg.ino := by
  unfold XattrRow.hasKey MsgHeader.key
  rw [Bool.and_eq_true, beq_iff_eq, beq_iff_eq, signedIno_eq]

theorem ne_key_of_owns {r : FileRow} {k : BitVec 32 × BitVec 64} (ho : r.owns x = true)
    (hk : x.hasKey k = false) : r.key ≠ k := by
  rintro rfl
  exact Bool.false_ne_true (hk.symm.trans ho)

theorem checked_foundIno_lookup {req : Request} (h : (checked sq db req).foundIno = true) :
    (lookup sq db req).foundIno = true := by
  rw [checked_foundIno, Bool.and_eq_true] at h
  exact h.1

/-- No row of the inode is found when there is none. -/
theorem foundIno_owned {req : Request} (hreq : req.Proper) (hk : x.hasKey req.hdr.key = true)
    (h : (lookup sq db req).foundIno = true) : Owned db.files x := by
  obtain ⟨r, hr, hrk, _⟩ := lookup_ino hreq h
  exact ⟨r, hr, hrk.symm ▸ hk⟩

/-- A file elsewhere that is taken for the one in the buffer is taken for the message's own, and no
row was found for the path. -/
theorem Outside.absent (hreq : req.Proper) (h : Outside req db.files x)
    (hk : x.hasKey (lookup sq db req).msg.key = true) :
    (lookup sq db req).foundPath = false ∧
      (lookup sq db req).msg.key = req.hdr.key := by
  rcases lookup_cases sq db req with hex | hs | hab
  · obtain ⟨hlen, r, hr, hp, hrk, he⟩ := lookup_exact hex
    rw [he] at hk
    have ho : r.owns x = true := (owns_iff_key hk).mpr (hrk.trans hreq.key)
    exact absurd hp (h.path hlen r hr ho)
  · obtain ⟨r, hr, hp, hlen, _, he, _⟩ := lookup_stale hs
    rw [he, MsgHeader.takeRow_key] at hk
    exact absurd hp (h.path hlen r hr hk)
  · exact ⟨hab, by rw [(lookup_absent hab).2.1, hreq.key]⟩

end Rows

/-! ## What the scripts clear -/

section Scripts
variable {sq : Sqlite} {db : Db} {req : Request} {x : XattrRow}

/-- A row of the attribute's inode that the message does not find by its path. -/
structure Spared (req : Request) (x : XattrRow) (r : FileRow) : Prop where
  path : req.msg.pathlen ≠ 0 → r.path ≠ req.path
  below : req.hdr.op = .unlink → req.msg.pathlen ≠ 0 → Pseudo.below req.path r = false
  owns : r.owns x = true

theorem Spared.same {r r' : FileRow} (h : Spared req x r) (hp : r'.path = r.path)
    (hk : r'.key = r.key) : Spared req x r' := by
  refine ⟨fun hlen => hp ▸ h.path hlen, fun hop hlen => ?_, ?_⟩
  · unfold Pseudo.below
    rw [hp]
    exact h.below hop hlen
  · unfold FileRow.owns
    rw [hk]
    exact h.owns

theorem Outside.spared {t : List FileRow} (h : Outside req t x) {r : FileRow} (hr : r ∈ t)
    (ho : r.owns x = true) : Spared req x r :=
  ⟨fun hlen => h.path hlen r hr ho, fun hop hlen => h.below hop hlen r hr ho, ho⟩

/-- With no row found for the path, the checks by path do nothing. -/
theorem checkPath_nil {req : Request} {lk : Lookup} (hfp : lk.foundPath = false) :
    checkPathScript req lk = [] := by
  unfold checkPathScript
  rw [hfp]
  exact if_neg fun hcond => Bool.false_ne_true hcond.1

/-- The checks by path remove of other files what the sweep finds without a row. -/
theorem checkPath_clears_outside (hreq : req.Proper) (h : Outside req db.files x) :
    clears (checkPathScript req (lookup sq db req)) db.files x = true ↔
      Yields req (lookup sq db req) ∧ ¬ Owned db.files x := by
  cases hk : x.hasKey (lookup sq db req).msg.key with
  | true =>
    have hfp := (h.absent hreq hk).1
    rw [checkPath_nil hfp]
    refine ⟨fun hc => (by cases hc), fun hc => ?_⟩
    have hfound := hc.1.1
    rw [hfp] at hfound
    cases hfound
  | false =>
    have havoid : Avoids (fun r : FileRow => (lookup sq db req).foundPath = true →
        r.path ≠ req.path) (checkPathScript req (lookup sq db req)) :=
      checkPath_avoids fun hfp r hr => hr hfp
    rw [clears_of_avoids havoid, checkPath_reaches hk, Bool.and_eq_true, decide_eq_true_iff,
      owned_iff, Bool.not_eq_false]
    intro r hr ho hfp
    exact h.path (lookup_byPath_key hreq hfp).1 r hr ho

variable (sq) in
/-- An operation that takes over no row of the attribute's inode spares them all. -/
theorem op_spares (hop : req.hdr.op ≠ .didUnlink)
    (hlast : req.hdr.op = .unlink → req.hdr.nlink = 1 → (checked sq db req).foundIno = true →
      x.hasKey (lookup sq db req).msg.key = false)
    (hnew : req.hdr.op.replacesInode = true → (checked sq db req).foundIno = true →
      x.hasKey (lookup sq db req).byIno.key = false) :
    Avoids (Spared req x) (opScript req (checked sq db req)) :=
  op_avoids (c := checked sq db req) hop
    (fun hlen _ hr => hr.path (lookup_pathlen hlen))
    (fun hop hlen _ hr => hr.below hop (lookup_pathlen hlen))
    (fun hunlink hone hfi _ hr => ne_key_of_owns hr.owns (hlast hunlink hone hfi))
    (fun hop hfi _ hr => ne_key_of_owns hr.owns (hnew hop hfi))
    (fun _ _ hp hrk hr => hr.same hp hrk)

/-- A file elsewhere that is not taken for the one in the buffer, nor for the one that a new file
replaces: only the sweeps concern it. -/
theorem script_clears_apart (hreq : req.Proper) (h : Outside req db.files x)
    (hk : x.hasKey (lookup sq db req).msg.key = false)
    (hino : req.hdr.op.replacesInode = true → (checked sq db req).foundIno = true →
      x.hasKey (lookup sq db req).byIno.key = false) :
    clears (script sq db req) db.files x =
      ((decide (Yields req (lookup sq db req)) || decide (Empties req (lookup sq db req))) &&
        orphan FileRow.owns db.files x) := by
  have hcheck : Avoids (Spared req x) (checkScript req (lookup sq db req)) :=
    Avoids.append (checkPath_avoids fun hfp r hr => hr.path (lookup_byPath_key hreq hfp).1)
      (checkIno_avoids fun r hr => ne_key_of_owns hr.owns hk)
  have hspared : ∀ r ∈ db.files, r.owns x = true → Spared req x r :=
    fun r hr ho => h.spared hr ho
  have hreaches : reaches (opScript req (checked sq db req)) x =
      decide (Empties req (lookup sq db req)) :=
    op_reaches (c := checked sq db req) hk hino
  unfold script
  rw [clears_append, clears_of_avoids hcheck hspared, check_reaches hk]
  by_cases hop : req.hdr.op = .didUnlink
  · have hreach : reaches (opScript req (checked sq db req)) x = false :=
      op_reaches_of_ne (c := checked sq db req) (by rw [hop]; simp) hk hino
    rw [← hreaches, hreach, clears_of_not_reaches hreach, Bool.or_false, Bool.or_false]
  · have havoid := op_spares sq hop (fun _ _ _ => hk) hino
    have hrest := clears_of_avoids (x := x)
      (t := owners (checkScript req (lookup sq db req)) db.files) havoid ?_
    · rw [hrest, hreaches, orphan_owners_avoids hcheck hspared, Bool.and_or_distrib_right]
    · rw [← checked_follows.files]
      exact fun r hr ho => hspared r (mem_of_mem_checked hr) ho

/-- A file elsewhere that is not taken for the one in the buffer. -/
theorem script_clears_other (hreq : req.Proper) (h : Outside req db.files x)
    (hk : x.hasKey (lookup sq db req).msg.key = false) :
    clears (script sq db req) db.files x = true ↔
      (Yields req (lookup sq db req) ∨
          Empties req (lookup sq db req)) ∧ ¬ Owned db.files x ∨
        (req.hdr.op.replacesInode = true ∧ (checked sq db req).foundIno = true) ∧
          x.hasKey req.hdr.key = true := by
  have hkey : (checked sq db req).foundIno = true →
      (lookup sq db req).byIno.key = req.hdr.key :=
    fun hfi => lookup_byIno_key hreq (checked_foundIno_lookup hfi)
  by_cases hnew : (req.hdr.op.replacesInode = true ∧
      (checked sq db req).foundIno = true) ∧ x.hasKey req.hdr.key = true
  · -- the new file takes over the inode that this one is taken for
    refine ⟨fun _ => Or.inr hnew, fun _ => ?_⟩
    have hexact : (lookup sq db req).foundExact = false := by
      refine Bool.eq_false_iff.mpr fun hex => ?_
      obtain ⟨_, _, _, _, _, he⟩ := lookup_exact hex
      rw [he, hnew.2] at hk
      cases hk
    have hop := op_clears_new (c := checked sq db req) (x := x)
      (t := owners (checkScript req (lookup sq db req)) db.files)
      hnew.1.1 hnew.1.2 hexact (by rw [checked_lk, hkey hnew.1.2]; exact hnew.2)
    unfold script
    rw [clears_append, hop, Bool.or_true]
  · have hino : req.hdr.op.replacesInode = true → (checked sq db req).foundIno = true →
        x.hasKey (lookup sq db req).byIno.key = false := by
      intro hop hfi
      rw [hkey hfi]
      exact Bool.eq_false_iff.mpr fun hx => hnew ⟨⟨hop, hfi⟩, hx⟩
    rw [script_clears_apart hreq h hk hino, Bool.and_eq_true, Bool.or_eq_true,
      decide_eq_true_iff, decide_eq_true_iff, owned_iff, Bool.not_eq_false]
    exact ⟨Or.inl, fun hor => hor.resolve_right hnew⟩

/-- The clean-ups for the inode in the buffer, when nothing was found for it. -/
theorem op_reaches_own {req : Request} {c : Checked} (hk : x.hasKey c.lk.msg.key = true)
    (hfp : c.foundPath = false) (hfi : c.foundIno = false) :
    reaches (opScript req c) x = true ↔ req.hdr.op = .didUnlink ∨
      (req.hdr.op = .unlink ∨ req.hdr.op = .cancelUnlink) ∧ c.lk.msg.pathlen ≠ 0 := by
  have hown : ∀ rest, reaches (clearKey c.lk.msg.key :: rest) x = true := by
    intro rest
    show (x.hasKey c.lk.msg.key || _) = true
    rw [hk, Bool.true_or]
  have hlink : linkScript req c = [] := by
    unfold linkScript
    rw [hfp]
    rfl
  unfold opScript
  cases hkind : req.hdr.op
  case didUnlink => exact ⟨fun _ => Or.inl rfl, fun _ => hown []⟩
  case cancelUnlink =>
    by_cases hlen : c.lk.msg.pathlen = 0
    · dsimp only
      rw [if_pos hlen]
      simp [reaches, hlen]
    · dsimp only
      rw [if_neg hlen]
      exact ⟨fun _ => Or.inr ⟨Or.inr rfl, hlen⟩, fun _ => hown []⟩
  case unlink =>
    by_cases hlen : c.lk.msg.pathlen = 0
    · have hnone : unlinkFileScript c.lk.msg req.path = [] := if_pos hlen
      have hcontents : unlinkContentsScript c.lk.msg req.path = [] := if_pos hlen
      dsimp only
      rw [hnone, hcontents, hfi, if_neg fun h => Bool.false_ne_true h.2]
      simp [reaches, hlen]
    · refine ⟨fun _ => Or.inr ⟨Or.inl rfl, hlen⟩, fun _ => ?_⟩
      have hfile : unlinkFileScript c.lk.msg req.path =
          [.drop (atPath req.path), clearKey c.lk.msg.key] := if_neg hlen
      dsimp only
      rw [hfile, reaches_append, reaches_append]
      show (reaches (clearKey c.lk.msg.key :: []) x || _ || _) = true
      rw [hown [], Bool.true_or, Bool.true_or]
  case creat | mkdir | mknod | link | symlink =>
    simp [hfi, hlink, reaches]
  case chmod | fchmod | chown | fchown =>
    simp [change_reaches]
  case mayUnlink =>
    dsimp only
    split <;> simp [reaches, markRows, amendRows]
  all_goals simp [reaches]

theorem didUnlink_clears {req : Request} {c : Checked} {t : List FileRow}
    (hop : req.hdr.op = .didUnlink) (hk : x.hasKey c.lk.msg.key = true) :
    clears (opScript req c) t x = true ↔
      ∀ r ∈ t, r.owns x = true → marked req.path c.lk.msg.client r = true := by
  unfold opScript
  rw [hop, ← orphan_delete_iff]
  show (x.hasKey c.lk.msg.key && orphan FileRow.owns (delete _ t) x || false) = true ↔ _
  rw [hk, Bool.true_and, Bool.or_false]

/-- The rows of the message's own inode stay unless they are deleted by inode, or by mark. -/
theorem clearsOwn_of_owned (h : Outside req db.files x)
    (hk : x.hasKey (lookup sq db req).msg.key = true)
    (hfp : (lookup sq db req).foundPath = false) (hH : x.hasKey req.hdr.key = true)
    (hown : Owned db.files x)
    (hclears : (clears (checkInoScript req (lookup sq db req)) db.files x ||
      clears (opScript req (checked sq db req))
        (owners (checkInoScript req (lookup sq db req)) db.files) x) = true) :
    ClearsOwn req (checked sq db req) db.files := by
  by_contra hno
  simp only [ClearsOwn, checked_lk, hfp, true_and, not_or, not_and] at hno
  obtain ⟨hnew, htype, hlast, -, hdid⟩ := hno
  have hnil : checkInoScript req (lookup sq db req) = [] := by
    unfold checkInoScript
    exact if_neg fun hcond => htype hcond.1 hcond.2.1 hcond.2.2
  rw [hnil] at hclears
  have hop : clears (opScript req (checked sq db req)) db.files x = true := hclears
  by_cases hkind : req.hdr.op = .didUnlink
  · have hall := (didUnlink_clears (c := checked sq db req) hkind hk).mp hop
    exact hdid hkind fun r hr hrk => hall r hr ((owns_iff_key hH).mpr hrk)
  · have havoid := op_spares (x := x) sq hkind
      (fun hunlink hone hfi => absurd hfi (hlast hunlink hone))
      (fun hnewop hfi => absurd hfi (hnew hnewop))
    rw [clears_of_avoids havoid fun r hr ho => h.spared hr ho, owned_iff.mp hown,
      Bool.and_false] at hop
    cases hop

/-- The rows of the message's own inode go when they are deleted by inode, or by mark. -/
theorem script_clears_owned (h : Outside req db.files x)
    (hk : x.hasKey (lookup sq db req).msg.key = true)
    (hfp : (lookup sq db req).foundPath = false)
    (hH : x.hasKey req.hdr.key = true) (hown : Owned db.files x)
    (hbyIno : (checked sq db req).foundIno = true →
      x.hasKey (lookup sq db req).byIno.key = true) :
    (clears (checkInoScript req (lookup sq db req)) db.files x ||
        clears (opScript req (checked sq db req))
          (owners (checkInoScript req (lookup sq db req)) db.files) x) = true ↔
      ClearsOwn req (checked sq db req) db.files := by
  refine ⟨clearsOwn_of_owned h hk hfp hH hown, ?_⟩
  rintro (⟨hop, hfi⟩ | ⟨_, ⟨hfi, hop, htype⟩ | ⟨hop, hone, hfi⟩ | ⟨_, _, hnone⟩ | ⟨hop, hall⟩⟩)
  · have hexact := (lookup_absent hfp).2.2
    rw [op_clears_new (c := checked sq db req) hop hfi hexact (hbyIno hfi), Bool.or_true]
  · have hdev : checkInoScript req (lookup sq db req) =
        unlinkFileDevScript (lookup sq db req).msg := if_pos ⟨hfi, hop, htype⟩
    rw [hdev, unlinkFileDev_clears hk, Bool.true_or]
  · have hunlink : opScript req (checked sq db req) =
        unlinkFileScript (lookup sq db req).msg req.path ++
          unlinkContentsScript (lookup sq db req).msg req.path ++
          unlinkFileDevScript (lookup sq db req).msg := by
      unfold opScript
      rw [hop]
      dsimp only
      rw [if_pos ⟨hone, hfi⟩]
      rfl
    rw [hunlink, clears_append, unlinkFileDev_clears hk, Bool.or_true, Bool.or_true]
  · obtain ⟨r, hr, hrk⟩ := hown
    exact absurd ((owns_iff_key hH).mp hrk) (hnone r hr)
  · have hnil : checkInoScript req (lookup sq db req) = [] :=
      if_neg fun hcond => hcond.2.1 hop
    have hdid := (didUnlink_clears (c := checked sq db req) (t := db.files) hop hk).mpr
      fun r hr ho => hall r hr ((owns_iff_key hH).mp ho)
    rw [hnil]
    exact hdid

/-- Without a row of the inode, nothing is found for it, and only a clean-up without a deletion
concerns the message's own attributes. -/
theorem script_clears_unowned (hreq : req.Proper)
    (hk : x.hasKey (lookup sq db req).msg.key = true)
    (hfp : (lookup sq db req).foundPath = false) (hH : x.hasKey req.hdr.key = true)
    (hown : ¬ Owned db.files x) :
    clears (script sq db req) db.files x = true ↔ Empties req (lookup sq db req) ∨
      ClearsOwn req (checked sq db req) db.files := by
  have hfi : (lookup sq db req).foundIno = false :=
    Bool.eq_false_iff.mpr fun hfi => hown (foundIno_owned hreq hH hfi)
  have hcfi : (checked sq db req).foundIno = false := by
    rw [checked_foundIno, hfi, Bool.false_and]
  have hcfp : (checked sq db req).foundPath = false := by
    rw [checked_foundPath, hfp, Bool.false_and]
  have horphan : orphan FileRow.owns db.files x = true :=
    Bool.of_not_eq_false fun ho => hown (owned_iff.mpr ho)
  have hino : checkInoScript req (lookup sq db req) = [] := by
    unfold checkInoScript
    rw [hfi]
    exact if_neg fun hcond => Bool.false_ne_true hcond.1
  have hnone : ∀ r ∈ db.files, r.key ≠ req.hdr.key :=
    fun r hr hrk => hown ⟨r, hr, hrk ▸ hH⟩
  have hreaches : clears (script sq db req) db.files x =
      reaches (opScript req (checked sq db req)) x := by
    unfold script checkScript
    rw [checkPath_nil hfp, hino, List.nil_append, List.nil_append]
    cases hreach : reaches (opScript req (checked sq db req)) x with
    | true => exact clears_of_reaches hreach horphan
    | false => exact clears_of_not_reaches hreach
  rw [hreaches, op_reaches_own (c := checked sq db req) hk hcfp hcfi]
  constructor
  · rintro (hop | ⟨hop, hlen⟩)
    · exact Or.inr (Or.inr ⟨hfp, Or.inr (Or.inr (Or.inr ⟨hop,
        fun r hr hrk => absurd hrk (hnone r hr)⟩))⟩)
    · exact Or.inr (Or.inr ⟨hfp, Or.inr (Or.inr (Or.inl ⟨hop, hlen, hnone⟩))⟩)
  · rintro (⟨hop, hlen⟩ | ⟨_, hfi'⟩ | ⟨_, ⟨hfi', _⟩ | ⟨_, _, hfi'⟩ | ⟨hop, hlen, _⟩ | ⟨hop, _⟩⟩)
    · exact Or.inr ⟨Or.inl hop, hlen⟩
    · rw [hcfi] at hfi'
      cases hfi'
    · rw [checked_lk, hfi] at hfi'
      cases hfi'
    · rw [hcfi] at hfi'
      cases hfi'
    · exact Or.inr ⟨hop, hlen⟩
    · exact Or.inl hop

/-- A file elsewhere that is taken for the message's own. -/
theorem script_clears_own (hreq : req.Proper) (h : Outside req db.files x)
    (hk : x.hasKey (lookup sq db req).msg.key = true) :
    clears (script sq db req) db.files x = true ↔
      Empties req (lookup sq db req) ∧ ¬ Owned db.files x ∨
        ClearsOwn req (checked sq db req) db.files := by
  obtain ⟨hfp, hM⟩ := h.absent hreq hk
  have hH : x.hasKey req.hdr.key = true := hM ▸ hk
  have hbyIno : (checked sq db req).foundIno = true →
      x.hasKey (lookup sq db req).byIno.key = true := by
    intro hfi
    rw [lookup_byIno_key hreq (checked_foundIno_lookup hfi)]
    exact hH
  by_cases hown : Owned db.files x
  · have hempties : ¬ (Empties req (lookup sq db req) ∧ ¬ Owned db.files x) :=
      fun hcond => hcond.2 hown
    unfold script checkScript
    rw [or_iff_right hempties, checkPath_nil hfp, List.nil_append, clears_append]
    exact script_clears_owned h hk hfp hH hown hbyIno
  · rw [script_clears_unowned hreq hk hfp hH hown, and_iff_left hown]

variable (sq) in
/-- What the deletions and clean-ups of a message remove of other files. -/
theorem script_clears_iff (hreq : req.Proper) (h : Outside req db.files x) :
    clears (script sq db req) db.files x = true ↔
      (Yields req (lookup sq db req) ∨
          Empties req (lookup sq db req)) ∧ ¬ Owned db.files x ∨
        ClearsOwn req (checked sq db req) db.files ∧
          x.hasKey req.hdr.key = true := by
  cases hk : x.hasKey (lookup sq db req).msg.key with
  | true =>
    obtain ⟨hfp, hM⟩ := h.absent hreq hk
    have hyields : ¬ Yields req (lookup sq db req) := by
      intro hy
      rw [Yields, hfp] at hy
      cases hy.1
    rw [script_clears_own hreq h hk, or_iff_right hyields, ← hM, hk]
    simp only [and_true]
  | false =>
    rw [script_clears_other hreq h hk]
    refine or_congr_right ⟨fun hnew => ⟨Or.inl hnew.1, hnew.2⟩, ?_⟩
    rintro ⟨hnew | ⟨hfp, _⟩, hH⟩
    · exact ⟨hnew, hH⟩
    · rw [checked_lk] at hfp
      rw [(lookup_absent hfp).2.1, hreq.key, hH] at hk
      cases hk

end Scripts

end Pseudo
