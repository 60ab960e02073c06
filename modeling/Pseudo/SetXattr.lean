import Pseudo.Attributes
import Pseudo.Compound
import Pseudo.Lookup

/-!
# `setxattr` from the wrapper to the database

`shared_setxattr` of the Linux port calls `pseudo_client_op`, the request goes through
`pseudo_op`, and `pdb_set_xattr` looks at the flags.

Results:
1. `setxattr_request`, `opSetXattr_spec`: what is sent arrives, and the server honours the flags.
2. `sharedSetxattr_stores`: a call without flags stores its value.
3. `sharedSetxattr_flags_iff`: a call with flags does what they ask exactly when they forbid the
   change, since the client sends no request for it.
-/

namespace Pseudo

/-! ## A call with the server's part -/

/-- What a call of `pseudo_client_op` leaves, and the message it returns, if any. -/
structure CallStep where
  db : Db
  tables : FdTables
  result : Option MsgHeader
  deriving DecidableEq

/-- A call of an operation for the server, over a connection that delivers messages. The client
does not come back from undefined behaviour, nor from `RESULT_ABORT`. -/
def callServer (server : Db → PseudoMsg → Outcome) (env : ClientEnv) (leftover : Bytes) (db : Db)
    (t : FdTables) (call : ClientCall) : Option CallStep :=
  (pseudoClientOp env t call).bind fun step =>
    match step.request with
    | none => some ⟨db, step.tables, none⟩
    | some r =>
      let out := server db (r.received leftover)
      if out.msg.result = .abort then none else some ⟨out.db, step.tables, some out.msg⟩

def clientCall (sq : Sqlite) : ClientEnv → Bytes → Db → FdTables → ClientCall → Option CallStep :=
  callServer (pseudoOp sq)

/-- A request that is not answered with `RESULT_ABORT`. -/
theorem callServer_sent {server : Db → PseudoMsg → Outcome} {env : ClientEnv} {leftover : Bytes}
    {db : Db} {t t' : FdTables} {call : ClientCall} {r : ClientRequest}
    (hop : pseudoClientOp env t call = some ⟨t', some r⟩)
    (hlive : (server db (r.received leftover)).msg.result ≠ .abort) :
    callServer server env leftover db t call =
      some ⟨(server db (r.received leftover)).db, t',
        some (server db (r.received leftover)).msg⟩ := by
  rw [callServer, hop, Option.bind_some]
  dsimp only
  rw [if_neg hlive]

/-! ## `shared_setxattr` -/

/-- `"system.posix_acl_"`. -/
def posixAcl : Bytes :=
  ascii ['s', 'y', 's', 't', 'e', 'm', '.', 'p', 'o', 's', 'i', 'x', '_', 'a', 'c', 'l', '_']

/-- `"user.pseudo_data"`. -/
def pseudoData : Bytes :=
  ascii ['u', 's', 'e', 'r', '.', 'p', 's', 'e', 'u', 'd', 'o', '_', 'd', 'a', 't', 'a']

/-- The name of an attribute that is no access control list: those have a branch of their own. -/
structure XattrName where
  name : Bytes
  isCString : IsCString name
  notAcl : posixAcl.isPrefixOf name = false

/-- The third argument of `setxattr`. -/
def XattrFlags.toInt : XattrFlags → Int
  | .none => 0
  | .create => 1
  | .replace => 2

def setxattrOp (flags : Int) : Op :=
  if flags = XattrFlags.create.toInt then .createXattr
  else if flags = XattrFlags.replace.toInt then .replaceXattr
  else .setXattr

def setxattrCall (op : Op) (path : Option Bytes) (fd : Int) (buf : StatBuf) (name : Bytes)
    (value : Option Bytes) : ClientCall :=
  { op := op, fd := fd, path := path, buf := some buf, extra1 := some name, extra2 := value }

/-- What `shared_setxattr` leaves, and its return code. -/
structure SetxattrStep where
  db : Db
  tables : FdTables
  rc : Int
  deriving DecidableEq

/-- `shared_setxattr`. `buf` is what `lstat` or `fstat` gives for the file; the value may be a
null pointer. -/
def sharedSetxattr (sq : Sqlite) (env : ClientEnv) (leftover : Bytes) (db : Db) (t : FdTables)
    (path : Option Bytes) (fd : Int) (buf : Option StatBuf) (name : XattrName)
    (value : Option Bytes) (flags : Int) : Option SetxattrStep :=
  match buf with
  | none => some ⟨db, t, -1⟩
  | some buf =>
    if name.name = pseudoData then some ⟨db, t, -1⟩
    else
      let op := setxattrOp flags
      (clientCall sq env leftover db t (setxattrCall op path fd buf name.name value)).map fun s =>
        { db := s.db
          tables := s.tables
          rc :=
            -- we automatically assume success
            if op = .setXattr then 0
            -- CREATE/REPLACE operations can report failure
            else match s.result with
              | none => -1
              | some msg => if msg.result = .fail then -1 else 0 }

/-! ## What is sent arrives -/

/-- The operation that the server carries out with the flags. -/
def XattrFlags.op : XattrFlags → Op
  | .none => .setXattr
  | .create => .createXattr
  | .replace => .replaceXattr

theorem setxattrOp_toInt (flags : XattrFlags) : setxattrOp flags.toInt = flags.op := by
  cases flags <;> rfl

/-- The server splits the buffer where the client has put it together. -/
theorem setxattr_request (m : PseudoMsg) (flags : XattrFlags) {p name value : Bytes}
    (hop : m.hdr.op = flags.op) (hpath : m.path = packPaths p name (some value))
    (hp : IsCString (if stripSlash p then p.dropLast else p)) (hlen : m.path.length < 2 ^ 64) :
    (request m).hdr.op = flags.op ∧
      (request m).oldpath = some (packAttr name value (0 :: 0 :: m.leftover)) ∧
      (request m).oldpathlen = name.length + 1 + value.length := by
  generalize hq : (if stripSlash p then p.dropLast else p) = q at hp
  have hpack : m.path = q ++ 0 :: ((name ++ 0 :: value) ++ [0]) := by
    rw [hpath, packPaths]
    simp [hq]
  have hpacked : m.hdr.op.isPacked = true := by
    rw [hop]
    cases flags <;> rfl
  have hrename : m.hdr.op ≠ .rename := by
    rw [hop]
    cases flags <;> simp [XattrFlags.op]
  have hkept : keptExtra m.hdr.op (name ++ 0 :: value) = name ++ 0 :: value := if_neg hrename
  obtain ⟨tail, hsplit, htail⟩ := splitPaths_packed hpacked hpack hp hlen
  rw [hkept, htail hkept] at hsplit
  have hold : name ++ 0 :: value ++ 0 :: 0 :: m.leftover =
      packAttr name value (0 :: 0 :: m.leftover) := by simp [packAttr]
  have holdlen : (name ++ 0 :: value).length = name.length + 1 + value.length := by
    rw [List.length_append, List.length_cons]
    omega
  rw [hold, holdlen] at hsplit
  unfold request
  rw [hsplit]
  dsimp only
  split
  · exact ⟨hop, rfl, rfl⟩
  · exact ⟨hop, rfl, rfl⟩

/-- The server and the database honour the flags. -/
theorem opSetXattr_spec (sq : Sqlite) {req : Request} {c : Checked} {name value tail : Bytes}
    (flags : XattrFlags) (hold : req.oldpath = some (packAttr name value tail))
    (hlen : req.oldpathlen = name.length + 1 + value.length) (hv : ValidXattrs c.db.xattrs)
    (hdev : DevFits c.lk.msg.dev) (hn : IsCString name) :
    if Forbids flags (attrs c.db.xattrs (attrKey c.lk.msg name)).isSome then
      opSetXattr sq flags req c = { db := c.db, msg := { c.lk.msg with result := .fail } }
    else (opSetXattr sq flags req c).msg = c.lk.msg ∧
      attrs (opSetXattr sq flags req c).db.xattrs = Function.update (attrs c.db.xattrs)
        (attrKey c.lk.msg name) (some (bindText (value ++ tail) value.length)) := by
  have hspec := AttributesLemmas.set_spec sq value tail hv hdev hn flags
  have hrun : opSetXattr sq flags req c =
      { db := (pdbSetXattr sq c.db c.lk.msg (packAttr name value tail)
          (name.length + 1 + value.length) flags).1
        msg := c.lk.msg.failIf ((pdbSetXattr sq c.db c.lk.msg (packAttr name value tail)
          (name.length + 1 + value.length) flags).2 ≠ 0) } := by
    rw [opSetXattr, hold, hlen]
    rfl
  rw [hrun]
  split at hspec
  · rename_i hforbid
    rw [if_pos hforbid, hspec]
    rfl
  · rename_i hallowed
    obtain ⟨hok, hattrs⟩ := hspec
    rw [if_neg hallowed]
    exact ⟨if_neg (by simp [hok]), hattrs⟩

/-! ## Without flags -/

section Call
variable {sq : Sqlite} {env : ClientEnv} {leftover : Bytes} {db : Db} {t : FdTables}
  {path : Option Bytes} {fd : Int} {buf : StatBuf} {name : XattrName} {p : Bytes}

/-- The message that a call for the flagless operation sends. -/
def setxattrMsg (env : ClientEnv) (leftover p : Bytes) (path : Option Bytes) (fd : Int)
    (buf : StatBuf) (name value : Bytes) : PseudoMsg :=
  (clientRequest env (setxattrCall .setXattr path fd buf name (some value))
    ⟨packPaths p name (some value), fun _ => packPaths_nul p name (some value)⟩).received leftover

theorem clientCall_setxattr {value : Bytes}
    (hknown : callPath t (setxattrCall .setXattr path fd buf name.name (some value)) = some p)
    (hig : pseudoClientIgnorePath env (some p) = false) (hlocal : env.localOnly = false)
    (hlive : (pseudoOp sq db
      (setxattrMsg env leftover p path fd buf name.name value)).msg.result ≠ .abort) :
    clientCall sq env leftover db t (setxattrCall .setXattr path fd buf name.name (some value)) =
      some ⟨(pseudoOp sq db (setxattrMsg env leftover p path fd buf name.name value)).db, t,
        some (pseudoOp sq db (setxattrMsg env leftover p path fd buf name.name value)).msg⟩ := by
  have hop : pseudoClientOp env t (setxattrCall .setXattr path fd buf name.name (some value)) =
      some ⟨t, some (clientRequest env (setxattrCall .setXattr path fd buf name.name (some value))
        ⟨packPaths p name.name (some value),
          fun _ => packPaths_nul p name.name (some value)⟩)⟩ := by
    unfold pseudoClientOp
    dsimp only
    rw [hknown, hig]
    simp [setxattrCall, sentPath, dispatchTables, doRequest, hlocal]
  exact callServer_sent hop hlive

/-- A call without flags returns 0, and the server has run its operation. -/
theorem sharedSetxattr_runs {value : Bytes} {flags : Int} (hflags : setxattrOp flags = .setXattr)
    (hdata : name.name ≠ pseudoData)
    (hknown : callPath t (setxattrCall .setXattr path fd buf name.name (some value)) = some p)
    (hig : pseudoClientIgnorePath env (some p) = false) (hlocal : env.localOnly = false)
    (hlive : (pseudoOp sq db
      (setxattrMsg env leftover p path fd buf name.name value)).msg.result ≠ .abort) :
    let req := request (setxattrMsg env leftover p path fd buf name.name value)
    sharedSetxattr sq env leftover db t path fd (some buf) name (some value) flags =
      some ⟨(opSetXattr sq .none req (checked sq db req)).db, t, 0⟩ := by
  intro req
  have hop : req.hdr.op = .setXattr := request_hdr_op _
  have hout : (pseudoOp sq db (setxattrMsg env leftover p path fd buf name.name value)).db =
      (opSetXattr sq .none req (checked sq db req)).db := by
    have hna : aborts req (lookup sq db req) = false := by
      cases ha : aborts req (lookup sq db req) with
      | false => rfl
      | true =>
        refine absurd ?_ hlive
        rw [pseudoOp, handle_msg, if_pos ha]
    have hact : opAction sq req (checked sq db req) =
        opSetXattr sq .none req (checked sq db req) := by
      rw [opAction, hop]
    rw [pseudoOp, handle_acts (by rw [hop]; rfl) hna, hact]
    rfl
  rw [sharedSetxattr, if_neg hdata, hflags]
  dsimp only
  rw [clientCall_setxattr hknown hig hlocal hlive, hout]
  rfl

/-- The server has put the value under the inode that its lookup by path leaves in the message. -/
theorem sharedSetxattr_stores {value : Bytes} {flags : Int} (hflags : setxattrOp flags = .setXattr)
    (hdata : name.name ≠ pseudoData)
    (hknown : callPath t (setxattrCall .setXattr path fd buf name.name (some value)) = some p)
    (hp : IsCString (if stripSlash p then p.dropLast else p))
    (hlen : (packPaths p name.name (some value)).length < 2 ^ 64)
    (hig : pseudoClientIgnorePath env (some p) = false) (hlocal : env.localOnly = false)
    (hlive : (pseudoOp sq db
      (setxattrMsg env leftover p path fd buf name.name value)).msg.result ≠ .abort) :
    let req := request (setxattrMsg env leftover p path fd buf name.name value)
    let c := checked sq db req
    ValidXattrs c.db.xattrs → DevFits c.lk.msg.dev →
    ∃ s, sharedSetxattr sq env leftover db t path fd (some buf) name (some value) flags = some s ∧
      s.rc = 0 ∧ attrs s.db.xattrs = Function.update (attrs c.db.xattrs)
        (attrKey c.lk.msg name.name)
        (some (bindText (value ++ 0 :: 0 :: leftover) value.length)) := by
  intro req c hv hdev
  obtain ⟨hop, hold, holdlen⟩ := setxattr_request
    (setxattrMsg env leftover p path fd buf name.name value) .none rfl rfl hp hlen
  have hleft : (setxattrMsg env leftover p path fd buf name.name value).leftover = leftover := rfl
  have hspec := opSetXattr_spec sq .none hold holdlen hv hdev name.isCString
  rw [if_neg (by simp [Forbids]), hleft] at hspec
  have hruns : sharedSetxattr sq env leftover db t path fd (some buf) name (some value) flags =
      some ⟨(opSetXattr sq .none req c).db, t, 0⟩ :=
    sharedSetxattr_runs hflags hdata hknown hig hlocal hlive
  exact ⟨_, hruns, rfl, hspec.2⟩

end Call

/-! ## With flags -/

/-- What `XATTR_CREATE` and `XATTR_REPLACE` ask: the value is stored, unless they forbid it. -/
structure WorksWithFlags (flags : XattrFlags) (db : Db) (buf : StatBuf) (name value : Bytes)
    (s : SetxattrStep) : Prop where
  forbidden : Forbids flags (attrs db.xattrs ((buf.dev, buf.ino), name)).isSome →
    s.rc = -1 ∧ s.db.xattrs = db.xattrs
  allowed : ¬ Forbids flags (attrs db.xattrs ((buf.dev, buf.ino), name)).isSome →
    s.rc = 0 ∧ attrs s.db.xattrs ((buf.dev, buf.ino), name) = some value

section Flags
variable (sq : Sqlite) (env : ClientEnv) (leftover : Bytes) (db : Db) (t : FdTables)
  (path : Option Bytes) (fd : Int) (buf : StatBuf) (name : XattrName) (value : Bytes)
  (flags : XattrFlags)

/-- "unknown or unimplemented operator": no request is sent. -/
theorem clientCall_flags {p : Bytes} (hflags : flags ≠ .none)
    (hknown : callPath t (setxattrCall flags.op path fd buf name.name (some value)) = some p) :
    clientCall sq env leftover db t (setxattrCall flags.op path fd buf name.name (some value)) =
      some ⟨db, t, none⟩ := by
  have hop : pseudoClientOp env t (setxattrCall flags.op path fd buf name.name (some value)) =
      some ⟨t, none⟩ := by
    unfold pseudoClientOp
    dsimp only
    rw [hknown]
    cases hig : pseudoClientIgnorePath env (some p) <;> cases flags <;>
      simp_all [setxattrCall, XattrFlags.op, Op.neverIgnored, sentPath, dispatchTables, doRequest]
  rw [clientCall, callServer, hop]
  rfl

/-- The call fails, whatever the store holds. -/
theorem sharedSetxattr_flags {p : Bytes} (hflags : flags ≠ .none)
    (hknown : callPath t (setxattrCall flags.op path fd buf name.name (some value)) = some p) :
    sharedSetxattr sq env leftover db t path fd (some buf) name (some value) flags.toInt =
      some ⟨db, t, -1⟩ := by
  have hop : flags.op ≠ .setXattr := by
    cases flags <;> simp_all [XattrFlags.op]
  rw [sharedSetxattr, setxattrOp_toInt]
  split
  · rfl
  · dsimp only
    rw [clientCall_flags sq env leftover db t path fd buf name value flags hflags hknown,
      Option.map_some, if_neg hop]

/-- For a file with a known path a call with flags does what they ask exactly when they forbid
the change. -/
theorem sharedSetxattr_flags_iff (p : Bytes) (hflags : flags ≠ .none)
    (hknown : callPath t (setxattrCall flags.op path fd buf name.name (some value)) = some p) :
    (∃ s, sharedSetxattr sq env leftover db t path fd (some buf) name (some value) flags.toInt =
        some s ∧ WorksWithFlags flags db buf name.name value s) ↔
      Forbids flags (attrs db.xattrs ((buf.dev, buf.ino), name.name)).isSome := by
  rw [sharedSetxattr_flags sq env leftover db t path fd buf name value flags hflags hknown]
  constructor
  · rintro ⟨s, hs, hworks⟩
    obtain rfl := Option.some.inj hs
    rcases Decidable.em (Forbids flags (attrs db.xattrs ((buf.dev, buf.ino), name.name)).isSome)
      with hforbid | hallowed
    · exact hforbid
    · exact absurd (hworks.allowed hallowed).1 (by simp)
  · intro hforbid
    exact ⟨_, rfl, fun _ => ⟨rfl, rfl⟩, fun hallowed => absurd hforbid hallowed⟩

end Flags

/-- `user.a`. -/
def exName : XattrName := ⟨ascii ['u', 's', 'e', 'r', '.', 'a'], by decide, by decide⟩

/-- `XATTR_REPLACE` on a file without the attribute is refused, as it should be. -/
theorem sharedSetxattr_replace_refused :
    ∃ s, sharedSetxattr Sqlite.inOrder exEnv [] (Db.empty ⟨0, []⟩) ⟨[], []⟩
        (some (ascii ['/', 'a'])) (-1) (some exBuf) exName (some (ascii ['x']))
        XattrFlags.replace.toInt = some s ∧
      WorksWithFlags .replace (Db.empty ⟨0, []⟩) exBuf exName.name (ascii ['x']) s :=
  (sharedSetxattr_flags_iff _ _ _ _ _ _ _ _ _ _ .replace (ascii ['/', 'a']) (by decide)
    (by decide)).mpr (by decide)

/-- `XATTR_CREATE` on a file without the attribute is refused as well. -/
theorem sharedSetxattr_create_refused :
    ¬ ∃ s, sharedSetxattr Sqlite.inOrder exEnv [] (Db.empty ⟨0, []⟩) ⟨[], []⟩
        (some (ascii ['/', 'a'])) (-1) (some exBuf) exName (some (ascii ['x']))
        XattrFlags.create.toInt = some s ∧
      WorksWithFlags .create (Db.empty ⟨0, []⟩) exBuf exName.name (ascii ['x']) s := by
  rintro ⟨s, hs, hworks⟩
  have hrc : (sharedSetxattr Sqlite.inOrder exEnv [] (Db.empty ⟨0, []⟩) ⟨[], []⟩
      (some (ascii ['/', 'a'])) (-1) (some exBuf) exName (some (ascii ['x']))
      XattrFlags.create.toInt).map (·.rc) = some (-1) := by
    decide
  rw [hs, Option.map_some, (hworks.allowed (by decide)).1] at hrc
  exact absurd hrc (by decide)

end Pseudo
