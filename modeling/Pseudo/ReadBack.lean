import Pseudo.SameFile
import Pseudo.ServeClient

/-!
# An attribute read back

`shared_getxattr` and `shared_listxattr` of the Linux port: the request goes to the server, the
answer of `pdb_get_xattr` or `pdb_list_xattr` comes back behind a header, and the wrapper copies it
into the caller's buffer as far as that goes.

Results:
1. `replyTo_eq`: what the client receives.
2. `sharedSetxattr_wrote`: what a call of `setxattr` that came back has written.
3. `readBack_iff`: when an attribute that was written is read back.
-/

namespace Pseudo

open Table

/-! ## 1. The code -/

/-- The request as `serve_client` gets it. -/
def ClientRequest.served (r : ClientRequest) (leftover : Bytes) : ServerMsg :=
  ⟨r.hdr, r.path, leftover, r.path_length, fun _ => r.path_nul⟩

/-- What a call of `pseudo_client_op` meets: what is left in the server's receive buffer, and the
client's own. -/
structure Wire where
  leftover : Bytes
  undetermined : Undetermined
  buffer : ReceiveBuffer
  good : buffer.Good

/-- What a call leaves of the server, and the message it returns, if any. -/
structure ReplyStep where
  server : ServerState
  msg : Option MsgMemory

/-- A call of `pseudo_client_op` by the client `i` that waits for the answer. The client does not
come back from undefined behaviour, nor from `RESULT_ABORT`. -/
def replyTo (sq : Sqlite) (env : ClientEnv) (wire : Wire) (s : ServerState) (i : Nat)
    (t : FdTables) (call : ClientCall) : Option ReplyStep :=
  (pseudoClientOp env t call).bind fun step =>
    match step.request with
    | none => some ⟨s, none⟩
    | some r =>
      let (s, reply) := serveRequest sq s i (r.served wire.leftover)
      if reply.hdr.result = .abort then none
      else
        (pseudoMsgReceive wire.undetermined wire.buffer reply.sending.send.bytes).map fun receipt =>
          ⟨s, receipt.msg⟩

/-- The numbers that `errno` is set to. -/
inductive XattrErrno
  | enoattr
  | erange
  deriving DecidableEq, Repr

/-- What is returned, what has been copied to `value` or `list`, and `errno`. -/
structure ReadStep where
  server : ServerState
  rc : Int
  stored : Bytes
  errno : Option XattrErrno

/-- What the two functions do with the message. `value`: the pointer is not null. -/
def ReplyStep.copyOut (reply : ReplyStep) (value : Bool) (size : Nat) : ReadStep :=
  match reply.msg with
  | none => ⟨reply.server, -1, [], some .enoattr⟩
  | some result =>
    if result.hdr.result ≠ .succeed then ⟨reply.server, -1, [], some .enoattr⟩
    else if value = true then
      if size ≥ result.hdr.pathlen then
        ⟨reply.server, result.hdr.pathlen, result.mem.take result.hdr.pathlen, none⟩
      else ⟨reply.server, result.hdr.pathlen, result.mem.take size, some .erange⟩
    else ⟨reply.server, result.hdr.pathlen, [], none⟩

def getxattrCall (path : Option Bytes) (fd : Int) (buf : StatBuf) (name : Bytes) : ClientCall :=
  { op := .getXattr, fd := fd, path := path, buf := some buf, extra1 := some name }

def listxattrCall (path : Option Bytes) (fd : Int) (buf : StatBuf) : ClientCall :=
  { op := .listXattr, fd := fd, path := path, buf := some buf }

section

variable (sq : Sqlite) (env : ClientEnv) (wire : Wire) (s : ServerState) (i : Nat) (t : FdTables)
  (path : Option Bytes) (fd : Int) (buf : Option StatBuf)

/-- `shared_getxattr` -/
def sharedGetxattr (name : Bytes) (value : Bool) (size : Nat) : Option ReadStep :=
  match buf with
  | none => some ⟨s, -1, [], none⟩
  | some buf =>
    (replyTo sq env wire s i t (getxattrCall path fd buf name)).map (·.copyOut value size)

/-- `shared_listxattr` -/
def sharedListxattr (list : Bool) (size : Nat) : Option ReadStep :=
  match buf with
  | none => some ⟨s, -1, [], none⟩
  | some buf => (replyTo sq env wire s i t (listxattrCall path fd buf)).map (·.copyOut list size)

end

/-- What is seen of a call. -/
def ReadStep.answer (step : ReadStep) : Int × Bytes × Option XattrErrno :=
  (step.rc, step.stored, step.errno)

/-! ## 2. What it should do -/

/-- The rule for buffers: a size of 0 asks for the length, and a buffer that is too small is an
error. -/
def SizeRule (whole : Bytes) (size : Nat) (step : ReadStep) : Prop :=
  if size = 0 then step.rc = whole.length ∧ step.stored = []
  else if whole.length ≤ size then step.rc = whole.length ∧ step.stored = whole
  else step.rc = -1 ∧ step.errno = some .erange

/-- The names that are there in order, each followed by a NUL. -/
def NameList (present : Bytes → Prop) (whole : Bytes) : Prop :=
  ∃ names : List Bytes, whole = names.flatMap (· ++ [0]) ∧ names.Pairwise (· < ·) ∧
    ∀ name, name ∈ names ↔ present name

namespace ReadBackLemmas

open SameFileLemmas

/-! ## 3. The size -/

/-- A message that brings an answer. -/
structure Brings (whole : Bytes) (m : MsgMemory) : Prop where
  result : m.hdr.result = .succeed
  pathlen : m.hdr.pathlen = whole.length
  path : m.mem.take whole.length = whole

theorem sizeRule_iff {whole : Bytes} {s : ServerState} {m : MsgMemory} (h : Brings whole m)
    {value : Bool} {size : Nat} (hvalue : size ≠ 0 → value = true) :
    SizeRule whole size (ReplyStep.copyOut ⟨s, some m⟩ value size) ↔
      size = 0 ∨ whole.length ≤ size := by
  unfold SizeRule ReplyStep.copyOut
  simp only [h.result, h.pathlen, h.path, ne_eq, not_true_eq_false, if_false]
  rcases Decidable.em (size = 0) with rfl | hsize
  · refine iff_of_true ?_ (Or.inl rfl)
    rw [if_pos rfl]
    split
    · split
      · rename_i hle
        have hnil : whole = [] := List.eq_nil_of_length_eq_zero (Nat.le_zero.mp hle)
        exact ⟨rfl, hnil⟩
      · exact ⟨rfl, List.take_zero (l := m.mem)⟩
    · exact ⟨rfl, rfl⟩
  · rw [hvalue hsize, if_neg hsize, or_iff_right hsize, if_pos rfl]
    split
    · rename_i hle
      exact iff_of_true ⟨rfl, rfl⟩ hle
    · rename_i hgt
      refine iff_of_false (fun hrule => ?_) hgt
      have hrc : ((whole.length : Nat) : Int) = -1 := hrule.1
      omega

/-! ## 4. The answer -/

/-- The answer to a request that has been handled. -/
def answerTo (out : Outcome) (i : Nat) : Reply where
  hdr := { out.msg with type := .ack, client := BitVec.ofNat 32 i,
                        pathlen := (out.response.getD []).length }
  path := out.response

/-- What the server responds to a request that waits. -/
theorem served_response {r : ClientRequest} (htype : r.hdr.type = .op) (sq : Sqlite)
    (logging : Bool) (db : Db) (leftover : Bytes) :
    pseudoServerResponse sq logging db (r.served leftover) =
      ⟨(pseudoOp sq db (r.received leftover)).db, (pseudoOp sq db (r.received leftover)).msg,
        (pseudoOp sq db (r.received leftover)).response, 0⟩ := by
  have hop : (r.served leftover).hdr.type = .op := htype
  have hping : (r.served leftover).hdr.type ≠ .ping := by
    rw [hop]
    decide
  rw [pseudoServerResponse, dif_neg hping, if_pos (Or.inl hop)]
  rfl

/-- What the client receives of the server's answer. -/
theorem replyTo_eq {sq : Sqlite} {env : ClientEnv} (wire : Wire) {s : ServerState} (i : Nat)
    {t t' : FdTables} {call : ClientCall} {r : ClientRequest} {out : Outcome}
    (hop : pseudoClientOp env t call = some ⟨t', some r⟩) (htype : r.hdr.type = .op)
    (hout : pseudoOp sq s.db (r.received wire.leftover) = out)
    (hlive : out.msg.result ≠ .abort) (hcode : out.msg.op.IsCode)
    (hshort : (out.response.getD []).length < 2 ^ 31 - 256) :
    ∃ m, replyTo sq env wire s i t call = some ⟨{ s with db := out.db }, some m⟩ ∧
      m.hdr.result = out.msg.result ∧ m.hdr.pathlen = (out.response.getD []).length ∧
      m.mem.take (out.response.getD []).length = out.response.getD [] := by
  have hserve : serveRequest sq s i (r.served wire.leftover) =
      ({ s with db := out.db }, answerTo out i) := by
    rw [serveRequest, served_response htype, hout, answerTo]
    cases hpath : out.response with
    | none => rfl
    | some path =>
      rw [hpath, Option.getD_some] at hshort
      have hmod : path.length % 2 ^ 32 = path.length := Nat.mod_eq_of_lt (by omega)
      simp only [Option.getD_some, hmod]
      rfl
  have hresult : (answerTo out i).hdr.result = out.msg.result := rfl
  generalize hreply : answerTo out i = reply at hserve hresult
  have hsent : reply.sending.path = out.response.getD [] ∧ reply.sending.Valid ∧
      reply.sending.msg.hdr.result = out.msg.result := by
    rw [← hreply, answerTo]
    cases hpath : out.response with
    | none => exact ⟨rfl, ⟨hcode, Nat.le_refl 0, show 0 < 2 ^ 31 - 256 by decide⟩, rfl⟩
    | some path =>
      have htake : path.take path.length = path := List.take_length
      refine ⟨htake, ⟨hcode, Nat.le_refl _, ?_⟩, rfl⟩
      show (path.take path.length).length < _
      rwa [htake, ← @Option.getD_some _ path [], ← hpath]
  obtain ⟨hpath, hvalid, hsentResult⟩ := hsent
  obtain ⟨b', m, hreceive, -, hdelivers⟩ := receive_send wire.undetermined [] wire.good hvalid
  rw [List.append_nil] at hreceive
  refine ⟨m, ?_, by rw [hdelivers.hdr]; exact hsentResult, by rw [hdelivers.hdr, hpath], ?_⟩
  · rw [replyTo, hop, Option.bind_some]
    dsimp only
    rw [hserve]
    dsimp only
    rw [if_neg (by rw [hresult]; exact hlive), hreceive]
    rfl
  · rcases Decidable.em (out.response.getD [] = []) with hnil | hne
    · rw [hnil]
      rfl
    · have htake := hdelivers.path (hpath ▸ hne)
      have hfront := congrArg (List.take (out.response.getD []).length) htake
      rw [hpath] at hfront
      rwa [List.take_take, Nat.min_eq_left (Nat.le_succ _), List.take_left] at hfront

/-! ## 5. What the three functions send -/

section Sends
variable {env : ClientEnv} {t : FdTables} {call : ClientCall} {p : Bytes}

/-- A request is sent, and the descriptors stay as they are. -/
theorem xattr_sends {sent : SentPath} (hop : Op.xattr call.op) (hknown : callPath t call = some p)
    (hig : pseudoClientIgnorePath env (some p) = false) (hlocal : env.localOnly = false)
    (hsent : sentPath (some p) call.extra1 call.extra2 = some sent) :
    pseudoClientOp env t call = some ⟨t, some (clientRequest env call sent)⟩ := by
  have hrename : call.op ≠ .rename := hop.plain.2.2.1
  have htables : dispatchTables env t call sent.1 = t := by
    unfold dispatchTables
    rcases hop with h | h | h <;> rw [h]
  have hrequest : doRequest env call.op = true := by
    rcases hop with h | h | h <;> rw [h] <;> rfl
  unfold pseudoClientOp
  dsimp only
  rw [hknown, hig, if_neg (fun h => Bool.false_ne_true h.2), if_neg (fun h => hrename h.1), hsent,
    Option.map_some, htables, hrequest, hlocal]
  rfl

/-- The server splits what is sent behind the path, without its trailing slash. -/
theorem sentPath_splits (extra1 extra2 : Option Bytes) :
    ∃ sent : SentPath, sentPath (some p) extra1 extra2 = some sent ∧
      ∃ rest, sent.1 = sentName p ++ 0 :: rest ∧
        ∀ name, extra1 = some name → ∃ after, rest = name ++ 0 :: after := by
  cases extra1 with
  | none =>
    refine ⟨_, rfl, if stripSlash p then [0] else [], ?_, fun name h => by cases h⟩
    show (if stripSlash p then p.dropLast ++ [0, 0] else p ++ [0]) = _
    unfold sentName
    split <;> rfl
  | some name =>
    refine ⟨_, rfl, name ++ 0 :: ((extra2.map fun value => value ++ [0]).getD []), ?_, ?_⟩
    · show packPaths p name extra2 = _
      unfold packPaths sentName
      cases extra2 <;> simp
    · rintro name' h
      obtain rfl := Option.some.inj h
      exact ⟨_, rfl⟩

end Sends

/-! ## 6. What the server answers -/

section Answers
variable {sq : Sqlite} {db : Db} {req : Request} {q : Bytes} {buf : StatBuf}

theorem checked_names (hv : UniqueKeys XattrRow.key db.xattrs) :
    UniqueKeys XattrRow.key (checked sq db req).db.xattrs :=
  List.Nodup.sublist (RenumberLemmas.checked_sublist.map _) hv

/-- The value under a name, unless it is empty. -/
def valueAt (t : List XattrRow) (inode : BitVec 64 × BitVec 64) (name : Bytes) : Option Bytes :=
  (attrs t (inode, name)).filter fun v => v ≠ []

theorem getXattr_handled (h : Asks q buf req) (hop : req.hdr.op = .getXattr)
    (hlive : aborts req (lookup sq db req) = false) (hdev : DevFits buf.dev)
    (hv : UniqueKeys XattrRow.key db.xattrs) {name tail : Bytes}
    (hold : req.oldpath = some (name ++ 0 :: tail)) (hname : IsCString name) {value : Option Bytes}
    (hvalue : valueAt (checked sq db req).db.xattrs ((hits sq db.files req).inode buf) name =
      value) :
    handle sq db req =
      ⟨(checked sq db req).db, (lookup sq db req).msg.failIf (value = none), value⟩ := by
  have hget : pdbGetXattr sq (checked sq db req).db (lookup sq db req).msg
      (req.oldpath.getD []) = value := by
    rw [pdbGetXattr_eq (checked_names hv) (h.devFits hdev), hold, Option.getD_some,
      cstr_append_nul hname, h.attrKey_eq]
    exact hvalue
  rw [handle_acts (by rw [hop]; rfl) hlive, opAction, hop]
  dsimp only
  rw [opGetXattr, checked_lk, hget]
  rfl

theorem listXattr_handled (h : Asks q buf req) (hop : req.hdr.op = .listXattr)
    (hlive : aborts req (lookup sq db req) = false) (hdev : DevFits buf.dev)
    (hv : UniqueKeys XattrRow.key db.xattrs) :
    ∃ whole, NameList (fun name => (attrs (checked sq db req).db.xattrs
        ((hits sq db.files req).inode buf, name)).isSome = true) whole ∧
      handle sq db req = ⟨(checked sq db req).db, (lookup sq db req).msg, some whole⟩ := by
  obtain ⟨names, hlist, hsorted, hmem⟩ := pdbListXattr_eq (checked_names hv) (h.devFits hdev)
  refine ⟨_, ⟨names, hlist, hsorted, fun name => ?_⟩, ?_⟩
  · rw [hmem name, h.attrKey_eq]
  · rw [handle_acts (by rw [hop]; rfl) hlive, opAction, hop]
    rfl

end Answers

/-- There is one list of the names. -/
theorem nameList_unique {present : Bytes → Prop} {whole whole' : Bytes}
    (h : NameList present whole) (h' : NameList present whole') : whole = whole' := by
  obtain ⟨names, hwhole, hsorted, hmem⟩ := h
  obtain ⟨names', hwhole', hsorted', hmem'⟩ := h'
  have hnodup {names : List Bytes} (hsorted : names.Pairwise (· < ·)) : names.Nodup :=
    hsorted.imp fun {a b} hlt (heq : a = b) => absurd (heq ▸ hlt : a < a) (List.lt_irrefl a)
  have hperm : names.Perm names' :=
    (List.perm_ext_iff_of_nodup (hnodup hsorted) (hnodup hsorted')).mpr fun name =>
      (hmem name).trans (hmem' name).symm
  have hnames : names = names' :=
    hperm.eq_of_pairwise (fun a b _ _ hab hba => absurd (List.lt_trans hab hba) (List.lt_irrefl a))
      hsorted hsorted'
  rw [hwhole, hwhole', hnames]

/-! ## 7. What `setxattr` has written -/

/-- The value stands under the inode that the lookups found. -/
structure Wrote (sq : Sqlite) (db : Db) (req : Request) (buf : StatBuf) (name v : Bytes)
    (db' : Db) : Prop where
  live : aborts req (lookup sq db req) = false
  files : db'.files = (checked sq db req).db.files
  names : UniqueKeys XattrRow.key db'.xattrs
  attrs : attrs db'.xattrs = Function.update (attrs (checked sq db req).db.xattrs)
    ((hits sq db.files req).inode buf, name) (some v)

section Set
variable {sq : Sqlite} {env : ClientEnv} {leftover : Bytes} {db : Db} {t : FdTables}
  {path : Option Bytes} {fd : Int} {buf : StatBuf} {name : XattrName} {p v : Bytes}
  {step : SetxattrStep}

theorem sentName_isCString (hp : IsCString p) : IsCString (sentName p) := by
  unfold sentName
  split
  · exact fun h => hp (List.dropLast_subset p h)
  · exact hp

theorem asks_set (hp : IsCString p) :
    Asks (sentName p) buf (request (setxattrMsg env leftover p path fd buf name.name v)) := by
  have hsent : packPaths p name.name (some v) =
      sentName p ++ 0 :: (name.name ++ 0 :: (v ++ [0])) := by
    unfold packPaths sentName
    simp
  exact (asks_request leftover rfl (Or.inl rfl) hsent (sentName_isCString hp)).1

/-- A call that comes back has not been refused. -/
theorem sharedSetxattr_live (hdata : name.name ≠ pseudoData)
    (hknown : callPath t (setxattrCall .setXattr path fd buf name.name (some v)) = some p)
    (hig : pseudoClientIgnorePath env (some p) = false) (hlocal : env.localOnly = false)
    (hset : sharedSetxattr sq env leftover db t path fd (some buf) name (some v) 0 = some step) :
    (pseudoOp sq db (setxattrMsg env leftover p path fd buf name.name v)).msg.result ≠ .abort := by
  intro habort
  let call := setxattrCall .setXattr path fd buf name.name (some v)
  have hop : pseudoClientOp env t call = some ⟨t, some (clientRequest env call
      ⟨packPaths p name.name (some v), fun _ => packPaths_nul p name.name (some v)⟩)⟩ :=
    xattr_sends (Or.inl rfl) hknown hig hlocal rfl
  have hflags : setxattrOp 0 = .setXattr := rfl
  have hnone : clientCall sq env leftover db t
      (setxattrCall .setXattr path fd buf name.name (some v)) = none := by
    rw [clientCall, callServer, hop, Option.bind_some]
    exact if_pos habort
  rw [sharedSetxattr, if_neg hdata, hflags] at hset
  dsimp only at hset
  rw [hnone] at hset
  cases hset

theorem sharedSetxattr_wrote (hv : ValidXattrs db.xattrs) (hdev : DevFits buf.dev)
    (hp : IsCString p) (hshort : (packPaths p name.name (some v)).length < 2 ^ 31 - 256)
    (hdata : name.name ≠ pseudoData)
    (hknown : callPath t (setxattrCall .setXattr path fd buf name.name (some v)) = some p)
    (hig : pseudoClientIgnorePath env (some p) = false) (hlocal : env.localOnly = false)
    (hset : sharedSetxattr sq env leftover db t path fd (some buf) name (some v) 0 = some step) :
    Wrote sq db (request (setxattrMsg env leftover p path fd buf name.name v)) buf name.name v
      step.db := by
  have hlive := sharedSetxattr_live hdata hknown hig hlocal hset
  have hflags : setxattrOp 0 = .setXattr := rfl
  have hasks : Asks (sentName p) buf
      (request (setxattrMsg env leftover p path fd buf name.name v)) := asks_set hp
  have hvlen : v.length < 2 ^ 31 := by
    have hlen : v.length ≤ (packPaths p name.name (some v)).length := by
      simp [packPaths]
      omega
    omega
  have hchecked (req : Request) : ValidXattrs (checked sq db req).db.xattrs :=
    ⟨checked_names hv.names, List.Nodup.sublist (RenumberLemmas.checked_sublist.map _) hv.ids,
      fun x hx => hv.range x (RenumberLemmas.checked_sublist.subset hx)⟩
  have hfits := @Asks.devFits sq db _ _ _ hasks hdev
  obtain ⟨s, hs, -, hattrs⟩ := sharedSetxattr_stores hflags hdata hknown (sentName_isCString hp)
    (show (packPaths p name.name (some v)).length < 2 ^ 64 by omega) hig hlocal hlive
    (hchecked _) hfits
  have hruns := sharedSetxattr_runs hflags hdata hknown hig hlocal hlive
  obtain rfl := Option.some.inj (hset.symm.trans hs)
  obtain rfl := Option.some.inj (hset.symm.trans hruns)
  generalize hreq : request (setxattrMsg env leftover p path fd buf name.name v) = req at *
  refine ⟨?_, @opSetXattr_files sq req (checked sq db req) .none, ?_, ?_⟩
  · cases ha : aborts req (lookup sq db req) with
    | false => rfl
    | true =>
      refine absurd ?_ hlive
      rw [pseudoOp, hreq, handle_msg, if_pos ha]
  · exact pdbSetXattr_names sq (hchecked req).names hfits (req.oldpath.getD []) req.oldpathlen .none
  · refine hattrs.trans ?_
    rw [checked_lk, hasks.attrKey_eq, AttributesLemmas.bindText_append hvlen]

end Set

/-! ## 8. What is read afterwards -/

section Read
variable {sq : Sqlite} {env : ClientEnv} {wire : Wire} {s : ServerState} {i : Nat} {t : FdTables}
  {path : Option Bytes} {fd : Int} {buf : StatBuf} {name p q v : Bytes} {req req' : Request}

/-- What a call sends about a file with a known path. -/
theorem xattr_request {call : ClientCall} (leftover : Bytes) (hop : Op.xattr call.op)
    (hbuf : call.buf = some buf) (hknown : callPath t call = some p) (hp : IsCString p)
    (hig : pseudoClientIgnorePath env (some p) = false) (hlocal : env.localOnly = false) :
    ∃ r, pseudoClientOp env t call = some ⟨t, some r⟩ ∧
      r.hdr.type = (if call.op.waits then .op else .fastop) ∧
      Asks (sentName p) buf (request (r.received leftover)) ∧
      (request (r.received leftover)).hdr.op = call.op ∧
      ∀ name, call.extra1 = some name →
        ∃ tail, (request (r.received leftover)).oldpath = some (name ++ 0 :: tail) := by
  obtain ⟨sent, hsentPath, rest, hsent, hrest⟩ := @sentPath_splits p call.extra1 call.extra2
  have hsends := xattr_sends hop hknown hig hlocal hsentPath
  obtain ⟨hasks, hreqOp, hold⟩ :=
    @asks_request env call buf sent _ rest leftover hbuf hop hsent (sentName_isCString hp)
  refine ⟨_, hsends, ?_, hasks, hreqOp, fun name hname => ?_⟩
  · show (clientHeader env call sent.1).type = _
    unfold clientHeader
    rw [hbuf]
    dsimp only
    split <;> rfl
  · obtain ⟨after, hafter⟩ := hrest name hname
    refine ⟨after ++ 0 :: leftover, ?_⟩
    rw [hold, hafter, List.append_assoc]
    rfl

/-- An answer with the attributes of the file gets to the client. -/
theorem replyTo_brings {call : ClientCall} {r : ClientRequest} {db' : Db} {whole : Bytes}
    (hop : pseudoClientOp env t call = some ⟨t, some r⟩) (htype : r.hdr.type = .op)
    (hreq : request (r.received wire.leftover) = req) (hasks : Asks q buf req)
    (hout : handle sq s.db req = ⟨db', (lookup sq s.db req).msg, some whole⟩)
    (hshort : whole.length < 2 ^ 31 - 256) :
    ∃ m, replyTo sq env wire s i t call = some ⟨{ s with db := db' }, some m⟩ ∧
      Brings whole m := by
  have hpseudo : pseudoOp sq s.db (r.received wire.leftover) =
      ⟨db', (lookup sq s.db req).msg, some whole⟩ := by
    rw [pseudoOp, hreq, hout]
  obtain ⟨-, hmsgOp, hresult⟩ := @Asks.lookup_msg sq s.db _ _ _ hasks
  have hlive : (lookup sq s.db req).msg.result ≠ .abort := by
    rw [hresult]
    decide
  have hcode : (lookup sq s.db req).msg.op.IsCode := by
    rw [hmsgOp]
    rcases hasks.op with h | h | h <;> rw [h] <;> decide
  obtain ⟨m, hreply, hm, hlen, hmem⟩ := replyTo_eq wire i hop htype hpseudo hlive hcode hshort
  exact ⟨m, hreply, ⟨hm.trans hresult, hlen, hmem⟩⟩

/-- The attribute is read when the rows pass the checks. -/
theorem sharedGetxattr_reads
    (hknown : callPath t (getxattrCall path fd buf name) = some p) (hp : IsCString p)
    (hig : pseudoClientIgnorePath env (some p) = false) (hlocal : env.localOnly = false)
    (hname : IsCString name) (hdev : DevFits buf.dev) (hv : UniqueKeys XattrRow.key s.db.xattrs)
    (hasks : Asks (sentName p) buf req) (hcalm : Calm req (hits sq s.db.files req))
    (hvalue : valueAt s.db.xattrs ((hits sq s.db.files req).inode buf) name = some v)
    (hshort : v.length < 2 ^ 31 - 256) :
    ∃ m, replyTo sq env wire s i t (getxattrCall path fd buf name) = some ⟨s, some m⟩ ∧
      Brings v m := by
  obtain ⟨r, hop, htype, hasks', hreqOp, hold⟩ := xattr_request wire.leftover
    (Or.inr (Or.inl rfl)) rfl hknown hp hig hlocal
  obtain ⟨tail, hold⟩ := hold name rfl
  generalize hreq : request (r.received wire.leftover) = req' at hasks' hreqOp hold
  obtain ⟨hlive, hchecked⟩ := hasks.again hasks' hcalm
  have hvalue' : valueAt (checked sq s.db req').db.xattrs ((hits sq s.db.files req').inode buf)
      name = some v := by
    rw [hchecked, hasks.hits_eq hasks']
    exact hvalue
  have hout := getXattr_handled hasks' hreqOp hlive hdev hv hold hname hvalue'
  rw [hchecked] at hout
  exact replyTo_brings hop htype hreq hasks' hout hshort

/-- So are the names. -/
theorem sharedListxattr_reads
    (hknown : callPath t (listxattrCall path fd buf) = some p) (hp : IsCString p)
    (hig : pseudoClientIgnorePath env (some p) = false) (hlocal : env.localOnly = false)
    (hdev : DevFits buf.dev) (hv : UniqueKeys XattrRow.key s.db.xattrs)
    (hasks : Asks (sentName p) buf req) (hcalm : Calm req (hits sq s.db.files req))
    {whole : Bytes} (hwhole : NameList (fun name => (attrs s.db.xattrs
      ((hits sq s.db.files req).inode buf, name)).isSome = true) whole)
    (hshort : whole.length < 2 ^ 31 - 256) :
    ∃ m, replyTo sq env wire s i t (listxattrCall path fd buf) = some ⟨s, some m⟩ ∧
      Brings whole m := by
  obtain ⟨r, hop, htype, hasks', hreqOp, -⟩ := xattr_request wire.leftover
    (Or.inr (Or.inr rfl)) rfl hknown hp hig hlocal
  obtain ⟨hlive, hchecked⟩ := hasks.again hasks' hcalm
  obtain ⟨whole', hwhole', hout⟩ := listXattr_handled hasks' hreqOp hlive hdev hv
  rw [hchecked, hasks.hits_eq hasks'] at hwhole'
  obtain rfl := nameList_unique hwhole hwhole'
  rw [hchecked] at hout
  exact replyTo_brings hop htype rfl hasks' hout hshort

end Read

/-! ## 9. What is not read afterwards -/

section Lost
variable {sq : Sqlite} {db db' : Db} {req : Request} {q : Bytes} {buf : StatBuf} {r : FileRow}

theorem pdbUnlinkFileDev_xattrs (db : Db) (msg : MsgHeader) :
    (pdbUnlinkFileDev db msg).xattrs = delete (fun x => x.hasKey msg.key) db.xattrs := by
  have hcount : count (atKey msg.key) (delete (atKey msg.key) db.files) = 0 := by
    simp [count, delete, List.filter_filter]
  unfold pdbUnlinkFileDev pdbClearXattrs
  dsimp only
  rw [hcount]
  simp

/-- The checks by inode clear the attributes of one inode, if any. -/
theorem checkIno_xattrs (db : Db) (req : Request) {lk : Lookup} (hop : req.hdr.op ≠ .didUnlink)
    (hrow : lk.foundIno = true → ∃ p, lk.pathByIno = some p) :
    (checkIno db req lk).1.xattrs = delete (fun x => lk.foundIno &&
      typeMismatch lk.byIno req.hdr && x.hasKey lk.msg.key) db.xattrs := by
  cases hfound : lk.foundIno with
  | false =>
    rw [checkIno_absent hfound]
    exact (delete_eq_self fun _ _ => rfl).symm
  | true =>
    obtain ⟨p, hp⟩ := hrow hfound
    rw [checkIno_some hp, if_pos ⟨hfound, hop⟩]
    cases typeMismatch lk.byIno req.hdr with
    | false => exact (delete_eq_self fun _ _ => rfl).symm
    | true => exact pdbUnlinkFileDev_xattrs db lk.msg

/-- The clean-up for a request without a row for its path looks at inodes alone. -/
theorem valueAt_checked (h : Asks q buf req) (hpath : (lookup sq db req).foundPath = false)
    (hfiles : db'.files = db.files) {inode : BitVec 64 × BitVec 64} {name : Bytes}
    (hvalue : valueAt db'.xattrs inode name = valueAt db.xattrs inode name) :
    valueAt (checked sq db' req).db.xattrs inode name =
      valueAt (checked sq db req).db.xattrs inode name := by
  have hlookup : lookup sq db' req = lookup sq db req := by
    rw [lookup_hits h.proper, lookup_hits h.proper, hfiles]
  have hrow := @lookup_pathByIno sq db req
  unfold checked
  rw [hlookup]
  generalize lookup sq db req = lk at hpath hrow
  have hkeep (db : Db) : checkPath db req lk = (db, false) := by
    rw [checkPath, if_neg (by simp [hpath]), hpath]
  have hswept (db : Db) : attrs (checkIno db req lk).1.xattrs (inode, name) =
      if (lk.foundIno && typeMismatch lk.byIno req.hdr &&
        (inode.1 == columnInt64 lk.msg.key.1 && inode.2 == lk.msg.key.2)) = true then none
      else attrs db.xattrs (inode, name) := by
    rw [checkIno_xattrs db req h.op.plain.1 hrow]
    refine contents_delete_at fun x _ hx => ?_
    have hdev : x.dev = inode.1 := congrArg (fun k : AttrKey => k.1.1) hx
    have hino : x.ino = inode.2 := congrArg (fun k : AttrKey => k.1.2) hx
    rw [XattrRow.hasKey, hdev, hino]
  dsimp only
  rw [hkeep, hkeep]
  dsimp only
  unfold valueAt at hvalue ⊢
  rw [hswept, hswept]
  split
  · rfl
  · exact hvalue

/-- Two stores that agree on the file give the same answer. -/
theorem getXattr_congr (h : Asks q buf req) (hop : req.hdr.op = .getXattr) (hdev : DevFits buf.dev)
    (hv : UniqueKeys XattrRow.key db.xattrs) (hv' : UniqueKeys XattrRow.key db'.xattrs)
    {name tail : Bytes} (hold : req.oldpath = some (name ++ 0 :: tail)) (hname : IsCString name)
    (hpath : (lookup sq db req).foundPath = false) (hfiles : db'.files = db.files)
    (hvalue : valueAt db'.xattrs ((hits sq db.files req).inode buf) name =
      valueAt db.xattrs ((hits sq db.files req).inode buf) name) :
    (handle sq db' req).msg = (handle sq db req).msg ∧
      (handle sq db' req).response = (handle sq db req).response := by
  have hlookup : lookup sq db' req = lookup sq db req := by
    rw [lookup_hits h.proper, lookup_hits h.proper, hfiles]
  have hafter := valueAt_checked h hpath hfiles hvalue
  cases ha : aborts req (lookup sq db req) with
  | true =>
    have ha' : aborts req (lookup sq db' req) = true := hlookup ▸ ha
    unfold handle
    dsimp only
    rw [if_pos ha, if_pos ha', hlookup]
    exact ⟨rfl, rfl⟩
  | false =>
    have ha' : aborts req (lookup sq db' req) = false := hlookup ▸ ha
    rw [← hfiles] at hafter
    have hout' := getXattr_handled h hop ha' hdev hv' hold hname hafter
    rw [hfiles] at hout'
    rw [getXattr_handled h hop ha hdev hv hold hname rfl, hout', hlookup]
    exact ⟨rfl, rfl⟩

end Lost

/-- The client sees nothing of the store but the answer. -/
theorem replyTo_congr {sq : Sqlite} {env : ClientEnv} {wire : Wire} {s : ServerState} {i : Nat}
    {t t' : FdTables} {call : ClientCall} {r : ClientRequest} {db db' : Db}
    (hop : pseudoClientOp env t call = some ⟨t', some r⟩) (htype : r.hdr.type = .op)
    (hmsg : (pseudoOp sq db' (r.received wire.leftover)).msg =
      (pseudoOp sq db (r.received wire.leftover)).msg)
    (hresponse : (pseudoOp sq db' (r.received wire.leftover)).response =
      (pseudoOp sq db (r.received wire.leftover)).response) :
    (replyTo sq env wire { s with db := db' } i t call).map ReplyStep.msg =
      (replyTo sq env wire { s with db := db } i t call).map ReplyStep.msg := by
  have hreply : (serveRequest sq { s with db := db' } i (r.served wire.leftover)).2 =
      (serveRequest sq { s with db := db } i (r.served wire.leftover)).2 := by
    unfold serveRequest
    rw [served_response htype, served_response htype]
    dsimp only
    rw [hmsg, hresponse]
    split <;> rfl
  unfold replyTo
  rw [hop, Option.bind_some, Option.bind_some]
  dsimp only
  rw [hreply]
  split
  · rfl
  · rw [Option.map_map, Option.map_map]
    rfl
/-- What is seen of a call depends on the message alone. -/
theorem answers_congr {x y : Option ReplyStep} (h : x.map ReplyStep.msg = y.map ReplyStep.msg)
    (value : Bool) (size : Nat) :
    (x.map (·.copyOut value size)).map ReadStep.answer =
      (y.map (·.copyOut value size)).map ReadStep.answer := by
  have hanswer (s s' : ServerState) (msg : Option MsgMemory) :
      (ReplyStep.copyOut ⟨s, msg⟩ value size).answer =
        (ReplyStep.copyOut ⟨s', msg⟩ value size).answer := by
    unfold ReplyStep.copyOut
    cases msg with
    | none => rfl
    | some m =>
      dsimp only
      split
      · rfl
      · split
        · split <;> rfl
        · rfl
  cases x with
  | none =>
    cases y with
    | none => rfl
    | some b => cases h
  | some a =>
    cases y with
    | none => cases h
    | some b =>
      have hmsg : a.msg = b.msg := Option.some.inj h
      obtain ⟨s, msg⟩ := a
      obtain rfl : msg = b.msg := hmsg
      exact congrArg some (hanswer s b.server b.msg)

end ReadBackLemmas

open SameFileLemmas ReadBackLemmas

/-! ## 10. When an attribute is read back -/

/-- Both functions bring what is there, and follow the rule for buffers. -/
def ReadsBack (sq : Sqlite) (env : ClientEnv) (wire wire' : Wire) (s : ServerState) (i : Nat)
    (t : FdTables) (path : Option Bytes) (fd : Int) (buf : StatBuf) (name v names : Bytes)
    (value list : Bool) (size listSize : Nat) : Prop :=
  (∃ got, sharedGetxattr sq env wire s i t path fd (some buf) name value size = some got ∧
    SizeRule v size got) ∧
  ∃ listed, sharedListxattr sq env wire' s i t path fd (some buf) list listSize = some listed ∧
    SizeRule names listSize listed

namespace ReadBackLemmas

section Answers
variable {sq : Sqlite} {env : ClientEnv} {wire wire' : Wire} {s : ServerState} {i : Nat}
  {t : FdTables} {path : Option Bytes} {fd : Int} {buf : StatBuf} {name : XattrName} {p v : Bytes}
  {db : Db} {value list : Bool} {size listSize : Nat} {req : Request}

/-- The next requests find the inode that the value has been stored under. -/
theorem reads_kept (hwrote : Wrote sq s.db req buf name.name v db)
    (hasks : Asks (sentName p) buf req) (hfits : DevFits buf.dev) (hp : IsCString p)
    (hknown : callPath t (listxattrCall path fd buf) = some p)
    (hig : pseudoClientIgnorePath env (some p) = false) (hlocal : env.localOnly = false)
    (hne : v ≠ []) (hvshort : v.length < 2 ^ 31 - 256) (hvalue : size ≠ 0 → value = true)
    (hlist : listSize ≠ 0 → list = true) (hkept : Kept sq s.db.files req) {names : Bytes}
    (hnames : NameList (fun name => (attrs db.xattrs
      ((hits sq s.db.files req).inode buf, name)).isSome = true) names)
    (hnamesShort : names.length < 2 ^ 31 - 256) :
    ReadsBack sq env wire wire' { s with db := db } i t path fd buf name.name v names value list
        size listSize ↔
      (size = 0 ∨ v.length ≤ size) ∧ (listSize = 0 ∨ names.length ≤ listSize) := by
  obtain ⟨hcalm, hinode⟩ := kept_checked hasks hfits hwrote.live hkept
  rw [← hwrote.files] at hcalm hinode
  have hstored : valueAt db.xattrs ((hits sq db.files req).inode buf) name.name = some v := by
    rw [hinode, valueAt, hwrote.attrs, Function.update_self, Option.filter_some]
    exact if_pos (decide_eq_true hne)
  obtain ⟨m, hget, hbrings⟩ := @sharedGetxattr_reads sq env wire { s with db := db } i t path fd buf
    name.name p v req hknown hp hig hlocal name.isCString hfits hwrote.names hasks hcalm hstored
    hvshort
  rw [← hinode] at hnames
  obtain ⟨m', hlisted, hbrings'⟩ := @sharedListxattr_reads sq env wire' { s with db := db } i t path
    fd buf p req hknown hp hig hlocal hfits hwrote.names hasks hcalm names hnames hnamesShort
  have hgot : sharedGetxattr sq env wire { s with db := db } i t path fd (some buf) name.name value
      size = some (ReplyStep.copyOut ⟨{ s with db := db }, some m⟩ value size) := by
    rw [sharedGetxattr, hget, Option.map_some]
  have hlisting : sharedListxattr sq env wire' { s with db := db } i t path fd (some buf) list
      listSize = some (ReplyStep.copyOut ⟨{ s with db := db }, some m'⟩ list listSize) := by
    rw [sharedListxattr, hlisted, Option.map_some]
  have hsize := @sizeRule_iff v { s with db := db } m hbrings value size hvalue
  have hlistSize := @sizeRule_iff names { s with db := db } m' hbrings' list listSize hlist
  rw [ReadsBack, hgot, hlisting, ← hsize, ← hlistSize]
  simp

/-- The next request finds nothing for the path, and reads what there was under the file's own
inode. -/
theorem answers_lost (hwrote : Wrote sq s.db req buf name.name v db)
    (hasks : Asks (sentName p) buf req) (hv : UniqueKeys XattrRow.key s.db.xattrs)
    (hfits : DevFits buf.dev) (hp : IsCString p)
    (hknown : callPath t (listxattrCall path fd buf) = some p)
    (hig : pseudoClientIgnorePath env (some p) = false) (hlocal : env.localOnly = false)
    (hlost : ¬ Kept sq s.db.files req)
    (hone : ∀ r ∈ s.db.files, ∀ r' ∈ s.db.files, r.path = req.path → r'.path = r.path → r' = r) :
    (sharedGetxattr sq env wire { s with db := db } i t path fd (some buf) name.name value size).map
        ReadStep.answer =
      (sharedGetxattr sq env wire { s with db := (checked sq s.db req).db } i t path fd (some buf)
        name.name value size).map ReadStep.answer := by
  obtain ⟨r, hr, hkey, hnot⟩ : ∃ r, (hits sq s.db.files req).path = some r ∧
      r.key ≠ req.hdr.key ∧ ¬ Calm req (hits sq s.db.files req) := by
    simpa [Kept, not_or] using hlost
  obtain ⟨hmem, -, hrpath⟩ := hits_path hr
  have hpaths := lost_path hasks hwrote.live hr hkey hnot fun r' hr' hpath =>
    hone r hmem r' hr' hrpath (hpath.trans hrpath.symm)
  obtain ⟨request', hop, htype, hasks', hreqOp, hold⟩ := @xattr_request env t buf p
    (getxattrCall path fd buf name.name) wire.leftover (Or.inr (Or.inl rfl)) rfl hknown hp hig
    hlocal
  obtain ⟨tail, hold⟩ := hold name.name rfl
  generalize hreq : request (request'.received wire.leftover) = req' at hasks' hreqOp hold
  have hnone : (hits sq (checked sq s.db req).db.files req').path = none := by
    rw [Option.eq_none_iff_forall_ne_some]
    intro r' hr'
    obtain ⟨hmem', -, hpath'⟩ := hits_path hr'
    exact hpaths r' hmem' (by rw [hpath', hasks'.path, ← hasks.path])
  have hfound : (lookup sq (checked sq s.db req).db req').foundPath = false := by
    rw [lookup_foundPath hasks'.proper, hnone]
    rfl
  have hown : valueAt db.xattrs
        ((hits sq (checked sq s.db req).db.files req').inode buf) name.name =
      valueAt (checked sq s.db req).db.xattrs
        ((hits sq (checked sq s.db req).db.files req').inode buf) name.name := by
    have hne : ((buf.dev, buf.ino), name.name) ≠
        ((hits sq s.db.files req).inode buf, name.name) :=
      fun h => inode_ne hasks hr hkey (congrArg Prod.fst h).symm
    rw [inode_of_none hnone, valueAt, valueAt, hwrote.attrs, Function.update_of_ne hne]
  obtain ⟨hmsg, hresponse⟩ := getXattr_congr hasks' hreqOp hfits (checked_names hv)
    hwrote.names hold name.isCString hfound hwrote.files hown
  have hsame := @replyTo_congr sq env wire s i _ _ _ _ (checked sq s.db req).db db hop htype
    (by rw [pseudoOp, pseudoOp, hreq]; exact hmsg)
    (by rw [pseudoOp, pseudoOp, hreq]; exact hresponse)
  exact answers_congr hsame value size

end Answers

end ReadBackLemmas

section ReadBack
variable (sq : Sqlite) (env : ClientEnv) (leftover : Bytes) (wire wire' : Wire) (s : ServerState)
  (i : Nat) (t : FdTables) (path : Option Bytes) (fd : Int) (buf : StatBuf) (name : XattrName)
  (p v : Bytes) (step : SetxattrStep) (value list : Bool) (size listSize : Nat)

/-- For a file whose row is kept, both functions do what they should exactly when each is called
with a buffer that is large enough, or asks for the size. When the server's checks remove the row
that they found for the path, `getxattr` answers as if nothing had been written. -/
theorem readBack_iff (hv : ValidXattrs s.db.xattrs) (hdev : buf.dev.toNat < 2 ^ 31)
    (hknown : callPath t (listxattrCall path fd buf) = some p) (hp : IsCString p)
    (hig : pseudoClientIgnorePath env (some p) = false) (hlocal : env.localOnly = false)
    (hdata : name.name ≠ pseudoData) (hne : v ≠ [])
    (hshort : (packPaths p name.name (some v)).length < 2 ^ 31 - 256)
    (hset : sharedSetxattr sq env leftover s.db t path fd (some buf) name (some v) 0 = some step)
    (hvalue : size ≠ 0 → value = true) (hlist : listSize ≠ 0 → list = true) :
    let req := request (setxattrMsg env leftover p path fd buf name.name v)
    let after := { s with db := step.db }
    (Kept sq s.db.files req → ∀ names,
      NameList (fun name => (attrs step.db.xattrs
        ((hits sq s.db.files req).inode buf, name)).isSome = true) names →
      names.length < 2 ^ 31 - 256 →
      (ReadsBack sq env wire wire' after i t path fd buf name.name v names value list size
          listSize ↔
        (size = 0 ∨ v.length ≤ size) ∧ (listSize = 0 ∨ names.length ≤ listSize))) ∧
    (¬ Kept sq s.db.files req →
      (∀ r ∈ s.db.files, ∀ r' ∈ s.db.files, r.path = req.path → r'.path = r.path → r' = r) →
      (sharedGetxattr sq env wire after i t path fd (some buf) name.name value size).map
          ReadStep.answer =
        (sharedGetxattr sq env wire { s with db := (checked sq s.db req).db } i t path fd
          (some buf) name.name value size).map ReadStep.answer) := by
  intro req after
  have hfits : DevFits buf.dev := devFits_of_lt hdev
  have hwrote : Wrote sq s.db req buf name.name v step.db :=
    sharedSetxattr_wrote hv hfits hp hshort hdata hknown hig hlocal hset
  have hasks : Asks (sentName p) buf req := asks_set hp
  have hvshort : v.length < 2 ^ 31 - 256 := by
    have hlen : v.length ≤ (packPaths p name.name (some v)).length := by
      simp [packPaths]
      omega
    omega
  constructor
  · intro hkept names hnames hnamesShort
    exact reads_kept hwrote hasks hfits hp hknown hig hlocal hne hvshort hvalue hlist hkept hnames
      hnamesShort
  · intro hlost hone
    exact answers_lost hwrote hasks hv.names hfits hp hknown hig hlocal hlost hone

end ReadBack

/-- A server without any file, and a client that has not received anything. -/
def exStore : ServerState :=
  { table := .start 3 7 none none, db := .empty ⟨0, []⟩, timeout := 30, diePeacefully := false,
    dieForcefully := false, listenFd := 3, logging := false }

def exWire : Wire :=
  ⟨[], ⟨fun n => List.replicate n 0, [0, 0, 0, 0], by simp, rfl⟩, .start, good_start⟩

/-- The value of two bytes that `user.a` of `/a` gets. -/
def exStored : Option SetxattrStep :=
  sharedSetxattr .inOrder exEnv [] exStore.db ⟨[], []⟩ (some (ascii ['/', 'a'])) (-1) (some exBuf)
    exName (some (ascii ['x', 'y'])) 0

/-- With a buffer of the right size, it is read back. -/
theorem readBack_exact_fit : ∃ step, exStored = some step ∧
    ReadsBack .inOrder exEnv exWire exWire { exStore with db := step.db } 0 ⟨[], []⟩
      (some (ascii ['/', 'a'])) (-1) exBuf exName.name (ascii ['x', 'y']) (exName.name ++ [0])
      true true 2 7 := by
  have hrows : exStored.map (·.db.xattrs) =
      some [⟨1, 1, 5, exName.name, ascii ['x', 'y']⟩] := by decide
  obtain ⟨step, hstep, hxattrs⟩ := Option.map_eq_some_iff.mp hrows
  have hvalid : ValidXattrs exStore.db.xattrs := by
    refine ⟨?_, ?_, List.forall_mem_nil _⟩ <;> exact List.nodup_nil
  have hresult := readBack_iff .inOrder exEnv [] exWire exWire exStore 0 ⟨[], []⟩
    (some (ascii ['/', 'a'])) (-1) exBuf exName (ascii ['/', 'a']) (ascii ['x', 'y']) step true true
    2 7 hvalid (by decide) rfl (by decide) (by decide) rfl (by decide) (by decide) (by decide) hstep
    (fun _ => rfl) (fun _ => rfl)
  have hnames : NameList (fun name => (attrs step.db.xattrs ((hits .inOrder exStore.db.files
      (request (setxattrMsg exEnv [] (ascii ['/', 'a']) (some (ascii ['/', 'a'])) (-1) exBuf
        exName.name (ascii ['x', 'y'])))).inode exBuf, name)).isSome = true)
      (exName.name ++ [0]) := by
    refine ⟨[exName.name], rfl, List.pairwise_singleton _ _, fun name => ?_⟩
    have hinode : (hits .inOrder exStore.db.files (request (setxattrMsg exEnv [] (ascii ['/', 'a'])
        (some (ascii ['/', 'a'])) (-1) exBuf exName.name (ascii ['x', 'y'])))).inode exBuf =
        (1, 5) := by decide
    rw [hinode, hxattrs]
    dsimp only
    rw [attrs, contents_isSome_iff]
    simp [XattrRow.key, eq_comm]
  have hfound : Kept .inOrder exStore.db.files (request (setxattrMsg exEnv []
      (ascii ['/', 'a']) (some (ascii ['/', 'a'])) (-1) exBuf exName.name (ascii ['x', 'y']))) :=
    fun r hr => absurd hr (Option.some_ne_none r).symm
  exact ⟨step, hstep, (hresult.1 hfound _ hnames (by decide)).mpr
    ⟨Or.inr (by decide), Or.inr (by decide)⟩⟩

/-- With one byte too few, `getxattr` reports the length and not -1. -/
theorem readBack_short_buffer : ∃ step got, exStored = some step ∧ step.rc = 0 ∧
    sharedGetxattr .inOrder exEnv exWire { exStore with db := step.db } 0 ⟨[], []⟩
      (some (ascii ['/', 'a'])) (-1) (some exBuf) exName.name true 1 = some got ∧
    got.answer = (2, ascii ['x'], some .erange) ∧ ¬ SizeRule (ascii ['x', 'y']) 1 got := by
  have hrun : (exStored.bind fun step => (sharedGetxattr .inOrder exEnv exWire
      { exStore with db := step.db } 0 ⟨[], []⟩ (some (ascii ['/', 'a'])) (-1) (some exBuf)
      exName.name true 1).map fun got => (step.rc, got.answer)) =
      some (0, 2, ascii ['x'], some .erange) := by
    decide +kernel
  obtain ⟨step, hstep, hread⟩ := Option.bind_eq_some_iff.mp hrun
  obtain ⟨got, hgot, hpair⟩ := Option.map_eq_some_iff.mp hread
  obtain ⟨hrc, hanswer⟩ := Prod.mk.inj hpair
  refine ⟨step, got, hstep, hrc, hgot, hanswer, fun hrule => ?_⟩
  have hfail : got.rc = -1 ∧ got.errno = some .erange := hrule
  have htwo : got.rc = 2 := congrArg Prod.fst hanswer
  omega

end Pseudo
