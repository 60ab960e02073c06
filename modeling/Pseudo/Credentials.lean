import Pseudo.Library.Decimal
import Pseudo.Library.Run
import Pseudo.Message

/-!
# Emulated credentials

The client keeps eight emulated ids, the ten `set*id` wrappers of `ports/uids_generic` and
`ports/linux` change them, and `PSEUDO_UIDS` and `PSEUDO_GIDS` in pseudo's environment cache
carry them over an exec. Of the cache only these two variables are modelled.

Results:
1. `spell_injective`: the published string determines the ids.
2. `credentials_survive_iff`: which ids a new process image reads back.
3. `published_throughout_iff`: along which calls the published ids stay the current ones.
-/

namespace Pseudo

abbrev Id := BitVec 32

/-- `(uid_t) -1`: leave this id alone. -/
def unset : Id := BitVec.allOnes 32

/-- Real, effective, saved and filesystem id. -/
structure IdSet where
  r : Id
  e : Id
  s : Id
  f : Id
  deriving DecidableEq, Repr

/-- The variables `pseudo_ruid` to `pseudo_fuid` and `pseudo_rgid` to `pseudo_fgid`. -/
structure Ids where
  uid : IdSet
  gid : IdSet
  deriving DecidableEq, Repr

/-- `PSEUDO_UIDS` and `PSEUDO_GIDS` in `pseudo_env`. -/
structure IdEnv where
  uids : Option Bytes
  gids : Option Bytes
  deriving DecidableEq, Repr

structure IdClient where
  ids : Ids
  env : IdEnv
  deriving DecidableEq, Repr

/-- The ids of a process that has just started. -/
def Ids.zero : Ids := ⟨⟨0, 0, 0, 0⟩, ⟨0, 0, 0, 0⟩⟩

/-! ## Publishing the ids and reading them back -/

/-- `snprintf` into a buffer of `size` bytes. -/
def snprintf (size : Nat) (text : Bytes) : Bytes := text.take (size - 1)

/-- `"%d,%d,%d,%d"`: an unsigned id is printed as an `int`. -/
def IdSet.spell (s : IdSet) : Bytes :=
  snprintf 256 (Decimal.printList [s.r.toInt, s.e.toInt, s.s.toInt, s.f.toInt])

def pseudoClientTouchuid (c : IdClient) : IdClient :=
  { c with env := { c.env with uids := some c.ids.uid.spell } }

def pseudoClientTouchgid (c : IdClient) : IdClient :=
  { c with env := { c.env with gids := some c.ids.gid.spell } }

/-- What `%d` stores: a `long`, cut to the width of an `int`. -/
def scanCell (v : Int) : Id := BitVec.ofInt 32 (max (-2 ^ 63) (min (2 ^ 63 - 1) v))

/-- The cells that `sscanf(env, "%d,%d,%d,%d", …)` fills, as many as there are items. -/
def sscanfIds (env : Option Bytes) : List Id :=
  match env with
  | some env => (Decimal.scanList 4 env).map scanCell
  | none => []

/-- The credential part of `pseudo_init_client`: the last item of `PSEUDO_GIDS` goes to
`pseudo_fuid`. -/
def pseudoInitClient (env : IdEnv) (ids : Ids) : Ids :=
  let u := sscanfIds env.uids
  let ids :=
    { ids with uid := { r := u[0]?.getD ids.uid.r, e := u[1]?.getD ids.uid.e,
                        s := u[2]?.getD ids.uid.s, f := u[3]?.getD ids.uid.f } }
  let g := sscanfIds env.gids
  { uid := { ids.uid with f := g[3]?.getD ids.uid.f }
    gid := { ids.gid with r := g[0]?.getD ids.gid.r, e := g[1]?.getD ids.gid.e,
                          s := g[2]?.getD ids.gid.s } }

/-! ## The wrappers -/

/-- The result of a `set*id` call: 0, or -1 with `EPERM`. -/
inductive IdResult
  | ok | eperm
  deriving DecidableEq, Repr

/-- The process may set any id, or `v` is one it has. -/
def IdSet.permits (root : Bool) (s : IdSet) (v : Id) : Bool :=
  root || v == s.e || v == s.r || v == s.s

/-- The common shape of `setuid` and `setgid`. -/
def IdSet.setId (root : Bool) (s : IdSet) (v : Id) : Option IdSet :=
  if root then some ⟨v, v, v, v⟩
  else if s.permits false v then some { s with e := v, f := v }
  else none

/-- The common shape of `seteuid` and `setegid`. -/
def IdSet.setEffective (root : Bool) (s : IdSet) (v : Id) : Option IdSet :=
  if s.permits root v then some { s with e := v, f := v } else none

/-- The common shape of `setresuid` and `setresgid`; without `sid` that of `setreuid` and
`setregid`. -/
def IdSet.setRes (root : Bool) (s : IdSet) (rid eid sid : Id) : Option IdSet :=
  if [rid, eid, sid].all fun v => v == unset || s.permits root v then
    let e := if eid ≠ unset then eid else s.e
    some { r := if rid ≠ unset then rid else s.r, e := e,
           s := if sid ≠ unset then sid else s.s, f := e }
  else none

/-- The common shape of `setfsuid` and `setfsgid`. -/
def IdSet.setFs (root : Bool) (s : IdSet) (v : Id) : Option IdSet :=
  if s.permits root v then some { s with f := v } else none

/-- `pseudo_euid == 0`. -/
def IdClient.root (c : IdClient) : Bool := c.ids.uid.e == 0

/-- A wrapper ends: `touch` publishes what changed, or nothing. -/
def IdClient.finishUid (touch : IdClient → IdClient) (c : IdClient) (s : Option IdSet) :
    IdClient × IdResult :=
  match s with
  | some s => (touch { c with ids := { c.ids with uid := s } }, .ok)
  | none => (c, .eperm)

def IdClient.finishGid (touch : IdClient → IdClient) (c : IdClient) (s : Option IdSet) :
    IdClient × IdResult :=
  match s with
  | some s => (touch { c with ids := { c.ids with gid := s } }, .ok)
  | none => (c, .eperm)

section Wrappers
variable (c : IdClient)

def wrapSetuid (uid : Id) : IdClient × IdResult :=
  c.finishUid pseudoClientTouchuid (c.ids.uid.setId c.root uid)

def wrapSeteuid (euid : Id) : IdClient × IdResult :=
  c.finishUid pseudoClientTouchuid (c.ids.uid.setEffective c.root euid)

def wrapSetreuid (ruid euid : Id) : IdClient × IdResult :=
  c.finishUid pseudoClientTouchuid (c.ids.uid.setRes c.root ruid euid unset)

def wrapSetresuid (ruid euid suid : Id) : IdClient × IdResult :=
  c.finishUid pseudoClientTouchuid (c.ids.uid.setRes c.root ruid euid suid)

/-- Nothing is published. -/
def wrapSetfsuid (fsuid : Id) : IdClient × IdResult :=
  c.finishUid id (c.ids.uid.setFs c.root fsuid)

def wrapSetgid (gid : Id) : IdClient × IdResult :=
  c.finishGid pseudoClientTouchgid (c.ids.gid.setId c.root gid)

def wrapSetegid (egid : Id) : IdClient × IdResult :=
  c.finishGid pseudoClientTouchgid (c.ids.gid.setEffective c.root egid)

/-- The ids that did not change are published. -/
def wrapSetregid (rgid egid : Id) : IdClient × IdResult :=
  c.finishGid pseudoClientTouchuid (c.ids.gid.setRes c.root rgid egid unset)

/-- The ids that did not change are published. -/
def wrapSetresgid (rgid egid sgid : Id) : IdClient × IdResult :=
  c.finishGid pseudoClientTouchuid (c.ids.gid.setRes c.root rgid egid sgid)

/-- Nothing is published. -/
def wrapSetfsgid (fsgid : Id) : IdClient × IdResult :=
  c.finishGid id (c.ids.gid.setFs c.root fsgid)

end Wrappers

/-- A call of one of the ten wrappers. -/
inductive IdCall
  | setuid (uid : Id)
  | seteuid (euid : Id)
  | setreuid (ruid euid : Id)
  | setresuid (ruid euid suid : Id)
  | setfsuid (fsuid : Id)
  | setgid (gid : Id)
  | setegid (egid : Id)
  | setregid (rgid egid : Id)
  | setresgid (rgid egid sgid : Id)
  | setfsgid (fsgid : Id)
  deriving DecidableEq, Repr

def IdClient.call (c : IdClient) : IdCall → IdClient × IdResult
  | .setuid uid => wrapSetuid c uid
  | .seteuid euid => wrapSeteuid c euid
  | .setreuid ruid euid => wrapSetreuid c ruid euid
  | .setresuid ruid euid suid => wrapSetresuid c ruid euid suid
  | .setfsuid fsuid => wrapSetfsuid c fsuid
  | .setgid gid => wrapSetgid c gid
  | .setegid egid => wrapSetegid c egid
  | .setregid rgid egid => wrapSetregid c rgid egid
  | .setresgid rgid egid sgid => wrapSetresgid c rgid egid sgid
  | .setfsgid fsgid => wrapSetfsgid c fsgid

namespace CredentialsLemmas

theorem natAbs_toInt_lt (v : Id) : v.toInt.natAbs < 10 ^ 10 := by
  have hlo := BitVec.le_two_mul_toInt (x := v)
  have hhi := BitVec.two_mul_toInt_lt (x := v)
  omega

/-- The buffer of 256 bytes is never too small. -/
theorem spell_eq (s : IdSet) :
    s.spell = Decimal.printList [s.r.toInt, s.e.toInt, s.s.toInt, s.f.toInt] := by
  have hlen (v : Id) : (Decimal.printInt v.toInt).length ≤ 11 :=
    Decimal.printInt_length_le (by decide) (natAbs_toInt_lt v)
  refine List.take_of_length_le ?_
  simp only [Decimal.printList, List.length_append, List.length_cons]
  have hr := hlen s.r
  have he := hlen s.e
  have hs := hlen s.s
  have hf := hlen s.f
  omega

theorem scanCell_toInt (v : Id) : scanCell v.toInt = v := by
  have hlo := BitVec.le_two_mul_toInt (x := v)
  have hhi := BitVec.two_mul_toInt_lt (x := v)
  have hclamp : max (-2 ^ 63) (min (2 ^ 63 - 1) v.toInt) = v.toInt := by omega
  rw [scanCell, hclamp, BitVec.ofInt_toInt]

/-- The published ids are read back one by one. -/
theorem sscanfIds_spell (s : IdSet) : sscanfIds (some s.spell) = [s.r, s.e, s.s, s.f] := by
  have h := Decimal.scanList_printList [s.r.toInt, s.e.toInt, s.s.toInt, s.f.toInt]
  simp only [List.length_cons, List.length_nil, Nat.zero_add, Nat.reduceAdd] at h
  simp only [sscanfIds, spell_eq, h, List.map_cons, List.map_nil, scanCell_toInt]

end CredentialsLemmas

open CredentialsLemmas

theorem spell_injective {s t : IdSet} (h : s.spell = t.spell) : s = t := by
  have he : sscanfIds (some s.spell) = sscanfIds (some t.spell) := by rw [h]
  rw [sscanfIds_spell, sscanfIds_spell] at he
  cases s
  cases t
  simpa using he

/-! ## Credentials across an exec -/

/-- A new process image reads back the published ids exactly when both filesystem ids are 0:
`pseudo_fuid` gets the filesystem gid, and `pseudo_fgid` stays 0. -/
theorem credentials_survive_iff (ids : Ids) (env : IdEnv) :
    pseudoInitClient (pseudoClientTouchgid (pseudoClientTouchuid ⟨ids, env⟩)).env Ids.zero = ids ↔
      ids.uid.f = 0 ∧ ids.gid.f = 0 := by
  have hinit : pseudoInitClient (pseudoClientTouchgid (pseudoClientTouchuid ⟨ids, env⟩)).env
      Ids.zero = ⟨{ ids.uid with f := ids.gid.f }, { ids.gid with f := 0 }⟩ := by
    simp [pseudoInitClient, pseudoClientTouchgid, pseudoClientTouchuid, sscanfIds_spell, Ids.zero]
  rw [hinit]
  constructor
  · intro h
    have hu : ids.gid.f = ids.uid.f := congrArg (fun i => i.uid.f) h
    have hg : (0 : Id) = ids.gid.f := congrArg (fun i => i.gid.f) h
    exact ⟨hu.symm.trans hg.symm, hg.symm⟩
  · rintro ⟨hu, hg⟩
    rcases ids with ⟨⟨ur, ue, us, uf⟩, ⟨gr, ge, gs, gf⟩⟩
    obtain rfl : uf = 0 := hu
    obtain rfl : gf = 0 := hg
    rfl

/-- After `setegid(5)` the new image starts with filesystem uid 5 and filesystem gid 0. -/
theorem fsgid_read_into_fuid :
    let ids : Ids := ⟨⟨0, 0, 0, 0⟩, ⟨0, 5, 0, 5⟩⟩
    let env := (pseudoClientTouchgid (pseudoClientTouchuid ⟨ids, ⟨none, none⟩⟩)).env
    pseudoInitClient env Ids.zero = ⟨⟨0, 0, 0, 5⟩, ⟨0, 5, 0, 0⟩⟩ ∧
      pseudoInitClient env Ids.zero ≠ ids := by
  decide

/-! ## The published identity along calls -/

/-- The environment cache spells the current ids. -/
def Published (c : IdClient) : Prop :=
  c.env.uids = some c.ids.uid.spell ∧ c.env.gids = some c.ids.gid.spell

instance (c : IdClient) : Decidable (Published c) := inferInstanceAs (Decidable (_ ∧ _))

/-- A call that publishes the wrong ids, or none, changes none of those it should publish. -/
def KeepsPublished (c : IdClient) (call : IdCall) : Prop :=
  match call with
  | .setfsuid fsuid => c.ids.uid.permits c.root fsuid = true → fsuid = c.ids.uid.f
  | .setfsgid fsgid => c.ids.gid.permits c.root fsgid = true → fsgid = c.ids.gid.f
  | .setregid rgid egid => ∀ g ∈ c.ids.gid.setRes c.root rgid egid unset, g = c.ids.gid
  | .setresgid rgid egid sgid => ∀ g ∈ c.ids.gid.setRes c.root rgid egid sgid, g = c.ids.gid
  | _ => True

instance (c : IdClient) (call : IdCall) : Decidable (KeepsPublished c call) :=
  match call with
  | .setfsuid fsuid => inferInstanceAs (Decidable (c.ids.uid.permits c.root fsuid = true → _))
  | .setfsgid fsgid => inferInstanceAs (Decidable (c.ids.gid.permits c.root fsgid = true → _))
  | .setregid rgid egid =>
    inferInstanceAs (Decidable (∀ g ∈ c.ids.gid.setRes c.root rgid egid unset, g = c.ids.gid))
  | .setresgid rgid egid sgid =>
    inferInstanceAs (Decidable (∀ g ∈ c.ids.gid.setRes c.root rgid egid sgid, g = c.ids.gid))
  | .setuid _ | .seteuid _ | .setreuid _ _ | .setresuid _ _ _ | .setgid _ | .setegid _ =>
    inferInstanceAs (Decidable True)

/-- The state after a call; the result is the caller's. -/
def IdClient.after (c : IdClient) (call : IdCall) : IdClient := (c.call call).1

namespace CredentialsLemmas

section Finish
variable {c : IdClient} {s : Option IdSet} (h : Published c)
include h

theorem finishUid_touch : Published (c.finishUid pseudoClientTouchuid s).1 := by
  cases s with
  | none => exact h
  | some s => exact ⟨rfl, h.2⟩

theorem finishGid_touch : Published (c.finishGid pseudoClientTouchgid s).1 := by
  cases s with
  | none => exact h
  | some s => exact ⟨h.1, rfl⟩

/-- Changed gids that are not published are current only if they did not change. -/
theorem finishGid_unpublished {touch : IdClient → IdClient}
    (hids : ∀ c, (touch c).ids = c.ids) (hgids : ∀ c, (touch c).env.gids = c.env.gids)
    (huids : ∀ c, (touch c).env.uids = c.env.uids ∨ (touch c).env.uids = some c.ids.uid.spell) :
    Published (c.finishGid touch s).1 ↔ ∀ g ∈ s, g = c.ids.gid := by
  cases s with
  | none => simp [IdClient.finishGid, h]
  | some g =>
    have hu : (touch { c with ids := { c.ids with gid := g } }).env.uids =
        some c.ids.uid.spell := by
      rcases huids { c with ids := { c.ids with gid := g } } with hu | hu
      · rw [hu]
        exact h.1
      · exact hu
    simp only [Published, IdClient.finishGid, hids, hgids, hu, h.2, true_and, Option.some.injEq,
      Option.mem_def, forall_eq']
    exact ⟨fun he => (spell_injective he).symm, fun he => by rw [he]⟩

theorem finishUid_unpublished : Published (c.finishUid id s).1 ↔ ∀ u ∈ s, u = c.ids.uid := by
  cases s with
  | none => simp [IdClient.finishUid, h]
  | some u =>
    simp only [Published, IdClient.finishUid, id, h.1, h.2, and_true, Option.some.injEq,
      Option.mem_def, forall_eq']
    exact ⟨fun he => (spell_injective he).symm, fun he => by rw [he]⟩

end Finish

theorem setFs_keeps {root : Bool} {s : IdSet} {v : Id} :
    (∀ t ∈ s.setFs root v, t = s) ↔ (s.permits root v = true → v = s.f) := by
  unfold IdSet.setFs
  split
  · rename_i h
    simp only [Option.mem_def, Option.some.injEq, forall_eq', h, forall_const]
    exact ⟨fun he => congrArg IdSet.f he, fun he => by rw [he]⟩
  · rename_i h
    simp [h]

/-- From a published state, a call leads to one exactly when it keeps what it does not
publish. -/
theorem after_published {c : IdClient} (h : Published c) (call : IdCall) :
    Published (c.after call) ↔ KeepsPublished c call := by
  cases call with
  | setuid _ | seteuid _ | setreuid _ _ | setresuid _ _ _ =>
    exact iff_of_true (finishUid_touch h) trivial
  | setgid _ | setegid _ => exact iff_of_true (finishGid_touch h) trivial
  | setregid _ _ | setresgid _ _ _ =>
    exact finishGid_unpublished h (fun _ => rfl) (fun _ => rfl) fun _ => Or.inr rfl
  | setfsuid _ => exact (finishUid_unpublished h).trans setFs_keeps
  | setfsgid _ =>
    exact (finishGid_unpublished h (fun _ => rfl) (fun _ => rfl) fun _ => Or.inl rfl).trans
      setFs_keeps

end CredentialsLemmas

/-- The published ids are the current ones after every prefix of a sequence of calls exactly
when each call keeps the ids that it does not publish. -/
theorem published_throughout_iff (c : IdClient) (calls : List IdCall) (h : Published c) :
    (∀ pre, pre <+: calls → Published (Run.run IdClient.after c pre)) ↔
      Run.Guarded IdClient.after KeepsPublished c calls := by
  have hstep : ∀ s call, Published s →
      (Published (IdClient.after s call) ↔ KeepsPublished s call) :=
    fun _ call hs => after_published hs call
  exact (Run.guarded_iff hstep h).symm

/-- Root's ids, published. -/
def exRoot : IdClient :=
  pseudoClientTouchgid (pseudoClientTouchuid ⟨Ids.zero, ⟨none, none⟩⟩)

/-- Dropping the uid and regaining it is published throughout. -/
theorem published_throughout_setuid :
    Published exRoot ∧ ∀ pre, pre <+: [IdCall.seteuid 5, .seteuid 0, .setregid unset unset] →
      Published (Run.run IdClient.after exRoot pre) := by
  have h : Published exRoot := ⟨rfl, rfl⟩
  refine ⟨h, (published_throughout_iff exRoot _ h).mpr ⟨trivial, trivial, ?_, trivial⟩⟩
  decide

/-- `setregid(5, 5)` by root succeeds and publishes the uids: `PSEUDO_GIDS` stays `0,0,0,0`. -/
theorem setregid_unpublished :
    Published exRoot ∧ (exRoot.call (.setregid 5 5)).2 = .ok ∧
      ¬ Published (Run.run IdClient.after exRoot [.setregid 5 5]) := by
  decide

end Pseudo
