import Pseudo.Canonical
import Pseudo.Chroot

/-!
# Symbolic links made in a chroot

`wrap_symlinkat` and `wrap_readlinkat` of `ports/unix/guts`, and `pseudo_dechroot`. With a chroot
in force, an absolute target is written into the link with the chroot in front of it, and
`readlink` takes it off again, so it reads back as it was given (`readlink_symlink`). Following
the link does not take it off: the contents are appended to the root that the link is resolved
under, which is the chroot itself. So the link leads where it says exactly when the chroot, walked
once more from that root, leads back to itself (`symlink_leads_iff`).
-/

namespace Pseudo

/-- The contents of the link that `wrap_symlinkat` makes. -/
def symlinkContents (client : Client) (oldname : Bytes) : Bytes :=
  if oldname.head? = some slash ∧ client.chroot ≠ [] ∧ client.nosymlinkexp = false then
    client.chroot ++ oldname
  else oldname

/-- `wrap_symlinkat`: the file system that is left, and the return code. The link is there even
when it cannot be found for the record that the server keeps of it. -/
def wrapSymlinkat (realSymlinkat : Bytes → Bytes → Fs → Option Fs) (client : Client)
    (oldname newpath : Bytes) (fs : Fs) : Fs × Int :=
  match realSymlinkat (symlinkContents client oldname) newpath fs with
  | none => (fs, -1)
  | some fs => if fs.lstat newpath = none then (fs, -1) else (fs, 0)

/-- `pseudo_dechroot` of the first `len` bytes of a buffer. The byte behind the chroot is read
from the buffer whether or not it is one of them. -/
def pseudoDechroot (client : Client) (buf : Bytes) (len : Nat) : Bytes :=
  let s := buf.take len
  if client.chroot ≠ [] ∧ client.chroot <+: s then
    match buf[client.chroot.length]? with
    | some b =>
      if b = slash then s.drop client.chroot.length
      else if b = 0 then [slash]
      else s
    | none => s
  else s

/-- `wrap_readlinkat` into a buffer of `bufsiz` bytes: what is read, in front of what the buffer
held behind it. -/
def wrapReadlinkat (client : Client) (fs : Fs) (path : Bytes) (bufsiz : Nat) (behind : Bytes) :
    Option Bytes :=
  match fs.readlink path with
  | none => none
  | some link =>
    let link := link.take bufsiz
    if link = [] then some [] else some (pseudoDechroot client (link ++ behind) link.length)

/-! ## 1. Reading back -/

theorem pseudoDechroot_append {client : Client} {t behind : Bytes} (ht : t.head? = some slash) :
    pseudoDechroot client (client.chroot ++ t ++ behind) (client.chroot ++ t).length = t := by
  unfold pseudoDechroot
  dsimp only
  rw [List.take_left]
  cases hc : client.chroot with
  | nil => simp
  | cons b c =>
    cases t with
    | nil => simp at ht
    | cons a t =>
      have ha : a = slash := by simpa using ht
      simp [ha]

theorem symlinkContents_absolute {client : Client} {t : Bytes} (ht : t.head? = some slash)
    (hsym : client.nosymlinkexp = false) : symlinkContents client t = client.chroot ++ t := by
  unfold symlinkContents
  cases hc : client.chroot with
  | nil => simp
  | cons b c => simp [ht, hsym]

/-- What `wrap_symlinkat` writes reads back as it was given. -/
theorem readlink_symlink {client : Client} {fs : Fs} {t path behind : Bytes} {bufsiz : Nat}
    (ht : t.head? = some slash) (hsym : client.nosymlinkexp = false)
    (hread : fs.readlink path = some (symlinkContents client t))
    (hbuf : (client.chroot ++ t).length ≤ bufsiz) :
    wrapReadlinkat client fs path bufsiz behind = some t := by
  have hne : client.chroot ++ t ≠ [] := by
    cases t with
    | nil => simp at ht
    | cons a t => simp
  unfold wrapReadlinkat
  rw [hread, symlinkContents_absolute ht hsym]
  simp only [List.take_of_length_le hbuf, if_neg hne]
  rw [pseudoDechroot_append ht]

/-! ## 2. `base_path` in names -/

/-- What `base_path` starts from and the root it passes on: the chroot for an absolute path, and
for a relative one the directory it is relative to, with the chroot as the root if that directory
lies in it. -/
structure Starts (tree : DirTree) (client : Client) (chroot : List Bytes) (dirfd : Int)
    (path : Bytes) (root base : List Bytes) : Prop where
  ne_nil : path ≠ []
  cases : path.head? = some slash ∧ base = chroot ∧ root = chroot ∨
    path.head? ≠ some slash ∧ client.baseDir dirfd = some (dirText base) ∧
      root = if chroot <+: base then chroot else []
  dir : tree.node base = some .dir
  plain : Plain base

/-- The client's chroot is the directory with these names. -/
structure InForce (tree : DirTree) (client : Client) (chroot : List Bytes) : Prop where
  eq : client.chroot = text chroot
  ne_nil : chroot ≠ []
  plain : Plain chroot
  dir : tree.node chroot = some .dir

section Base

variable {tree : DirTree} {fs : Fs} {client : Client} {chroot root base : List Bytes}
  {dirfd : Int} {path : Bytes} {pathMax : Nat} {leaveLast : Bool}

theorem contained_text_iff {c p : List Bytes} (hc : Plain c) (hp : Plain p) :
    Contained (text c) (text p) ↔ c <+: p := by
  constructor
  · intro h
    obtain ⟨rest, hrest, hnext⟩ := h.exists_rest
    cases rest with
    | nil => rw [text_injective hp hc (by simpa using hrest)]
    | cons b rest =>
      obtain rfl : b = slash := by simpa using hnext
      have hsplit := splitOn_text hp.no_slash
      rw [hrest, List.splitOn_append_cons_self, splitOn_text hc.no_slash] at hsplit
      exact ⟨rest.splitOn slash, by simpa using hsplit⟩
  · rintro ⟨rest, rfl⟩
    rw [text_append]
    apply Contained.of_append
    cases rest with
    | nil => exact .inl rfl
    | cons n rest => exact .inr rfl

theorem inChroot_dirText (hchroot : InForce tree client chroot) (hbase : Plain base) :
    client.inChroot (dirText base) = decide (chroot <+: base) := by
  have hne : client.chroot ≠ [] := hchroot.eq ▸ text_ne_nil hchroot.ne_nil
  apply Bool.eq_iff_iff.mpr
  rw [inChroot_iff, decide_eq_true_eq, hchroot.eq]
  cases base with
  | nil =>
    -- the text of a chroot is longer than `/`
    have hlen := one_lt_text_length hchroot.plain hchroot.ne_nil
    constructor
    · rintro ⟨-, hc⟩
      have := hc.1.length_le
      simp [dirText] at this
      omega
    · exact fun h => absurd (List.prefix_nil.mp h) hchroot.ne_nil
  | cons n base =>
    show _ ∧ Contained (text chroot) (text (n :: base)) ↔ _
    rw [contained_text_iff hchroot.plain hbase]
    exact and_iff_right (hchroot.eq ▸ hne)

theorem Starts.root_prefix (h : Starts tree client chroot dirfd path root base) :
    root <+: base := by
  obtain ⟨-, rfl, rfl⟩ | ⟨-, -, rfl⟩ := h.cases
  · exact List.prefix_rfl
  · split
    · assumption
    · exact List.nil_prefix

/-- `base_path` resolves the path. -/
theorem basePath_returns (hfs : Represents tree fs pathMax)
    (hchroot : InForce tree client chroot)
    (hstarts : Starts tree client chroot dirfd path root base)
    (hlen : path.length + (text base).length < pathMax) :
    Returns tree root (trailingSlash path)
      (Resolve.resolve tree parseLink (fits pathMax) root maxLinkRecursion
        (leaveLast && !trailingSlash path) base (pathSteps (trimSlashes path)))
      (basePath fs pathMax client dirfd path leaveLast) := by
  have hne : client.chroot ≠ [] := hchroot.eq ▸ text_ne_nil hchroot.ne_nil
  have hskip : skipSlash (text chroot).length = (text chroot).length :=
    skipSlash_of_lt (one_lt_text_length hchroot.plain hchroot.ne_nil)
  have hpassed : PassedAs chroot (text chroot) (text chroot).length :=
    ⟨hskip, by rw [hskip, List.take_length]⟩
  unfold basePath
  rw [if_neg hstarts.ne_nil]
  obtain ⟨habs, rfl, rfl⟩ | ⟨hrel, hbase, hroot⟩ := hstarts.cases
  · rw [if_neg (by simpa using habs), if_pos hne, hchroot.eq]
    have := @pseudoFixPath_returns _ _ _ _ _ _ _ _ _ leaveLast hfs hstarts.dir hstarts.plain
      List.prefix_rfl hpassed hskip (fun _ => .inr rfl) hlen
    simpa only [habs, if_true] using this
  · rw [if_pos hrel, hbase]
    have hrootlen : skipSlash (if client.inChroot (dirText base) then client.chroot.length else 0) =
        (text root).length := by
      rw [inChroot_dirText hchroot hstarts.plain, hroot, hchroot.eq]
      simp only [decide_eq_true_eq]
      split
      · exact hskip
      · rfl
    have := @pseudoFixPath_returns _ _ _ _ _ _ _ _ _ leaveLast hfs hstarts.dir hstarts.plain
      hstarts.root_prefix (passedAs_dirText hstarts.plain) hrootlen
      (fun h => absurd h hrel) hlen
    simpa only [if_neg hrel] using this

end Base

/-! ## 3. Following -/

/-- `symlinkat(2)` at a free name in a directory makes the link and leaves the rest alone. -/
def CreatesLink (realSymlinkat : Bytes → Bytes → Fs → Option Fs) (pathMax : Nat) : Prop :=
  ∀ (tree : DirTree) (fs fs' : Fs) (p : List Bytes) (n contents : Bytes)
    (hdir : tree.node p = some .dir) (hfree : tree.node (p ++ [n]) = none),
    Represents tree fs pathMax → Plain (p ++ [n]) →
    realSymlinkat contents (text (p ++ [n])) fs = some fs' →
    Represents (tree.insert p n (.link contents) hdir hfree) fs' pathMax

/-- The link `l` leads to its target `t`: it reads as `t`, and canonicalising it gives the same
path as canonicalising `t`, the chroot with `t` behind it. -/
structure LeadsWhereItSays (client : Client) (fs : Fs) (pathMax : Nat) (dirfd : Int)
    (l t : Bytes) : Prop where
  reads : ∃ path, basePath fs pathMax client dirfd l true = .built path ∧
    ∀ bufsiz behind, (client.chroot ++ t).length ≤ bufsiz →
      wrapReadlinkat client fs path bufsiz behind = some t
  follows : basePath fs pathMax client dirfd l false = .built (client.chroot ++ t)
  target : basePath fs pathMax client dirfd t false = .built (client.chroot ++ t)

/-- The text of a target, which may end in a slash. -/
def target (ts : List Bytes) (slashed : Bool) : Bytes :=
  text ts ++ if slashed then [slash] else []

/-- The chroot with the target behind it, walked from `root`, leads to itself. A link gives no
slash at the end, except where it leads to the root. -/
def LeadsBack (tree : DirTree) (pathMax : Nat) (root chroot ts : List Bytes) (slashed : Bool) :
    Prop :=
  Resolve.resolve tree parseLink (fits pathMax) root (maxLinkRecursion - 1) false root
      (pathSteps (text chroot ++ target ts slashed)) = .ok (chroot ++ ts) ∧
    (slashed = true ↔ chroot ++ ts = root)

section Target

variable {tree : DirTree} {chroot root ts p q : List Bytes} {pathMax depth : Nat}
  {nofollow slashed : Bool}

theorem target_head (hne : ts ≠ [] ∨ slashed = true) :
    (target ts slashed).head? = some slash := by
  cases ts with
  | nil =>
    obtain rfl := hne.resolve_left (by simp)
    rfl
  | cons n ts => rfl

theorem trimSlashes_target (hts : Plain ts) : trimSlashes (target ts slashed) = text ts := by
  have htext := trimSlashes_text hts
  cases slashed with
  | false => simpa [target] using htext
  | true => simpa [target, trimSlashes] using htext

theorem trailingSlash_target (hts : Plain ts) : trailingSlash (target ts slashed) = slashed := by
  rw [trailingSlash, trimSlashes_target hts]
  cases slashed <;> simp [target]

/-- The built path is the chroot with the target behind it exactly if it names that, and a slash
was added exactly if the target has one. -/
theorem built_eq_iff (hplain : Plain (chroot ++ ts)) (hq : Plain q) :
    (text q ++ if q = root then [slash] else []) = text chroot ++ target ts slashed ↔
      q = chroot ++ ts ∧ (slashed = true ↔ chroot ++ ts = root) := by
  rw [target, ← List.append_assoc, ← text_append]
  cases slashed with
  | true =>
    simp only [if_true, true_iff]
    split
    · rename_i hroot
      subst hroot
      rw [List.append_left_inj]
      exact ⟨fun h => ⟨text_injective hq hplain h, (text_injective hq hplain h).symm⟩,
        fun h => by rw [h.1]⟩
    · rename_i hroot
      rw [List.append_nil]
      exact ⟨fun h => absurd h (text_ne_append_slash hq _),
        fun h => absurd (h.1.trans h.2) hroot⟩
  | false =>
    simp only [Bool.false_eq_true, if_false, false_iff, List.append_nil]
    split
    · rename_i hroot
      subst hroot
      exact ⟨fun h => absurd h.symm (text_ne_append_slash hplain _),
        fun h => absurd h.1.symm h.2⟩
    · rename_i hroot
      rw [List.append_nil]
      exact ⟨fun h => ⟨text_injective hq hplain h, fun he =>
        hroot ((text_injective hq hplain h).trans he)⟩, fun h => by rw [h.1]⟩

/-- Every directory on the way to the target exists, so none of them is a dead end. -/
theorem target_ne_below (hplain : Plain (chroot ++ ts)) (hdir : tree.isDir chroot = true)
    (hexists : tree.node (chroot ++ ts) ≠ none)
    (hslashed : slashed = true → tree.isDir (chroot ++ ts) = true) (hp : Plain p)
    (hdead : DeadEnd tree p) (s : Bytes) :
    text chroot ++ target ts slashed ≠ text p ++ slash :: s := by
  intro h
  have hsplit : [] :: (p ++ s.splitOn slash) =
      [] :: (chroot ++ ts ++ if slashed then [[]] else []) := by
    rw [← List.cons_append, ← splitOn_text hp.no_slash, ← List.splitOn_append_cons_self, ← h,
      target, ← List.append_assoc, ← text_append]
    cases slashed with
    | true =>
      simp only [if_true]
      rw [List.splitOn_append_cons_self, splitOn_text hplain.no_slash]
      rfl
    | false =>
      simp only [Bool.false_eq_true, if_false, List.append_nil]
      exact splitOn_text hplain.no_slash
  have hlast := congrArg List.dropLast (List.cons.inj hsplit).2
  rw [List.dropLast_append_of_ne_nil (List.splitOn_ne_nil slash s)] at hlast
  have hway : tree.isDir (chroot ++ ts ++ if slashed then [[]] else []).dropLast = true := by
    cases slashed with
    | true => simpa using hslashed rfl
    | false =>
      rw [if_neg (by simp), List.append_nil]
      cases hts : ts.reverse with
      | nil =>
        obtain rfl : ts = [] := by simpa using hts
        rw [List.append_nil]
        exact Resolve.Tree.isDir_dropLast hdir
      | cons n rest =>
        obtain rfl : ts = rest.reverse ++ [n] := by
          rw [← List.reverse_cons, ← hts, List.reverse_reverse]
        rw [← List.append_assoc] at hexists ⊢
        rw [List.dropLast_concat]
        exact Resolve.Tree.isDir_of_append hexists (by simp)
  have hdir' := Resolve.Tree.isDir_of_prefix ⟨_, hlast⟩ hway
  rw [hdead.not_dir] at hdir'
  cases hdir'

/-- The target resolves from the chroot to itself. -/
theorem resolve_target (hts : Plain ts) (hdir : tree.isDir chroot = true)
    (hexists : ∀ p, p <+: ts → tree.node (chroot ++ p) ≠ none ∧ ¬ tree.IsLink (chroot ++ p))
    (hfit : (text (chroot ++ ts)).length + 2 ≤ pathMax) :
    Resolve.resolve tree parseLink (fits pathMax) root depth nofollow chroot
      (pathSteps (text ts)) = .ok (chroot ++ ts) := by
  cases ts with
  | nil =>
    rw [List.append_nil]
    rfl
  | cons n ts =>
    rw [pathSteps_text hts (List.cons_ne_nil n ts)]
    simp only [Resolve.resolve, Resolve.walk, Resolve.step_stay hdir]
    refine Resolve.resolve_of_exists (n :: ts) hexists fun p hp => ?_
    obtain ⟨rest, hrest⟩ := hp
    rw [← hrest] at hfit
    simp only [text_append, List.length_append] at hfit
    simp only [fits, decide_eq_true_eq, text_append, List.length_append]
    omega

end Target

section Made

variable {tree : DirTree} {fs fs' : Fs} {client : Client} {chroot ts root base dir : List Bytes}
  {n l newpath : Bytes} {dirfd : Int} {path : Bytes} {pathMax : Nat}
  {realSymlinkat : Bytes → Bytes → Fs → Option Fs} {contents : Bytes} {slashed : Bool}
  {hdir : tree.node dir = some .dir} {hfree : tree.node (dir ++ [n]) = none}

theorem InForce.insert (h : InForce tree client chroot) :
    InForce (tree.insert dir n (.link contents) hdir hfree) client chroot :=
  ⟨h.eq, h.ne_nil, h.plain, by
    rw [Resolve.insert_node_of_ne_none (by simp [h.dir])]
    exact h.dir⟩

theorem Starts.insert (h : Starts tree client chroot dirfd path root base) :
    Starts (tree.insert dir n (.link contents) hdir hfree) client chroot dirfd path root base :=
  ⟨h.ne_nil, h.cases, by
    rw [Resolve.insert_node_of_ne_none (by simp [h.dir])]
    exact h.dir, h.plain⟩

theorem Starts.root_ne (h : Starts tree client chroot dirfd path root base)
    (hfree : tree.node (dir ++ [n]) = none) : dir ++ [n] ≠ root := by
  intro he
  have hroot := Resolve.Tree.isDir_of_prefix h.root_prefix (Resolve.Tree.isDir_iff.mpr h.dir)
  rw [Resolve.Tree.isDir_iff, ← he, hfree] at hroot
  cases hroot

/-- What a name that does not end in a slash is built into, when it resolves to a new entry. -/
theorem basePath_of_name (hfs : Represents tree fs pathMax) (hchroot : InForce tree client chroot)
    (hstarts : Starts tree client chroot dirfd l root base)
    (hlen : l.length + (text base).length < pathMax) (hslash : trailingSlash l = false)
    {q : List Bytes}
    (hname : Resolve.resolve tree parseLink (fits pathMax) root maxLinkRecursion true base
      (pathSteps l) = .ok q) (hq : q ≠ root) :
    Plain q ∧ basePath fs pathMax client dirfd l true = .built (text q) := by
  have htrim : trimSlashes l = l := by
    refine trimSlashes_of_length_le ?_
    simpa [trailingSlash] using hslash
  have hreturns := @basePath_returns _ _ _ _ _ _ _ _ _ true hfs hchroot hstarts hlen
  rw [hslash, htrim, Bool.not_false, Bool.and_self, hname] at hreturns
  refine ⟨hreturns.1, ?_⟩
  rw [hreturns.2.2, if_neg (by simp [hq]), List.append_nil]

/-- What is built when it is followed. -/
theorem returns_of_name (hfs : Represents tree fs pathMax) (hchroot : InForce tree client chroot)
    (hstarts : Starts tree client chroot dirfd l root base)
    (hlen : l.length + (text base).length < pathMax) (hslash : trailingSlash l = false) :
    Returns tree root false
      (Resolve.resolve tree parseLink (fits pathMax) root maxLinkRecursion false base
        (pathSteps l))
      (basePath fs pathMax client dirfd l false) := by
  have htrim : trimSlashes l = l := by
    refine trimSlashes_of_length_le ?_
    simpa [trailingSlash] using hslash
  have hreturns := @basePath_returns _ _ _ _ _ _ _ _ _ false hfs hchroot hstarts hlen
  rwa [hslash, htrim] at hreturns

/-- The target itself is canonicalised to the chroot with the target behind it. -/
theorem basePath_target (hfs : Represents tree fs pathMax) (hchroot : InForce tree client chroot)
    (hts : Plain ts) (hne : ts ≠ [] ∨ slashed = true)
    (hexists : ∀ p, p <+: ts → tree.node (chroot ++ p) ≠ none ∧ ¬ tree.IsLink (chroot ++ p))
    (hfit : (client.chroot ++ target ts slashed).length + 2 ≤ pathMax) :
    basePath fs pathMax client dirfd (target ts slashed) false =
      .built (client.chroot ++ target ts slashed) := by
  have hhead := target_head hne
  have hstarts : Starts tree client chroot dirfd (target ts slashed) chroot chroot :=
    ⟨fun h => by simp [h] at hhead, .inl ⟨hhead, rfl, rfl⟩, hchroot.dir, hchroot.plain⟩
  rw [hchroot.eq, List.length_append] at hfit
  have hroom : (text (chroot ++ ts)).length + 2 ≤ pathMax := by
    simp only [target, List.length_append, text_append] at hfit ⊢
    omega
  have hreturns := @basePath_returns _ _ _ _ _ _ _ _ _ false hfs hchroot hstarts (by omega)
  rw [trimSlashes_target hts, trailingSlash_target hts,
    resolve_target hts (Resolve.Tree.isDir_iff.mpr hchroot.dir) hexists hroom] at hreturns
  rw [hreturns.2.2, hchroot.eq, target, text_append, List.append_assoc]
  congr 3
  cases slashed with
  | true => simp
  | false => simpa using hne

/-- The link reads back as the target, and where following it ends is where its contents lead. -/
theorem made_returns (hreal : CreatesLink realSymlinkat pathMax)
    (hfs : Represents tree fs pathMax) (hchroot : InForce tree client chroot)
    (hexp : client.nosymlinkexp = false) (hne : ts ≠ [] ∨ slashed = true)
    (hstarts : Starts tree client chroot dirfd l root base)
    (hlen : l.length + (text base).length < pathMax) (hslash : trailingSlash l = false)
    (hdir : tree.node dir = some .dir) (hfree : tree.node (dir ++ [n]) = none)
    (hname : Resolve.resolve tree parseLink (fits pathMax) root maxLinkRecursion true base
      (pathSteps l) = .ok (dir ++ [n]))
    (hpath : basePath fs pathMax client dirfd l true = .built newpath)
    (hmade : wrapSymlinkat realSymlinkat client (target ts slashed) newpath fs = (fs', 0)) :
    Represents (tree.insert dir n (.link (client.chroot ++ target ts slashed)) hdir hfree) fs'
        pathMax ∧
      basePath fs' pathMax client dirfd l true = .built newpath ∧
      fs'.readlink newpath = some (client.chroot ++ target ts slashed) ∧
      Returns (tree.insert dir n (.link (client.chroot ++ target ts slashed)) hdir hfree) root false
        (Resolve.expand (tree.insert dir n (.link (client.chroot ++ target ts slashed)) hdir hfree)
          parseLink (fits pathMax) root maxLinkRecursion dir (client.chroot ++ target ts slashed))
        (basePath fs' pathMax client dirfd l false) := by
  have hroot := hstarts.root_ne hfree
  obtain ⟨hplain, hbuilt⟩ := basePath_of_name hfs hchroot hstarts hlen hslash hname hroot
  obtain rfl : newpath = text (dir ++ [n]) := Fixed.built.inj (hpath.symm.trans hbuilt)
  have hcreated : realSymlinkat (client.chroot ++ target ts slashed) (text (dir ++ [n])) fs =
      some fs' := by
    rw [wrapSymlinkat, symlinkContents_absolute (target_head hne) hexp] at hmade
    cases hr : realSymlinkat (client.chroot ++ target ts slashed) (text (dir ++ [n])) fs with
    | none =>
      rw [hr] at hmade
      exact absurd (Prod.mk.inj hmade).2 (by decide)
    | some created =>
      simp only [hr] at hmade
      split at hmade
      · exact absurd (Prod.mk.inj hmade).2 (by decide)
      · rw [(Prod.mk.inj hmade).1]
  have hfs' := hreal tree fs fs' dir n _ hdir hfree hfs hplain hcreated
  have hcur := Resolve.Tree.isDir_iff.mpr hstarts.dir
  obtain ⟨hnofollow, hfollow⟩ := @Resolve.resolve_insert _ _ _ _ _ _ _ _ _ _ _ _
    (client.chroot ++ target ts slashed) hdir hfree hcur hname
  refine ⟨hfs', ?_, ?_, ?_⟩
  · exact (basePath_of_name hfs' hchroot.insert hstarts.insert hlen hslash hnofollow hroot).2
  · exact (hfs'.link _ _ hplain Resolve.insert_node_new).2.1
  · rw [← hfollow]
    exact returns_of_name hfs' hchroot.insert hstarts.insert hlen hslash

/-- The contents lead to the target after the link is made exactly if they did before. -/
theorem expand_target_iff (hchroot : InForce tree client chroot)
    (htarget : tree.node (chroot ++ ts) ≠ none) :
    Resolve.resolve tree parseLink (fits pathMax) root (maxLinkRecursion - 1) false root
        (pathSteps (text chroot ++ target ts slashed)) = .ok (chroot ++ ts) ↔
      Resolve.expand (tree.insert dir n (.link (client.chroot ++ target ts slashed)) hdir hfree)
        parseLink (fits pathMax) root maxLinkRecursion dir (client.chroot ++ target ts slashed) =
        .ok (chroot ++ ts) := by
  rw [Resolve.expand_insert_iff htarget, hchroot.eq]
  have habs : (parseLink (text chroot ++ target ts slashed)).absolute = true := by
    cases chroot with
    | nil => exact absurd rfl hchroot.ne_nil
    | cons m chroot => simp [parseLink, text_cons]
  show _ ↔ Resolve.resolve tree parseLink (fits pathMax) root (maxLinkRecursion - 1) false
    (if (parseLink (text chroot ++ target ts slashed)).absolute then root else dir)
    (pathSteps (text chroot ++ target ts slashed)) = _
  rw [habs, if_pos rfl]

end Made

/-- Absolute links made in a chroot lead where they say exactly when the chroot with the target
behind it, walked from the root that the link's name is resolved under, leads back to itself. For
the direction from the link to the chroot, the links on that way must not nest too deep. -/
theorem symlink_leads_iff (realSymlinkat : Bytes → Bytes → Fs → Option Fs) (pathMax : Nat)
    (hreal : CreatesLink realSymlinkat pathMax) (tree : DirTree) (fs : Fs)
    (hfs : Represents tree fs pathMax) (client : Client) (chroot : List Bytes)
    (hchroot : InForce tree client chroot) (hexp : client.nosymlinkexp = false)
    (ts : List Bytes) (hts : Plain ts) (slashed : Bool) (hne : ts ≠ [] ∨ slashed = true)
    (hexists : ∀ p, p <+: ts → tree.node (chroot ++ p) ≠ none ∧ ¬ tree.IsLink (chroot ++ p))
    (hslashed : slashed = true → tree.isDir (chroot ++ ts) = true)
    (hfit : (client.chroot ++ target ts slashed).length + 2 ≤ pathMax)
    (dirfd : Int) (l : Bytes) (root base : List Bytes)
    (hstarts : Starts tree client chroot dirfd l root base)
    (hlen : l.length + (text base).length < pathMax) (hslash : trailingSlash l = false)
    (dir : List Bytes) (n : Bytes) (hdir : tree.node dir = some .dir)
    (hfree : tree.node (dir ++ [n]) = none)
    (hname : Resolve.resolve tree parseLink (fits pathMax) root maxLinkRecursion true base
      (pathSteps l) = .ok (dir ++ [n]))
    (newpath : Bytes) (hpath : basePath fs pathMax client dirfd l true = .built newpath) (fs' : Fs)
    (hmade : wrapSymlinkat realSymlinkat client (target ts slashed) newpath fs = (fs', 0)) :
    (LeadsBack tree pathMax root chroot ts slashed →
      LeadsWhereItSays client fs' pathMax dirfd l (target ts slashed)) ∧
    (Resolve.expand (tree.insert dir n (.link (client.chroot ++ target ts slashed)) hdir hfree)
        parseLink (fits pathMax) root maxLinkRecursion dir (client.chroot ++ target ts slashed) ≠
        .error .tooDeep →
      LeadsWhereItSays client fs' pathMax dirfd l (target ts slashed) →
      LeadsBack tree pathMax root chroot ts slashed) := by
  obtain ⟨hfs', hl, hread, hreturns⟩ := made_returns hreal hfs hchroot hexp hne hstarts hlen hslash
    hdir hfree hname hpath hmade
  have htarget : tree.node (chroot ++ ts) ≠ none := (hexists ts List.prefix_rfl).1
  have hplain : Plain (chroot ++ ts) := plain_append.mpr ⟨hchroot.plain, hts⟩
  constructor
  · intro h
    rw [(expand_target_iff hchroot htarget).mp h.1] at hreturns
    obtain ⟨-, -, hfollow⟩ := hreturns
    refine ⟨⟨newpath, hl, fun bufsiz behind hbuf => ?_⟩, ?_, ?_⟩
    · refine readlink_symlink (target_head hne) hexp ?_ hbuf
      rw [symlinkContents_absolute (target_head hne) hexp]
      exact hread
    · rw [hfollow, hchroot.eq]
      simp only [Bool.false_eq_true, or_false]
      rw [(built_eq_iff hplain hplain).mpr ⟨rfl, h.2⟩]
    · refine basePath_target hfs' hchroot.insert hts hne (fun p hp => ?_) hfit
      have hnode : (tree.insert dir n (.link (client.chroot ++ target ts slashed)) hdir hfree).node
          (chroot ++ p) = tree.node (chroot ++ p) :=
        Resolve.insert_node_of_ne_none (hexists p hp).1
      simpa only [Resolve.Tree.IsLink, hnode] using hexists p hp
  · intro hdeep hleads
    have hfollow := hleads.follows
    cases hres : Resolve.expand
        (tree.insert dir n (.link (client.chroot ++ target ts slashed)) hdir hfree)
        parseLink (fits pathMax) root maxLinkRecursion dir (client.chroot ++ target ts slashed) with
    | ok q =>
      rw [hres] at hreturns
      obtain ⟨hqplain, -, hq⟩ := hreturns
      rw [hfollow, Fixed.built.injEq, hchroot.eq] at hq
      simp only [Bool.false_eq_true, or_false] at hq
      obtain ⟨rfl, hroot⟩ := (built_eq_iff hplain hqplain).mp hq.symm
      exact ⟨(expand_target_iff hchroot htarget).mpr hres, hroot⟩
    | error failure =>
      rw [hres] at hreturns
      cases failure with
      | tooDeep => exact absurd hres hdeep
      | tooLong =>
        have hnull : basePath fs' pathMax client dirfd l false = .null := hreturns
        rw [hfollow] at hnull
        cases hnull
      | notDirectory =>
        obtain ⟨p, s, hp, hdead, hbelow⟩ := hreturns _ hfollow
        rw [hchroot.eq] at hbelow
        have hinsert : InForce
            (tree.insert dir n (.link (client.chroot ++ target ts slashed)) hdir hfree)
            client chroot := hchroot.insert
        refine absurd hbelow (target_ne_below hplain (Resolve.Tree.isDir_iff.mpr hinsert.dir) ?_
          (fun h => ?_) hp hdead s)
        · rw [Resolve.insert_node_of_ne_none htarget]
          exact htarget
        · rw [Resolve.insert_isDir]
          exact hslashed h

/-! ## 4. A chroot that leads back to itself, and one that does not -/

/-- `symlinkat(2)` on a file system as it is asked. -/
def makeLink (pathMax : Nat) (contents newpath : Bytes) (fs : Fs) : Option Fs :=
  if contents.length ≤ pathMax ∧ fs.lstat newpath = none then
    some
      { lstat := fun path => if path = newpath then some sIflnk else fs.lstat path
        readlink := fun path => if path = newpath then some contents else fs.readlink path }
  else none

theorem createsLink_makeLink (pathMax : Nat) : CreatesLink (makeLink pathMax) pathMax := by
  intro tree fs fs' p n contents hdir hfree hfs hplain hmade
  unfold makeLink at hmade
  split at hmade
  · rename_i hfit
    cases hmade
    -- no other canonical path has the text of the new link, and nothing below a dead end does
    have hold : ∀ q, Plain q → q ≠ p ++ [n] → text q ≠ text (p ++ [n]) :=
      fun q hq hne h => hne (text_injective hq hplain h)
    have hbelow : ∀ q s, Plain q → tree.isDir q = false →
        text q ++ slash :: s ≠ text (p ++ [n]) := by
      intro q s hq hno h
      have hsplit := splitOn_text hplain.no_slash
      rw [← h, List.splitOn_append_cons_self, splitOn_text hq.no_slash, List.cons_append,
        List.cons.injEq] at hsplit
      have hlast := congrArg List.dropLast hsplit.2
      rw [List.dropLast_append_of_ne_nil (List.splitOn_ne_nil slash s),
        List.dropLast_concat] at hlast
      have hq' := Resolve.Tree.isDir_of_prefix ⟨_, hlast⟩ (Resolve.Tree.isDir_iff.mpr hdir)
      rw [hno] at hq'
      cases hq'
    refine ⟨fun q hq hne h => ?_, fun q hq h => ?_, fun q k hq h => ?_, fun q hq hd h => ?_,
      fun q s hq hdead => ?_⟩
    · have hne' : q ≠ p ++ [n] := by
        rintro rfl
        simp [Resolve.insert_node_new] at h
      rw [Resolve.insert_node_old hne'] at h
      simpa only [Fs.mode, if_neg (hold q hq hne')] using hfs.dir q hq hne h
    · have hne' : q ≠ p ++ [n] := by
        rintro rfl
        simp [Resolve.insert_node_new] at h
      rw [Resolve.insert_node_old hne'] at h
      simpa only [Fs.mode, if_neg (hold q hq hne')] using hfs.file q hq h
    · rcases Classical.em (q = p ++ [n]) with rfl | hne'
      · rw [Resolve.insert_node_new, Option.some.injEq, Resolve.Node.link.injEq] at h
        subst h
        simp only [Fs.mode, if_true]
        exact ⟨by decide, trivial, hfit.1⟩
      · rw [Resolve.insert_node_old hne'] at h
        simpa only [Fs.mode, if_neg (hold q hq hne')] using hfs.link q k hq h
    · have hne' : q ≠ p ++ [n] := by
        rintro rfl
        simp [Resolve.insert_node_new] at h
      rw [Resolve.insert_isDir] at hd
      rw [Resolve.insert_node_old hne'] at h
      simpa only [if_neg (hold q hq hne')] using hfs.missing q hq hd h
    · have hne' : q ≠ p ++ [n] := by
        rintro rfl
        exact hdead.not_link ⟨_, Resolve.insert_node_new⟩
      have hparent := hdead.parent
      have hno := hdead.not_dir
      rw [Resolve.insert_isDir] at hparent hno
      have hdead' : DeadEnd tree q := by
        refine ⟨hparent, hno, ?_⟩
        rintro ⟨k, hk⟩
        refine hdead.not_link ⟨k, ?_⟩
        rw [Resolve.insert_node_old hne', hk]
      simpa only [if_neg (hbelow q s hq hno)] using hfs.below q s hq hdead'
  · cases hmade

/-- `/r` with the directory `/r/d` and the link `/r/r` to `/`, which leads from the chroot `/r`
back to itself. -/
def backTree : DirTree :=
  .ofEntries [([ascii ['r']], .dir), ([ascii ['r'], ascii ['d']], .dir),
    ([ascii ['r'], ascii ['r']], .link (ascii ['/']))] (by decide)

theorem represents_backTree : Represents backTree (toFs backTree) 4096 := by
  refine represents_toFs fun p k hk => ?_
  have hmem := Resolve.Tree.mem_entries_of_link hk
  simp only [List.mem_cons, Prod.mk.injEq, reduceCtorEq, and_false, Resolve.Node.link.injEq,
    List.not_mem_nil, or_false, false_or] at hmem
  rw [hmem.2]
  decide

/-- The file system after `/l` was made, in the chroot `/r`, as a link to `/d`. -/
def madeFs (tree : DirTree) : Fs × Int :=
  wrapSymlinkat (makeLink 4096) escapeClient (ascii ['/', 'd']) (ascii ['/', 'r', '/', 'l'])
    (toFs tree)

theorem symlink_leads_back :
    LeadsWhereItSays escapeClient (madeFs backTree).1 4096 atFdcwd (ascii ['/', 'l'])
      (ascii ['/', 'd']) := by
  have hexists : ∀ p, p <+: [ascii ['d']] → backTree.node ([ascii ['r']] ++ p) ≠ none ∧
      ¬ backTree.IsLink ([ascii ['r']] ++ p) := by
    intro p hp
    have hnode : backTree.node ([ascii ['r']] ++ p) = some .dir := by
      cases p with
      | nil => rfl
      | cons m p =>
        obtain ⟨rfl, hrest⟩ := List.cons_prefix_cons.mp hp
        obtain rfl := List.prefix_nil.mp hrest
        rfl
    exact ⟨by rw [hnode]; simp, Resolve.Tree.not_isLink_of_isDir (Resolve.Tree.isDir_iff.mpr hnode)⟩
  exact (symlink_leads_iff (makeLink 4096) 4096 (createsLink_makeLink 4096) backTree
    (toFs backTree) represents_backTree escapeClient [ascii ['r']]
    ⟨rfl, by decide, by decide, rfl⟩ rfl [ascii ['d']] (by decide) false (by decide)
    hexists (by decide) (by decide) atFdcwd
    (ascii ['/', 'l']) [ascii ['r']] [ascii ['r']]
    ⟨by decide, .inl ⟨rfl, rfl, rfl⟩, rfl, by decide⟩ (by decide) (by decide) [ascii ['r']]
    (ascii ['l']) rfl rfl rfl (ascii ['/', 'r', '/', 'l']) (by decide) (madeFs backTree).1
    rfl).1 ⟨rfl, by decide⟩

/-- Without the link `/r/r`, the link `/l` to `/d` leads to `/r/r/d`. -/
theorem symlink_leads_astray :
    linkTree.node [ascii ['r'], ascii ['d']] = some .dir ∧
      linkTree.node [ascii ['r'], ascii ['l']] = none ∧ (madeFs linkTree).2 = 0 ∧
      basePath (madeFs linkTree).1 4096 escapeClient atFdcwd (ascii ['/', 'd']) false =
        .built (ascii ['/', 'r', '/', 'd']) ∧
      basePath (madeFs linkTree).1 4096 escapeClient atFdcwd (ascii ['/', 'l']) false =
        .built (ascii ['/', 'r', '/', 'r', '/', 'd']) := by
  decide

end Pseudo
