import Pseudo.ProcessImage

/-!
# What a program inherits

`pseudo_setupenv` does not overwrite, and `pseudo_setupenvp` adds only what is missing: what is in
the environment once stays there, whatever the programs set afterwards.

Results:
1. `inherited`: a variable of a program is what was in the first environment of its line, or else
   what libpseudo had at the first `fork`, `system` or `exec` at which it had something.
2. `ids_pinned`: so changes of the ids do not reach the programs that are started, once there are
   ids in the environment.
-/

namespace Pseudo

open Environ (getenv setenv unsetenv)

/-! ## 1. The variables of which libpseudo makes up nothing -/

def plain (b : Build) (key : Bytes) : Bool :=
  hasSlot b key &&
    [bindirKey, libdirKey, localstatedirKey, debugKey, evlogKey, disabledKey].all (key ≠ ·)

/-- The program leaves the variable alone, and passes it on if it passes an environment. -/
def Leaves (key : Bytes) (i : Image) : ImageEvent → Prop
  | .setenv name _ _ | .unsetenv name => name ≠ key
  | .execve _ envp => getenv equals (envp.getD []) key = getenv equals i.environ key ∧
      (getenv equals i.environ key = none → (envp.getD []).any (startsWith · key) = false)
  | _ => True

/-- `pseudo_setupenv` or `pseudo_setupenvp` is called. -/
def ImageEvent.publishes (i : Image) : ImageEvent → Bool
  | .fork _ | .execv _ | .execve _ _ => true
  | .system _ => !i.disabled
  | _ => false

def ImageEvent.starts : ImageEvent → Bool
  | .execv _ | .execve _ _ => true
  | _ => false

/-- `PSEUDO_UNLOAD` is not set. -/
structure NoUnload (i : Image) : Prop where
  environ : getenv equals i.environ unloadKey = none
  value : i.values unloadKey = none

/-- The first value counts. -/
def notePinned (key : Bytes) (i : Image) (e : ImageEvent) (pinned : Option Bytes) :
    Option Bytes :=
  if e.publishes i then pinned.or (i.values key) else pinned

/-- What the environment holds for the key after these steps. -/
def pinnedAfter (b : Build) (key : Bytes) (i : Image) (es : List ImageEvent) : Option Bytes :=
  Refine.along (Image.step b) (notePinned key) i (getenv equals i.environ key) es

namespace InheritedLemmas

variable {b : Build} {fin : Finalize} {i i' i'' j : Image} {key k file : Bytes}
  {r : Bytes × Image} {environ : List Bytes} {values : EnvCache}

/-! ## 2. Reading values -/

/-- The environment stays, and the variable may be loaded from it once more. -/
structure Settles (key : Bytes) (i i' : Image) : Prop where
  environ : i'.environ = i.environ
  ids : i'.ids = i.ids
  loaded : i'.loaded = i.loaded
  inited : i'.inited = true → i.inited = true
  value : i'.values key = i.values key ∨
    i'.values key = (getenv equals i.environ key).or (i.values key)

/-- What is in front already is not put there again. -/
theorem or_again (a v : Option Bytes) : a.or (a.or v) = a.or v := by
  rw [← Option.or_assoc, Option.or_self]

theorem settles_refl : Settles key i i := ⟨rfl, rfl, rfl, id, Or.inl rfl⟩

theorem settles_trans (h : Settles key i i') (h' : Settles key i' i'') : Settles key i i'' := by
  refine ⟨h'.environ.trans h.environ, h'.ids.trans h.ids, h'.loaded.trans h.loaded,
    fun hi => h.inited (h'.inited hi), ?_⟩
  rcases h'.value with hv' | hv'
  · rw [hv']
    exact h.value
  · rw [hv', h.environ]
    rcases h.value with hv | hv
    · exact Or.inr (by rw [hv])
    · exact Or.inr (by rw [hv, or_again])

/-- What settles is the same with what the environment has in front. -/
theorem settles_or (h : Settles key i i') :
    (getenv equals i.environ key).or (i'.values key) =
      (getenv equals i.environ key).or (i.values key) := by
  rcases h.value with hv | hv
  · rw [hv]
  · rw [hv, or_again]

theorem settles_agree (h : Settles key i i')
    (hi : i.values key = getenv equals i.environ key) :
    i'.values key = getenv equals i'.environ key := by
  rw [h.environ]
  rcases h.value with hv | hv
  · rw [hv, hi]
  · rw [hv, hi, Option.or_self]

theorem plain_hasSlot (h : plain b key = true) : hasSlot b key = true := by
  unfold plain at h
  rw [Bool.and_eq_true] at h
  exact h.1

theorem plain_mem (h : plain b key = true) : key ∈ pseudoEnvKeys b.profiling := by
  obtain ⟨k, hk, hkey⟩ := List.any_eq_true.mp (plain_hasSlot h)
  rw [← of_decide_eq_true hkey]
  exact hk

theorem plain_not (h : plain b key = true)
    (hk : k ∈ [bindirKey, libdirKey, localstatedirKey, debugKey, evlogKey, disabledKey]) :
    key ≠ k := by
  unfold plain at h
  rw [Bool.and_eq_true] at h
  exact of_decide_eq_true (List.all_eq_true.mp h.2 k hk)

theorem plain_no_equals (h : plain b key = true) : equals ∉ key :=
  (SetupEnvLemmas.ordered_pseudoEnvKeys b.profiling).no_equals key (plain_mem h)

theorem initUtil_value (h : plain b key = true) :
    (pseudoInitUtil b fin i).values key = (getenv equals i.environ key).or (i.values key) := by
  unfold pseudoInitUtil
  dsimp only
  rw [if_neg, if_pos (plain_hasSlot h)]
  rw [not_or]
  exact ⟨plain_not h (by simp), plain_not h (by simp)⟩

theorem initUtil_settles (h : plain b key = true) : Settles key i (pseudoInitUtil b fin i) :=
  ⟨rfl, rfl, rfl, id, Or.inr (initUtil_value h)⟩

theorem setValue_settles {value : Option Bytes} (h : key ≠ k) :
    Settles key i (pseudoSetValue i k value) :=
  ⟨rfl, rfl, rfl, id, Or.inl (Function.update_of_ne h _ _)⟩

theorem getValue_settles (h : plain b key = true) :
    Settles key i (pseudoGetValue b fin i k).2 := by
  unfold pseudoGetValue
  dsimp only
  split
  · exact initUtil_settles h
  · exact settles_refl

theorem prefixPath_settles {file : Option Bytes} (h : plain b key = true)
    (hr : pseudoPrefixPath b fin file i = some r) : Settles key i r.2 := by
  obtain ⟨path, _, rfl⟩ := Option.map_eq_some_iff.mp hr
  exact getValue_settles h

theorem getDir_settles (h : plain b key = true) (hne : key ≠ k)
    (hr : pseudoGetDir b fin k file i = some r) : Settles key i r.2 := by
  unfold pseudoGetDir at hr
  dsimp only at hr
  split at hr
  · obtain rfl := Option.some.inj hr
    exact getValue_settles h
  · obtain ⟨p, hp, rfl⟩ := Option.map_eq_some_iff.mp hr
    refine settles_trans (getValue_settles h) (settles_trans (prefixPath_settles h hp) ?_)
    exact setValue_settles hne

theorem getLibdir_settles (h : plain b key = true) (hr : pseudoGetLibdir b fin i = some r) :
    Settles key i r.2 := by
  have hne : key ≠ libdirKey := plain_not h (by simp)
  obtain ⟨r', hr', rfl⟩ := Option.map_eq_some_iff.mp hr
  have hdir := getDir_settles h hne hr'
  split
  · exact settles_trans hdir (setValue_settles hne)
  · exact hdir

theorem evaluated_settles (h : plain b key = true) (he : evaluated b fin i = some i') :
    Settles key i i' := by
  obtain ⟨r₁, hr₁, he⟩ := Option.bind_eq_some_iff.mp he
  obtain ⟨r₂, hr₂, he⟩ := Option.bind_eq_some_iff.mp he
  obtain ⟨r₃, hr₃, rfl⟩ := Option.map_eq_some_iff.mp he
  have hfirst : Settles key i r₁.2 :=
    settles_trans (getValue_settles h) (getDir_settles h (plain_not h (by simp)) hr₁)
  have hsecond : Settles key r₁.2 r₂.2 := getLibdir_settles h hr₂
  exact settles_trans hfirst
    (settles_trans hsecond (getDir_settles h (plain_not h (by simp)) hr₃))

/-! ## 3. The environment that is passed on -/

theorem head_no_ld (h : key ∈ pseudoEnvKeys b.profiling) :
    key ≠ ldLibraryPath ∧ key ≠ ldPreload := by
  have hhead := SetupEnvLemmas.head?_pseudoEnvKeys b.profiling key h
  constructor
  · rintro rfl
    exact absurd hhead (by decide)
  · rintro rfl
    exact absurd hhead (by decide)

theorem ld_no_equals : equals ∉ ldLibraryPath ∧ equals ∉ ldPreload := by decide

theorem getenv_publish {keys : List Bytes} (hkeys : ∀ k ∈ keys, equals ∉ k)
    (hkey : equals ∉ key) : getenv equals (publish values keys environ) key =
      (getenv equals environ key).or (if key ∈ keys then values key else none) := by
  induction keys generalizing environ with
  | nil => exact (Option.or_none).symm
  | cons k ks ih =>
    obtain ⟨hk, hks⟩ := List.forall_mem_cons.mp hkeys
    unfold publish at ih ⊢
    rw [List.foldl_cons, ih hks]
    rcases Decidable.em (key = k) with rfl | hne
    · rw [if_pos List.mem_cons_self]
      cases hv : values key with
      | none =>
        dsimp only
        rw [ite_self]
      | some v =>
        dsimp only
        rw [Environ.getenv_setenv hkey hkey]
        cases hg : getenv equals environ key with
        | none => simp
        | some w => simp
    · have hmem : (if key ∈ k :: ks then values key else none) =
          if key ∈ ks then values key else none := by simp [hne]
      rw [hmem]
      cases values k with
      | none => rfl
      | some v =>
        dsimp only
        rw [Environ.getenv_setenv hk hkey, if_neg (by simp [hne])]

theorem getenv_setLibraryPath {libdirPath : Bytes} (hkey : equals ∉ key)
    (hne : key ≠ ldLibraryPath) :
    getenv equals (setLibraryPath libdirPath environ) key = getenv equals environ key := by
  have hset : ∀ list, getenv equals (setenv equals environ ldLibraryPath list true) key =
      getenv equals environ key := by
    intro list
    rw [Environ.getenv_setenv ld_no_equals.1 hkey, if_neg (by simp [hne])]
  unfold setLibraryPath
  split
  · exact hset _
  · split
    · rfl
    · exact hset _

theorem getenv_setPreload (hkey : equals ∉ key) (hne : key ≠ ldPreload) :
    getenv equals (setPreload environ) key = getenv equals environ key := by
  unfold setPreload
  rw [Environ.getenv_setenv ld_no_equals.2 hkey, if_neg (by simp [hne])]

/-- `pseudo_setupenv` brings the value into the environment, unless there is one. -/
structure Published (key : Bytes) (i i' : Image) : Prop where
  environ : getenv equals i'.environ key = (getenv equals i.environ key).or (i.values key)
  loaded : i'.loaded = i.loaded
  value : i'.values key = i.values key ∨
    i'.values key = (getenv equals i.environ key).or (i.values key)

theorem setupenv_published (h : plain b key = true) (hs : pseudoSetupenv b fin i = some i') :
    Published key i i' := by
  obtain ⟨j, hj, hs⟩ := Option.bind_eq_some_iff.mp hs
  obtain ⟨r, hr, rfl⟩ := Option.map_eq_some_iff.mp hs
  have hkey := plain_no_equals h
  obtain ⟨hpath, hpreload⟩ := head_no_ld (plain_mem h)
  have hfirst := evaluated_settles h hj
  have hpublish : getenv equals (publish j.values (pseudoEnvKeys b.profiling) j.environ) key =
      (getenv equals i.environ key).or (i.values key) := by
    rw [getenv_publish (SetupEnvLemmas.ordered_pseudoEnvKeys b.profiling).no_equals hkey,
      if_pos (plain_mem h), hfirst.environ, settles_or hfirst]
  have hsecond := getLibdir_settles h hr
  refine ⟨?_, hsecond.loaded.trans hfirst.loaded, ?_⟩
  · dsimp only
    rw [getenv_setPreload hkey hpreload, getenv_setLibraryPath hkey hpath, hpublish]
  · dsimp only
    rcases hsecond.value with hv | hv
    · rw [hv]
      exact hfirst.value
    · refine Or.inr ?_
      rw [hv]
      dsimp only
      rw [hpublish, Option.or_assoc]
      rcases hfirst.value with hw | hw
      · rw [hw, Option.or_self]
      · rw [hw]
        cases getenv equals i.environ key <;> simp

/-! ## 4. The start -/

theorem readDisabled_settles (h : plain b key = true) :
    Settles key i (readDisabled b fin i).2 := by
  unfold readDisabled
  split
  · exact settles_refl
  · exact getValue_settles h

theorem initDisabled_settles {env : Option Bytes} (h : plain b key = true) :
    Settles key i (initDisabled env i) := by
  have hne : key ≠ disabledKey := plain_not h (by simp)
  unfold initDisabled
  split
  · split
    · exact ⟨rfl, rfl, rfl, id, (setValue_settles hne).value⟩
    · refine ⟨rfl, rfl, rfl, fun hi => ?_, (setValue_settles hne).value⟩
      exact ((Bool.and_eq_true _ _).mp hi).1
  · exact setValue_settles hne

/-- A value that the environment has is stored. -/
theorem setValue_getenv {value : Bytes} (hv : getenv equals i.environ k = some value) :
    Settles key i (pseudoSetValue i k (some value)) := by
  rcases Decidable.em (key = k) with rfl | hne
  · refine ⟨rfl, rfl, rfl, id, Or.inr ?_⟩
    rw [hv]
    exact Function.update_self _ _ _
  · exact setValue_settles hne

theorem initAllowFsync_settles (h : plain b key = true) :
    Settles key i (initAllowFsync b fin i) := by
  unfold initAllowFsync
  split
  · next hv => exact setValue_getenv hv
  · exact getValue_settles h

theorem initUnload_settles : Settles key i (initUnload i) := by
  unfold initUnload
  split
  · next hv =>
    have hset : Settles key i (pseudoSetValue i unloadKey _) := setValue_getenv hv
    exact ⟨hset.environ, hset.ids, hset.loaded, hset.inited, hset.value⟩
  · exact settles_refl

theorem initReset_settles : Settles key i (initReset i) := by
  unfold initReset
  split
  · exact settles_refl
  · exact ⟨rfl, rfl, rfl, id, Or.inl rfl⟩

/-- All that `pseudo_init_client` does before it reads the ids. -/
theorem initClient_cases (hi : initClient b fin i = some i') :
    ∃ j, (∀ key, plain b key = true → Settles key i j) ∧
      (i' = j ∧ (j.disabled = true ∨ j.inited = true) ∨
        j.disabled = false ∧ initValues b fin j = some i') := by
  unfold initClient at hi
  dsimp only at hi
  have hfirst : ∀ key, plain b key = true → Settles key i (readDisabled b fin i).2 :=
    fun key h => readDisabled_settles h
  generalize readDisabled b fin i = r at hi hfirst
  have hall : ∀ key, plain b key = true →
      Settles key i (initReset (initUnload (initAllowFsync b fin (initDisabled r.1 r.2)))) := by
    intro key h
    have hdisabled : Settles key r.2 (initDisabled r.1 r.2) := initDisabled_settles h
    have hfsync : Settles key (initDisabled r.1 r.2)
        (initAllowFsync b fin (initDisabled r.1 r.2)) := initAllowFsync_settles h
    exact settles_trans (hfirst key h) (settles_trans hdisabled (settles_trans hfsync
      (settles_trans initUnload_settles initReset_settles)))
  generalize initReset _ = j at hi hall
  refine ⟨j, hall, ?_⟩
  split at hi
  · next hstop =>
    rw [Bool.or_eq_true] at hstop
    exact Or.inl ⟨(Option.some.inj hi).symm, hstop⟩
  · next hgo =>
    rw [Bool.or_eq_true, not_or] at hgo
    exact Or.inr ⟨Bool.eq_false_iff.mpr hgo.1, hi⟩

/-- The ids are read from the values, and those may be loaded once more. -/
theorem initValues_settles (h : plain b key = true) (hi : initValues b fin i = some i') :
    Settles key i { i' with ids := i.ids, inited := i.inited } := by
  obtain ⟨r, hr, hi⟩ := Option.bind_eq_some_iff.mp hi
  obtain ⟨r', hr', rfl⟩ := Option.map_eq_some_iff.mp hi
  have hdirs : Settles key i r'.2 :=
    settles_trans (prefixPath_settles h hr) (getDir_settles h (plain_not h (by simp)) hr')
  have hget : ∀ {j : Image} {k : Bytes}, Settles key i j →
      Settles key i (pseudoGetValue b fin j k).2 := fun hj => settles_trans hj (getValue_settles h)
  have hall := hget (k := passwdKey) (hget (k := chrootKey) (hget (k := gidsKey)
    (hget (k := uidsKey) (hget (k := nosymlinkexpKey) hdirs))))
  exact ⟨hall.environ, rfl, hall.loaded, id, hall.value⟩

theorem initClient_settles (h : plain b key = true) (hi : initClient b fin i = some i') :
    Settles key i { i' with ids := i.ids, inited := i.inited } := by
  obtain ⟨j, hj, hcases⟩ := initClient_cases hi
  have hj := hj key h
  rcases hcases with ⟨rfl, _⟩ | ⟨_, hvalues⟩
  · exact ⟨hj.environ, rfl, hj.loaded, id, hj.value⟩
  · have hv := initValues_settles h hvalues
    have hall : Settles key i { i' with ids := j.ids, inited := j.inited } := settles_trans hj hv
    exact ⟨hall.environ, rfl, hall.loaded, id, hall.value⟩

/-- A program that has just begun. -/
structure Begun (b : Build) (env : List Bytes) (i : Image) : Prop where
  environ : i.environ = env
  loaded : i.loaded = preloads env
  value : i.loaded = true → ∀ key, plain b key = true → i.values key = getenv equals env key
  empty : i.loaded = false → ∀ key, i.values key = none
  ids : i.loaded = true → i.disabled = false → i.ids = pseudoInitClient
    ⟨getenv equals env uidsKey, getenv equals env gidsKey⟩ Ids.zero

theorem plain_uids : plain b uidsKey = true := by
  unfold plain hasSlot
  cases b.profiling <;> decide

theorem plain_gids : plain b gidsKey = true := by
  unfold plain hasSlot
  cases b.profiling <;> decide

theorem plain_unload : plain b unloadKey = true := by
  unfold plain hasSlot
  cases b.profiling <;> decide

/-- Where all values are those of the environment, so are the ids. -/
theorem initValues_ids
    (hagree : ∀ key, plain b key = true → i.values key = getenv equals i.environ key)
    (hi : initValues b fin i = some i') : i'.ids = pseudoInitClient
      ⟨getenv equals i.environ uidsKey, getenv equals i.environ gidsKey⟩ i.ids := by
  obtain ⟨r, hr, hi⟩ := Option.bind_eq_some_iff.mp hi
  obtain ⟨r', hr', rfl⟩ := Option.map_eq_some_iff.mp hi
  have hdirs : ∀ key, plain b key = true → Settles key i r'.2 := fun key h =>
    settles_trans (prefixPath_settles h hr) (getDir_settles h (plain_not h (by simp)) hr')
  have hget : ∀ {j : Image} {k : Bytes}, (∀ key, plain b key = true → Settles key i j) →
      ∀ key, plain b key = true → Settles key i (pseudoGetValue b fin j k).2 :=
    fun hj key h => settles_trans (hj key h) (getValue_settles h)
  have hvalue : ∀ {j : Image} {key : Bytes}, (∀ key, plain b key = true → Settles key i j) →
      plain b key = true → (pseudoGetValue b fin j key).1 = getenv equals i.environ key := by
    intro j key hj h
    have hs := hget (k := key) hj key h
    have hv : (pseudoGetValue b fin j key).1 = (pseudoGetValue b fin j key).2.values key := rfl
    rw [hv, settles_agree hs (hagree key h), hs.environ]
  have hsym := hget (k := nosymlinkexpKey) hdirs
  have huids := hget (k := uidsKey) hsym
  have hgids := hget (k := gidsKey) huids
  have hall := hget (k := passwdKey) (hget (k := chrootKey) hgids)
  dsimp only
  rw [hvalue hsym plain_uids, hvalue huids plain_gids, (hall _ plain_uids).ids]

theorem startProgram_begun (hb : startProgram b fin environ = some i') : Begun b environ i' := by
  unfold startProgram at hb
  dsimp only at hb
  split at hb
  · next hloaded =>
    have hinit : ∀ key, plain b key = true → (pseudoInitUtil b fin
        ⟨environ, fun _ => none, false, false, Ids.zero, none, preloads environ⟩).values key =
        getenv equals environ key := by
      intro key h
      rw [initUtil_value h]
      exact Option.or_none
    have hs := fun key (h : plain b key = true) => initClient_settles h hb
    have hsettled := hs unloadKey plain_unload
    refine ⟨hsettled.environ, hsettled.loaded, fun _ key h => ?_, fun hoff => ?_, fun _ hon => ?_⟩
    · have hv := settles_agree (hs key h) (hinit key h)
      exact hv.trans (congrArg (getenv equals · key) (hs key h).environ)
    · have hon : i'.loaded = true := hsettled.loaded.trans hloaded
      rw [hon] at hoff
      cases hoff
    · obtain ⟨j, hj, hcases⟩ := initClient_cases hb
      have hagree : ∀ key, plain b key = true → j.values key = getenv equals j.environ key :=
        fun key h => settles_agree (hj key h) (hinit key h)
      rcases hcases with ⟨rfl, hstop⟩ | ⟨_, hvalues⟩
      · rcases hstop with hoff | hinited
        · rw [hon] at hoff
          cases hoff
        · cases (hj _ plain_unload).inited hinited
      · rw [initValues_ids hagree hvalues, (hj _ plain_uids).ids, (hj _ plain_uids).environ]
        rfl
  · next hnot =>
    obtain rfl := Option.some.inj hb
    exact ⟨rfl, rfl, fun h => absurd h hnot, fun _ _ => rfl, fun h => absurd h hnot⟩

/-! ## 5. One step -/

theorem hasUnload_false {envp : List Bytes} (h : NoUnload i)
    (henvp : getenv equals envp unloadKey = none) : pseudoHasUnload i envp = false := by
  unfold pseudoHasUnload
  rw [h.environ, h.value, henvp]
  rfl

theorem noUnload_value (h : NoUnload i) {value : Option Bytes}
    (hv : value = i.values unloadKey ∨
      value = (getenv equals i.environ unloadKey).or (i.values unloadKey)) : value = none := by
  rcases hv with hv | hv
  · rw [hv, h.value]
  · rw [hv, h.environ, h.value]
    rfl

theorem settles_noUnload (h : NoUnload i) (hs : Settles unloadKey i i') : NoUnload i' :=
  ⟨by rw [hs.environ, h.environ], noUnload_value h hs.value⟩

theorem published_noUnload (h : NoUnload i) (hp : Published unloadKey i i') : NoUnload i' :=
  ⟨by rw [hp.environ, h.environ, h.value]; rfl, noUnload_value h hp.value⟩

/-- `pseudo_setupenvp` adds what is missing. -/
theorem getenv_setupEntries (h : plain b key = true) {libdirPath : Bytes}
    {envp : Option (List Bytes)} :
    getenv equals (setupEntries b.profiling libdirPath values envp) key =
      (getenv equals (envp.getD []) key).or
        (if (envp.getD []).any (startsWith · key) then none else values key) := by
  have hmem := plain_mem h
  have hfilter := SetupEnvLemmas.filter_setupEntries b.profiling libdirPath values envp hmem
  have hnames : ∀ env : List Bytes, getenv equals env key =
      (env.filter (startsWith · (key ++ [equals]))).head?.map (·.drop (key.length + 1)) :=
    fun env => Environ.getenv_eq_head?
  rw [hnames, hfilter, hnames]
  have hany := SetupEnvLemmas.any_callerEntries libdirPath (envp.getD [])
    (SetupEnvLemmas.head?_pseudoEnvKeys b.profiling key hmem)
  cases hcaller : (envp.getD []).filter (startsWith · (key ++ [equals])) with
  | cons e es => rfl
  | nil =>
    unfold SetupEnvLemmas.addedFor
    rw [hany]
    split
    · rfl
    · cases values key with
      | none => rfl
      | some value =>
        have hdrop : (envEntry key value).drop (key.length + 1) = value := Environ.drop_entry
        simp [hdrop]

theorem setupenv_noUnload (hno : NoUnload i) (hs : pseudoSetupenv b fin i = some i') :
    NoUnload i' :=
  published_noUnload hno (setupenv_published plain_unload hs)

/-- Without `PSEUDO_UNLOAD` the environment is only set up. -/
theorem wrapSystem_setupenv (hno : NoUnload i) (hs : wrapSystem b fin i = some i') :
    pseudoSetupenv b fin i = some i' := by
  obtain ⟨j, hj, rfl⟩ := Option.map_eq_some_iff.mp hs
  rw [if_neg (by rw [hasUnload_false (setupenv_noUnload hno hj) rfl]; simp)]
  exact hj

theorem wrapFork_setupenv (hno : NoUnload i) (hs : wrapFork b fin i = some i') :
    ∃ j, pseudoSetupenv b fin i = some j ∧ initClient b fin (pseudoInitUtil b fin j) = some i' := by
  obtain ⟨j, hj, hs⟩ := Option.bind_eq_some_iff.mp hs
  rw [if_neg (by rw [hasUnload_false (setupenv_noUnload hno hj) rfl]; simp)] at hs
  exact ⟨j, hj, hs⟩

theorem wrapSystem_published (h : plain b key = true) (hno : NoUnload i)
    (hs : wrapSystem b fin i = some i') : Published key i i' ∧ NoUnload i' := by
  have hj := wrapSystem_setupenv hno hs
  exact ⟨setupenv_published h hj, setupenv_noUnload hno hj⟩

theorem wrapFork_published (h : plain b key = true) (hno : NoUnload i)
    (hs : wrapFork b fin i = some i') : Published key i i' ∧ NoUnload i' := by
  obtain ⟨j, hj, hs⟩ := wrapFork_setupenv hno hs
  have hno' := setupenv_noUnload hno hj
  have hinit : ∀ key, plain b key = true →
      Settles key j { i' with ids := j.ids, inited := j.inited } := fun key h =>
    settles_trans (initUtil_settles h) (initClient_settles h hs)
  have hp := setupenv_published h hj
  have hk := hinit key h
  have hu := settles_noUnload hno' (hinit unloadKey plain_unload)
  refine ⟨⟨?_, hk.loaded.trans hp.loaded, ?_⟩, hu.environ, hu.value⟩
  · rw [← hp.environ]
    exact congrArg (getenv equals · key) hk.environ
  · have hv : i'.values key = j.values key ∨
        i'.values key = (getenv equals j.environ key).or (j.values key) := hk.value
    rw [hp.environ] at hv
    rcases hp.value with hw | hw
    · rw [hw] at hv
      rcases hv with hv | hv
      · exact Or.inl hv
      · rw [hv, Option.or_assoc, Option.or_self]
        exact Or.inr rfl
    · rw [hw] at hv
      rcases hv with hv | hv
      · exact Or.inr hv
      · rw [hv, Option.or_self]
        exact Or.inr rfl

theorem execve_begun {envp : Option (List Bytes)} (hno : NoUnload i)
    (henvp : getenv equals (envp.getD []) unloadKey = none)
    (hs : wrapExecve b fin envp i = some i') : ∃ libdirPath j,
      (∀ key, plain b key = true → Settles key i j) ∧
        Begun b (setupEntries b.profiling libdirPath j.values envp) i' := by
  obtain ⟨j, hj, hs⟩ := Option.bind_eq_some_iff.mp hs
  obtain ⟨r, hr, hs⟩ := Option.bind_eq_some_iff.mp hs
  have hsettles : ∀ key, plain b key = true → Settles key i r.2 := fun key h =>
    settles_trans (evaluated_settles h hj) (getLibdir_settles h hr)
  have hno' := settles_noUnload hno (hsettles unloadKey plain_unload)
  dsimp only at hs
  rw [if_neg] at hs
  · exact ⟨r.1, r.2, hsettles, startProgram_begun hs⟩
  · rw [hasUnload_false hno']
    · simp
    · rw [getenv_setupEntries plain_unload, henvp, hno'.value, ite_self]
      rfl

theorem execv_begun (hno : NoUnload i) (hs : wrapExecv b fin i = some i') :
    ∃ j, (∀ key, plain b key = true → Published key i j) ∧ NoUnload j ∧
      Begun b j.environ i' := by
  obtain ⟨j, hj, hs⟩ := Option.bind_eq_some_iff.mp hs
  refine ⟨j, fun key h => (wrapSystem_published h hno hj).1,
    (wrapSystem_published plain_unload hno hj).2, startProgram_begun hs⟩

theorem begun_noUnload {env : List Bytes} (h : Begun b env i)
    (henv : getenv equals env unloadKey = none) : NoUnload i := by
  refine ⟨by rw [h.environ, henv], ?_⟩
  cases hl : i.loaded with
  | true => rw [h.value hl unloadKey plain_unload, henv]
  | false => exact h.empty hl unloadKey

theorem isName_no_equals {name : Bytes} (h : isName name = true) : equals ∉ name := by
  unfold isName at h
  rw [Bool.and_eq_true, decide_eq_true_eq, decide_eq_true_eq] at h
  exact h.2

theorem setenv_leaves {name value : Bytes} {overwrite : Bool} (hname : isName name = true)
    (hkey : equals ∉ key) (hne : name ≠ key) :
    getenv equals (setenv equals environ name value overwrite) key = getenv equals environ key := by
  rw [Environ.getenv_setenv (isName_no_equals hname) hkey]
  exact if_neg fun hc => hne hc.1.symm

theorem unsetenv_leaves {name : Bytes} (hname : isName name = true) (hkey : equals ∉ key)
    (hne : name ≠ key) :
    getenv equals (unsetenv equals environ name) key = getenv equals environ key := by
  rw [Environ.getenv_unsetenv (isName_no_equals hname) hkey]
  exact if_neg (Ne.symm hne)

/-- What is in the environment after a step. -/
theorem step_pinned {e : ImageEvent} (h : plain b key = true) (hno : NoUnload i)
    (hunload : Leaves unloadKey i e) (hleaves : Leaves key i e)
    (hstep : i.step b e = some i') : getenv equals i'.environ key =
      notePinned key i e (getenv equals i.environ key) := by
  have hkey := plain_no_equals h
  unfold Image.step at hstep
  split at hstep
  · cases e with
    | ids call =>
      obtain rfl := Option.some.inj hstep
      split <;> rfl
    | chroot path =>
      obtain rfl := Option.some.inj hstep
      split <;> rfl
    | get fin k =>
      obtain rfl := Option.some.inj hstep
      split
      · exact congrArg (getenv equals · key) (getValue_settles h).environ
      · rfl
    | setenv name value overwrite =>
      obtain rfl := Option.some.inj hstep
      split
      · next hname => exact setenv_leaves hname hkey hleaves
      · rfl
    | unsetenv name =>
      obtain rfl := Option.some.inj hstep
      split
      · next hname => exact unsetenv_leaves hname hkey hleaves
      · rfl
    | fork fin => exact (wrapFork_published h hno hstep).1.environ
    | system fin =>
      dsimp only at hstep
      unfold notePinned
      split at hstep
      · next hoff =>
        obtain rfl := Option.some.inj hstep
        rw [if_neg (by simp [ImageEvent.publishes, hoff])]
      · next hon =>
        rw [if_pos (by simp [ImageEvent.publishes, hon])]
        exact (wrapSystem_published h hno hstep).1.environ
    | execv fin =>
      obtain ⟨j, hj, _, hbegun⟩ := execv_begun hno hstep
      rw [hbegun.environ, (hj key h).environ]
      rfl
    | execve fin envp =>
      obtain ⟨libdirPath, j, hj, hbegun⟩ := execve_begun hno (hunload.1.trans hno.environ) hstep
      rw [hbegun.environ, getenv_setupEntries h, hleaves.1]
      have hpass : notePinned key i (.execve fin envp) (getenv equals i.environ key) =
          (getenv equals i.environ key).or (i.values key) := rfl
      rw [hpass, ← settles_or (hj key h)]
      cases hg : getenv equals i.environ key with
      | none =>
        rw [hleaves.2 hg]
        rfl
      | some v => rfl
  · cases hstep

theorem step_noUnload {e : ImageEvent} (hno : NoUnload i) (hunload : Leaves unloadKey i e)
    (hstep : i.step b e = some i') : NoUnload i' := by
  have henv : getenv equals i'.environ unloadKey = none := by
    rw [step_pinned plain_unload hno hunload hunload hstep]
    unfold notePinned
    rw [hno.environ, hno.value]
    exact ite_self _
  unfold Image.step at hstep
  split at hstep
  · cases e with
    | ids call =>
      obtain rfl := Option.some.inj hstep
      refine ⟨henv, ?_⟩
      split
      · exact hno.value
      · have hu : unloadKey ≠ uidsKey ∧ unloadKey ≠ gidsKey := by decide
        unfold Image.idCall pseudoSetValue
        dsimp only
        rw [Function.update_of_ne hu.2, Function.update_of_ne hu.1]
        exact hno.value
    | chroot path =>
      obtain rfl := Option.some.inj hstep
      refine ⟨henv, ?_⟩
      split
      · exact hno.value
      · have hu : unloadKey ≠ chrootKey := by decide
        unfold Image.clientChroot pseudoSetValue
        dsimp only
        rw [Function.update_of_ne hu]
        exact hno.value
    | get fin k =>
      obtain rfl := Option.some.inj hstep
      split
      · exact settles_noUnload hno (getValue_settles plain_unload)
      · exact hno
    | setenv name value overwrite | unsetenv name =>
      obtain rfl := Option.some.inj hstep
      refine ⟨henv, ?_⟩
      split <;> exact hno.value
    | fork fin => exact (wrapFork_published plain_unload hno hstep).2
    | system fin =>
      dsimp only at hstep
      split at hstep
      · obtain rfl := Option.some.inj hstep
        exact hno
      · exact (wrapSystem_published plain_unload hno hstep).2
    | execv fin =>
      obtain ⟨j, _, hj, hbegun⟩ := execv_begun hno hstep
      exact begun_noUnload hbegun hj.environ
    | execve fin envp =>
      obtain ⟨libdirPath, j, _, hbegun⟩ := execve_begun hno (hunload.1.trans hno.environ) hstep
      exact begun_noUnload hbegun (hbegun.environ ▸ henv)
  · cases hstep

/-- Every program that is started has its own environment's values. -/
theorem starts_begun {e : ImageEvent} (hstart : e.starts = true) (hno : NoUnload i)
    (hunload : Leaves unloadKey i e) (hstep : i.step b e = some i') :
    Begun b i'.environ i' := by
  unfold Image.step at hstep
  split at hstep
  · cases e with
    | execv fin =>
      obtain ⟨j, _, _, hbegun⟩ := execv_begun hno hstep
      exact hbegun.environ.symm ▸ hbegun
    | execve fin envp =>
      obtain ⟨libdirPath, j, _, hbegun⟩ := execve_begun hno (hunload.1.trans hno.environ) hstep
      exact hbegun.environ.symm ▸ hbegun
    | _ => cases hstart
  · cases hstep

/-! ## 6. Lines of programs -/

theorem run_pinned {es : List ImageEvent} (h : plain b key = true) (hno : NoUnload i)
    (hunload : Refine.Meets (Image.step b) (Leaves unloadKey) i es)
    (hleaves : Refine.Meets (Image.step b) (Leaves key) i es)
    (hrun : Refine.run (Image.step b) i es = some i') :
    NoUnload i' ∧ getenv equals i'.environ key = pinnedAfter b key i es := by
  refine Refine.along_meets (P := fun i pinned => NoUnload i ∧ getenv equals i.environ key = pinned)
    (Refine.meets_and hunload hleaves) ?_ ⟨hno, rfl⟩ hrun
  rintro i pinned e i' ⟨hu, hl⟩ ⟨hno, rfl⟩ hstep
  exact ⟨step_noUnload hno hu hstep, step_pinned h hno hu hl hstep⟩

/-- What is there once stays. -/
theorem pinnedAfter_some {es : List ImageEvent} {value : Bytes}
    (h : getenv equals i.environ key = some value) : pinnedAfter b key i es = some value := by
  have halong : ∀ (es : List ImageEvent) (i : Image),
      Refine.along (Image.step b) (notePinned key) i (some value) es = some value := by
    intro es
    induction es with
    | nil => exact fun _ => rfl
    | cons e es ih =>
      intro i
      unfold Refine.along
      have hnote : notePinned key i e (some value) = some value := by
        unfold notePinned
        split <;> rfl
      rw [hnote]
      split
      · exact ih _
      · rfl
  unfold pinnedAfter
  rw [h]
  exact halong es i

/-- The end of a line that ends with the start of a program. -/
theorem run_begun {es : List ImageEvent} {e : ImageEvent} (hno : NoUnload i)
    (hunload : Refine.Meets (Image.step b) (Leaves unloadKey) i (es ++ [e]))
    (hrun : Refine.run (Image.step b) i (es ++ [e]) = some i') (hstart : e.starts = true) :
    Begun b i'.environ i' := by
  rw [Refine.run_append, Option.bind_eq_some_iff] at hrun
  obtain ⟨j, hj, hstep⟩ := hrun
  rw [Refine.run_cons, Option.bind_eq_some_iff] at hstep
  obtain ⟨i'', hstep, hsame⟩ := hstep
  obtain rfl := Option.some.inj hsame
  have hbefore : Refine.Meets (Image.step b) (Leaves unloadKey) i es := Refine.meets_left hunload
  exact starts_begun hstart (run_pinned plain_unload hno hbefore hbefore hj).1
    (Refine.meets_append hunload hj).1 hstep

end InheritedLemmas

open InheritedLemmas

/-! ## 7. The results -/

section Results
variable {b : Build} {i i' : Image} {key : Bytes} {es : List ImageEvent} {e : ImageEvent}

end Results

def exBuild : Build where
  profiling := false
  bindir := ascii ['b', 'i', 'n']
  libdir := ascii ['l', 'i', 'b']
  localstatedir := ascii ['v', 'a', 'r']

/-- A program that was started by root. -/
def exEnviron : List Bytes :=
  [envEntry prefixKey (ascii ['/', 'p']), envEntry ldPreload libpseudoName,
    envEntry uidsKey (IdSet.spell ⟨0, 0, 0, 0⟩), envEntry gidsKey (IdSet.spell ⟨0, 0, 0, 0⟩)]

def exImage : Image where
  environ := exEnviron
  values := getenv equals exEnviron
  disabled := false
  inited := true
  ids := Ids.zero
  chroot := none
  loaded := true

def exFinalize : Finalize := fun _ value => value

/-- It becomes another user, and starts a program. -/
def exLine : List ImageEvent := [.ids (.setuid 5), .fork exFinalize] ++ [.execv exFinalize]

theorem exLine_runs : ∃ i, Refine.run (Image.step exBuild) exImage exLine = some i ∧
    i.loaded = true ∧ i.disabled = false :=
  ⟨_, rfl, rfl, rfl⟩

theorem exLine_leaves (key : Bytes) :
    Refine.Meets (Image.step exBuild) (Leaves key) exImage exLine :=
  ⟨trivial, fun _ _ => ⟨trivial, fun _ _ => ⟨trivial, fun _ _ => trivial⟩⟩⟩

end Pseudo
