import Mathlib.Data.List.Nodup
import Pseudo.Libpseudo
import Pseudo.PasswdPaths

/-!
# The environment of an exec'd program

`pseudo_setupenvp` makes a new environment: a library path and a preload entry, the caller's other
entries, and the variables in `pseudo_env` that are not there yet. Whether one is there is tested
by the key alone, so that an entry for a longer name passes for it.

Results:
1. `setupEntries_eq`: what is added depends on the caller's entries only, since in the table no key
   stands behind one that it is a prefix of.
2. `setupEntries_carries_iff`: when the program gets the whole environment.
3. `pseudoSetupenvp_fits_iff`: when the array is large enough.
-/

namespace Pseudo

/-! ## 1. The code -/

/-- `PSEUDO_` and a name. -/
def pseudoKey (name : List Char) : Bytes := ascii (['P', 'S', 'E', 'U', 'D', 'O', '_'] ++ name)

/-- `PSEUDO_UNLOAD`. -/
def unloadKey : Bytes := pseudoKey ['U', 'N', 'L', 'O', 'A', 'D']

/-- The keys of `pseudo_env`; `profiling`: `PSEUDO_PROFILING` is defined. -/
def pseudoEnvKeys (profiling : Bool) : List Bytes :=
  [pseudoKey ['P', 'R', 'E', 'F', 'I', 'X'],
    pseudoKey ['B', 'I', 'N', 'D', 'I', 'R'],
    pseudoKey ['L', 'I', 'B', 'D', 'I', 'R'],
    pseudoKey ['L', 'O', 'C', 'A', 'L', 'S', 'T', 'A', 'T', 'E', 'D', 'I', 'R'],
    pseudoKey ['I', 'G', 'N', 'O', 'R', 'E', '_', 'P', 'A', 'T', 'H', 'S'],
    pseudoKey ['P', 'A', 'S', 'S', 'W', 'D'],
    pseudoKey ['C', 'H', 'R', 'O', 'O', 'T'],
    pseudoKey ['U', 'I', 'D', 'S'],
    pseudoKey ['G', 'I', 'D', 'S'],
    pseudoKey ['O', 'P', 'T', 'S'],
    pseudoKey ['D', 'E', 'B', 'U', 'G'],
    pseudoKey ['D', 'E', 'B', 'U', 'G', '_', 'F', 'I', 'L', 'E'],
    pseudoKey ['T', 'A', 'G'],
    pseudoKey ['E', 'N', 'O', 'S', 'Y', 'S', '_', 'A', 'B', 'O', 'R', 'T'],
    pseudoKey ['N', 'O', 'S', 'Y', 'M', 'L', 'I', 'N', 'K', 'E', 'X', 'P'],
    pseudoKey ['D', 'I', 'S', 'A', 'B', 'L', 'E', 'D'],
    unloadKey,
    pseudoKey ['A', 'L', 'L', 'O', 'W', '_', 'F', 'S', 'Y', 'N', 'C']] ++
  (if profiling then [pseudoKey ['P', 'R', 'O', 'F', 'I', 'L', 'E', '_', 'P', 'A', 'T', 'H']]
    else []) ++
  [pseudoKey ['E', 'V', 'L', 'O', 'G'],
    pseudoKey ['E', 'V', 'L', 'O', 'G', '_', 'F', 'I', 'L', 'E']]

/-- The values in `pseudo_env`, once all that `pseudo_setupenvp` needs has been evaluated. -/
abbrev EnvCache := Bytes → Option Bytes

/-- `PRELINK_PATH "="`. -/
def prelinkPath : Bytes :=
  ascii ['L', 'D', '_', 'L', 'I', 'B', 'R', 'A', 'R', 'Y', '_', 'P', 'A', 'T', 'H', '=']

/-- `STARTSWITH`. -/
def startsWith (entry start : Bytes) : Bool := start.isPrefixOf entry

/-- The last entry that starts so. -/
def lastEntry (start : Bytes) (envp : List Bytes) : Option Bytes :=
  (envp.filter (startsWith · start)).getLast?

/-- `%s:%s64`, the directory twice. -/
def libDirs (libdirPath : Bytes) : Bytes :=
  libdirPath ++ colon :: libdirPath ++ ascii ['6', '4']

/-- The first entry of the new environment. -/
def libraryPathEntry (libdirPath : Bytes) (envp : List Bytes) : Bytes :=
  match lastEntry prelinkPath envp with
  | none => prelinkPath ++ libDirs libdirPath
  | some ldLibraryPath =>
    if libdirPath <:+: ldLibraryPath then ldLibraryPath
    else ldLibraryPath ++ colon :: libDirs libdirPath

/-- The second one. -/
def preloadEntry (envp : List Bytes) : Bytes :=
  match lastEntry prelinkLibraries envp with
  | some ldPreload => withLibpseudo ldPreload
  | none => prelinkLibraries ++ withLibpseudo []

/-- An entry that is copied. -/
def isOther (entry : Bytes) : Bool :=
  !startsWith entry prelinkLibraries && !startsWith entry prelinkPath

/-- `KEY=value`. -/
def envEntry (key value : Bytes) : Bytes := key ++ equals :: value

/-- The loop over `pseudo_env`, with what is in `new_envp` so far. -/
def addKeys (values : EnvCache) : List Bytes → List Bytes → List Bytes
  | newEnvp, [] => newEnvp
  | newEnvp, key :: keys =>
    if newEnvp.any (startsWith · key) then addKeys values newEnvp keys
    else
      match values key with
      | some value => addKeys values (newEnvp ++ [envEntry key value]) keys
      | none => addKeys values newEnvp keys

/-- What the caller's `envp` puts into `new_envp`. -/
def callerEntries (libdirPath : Bytes) (envp : List Bytes) : List Bytes :=
  libraryPathEntry libdirPath envp :: preloadEntry envp :: envp.filter isOther

/-- The strings in the new environment. -/
def setupEntries (profiling : Bool) (libdirPath : Bytes) (values : EnvCache)
    (envp : Option (List Bytes)) : List Bytes :=
  addKeys values (callerEntries libdirPath (envp.getD [])) (pseudoEnvKeys profiling)

/-- `pseudo_setupenvp`: all that is stored into `new_envp`. -/
def pseudoSetupenvp (profiling : Bool) (libdirPath : Bytes) (values : EnvCache)
    (envp : Option (List Bytes)) : List (Option Bytes) :=
  (setupEntries profiling libdirPath values envp).map some ++ [none]

/-- `env_count`; there is room for one more. -/
def envCount (profiling : Bool) (envp : Option (List Bytes)) : Nat :=
  (envp.getD []).length + (pseudoEnvKeys profiling).length

/-! ## 2. What it should do -/

/-- The new environment has pseudo's variables and the caller's. -/
structure CarriesEnvironment (keys : List Bytes) (values : EnvCache) (envp newEnvp : List Bytes) :
    Prop where
  added : ∀ key ∈ keys, ∀ value, values key = some value →
    (∀ e ∈ envp, startsWith e (key ++ [equals]) = false) →
    newEnvp.filter (startsWith · (key ++ [equals])) = [envEntry key value]
  kept : newEnvp.filter (· ∈ envp.filter isOther) = envp.filter isOther
  prelink : envp.countP (startsWith · prelinkLibraries) ≤ 1 →
    envp.countP (startsWith · prelinkPath) ≤ 1 →
    newEnvp.countP (startsWith · prelinkLibraries) = 1 ∧
      newEnvp.countP (startsWith · prelinkPath) = 1

/-- No variable of the caller passes for one of pseudo's that is set. -/
def NoLongerName (keys : List Bytes) (values : EnvCache) (envp : List Bytes) : Prop :=
  ∀ key ∈ keys, values key ≠ none → (∃ e ∈ envp, startsWith e key = true) →
    ∃ e ∈ envp, startsWith e (key ++ [equals]) = true

namespace SetupEnvLemmas

/-! ## 3. The table -/

/-- What the loop relies on: no key is a prefix of one further up, and none has an equals sign. -/
structure Ordered (keys : List Bytes) : Prop where
  pairwise : keys.Pairwise fun key key' => ¬ key' <+: key
  no_equals : ∀ key ∈ keys, equals ∉ key

theorem ordered_pseudoEnvKeys (profiling : Bool) : Ordered (pseudoEnvKeys profiling) := by
  cases profiling <;> exact ⟨by decide, by decide⟩

theorem head?_pseudoEnvKeys (profiling : Bool) :
    ∀ key ∈ pseudoEnvKeys profiling, key.head? = some 80 := by
  cases profiling <;> decide

theorem unloadKey_mem (profiling : Bool) : unloadKey ∈ pseudoEnvKeys profiling := by
  cases profiling <;> decide

theorem Ordered.nodup {keys : List Bytes} (h : Ordered keys) : keys.Nodup :=
  h.pairwise.imp fun hnot heq => hnot (by rw [heq])

theorem startsWith_iff {entry start : Bytes} : startsWith entry start = true ↔ start <+: entry :=
  List.isPrefixOf_iff_prefix

/-- An entry starts with a name when its key does. -/
theorem startsWith_envEntry {key name value : Bytes} (h : equals ∉ name) :
    startsWith (envEntry key value) name = true ↔ name <+: key := by
  rw [startsWith_iff]
  refine ⟨fun hp => ?_, fun hp => hp.trans (List.prefix_append key _)⟩
  rcases List.prefix_or_prefix_of_prefix hp (List.prefix_append key (equals :: value)) with
    hle | hle
  · exact hle
  · obtain ⟨rest, rfl⟩ := hle
    have hrest := (List.prefix_append_right_inj key).mp hp
    cases rest with
    | nil => exact (List.append_nil key).symm ▸ List.prefix_rfl
    | cons c rest =>
      obtain ⟨rfl, -⟩ := List.cons_prefix_cons.mp hrest
      exact absurd (List.mem_append_right key List.mem_cons_self) h

/-- And with a name and its equals sign when the key is that name. -/
theorem startsWith_envEntry_equals {key name value : Bytes} (hkey : equals ∉ key)
    (hname : equals ∉ name) :
    startsWith (envEntry key value) (name ++ [equals]) = true ↔ key = name := by
  rw [startsWith_iff]
  constructor
  · rintro ⟨rest, heq⟩
    rw [List.append_assoc] at heq
    have hstr := congrArg (Cut.str equals) heq
    rw [Cut.str_append hname (Or.inr rfl), envEntry, Cut.str_append hkey (Or.inr rfl)] at hstr
    exact hstr.symm
  · rintro rfl
    exact ⟨value, List.append_assoc _ _ _⟩

/-- What the loop adds for a key, if it looked at these entries only. -/
def addedFor (values : EnvCache) (newEnvp : List Bytes) (key : Bytes) : List Bytes :=
  if newEnvp.any (startsWith · key) then [] else ((values key).map (envEntry key)).toList

def added (values : EnvCache) (newEnvp keys : List Bytes) : List Bytes :=
  keys.flatMap (addedFor values newEnvp)

section Added
variable {values : EnvCache} {newEnvp keys : List Bytes} {key value : Bytes}

theorem Ordered.tail (h : Ordered (key :: keys)) : Ordered keys :=
  ⟨(List.pairwise_cons.mp h.pairwise).2, fun k hk => h.no_equals k (List.mem_cons_of_mem _ hk)⟩

theorem addedFor_found (h : newEnvp.any (startsWith · key) = true) :
    addedFor values newEnvp key = [] := if_pos h

theorem addedFor_missing (h : newEnvp.any (startsWith · key) = false) :
    addedFor values newEnvp key = ((values key).map (envEntry key)).toList :=
  if_neg (Bool.eq_false_iff.mp h)

theorem mem_addedFor {e : Bytes} (h : e ∈ addedFor values newEnvp key) :
    newEnvp.any (startsWith · key) = false ∧ ∃ value, e = envEntry key value := by
  cases hfound : newEnvp.any (startsWith · key) with
  | true =>
    rw [addedFor_found hfound] at h
    cases h
  | false =>
    rw [addedFor_missing hfound, Option.mem_toList] at h
    obtain ⟨value, -, rfl⟩ := Option.map_eq_some_iff.mp h
    exact ⟨rfl, value, rfl⟩

/-- What has been added does not pass for a key further down. -/
theorem Ordered.any_append (h : Ordered (key :: keys)) {key' : Bytes} (hkey' : key' ∈ keys)
    (value : Bytes) : (newEnvp ++ [envEntry key value]).any (startsWith · key') =
      newEnvp.any (startsWith · key') := by
  have hnot : startsWith (envEntry key value) key' = false := by
    refine Bool.eq_false_iff.mpr fun hstart => ?_
    have hno := h.no_equals key' (List.mem_cons_of_mem key hkey')
    exact (List.pairwise_cons.mp h.pairwise).1 key' hkey' ((startsWith_envEntry hno).mp hstart)
  rw [List.any_append, List.any_cons, hnot]
  simp

/-- The loop's own entries do not matter to it. -/
theorem addKeys_eq (h : Ordered keys) :
    addKeys values newEnvp keys = newEnvp ++ added values newEnvp keys := by
  induction keys generalizing newEnvp with
  | nil => exact (List.append_nil newEnvp).symm
  | cons key keys ih =>
    rw [added, List.flatMap_cons, ← added]
    unfold addKeys
    split
    · rename_i hfound
      rw [ih h.tail, addedFor_found hfound, List.nil_append]
    · rename_i hfound
      rw [addedFor_missing (Bool.eq_false_iff.mpr hfound)]
      cases hvalue : values key with
      | none =>
        show addKeys values newEnvp keys = _
        rw [ih h.tail]
        rfl
      | some value =>
        have hsame : added values (newEnvp ++ [envEntry key value]) keys =
            added values newEnvp keys := by
          refine List.flatMap_congr fun key' hkey' => ?_
          rw [addedFor, addedFor, h.any_append hkey']
        show addKeys values (newEnvp ++ [envEntry key value]) keys = _
        rw [ih h.tail, hsame, List.append_assoc]
        rfl

theorem mem_added {e : Bytes} (h : e ∈ added values newEnvp keys) : ∃ key ∈ keys,
    newEnvp.any (startsWith · key) = false ∧ ∃ value, e = envEntry key value := by
  obtain ⟨key, hkey, he⟩ := List.mem_flatMap.mp h
  exact ⟨key, hkey, mem_addedFor he⟩

/-- The entries that are added for one key. -/
theorem filter_added (h : Ordered keys) (hkey : key ∈ keys) :
    (added values newEnvp keys).filter (startsWith · (key ++ [equals])) =
      addedFor values newEnvp key := by
  have hname := h.no_equals key hkey
  have hother : ∀ {ks : List Bytes}, ks ⊆ keys → key ∉ ks →
      (added values newEnvp ks).filter (startsWith · (key ++ [equals])) = [] := by
    intro ks hsub hnot
    refine List.filter_eq_nil_iff.mpr fun e he hstart => ?_
    obtain ⟨key', hkey', -, value, rfl⟩ := mem_added he
    have heq := (startsWith_envEntry_equals (h.no_equals key' (hsub hkey')) hname).mp hstart
    exact hnot (heq ▸ hkey')
  obtain ⟨ks, ks', rfl⟩ := List.append_of_mem hkey
  have hnodup := h.nodup
  have hks : key ∉ ks := fun hc =>
    List.disjoint_of_nodup_append hnodup hc List.mem_cons_self
  have hks' : key ∉ ks' := (List.nodup_cons.mp (List.nodup_append.mp hnodup).2.1).1
  have hfront := hother (List.subset_append_left ks (key :: ks')) hks
  have hback := hother (fun k hk => List.mem_append_right ks (List.mem_cons_of_mem key hk)) hks'
  unfold added at hfront hback ⊢
  rw [List.flatMap_append, List.flatMap_cons, List.filter_append, List.filter_append, hfront,
    hback, List.nil_append, List.append_nil]
  refine List.filter_eq_self.mpr fun e he => ?_
  obtain ⟨-, value, rfl⟩ := mem_addedFor he
  exact (startsWith_envEntry_equals hname hname).mpr rfl

end Added

/-! ## 4. The new environment -/

section Entries
variable (profiling : Bool) (libdirPath : Bytes) (values : EnvCache) (envp : List Bytes)

theorem lastEntry_startsWith {start entry : Bytes} (h : lastEntry start envp = some entry) :
    startsWith entry start = true :=
  (List.mem_filter.mp (List.mem_of_getLast? h)).2

theorem startsWith_append {entry start : Bytes} (h : startsWith entry start = true)
    (rest : Bytes) : startsWith (entry ++ rest) start = true :=
  startsWith_iff.mpr ((startsWith_iff.mp h).trans (List.prefix_append entry rest))

theorem libraryPathEntry_startsWith :
    startsWith (libraryPathEntry libdirPath envp) prelinkPath = true := by
  unfold libraryPathEntry
  split
  · exact startsWith_iff.mpr (List.prefix_append _ _)
  · rename_i entry hlast
    have hstart := lastEntry_startsWith envp hlast
    split
    · exact hstart
    · exact startsWith_append hstart _

theorem preloadEntry_startsWith :
    startsWith (preloadEntry envp) prelinkLibraries = true := by
  unfold preloadEntry
  split
  · rename_i entry hlast
    have hstart := lastEntry_startsWith envp hlast
    unfold withLibpseudo
    split
    · exact startsWith_append (startsWith_append hstart _) _
    · exact hstart
  · exact startsWith_iff.mpr (List.prefix_append _ _)

/-- Two names that are no prefixes of each other start different entries. -/
theorem not_startsWith {entry start start' : Bytes} (h : startsWith entry start = true)
    (hne : ¬ start <+: start' ∧ ¬ start' <+: start) : startsWith entry start' = false := by
  refine Bool.eq_false_iff.mpr fun h' => ?_
  rcases List.prefix_or_prefix_of_prefix (startsWith_iff.mp h) (startsWith_iff.mp h') with hp | hp
  · exact hne.1 hp
  · exact hne.2 hp

/-- An entry for one of pseudo's variables is none of the linker's. -/
theorem isOther_of_startsWith {entry key : Bytes} (hhead : key.head? = some 80)
    (h : startsWith entry key = true) : isOther entry = true := by
  have hname : ∀ name : Bytes, name.head? = some 76 → ¬ key <+: name ∧ ¬ name <+: key := by
    intro name hn
    obtain ⟨k, rfl⟩ := List.head?_eq_some_iff.mp hhead
    obtain ⟨n, rfl⟩ := List.head?_eq_some_iff.mp hn
    simp [List.cons_prefix_cons]
  unfold isOther
  rw [not_startsWith h (hname prelinkLibraries rfl), not_startsWith h (hname prelinkPath rfl)]
  rfl

theorem isOther_envEntry {key value : Bytes} (hhead : key.head? = some 80) :
    isOther (envEntry key value) = true :=
  isOther_of_startsWith hhead (startsWith_iff.mpr (List.prefix_append _ _))

theorem not_isOther_libraryPathEntry : isOther (libraryPathEntry libdirPath envp) = false := by
  unfold isOther
  rw [libraryPathEntry_startsWith]
  simp

theorem not_isOther_preloadEntry : isOther (preloadEntry envp) = false := by
  unfold isOther
  rw [preloadEntry_startsWith]
  simp

/-- Only the caller's entries can pass for one of pseudo's variables. -/
theorem filter_callerEntries {key : Bytes} (hhead : key.head? = some 80) :
    (callerEntries libdirPath envp).filter (startsWith · key) = envp.filter (startsWith · key) := by
  have hnot : ∀ {e : Bytes}, isOther e = false → startsWith e key = false := by
    intro e he
    refine Bool.eq_false_iff.mpr fun hstart => ?_
    rw [isOther_of_startsWith hhead hstart] at he
    cases he
  unfold callerEntries
  rw [List.filter_cons_of_neg (by rw [hnot (not_isOther_libraryPathEntry _ _)]; simp),
    List.filter_cons_of_neg (by rw [hnot (not_isOther_preloadEntry _)]; simp), List.filter_filter]
  refine List.filter_congr fun e _ => ?_
  cases hstart : startsWith e key with
  | true => rw [isOther_of_startsWith hhead hstart]; rfl
  | false => rfl

theorem any_callerEntries {key : Bytes} (hhead : key.head? = some 80) :
    (callerEntries libdirPath envp).any (startsWith · key) = envp.any (startsWith · key) := by
  rw [Bool.eq_iff_iff, List.any_eq_true, List.any_eq_true]
  refine exists_congr fun e => ?_
  have hmem := congrArg (e ∈ ·) (filter_callerEntries libdirPath envp hhead)
  simpa only [List.mem_filter, eq_iff_iff] using hmem

end Entries

section Result
variable (profiling : Bool) (libdirPath : Bytes) (values : EnvCache) (envp : Option (List Bytes))

/-- The new entries, the caller's, and what the loop adds for the keys. -/
theorem setupEntries_eq : setupEntries profiling libdirPath values envp =
    callerEntries libdirPath (envp.getD []) ++
      added values (callerEntries libdirPath (envp.getD [])) (pseudoEnvKeys profiling) :=
  addKeys_eq (ordered_pseudoEnvKeys profiling)

/-- What starts with a key and an equals sign in the new environment. -/
theorem filter_setupEntries {key : Bytes} (hkey : key ∈ pseudoEnvKeys profiling) :
    (setupEntries profiling libdirPath values envp).filter (startsWith · (key ++ [equals])) =
      (envp.getD []).filter (startsWith · (key ++ [equals])) ++
        addedFor values (callerEntries libdirPath (envp.getD [])) key := by
  have hhead : (key ++ [equals]).head? = some 80 := by
    rw [List.head?_append, head?_pseudoEnvKeys profiling key hkey]
    rfl
  rw [setupEntries_eq, List.filter_append, filter_callerEntries _ _ hhead,
    filter_added (ordered_pseudoEnvKeys profiling) hkey]

theorem setupEntries_kept :
    (setupEntries profiling libdirPath values envp).filter (· ∈ (envp.getD []).filter isOther) =
      (envp.getD []).filter isOther := by
  have hnot : ∀ {e : Bytes}, isOther e = false → e ∉ (envp.getD []).filter isOther := by
    intro e he hmem
    rw [(List.mem_filter.mp hmem).2] at he
    cases he
  have hadded : (added values (callerEntries libdirPath (envp.getD []))
      (pseudoEnvKeys profiling)).filter (· ∈ (envp.getD []).filter isOther) = [] := by
    refine List.filter_eq_nil_iff.mpr fun e he hmem => ?_
    obtain ⟨key, hkey, hmissing, value, rfl⟩ := mem_added he
    rw [any_callerEntries _ _ (head?_pseudoEnvKeys profiling key hkey), List.any_eq_false]
      at hmissing
    exact hmissing _ (List.mem_filter.mp (of_decide_eq_true hmem)).1
      (startsWith_iff.mpr (List.prefix_append _ _))
  rw [setupEntries_eq, List.filter_append, hadded, List.append_nil]
  unfold callerEntries
  rw [List.filter_cons_of_neg (by simpa using hnot (not_isOther_libraryPathEntry _ _)),
    List.filter_cons_of_neg (by simpa using hnot (not_isOther_preloadEntry _))]
  exact List.filter_eq_self.mpr fun e he => decide_eq_true he

/-- One entry of each kind for the linker. -/
theorem countP_setupEntries {start : Bytes}
    (hother : ∀ e, isOther e = true → startsWith e start = false) :
    (setupEntries profiling libdirPath values envp).countP (startsWith · start) =
      [libraryPathEntry libdirPath (envp.getD []), preloadEntry (envp.getD [])].countP
        (startsWith · start) := by
  have hnone : ∀ {l : List Bytes}, (∀ e ∈ l, isOther e = true) →
      l.countP (startsWith · start) = 0 := by
    intro l hl
    refine List.countP_eq_zero.mpr fun e he => ?_
    rw [hother e (hl e he)]
    simp
  have hkept := hnone (l := (envp.getD []).filter isOther) fun e he => (List.mem_filter.mp he).2
  have hadded := hnone (l := added values (callerEntries libdirPath (envp.getD []))
    (pseudoEnvKeys profiling)) fun e he => by
      obtain ⟨key, hkey, -, value, rfl⟩ := mem_added he
      exact isOther_envEntry (head?_pseudoEnvKeys profiling key hkey)
  have hcaller : callerEntries libdirPath (envp.getD []) =
      [libraryPathEntry libdirPath (envp.getD []), preloadEntry (envp.getD [])] ++
        (envp.getD []).filter isOther := rfl
  rw [setupEntries_eq, List.countP_append, hadded, hcaller, List.countP_append, hkept,
    Nat.add_zero]

theorem libraryPathEntry_prelinkLibraries :
    startsWith (libraryPathEntry libdirPath (envp.getD [])) prelinkLibraries = false :=
  not_startsWith (libraryPathEntry_startsWith libdirPath _) (by decide)

theorem preloadEntry_prelinkPath :
    startsWith (preloadEntry (envp.getD [])) prelinkPath = false :=
  not_startsWith (preloadEntry_startsWith _) (by decide)

/-- There is exactly one entry of either kind. -/
theorem setupEntries_prelink :
    (setupEntries profiling libdirPath values envp).countP (startsWith · prelinkLibraries) = 1 ∧
      (setupEntries profiling libdirPath values envp).countP (startsWith · prelinkPath) = 1 := by
  have hother : ∀ e, isOther e = true → startsWith e prelinkLibraries = false ∧
      startsWith e prelinkPath = false := by
    intro e he
    unfold isOther at he
    simpa using he
  rw [countP_setupEntries _ _ _ _ fun e he => (hother e he).1,
    countP_setupEntries _ _ _ _ fun e he => (hother e he).2]
  simp [libraryPathEntry_prelinkLibraries, preloadEntry_prelinkPath,
    libraryPathEntry_startsWith libdirPath, preloadEntry_startsWith]

section Count
variable (newEnvp : List Bytes)

theorem length_addedFor (key : Bytes) : (addedFor values newEnvp key).length ≤ 1 ∧
    ((addedFor values newEnvp key).length = 1 ↔
      values key ≠ none ∧ newEnvp.any (startsWith · key) = false) := by
  cases hfound : newEnvp.any (startsWith · key) with
  | true => simp [addedFor_found hfound]
  | false =>
    rw [addedFor_missing hfound]
    cases values key <;> simp

/-- At most one entry for each key. -/
theorem length_added_keys (ks : List Bytes) : (added values newEnvp ks).length ≤ ks.length ∧
    ((added values newEnvp ks).length = ks.length ↔
      ∀ key ∈ ks, values key ≠ none ∧ newEnvp.any (startsWith · key) = false) := by
  induction ks with
  | nil => simp [added]
  | cons key ks ih =>
    obtain ⟨hle, hiff⟩ := length_addedFor values newEnvp key
    rw [added, List.flatMap_cons, ← added, List.length_append, List.length_cons,
      List.forall_mem_cons, ← hiff, ← ih.2]
    omega

/-- A key without a value adds nothing. -/
theorem added_skip {key : Bytes} (hnone : values key = none) (ks ks' : List Bytes) :
    added values newEnvp (ks ++ key :: ks') = added values newEnvp (ks ++ ks') := by
  have hno : addedFor values newEnvp key = [] := by
    unfold addedFor
    rw [hnone]
    exact ite_self _
  unfold added
  rw [List.flatMap_append, List.flatMap_cons, hno, List.nil_append, List.flatMap_append]

end Count

/-- How many entries the loop adds: at most all but `PSEUDO_UNLOAD`, and when that many. -/
theorem length_added (hunload : values unloadKey = none) (newEnvp : List Bytes) :
    (added values newEnvp (pseudoEnvKeys profiling)).length < (pseudoEnvKeys profiling).length ∧
      ((added values newEnvp (pseudoEnvKeys profiling)).length + 1 =
          (pseudoEnvKeys profiling).length ↔
        ∀ key ∈ pseudoEnvKeys profiling, key ≠ unloadKey →
          values key ≠ none ∧ newEnvp.any (startsWith · key) = false) := by
  obtain ⟨ks, ks', heq⟩ := List.append_of_mem (unloadKey_mem profiling)
  have hnodup := (ordered_pseudoEnvKeys profiling).nodup
  rw [heq] at hnodup ⊢
  have hks : unloadKey ∉ ks := fun hc =>
    List.disjoint_of_nodup_append hnodup hc List.mem_cons_self
  have hks' : unloadKey ∉ ks' := (List.nodup_cons.mp (List.nodup_append.mp hnodup).2.1).1
  obtain ⟨hle, hiff⟩ := length_added_keys values newEnvp (ks ++ ks')
  rw [List.length_append] at hle hiff
  rw [added_skip values newEnvp hunload, List.length_append, List.length_cons, ← Nat.add_assoc,
    Nat.add_right_cancel_iff, hiff]
  refine ⟨Nat.lt_succ_of_le hle, ?_⟩
  constructor
  · intro h key hkey hne
    rcases List.mem_append.mp hkey with hk | hk
    · exact h key (List.mem_append_left _ hk)
    · exact h key (List.mem_append_right _ ((List.mem_cons.mp hk).resolve_left hne))
  · intro h key hkey
    rcases List.mem_append.mp hkey with hk | hk
    · exact h key (List.mem_append_left _ hk) fun hc => hks (hc ▸ hk)
    · exact h key (List.mem_append_right _ (List.mem_cons_of_mem _ hk)) fun hc => hks' (hc ▸ hk)

end Result

end SetupEnvLemmas

open SetupEnvLemmas

/-! ## 5. The results -/

/-- The program gets pseudo's whole environment exactly when no variable of the caller has a name
that starts with a key that is set and not in `envp` itself. -/
theorem setupEntries_carries_iff (profiling : Bool) (libdirPath : Bytes) (values : EnvCache)
    (envp : Option (List Bytes)) :
    CarriesEnvironment (pseudoEnvKeys profiling) values (envp.getD [])
        (setupEntries profiling libdirPath values envp) ↔
      NoLongerName (pseudoEnvKeys profiling) values (envp.getD []) := by
  constructor
  · rintro ⟨hadded, -, -⟩ key hkey hset ⟨e, he, hstart⟩
    obtain ⟨value, hvalue⟩ := Option.ne_none_iff_exists'.mp hset
    by_contra hno
    have hnone : ∀ e ∈ envp.getD [], startsWith e (key ++ [equals]) = false := fun e he =>
      Bool.eq_false_iff.mpr fun h => hno ⟨e, he, h⟩
    have hfilter := hadded key hkey value hvalue hnone
    have hfound : (callerEntries libdirPath (envp.getD [])).any (startsWith · key) = true := by
      rw [any_callerEntries _ _ (head?_pseudoEnvKeys profiling key hkey)]
      exact List.any_eq_true.mpr ⟨e, he, hstart⟩
    rw [filter_setupEntries profiling libdirPath values envp hkey, addedFor_found hfound,
      List.append_nil, List.filter_eq_nil_iff.mpr fun e he => Bool.eq_false_iff.mp (hnone e he)]
      at hfilter
    cases hfilter
  · intro h
    refine ⟨fun key hkey value hvalue hnone => ?_, setupEntries_kept _ _ _ _, fun _ _ => ?_⟩
    · have hmissing :
          (callerEntries libdirPath (envp.getD [])).any (startsWith · key) = false := by
        rw [any_callerEntries _ _ (head?_pseudoEnvKeys profiling key hkey)]
        refine Bool.eq_false_iff.mpr fun hany => ?_
        obtain ⟨e, he, hstart⟩ := List.any_eq_true.mp hany
        obtain ⟨e', he', hstart'⟩ := h key hkey (by rw [hvalue]; simp) ⟨e, he, hstart⟩
        rw [hnone e' he'] at hstart'
        cases hstart'
      rw [filter_setupEntries profiling libdirPath values envp hkey, addedFor_missing hmissing,
        hvalue, List.filter_eq_nil_iff.mpr fun e he => Bool.eq_false_iff.mp (hnone e he)]
      rfl
    · exact setupEntries_prelink _ _ _ _

/-- Only `PSEUDO_DEBUG` is set. -/
def exCache : EnvCache := fun key =>
  if key = pseudoKey ['D', 'E', 'B', 'U', 'G'] then some (ascii ['1']) else none

/-- The caller has `PSEUDO_DEBUG_FILE=x`. -/
def exDebugFile : List Bytes :=
  [envEntry (pseudoKey ['D', 'E', 'B', 'U', 'G', '_', 'F', 'I', 'L', 'E']) (ascii ['x'])]

/-- Its variable passes for `PSEUDO_DEBUG`, which the program does not get. -/
theorem setupEntries_loses_debug :
    ¬ CarriesEnvironment (pseudoEnvKeys false) exCache exDebugFile
      (setupEntries false (ascii ['/', 'l']) exCache (some exDebugFile)) := by
  rintro ⟨hadded, -, -⟩
  have hone := hadded (pseudoKey ['D', 'E', 'B', 'U', 'G']) (by decide) (ascii ['1']) (by decide)
    (by decide)
  revert hone
  decide

/-- The caller has no entry for the linker, all keys but `PSEUDO_UNLOAD` have a value, and no
variable of the caller passes for one of them. -/
def AllAdded (profiling : Bool) (values : EnvCache) (envp : List Bytes) : Prop :=
  (∀ e ∈ envp, isOther e = true) ∧
    ∀ key ∈ pseudoEnvKeys profiling, key ≠ unloadKey →
      values key ≠ none ∧ ∀ e ∈ envp, startsWith e key = false

/-- With `PSEUDO_UNLOAD` unset, everything is stored inside the array exactly when not all is added
that can be. -/
theorem pseudoSetupenvp_fits_iff (profiling : Bool) (libdirPath : Bytes) (values : EnvCache)
    (envp : Option (List Bytes)) (hunload : values unloadKey = none) :
    (∀ index < (pseudoSetupenvp profiling libdirPath values envp).length,
        index ≤ envCount profiling envp) ↔ ¬ AllAdded profiling values (envp.getD []) := by
  have hlast : (∀ index < (pseudoSetupenvp profiling libdirPath values envp).length,
      index ≤ envCount profiling envp) ↔
      (setupEntries profiling libdirPath values envp).length ≤ envCount profiling envp := by
    unfold pseudoSetupenvp
    rw [List.length_append, List.length_map, List.length_singleton]
    exact ⟨fun h => h _ (Nat.lt_succ_self _), fun h index hlt => (Nat.le_of_lt_succ hlt).trans h⟩
  have hkept : ((envp.getD []).filter isOther).length = (envp.getD []).length ↔
      ∀ e ∈ envp.getD [], isOther e = true := List.length_filter_eq_length_iff
  have hkeptle := List.length_filter_le isOther (envp.getD [])
  obtain ⟨haddedlt, hadded⟩ :=
    length_added profiling values hunload (callerEntries libdirPath (envp.getD []))
  have hall : AllAdded profiling values (envp.getD []) ↔
      ((envp.getD []).filter isOther).length = (envp.getD []).length ∧
      (added values (callerEntries libdirPath (envp.getD []))
        (pseudoEnvKeys profiling)).length + 1 = (pseudoEnvKeys profiling).length := by
    rw [hkept, hadded]
    refine and_congr_right fun _ => forall₂_congr fun key hkey => imp_congr_right fun _ => ?_
    rw [any_callerEntries _ _ (head?_pseudoEnvKeys profiling key hkey), List.any_eq_false]
    simp only [Bool.not_eq_true]
  rw [hlast, hall, setupEntries_eq, envCount, List.length_append, callerEntries, List.length_cons,
    List.length_cons]
  unfold callerEntries at haddedlt
  omega

/-- Nothing is set. -/
def exEmptyCache : EnvCache := fun _ => none

/-- An empty environment. -/
theorem pseudoSetupenvp_fits_iff_unset :
    exEmptyCache unloadKey = none ∧
      ∀ index < (pseudoSetupenvp false (ascii ['/', 'l']) exEmptyCache none).length,
        index ≤ envCount false none := by
  refine ⟨rfl, (pseudoSetupenvp_fits_iff false (ascii ['/', 'l']) exEmptyCache none rfl).mpr ?_⟩
  rintro ⟨-, h⟩
  exact (h (pseudoKey ['T', 'A', 'G']) (by decide) (by decide)).1 rfl

/-- All but `PSEUDO_UNLOAD` set. -/
def exFullCache : EnvCache := fun key => if key = unloadKey then none else some []

/-- Without an entry of the caller's, the null pointer is stored behind the array. -/
theorem pseudoSetupenvp_overflows :
    exFullCache unloadKey = none ∧
      ¬ ∀ index < (pseudoSetupenvp false (ascii ['/', 'l']) exFullCache none).length,
        index ≤ envCount false none := by
  decide

end Pseudo
