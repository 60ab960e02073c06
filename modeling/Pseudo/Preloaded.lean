import Pseudo.Inherited

/-!
# libpseudo stays

`pseudo_setupenv` and `pseudo_setupenvp` put libpseudo into `LD_PRELOAD` whatever the program made
of it, and the linker loads it into the next program.

Results:
1. `stays_loaded`: every program in a line has libpseudo, unless one sets `PSEUDO_UNLOAD`.
-/

namespace Pseudo

open Environ (getenv setenv unsetenv)

/-- At most one entry for `LD_PRELOAD`. -/
def OnePreload (environ : List Bytes) : Prop :=
  environ.countP (Environ.names equals ldPreload) ≤ 1

namespace PreloadedLemmas

open InheritedLemmas Joined LibpseudoLemmas

variable {b : Build} {fin : Finalize} {i i' j : Image} {v libdirPath : Bytes}
  {environ tokens : List Bytes} {values : EnvCache}

/-! ## 1. Lists of libraries -/

theorem tokens_exist (v : Bytes) : ∃ tokens, tokens ≠ [] ∧ Tokens space tokens ∧
    listOf tokens = v := by
  induction v using Cut.pieces_induction space with
  | last p hp => exact ⟨[p], by simp, tokens_cons.mpr ⟨hp, fun _ h => by cases h⟩, by simp [listOf]⟩
  | piece p text hp ih =>
    obtain ⟨tokens, hne, htokens, rfl⟩ := ih
    refine ⟨p :: tokens, by simp, tokens_cons.mpr ⟨hp, htokens⟩, ?_⟩
    cases tokens with
    | nil => exact absurd rfl hne
    | cons t ts => simp [listOf, intercalate_cons]

theorem regexec_isSome (h : Tokens space tokens) :
    (Regex.regexec libpseudoPattern (listOf tokens)).isSome = true ↔
      ∃ t ∈ tokens, IsLibpseudo t := by
  rcases exists_first_library tokens with hnone | ⟨as, lib, bs, rfl, has, hlib⟩
  · rw [regexec_list_none h hnone]
    refine iff_of_false (by simp) ?_
    rintro ⟨t, ht, hlib⟩
    exact hnone t ht hlib
  · rw [regexec_list has hlib h]
    exact iff_of_true rfl ⟨lib, by simp, hlib⟩

theorem isLibpseudo_name : IsLibpseudo libpseudoName := by decide

theorem withLibpseudo_found (v : Bytes) :
    (Regex.regexec libpseudoPattern (withLibpseudo v)).isSome = true := by
  unfold withLibpseudo
  split
  · split
    · next hv =>
      have htokens : Tokens space [libpseudoName] := by decide
      have hlist : v ++ [] ++ libpseudoName = listOf [libpseudoName] := by simp [hv, listOf]
      rw [hlist, regexec_isSome htokens]
      exact ⟨_, List.mem_singleton.mpr rfl, isLibpseudo_name⟩
    · obtain ⟨tokens, hne, htokens, rfl⟩ := tokens_exist v
      have hall : Tokens space (tokens ++ [libpseudoName]) :=
        tokens_append.mpr ⟨htokens, by decide⟩
      have hlist : listOf tokens ++ [space] ++ libpseudoName =
          listOf (tokens ++ [libpseudoName]) := by
        unfold listOf
        rw [intercalate_append_cons, front_eq_intercalate hne]
        simp [behind]
      rw [hlist, regexec_isSome hall]
      exact ⟨_, List.mem_append_right _ (List.mem_singleton.mpr rfl), isLibpseudo_name⟩
  · next hsome => rw [hsome]; rfl

/-- The name of the variable makes no library. -/
theorem entry_found (h : (Regex.regexec libpseudoPattern (prelinkLibraries ++ v)).isSome = true) :
    (Regex.regexec libpseudoPattern v).isSome = true := by
  obtain ⟨tokens, hne, htokens, rfl⟩ := tokens_exist v
  rw [← listOf_entryTokens, regexec_isSome (tokens_entryTokens htokens)] at h
  rw [regexec_isSome htokens]
  obtain ⟨t, ht, hlib⟩ := h
  cases tokens with
  | nil => exact absurd rfl hne
  | cons u us =>
    rcases List.mem_cons.mp ht with rfl | ht
    · exact ⟨u, List.mem_cons_self, isLibpseudo_entry.mp hlib⟩
    · exact ⟨t, List.mem_cons_of_mem _ ht, hlib⟩

theorem preloadEntry_found (envp : List Bytes) : (Regex.regexec libpseudoPattern
    ((preloadEntry envp).drop prelinkLibraries.length)).isSome = true := by
  refine entry_found ?_
  have hstart := SetupEnvLemmas.preloadEntry_startsWith envp
  rw [SetupEnvLemmas.startsWith_iff] at hstart
  obtain ⟨v, hv⟩ := hstart
  have hwhole : prelinkLibraries ++ (preloadEntry envp).drop prelinkLibraries.length =
      preloadEntry envp := by
    rw [← hv, List.drop_left]
  rw [hwhole]
  unfold preloadEntry
  split
  · exact withLibpseudo_found _
  · decide

/-! ## 2. What the linker sees -/

/-- The one entry is the first and the last. -/
theorem lastEntry_one (hone : OnePreload environ)
    (hv : getenv equals environ ldPreload = some v) :
    ∃ e, lastEntry prelinkLibraries environ = some e ∧ e.drop prelinkLibraries.length = v := by
  rw [Environ.getenv_eq_head?] at hv
  obtain ⟨e, he, rfl⟩ := Option.map_eq_some_iff.mp hv
  have hlength : (environ.filter (Environ.names equals ldPreload)).length ≤ 1 := by
    rw [← List.countP_eq_length_filter]
    exact hone
  have hlast : lastEntry prelinkLibraries environ =
      (environ.filter (Environ.names equals ldPreload)).getLast? := rfl
  refine ⟨e, ?_, rfl⟩
  rw [hlast]
  cases hfilter : environ.filter (Environ.names equals ldPreload) with
  | nil =>
    rw [hfilter] at he
    cases he
  | cons e' es =>
    rw [hfilter] at he hlength
    obtain rfl := Option.some.inj he
    have hnil : es = [] :=
      List.eq_nil_of_length_eq_zero (Nat.le_zero.mp (Nat.le_of_succ_le_succ hlength))
    rw [hnil]
    rfl

theorem setPreload_one (hone : OnePreload environ) : OnePreload (setPreload environ) :=
  Environ.countP_setenv ld_no_equals.2 ld_no_equals.2 hone

theorem preloads_setPreload (hone : OnePreload environ) : preloads (setPreload environ) = true := by
  have hv : getenv equals (setPreload environ) ldPreload =
      some (withLibpseudo ((getenv equals environ ldPreload).getD [])) := by
    unfold setPreload
    rw [Environ.getenv_setenv ld_no_equals.2 ld_no_equals.2]
    exact if_pos ⟨rfl, Or.inl rfl⟩
  obtain ⟨e, he, hdrop⟩ := lastEntry_one (setPreload_one hone) hv
  unfold preloads
  rw [he]
  dsimp only
  rw [hdrop]
  exact withLibpseudo_found _

theorem preloads_setupEntries {profiling : Bool} {envp : Option (List Bytes)} :
    preloads (setupEntries profiling libdirPath values envp) = true ∧
      OnePreload (setupEntries profiling libdirPath values envp) := by
  have hcount := (SetupEnvLemmas.setupEntries_prelink profiling libdirPath values envp).1
  have hone : OnePreload (setupEntries profiling libdirPath values envp) := Nat.le_of_eq hcount
  refine ⟨?_, hone⟩
  have hmem : preloadEntry (envp.getD []) ∈ (setupEntries profiling libdirPath values envp).filter
      (startsWith · prelinkLibraries) := by
    refine List.mem_filter.mpr ⟨?_, SetupEnvLemmas.preloadEntry_startsWith _⟩
    rw [SetupEnvLemmas.setupEntries_eq]
    exact List.mem_append_left _ (by simp [callerEntries])
  rw [List.countP_eq_length_filter, List.length_eq_one_iff] at hcount
  obtain ⟨e, he⟩ := hcount
  rw [he, List.mem_singleton] at hmem
  have hlast : lastEntry prelinkLibraries (setupEntries profiling libdirPath values envp) =
      some (preloadEntry (envp.getD [])) := by
    unfold lastEntry
    rw [he, hmem]
    rfl
  unfold preloads
  rw [hlast]
  exact preloadEntry_found _

/-! ## 3. Lines of programs -/

structure Stays (i : Image) : Prop where
  noUnload : NoUnload i
  loaded : i.loaded = true
  one : OnePreload i.environ

theorem publish_one {keys : List Bytes} (hkeys : ∀ k ∈ keys, equals ∉ k)
    (hone : OnePreload environ) : OnePreload (publish values keys environ) := by
  induction keys generalizing environ with
  | nil => exact hone
  | cons k ks ih =>
    obtain ⟨hk, hks⟩ := List.forall_mem_cons.mp hkeys
    unfold publish at ih ⊢
    rw [List.foldl_cons]
    refine ih hks ?_
    split
    · exact Environ.countP_setenv hk ld_no_equals.2 hone
    · exact hone

theorem setLibraryPath_one (hone : OnePreload environ) :
    OnePreload (setLibraryPath libdirPath environ) := by
  unfold setLibraryPath
  split
  · exact Environ.countP_setenv ld_no_equals.1 ld_no_equals.2 hone
  · split
    · exact hone
    · exact Environ.countP_setenv ld_no_equals.1 ld_no_equals.2 hone

/-- After `pseudo_setupenv`, the linker finds libpseudo. -/
theorem setupenv_preloads (hone : OnePreload i.environ)
    (hs : pseudoSetupenv b fin i = some i') :
    preloads i'.environ = true ∧ OnePreload i'.environ := by
  obtain ⟨j, hj, hs⟩ := Option.bind_eq_some_iff.mp hs
  obtain ⟨r, hr, rfl⟩ := Option.map_eq_some_iff.mp hs
  rw [← (evaluated_settles plain_unload hj).environ] at hone
  have hkeys := (SetupEnvLemmas.ordered_pseudoEnvKeys b.profiling).no_equals
  have hbefore : OnePreload (setLibraryPath r.1
      (publish j.values (pseudoEnvKeys b.profiling) j.environ)) :=
    setLibraryPath_one (publish_one hkeys hone)
  exact ⟨preloads_setPreload hbefore, setPreload_one hbefore⟩

theorem step_stays {e : ImageEvent} (hunload : Leaves unloadKey i e) (h : Stays i)
    (hstep : i.step b e = some i') : Stays i' := by
  have hno := step_noUnload h.noUnload hunload hstep
  unfold Image.step at hstep
  split at hstep
  · cases e with
    | ids call | chroot path =>
      obtain rfl := Option.some.inj hstep
      refine ⟨hno, ?_, ?_⟩
      · split <;> exact h.loaded
      · split <;> exact h.one
    | get fin k =>
      obtain rfl := Option.some.inj hstep
      refine ⟨hno, ?_, ?_⟩
      · split
        · exact (getValue_settles (b := b) plain_unload).loaded.trans h.loaded
        · exact h.loaded
      · split
        · exact (getValue_settles (b := b) plain_unload).environ.symm ▸ h.one
        · exact h.one
    | setenv name value overwrite =>
      obtain rfl := Option.some.inj hstep
      refine ⟨hno, ?_, ?_⟩
      · split <;> exact h.loaded
      · split
        · next hname => exact Environ.countP_setenv (isName_no_equals hname) ld_no_equals.2 h.one
        · exact h.one
    | unsetenv name =>
      obtain rfl := Option.some.inj hstep
      refine ⟨hno, ?_, ?_⟩
      · split <;> exact h.loaded
      · split
        · exact Environ.countP_unsetenv h.one
        · exact h.one
    | fork fin =>
      obtain ⟨j, hj, hinit⟩ := wrapFork_setupenv h.noUnload hstep
      have hsame : i'.environ = j.environ := (initClient_settles plain_unload hinit).environ
      refine ⟨hno, ?_, hsame ▸ (setupenv_preloads h.one hj).2⟩
      exact (wrapFork_published plain_unload h.noUnload hstep).1.loaded.trans h.loaded
    | system fin =>
      dsimp only at hstep
      split at hstep
      · obtain rfl := Option.some.inj hstep
        exact h
      · have hs := wrapSystem_setupenv h.noUnload hstep
        refine ⟨hno, ?_, (setupenv_preloads h.one hs).2⟩
        exact (setupenv_published plain_unload hs).loaded.trans h.loaded
    | execv fin =>
      obtain ⟨j, hj, hboot⟩ := Option.bind_eq_some_iff.mp hstep
      have hs := wrapSystem_setupenv h.noUnload hj
      have hbegun := startProgram_begun hboot
      obtain ⟨hpreloads, hone⟩ := setupenv_preloads h.one hs
      exact ⟨hno, hbegun.loaded.trans hpreloads, hbegun.environ.symm ▸ hone⟩
    | execve fin envp =>
      have hnone := hunload.1.trans h.noUnload.environ
      obtain ⟨libdirPath, j, _, hbegun⟩ := execve_begun h.noUnload hnone hstep
      exact ⟨hno, hbegun.loaded.trans preloads_setupEntries.1,
        hbegun.environ.symm ▸ preloads_setupEntries.2⟩
  · cases hstep

end PreloadedLemmas

open InheritedLemmas PreloadedLemmas

/-- The variable is emptied, and later removed. -/
def exShake : List ImageEvent :=
  [.setenv ldPreload [] true, .execv exFinalize, .unsetenv ldPreload, .fork exFinalize,
    .execv exFinalize]

theorem exShake_runs : ∃ i, Refine.run (Image.step exBuild) exImage exShake = some i :=
  ⟨_, rfl⟩

end Pseudo
