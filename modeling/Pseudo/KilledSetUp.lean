import Pseudo.Migrations

/-!
# A set-up that is killed

SQLite commits each statement of `make_tables` by itself. Where the server is killed between two of
them, the next start goes on behind the highest version on record, after it has created what is
missing.

Results:
1. `resumes_iff`: after which of the twelve statements that bring an old database up to date the
   next start can go on. It cannot where it would run one again, and where the new table has not got
   its name yet, unless the one that is created in its place is dropped.
-/

namespace Pseudo

/-- The set-up succeeds, with all attributes in place. -/
def Recovers (newId : List SqlRow → Sql.Value) (now text : Nat → Sql.Value)
    (files xattrs : SqlTable) (db : SqlDb) : Prop :=
  ∃ db', setUpFiles newId now text db = .ok db' ∧ Migrated files xattrs db'

namespace KilledSetUpLemmas

open MigrationsLemmas

variable {newId : List SqlRow → Sql.Value} {now text : Nat → Sql.Value} {db db₁ db' : SqlDb}
  {files xattrs t : SqlTable} {x y : Option SqlTable} {free free' : List IndexName} {v : Int}
  {s : Statement} {ss : List Statement} {attrs : List SqlRow}

theorem level_mono (h : Level files x y free v db) (hsub : free' ⊆ free) :
    Level files x y free' v db :=
  ⟨h.has_files, h.has_xattrs, h.has_new, h.records, fun i hi hmem => h.names i hi (hsub hmem),
    h.unique, h.unique_new⟩

theorem runSqls_nil : runSqls newId db [] = .ok db := rfl

/-! ## 1. Statements that fail -/

theorem createNew_fails (h : Level files x (some t) free v db) {columns : List ColumnName} :
    runSql newId db (.createTable .xattrs_new columns) = none := by
  unfold runSql
  dsimp only
  rw [h.has_new]
  rfl

theorem rename_fails_named (h : Level files (some t) y free v db) :
    runSql newId db (.renameTable .xattrs_new .xattrs) = none := by
  unfold runSql
  dsimp only
  rw [h.has_xattrs]
  cases db.tables .xattrs_new <;> rfl

theorem createIndex_fails {i : SqlIndex} (hi : i ∈ db.indexes) :
    runSql newId db (.createIndex i) = none := by
  have hall : db.indexes.all (·.name ≠ i.name) = false := by
    rw [List.all_eq_false]
    exact ⟨i, hi, by simp⟩
  unfold runSql
  dsimp only
  rw [hall]
  cases db.tables i.table with
  | none => rfl
  | some t => simp

theorem not_recovers (hset : setUpFiles newId now text db = runSqls newId db₁ (s :: ss))
    (hs : runSql newId db₁ s = none) : ¬ Recovers newId now text files xattrs db := by
  rintro ⟨db', hok, _⟩
  rw [hset, runSqls_fails hs] at hok
  cases hok

/-! ## 2. Going on -/

theorem recovers_of (hset : setUpFiles newId now text db =
      runSqls newId db₁ (migrationStatements now text fileMigrations v))
    (hlast : ComesToLast newId now text files xattrs.rows v db₁)
    (hapart : xattrs.rows.Pairwise fun a a' => ¬ Collide files a a') :
    Recovers newId now text files xattrs db := by
  rcases runSqls_cases newId now text hlast with ⟨_, db', t, hok, hlevel, ht⟩ | ⟨hno, _⟩
  · exact ⟨db', hset.trans hok, hlevel.has_files, t, hlevel.has_xattrs, ht.2⟩
  · exact absurd hapart hno

/-- What is selected twice is there twice. -/
theorem recovers_twice (h : Level files (some xattrs) y free v db)
    (hv : v ∈ [2, 3, 4, 5, 6, 7, 8])
    (hlast : ComesToLast newId now text files (xattrs.rows ++ xattrs.rows) v db) :
    Recovers newId now text files xattrs db ↔ xattrs.rows = [] := by
  have hset := setUpFiles_level newId now text h hv
  constructor
  · rintro ⟨db', hok, _, t', ht', hrows⟩
    rw [hset] at hok
    rcases runSqls_cases newId now text hlast with ⟨_, db'', t, hok', hlevel, ht⟩ |
      ⟨_, db'', t, herror, _⟩
    · rw [hok'] at hok
      obtain rfl := Except.ok.inj hok
      rw [hlevel.has_xattrs] at ht'
      obtain rfl := Option.some.inj ht'
      have hlength := congrArg List.length (ht.2.symm.trans hrows)
      rw [List.length_map, List.length_map, List.length_append] at hlength
      exact List.eq_nil_of_length_eq_zero (Nat.left_eq_add.mp hlength.symm)
    · rw [herror] at hok
      cases hok
  · intro hnil
    refine recovers_of hset ?_ ?_
    · rw [hnil] at hlast ⊢
      exact hlast
    · rw [hnil]
      exact List.Pairwise.nil

def xattrsTable : TableDef := ⟨.xattrs, [.id, .dev, .ino, .name, .value], []⟩

/-- The indexes of a table of attributes, in both forms. -/
abbrev allNames : List IndexName := .xattrs_dev_ino :: .xattrs_dev_ino_name :: newNames

variable (newId now text)

/-- The table that has not got its name yet is missing. -/
theorem creates_xattrs (h : Level files none y allNames v db) :
    ∃ db' t, runSqls newId db (tableStatements fileIndexes xattrsTable) = .ok db' ∧
      Level files (some t) y newNames v db' := by
  let new : SqlTable := ⟨[.id, .dev, .ino, .name, .value], []⟩
  have hcreate : runSql newId db (.createTable .xattrs new.columns) =
      some (db.put .xattrs new) := by
    unfold runSql
    dsimp only
    rw [h.has_xattrs]
    rfl
  have hlevel : Level files (some new) y allNames v (db.put .xattrs new) :=
    ⟨h.has_files, rfl, h.has_new, h.records, h.names, h.unique, h.unique_new⟩
  obtain ⟨db₁, hfirst, h₁, _⟩ := index_level newId (i := ⟨.xattrs_dev_ino, .xattrs, [.dev, .ino],
    false⟩) hlevel ⟨rfl, rfl⟩ rfl (by decide)
  obtain ⟨db₂, hsecond, h₂, _⟩ := index_level newId (i := ⟨.xattrs_dev_ino_name, .xattrs,
    [.dev, .ino, .name], false⟩) h₁ ⟨rfl, rfl⟩ rfl (by decide)
  have hall : tableStatements fileIndexes xattrsTable =
      [.createTable .xattrs new.columns,
        .createIndex ⟨.xattrs_dev_ino, .xattrs, [.dev, .ino], false⟩,
        .createIndex ⟨.xattrs_dev_ino_name, .xattrs, [.dev, .ino, .name], false⟩] := rfl
  refine ⟨db₂, new, ?_, h₂⟩
  rw [hall, runSqls_cons hcreate, runSqls_cons hfirst, runSqls_cons hsecond, runSqls_nil]

theorem setUp_recreates (h : Level files none y allNames v db) (hv : v ∈ [2, 3, 4, 5, 6, 7, 8]) :
    ∃ db₁ t, setUpFiles newId now text db =
        runSqls newId db₁ (migrationStatements now text fileMigrations v) ∧
      Level files (some t) y newNames v db₁ := by
  obtain ⟨r, hr, _⟩ := h.records
  have hmissing : missingTables fileTables fileIndexes db =
      tableStatements fileIndexes xattrsTable := by
    simp [missingTables, fileTables, h.has_files, h.has_xattrs, hr, xattrsTable]
  obtain ⟨db₁, t, hrun, hlevel⟩ := creates_xattrs newId h
  obtain ⟨r₁, hr₁, hmax, _⟩ := hlevel.records
  refine ⟨db₁, t, ?_, hlevel⟩
  have hversion : existingVersion (fileMigrations.length - 1) r₁.rows = v :=
    existingVersion_of_max hmax hv
  unfold setUpFiles makeTables
  rw [hmissing, hrun]
  dsimp only
  rw [hr₁]
  dsimp only
  rw [hversion]

end KilledSetUpLemmas

open MigrationsLemmas KilledSetUpLemmas

section Results
variable (newId : List SqlRow → Sql.Value) (now text : Nat → Sql.Value)
  {files xattrs : SqlTable} {db db' : SqlDb} {k : Nat}

theorem resumes_iff (h : OldDb files xattrs db)
    (hfree : ∀ i ∈ db.indexes, i.name ≠ .xattrs_dev_ino ∧ i.name ≠ .xattrs_dev_ino_name)
    (hapart : xattrs.rows.Pairwise fun a a' => ¬ Collide files a a') (hk : k ≤ 12)
    (hkilled : runSqls newId db ((migrationStatements now text fileMigrations 2).take k) =
      .ok db') :
    Recovers newId now text files xattrs db' ↔
      k ∈ [0, 2, 4, 5, 8, 10, 12] ∨ k = 3 ∧ xattrs.rows = [] := by
  have hstart : Level files (some xattrs) none allNames 2 db := by
    have hold := oldDb_level h
    refine ⟨hold.has_files, hold.has_xattrs, hold.has_new, hold.records, ?_, hold.unique,
      hold.unique_new⟩
    intro i hi hmem
    rcases List.mem_cons.mp hmem with hname | hmem
    · exact (hfree i hi).1 hname
    rcases List.mem_cons.mp hmem with hname | hmem
    · exact (hfree i hi).2 hname
    · exact hold.names i hi hmem
  have hnew : newNames ⊆ allNames := fun _ h => List.mem_cons_of_mem _ (List.mem_cons_of_mem _ h)
  have hempty : Selected files [] ⟨[.id, .dev, .ino, .name, .value], []⟩ := ⟨rfl, rfl⟩
  -- The database after each statement.
  obtain ⟨d₁, e₁, h₁⟩ := createNew_level newId hstart
  obtain ⟨d₂, e₂, h₂⟩ := record_level newId now text (m := 3) h₁ (by decide) rfl
  obtain ⟨d₃, t, e₃, h₃, ht⟩ := select_level newId h₂ hempty h.has_ids
  obtain ⟨d₄, e₄, h₄⟩ := record_level newId now text (m := 4) h₃ (by decide) rfl
  obtain ⟨d₅, e₅, h₅⟩ := drop_level newId h₄
  obtain ⟨d₆, e₆, h₆⟩ := record_level newId now text (m := 5) h₅ (by decide) rfl
  obtain ⟨d₇, e₇, h₇⟩ := rename_level newId h₆
  obtain ⟨d₈, e₈, h₈⟩ := record_level newId now text (m := 6) h₇ (by decide) rfl
  have hkeys : t.has [.dev, .ino] = true := by simp [SqlTable.has, ht.1]
  obtain ⟨d₉, e₉, h₉, htaken₉⟩ := index_level newId (i := ⟨.xattrs__dev_ino, .xattrs, [.dev, .ino],
    false⟩) (level_mono h₈ hnew) ⟨rfl, rfl⟩ hkeys (by decide)
  obtain ⟨d₁₀, e₁₀, h₁₀⟩ := record_level newId now text (m := 7) h₉ (by decide) rfl
  have e₁₁ := runSql_unique newId h₁₀ ht.1
  rw [if_pos ((distinct_iff ht).mpr hapart)] at e₁₁
  have h₁₁ := unique_level h₁₀
  obtain ⟨d₁₂, e₁₂, h₁₂⟩ := record_level newId now text (m := 8) h₁₁ (by decide) rfl
  have hall : migrationStatements now text fileMigrations 2 =
      [.createTable .xattrs_new [.id, .dev, .ino, .name, .value], recordVersion now text 3,
        .insertSelect .xattrs_new
          [(.dev, .lookup .dev .files .id .file_id), (.ino, .lookup .ino .files .id .file_id),
            (.name, .column .name), (.value, .column .value)] .xattrs, recordVersion now text 4,
        .dropTable .xattrs, recordVersion now text 5,
        .renameTable .xattrs_new .xattrs, recordVersion now text 6,
        .createIndex ⟨.xattrs__dev_ino, .xattrs, [.dev, .ino], false⟩, recordVersion now text 7,
        .createIndex uniqueIndex, recordVersion now text 8] := rfl
  rw [hall] at hkilled
  have hcases : k = 0 ∨ k = 1 ∨ k = 2 ∨ k = 3 ∨ k = 4 ∨ k = 5 ∨ k = 6 ∨ k = 7 ∨ k = 8 ∨ k = 9 ∨
      k = 10 ∨ k = 11 ∨ k = 12 := by omega
  rcases hcases with rfl | rfl | rfl | rfl | rfl | rfl | rfl | rfl | rfl | rfl | rfl | rfl | rfl
  all_goals
    simp only [List.take_zero, List.take_succ_cons, runSqls_cons e₁, runSqls_cons e₂,
      runSqls_cons e₃, runSqls_cons e₄, runSqls_cons e₅, runSqls_cons e₆, runSqls_cons e₇,
      runSqls_cons e₈, runSqls_cons e₉, runSqls_cons e₁₀, runSqls_cons e₁₁, runSqls_cons e₁₂,
      runSqls_nil, Except.ok.injEq] at hkilled
    subst hkilled
  · exact iff_of_true (recovers_of (setUpFiles_level newId now text hstart (by decide))
      (from_two newId now text (level_mono hstart hnew) h.has_ids) hapart) (Or.inl (by decide))
  · exact iff_of_false (not_recovers (setUpFiles_level newId now text h₁ (by decide))
      (createNew_fails h₁)) (by simp)
  · exact iff_of_true (recovers_of (setUpFiles_level newId now text h₂ (by decide))
      (from_three newId now text (level_mono h₂ hnew) hempty h.has_ids) hapart)
      (Or.inl (by decide))
  · -- All attributes are selected once more.
    refine (recovers_twice h₃ (by decide)
      (from_three newId now text (level_mono h₃ hnew) ht h.has_ids)).trans ?_
    simp
  · exact iff_of_true (recovers_of (setUpFiles_level newId now text h₄ (by decide))
      (from_four newId now text (level_mono h₄ hnew) ht) hapart) (Or.inl (by decide))
  · -- The table that is created is the one that is dropped.
    obtain ⟨db₁, x, hset, hlevel⟩ := setUp_recreates newId now text h₅ (by decide)
    exact iff_of_true (recovers_of hset (from_four newId now text hlevel ht) hapart)
      (Or.inl (by decide))
  · -- Now it takes the name that the new table is to have.
    obtain ⟨db₁, x, hset, hlevel⟩ := setUp_recreates newId now text h₆ (by decide)
    exact iff_of_false (not_recovers hset (rename_fails_named hlevel)) (by simp)
  · exact iff_of_false (not_recovers (setUpFiles_level newId now text h₇ (by decide))
      (rename_fails_named h₇)) (by simp)
  · exact iff_of_true (recovers_of (setUpFiles_level newId now text h₈ (by decide))
      (from_six newId now text (level_mono h₈ hnew) ht) hapart) (Or.inl (by decide))
  · exact iff_of_false (not_recovers (setUpFiles_level newId now text h₉ (by decide))
      (createIndex_fails htaken₉)) (by simp)
  · exact iff_of_true (recovers_of (setUpFiles_level newId now text h₁₀ (by decide))
      ⟨d₁₀, t, rfl, h₁₀, ht⟩ hapart) (Or.inl (by decide))
  · exact iff_of_false (not_recovers (setUpFiles_level newId now text h₁₁ (by decide))
      (createIndex_fails List.mem_cons_self)) (by simp)
  · refine iff_of_true ⟨d₁₂, (setUpFiles_level newId now text h₁₂ (by decide)).trans rfl,
      h₁₂.has_files, t, h₁₂.has_xattrs, ht.2⟩ (Or.inl (by decide))

end Results

/-- Killed after the old table is dropped, before that is on record. -/
theorem resumes_iff_exOldDb : ∃ db', runSqls (fun _ => .null) (exOldDb 3)
    ((migrationStatements (fun _ => .null) (fun _ => .null) fileMigrations 2).take 5) = .ok db' ∧
      Recovers (fun _ => .null) (fun _ => .null) (fun _ => .null) exFileRows (exOldAttrs 3)
        db' := by
  refine ⟨_, rfl, ?_⟩
  exact (resumes_iff _ _ _ (k := 5) (exOldDb_old 3) (fun _ h => absurd h List.not_mem_nil)
    exOldAttrs_apart (by decide) rfl).mpr (Or.inl (by decide))

end Pseudo
