import Pseudo.Library.Rows
import Pseudo.Message

/-!
# Bringing a database up to date

`make_tables` creates the tables of the file database that are missing, and then runs the migrations
behind the highest version on record, each followed by its record. Five of them replace the table of
attributes: what belonged to a row of `files` is to belong to an inode.

Results:
1. `migrates_iff`: every attribute comes to the inode of its file, if and only if no two of one name
   come to the same, as those of two names of one file do.
2. `never_migrates`: otherwise every later start fails as well, and changes nothing.
3. `unversioned_stays`: where nothing is on record yet, the record that is created says that all
   migrations are done, and so none of them ever is.

The ids of new rows, the time and the texts on record are left open. Left out are the log database
and errors of SQLite that are not the statement's own.
-/

namespace Pseudo

/-! ## 1. What SQLite does -/

inductive TableName
  | files | xattrs | xattrs_new | migrations
  deriving DecidableEq

inductive ColumnName
  | id | path | dev | ino | uid | gid | mode | rdev | deleting
  | file_id | name | value | version | stamp | sql
  deriving DecidableEq

inductive IndexName
  | files__path_dev_ino | files__dev_ino | migration__version | xattrs_dev_ino
  | xattrs_dev_ino_name | xattrs__dev_ino | xattrs__dev_ino_name
  deriving DecidableEq

abbrev SqlRow := ColumnName → Sql.Value

structure SqlTable where
  columns : List ColumnName
  rows : List SqlRow

def SqlTable.has (t : SqlTable) (columns : List ColumnName) : Bool := columns.all (· ∈ t.columns)

structure SqlIndex where
  name : IndexName
  table : TableName
  keys : List ColumnName
  unique : Bool

structure SqlDb where
  tables : TableName → Option SqlTable
  indexes : List SqlIndex

/-- A column, or `(SELECT column FROM table WHERE key = outer)`, where only the row outside has the
column `outer`. -/
inductive SelectExpr
  | column (column : ColumnName)
  | lookup (column : ColumnName) (table : TableName) (key outer : ColumnName)

inductive Statement
  | createTable (table : TableName) (columns : List ColumnName)
  | createIndex (index : SqlIndex)
  | addColumn (table : TableName) (column : ColumnName)
  | insert (table : TableName) (values : List (ColumnName × Sql.Value))
  | insertSelect (table : TableName) (values : List (ColumnName × SelectExpr)) (source : TableName)
  | dropTable (table : TableName)
  | renameTable (table name : TableName)

def SelectExpr.prepares (db : SqlDb) (source : SqlTable) : SelectExpr → Bool
  | .column c => c ∈ source.columns
  | .lookup c table key outer =>
    (db.tables table).any fun t =>
      t.has [c, key] && outer ∉ t.columns && outer ∈ source.columns

/-- Without a row, the value is null. -/
def SelectExpr.eval (db : SqlDb) (row : SqlRow) : SelectExpr → Sql.Value
  | .column c => row c
  | .lookup c table key outer =>
    match db.tables table with
    | some t =>
      ((t.rows.find? fun r => row outer ≠ .null && r key = row outer).map (· c)).getD .null
    | none => .null

/-- Rows with a null are not compared. -/
def indexKey (keys : List ColumnName) (row : SqlRow) : Option (List Sql.Value) :=
  if keys.any (row · = .null) then none else some (keys.map row)

def distinctKeys (keys : List ColumnName) (rows : List SqlRow) : Bool :=
  (rows.filterMap (indexKey keys)).Nodup

/-- The unique indexes of the table allow these rows. -/
def SqlDb.allows (db : SqlDb) (table : TableName) (rows : List SqlRow) : Bool :=
  db.indexes.all fun i => !(i.unique && i.table = table) || distinctKeys i.keys rows

def SqlDb.put (db : SqlDb) (table : TableName) (t : SqlTable) : SqlDb :=
  { db with tables := Function.update db.tables table (some t) }

section Statements
variable (newId : List SqlRow → Sql.Value)

def SqlTable.addRow (t : SqlTable) (row : SqlRow) : SqlTable :=
  { t with rows := t.rows ++ [fun column => if column = .id then newId t.rows else row column] }

/-- None if the statement fails. -/
def runSql (db : SqlDb) : Statement → Option SqlDb
  | .createTable table columns =>
    if (db.tables table).isSome then none else some (db.put table ⟨columns, []⟩)
  | .createIndex index =>
    (db.tables index.table).bind fun t =>
      if t.has index.keys && db.indexes.all (·.name ≠ index.name) &&
          (!index.unique || distinctKeys index.keys t.rows) then
        some { db with indexes := index :: db.indexes }
      else none
  | .addColumn table column =>
    (db.tables table).bind fun t =>
      if column ∈ t.columns then none
      else some (db.put table ⟨t.columns ++ [column],
        t.rows.map fun row => Function.update row column .null⟩)
  | .insert table values =>
    (db.tables table).bind fun t =>
      let t' := t.addRow newId fun column => (values.lookup column).getD .null
      if t.has (values.map (·.1)) && db.allows table t'.rows then some (db.put table t')
      else none
  | .insertSelect table values source =>
    (db.tables table).bind fun t => (db.tables source).bind fun s =>
      let t' := s.rows.foldl (fun t row =>
        t.addRow newId fun column => ((values.lookup column).map (·.eval db row)).getD .null) t
      if t.has (values.map (·.1)) && values.all (·.2.prepares db s) && db.allows table t'.rows then
        some (db.put table t')
      else none
  | .dropTable table =>
    (db.tables table).map fun _ =>
      { tables := Function.update db.tables table none
        indexes := db.indexes.filter (·.table ≠ table) }
  | .renameTable table name =>
    (db.tables table).bind fun t =>
      if (db.tables name).isSome then none
      else some
        { tables := Function.update (Function.update db.tables table none) name (some t)
          indexes := db.indexes.map fun i =>
            if i.table = table then { i with table := name } else i }

/-- Until one fails. What is done by then stays done. -/
def runSqls (db : SqlDb) : List Statement → Except SqlDb SqlDb
  | [] => .ok db
  | s :: ss =>
    match runSql newId db s with
    | some db' => runSqls db' ss
    | none => .error db

end Statements

/-! ## 2. `make_tables` -/

structure TableDef where
  name : TableName
  columns : List ColumnName
  values : List (List (ColumnName × Sql.Value))

def initialRecord : List (ColumnName × Sql.Value) :=
  [(.version, .int 8), (.stamp, .int (-1)), (.sql, .text (ascii ['N', '/', 'A', ' ', '(', 'i', 'n',
    'i', 't', 'i', 'a', 'l', ' ', 's', 'e', 't', 'u', 'p', ')']))]

def fileTables : List TableDef :=
  [⟨.files, [.id, .path, .dev, .ino, .uid, .gid, .mode, .rdev, .deleting], []⟩,
    ⟨.xattrs, [.id, .dev, .ino, .name, .value], []⟩,
    ⟨.migrations, [.id, .version, .stamp, .sql],
      [initialRecord]⟩]

def fileIndexes : List SqlIndex :=
  [⟨.files__path_dev_ino, .files, [.path, .dev, .ino], false⟩,
    ⟨.files__dev_ino, .files, [.dev, .ino], false⟩,
    ⟨.migration__version, .migrations, [.version], false⟩,
    ⟨.xattrs_dev_ino, .xattrs, [.dev, .ino], false⟩,
    ⟨.xattrs_dev_ino_name, .xattrs, [.dev, .ino, .name], false⟩]

def fileMigrations : List Statement :=
  [.createTable .migrations [.id, .version, .stamp, .sql],
    .createIndex ⟨.migration__version, .migrations, [.version], false⟩,
    .addColumn .files .deleting,
    .createTable .xattrs_new [.id, .dev, .ino, .name, .value],
    .insertSelect .xattrs_new
      [(.dev, .lookup .dev .files .id .file_id), (.ino, .lookup .ino .files .id .file_id),
        (.name, .column .name), (.value, .column .value)] .xattrs,
    .dropTable .xattrs,
    .renameTable .xattrs_new .xattrs,
    .createIndex ⟨.xattrs__dev_ino, .xattrs, [.dev, .ino], false⟩,
    .createIndex ⟨.xattrs__dev_ino_name, .xattrs, [.dev, .ino, .name], true⟩]

/-- The table, its first rows and its indexes. -/
def tableStatements (indexes : List SqlIndex) (t : TableDef) : List Statement :=
  .createTable t.name t.columns :: t.values.map (.insert t.name) ++
    (indexes.filter (·.table = t.name)).map .createIndex

/-- The tables that are not there at the start. -/
def missingTables (tables : List TableDef) (indexes : List SqlIndex) (db : SqlDb) :
    List Statement :=
  (tables.filter fun t => (db.tables t.name).isNone).flatMap (tableStatements indexes)

def laterVersion (sofar : Option Int) (row : SqlRow) : Option Int :=
  match row .version, sofar with
  | .int n, some version => some (if version < n.toInt then n.toInt else version)
  | .int n, none => some n.toInt
  | _, _ => sofar

/-- `SELECT MAX(version) FROM migrations`. -/
def maxVersion (rows : List SqlRow) : Option Int := rows.foldl laterVersion none

/-- What `sqlite3_column_int64` makes of no version is 0, and the rest goes into an `int`. -/
def existingVersion (available : Int) (rows : List SqlRow) : Int :=
  let version := (BitVec.ofInt 32 ((maxVersion rows).getD 0)).toInt
  let version := if version < -1 then -1 else version
  if version > available then available else version

section Migrations
variable (now : Nat → Sql.Value) (text : Nat → Sql.Value)

def recordVersion (migration : Nat) : Statement :=
  .insert .migrations
    [(.version, .int (BitVec.ofNat 64 migration)), (.stamp, now migration), (.sql, text migration)]

def migrationStatements (migrations : List Statement) (version : Int) : List Statement :=
  (migrations.zipIdx.drop (version + 1).toNat).flatMap fun m => [m.1, recordVersion now text m.2]

def makeTables (newId : List SqlRow → Sql.Value) (tables : List TableDef)
    (indexes : List SqlIndex) (migrations : List Statement) (db : SqlDb) : Except SqlDb SqlDb :=
  match runSqls newId db (missingTables tables indexes db) with
  | .error db => .error db
  | .ok db =>
    match db.tables .migrations with
    | none => .error db
    | some t => runSqls newId db
        (migrationStatements now text migrations (existingVersion (migrations.length - 1) t.rows))

end Migrations

/-! ## 3. Databases whose attributes belong to rows of `files` -/

/-- The row of `files` that the attribute belongs to. -/
def fileOf (files : SqlTable) (attr : SqlRow) : Option SqlRow :=
  files.rows.find? fun f => attr .file_id ≠ .null && f .id = attr .file_id

/-- Device, inode, name and value. -/
def inodeAttr (attr : SqlRow) : List Sql.Value :=
  [attr .dev, attr .ino, attr .name, attr .value]

/-- The same, as the row of `files` has them. -/
def fileAttr (files : SqlTable) (attr : SqlRow) : List Sql.Value :=
  [((fileOf files attr).map (· .dev)).getD .null, ((fileOf files attr).map (· .ino)).getD .null,
    attr .name, attr .value]

/-- Both come to one inode, under one name. -/
def Collide (files : SqlTable) (a a' : SqlRow) : Prop :=
  ∃ f f', fileOf files a = some f ∧ fileOf files a' = some f' ∧
    f .dev ≠ .null ∧ f .ino ≠ .null ∧ a .name ≠ .null ∧
    f .dev = f' .dev ∧ f .ino = f' .ino ∧ a .name = a' .name

/-- The columns that are selected, and that `files` has no `file_id`. -/
def HasFileIds (files xattrs : SqlTable) : Prop :=
  files.has [.id, .dev, .ino] = true ∧ ColumnName.file_id ∉ files.columns ∧
    xattrs.has [.file_id, .name, .value] = true

/-- A file database of version 2, as it is before the table of attributes is replaced. -/
structure OldDb (files xattrs : SqlTable) (db : SqlDb) : Prop where
  has_files : db.tables .files = some files
  has_xattrs : db.tables .xattrs = some xattrs
  no_new : db.tables .xattrs_new = none
  has_ids : HasFileIds files xattrs
  records : ∃ t, db.tables .migrations = some t ∧ maxVersion t.rows = some 2 ∧
    t.has [.version, .stamp, .sql] = true
  indexes : ∀ i ∈ db.indexes, i.name ≠ .xattrs__dev_ino ∧ i.name ≠ .xattrs__dev_ino_name ∧
    (i.unique = true → i.table ≠ .migrations ∧ i.table ≠ .xattrs_new)

namespace MigrationsLemmas

variable {newId : List SqlRow → Sql.Value} {now text : Nat → Sql.Value} {db db' : SqlDb}
  {files xattrs t : SqlTable} {x y : Option SqlTable} {free : List IndexName} {v : Int}
  {s : Statement} {ss : List Statement} {m : Nat} {attrs : List SqlRow}

/-! ## 4. One statement -/

theorem runSqls_cons (h : runSql newId db s = some db') :
    runSqls newId db (s :: ss) = runSqls newId db' ss := by
  rw [runSqls, h]

theorem runSqls_fails (h : runSql newId db s = none) : runSqls newId db (s :: ss) = .error db := by
  rw [runSqls, h]

/-- How far the migrations are: the two tables of attributes, the names that no index has, and the
highest version on record. -/
structure Level (files : SqlTable) (x y : Option SqlTable) (free : List IndexName) (v : Int)
    (db : SqlDb) : Prop where
  has_files : db.tables .files = some files
  has_xattrs : db.tables .xattrs = x
  has_new : db.tables .xattrs_new = y
  records : ∃ t, db.tables .migrations = some t ∧ maxVersion t.rows = some v ∧
    t.has [.version, .stamp, .sql] = true
  names : ∀ i ∈ db.indexes, i.name ∉ free
  unique : ∀ i ∈ db.indexes, i.unique = true → i.table ≠ .migrations
  unique_new : ∀ i ∈ db.indexes, i.unique = true → i.table ≠ .xattrs_new

theorem allows_of_not_unique {table : TableName} {rows : List SqlRow}
    (h : ∀ i ∈ db.indexes, i.unique = true → i.table ≠ table) : db.allows table rows = true := by
  unfold SqlDb.allows
  rw [List.all_eq_true]
  intro i hi
  cases hu : i.unique with
  | false => rfl
  | true => simp [h i hi hu]

theorem names_free {name : IndexName} (h : Level files x y (name :: free) v db) :
    db.indexes.all (·.name ≠ name) = true := by
  rw [List.all_eq_true]
  intro i hi
  exact decide_eq_true (List.ne_of_not_mem_cons (h.names i hi))

theorem level_putNew (h : Level files x y free v db) :
    Level files x (some t) free v (db.put .xattrs_new t) :=
  ⟨h.has_files, h.has_xattrs, rfl, h.records, h.names, h.unique, h.unique_new⟩

/-- Another index of the table of attributes. -/
theorem level_index {i : SqlIndex} {free' : List IndexName} (h : Level files x y free v db)
    (htable : i.table = .xattrs) (hname : i.name ∉ free') (hsub : free' ⊆ free) :
    Level files x y free' v { db with indexes := i :: db.indexes } := by
  refine ⟨h.has_files, h.has_xattrs, h.has_new, h.records, ?_, ?_, ?_⟩
  · exact List.forall_mem_cons.mpr ⟨hname, fun j hj hmem => h.names j hj (hsub hmem)⟩
  · exact List.forall_mem_cons.mpr ⟨fun _ => by simp [htable], h.unique⟩
  · exact List.forall_mem_cons.mpr ⟨fun _ => by simp [htable], h.unique_new⟩

variable (newId now text)

theorem record_level (h : Level files x y free v db) (hv : v < m)
    (hm : (BitVec.ofNat 64 m).toInt = m) :
    ∃ db', runSql newId db (recordVersion now text m) = some db' ∧ Level files x y free m db' := by
  obtain ⟨t, ht, hmax, hcolumns⟩ := h.records
  have hrow : ∀ row : SqlRow, row .version = .int (BitVec.ofNat 64 m) →
      laterVersion (some v) row = some (m : Int) := by
    intro row hrow
    unfold laterVersion
    rw [hrow]
    dsimp only
    rw [hm, if_pos hv]
  refine ⟨db.put .migrations (t.addRow newId fun column =>
    (([(.version, .int (BitVec.ofNat 64 m)), (.stamp, now m), (.sql, text m)] :
      List (ColumnName × Sql.Value)).lookup column).getD .null), ?_, ?_⟩
  · unfold recordVersion runSql
    dsimp only
    rw [ht, Option.bind_some]
    rw [allows_of_not_unique h.unique, Bool.and_true, if_pos]
    exact hcolumns
  · refine ⟨h.has_files, h.has_xattrs, h.has_new, ⟨_, rfl, ?_, hcolumns⟩, h.names, h.unique,
      h.unique_new⟩
    unfold SqlTable.addRow maxVersion at *
    dsimp only
    rw [List.foldl_append, hmax, List.foldl_cons, List.foldl_nil]
    refine hrow _ ?_
    rfl

/-- A migration, and its record. -/
theorem migrate_cons (hs : runSql newId db s = some db') (h : Level files x y free v db')
    (hv : v < m) (hm : (BitVec.ofNat 64 m).toInt = m) :
    ∃ db'', runSqls newId db (s :: recordVersion now text m :: ss) = runSqls newId db'' ss ∧
      Level files x y free m db'' := by
  obtain ⟨db'', hrecord, hlevel⟩ := record_level newId now text h hv hm
  exact ⟨db'', by rw [runSqls_cons hs, runSqls_cons hrecord], hlevel⟩

/-! ## 5. The migrations -/

theorem createNew_level (h : Level files x none free v db) :
    ∃ db', runSql newId db (.createTable .xattrs_new [.id, .dev, .ino, .name, .value]) = some db' ∧
      Level files x (some ⟨[.id, .dev, .ino, .name, .value], []⟩) free v db' := by
  refine ⟨db.put .xattrs_new ⟨[.id, .dev, .ino, .name, .value], []⟩, ?_, ?_⟩
  · unfold runSql
    dsimp only
    rw [h.has_new]
    rfl
  · exact level_putNew h

/-- The rows are added one by one, and only their ids differ from what is selected. -/
theorem foldl_addRow {f : SqlRow → SqlRow} {g : SqlRow → List Sql.Value}
    (hg : ∀ (r : SqlRow) id, g (fun c => if c = .id then id else r c) = g r) (rows : List SqlRow) :
    (rows.foldl (fun t row => t.addRow newId (f row)) t).columns = t.columns ∧
      (rows.foldl (fun t row => t.addRow newId (f row)) t).rows.map g =
        t.rows.map g ++ rows.map (g ∘ f) := by
  induction rows generalizing t with
  | nil => simp
  | cons row rows ih =>
    obtain ⟨hcolumns, hrows⟩ := ih (t := t.addRow newId (f row))
    rw [List.foldl_cons]
    refine ⟨hcolumns, ?_⟩
    rw [hrows]
    unfold SqlTable.addRow
    dsimp only
    rw [List.map_append, List.map_singleton, hg, List.append_assoc, List.map_cons]
    rfl

/-- A row of the new table, as it is selected. -/
def selectedRow (files : SqlTable) (attr : SqlRow) : SqlRow
  | .dev => ((fileOf files attr).map (· .dev)).getD .null
  | .ino => ((fileOf files attr).map (· .ino)).getD .null
  | .name => attr .name
  | .value => attr .value
  | _ => .null

/-- The new table holds what is selected for these attributes. -/
def Selected (files : SqlTable) (attrs : List SqlRow) (new : SqlTable) : Prop :=
  new.columns = [.id, .dev, .ino, .name, .value] ∧
    new.rows.map inodeAttr = attrs.map (fileAttr files)

theorem select_level (h : Level files (some xattrs) (some t) free v db)
    (ht : Selected files attrs t) (hold : HasFileIds files xattrs) :
    ∃ db' new, runSql newId db (.insertSelect .xattrs_new
        [(.dev, .lookup .dev .files .id .file_id), (.ino, .lookup .ino .files .id .file_id),
          (.name, .column .name), (.value, .column .value)] .xattrs) = some db' ∧
      Level files (some xattrs) (some new) free v db' ∧
        Selected files (attrs ++ xattrs.rows) new := by
  have hlookup : ∀ (row : SqlRow) (c : ColumnName),
      (SelectExpr.lookup c .files .id .file_id).eval db row =
        ((fileOf files row).map (· c)).getD .null := by
    intro row c
    unfold SelectExpr.eval
    dsimp only
    rw [h.has_files]
    rfl
  have hrow : ∀ row : SqlRow, (fun column => (([(ColumnName.dev,
      SelectExpr.lookup .dev .files .id .file_id), (.ino, .lookup .ino .files .id .file_id),
      (.name, .column .name), (.value, .column .value)].lookup column).map
        (·.eval db row)).getD .null) = selectedRow files row := by
    intro row
    funext column
    cases column
    case dev => exact hlookup row .dev
    case ino => exact hlookup row .ino
    all_goals rfl
  let new := xattrs.rows.foldl (fun t row => t.addRow newId (selectedRow files row)) t
  obtain ⟨hcolumns, hrows⟩ := foldl_addRow newId (f := selectedRow files) (g := inodeAttr) (t := t)
    (fun _ _ => rfl) xattrs.rows
  refine ⟨db.put .xattrs_new new, new, ?_, level_putNew h, hcolumns.trans ht.1, ?_⟩
  · obtain ⟨hfiles, hid, hxattrs⟩ := hold
    unfold runSql
    dsimp only
    rw [h.has_new, h.has_xattrs, Option.bind_some, Option.bind_some]
    simp only [hrow]
    rw [allows_of_not_unique h.unique_new, Bool.and_true, if_pos]
    simp only [SqlTable.has, List.all_cons, List.all_nil, Bool.and_true, Bool.and_eq_true,
      decide_eq_true_eq] at hfiles hxattrs
    simp [SqlTable.has, SelectExpr.prepares, h.has_files, hfiles, hxattrs, hid, ht.1]
  · rw [hrows, ht.2, List.map_append]
    rfl

theorem drop_level (h : Level files (some xattrs) y free v db) :
    ∃ db', runSql newId db (.dropTable .xattrs) = some db' ∧ Level files none y free v db' := by
  refine ⟨{ tables := Function.update db.tables .xattrs none
            indexes := db.indexes.filter (·.table ≠ .xattrs) }, ?_, ?_⟩
  · unfold runSql
    dsimp only
    rw [h.has_xattrs]
    rfl
  · have hkept : ∀ i ∈ db.indexes.filter (·.table ≠ .xattrs), i ∈ db.indexes :=
      fun i hi => List.mem_of_mem_filter hi
    exact ⟨h.has_files, rfl, h.has_new, h.records, fun i hi => h.names i (hkept i hi),
      fun i hi => h.unique i (hkept i hi), fun i hi => h.unique_new i (hkept i hi)⟩

theorem rename_level (h : Level files none (some t) free v db) :
    ∃ db', runSql newId db (.renameTable .xattrs_new .xattrs) = some db' ∧
      Level files (some t) none free v db' := by
  refine ⟨{ tables := Function.update (Function.update db.tables .xattrs_new none) .xattrs (some t)
            indexes := db.indexes.map fun i =>
              if i.table = .xattrs_new then { i with table := .xattrs } else i }, ?_, ?_⟩
  · unfold runSql
    dsimp only
    rw [h.has_new, Option.bind_some, h.has_xattrs]
    rfl
  · refine ⟨h.has_files, rfl, rfl, h.records, ?_, ?_, ?_⟩
    all_goals
      intro i hi
      obtain ⟨j, hj, rfl⟩ := List.mem_map.mp hi
      split
    · exact h.names j hj
    · exact h.names j hj
    · exact fun _ => by simp
    · exact h.unique j hj
    · exact fun _ => by simp
    · exact h.unique_new j hj

theorem index_level {i : SqlIndex} (h : Level files (some t) y (i.name :: free) v db)
    (hi : i.table = .xattrs ∧ i.unique = false) (hkeys : t.has i.keys = true)
    (hfree : i.name ∉ free) :
    ∃ db', runSql newId db (.createIndex i) = some db' ∧ Level files (some t) y free v db' ∧
      i ∈ db'.indexes := by
  obtain ⟨htable, hunique⟩ := hi
  refine ⟨{ db with indexes := i :: db.indexes }, ?_,
    level_index h htable hfree (List.subset_cons_self _ _), List.mem_cons_self⟩
  unfold runSql
  dsimp only
  rw [htable, h.has_xattrs, Option.bind_some, names_free h, hkeys, hunique]
  rfl

/-- The last migration. -/
def uniqueIndex : SqlIndex := ⟨.xattrs__dev_ino_name, .xattrs, [.dev, .ino, .name], true⟩

theorem runSql_unique (h : Level files (some t) y (.xattrs__dev_ino_name :: free) v db)
    (hcolumns : t.columns = [.id, .dev, .ino, .name, .value]) :
    runSql newId db (.createIndex uniqueIndex) =
      if distinctKeys [.dev, .ino, .name] t.rows then
        some { db with indexes := uniqueIndex :: db.indexes }
      else none := by
  unfold runSql uniqueIndex
  dsimp only
  rw [h.has_xattrs, Option.bind_some, names_free h]
  simp [SqlTable.has, hcolumns]

theorem unique_level (h : Level files (some t) y free v db) :
    Level files (some t) y [] v { db with indexes := uniqueIndex :: db.indexes } :=
  level_index h rfl List.not_mem_nil (List.nil_subset _)

/-- What the unique index compares, of a row's values. -/
def attrIndexKey (values : List Sql.Value) : Option (List Sql.Value) :=
  if (values.take 3).any (· = .null) then none else some (values.take 3)

theorem collide_iff {a a' : SqlRow} : Collide files a a' ↔
    ∃ key, attrIndexKey (fileAttr files a) = some key ∧
      attrIndexKey (fileAttr files a') = some key := by
  constructor
  · rintro ⟨f, f', hf, hf', hdev, hino, hname, hsame⟩
    refine ⟨[f .dev, f .ino, a .name], ?_, ?_⟩
    · simp [attrIndexKey, fileAttr, hf, hdev, hino, hname]
    · obtain ⟨hsdev, hsino, hsname⟩ := hsame
      rw [hsdev] at hdev
      rw [hsino] at hino
      rw [hsname] at hname
      simp [attrIndexKey, fileAttr, hf', hdev, hino, hname, hsdev, hsino, hsname]
  · rintro ⟨key, hkey, hkey'⟩
    unfold attrIndexKey fileAttr at hkey hkey'
    cases hf : fileOf files a with
    | none => simp [hf] at hkey
    | some f =>
      cases hf' : fileOf files a' with
      | none => simp [hf'] at hkey'
      | some f' =>
        simp only [hf, hf', Option.map_some, Option.getD_some, List.take_succ_cons, List.take_zero,
          List.any_cons, List.any_nil, Option.ite_none_left_eq_some, Option.some.injEq,
          Bool.or_eq_true, decide_eq_true_eq, Bool.or_false, not_or] at hkey hkey'
        obtain ⟨⟨hdev, hino, hname⟩, rfl⟩ := hkey
        obtain ⟨_, hsame⟩ := hkey'
        simp only [List.cons.injEq, and_true] at hsame
        exact ⟨f, f', hf, hf', hdev, hino, hname, hsame.1.symm, hsame.2.1.symm, hsame.2.2.symm⟩

theorem distinct_iff (h : Selected files attrs t) :
    distinctKeys [.dev, .ino, .name] t.rows = true ↔
      attrs.Pairwise fun a a' => ¬ Collide files a a' := by
  have hkeys : t.rows.filterMap (indexKey [.dev, .ino, .name]) =
      attrs.filterMap fun a => attrIndexKey (fileAttr files a) := by
    have hrow : indexKey [.dev, .ino, .name] = fun r => attrIndexKey (inodeAttr r) := rfl
    have hcomp := congrArg (List.filterMap attrIndexKey) h.2
    rw [List.filterMap_map, List.filterMap_map] at hcomp
    rw [hrow]
    exact hcomp
  unfold distinctKeys
  rw [decide_eq_true_eq, hkeys, List.Nodup, List.pairwise_filterMap]
  refine List.Pairwise.iff fun a a' => ?_
  rw [collide_iff]
  constructor
  · rintro hne ⟨key, hkey, hkey'⟩
    exact hne key hkey key hkey' rfl
  · rintro hnone key hkey key' hkey' rfl
    exact hnone ⟨key, hkey, hkey'⟩

/-- The two indexes of the new table. -/
abbrev newNames : List IndexName := [.xattrs__dev_ino, .xattrs__dev_ino_name]

/-- The migrations behind a version come to the last one, with these attributes in the table. -/
def ComesToLast (files : SqlTable) (attrs : List SqlRow) (v : Int) (db : SqlDb) : Prop :=
  ∃ db' t, runSqls newId db (migrationStatements now text fileMigrations v) =
      runSqls newId db' [.createIndex uniqueIndex, recordVersion now text 8] ∧
    Level files (some t) none [.xattrs__dev_ino_name] 7 db' ∧ Selected files attrs t

theorem from_six (h : Level files (some t) none newNames 6 db) (ht : Selected files attrs t) :
    ComesToLast newId now text files attrs 6 db := by
  have hkeys : t.has [.dev, .ino] = true := by simp [SqlTable.has, ht.1]
  obtain ⟨db₁, hindex, h₁, _⟩ := index_level newId (i := ⟨.xattrs__dev_ino, .xattrs, [.dev, .ino],
    false⟩) h ⟨rfl, rfl⟩ hkeys (by decide)
  obtain ⟨db₂, hrun, h₂⟩ := migrate_cons newId now text (m := 7) hindex h₁ (by decide) rfl
  exact ⟨db₂, t, hrun, h₂, ht⟩

theorem from_five (h : Level files none (some t) newNames 5 db) (ht : Selected files attrs t) :
    ComesToLast newId now text files attrs 5 db := by
  obtain ⟨db₁, hrename, h₁⟩ := rename_level newId h
  obtain ⟨db₂, hrun, h₂⟩ := migrate_cons newId now text (m := 6) hrename h₁ (by decide) rfl
  obtain ⟨db', t', hlast, hlevel⟩ := from_six newId now text h₂ ht
  exact ⟨db', t', hrun.trans hlast, hlevel⟩

theorem from_four (h : Level files (some xattrs) (some t) newNames 4 db)
    (ht : Selected files attrs t) : ComesToLast newId now text files attrs 4 db := by
  obtain ⟨db₁, hdrop, h₁⟩ := drop_level newId h
  obtain ⟨db₂, hrun, h₂⟩ := migrate_cons newId now text (m := 5) hdrop h₁ (by decide) rfl
  obtain ⟨db', t', hlast, hlevel⟩ := from_five newId now text h₂ ht
  exact ⟨db', t', hrun.trans hlast, hlevel⟩

theorem from_three (h : Level files (some xattrs) (some t) newNames 3 db)
    (ht : Selected files attrs t) (hold : HasFileIds files xattrs) :
    ComesToLast newId now text files (attrs ++ xattrs.rows) 3 db := by
  obtain ⟨db₁, t₁, hselect, h₁, ht₁⟩ := select_level newId h ht hold
  obtain ⟨db₂, hrun, h₂⟩ := migrate_cons newId now text (m := 4) hselect h₁ (by decide) rfl
  obtain ⟨db', t', hlast, hlevel⟩ := from_four newId now text h₂ ht₁
  exact ⟨db', t', hrun.trans hlast, hlevel⟩

theorem from_two (h : Level files (some xattrs) none newNames 2 db)
    (hold : HasFileIds files xattrs) :
    ComesToLast newId now text files xattrs.rows 2 db := by
  obtain ⟨db₁, hcreate, h₁⟩ := createNew_level newId h
  obtain ⟨db₂, hrun, h₂⟩ := migrate_cons newId now text (m := 3) hcreate h₁ (by decide) rfl
  have hempty : Selected files [] ⟨[.id, .dev, .ino, .name, .value], []⟩ := ⟨rfl, rfl⟩
  obtain ⟨db', t', hlast, hlevel⟩ := from_three newId now text h₂ hempty hold
  exact ⟨db', t', hrun.trans hlast, hlevel⟩

theorem oldDb_level (h : OldDb files xattrs db) :
    Level files (some xattrs) none newNames 2 db := by
  refine ⟨h.has_files, h.has_xattrs, h.no_new, h.records, ?_, ?_, ?_⟩
  · intro i hi
    simpa using ⟨(h.indexes i hi).1, (h.indexes i hi).2.1⟩
  · exact fun i hi hunique => ((h.indexes i hi).2.2 hunique).1
  · exact fun i hi hunique => ((h.indexes i hi).2.2 hunique).2

/-! ## 6. `make_tables` -/

/-- No table is missing, and the migrations go on where they stopped. -/
theorem makeTables_resumes {r : SqlTable} (hfiles : db.tables .files = some files)
    (hxattrs : db.tables .xattrs = some t) (hrecords : db.tables .migrations = some r)
    (hv : existingVersion 8 r.rows = v) :
    makeTables now text newId fileTables fileIndexes fileMigrations db =
      runSqls newId db (migrationStatements now text fileMigrations v) := by
  have hmissing : missingTables fileTables fileIndexes db = [] := by
    simp [missingTables, fileTables, hfiles, hxattrs, hrecords]
  unfold makeTables
  rw [hmissing]
  unfold runSqls
  dsimp only
  rw [hrecords]
  dsimp only
  rw [← hv]
  rfl

theorem existingVersion_of_max {rows : List SqlRow} (hmax : maxVersion rows = some v)
    (hv : v ∈ [2, 3, 4, 5, 6, 7, 8]) : existingVersion 8 rows = v := by
  have hall : ∀ v ∈ ([2, 3, 4, 5, 6, 7, 8] : List Int), v = (BitVec.ofInt 32 v).toInt ∧ -1 ≤ v ∧
      v ≤ 8 := by decide
  obtain ⟨hwraps, hlow, hhigh⟩ := hall v hv
  unfold existingVersion
  rw [hmax, Option.getD_some, ← hwraps]
  dsimp only
  rw [if_neg (by omega), if_neg (by omega)]

/-- The last migration, by itself. -/
theorem last_migration (h : Level files (some t) none [.xattrs__dev_ino_name] 7 db)
    (ht : Selected files attrs t) :
    (distinctKeys [.dev, .ino, .name] t.rows = true ∧ ∃ db', Level files (some t) none [] 8 db' ∧
        runSqls newId db [.createIndex uniqueIndex, recordVersion now text 8] = .ok db') ∨
      (distinctKeys [.dev, .ino, .name] t.rows = false ∧
        runSqls newId db [.createIndex uniqueIndex, recordVersion now text 8] = .error db) := by
  have hexec := runSql_unique newId h ht.1
  cases hdistinct : distinctKeys [.dev, .ino, .name] t.rows with
  | true =>
    rw [hdistinct, if_pos rfl] at hexec
    obtain ⟨db', hrun, hlevel⟩ := migrate_cons newId now text (m := 8)
      hexec (unique_level h) (by decide) rfl
    exact Or.inl ⟨rfl, db', hlevel, hrun⟩
  | false =>
    rw [hdistinct, if_neg (by simp)] at hexec
    exact Or.inr ⟨rfl, runSqls_fails hexec⟩

/-- The migrations table is created, with its first row and its index. -/
theorem creates_records (hfiles : db.tables .files = some files)
    (hxattrs : db.tables .xattrs = some xattrs) (hnone : db.tables .migrations = none)
    (hindexes : ∀ i ∈ db.indexes, i.table ≠ .migrations ∧ i.name ≠ .migration__version) :
    ∃ db' r, runSqls newId db (tableStatements fileIndexes
        ⟨.migrations, [.id, .version, .stamp, .sql], [initialRecord]⟩) = .ok db' ∧
      db'.tables .files = some files ∧ db'.tables .xattrs = some xattrs ∧
      db'.tables .migrations = some r ∧ existingVersion 8 r.rows = 8 := by
  let r₁ : SqlTable := ⟨[.id, .version, .stamp, .sql], []⟩
  let r₂ := r₁.addRow newId fun column => (initialRecord.lookup column).getD .null
  let index : SqlIndex := ⟨.migration__version, .migrations, [.version], false⟩
  let db₁ := db.put .migrations r₁
  let db₂ := db₁.put .migrations r₂
  have hcreate : runSql newId db (.createTable .migrations r₁.columns) = some db₁ := by
    unfold runSql
    dsimp only
    rw [hnone]
    rfl
  have hinsert : runSql newId db₁ (.insert .migrations initialRecord) = some db₂ := by
    have hr₁ : db₁.tables .migrations = some r₁ := rfl
    have hallows : ∀ rows, db₁.allows .migrations rows = true :=
      fun rows => allows_of_not_unique fun i hi _ => (hindexes i hi).1
    unfold runSql
    dsimp only
    rw [hr₁, Option.bind_some, hallows]
    rfl
  have hindex : runSql newId db₂ (.createIndex index) =
      some { db₂ with indexes := index :: db₂.indexes } := by
    have hr₂ : db₂.tables index.table = some r₂ := rfl
    have hnames : db₂.indexes.all (·.name ≠ index.name) = true := by
      rw [List.all_eq_true]
      exact fun i hi => decide_eq_true (hindexes i hi).2
    unfold runSql
    dsimp only
    rw [hr₂, Option.bind_some, hnames]
    rfl
  have hall : tableStatements fileIndexes
      ⟨.migrations, [.id, .version, .stamp, .sql], [initialRecord]⟩ =
      [.createTable .migrations r₁.columns, .insert .migrations initialRecord,
        .createIndex index] := rfl
  refine ⟨{ db₂ with indexes := index :: db₂.indexes }, r₂, ?_, hfiles, hxattrs, rfl, ?_⟩
  · rw [hall, runSqls_cons hcreate, runSqls_cons hinsert, runSqls_cons hindex]
    rfl
  · have hmax : maxVersion r₂.rows = some 8 := rfl
    unfold existingVersion
    rw [hmax]
    decide

end MigrationsLemmas

open MigrationsLemmas

section Results
variable (newId : List SqlRow → Sql.Value) (now text : Nat → Sql.Value)
  {files xattrs : SqlTable} {db : SqlDb}

/-- The set-up of the file database. -/
def setUpFiles : SqlDb → Except SqlDb SqlDb :=
  makeTables now text newId fileTables fileIndexes fileMigrations

/-- Every attribute with the inode of its file, and the same name and value. -/
def Migrated (files xattrs : SqlTable) (db : SqlDb) : Prop :=
  db.tables .files = some files ∧
    ∃ t, db.tables .xattrs = some t ∧ t.rows.map inodeAttr = xattrs.rows.map (fileAttr files)

/-- A set-up with both tables of a version in place. -/
theorem setUpFiles_level {t : SqlTable} {y : Option SqlTable} {free : List IndexName} {v : Int}
    (h : Level files (some t) y free v db) (hv : v ∈ [2, 3, 4, 5, 6, 7, 8]) :
    setUpFiles newId now text db =
      runSqls newId db (migrationStatements now text fileMigrations v) := by
  obtain ⟨r, hr, hmax, _⟩ := h.records
  exact makeTables_resumes newId now text h.has_files h.has_xattrs hr
    (existingVersion_of_max hmax hv)

/-- How it ends. -/
theorem runSqls_cases {attrs : List SqlRow} {v : Int}
    (h : ComesToLast newId now text files attrs v db) :
    (attrs.Pairwise (fun a a' => ¬ Collide files a a') ∧ ∃ db' t,
      runSqls newId db (migrationStatements now text fileMigrations v) = .ok db' ∧
        Level files (some t) none [] 8 db' ∧ Selected files attrs t) ∨
    (¬ attrs.Pairwise (fun a a' => ¬ Collide files a a') ∧ ∃ db' t,
      runSqls newId db (migrationStatements now text fileMigrations v) = .error db' ∧
        setUpFiles newId now text db' = .error db' ∧
        Level files (some t) none [.xattrs__dev_ino_name] 7 db' ∧ Selected files attrs t) := by
  obtain ⟨db₇, t, hrun, hlevel, hselected⟩ := h
  have hagain : setUpFiles newId now text db₇ =
      runSqls newId db₇ [.createIndex uniqueIndex, recordVersion now text 8] :=
    setUpFiles_level newId now text hlevel (by decide)
  have hdistinct := distinct_iff hselected
  rcases last_migration newId now text hlevel hselected with
    ⟨hyes, db', hlevel', hok⟩ | ⟨hno, herror⟩
  · exact Or.inl ⟨hdistinct.mp hyes, db', t, hrun.trans hok, hlevel', hselected⟩
  · refine Or.inr ⟨fun hpairwise => ?_, db₇, t, hrun.trans herror, hagain.trans herror, hlevel,
      hselected⟩
    rw [hdistinct.mpr hpairwise] at hno
    cases hno

theorem setUpFiles_cases (h : OldDb files xattrs db) :
    (xattrs.rows.Pairwise (fun a a' => ¬ Collide files a a') ∧
      ∃ db', setUpFiles newId now text db = .ok db' ∧ Migrated files xattrs db') ∨
    (¬ xattrs.rows.Pairwise (fun a a' => ¬ Collide files a a') ∧
      ∃ db', setUpFiles newId now text db = .error db' ∧ Migrated files xattrs db' ∧
        setUpFiles newId now text db' = .error db') := by
  have hstart := oldDb_level h
  rw [setUpFiles_level newId now text hstart (by decide)]
  rcases runSqls_cases newId now text (from_two newId now text hstart h.has_ids) with
    ⟨hyes, db', t, hok, hlevel, ht⟩ | ⟨hno, db', t, herror, hagain, hlevel, ht⟩
  · exact Or.inl ⟨hyes, db', hok, hlevel.has_files, t, hlevel.has_xattrs, ht.2⟩
  · exact Or.inr ⟨hno, db', herror, ⟨hlevel.has_files, t, hlevel.has_xattrs, ht.2⟩, hagain⟩

theorem migrates_iff (h : OldDb files xattrs db) :
    (∃ db', setUpFiles newId now text db = .ok db' ∧ Migrated files xattrs db') ↔
      xattrs.rows.Pairwise fun a a' => ¬ Collide files a a' := by
  rcases setUpFiles_cases newId now text h with ⟨hyes, hok⟩ | ⟨hno, db', herror, _⟩
  · exact iff_of_true hok hyes
  · refine iff_of_false ?_ hno
    rintro ⟨db'', hok, _⟩
    rw [herror] at hok
    cases hok

theorem never_migrates {db' : SqlDb} (h : OldDb files xattrs db)
    (hfails : setUpFiles newId now text db = .error db') :
    Migrated files xattrs db' ∧ setUpFiles newId now text db' = .error db' := by
  rcases setUpFiles_cases newId now text h with ⟨_, db'', hok, _⟩ | ⟨_, db'', herror, hmigrated⟩
  · rw [hok] at hfails
    cases hfails
  · rw [herror] at hfails
    obtain rfl := Except.error.inj hfails
    exact hmigrated

/-- "If there is no migration table, we assume \"version -1\"", but by then there is one. -/
theorem unversioned_stays (hfiles : db.tables .files = some files)
    (hxattrs : db.tables .xattrs = some xattrs) (hnone : db.tables .migrations = none)
    (hindexes : ∀ i ∈ db.indexes, i.table ≠ .migrations ∧ i.name ≠ .migration__version) :
    ∃ db', setUpFiles newId now text db = .ok db' ∧ setUpFiles newId now text db' = .ok db' ∧
      db'.tables .files = some files ∧ db'.tables .xattrs = some xattrs := by
  have hmissing : missingTables fileTables fileIndexes db = tableStatements fileIndexes
      ⟨.migrations, [.id, .version, .stamp, .sql], [initialRecord]⟩ := by
    simp [missingTables, fileTables, hfiles, hxattrs, hnone]
  obtain ⟨db', r, hcreate, hfiles', hxattrs', hr, hversion⟩ :=
    creates_records newId hfiles hxattrs hnone hindexes
  have hdone : runSqls newId db' (migrationStatements now text fileMigrations 8) = .ok db' := rfl
  refine ⟨db', ?_, ?_, hfiles', hxattrs'⟩
  · unfold setUpFiles makeTables
    rw [hmissing, hcreate]
    dsimp only
    rw [hr]
    dsimp only
    have hlast : existingVersion (fileMigrations.length - 1) r.rows = 8 := hversion
    rw [hlast]
    exact hdone
  · exact (makeTables_resumes newId now text hfiles' hxattrs' hr hversion).trans hdone

end Results

def exSqlRow (values : List (ColumnName × Sql.Value)) : SqlRow :=
  fun column => (values.lookup column).getD .null

/-- Two names of one file, and another file. -/
def exFileRows : SqlTable where
  columns := [.id, .path, .dev, .ino, .uid, .gid, .mode, .rdev]
  rows := [exSqlRow [(.id, .int 1), (.dev, .int 5), (.ino, .int 7)],
    exSqlRow [(.id, .int 2), (.dev, .int 5), (.ino, .int 7)],
    exSqlRow [(.id, .int 3), (.dev, .int 5), (.ino, .int 8)]]

/-- One name twice. -/
def exOldAttrs (second : BitVec 64) : SqlTable where
  columns := [.id, .file_id, .name, .value]
  rows := [exSqlRow [(.file_id, .int 1), (.name, .text (ascii ['u'])), (.value, .text [])],
    exSqlRow [(.file_id, .int second), (.name, .text (ascii ['u'])), (.value, .text [])]]

def exOldDb (second : BitVec 64) : SqlDb where
  tables
    | .files => some exFileRows
    | .xattrs => some (exOldAttrs second)
    | .migrations => some ⟨[.id, .version, .stamp, .sql], [exSqlRow [(.version, .int 2)]]⟩
    | .xattrs_new => none
  indexes := []

theorem exOldDb_old (second : BitVec 64) :
    OldDb exFileRows (exOldAttrs second) (exOldDb second) where
  has_files := rfl
  has_xattrs := rfl
  no_new := rfl
  has_ids := ⟨rfl, by decide, rfl⟩
  records := ⟨_, rfl, rfl, rfl⟩
  indexes := fun _ h => absurd h List.not_mem_nil

/-- The attributes of two files. -/
theorem exOldAttrs_apart :
    (exOldAttrs 3).rows.Pairwise fun a a' => ¬ Collide exFileRows a a' := by
  refine List.Pairwise.cons ?_ (List.pairwise_singleton _ _)
  intro a ha
  rw [List.mem_singleton.mp ha]
  rintro ⟨f, f', hf, hf', _, _, _, _, hino, _⟩
  have hseven : f .ino = .int 7 := by rw [← Option.some.inj hf]; rfl
  have hother : f' .ino = .int 8 := by rw [← Option.some.inj hf']; rfl
  rw [hseven, hother] at hino
  exact absurd hino (by decide)

theorem migrates_iff_exOldDb : ∃ db', setUpFiles (fun _ => .null) (fun _ => .null) (fun _ => .null)
    (exOldDb 3) = .ok db' ∧ Migrated exFileRows (exOldAttrs 3) db' :=
  (migrates_iff _ _ _ (exOldDb_old 3)).mpr exOldAttrs_apart

/-- The attributes of one file, by both of its names. -/
theorem never_migrates_exOldDb : ∃ db', setUpFiles (fun _ => .null) (fun _ => .null)
    (fun _ => .null) (exOldDb 2) = .error db' ∧
    setUpFiles (fun _ => .null) (fun _ => .null) (fun _ => .null) db' = .error db' := by
  refine ⟨_, rfl, ?_⟩
  exact (never_migrates _ _ _ (exOldDb_old 2) rfl).2

def exUnversioned : SqlDb where
  tables
    | .files => some exFileRows
    | .xattrs => some (exOldAttrs 3)
    | _ => none
  indexes := []

theorem unversioned_stays_exUnversioned : ∃ db', setUpFiles (fun _ => .null) (fun _ => .null)
    (fun _ => .null) exUnversioned = .ok db' ∧ db'.tables .xattrs = some (exOldAttrs 3) := by
  have hindexes : ∀ i ∈ exUnversioned.indexes, i.table ≠ .migrations ∧
      i.name ≠ .migration__version := fun _ h => absurd h List.not_mem_nil
  obtain ⟨db', hok, _, _, hxattrs⟩ := unversioned_stays (fun _ => .null) (fun _ => .null)
    (fun _ => .null) rfl rfl rfl hindexes
  exact ⟨db', hok, hxattrs⟩

end Pseudo
