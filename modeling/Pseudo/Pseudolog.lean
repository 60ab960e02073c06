import Pseudo.Message

/-!
# The command line of `pseudolog`

`pseudolog.c` turns each option into a trait, a field with an operator and a value, and scans the
format for the fields that it displays. The C library reads the times.

Results:
1. `plogTrait_wellTyped`: the traits that a command line can have.
2. `formatScan_displays`: the fields that a format can ask for.
-/

namespace Pseudo

/-! ## 1. Fields and operators -/

abbrev Text := List Char

/-- `pseudo_query_field_t` (`enums/query_field.in`). -/
inductive QueryField
  | none | access | client | dev | fd | ftype | gid | id | inode | mode | op | order | path | perm
  | program | result | severity | stamp | tag | text | type | uid
  deriving DecidableEq, Repr

def queryFields : List QueryField :=
  [.none, .access, .client, .dev, .fd, .ftype, .gid, .id, .inode, .mode, .op, .order, .path, .perm,
    .program, .result, .severity, .stamp, .tag, .text, .type, .uid]

def queryFieldNames : List String :=
  ["none", "access", "client", "dev", "fd", "ftype", "gid", "id", "inode", "mode", "op", "order",
    "path", "perm", "program", "result", "severity", "stamp", "tag", "text", "type", "uid"]

def pseudoQueryFieldName (id : Int) : Text :=
  if id < 0 then "unknown".toList else (queryFieldNames[id.toNat]?.getD "unknown").toList

/-- The value of the enumerator. -/
def QueryField.toNat (f : QueryField) : Nat := queryFields.idxOf f

def QueryField.name (f : QueryField) : Text := pseudoQueryFieldName f.toNat

/-- `pseudo_query_type_t` (`enums/query_type.in`). -/
inductive QueryType
  | unknown | none | exact | less | greater | bitand | notequal | like | notlike | sqlpat
  deriving DecidableEq, Repr

/-- `pseudo_query_type_sql` -/
def QueryType.sql : QueryType → Text
  | .unknown | .none => "LITTLE BOBBY TABLES".toList
  | .exact => "=".toList
  | .less => "<".toList
  | .greater => ">".toList
  | .bitand => "&".toList
  | .notequal => "!=".toList
  | .like => "LIKE".toList
  | .notlike => "NOT LIKE".toList
  | .sqlpat => "LIKE".toList

/-- `union pseudo_query_data`. -/
inductive QueryData
  | ivalue (v : BitVec 64)
  | svalue (s : Bytes)
  deriving DecidableEq, Repr

/-- `pseudo_query_t`. -/
structure PseudoQuery where
  type : QueryType
  field : QueryField
  data : QueryData
  deriving DecidableEq, Repr

/-- A `switch` on a character. -/
def switch {α : Type} (cases : List (Char × α)) (c : Byte) : Option α :=
  (cases.find? fun x => x.1.toUInt8 = c).map (·.2)

def optToField (opt : Byte) : QueryField :=
  (switch [('a', .access), ('c', .client), ('d', .dev), ('f', .fd), ('g', .gid), ('G', .tag),
    ('I', .id), ('i', .inode), ('m', .perm), ('M', .mode), ('o', .op), ('O', .order), ('p', .path),
    ('r', .result), ('R', .program), ('s', .stamp), ('S', .severity), ('t', .ftype), ('T', .text),
    ('u', .uid), ('y', .type)] opt).getD .none

/-- The operator, and what is left of the string. -/
def plogQueryType (optL : Bool) (string : Bytes) : QueryType × Bytes :=
  match string with
  | [] => (.unknown, [])
  | c :: rest =>
    let (type, string) :=
      (switch [('>', (.greater, rest)), ('<', (.less, rest)), ('!', (.notequal, rest)),
        ('=', (.exact, rest)), ('&', (.bitand, rest)), ('%', (.like, rest)),
        ('^', (.notlike, rest)), ('~', (.sqlpat, rest)),
        -- no special type, but allows one of the others to be the first character
        (Char.ofNat 92, (.exact, rest))] c).getD (.exact, string)
    if optL ∧ type ≠ .exact then (.unknown, string) else (type, string)

/-! ## 2. Values -/

/-- `mode_t`; -1 is none. -/
def parseFileType (string : Bytes) : Option (BitVec 32) :=
  string.head?.bind (switch [('b', 0o060000), ('c', 0o020000), ('d', 0o040000), ('-', 0o100000),
    ('f', 0o100000), ('l', 0o120000), ('p', 0o010000), ('s', 0o140000)])

def parsePartialMode (read write exec : Byte) : Option (BitVec 32) := do
  let read ← switch [('r', 0o4), ('-', 0)] read
  let write ← switch [('w', 0o2), ('-', 0)] write
  let exec ← switch [('x', 0o1), ('t', 0o11), ('s', 0o11), ('T', 0o10), ('S', 0o10), ('-', 0)] exec
  return read ||| write ||| exec

/-- The bits of one class; 010 stands for its special bit. -/
def withClass (special : BitVec 32) (shift : Nat) (mode bits : BitVec 32) : BitVec 32 :=
  if bits &&& 0o10 ≠ 0 then mode ||| special ||| ((bits &&& ~~~ 0o10) <<< shift)
  else mode ||| (bits <<< shift)

/-- The nine characters of a mode string. -/
def parseClasses (mode : BitVec 32) : Bytes → Option (BitVec 32)
  | [r₁, w₁, x₁, r₂, w₂, x₂, r₃, w₃, x₃] => do
    let mode := withClass 0o4000 6 mode (← parsePartialMode r₁ w₁ x₁)
    let mode := withClass 0o2000 3 mode (← parsePartialMode r₂ w₂ x₂)
    return withClass 0o1000 0 mode (← parsePartialMode r₃ w₃ x₃)
  -- mode strings must be of the form [-]rwxr-xr-x
  | _ => none

def parseModeString (string : Bytes) : Option (BitVec 32) :=
  if string.length = 10 then (parseFileType string).bind fun mode => parseClasses mode string.tail
  else parseClasses 0 string

/-- What the C library has to do with times: `localtime_r` of the current time, `strptime` with the
part of the string that is left, and `mktime`. -/
structure TimeLibrary where
  Tm : Type
  now : Tm
  strptime : (string format : Bytes) → Tm → Option (Tm × Bytes)
  mktime : Tm → BitVec 64

def timeFormats : List String :=
  ["%s", "%F %r", "%F %T", "%m-%d %r", "%m-%d %T", "%r", "%T"]

/-- The user's own format is tried first. -/
def parseTimestamp (lib : TimeLibrary) (timeformat string : Bytes) : BitVec 64 :=
  let parse (format : Bytes) : Option lib.Tm :=
    match lib.strptime string format lib.now with
    | some (tm, []) => some tm
    | _ => none
  match (timeformat :: timeFormats.map fun s => ascii s.toList).findSome? parse with
  | some tm => lib.mktime tm
  | none => -1

/-- An `int`. -/
def pseudoAccessFopen (mode : Bytes) : BitVec 32 :=
  mode.foldl (fun access c =>
    ((switch [('a', access ||| 0b1010), ('r', access ||| 0b0100), ('w', access ||| 0b0010),
      ('x', access ||| 0b0001), ('b', access), ('c', access), ('e', access), ('m', access),
      ('+', access ||| 0b0110)] c).getD (-1))) 0

/-- `pseudo_op_id` and the others of its kind: the first id with the name, or -1. -/
def enumId (names : List String) (string : Bytes) : BitVec 64 :=
  match ("none" :: names).findIdx? fun name => ascii name.toList = string with
  | some id => BitVec.ofNat 64 id
  | none => -1

def pseudoOpId : Bytes → BitVec 64 := enumId
  ["chdir", "chmod", "chown", "chroot", "close", "creat", "dup", "fchmod", "fchown", "fstat",
    "link", "mkdir", "mknod", "open", "rename", "stat", "unlink", "symlink", "exec", "may-unlink",
    "did-unlink", "cancel-unlink", "get-xattr", "list-xattr", "remove-xattr", "set-xattr",
    "create-xattr", "replace-xattr", "closefrom"]

def pseudoResId : Bytes → BitVec 64 := enumId ["succeed", "fail", "error", "abort"]

def pseudoSevId : Bytes → BitVec 64 := enumId ["debug", "info", "warn", "error", "critical"]

def pseudoMsgTypeId : Bytes → BitVec 64 :=
  enumId ["ping", "shutdown", "op", "ack", "nak", "fastop"]

/-- The value of a digit in bases up to 36. -/
def digitValue (c : Byte) : Option Nat :=
  if '0'.toUInt8 ≤ c ∧ c ≤ '9'.toUInt8 then some (c - '0'.toUInt8).toNat
  else if 'a'.toUInt8 ≤ c ∧ c ≤ 'z'.toUInt8 then some ((c - 'a'.toUInt8).toNat + 10)
  else if 'A'.toUInt8 ≤ c ∧ c ≤ 'Z'.toUInt8 then some ((c - 'A'.toUInt8).toNat + 10)
  else none

def isDigitOf (base : Nat) (c : Byte) : Bool := (digitValue c).any (· < base)

/-- The sign of a number, and what comes behind it. -/
def takeSign : Bytes → Bool × Bytes
  | c :: rest =>
    if c = '-'.toUInt8 then (true, rest)
    else if c = '+'.toUInt8 then (false, rest)
    else (false, c :: rest)
  | [] => (false, [])

/-- The base that a number in base 0 is written in, and its digits. -/
def takeBase (base : Nat) (s : Bytes) : Nat × Bytes :=
  if base = 0 then
    match s with
    | zero :: x :: d :: rest =>
      if zero = zeroDigit ∧ (x = 'x'.toUInt8 ∨ x = 'X'.toUInt8) ∧ isDigitOf 16 d then
        (16, d :: rest)
      else if zero = zeroDigit then (8, s)
      else (10, s)
    | zero :: _ => if zero = zeroDigit then (8, s) else (10, s)
    | [] => (10, s)
  else (base, s)

/-- `strtoll` for the bases 0 and 8, with what is left at `*endptr`. -/
def strtoll (string : Bytes) (base : Nat) : BitVec 64 × Bytes :=
  let (negative, s) := takeSign (string.dropWhile fun c => c = 32 ∨ 9 ≤ c ∧ c ≤ 13)
  let (base, s) := takeBase base s
  let digits := s.takeWhile (isDigitOf base)
  let n : Int := digits.foldl (fun n c => n * base + (digitValue c).getD 0) (0 : Nat)
  if digits = [] then (0, string)
  else
    (BitVec.ofInt 64 (if negative then max (-(2 ^ 63)) (-n) else min (2 ^ 63 - 1) n),
      s.drop digits.length)

/-! ## 3. Traits -/

/-- The `switch` of `plog_trait`. -/
def plogTraitData (lib : TimeLibrary) (timeformat : Bytes) (field : QueryField) (string : Bytes) :
    Option QueryData :=
  match field with
  | .access =>
    let access := (pseudoAccessFopen string).signExtend 64
    if access = -1 then none else some (.ivalue access)
  | .ftype =>
    -- file type must be a single character
    if 2 ≤ string.length then none
    else (parseFileType string).map fun mode => .ivalue (mode.setWidth 64)
  | .op => some (.ivalue (pseudoOpId string))
  | .order =>
    -- order type must be a single specifier character
    if 2 ≤ string.length then none
    -- "Unknown field type" is only reported
    else some (.ivalue (BitVec.ofNat 64 (optToField (string.head?.getD 0)).toNat))
  | .result => some (.ivalue (pseudoResId string))
  | .severity => some (.ivalue (pseudoSevId string))
  | .stamp =>
    let stamp := parseTimestamp lib timeformat string
    if stamp = -1 then none else some (.ivalue stamp)
  | .type => some (.ivalue (pseudoMsgTypeId string))
  | .client | .dev | .fd | .gid | .inode | .uid =>
    let (value, rest) := strtoll string 0
    if rest ≠ [] then none else some (.ivalue value)
  | .mode | .perm =>
    let (value, rest) := strtoll string 8
    if rest = [] then some (.ivalue value)
    else
      -- maybe it's a mode string?
      (parseModeString string).map fun mode =>
        .ivalue (if field = .perm then mode.setWidth 64 &&& ~~~ 0o170000 else mode.setWidth 64)
  | .path | .program | .text | .tag => some (.svalue string)
  -- "I don't know how I got here."
  | .none | .id => none

/-- `plog_trait`. `optL` is `opt_l`. -/
def plogTrait (lib : TimeLibrary) (timeformat : Bytes) (optL : Bool) (opt : Int) (string : Bytes) :
    Option PseudoQuery :=
  if opt < 0 ∨ 255 < opt then none
  else
    let field := optToField (UInt8.ofNat opt.toNat)
    if field = .none then none
    else if string = [] then none
    else
      let (type, string) := plogQueryType optL string
      if type = .unknown then none
      else (plogTraitData lib timeformat field string).map fun data => ⟨type, field, data⟩

/-! ## 4. Formats -/

/-- `"acdfgGimMoprRsStTuy"`. -/
def formatSpecifiers : Bytes := ascii "acdfgGimMoprRsStTuy".toList

/-- The `switch` of `format_scan`. -/
def formatField (fields : Nat) (c : Byte) : Option Nat :=
  match optToField c with
  | .perm | .ftype => some (fields ||| 1 <<< QueryField.mode.toNat)
  | .none => some fields
  | .id | .order => none
  | f => some (fields ||| 1 <<< f.toNat)

/-- `format_scan`, one character at a time: `strchr` looks for a `%`, and from there `strcspn` for
a specifier. -/
def scanFrom (fields : Nat) (inSpecifier : Bool) : Bytes → Option Nat
  | [] => if inSpecifier then none else some fields
  | c :: rest =>
    if inSpecifier ∧ c ∈ formatSpecifiers then
      (formatField fields c).bind fun fields => scanFrom fields false rest
    else scanFrom fields (inSpecifier || c == '%'.toUInt8) rest

def formatScan (format : Bytes) : Option Nat := scanFrom 0 false format

/-! ## 5. What a command line can ask for -/

/-- The fields that are strings. -/
def QueryField.isText : QueryField → Bool
  | .program | .text | .tag | .path => true
  | _ => false

/-- A value of the right kind; the value of an order is a field. -/
def QueryData.Fits (field : QueryField) : QueryData → Prop
  | .svalue _ => field.isText = true
  | .ivalue v => field.isText = false ∧
      (field = .order → ∃ f : QueryField, v = BitVec.ofNat 64 f.toNat)

structure PseudoQuery.WellTyped (t : PseudoQuery) : Prop where
  type : t.type ≠ .unknown ∧ t.type ≠ .none
  field : t.field ≠ .none ∧ t.field ≠ .id
  data : t.data.Fits t.field

theorem mem_of_switch {α : Type} {cases : List (Char × α)} {c : Byte} {a : α}
    (h : switch cases c = some a) : a ∈ cases.map (·.2) := by
  obtain ⟨x, hx, rfl⟩ := Option.map_eq_some_iff.mp h
  exact List.mem_map_of_mem (List.mem_of_find?_eq_some hx)

theorem plogQueryType_ne_none (optL : Bool) (string : Bytes) :
    (plogQueryType optL string).1 ≠ .none := by
  cases string with
  | nil => exact fun h => nomatch h
  | cons c rest =>
    have hread (cases : List (Char × QueryType × Bytes))
        (hcases : ∀ r ∈ cases.map (·.2), r.1 ≠ .none) :
        ((switch cases c).getD (.exact, c :: rest)).1 ≠ .none := by
      cases hswitch : switch cases c with
      | none => exact fun h => nomatch h
      | some r => exact hcases r (mem_of_switch hswitch)
    unfold plogQueryType
    dsimp only
    split
    · exact fun h => nomatch h
    · exact hread _ (by simp)

theorem fits_ivalue {field : QueryField} (htext : field.isText = false) (horder : field ≠ .order)
    (v : BitVec 64) : (QueryData.ivalue v).Fits field :=
  ⟨htext, fun h => absurd h horder⟩

theorem plogTraitData_fits {lib : TimeLibrary} {timeformat string : Bytes} {field : QueryField}
    {data : QueryData} (h : plogTraitData lib timeformat field string = some data) :
    (field ≠ .none ∧ field ≠ .id) ∧ data.Fits field := by
  cases field
  case none | id => cases h
  all_goals refine ⟨by decide, ?_⟩
  case path | program | text | tag =>
    cases h
    rfl
  case op | result | severity | type =>
    cases h
    exact fits_ivalue (by decide) (by decide) _
  case access | stamp =>
    unfold plogTraitData at h
    dsimp only at h
    split at h
    · cases h
    · cases h
      exact fits_ivalue (by decide) (by decide) _
  case client | dev | fd | gid | inode | uid =>
    unfold plogTraitData at h
    dsimp only at h
    split at h
    · cases h
    · cases h
      exact fits_ivalue (by decide) (by decide) _
  case ftype =>
    unfold plogTraitData at h
    dsimp only at h
    split at h
    · cases h
    · obtain ⟨mode, -, rfl⟩ := Option.map_eq_some_iff.mp h
      exact fits_ivalue (by decide) (by decide) _
  case mode | perm =>
    unfold plogTraitData at h
    dsimp only at h
    split at h
    · cases h
      exact fits_ivalue (by decide) (by decide) _
    · obtain ⟨mode, -, rfl⟩ := Option.map_eq_some_iff.mp h
      exact fits_ivalue (by decide) (by decide) _
  case order =>
    unfold plogTraitData at h
    dsimp only at h
    split at h
    · cases h
    · cases h
      exact ⟨rfl, fun _ => ⟨_, rfl⟩⟩

/-- The `switch` has made the value of a trait. -/
theorem plogTrait_data {lib : TimeLibrary} {timeformat : Bytes} {optL : Bool} {opt : Int}
    {string : Bytes} {t : PseudoQuery} (h : plogTrait lib timeformat optL opt string = some t) :
    (t.type ≠ .unknown ∧ t.type ≠ .none) ∧
      ∃ rest, plogTraitData lib timeformat t.field rest = some t.data := by
  have htype := plogQueryType_ne_none optL string
  unfold plogTrait at h
  generalize plogQueryType optL string = typed at h htype
  obtain ⟨type, rest⟩ := typed
  dsimp only at h htype
  split at h
  · cases h
  split at h
  · cases h
  split at h
  · cases h
  split at h
  · cases h
  rename_i hunknown
  obtain ⟨data, hdata, rfl⟩ := Option.map_eq_some_iff.mp h
  exact ⟨⟨hunknown, htype⟩, rest, hdata⟩

/-- What `plog_trait` returns has an operator, a field that the database knows, and a value of its
kind. -/
theorem plogTrait_wellTyped {lib : TimeLibrary} {timeformat : Bytes} {optL : Bool} {opt : Int}
    {string : Bytes} {t : PseudoQuery} (h : plogTrait lib timeformat optL opt string = some t) :
    t.WellTyped := by
  obtain ⟨htype, rest, hdata⟩ := plogTrait_data h
  obtain ⟨hfield, hfits⟩ := plogTraitData_fits hdata
  exact ⟨htype, hfield, hfits⟩

/-- The fields that `format_scan` returns. -/
def displayed : List QueryField :=
  [.access, .client, .dev, .fd, .gid, .inode, .mode, .op, .path, .program, .result, .severity,
    .stamp, .tag, .text, .type, .uid]

/-- Only these bits are set. -/
def Displays (fields : Nat) : Prop :=
  ∀ i, fields.testBit i = true → ∃ f ∈ displayed, f.toNat = i

theorem queryFields_toNat (f : QueryField) : queryFields[f.toNat]? = some f := by
  cases f <;> rfl

theorem Displays.mem {fields : Nat} (h : Displays fields) {f : QueryField}
    (hf : fields.testBit f.toNat = true) : f ∈ displayed := by
  obtain ⟨g, hg, hnumber⟩ := h _ hf
  have hsame := queryFields_toNat f
  rw [← hnumber, queryFields_toNat] at hsame
  exact Option.some.inj hsame ▸ hg

/-- One more field. -/
theorem displays_or {fields : Nat} (h : Displays fields) {f : QueryField} (hf : f ∈ displayed) :
    Displays (fields ||| 1 <<< f.toNat) := by
  intro i hi
  rw [Nat.testBit_or, Nat.one_shiftLeft, Nat.testBit_two_pow, Bool.or_eq_true,
    decide_eq_true_iff] at hi
  rcases hi with hi | hi
  · exact h i hi
  · exact ⟨f, hf, hi⟩

theorem formatField_displays {fields fields' : Nat} (h : Displays fields) {c : Byte}
    (hc : formatField fields c = some fields') : Displays fields' := by
  unfold formatField at hc
  generalize optToField c = f at hc
  cases f
  case none =>
    cases hc
    exact h
  case id | order => cases hc
  all_goals
    cases hc
    exact displays_or h (by decide)

theorem scanFrom_displays {format : Bytes} {fields fields' : Nat} {inSpecifier : Bool}
    (h : Displays fields) (hscan : scanFrom fields inSpecifier format = some fields') :
    Displays fields' := by
  induction format generalizing fields inSpecifier with
  | nil =>
    rw [scanFrom] at hscan
    split at hscan
    · cases hscan
    · cases hscan
      exact h
  | cons c rest ih =>
    rw [scanFrom] at hscan
    split at hscan
    · obtain ⟨mid, hmid, hrest⟩ := Option.bind_eq_some_iff.mp hscan
      exact ih (formatField_displays h hmid) hrest
    · exact ih h hscan

/-- A format displays no field that is only a way to ask for a trait. -/
theorem formatScan_displays {format : Bytes} {fields : Nat} (h : formatScan format = some fields) :
    Displays fields :=
  scanFrom_displays (fun i hi => by rw [Nat.zero_testBit] at hi; cases hi) h

end Pseudo
