import Pseudo.LogHistory

/-!
# Displaying entries of the log

`display` copies the format, and hands each `%` to `format_one`, which looks for the specifier that
belongs to it and prints one member of the entry. `format_scan` has looked for the same specifiers
before, to find out what has to be read from the log.

Results:
1. `scanFrom_eq`: the specifiers that `format_scan` sees, and what it makes of them.
2. `acted_prefix`: `display` acts on them in the same order, up to the first that is rejected.
3. `formatArg_member`, `display_congr`: what is printed of an entry.
4. `display_reads_scanned`: that is what the query has asked for.
-/

namespace Pseudo

open Sql LogQueryLemmas

/-! ## 1. The code -/

/-- What `printf` is given besides the format. -/
inductive PrintfArg
  | int (v : BitVec 32)
  | uint (v : BitVec 32)
  | ullong (v : BitVec 64)
  | string (s : Bytes)
  deriving DecidableEq, Repr

/-- `pseudo_op_name` and the others of its kind. -/
def enumName (names : List String) (id : BitVec 32) : Bytes :=
  if id.toInt < 0 then ascii "unknown".toList
  else ascii ((("none" :: names)[id.toNat]?).getD "unknown").toList

def pseudoOpName : BitVec 32 → Bytes := enumName
  ["chdir", "chmod", "chown", "chroot", "close", "creat", "dup", "fchmod", "fchown", "fstat",
    "link", "mkdir", "mknod", "open", "rename", "stat", "unlink", "symlink", "exec", "may-unlink",
    "did-unlink", "cancel-unlink", "get-xattr", "list-xattr", "remove-xattr", "set-xattr",
    "create-xattr", "replace-xattr", "closefrom"]

def pseudoResName : BitVec 32 → Bytes := enumName ["succeed", "fail", "error", "abort"]

def pseudoSevName : BitVec 32 → Bytes := enumName ["debug", "info", "warn", "error", "critical"]

def pseudoMsgTypeName : BitVec 32 → Bytes :=
  enumName ["ping", "shutdown", "op", "ack", "nak", "fastop"]

/-- The text for `PSQF_ACCESS`. -/
def accessText (access : BitVec 32) : Bytes :=
  let read := access &&& 0b0100 ≠ 0
  let write := access &&& 0b0010 ≠ 0
  let append := access &&& 0b1000 ≠ 0
  if access = -1 then ascii "invalid".toList
  else if access ≠ 0 then
    (if read then ascii "r".toList ++ (if write then ascii "+".toList else [])
      else if write then
        (if append then ascii "a".toList else ascii "w".toList) ++
          (if read then ascii "+".toList else [])
      else if access &&& 0b0001 ≠ 0 then ascii "x".toList
      else []) ++
      -- this should be impossible... should.
      (if append ∧ ¬ write then ascii "?a".toList else [])
  else ascii "-".toList

/-- The text for `PSQF_FTYPE`: that of a regular file is overwritten by the last branch. -/
def ftypeText (mode : BitVec 64) : Bytes :=
  let type := mode &&& 0o170000
  if type = 0o120000 then ascii "link".toList
  else if type = 0o040000 then ascii "dir".toList
  else if type = 0o010000 then ascii "fifo".toList
  else if type = 0o060000 then ascii "block".toList
  else if type = 0o020000 then ascii "char".toList
  else ascii ('?' :: Nat.toDigits 8 (mode.setWidth 32 &&& 0o170000 : BitVec 32).toNat)

/-- The `switch` of `format_one`: what the specifier is replaced by, and the argument. `strftime`
formats a time with `timeformat` in the local zone. -/
def formatArg (strftime : BitVec 64 → Bytes) (e : LogEntry) (c : Byte) :
    Option (Bytes × PrintfArg) :=
  (switch [('a', ("s", .string (accessText e.access))),
    ('c', ("d", .int (e.client.setWidth 32))),
    ('d', ("d", .int (e.dev.setWidth 32))),
    ('f', ("d", .int (e.fd.setWidth 32))),
    ('g', ("d", .int (e.gid.setWidth 32))),
    ('G', ("s", .string (e.tag.getD []))),
    ('i', ("llu", .ullong e.ino)),
    ('m', ("o", .uint (e.mode.setWidth 32 &&& 0o7777))),
    ('M', ("o", .uint (e.mode.setWidth 32))),
    ('o', ("s", .string (pseudoOpName e.op))),
    ('p', ("s", .string (e.path.getD []))),
    ('r', ("s", .string (pseudoResName e.result))),
    ('R', ("s", .string (e.program.getD []))),
    ('s', ("s", .string (strftime e.stamp))),
    ('S', ("s", .string (pseudoSevName e.severity))),
    ('t', ("s", .string (ftypeText e.mode))),
    ('T', ("s", .string (e.text.getD []))),
    ('u', ("d", .int (e.uid.setWidth 32))),
    ('y', ("s", .string (pseudoMsgTypeName e.type)))] c).map fun p => (ascii p.1.toList, p.2)

/-- What `display` does next: it puts a character, or `format_one` acts on a specifier. -/
inductive DisplayEvent
  | putchar (c : Byte)
  | specifier (text : Bytes) (printf : Option (Bytes × PrintfArg))
  deriving DecidableEq, Repr

/-- `strcspn(format, "acdfgGimMoprRsStTuy")` -/
def specifierLen (format : Bytes) : Nat := (format.takeWhile (· ∉ formatSpecifiers)).length

/-- `format_one`: the specifier and what is printed, and the rest of the format from the last
character of the specifier on. A format is an argument of the command line, so `(int) len` is
`len`. -/
def formatOne (strftime : BitVec 64 → Bytes) (e : LogEntry) (format : Bytes) :
    Option (DisplayEvent × Bytes) :=
  let len := specifierLen format
  let fmtbuf := format.take (len + 1)
  -- "Format string way too long"
  if 256 - 1 ≤ fmtbuf.length then none
  -- "Sorry, you can't use *, h, or l format modifiers."
  else if '*'.toUInt8 ∈ fmtbuf ∨ 'l'.toUInt8 ∈ fmtbuf ∨ 'h'.toUInt8 ∈ fmtbuf then none
  else
    let printf := (fmtbuf.getLast?.bind (formatArg strftime e)).map fun (conversion, arg) =>
      (fmtbuf.dropLast ++ conversion, arg)
    some (.specifier fmtbuf printf, format.drop len)

theorem formatOne_rest {strftime : BitVec 64 → Bytes} {e : LogEntry} {format rest : Bytes}
    {event : DisplayEvent} (h : formatOne strftime e format = some (event, rest)) :
    rest = format.drop (specifierLen format) := by
  unfold formatOne at h
  dsimp only at h
  split at h
  · cases h
  · split at h
    · cases h
    · exact (congrArg Prod.snd (Option.some.inj h)).symm

/-- How `display` ends: behind the format, at a specifier that is rejected, or because there was
none and it goes on behind the NUL. -/
inductive DisplayEnd
  | newline
  | rejected
  | beyond
  deriving DecidableEq, Repr

def display (strftime : BitVec 64 → Bytes) (e : LogEntry) (format : Bytes) :
    List DisplayEvent × DisplayEnd :=
  match format with
  | [] => ([], .newline)
  | c :: rest =>
    if c = '%'.toUInt8 then
      match _h : formatOne strftime e (c :: rest) with
      | none => ([], .rejected)
      | some (event, []) => ([event], .beyond)
      | some (event, _ :: rest') =>
        let (events, ending) := display strftime e rest'
        (event :: events, ending)
    else
      let (events, ending) := display strftime e rest
      (.putchar c :: events, ending)
termination_by format.length
decreasing_by
  · have hrest := congrArg List.length (formatOne_rest _h)
    rw [List.length_cons, List.length_drop] at hrest
    omega
  · exact Nat.lt_succ_self _

/-! ## 2. What they have in common -/

/-- The specifiers of a format, each from its `%` on; `pending` is what has been seen of one. -/
def specifiersFrom (pending : Option Bytes) : Bytes → List Bytes
  | [] => []
  | c :: rest =>
    match pending with
    | some text =>
      if c ∈ formatSpecifiers then (text ++ [c]) :: specifiersFrom none rest
      else specifiersFrom (some (text ++ [c])) rest
    | none => specifiersFrom (if c = '%'.toUInt8 then some [c] else none) rest

/-- The character that ends a specifier. -/
def specifierChar (text : Bytes) : Byte := text.getLastD 0

/-- The specifiers that are acted on. -/
def acted (events : List DisplayEvent) : List Bytes :=
  events.filterMap fun event =>
    match event with
    | .specifier text _ => some text
    | .putchar _ => none

/-- The field whose member is printed for a character. -/
def printedField (c : Byte) : Option QueryField :=
  switch [('a', .access), ('c', .client), ('d', .dev), ('f', .fd), ('g', .gid), ('G', .tag),
    ('i', .inode), ('m', .mode), ('M', .mode), ('o', .op), ('p', .path), ('r', .result),
    ('R', .program), ('s', .stamp), ('S', .severity), ('t', .mode), ('T', .text), ('u', .uid),
    ('y', .type)] c

/-! ## 3. The scanner -/

variable {strftime : BitVec 64 → Bytes} {e e' : LogEntry} {format text rest : Bytes}
  {pending : Option Bytes} {fields fields' : Nat} {c : Byte}

namespace LogDisplayLemmas

theorem specifierChar_append (text : Bytes) (c : Byte) : specifierChar (text ++ [c]) = c := by
  rw [specifierChar, List.getLastD_concat]

theorem formatSpecifiers_eq : formatSpecifiers =
    [97, 99, 100, 102, 103, 71, 105, 109, 77, 111, 112, 114, 82, 115, 83, 116, 84, 117, 121] := rfl

theorem specifier_cases (hc : c ∈ formatSpecifiers) :
    c = 97 ∨ c = 99 ∨ c = 100 ∨ c = 102 ∨ c = 103 ∨ c = 71 ∨ c = 105 ∨ c = 109 ∨ c = 77 ∨ c = 111 ∨
      c = 112 ∨ c = 114 ∨ c = 82 ∨ c = 115 ∨ c = 83 ∨ c = 116 ∨ c = 84 ∨ c = 117 ∨ c = 121 := by
  rw [formatSpecifiers_eq] at hc
  simpa only [List.mem_cons, List.not_mem_nil, or_false] using hc

/-- For each specifier, the field in `opt_to_field` and the one that is printed. -/
theorem specifier_fields (hc : c ∈ formatSpecifiers) : ∃ f ∈ displayed, printedField c = some f ∧
    (optToField c = f ∨ f = .mode ∧ (optToField c = .perm ∨ optToField c = .ftype)) := by
  rcases specifier_cases hc with rfl | rfl | rfl | rfl | rfl | rfl | rfl | rfl | rfl | rfl | rfl |
    rfl | rfl | rfl | rfl | rfl | rfl | rfl | rfl
  -- the permissions and the file type are bits of the mode
  all_goals
    first
    | exact ⟨_, by decide, rfl, .inl rfl⟩
    | exact ⟨.mode, by decide, rfl, .inr ⟨rfl, .inl rfl⟩⟩
    | exact ⟨.mode, by decide, rfl, .inr ⟨rfl, .inr rfl⟩⟩

/-- A specifier sets the bit of the field that is printed for it. -/
theorem formatField_sets (fields : Nat) (hc : c ∈ formatSpecifiers) :
    ∃ f, printedField c = some f ∧ formatField fields c = some (fields ||| 1 <<< f.toNat) := by
  obtain ⟨f, hf, hprinted, hfield⟩ := specifier_fields hc
  refine ⟨f, hprinted, ?_⟩
  unfold formatField
  rcases hfield with hfield | ⟨rfl, hfield | hfield⟩
  · rw [hfield]
    revert hf
    cases f <;> first | exact fun _ => rfl | exact fun hf => absurd hf (by decide)
  · rw [hfield]
  · rw [hfield]

/-- Then the bit stays set. -/
theorem foldlM_sets {texts : List Bytes}
    (hall : ∀ text ∈ texts, specifierChar text ∈ formatSpecifiers)
    (h : texts.foldlM (fun fields text => formatField fields (specifierChar text)) fields =
      some fields') :
    (∀ i, fields.testBit i = true → fields'.testBit i = true) ∧
      ∀ text ∈ texts, ∃ f, printedField (specifierChar text) = some f ∧
        fields'.testBit f.toNat = true := by
  induction texts generalizing fields with
  | nil =>
    cases h
    exact ⟨fun _ hi => hi, fun text htext => absurd htext List.not_mem_nil⟩
  | cons text texts ih =>
    obtain ⟨hchar, hall⟩ := List.forall_mem_cons.mp hall
    obtain ⟨f, hprinted, hfield⟩ := formatField_sets fields hchar
    rw [List.foldlM_cons, hfield] at h
    obtain ⟨hkeep, hrest⟩ := ih hall h
    refine ⟨fun i hi => hkeep i (by rw [Nat.testBit_or, hi, Bool.true_or]), ?_⟩
    refine List.forall_mem_cons.mpr ⟨⟨f, hprinted, hkeep _ ?_⟩, hrest⟩
    rw [Nat.testBit_or, Nat.one_shiftLeft, Nat.testBit_two_pow_self, Bool.or_true]

theorem specifiersFrom_chars (pending : Option Bytes) (format : Bytes) :
    ∀ text ∈ specifiersFrom pending format, specifierChar text ∈ formatSpecifiers := by
  induction format generalizing pending with
  | nil => exact fun text htext => absurd htext List.not_mem_nil
  | cons c rest ih =>
    cases pending with
    | none =>
      rw [specifiersFrom]
      exact ih _
    | some text =>
      simp only [specifiersFrom]
      split
      · next hc =>
        refine List.forall_mem_cons.mpr ⟨?_, ih none⟩
        rwa [specifierChar_append]
      · exact ih _

end LogDisplayLemmas

open LogDisplayLemmas

/-- `format_scan` adds up what its specifiers set. -/
theorem scanFrom_eq (pending : Option Bytes)
    (h : scanFrom fields pending.isSome format = some fields') :
    (specifiersFrom pending format).foldlM
      (fun fields text => formatField fields (specifierChar text)) fields = some fields' := by
  induction format generalizing fields pending with
  | nil =>
    rw [scanFrom] at h
    split at h
    · cases h
    · exact h
  | cons c rest ih =>
    rw [scanFrom] at h
    cases pending with
    | none =>
      rw [if_neg (fun hc => Bool.false_ne_true hc.1)] at h
      rw [specifiersFrom]
      refine ih _ ?_
      rcases Decidable.em (c = '%'.toUInt8) with hc | hc
      · rw [hc, beq_self_eq_true] at h
        rw [if_pos hc]
        exact h
      · rw [beq_eq_false_iff_ne.mpr hc] at h
        rw [if_neg hc]
        exact h
    | some text =>
      simp only [specifiersFrom]
      split at h
      · next hc =>
        obtain ⟨mid, hmid, hrest⟩ := Option.bind_eq_some_iff.mp h
        rw [if_pos hc.2, List.foldlM_cons, specifierChar_append, hmid]
        exact ih none hrest
      · next hc =>
        rw [if_neg fun hmem => hc ⟨rfl, hmem⟩]
        exact ih (some (text ++ [c])) h

/-! ## 4. The printer -/

namespace LogDisplayLemmas

/-- Inside a specifier, the scanner gets to its last character. -/
theorem exists_specifier (h : scanFrom fields true rest = some fields') :
    ∃ pre s after mid, rest = pre ++ s :: after ∧ (∀ c ∈ pre, c ∉ formatSpecifiers) ∧
      s ∈ formatSpecifiers ∧ scanFrom mid false after = some fields' := by
  induction rest with
  | nil => cases h
  | cons c rest ih =>
    rw [scanFrom] at h
    split at h
    · next hc =>
      obtain ⟨mid, -, hrest⟩ := Option.bind_eq_some_iff.mp h
      exact ⟨[], c, rest, mid, rfl, fun _ hmem => absurd hmem List.not_mem_nil, hc.2, hrest⟩
    · next hc =>
      obtain ⟨pre, s, after, mid, rfl, hpre, hs, hafter⟩ := ih h
      have hne : c ∉ formatSpecifiers := fun hmem => hc ⟨rfl, hmem⟩
      exact ⟨c :: pre, s, after, mid, rfl, List.forall_mem_cons.mpr ⟨hne, hpre⟩, hs, hafter⟩

variable {pre after : Bytes} {s : Byte}

theorem specifiersFrom_some (text : Bytes) (hpre : ∀ c ∈ pre, c ∉ formatSpecifiers)
    (hs : s ∈ formatSpecifiers) :
    specifiersFrom (some text) (pre ++ s :: after) =
      (text ++ pre ++ [s]) :: specifiersFrom none after := by
  induction pre generalizing text with
  | nil => simp only [List.nil_append, List.append_nil, specifiersFrom, if_pos hs]
  | cons c pre ih =>
    obtain ⟨hc, hpre⟩ := List.forall_mem_cons.mp hpre
    rw [List.cons_append, specifiersFrom]
    simp only [if_neg hc]
    rw [ih (text ++ [c]) hpre, List.append_assoc text, List.singleton_append]

theorem specifierLen_eq (hpre : ∀ c ∈ pre, c ∉ formatSpecifiers) (hs : s ∈ formatSpecifiers) :
    specifierLen (pre ++ s :: after) = pre.length := by
  rw [specifierLen, List.takeWhile_append_of_pos (by simpa using hpre),
    List.takeWhile_cons_of_neg (by simpa using hs), List.append_nil]

/-- `fmtbuf` ends with the specifier. -/
theorem take_specifier (pre : Bytes) (s : Byte) (after : Bytes) :
    (pre ++ s :: after).take (pre.length + 1) = pre ++ [s] := by
  rw [List.take_length_add_append, List.take_succ_cons, List.take_zero]

/-- `format_one` acts on the text up to the specifier, if it does not reject it. -/
theorem formatOne_eq (hpre : ∀ c ∈ pre, c ∉ formatSpecifiers)
    (hs : s ∈ formatSpecifiers) :
    formatOne strftime e (pre ++ s :: after) = none ∨
      formatOne strftime e (pre ++ s :: after) =
        some (.specifier (pre ++ [s]) ((formatArg strftime e s).map fun (conversion, arg) =>
          (pre ++ conversion, arg)), s :: after) := by
  unfold formatOne
  simp only [specifierLen_eq hpre hs, take_specifier]
  split
  · exact .inl rfl
  · split
    · exact .inl rfl
    · right
      simp

/-- `%` is no specifier itself. -/
theorem percent_pre (hpre : ∀ c ∈ pre, c ∉ formatSpecifiers) :
    ∀ c ∈ '%'.toUInt8 :: pre, c ∉ formatSpecifiers :=
  List.forall_mem_cons.mpr ⟨by decide, hpre⟩

theorem display_percent (strftime : BitVec 64 → Bytes) (e : LogEntry) (rest : Bytes) :
    display strftime e ('%'.toUInt8 :: rest) =
      match formatOne strftime e ('%'.toUInt8 :: rest) with
      | none => ([], .rejected)
      | some (event, []) => ([event], .beyond)
      | some (event, _ :: after) =>
        (event :: (display strftime e after).1, (display strftime e after).2) := by
  rw [display, if_pos rfl]
  split
  · next heq => rw [heq]
  · next heq => rw [heq]
  · next heq => rw [heq]

theorem display_char (e : LogEntry) (hc : c ≠ '%'.toUInt8) :
    display strftime e (c :: rest) =
      (.putchar c :: (display strftime e rest).1, (display strftime e rest).2) := by
  rw [display, if_neg hc]

end LogDisplayLemmas

/-- `display` acts on the specifiers that `format_scan` has seen, from the first one on, and does
not get behind the format. -/
theorem acted_prefix (strftime : BitVec 64 → Bytes) (e : LogEntry)
    (h : scanFrom fields false format = some fields') :
    acted (display strftime e format).1 <+: specifiersFrom none format ∧
      (display strftime e format).2 ≠ .beyond := by
  induction hlen : format.length using Nat.strongRecOn generalizing format fields with
  | ind n ih =>
    cases format with
    | nil =>
      rw [display]
      exact ⟨List.nil_prefix, by decide⟩
    | cons c rest =>
      rw [scanFrom, if_neg (fun hc => Bool.false_ne_true hc.1), Bool.false_or] at h
      rw [specifiersFrom]
      rcases Decidable.em (c = '%'.toUInt8) with rfl | hc
      · obtain ⟨pre, s, after, mid, rfl, hpre, hs, hafter⟩ := exists_specifier h
        rw [if_pos rfl, specifiersFrom_some _ hpre hs]
        rw [display_percent, ← List.cons_append]
        rcases formatOne_eq (percent_pre hpre) hs with hno | hok
        · rw [hno]
          refine ⟨List.nil_prefix, fun hend => ?_⟩
          cases hend
        · obtain ⟨hacted, hend⟩ := ih after.length (by
            rw [← hlen, List.length_cons, List.length_append, List.length_cons]
            omega) hafter rfl
          rw [hok]
          exact ⟨List.cons_prefix_cons.mpr ⟨rfl, hacted⟩, hend⟩
      · rw [beq_eq_false_iff_ne.mpr hc] at h
        rw [if_neg hc, display_char e hc]
        exact ih rest.length (by rw [← hlen, List.length_cons]; omega) h rfl

/-! ## 5. What is printed -/

namespace LogDisplayLemmas

theorem member_int_inj {a b : BitVec 32} (h : LogValue.int (a.setWidth 64) = .int (b.setWidth 64)) :
    a = b := by
  have hback := congrArg (BitVec.setWidth 32) (LogValue.int.inj h)
  rwa [BitVec.setWidth_setWidth_of_le _ (by decide), BitVec.setWidth_setWidth_of_le _ (by decide),
    BitVec.setWidth_eq, BitVec.setWidth_eq] at hback

/-- What is printed for a character is read from one member. -/
theorem formatArg_member (strftime : BitVec 64 → Bytes) {f : QueryField}
    (hc : c ∈ formatSpecifiers) (hprinted : printedField c = some f)
    (hm : e'.member f = e.member f) : formatArg strftime e' c = formatArg strftime e c := by
  rcases specifier_cases hc with rfl | rfl | rfl | rfl | rfl | rfl | rfl | rfl | rfl | rfl | rfl |
    rfl | rfl | rfl | rfl | rfl | rfl | rfl | rfl
  all_goals
    cases hprinted
    -- the member is an `int`, a longer number or a string
    first
    | have hm := member_int_inj hm
      show some (_, _) = some (_, _)
      rw [hm]
    | have hm := LogValue.int.inj hm
      show some (_, _) = some (_, _)
      rw [hm]
    | have hm := LogValue.string.inj hm
      show some (_, _) = some (_, _)
      rw [hm]

/-- `format_one` reads nothing else of an entry. -/
theorem formatOne_congr {pre : Bytes} {s : Byte} (after : Bytes)
    (hpre : ∀ c ∈ pre, c ∉ formatSpecifiers) (hs : s ∈ formatSpecifiers)
    (h : formatArg strftime e' s = formatArg strftime e s) :
    formatOne strftime e' (pre ++ s :: after) = formatOne strftime e (pre ++ s :: after) := by
  unfold formatOne
  simp only [specifierLen_eq hpre hs, take_specifier, List.getLast?_concat, Option.bind_some, h]

end LogDisplayLemmas

/-- Two entries with the same arguments for all specifiers are displayed alike. -/
theorem display_congr (h : scanFrom fields false format = some fields')
    (hargs : ∀ text ∈ specifiersFrom none format,
      formatArg strftime e' (specifierChar text) = formatArg strftime e (specifierChar text)) :
    display strftime e' format = display strftime e format := by
  induction hlen : format.length using Nat.strongRecOn generalizing format fields with
  | ind n ih =>
    cases format with
    | nil => rw [display, display]
    | cons c rest =>
      rw [scanFrom, if_neg (fun hc => Bool.false_ne_true hc.1), Bool.false_or] at h
      rw [specifiersFrom] at hargs
      rcases Decidable.em (c = '%'.toUInt8) with rfl | hc
      · obtain ⟨pre, s, after, mid, rfl, hpre, hs, hafter⟩ := exists_specifier h
        rw [if_pos rfl, specifiersFrom_some _ hpre hs] at hargs
        obtain ⟨harg, hargs⟩ := List.forall_mem_cons.mp hargs
        rw [specifierChar_append] at harg
        have hone := formatOne_congr after (percent_pre hpre) hs harg
        rw [display_percent, display_percent, ← List.cons_append, hone]
        rcases formatOne_eq (percent_pre hpre) hs with hno | hok
        · rw [hno]
        · have hlt : after.length < n := by
            rw [← hlen, List.length_cons, List.length_append, List.length_cons]
            omega
          rw [hok]
          simp only [ih after.length hlt hafter hargs rfl]
      · rw [beq_eq_false_iff_ne.mpr hc] at h
        rw [if_neg hc] at hargs
        rw [display_char e hc, display_char e' hc,
          ih rest.length (by rw [← hlen, List.length_cons]; omega) h hargs rfl]

/-! ## 6. The three together -/

/-- For a format that is scanned: `display` acts on the specifiers that were seen, in order, up to
the first that is rejected; what it prints for one is read from a member whose bit is set, so that
entries with the same members there are displayed alike; and these members are filled from the
columns of the fields' names. -/
theorem display_reads_scanned (h : formatScan format = some fields)
    (strftime : BitVec 64 → Bytes) (e : LogEntry) :
    ((specifiersFrom none format).foldlM
        (fun fields text => formatField fields (specifierChar text)) 0 = some fields ∧
      acted (display strftime e format).1 <+: specifiersFrom none format ∧
      (display strftime e format).2 ≠ .beyond) ∧
    (∀ text ∈ acted (display strftime e format).1,
      ∃ f, printedField (specifierChar text) = some f ∧ fields.testBit f.toNat = true ∧
        ∀ e' : LogEntry, e'.member f = e.member f →
          formatArg strftime e' (specifierChar text) = formatArg strftime e (specifierChar text)) ∧
    (∀ e' : LogEntry, (∀ f : QueryField, fields.testBit f.toNat = true →
      e'.member f = e.member f) → display strftime e' format = display strftime e format) ∧
    ∀ traits unique sql s, (∀ t ∈ traits, PseudoQuery.Returned t) →
      queryText "SELECT".toList traits fields unique true = some sql →
      parseSelect (tokens sql) = some s → ∀ value : Text → ColumnValue,
        ∃ l, pdbHistoryEntry fields (s.columns.map value) = some l ∧
          ∀ f : QueryField, fields.testBit f.toNat = true →
            l.member f = (value f.name).stored f := by
  have hfold := scanFrom_eq none h
  obtain ⟨hacted, hend⟩ := acted_prefix strftime e h
  have hchars := specifiersFrom_chars none format
  obtain ⟨-, hsets⟩ := foldlM_sets hchars hfold
  refine ⟨⟨hfold, hacted, hend⟩, fun text htext => ?_, fun e' hsame => ?_, ?_⟩
  · have hseen := hacted.subset htext
    obtain ⟨f, hprinted, hset⟩ := hsets text hseen
    exact ⟨f, hprinted, hset, fun e' => formatArg_member strftime (hchars text hseen) hprinted⟩
  · refine display_congr h fun text htext => ?_
    obtain ⟨f, hprinted, hset⟩ := hsets text htext
    exact formatArg_member strftime (hchars text htext) hprinted (hsame f hset)
  · intro traits unique sql s htraits hsql hparse value
    have hdisplays := formatScan_displays h
    have hwell : ∀ t ∈ traits, t.WellTyped := fun t ht => returned_wellTyped (htraits t ht)
    obtain ⟨hnone, hsome⟩ := query_parses hwell hdisplays hsql
    have hasked : ¬ (askedFor fields = [] ∨ orderField .id traits = .order) := fun hbad => by
      rw [hnone hbad] at hparse
      cases hparse
    obtain ⟨hne, horder⟩ := not_or.mp hasked
    obtain ⟨s', hparse', hcolumns, -⟩ := hsome hne horder
    obtain rfl := Option.some.inj (hparse.symm.trans hparse')
    rw [hcolumns, List.map_map]
    exact pdbHistoryEntry_fills hdisplays value

theorem display_reads_scanned_owner :
    formatScan (ascii "%-5u%G".toList) = some 2359296 ∧
      acted (display (fun _ => []) .zero (ascii "%-5u%G".toList)).1 <+:
        specifiersFrom none (ascii "%-5u%G".toList) := by
  have hscan : formatScan (ascii "%-5u%G".toList) = some 2359296 := by decide
  exact ⟨hscan, (display_reads_scanned hscan _ _).1.2.1⟩

end Pseudo
