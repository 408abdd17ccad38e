import Constat.Lib.Dict
import Constat.Py.Error

/-!
# Py.Csv

`csv.DictReader` over an `io.StringIO`, with the default dialect: the reader's state machine goes
through the lines of the text a character at a time, then an end of line (`none`). A record ends
with the line that leaves it at its start again, so a line break within quotes makes its number go
up.

* `readLines`       — the records, up to the first one that is refused.
* `dictRow`         — the cells by the names of the header.
* `rows_increasing` — each row ends on a later line than the one before.
-/

namespace Constat

namespace Py

namespace Csv

inductive State where
  | startRecord
  | startField
  | inField
  | inQuotedField
  | quoteInQuotedField
  | eatCrnl
deriving DecidableEq

/-- `field` are the characters of the field so far. -/
structure Parser where
  state : State
  fields : List String
  field : List Char

def Parser.start : Parser := ⟨.startRecord, [], []⟩

/-- `csv.field_size_limit()`. -/
def fieldLimit : Nat := 131072

def fieldTooLarge : PyError := ⟨"Error", "field larger than field limit (131072)"⟩

def newlineInField : PyError :=
  ⟨"Error", "new-line character seen in unquoted field - " ++
    "do you need to open the file with newline=''?"⟩

def Parser.saveField (p : Parser) (state : State) : Parser :=
  ⟨state, p.fields ++ [String.ofList p.field], []⟩

def Parser.addChar (p : Parser) (c : Char) (state : State) : Except PyError Parser :=
  if fieldLimit ≤ p.field.length then .error fieldTooLarge
  else .ok ⟨state, p.fields, p.field ++ [c]⟩

def isNewline (c : Char) : Bool := c = '\n' || c = '\r'

/-- A character where a field is expected. -/
def startField (p : Parser) (c : Char) : Except PyError Parser :=
  if isNewline c then .ok (p.saveField .eatCrnl)
  else if c = '"' then .ok { p with state := .inQuotedField }
  else if c = ',' then .ok (p.saveField .startField)
  else p.addChar c .inField

def processChar (p : Parser) (c : Char) : Except PyError Parser :=
  match p.state with
  | .startRecord => if isNewline c then .ok { p with state := .eatCrnl } else startField p c
  | .startField => startField p c
  | .inField =>
    if isNewline c then .ok (p.saveField .eatCrnl)
    else if c = ',' then .ok (p.saveField .startField)
    else p.addChar c .inField
  | .inQuotedField =>
    if c = '"' then .ok { p with state := .quoteInQuotedField } else p.addChar c .inQuotedField
  | .quoteInQuotedField =>
    if c = '"' then p.addChar c .inQuotedField
    else if c = ',' then .ok (p.saveField .startField)
    else if isNewline c then .ok (p.saveField .eatCrnl)
    else p.addChar c .inField
  | .eatCrnl => if isNewline c then .ok p else .error newlineInField

def processEol (p : Parser) : Parser :=
  match p.state with
  | .startRecord | .inQuotedField => p
  | .startField | .inField | .quoteInQuotedField => p.saveField .startRecord
  | .eatCrnl => { p with state := .startRecord }

/-- `line` is the reader's `line_num` once it has returned the record. -/
structure Record where
  line : Nat
  cells : List String
deriving DecidableEq

structure Reading where
  records : List Record
  error : Option PyError
deriving DecidableEq

/-- The lines of a text, each with its line break. -/
def lines : List Char → List (List Char)
  | [] => []
  | c :: cs =>
    if c = '\n' then [c] :: lines cs
    else
      match lines cs with
      | [] => [[c]]
      | line :: rest => (c :: line) :: rest

/-- The records from line `n` on. The end of the text ends a field that is being read. -/
def readLines : List (List Char) → Parser → Nat → Reading
  | [], p, n =>
    if p.field = [] ∧ p.state ≠ .inQuotedField then ⟨[], none⟩
    else ⟨[⟨n, (p.saveField .startRecord).fields⟩], none⟩
  | line :: rest, p, n =>
    match line.foldlM processChar p with
    | .error e => ⟨[], some e⟩
    | .ok p =>
      let p := processEol p
      if p.state = .startRecord then
        let reading := readLines rest .start (n + 1)
        ⟨⟨n + 1, p.fields⟩ :: reading.records, reading.error⟩
      else readLines rest p (n + 1)

def read (text : String) : Reading := readLines (lines text.toList) .start 0

/-- The first record; none of an empty text. -/
def Reading.fieldnames (reading : Reading) : Option (List String) :=
  reading.records.head?.map (·.cells)

abbrev Row := Dict String (Option String)

/-- `dict(zip(fieldnames, cells))`; the names that have no cell left have None. -/
def dictRow (fieldnames cells : List String) : Row :=
  let padded := cells.map some ++ List.replicate (fieldnames.length - cells.length) none
  (fieldnames.zip padded).foldl (fun row p => row.set p.1 p.2) .empty

/-- The rows, each with the number of the line it ends on; blank ones are left out. -/
def Reading.rows (reading : Reading) : List (Nat × Row) :=
  (reading.records.tail.filter fun record => record.cells ≠ []).map fun record =>
    (record.line, dictRow (reading.fieldnames.getD []) record.cells)

example : read "a,\"b\nc\"\r\n\n\"d\"\"e\" f,g" =
    ⟨[⟨2, ["a", "b\nc"]⟩, ⟨3, []⟩, ⟨4, ["d\"e f", "g"]⟩], none⟩ := by decide +kernel

/-! ## Line numbers -/

/-- A record ends past line `n`, unless it is what was being read when the text ended there. -/
theorem le_line {rest : List (List Char)} : ∀ {p : Parser} {n : Nat},
    ∀ record ∈ (readLines rest p n).records, n ≤ record.line ∧
      (p.field = [] ∧ p.state ≠ .inQuotedField → n < record.line) := by
  induction rest with
  | nil =>
    intro p n record hrecord
    rw [readLines] at hrecord
    split at hrecord
    · cases hrecord
    · rename_i hreading
      obtain rfl := List.mem_singleton.1 hrecord
      exact ⟨Nat.le_refl n, fun hidle => absurd hidle hreading⟩
  | cons line rest ih =>
    intro p n record hrecord
    have hlater : n < record.line := by
      rw [readLines] at hrecord
      split at hrecord
      · cases hrecord
      · simp only at hrecord
        split at hrecord
        · rcases List.mem_cons.1 hrecord with rfl | hrecord
          · exact Nat.lt_succ_self n
          · exact (ih record hrecord).1
        · exact (ih record hrecord).1
    exact ⟨Nat.le_of_lt hlater, fun _ => hlater⟩

theorem records_increasing {rest : List (List Char)} : ∀ {p : Parser} {n : Nat},
    ((readLines rest p n).records.map (·.line)).Pairwise (· < ·) := by
  induction rest with
  | nil =>
    intro p n
    rw [readLines]
    split
    · exact List.Pairwise.nil
    · exact List.pairwise_singleton _ _
  | cons line rest ih =>
    intro p n
    rw [readLines]
    split
    · exact List.Pairwise.nil
    · simp only
      split
      · refine List.pairwise_cons.2 ⟨fun later hlater => ?_, ih⟩
        obtain ⟨record, hrecord, rfl⟩ := List.mem_map.1 hlater
        exact (le_line record hrecord).2 ⟨rfl, by decide⟩
      · exact ih

/-- No two rows end on one line. -/
theorem rows_increasing (text : String) : ((read text).rows.map (·.1)).Pairwise (· < ·) := by
  have hall : ((read text).records.map (·.line)).Pairwise (· < ·) := records_increasing
  have hrows : ((read text).records.tail.filter fun record => record.cells ≠ []).Sublist
      (read text).records := List.filter_sublist.trans (List.tail_sublist _)
  have hsub := hall.sublist (hrows.map (·.line))
  simpa [Reading.rows, Function.comp_def] using hsub

end Csv

end Py

end Constat
