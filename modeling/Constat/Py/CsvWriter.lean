import Constat.Py.Csv

/-!
# Py.CsvWriter

`csv.writer` with the default quoting: a field is put between quotes if it has the delimiter, the
quote or a line break in it, and a row that would be an empty line has its one field quoted. What it
writes `Py.Csv` reads back.

* `writerow`     — the text of a row with its line terminator.
* `feed`         — the reader a character at a time, line breaks included.
* `feed_field`   — a written field is read as the field it is of.
* `read_written` — the rows that are read are those that were written.
-/

namespace Constat

namespace Py

namespace Csv

/-- `lineterminator` of the writer: the one given, or the default. -/
inductive LineTerminator where
  | newline
  | crlf
deriving DecidableEq

def LineTerminator.text : LineTerminator → List Char
  | .newline => ['\n']
  | .crlf => ['\r', '\n']

def special (c : Char) : Bool := c = ',' || c = '"' || isNewline c

def doubled (cs : List Char) : List Char := cs.flatMap fun c => if c = '"' then ['"', '"'] else [c]

def quotedText (cs : List Char) : List Char := '"' :: (doubled cs ++ ['"'])

def fieldText (s : String) : List Char :=
  if s.toList.any special then quotedText s.toList else s.toList

def joined : List String → List Char
  | [] => []
  | [s] => fieldText s
  | s :: rest => fieldText s ++ ',' :: joined rest

def writerow (lt : LineTerminator) (row : List String) : List Char :=
  (if joined row = [] ∧ row ≠ [] then quotedText [] else joined row) ++ lt.text

def written (lt : LineTerminator) (rows : List (List String)) : String :=
  String.ofList (rows.flatMap (writerow lt))

/-! ## A character at a time -/

/-- What is read of a text that ends with a line break, from within a line on. -/
def feed : List Char → Parser → Nat → Reading
  | [], p, n => readLines [] p n
  | c :: cs, p, n =>
    match processChar p c with
    | .error e => ⟨[], some e⟩
    | .ok p =>
      if c = '\n' then
        let p := processEol p
        if p.state = .startRecord then
          let reading := feed cs .start (n + 1)
          ⟨⟨n + 1, p.fields⟩ :: reading.records, reading.error⟩
        else feed cs p (n + 1)
      else feed cs p n

theorem lines_line {line : List Char} (hline : '\n' ∉ line) (rest : List Char) :
    lines (line ++ '\n' :: rest) = (line ++ ['\n']) :: lines rest := by
  induction line with
  | nil => rw [List.nil_append, List.nil_append, lines, if_pos rfl]
  | cons c line ih =>
    rw [List.mem_cons, not_or] at hline
    rw [List.cons_append, lines, if_neg fun h => hline.1 h.symm, ih hline.2, List.cons_append]

/-- A text is blank, or ends with a line break. -/
def Terminated (cs : List Char) : Prop := cs = [] ∨ cs.getLast? = some '\n'

theorem Terminated.tail {c : Char} {cs : List Char} (h : Terminated (c :: cs)) :
    cs = [] ∧ c = '\n' ∨ cs ≠ [] ∧ Terminated cs := by
  rcases h with h | h
  · cases h
  · cases cs with
    | nil => exact .inl ⟨rfl, by simpa using h⟩
    | cons d ds => exact .inr ⟨by simp, .inr (by simpa using h)⟩

/-- `before` is what has been read of the line. -/
theorem readLines_feed {cs : List Char} : ∀ {before : List Char} {p q : Parser} {n : Nat},
    Terminated cs → (cs = [] → before = []) → '\n' ∉ before →
    before.foldlM processChar p = .ok q →
    readLines (lines (before ++ cs)) p n = feed cs q n := by
  induction cs with
  | nil =>
    intro before p q n _ hnil _ hfold
    obtain rfl := hnil rfl
    cases hfold
    rfl
  | cons c cs ih =>
    intro before p q n hterm _ hbefore hfold
    have hsnoc : (before ++ [c]).foldlM processChar p = processChar q c := by
      rw [List.foldlM_append, hfold]
      simp [List.foldlM, bind, Except.bind]
      cases processChar q c <;> rfl
    by_cases hc : c = '\n'
    · subst hc
      rw [lines_line hbefore, readLines, hsnoc, feed]
      cases processChar q '\n' with
      | error e => rfl
      | ok q' =>
        have htail : Terminated cs := by
          rcases hterm.tail with ⟨rfl, _⟩ | ⟨_, h⟩
          · exact .inl rfl
          · exact h
        have hrest : ∀ p', readLines (lines cs) p' (n + 1) = feed cs p' (n + 1) := fun p' =>
          ih htail (fun _ => rfl) List.not_mem_nil rfl
        simp only [hrest, if_true]
    · rcases hterm.tail with ⟨_, rfl⟩ | ⟨hne, htail⟩
      · exact absurd rfl hc
      · rw [feed]
        cases hstep : processChar q c with
        | error e =>
          -- the rest of the line is not looked at
          have hmem : '\n' ∈ cs := by
            rcases htail with h | h
            · exact absurd h hne
            · exact List.mem_of_getLast? h
          obtain ⟨line, rest, rfl, hline⟩ := List.eq_append_cons_of_mem hmem
          have hfree : '\n' ∉ before ++ c :: line := by
            rw [List.mem_append, List.mem_cons, not_or, not_or]
            exact ⟨hbefore, fun h => hc h.symm, hline⟩
          have hall := lines_line hfree rest
          rw [List.append_assoc, List.cons_append] at hall
          have herr : (before ++ c :: line ++ ['\n']).foldlM processChar p = .error e := by
            rw [List.append_assoc, List.cons_append, List.append_cons, List.foldlM_append,
              hsnoc, hstep]
            rfl
          rw [hall, readLines, herr]
        | ok q' =>
          have hnew : '\n' ∉ before ++ [c] := by
            rw [List.mem_append, List.mem_singleton, not_or]
            exact ⟨hbefore, fun h => hc h.symm⟩
          have hgo := ih (n := n) htail (fun h => absurd h hne) hnew (hsnoc.trans hstep)
          rw [List.append_assoc, List.singleton_append] at hgo
          simp only [hgo, if_neg hc]

/-! ## A field -/

variable {fields : List String} {field cs rest : List Char} {n : Nat}

theorem feed_char {p q : Parser} {c : Char} (hstep : processChar p c = .ok q) (hc : c ≠ '\n') :
    feed (c :: cs) p n = feed cs q n := by
  rw [feed, hstep]
  simp only [if_neg hc]

/-- A line break within a record. -/
theorem feed_within {p q : Parser} (hstep : processChar p '\n' = .ok q)
    (hq : (processEol q).state ≠ .startRecord) :
    feed ('\n' :: cs) p n = feed cs (processEol q) (n + 1) := by
  rw [feed, hstep]
  simp only [if_true, if_neg hq]

theorem feed_end {p q : Parser} (hstep : processChar p '\n' = .ok q)
    (hq : (processEol q).state = .startRecord) : feed ('\n' :: cs) p n =
      ⟨⟨n + 1, (processEol q).fields⟩ :: (feed cs .start (n + 1)).records,
        (feed cs .start (n + 1)).error⟩ := by
  rw [feed, hstep]
  simp only [if_true, if_pos hq]

theorem feed_doubled : ∀ {field : List Char} {n : Nat}, field.length + cs.length ≤ fieldLimit →
    feed (doubled cs ++ rest) ⟨.inQuotedField, fields, field⟩ n =
      feed rest ⟨.inQuotedField, fields, field ++ cs⟩ (n + cs.count '\n') := by
  induction cs with
  | nil => intro field n _; simp [doubled]
  | cons c cs ih =>
    intro field n hlen
    rw [List.length_cons] at hlen
    have hroom : ¬ fieldLimit ≤ field.length := by omega
    have hnext : (field ++ [c]).length + cs.length ≤ fieldLimit := by
      rw [List.length_append, List.length_singleton]
      omega
    have hgo : ∀ m, feed (doubled cs ++ rest) ⟨.inQuotedField, fields, field ++ [c]⟩ m =
        feed rest ⟨.inQuotedField, fields, field ++ c :: cs⟩ (m + cs.count '\n') := by
      intro m
      rw [ih hnext, List.append_assoc, List.singleton_append]
    by_cases hquote : c = '"'
    · subst hquote
      have htext : doubled ('"' :: cs) = '"' :: '"' :: doubled cs := rfl
      have hsecond : processChar ⟨.quoteInQuotedField, fields, field⟩ '"' =
          .ok ⟨.inQuotedField, fields, field ++ ['"']⟩ := by
        simp [processChar, Parser.addChar, hroom]
      rw [htext, List.cons_append, List.cons_append, feed_char rfl (by decide),
        feed_char hsecond (by decide), hgo, List.count_cons_of_ne (by decide)]
    · have htext : doubled (c :: cs) = c :: doubled cs := by
        simp [doubled, hquote]
      have hstep : processChar ⟨.inQuotedField, fields, field⟩ c =
          .ok ⟨.inQuotedField, fields, field ++ [c]⟩ := by
        simp [processChar, Parser.addChar, hroom, hquote]
      rw [htext, List.cons_append]
      by_cases hbreak : c = '\n'
      · subst hbreak
        have hgo' := hgo (n + 1)
        rw [Nat.add_right_comm, Nat.add_assoc] at hgo'
        rw [feed_within hstep (by simp [processEol]), List.count_cons_self]
        exact hgo'
      · rw [feed_char hstep hbreak, hgo, List.count_cons_of_ne hbreak]

theorem feed_plain (hplain : cs.any special = false) : ∀ {field : List Char},
    field.length + cs.length ≤ fieldLimit →
    feed (cs ++ rest) ⟨.inField, fields, field⟩ n = feed rest ⟨.inField, fields, field ++ cs⟩ n := by
  induction cs with
  | nil => intro field _; simp
  | cons c cs ih =>
    intro field hlen
    rw [List.length_cons] at hlen
    rw [List.any_cons, Bool.or_eq_false_iff] at hplain
    obtain ⟨hc, hcs⟩ := hplain
    simp only [special, Bool.or_eq_false_iff, decide_eq_false_iff_not] at hc
    have hstep : processChar ⟨.inField, fields, field⟩ c =
        .ok ⟨.inField, fields, field ++ [c]⟩ := by
      have hroom : ¬ fieldLimit ≤ field.length := by omega
      simp [processChar, Parser.addChar, hroom, hc]
    have hbreak : c ≠ '\n' := by
      rintro rfl
      simp [isNewline] at hc
    have hnext : (field ++ [c]).length + cs.length ≤ fieldLimit := by
      rw [List.length_append, List.length_singleton]
      omega
    rw [List.cons_append, feed_char hstep hbreak, ih hcs hnext, List.append_assoc,
      List.singleton_append]

/-- Where a field is expected. -/
def Expecting (state : State) : Prop := state = .startRecord ∨ state = .startField

theorem processChar_expecting {state : State} (h : Expecting state) {c : Char}
    (hc : isNewline c = false) :
    processChar ⟨state, fields, []⟩ c = startField ⟨state, fields, []⟩ c := by
  rcases h with rfl | rfl
  · simp [processChar, hc]
  · rfl

/-- A field that has been read and not saved. -/
structure ReadOf (s : String) (fields : List String) (state : State) (p : Parser) : Prop where
  field : p.field = s.toList
  fields : p.fields = fields
  state : p.state = .inField ∨ p.state = .quoteInQuotedField ∨ s = "" ∧ p.state = state

theorem feed_field (fields : List String) (s : String) (hlen : s.toList.length ≤ fieldLimit)
    {state : State} (hstate : Expecting state) (rest : List Char) (n : Nat) :
    ∃ p m, ReadOf s fields state p ∧
      feed (fieldText s ++ rest) ⟨state, fields, []⟩ n = feed rest p m := by
  rw [fieldText]
  by_cases hspecial : s.toList.any special = true
  · refine ⟨⟨.quoteInQuotedField, fields, s.toList⟩, n + s.toList.count '\n',
      ⟨rfl, rfl, .inr (.inl rfl)⟩, ?_⟩
    have hopen : processChar ⟨state, fields, []⟩ '"' = .ok ⟨.inQuotedField, fields, []⟩ := by
      rw [processChar_expecting hstate (by decide)]
      rfl
    have hlen' : ([] : List Char).length + s.toList.length ≤ fieldLimit := by simpa using hlen
    rw [if_pos hspecial, quotedText, List.cons_append, feed_char hopen (by decide),
      List.append_assoc, feed_doubled hlen', List.nil_append, List.singleton_append,
      feed_char rfl (by decide)]
  · rw [if_neg hspecial]
    rw [Bool.not_eq_true] at hspecial
    cases hs : s.toList with
    | nil =>
      have hnil : s = "" := String.toList_inj.1 hs
      exact ⟨⟨state, fields, []⟩, n, ⟨hs.symm, rfl, .inr (.inr ⟨hnil, rfl⟩)⟩, rfl⟩
    | cons c cs =>
      refine ⟨⟨.inField, fields, c :: cs⟩, n, ⟨hs.symm, rfl, .inl rfl⟩, ?_⟩
      rw [hs, List.any_cons, Bool.or_eq_false_iff] at hspecial
      obtain ⟨hc, hcs⟩ := hspecial
      simp only [special, Bool.or_eq_false_iff, decide_eq_false_iff_not] at hc
      have hfirst : processChar ⟨state, fields, []⟩ c = .ok ⟨.inField, fields, [c]⟩ := by
        rw [processChar_expecting hstate hc.2]
        simp [startField, Parser.addChar, hc, fieldLimit]
      have hbreak : c ≠ '\n' := by
        rintro rfl
        simp [isNewline] at hc
      have hroom : [c].length + cs.length ≤ fieldLimit := by
        rw [hs, List.length_cons] at hlen
        rw [List.length_singleton]
        omega
      rw [List.cons_append, feed_char hfirst hbreak, feed_plain hcs hroom]
      rfl

/-! ## A row -/

/-- What ends a field that has been read. -/
theorem feed_comma {s : String} {state : State} (hstate : Expecting state) {p : Parser}
    (hp : ReadOf s fields state p) :
    feed (',' :: cs) p n = feed cs ⟨.startField, fields ++ [s], []⟩ n := by
  have hstep : processChar p ',' = .ok (p.saveField .startField) := by
    rcases hp.state with h | h | ⟨_, h⟩
    · simp [processChar, h, isNewline]
    · simp [processChar, h]
    · rcases hstate with rfl | rfl
      · simp [processChar, h, isNewline, startField]
      · simp [processChar, h, startField, isNewline]
  rw [feed_char hstep (by decide), Parser.saveField, hp.field, hp.fields, String.ofList_toList]

theorem saved {p : Parser} {s : String} {state : State} (hp : ReadOf s fields state p)
    (hlast : s = "" → state = .startField) {c : Char} (hc : isNewline c = true) :
    processChar p c = .ok ⟨.eatCrnl, fields ++ [s], []⟩ := by
  have hsave : p.saveField .eatCrnl = ⟨.eatCrnl, fields ++ [s], []⟩ := by
    rw [Parser.saveField, hp.field, hp.fields, String.ofList_toList]
  have hquote : c ≠ '"' ∧ c ≠ ',' := by
    constructor <;> (rintro rfl; simp [isNewline] at hc)
  rw [← hsave]
  rcases hp.state with h | h | ⟨hs, h⟩
  · simp [processChar, h, hc]
  · simp [processChar, h, hc, hquote]
  · rw [hlast hs] at h
    simp [processChar, h, startField, hc]

/-- A terminator after a field that has been read ends the record. -/
theorem feed_terminator (lt : LineTerminator) {p : Parser} {row : List String}
    (hp : ∀ c, isNewline c = true → processChar p c = .ok ⟨.eatCrnl, row, []⟩) (rest : List Char)
    (n : Nat) : ∃ m, feed (lt.text ++ rest) p n =
      ⟨⟨m, row⟩ :: (feed rest .start m).records, (feed rest .start m).error⟩ := by
  have hsecond : processChar ⟨.eatCrnl, row, []⟩ '\n' = .ok ⟨.eatCrnl, row, []⟩ := rfl
  refine ⟨n + 1, ?_⟩
  cases lt with
  | newline => exact feed_end (hp '\n' rfl) rfl
  | crlf =>
    have hreturn : feed ('\r' :: '\n' :: rest) p n = feed ('\n' :: rest) ⟨.eatCrnl, row, []⟩ n :=
      feed_char (hp '\r' rfl) (by decide)
    exact hreturn.trans (feed_end hsecond rfl)

theorem feed_joined (lt : LineTerminator) {row : List String} (rest : List Char) :
    ∀ (fields : List String) {state : State} (n : Nat), Expecting state → row ≠ [] →
    (∀ s ∈ row, s.toList.length ≤ fieldLimit) → (row = [""] → state = .startField) →
    ∃ m, feed (joined row ++ (lt.text ++ rest)) ⟨state, fields, []⟩ n =
      ⟨⟨m, fields ++ row⟩ :: (feed rest .start m).records, (feed rest .start m).error⟩ := by
  induction row with
  | nil => intro fields state n _ h; exact absurd rfl h
  | cons s row ih =>
    intro fields state n hstate _ hlen hlast
    rw [List.forall_mem_cons] at hlen
    cases row with
    | nil =>
      obtain ⟨p, m, hp, hread⟩ := feed_field fields s hlen.1 hstate (lt.text ++ rest) n
      obtain ⟨m', hend⟩ := feed_terminator lt
        (fun c hc => saved hp (fun hs => hlast (hs ▸ rfl)) hc) rest m
      exact ⟨m', by rw [joined, hread, hend]⟩
    | cons s' row =>
      obtain ⟨p, m, hp, hread⟩ := feed_field fields s hlen.1 hstate
        (',' :: (joined (s' :: row) ++ (lt.text ++ rest))) n
      obtain ⟨m', hrow⟩ := ih (fields ++ [s]) m (.inr rfl) (by simp) hlen.2 fun _ => rfl
      refine ⟨m', ?_⟩
      rw [List.append_assoc, List.singleton_append] at hrow
      have htext : joined (s :: s' :: row) = fieldText s ++ ',' :: joined (s' :: row) := rfl
      rw [htext, List.append_assoc, List.cons_append, hread, feed_comma hstate hp, hrow]

theorem fieldText_eq_nil {s : String} (h : fieldText s = []) : s = "" := by
  rw [fieldText] at h
  split at h
  · cases h
  · exact String.toList_inj.1 h

theorem joined_eq_nil {row : List String} (h : joined row = []) (hne : row ≠ []) : row = [""] := by
  cases row with
  | nil => exact absurd rfl hne
  | cons s row =>
    cases row with
    | nil => rw [fieldText_eq_nil h]
    | cons s' row => simp [joined] at h

theorem feed_writerow (lt : LineTerminator) {row : List String}
    (hlen : ∀ s ∈ row, s.toList.length ≤ fieldLimit) (rest : List Char) (n : Nat) :
    ∃ m, feed (writerow lt row ++ rest) .start n =
      ⟨⟨m, row⟩ :: (feed rest .start m).records, (feed rest .start m).error⟩ := by
  rw [writerow, List.append_assoc]
  by_cases hempty : joined row = [] ∧ row ≠ []
  · -- the one field, which is empty, between quotes
    obtain rfl := joined_eq_nil hempty.1 hempty.2
    have hopen : feed (quotedText [] ++ (lt.text ++ rest)) .start n =
        feed ('"' :: (lt.text ++ rest)) ⟨.inQuotedField, [], []⟩ n := feed_char rfl (by decide)
    have hclose : feed ('"' :: (lt.text ++ rest)) ⟨.inQuotedField, [], []⟩ n =
        feed (lt.text ++ rest) ⟨.quoteInQuotedField, [], []⟩ n := feed_char rfl (by decide)
    have hp : ReadOf "" [] .startField ⟨.quoteInQuotedField, [], []⟩ :=
      ⟨rfl, rfl, .inr (.inl rfl)⟩
    rw [if_pos hempty, hopen, hclose]
    exact feed_terminator lt (fun c hc => saved hp (fun _ => rfl) hc) rest n
  · rw [if_neg hempty]
    by_cases hnil : row = []
    · subst hnil
      refine feed_terminator lt (fun c hc => ?_) rest n
      simp [processChar, Parser.start, hc]
    · have hblank : row = [""] → State.startRecord = .startField := by
        rintro rfl
        exact absurd ⟨rfl, by simp⟩ hempty
      exact feed_joined lt rest [] n (.inl rfl) hnil hlen hblank

/-! ## All rows -/

theorem terminated_written (lt : LineTerminator) (rows : List (List String)) :
    Terminated (rows.flatMap (writerow lt)) := by
  induction rows with
  | nil => exact .inl rfl
  | cons row rows ih =>
    rw [List.flatMap_cons]
    have hrow : (writerow lt row).getLast? = some '\n' := by
      cases lt <;> simp [writerow, LineTerminator.text]
    rcases ih with h | h
    · rw [h, List.append_nil]
      exact .inr hrow
    · exact .inr (by rw [List.getLast?_append, h]; rfl)

theorem feed_rows (lt : LineTerminator) {rows : List (List String)} : ∀ n : Nat,
    (∀ row ∈ rows, ∀ s ∈ row, s.toList.length ≤ fieldLimit) →
    (feed (rows.flatMap (writerow lt)) .start n).records.map (·.cells) = rows ∧
    (feed (rows.flatMap (writerow lt)) .start n).error = none := by
  induction rows with
  | nil => intro n _; exact ⟨rfl, rfl⟩
  | cons row rows ih =>
    intro n hlen
    rw [List.forall_mem_cons] at hlen
    obtain ⟨m, hrow⟩ := feed_writerow lt hlen.1 (rows.flatMap (writerow lt)) n
    obtain ⟨hrecords, herror⟩ := ih m hlen.2
    rw [List.flatMap_cons, hrow]
    exact ⟨by rw [List.map_cons, hrecords], herror⟩

/-- What is written is read back, whatever characters the fields have. -/
theorem read_written (lt : LineTerminator) {rows : List (List String)}
    (hlen : ∀ row ∈ rows, ∀ s ∈ row, s.toList.length ≤ fieldLimit) :
    (read (written lt rows)).records.map (·.cells) = rows ∧
    (read (written lt rows)).error = none := by
  have hread : read (written lt rows) = feed (rows.flatMap (writerow lt)) .start 0 := by
    rw [read, written, String.toList_ofList]
    exact readLines_feed (terminated_written lt rows) (fun _ => rfl) List.not_mem_nil rfl
  rw [hread]
  exact feed_rows lt 0 hlen

/-- The rows of what was written under a header. -/
theorem rows_written (lt : LineTerminator) {header : List String} {rows : List (List String)}
    (hlen : ∀ row ∈ header :: rows, ∀ s ∈ row, s.toList.length ≤ fieldLimit)
    (hrows : ∀ row ∈ rows, row ≠ []) :
    (read (written lt (header :: rows))).fieldnames = some header ∧
    (read (written lt (header :: rows))).rows.map (·.2) = rows.map (dictRow header) := by
  obtain ⟨hrecords, _⟩ := read_written lt hlen
  generalize read (written lt (header :: rows)) = reading at hrecords ⊢
  cases hlist : reading.records with
  | nil => rw [hlist] at hrecords; cases hrecords
  | cons record records =>
    rw [hlist, List.map_cons, List.cons.injEq] at hrecords
    obtain ⟨hheader, htail⟩ := hrecords
    have hnames : reading.fieldnames = some header := by
      rw [Reading.fieldnames, hlist, List.head?_cons, Option.map_some, hheader]
    have hall : ∀ record ∈ records, decide (record.cells ≠ []) = true := by
      intro record hrecord
      exact decide_eq_true (hrows _ (htail ▸ List.mem_map_of_mem hrecord))
    refine ⟨hnames, ?_⟩
    rw [Reading.rows, hnames, hlist, List.tail_cons, List.filter_eq_self.2 hall, ← htail]
    simp

end Csv

end Py

end Constat
