import Constat.Lib.Dict
import Constat.Py.Text

/-!
# Py.JsonText

JSON texts: `json.dumps(value)` with its defaults and `json.loads(text)`.

* `loads` — the reader. Each nested array or object takes a level of the interpreter's recursion
            limit; the loops over the entries of one take the length of the text as their bound.
* `dumps` — the writer; what is not printable ASCII is escaped.

A text holds no half of a surrogate pair: an escape of one by itself reads as U+FFFD.
-/

namespace Constat

namespace Py

/-- The class of a raised exception. -/
inductive Exc where
  | jsonDecodeError
  | valueError
  | keyError
  | typeError
  | attributeError
  | recursionError
deriving DecidableEq

namespace JsonText

abbrev Parsed (α : Type) := Except Exc (α × List Char)

def isJsonSpace (c : Char) : Bool := c ∈ [' ', '\t', '\n', '\r']

def skipSpace (cs : List Char) : List Char := cs.dropWhile isJsonSpace

/-! ## Strings -/

def hexValue (c : Char) : Option Nat :=
  if '0' ≤ c ∧ c ≤ '9' then some (c.toNat - 48)
  else if 'a' ≤ c ∧ c ≤ 'f' then some (c.toNat - 87)
  else if 'A' ≤ c ∧ c ≤ 'F' then some (c.toNat - 55)
  else none

def hex4 (a b c d : Char) : Option Nat :=
  match hexValue a, hexValue b, hexValue c, hexValue d with
  | some a, some b, some c, some d => some (4096 * a + 256 * b + 16 * c + d)
  | _, _, _, _ => none

/-- A character, or the half of a surrogate pair that an escape gives. -/
inductive Piece where
  | char (c : Char)
  | half (unit : Nat)

def pieceOf (unit : Nat) : Piece :=
  if 0xd800 ≤ unit ∧ unit < 0xe000 then .half unit else .char (Char.ofNat unit)

/-- A high half before a low half is one character. -/
def joinHalves : List Piece → List Char
  | [] => []
  | .char c :: rest => c :: joinHalves rest
  | .half high :: .half low :: rest =>
    if high < 0xdc00 ∧ 0xdc00 ≤ low then
      Char.ofNat (0x10000 + (high - 0xd800) * 0x400 + (low - 0xdc00)) :: joinHalves rest
    else '\ufffd' :: joinHalves (.half low :: rest)
  | .half _ :: rest => '\ufffd' :: joinHalves rest

def unescape : Char → Option Char
  | '"' => some '"'
  | '\\' => some '\\'
  | '/' => some '/'
  | 'b' => some '\x08'
  | 'f' => some '\x0c'
  | 'n' => some '\n'
  | 'r' => some '\r'
  | 't' => some '\t'
  | _ => none

def prepend {α : Type} (x : α) : Parsed (List α) → Parsed (List α)
  | .ok (xs, rest) => .ok (x :: xs, rest)
  | .error e => .error e

/-- What follows an opening quote, up to the closing one. -/
def scanString : List Char → Parsed (List Piece)
  | [] => .error .jsonDecodeError
  | '"' :: rest => .ok ([], rest)
  | '\\' :: 'u' :: a :: b :: c :: d :: rest =>
    match hex4 a b c d with
    | some unit => prepend (pieceOf unit) (scanString rest)
    | none => .error .jsonDecodeError
  | '\\' :: c :: rest =>
    match unescape c with
    | some c => prepend (.char c) (scanString rest)
    | none => .error .jsonDecodeError
  | c :: rest =>
    if c.toNat < 0x20 ∨ c = '\\' then .error .jsonDecodeError
    else prepend (.char c) (scanString rest)

def parseString (cs : List Char) : Parsed String :=
  match scanString cs with
  | .ok (pieces, rest) => .ok (String.ofList (joinHalves pieces), rest)
  | .error e => .error e

/-! ## Numbers -/

/-- The digits of a fraction, and what follows; a point with no digit behind it ends the number. -/
def scanFraction : List Char → List Char × List Char
  | '.' :: rest =>
    match rest.takeWhile isAsciiDigit with
    | [] => ([], '.' :: rest)
    | digits => (digits, rest.drop digits.length)
  | rest => ([], rest)

def scanSign : List Char → Bool × List Char
  | '-' :: rest => (true, rest)
  | '+' :: rest => (false, rest)
  | rest => (false, rest)

/-- An exponent, if there is one with a digit in it. -/
def scanExponent (cs : List Char) : Option Int × List Char :=
  match cs with
  | c :: rest =>
    if c = 'e' ∨ c = 'E' then
      let (neg, body) := scanSign rest
      match body.takeWhile isAsciiDigit with
      | [] => (none, cs)
      | digits => (some (if neg then -(natOf digits : Int) else natOf digits),
          body.drop digits.length)
    else (none, cs)
  | [] => (none, cs)

/-- The whole part of a number has no leading zero. -/
def scanWhole : List Char → List Char
  | '0' :: _ => ['0']
  | cs => cs.takeWhile isAsciiDigit

def parseNumber (cs : List Char) : Parsed Json :=
  let (neg, body) := match cs with
    | '-' :: rest => (true, rest)
    | _ => (false, cs)
  match scanWhole body with
  | [] => .error .jsonDecodeError
  | whole =>
    let (fraction, rest) := scanFraction (body.drop whole.length)
    let (exponent, rest) := scanExponent rest
    if fraction = [] ∧ exponent = none then
      if whole.length > maxIntDigits then .error .valueError
      else .ok (.int (if neg then -(natOf whole : Int) else natOf whole), rest)
    else
      let q : Rat := natOf (whole ++ fraction) * powInt 10 (exponent.getD 0 - fraction.length)
      .ok (.float (.ofRat (if neg then -q else q)), rest)

/-! ## Values -/

def keywords : List (List Char × Json) :=
  [(['n', 'u', 'l', 'l'], .null), (['t', 'r', 'u', 'e'], .bool true),
    (['f', 'a', 'l', 's', 'e'], .bool false), (['N', 'a', 'N'], .float .nan),
    (['I', 'n', 'f', 'i', 'n', 'i', 't', 'y'], .float (.inf false)),
    (['-', 'I', 'n', 'f', 'i', 'n', 'i', 't', 'y'], .float (.inf true))]

/-- The entries up to the closing bracket, where there is one entry at least. -/
def parseEntries {α : Type} (entry : List Char → Parsed α) (close : Char) :
    Nat → List Char → Parsed (List α)
  | 0, _ => .error .jsonDecodeError
  | n + 1, cs =>
    match entry cs with
    | .error e => .error e
    | .ok (x, cs) =>
      match skipSpace cs with
      | [] => .error .jsonDecodeError
      | c :: rest =>
        if c = close then .ok ([x], rest)
        else if c = ',' then prepend x (parseEntries entry close n (skipSpace rest))
        else .error .jsonDecodeError

/-- A key, its colon and its value. -/
def parseField (value : List Char → Parsed Json) : List Char → Parsed (String × Json)
  | '"' :: cs =>
    match parseString cs with
    | .error e => .error e
    | .ok (key, cs) =>
      match skipSpace cs with
      | ':' :: cs =>
        match value (skipSpace cs) with
        | .error e => .error e
        | .ok (v, cs) => .ok ((key, v), cs)
      | _ => .error .jsonDecodeError
  | _ => .error .jsonDecodeError

/-- The dict of the entries read: a key that comes again has its last value. -/
def dictOf (entries : List (String × Json)) : List (String × Json) :=
  (entries.foldl (fun d p => d.set p.1 p.2) (Dict.empty : Dict String Json)).items

def parseArray (value : List Char → Parsed Json) (cs : List Char) : Parsed Json :=
  match skipSpace cs with
  | ']' :: rest => .ok (.list [], rest)
  | cs =>
    match parseEntries value ']' cs.length cs with
    | .ok (xs, rest) => .ok (.list xs, rest)
    | .error e => .error e

def parseObject (value : List Char → Parsed Json) (cs : List Char) : Parsed Json :=
  match skipSpace cs with
  | '\x7d' :: rest => .ok (.obj [], rest)
  | cs =>
    match parseEntries (parseField value) '\x7d' cs.length cs with
    | .ok (entries, rest) => .ok (.obj (dictOf entries), rest)
    | .error e => .error e

/-- A value; without `nested` the recursion limit is reached. -/
def scanOnce (nested : Option (List Char → Parsed Json)) : List Char → Parsed Json
  | '"' :: cs =>
    match parseString cs with
    | .ok (s, rest) => .ok (.str s, rest)
    | .error e => .error e
  | '[' :: cs => nested.elim (.error .recursionError) fun value => parseArray value cs
  | '\x7b' :: cs => nested.elim (.error .recursionError) fun value => parseObject value cs
  | cs =>
    match keywords.find? fun k => k.1.isPrefixOf cs with
    | some (word, v) => .ok (v, cs.drop word.length)
    | none => parseNumber cs

def parse : Nat → List Char → Parsed Json
  | 0 => scanOnce none
  | levels + 1 => scanOnce (some (parse levels))

end JsonText

open JsonText

/-- `json.loads(s)`, with the levels of nesting that the recursion limit leaves. -/
def loads (levels : Nat) (s : String) : Except Exc Json :=
  if s.toList.head? = some '\ufeff' then .error .jsonDecodeError
  else
    match parse levels (skipSpace s.toList) with
    | .error e => .error e
    | .ok (v, rest) => if skipSpace rest = [] then .ok v else .error .jsonDecodeError

/-! ## Writing -/

namespace JsonText

def escapeUnit (n : Nat) : List Char :=
  ['\\', 'u', Nat.digitChar (n / 4096), Nat.digitChar (n / 256 % 16), Nat.digitChar (n / 16 % 16),
    Nat.digitChar (n % 16)]

def escapeChar (c : Char) : List Char :=
  if c = '"' then ['\\', '"']
  else if c = '\\' then ['\\', '\\']
  else if c = '\n' then ['\\', 'n']
  else if c = '\r' then ['\\', 'r']
  else if c = '\t' then ['\\', 't']
  else if c = '\x0c' then ['\\', 'f']
  else if c = '\x08' then ['\\', 'b']
  else if 0x20 ≤ c.toNat ∧ c.toNat < 0x7f then [c]
  else if c.toNat < 0x10000 then escapeUnit c.toNat
  else escapeUnit (0xd800 + (c.toNat - 0x10000) / 0x400) ++
    escapeUnit (0xdc00 + (c.toNat - 0x10000) % 0x400)

def dumpString (s : String) : List Char := '"' :: (s.toList.flatMap escapeChar ++ ['"'])

mutual

def dumpChars : Json → List Char
  | .null => ['n', 'u', 'l', 'l']
  | .bool true => ['t', 'r', 'u', 'e']
  | .bool false => ['f', 'a', 'l', 's', 'e']
  | .int i => (toString i).toList
  | .float (.finite q) => (PyFloat.finite q).repr.toList
  | .float .nan => ['N', 'a', 'N']
  | .float (.inf neg) => (if neg then ['-'] else []) ++ ['I', 'n', 'f', 'i', 'n', 'i', 't', 'y']
  | .str s => dumpString s
  | .list xs => '[' :: ([',', ' '].intercalate (dumpItems xs) ++ [']'])
  | .obj fields => '\x7b' :: ([',', ' '].intercalate (dumpFields fields) ++ ['\x7d'])

def dumpItems : List Json → List (List Char)
  | [] => []
  | x :: xs => dumpChars x :: dumpItems xs

def dumpFields : List (String × Json) → List (List Char)
  | [] => []
  | (k, v) :: fields => (dumpString k ++ [':', ' '] ++ dumpChars v) :: dumpFields fields

end

end JsonText

/-- `json.dumps(value)`. -/
def dumps (value : Json) : String := String.ofList (dumpChars value)

/-! ## The loops have room -/

namespace JsonText

/-- A reader that uses up a part of the text. -/
def Consumes {α : Type} (p : List Char → Parsed α) : Prop :=
  ∀ {cs v rest}, p cs = .ok (v, rest) → rest.length < cs.length

theorem length_skipSpace_le (cs : List Char) : (skipSpace cs).length ≤ cs.length :=
  (List.dropWhile_sublist _).length_le

theorem prepend_ok {α : Type} {x : α} {r : Parsed (List α)} {xs : List α} {rest : List Char} :
    prepend x r = .ok (xs, rest) ↔ ∃ ys, r = .ok (ys, rest) ∧ xs = x :: ys := by
  cases r with
  | error e => simp [prepend]
  | ok p =>
    obtain ⟨ys, rest'⟩ := p
    simp only [prepend, Except.ok.injEq, Prod.mk.injEq]
    constructor
    · rintro ⟨rfl, rfl⟩
      exact ⟨ys, ⟨rfl, rfl⟩, rfl⟩
    · rintro ⟨_, ⟨rfl, rfl⟩, rfl⟩
      exact ⟨rfl, rfl⟩

theorem consumes_scanString : Consumes scanString := by
  intro cs pieces rest h
  induction cs using scanString.induct generalizing pieces rest with
  | case1 => simp [scanString] at h
  | case2 rest' =>
    simp only [scanString, Except.ok.injEq, Prod.mk.injEq] at h
    obtain ⟨rfl, rfl⟩ := h
    simp
  | case3 a b c d rest' unit hunit ih =>
    simp only [scanString, hunit] at h
    obtain ⟨ys, hys, _⟩ := prepend_ok.1 h
    have := ih hys
    simp only [List.length_cons]
    omega
  | case4 a b c d rest' hunit => simp [scanString, hunit] at h
  | case5 c rest' hu c' hc ih =>
    rw [scanString] at h
    · simp only [hc] at h
      obtain ⟨ys, hys, _⟩ := prepend_ok.1 h
      have := ih hys
      simp only [List.length_cons]
      omega
    · exact hu
  | case6 c rest' hu hc =>
    rw [scanString] at h
    · simp [hc] at h
    · exact hu
  | case7 c rest' h₁ h₂ h₃ hbad =>
    rw [scanString] at h
    · simp [hbad] at h
    all_goals assumption
  | case8 c rest' h₁ h₂ h₃ hgood ih =>
    rw [scanString] at h
    · rw [if_neg hgood] at h
      obtain ⟨ys, hys, _⟩ := prepend_ok.1 h
      have := ih hys
      simp only [List.length_cons]
      omega
    all_goals assumption

theorem consumes_parseString : Consumes parseString := by
  intro cs s rest h
  unfold parseString at h
  split at h
  · rename_i pieces rest' hscan
    obtain ⟨_, rfl⟩ := Prod.mk.inj (Except.ok.inj h)
    exact consumes_scanString hscan
  · cases h

theorem length_scanFraction_le (cs : List Char) : (scanFraction cs).2.length ≤ cs.length := by
  unfold scanFraction
  split
  · rename_i rest
    split
    · rfl
    · rw [List.length_drop, List.length_cons]
      omega
  · rfl

theorem length_scanSign_le (cs : List Char) : (scanSign cs).2.length ≤ cs.length := by
  unfold scanSign
  split <;> simp

theorem length_scanExponent_le (cs : List Char) : (scanExponent cs).2.length ≤ cs.length := by
  unfold scanExponent
  split
  · rename_i c rest
    split
    · have hsign := length_scanSign_le rest
      dsimp only
      split
      · rfl
      · rw [List.length_drop, List.length_cons]
        omega
    · rfl
  · rfl

theorem consumes_parseNumber : Consumes parseNumber := by
  intro cs v rest h
  unfold parseNumber at h
  have hbody : (match cs with | '-' :: rest => (true, rest) | _ => (false, cs)).2.length ≤
      cs.length := by
    split <;> simp
  generalize (match cs with | '-' :: rest => (true, rest) | _ => (false, cs)) = signed at h hbody
  obtain ⟨neg, body⟩ := signed
  dsimp only at h hbody
  split at h
  · cases h
  · rename_i whole hne
    have hwhole : 0 < (scanWhole body).length := List.length_pos_iff.2 hne
    have hprefix : (scanWhole body).length ≤ body.length := by
      unfold scanWhole
      split
      · simp
      · exact (List.takeWhile_sublist _).length_le
    have hfraction := length_scanFraction_le (body.drop (scanWhole body).length)
    have hexponent := length_scanExponent_le (scanFraction (body.drop (scanWhole body).length)).2
    rw [List.length_drop] at hfraction
    have hrest : rest = (scanExponent (scanFraction (body.drop (scanWhole body).length)).2).2 := by
      split at h
      · split at h
        · cases h
        · exact (Prod.mk.inj (Except.ok.inj h)).2.symm
      · exact (Prod.mk.inj (Except.ok.inj h)).2.symm
    rw [hrest]
    omega

theorem consumes_parseField {value : List Char → Parsed Json} (hv : Consumes value) :
    Consumes (parseField value) := by
  intro cs p rest h
  unfold parseField at h
  split at h
  · rename_i cs
    split at h
    · cases h
    · rename_i key cs' hkey
      have hless := consumes_parseString hkey
      have hspace := length_skipSpace_le cs'
      split at h
      · rename_i cs'' hcolon
        split at h
        · cases h
        · rename_i v rest' hvalue
          obtain ⟨_, rfl⟩ := Prod.mk.inj (Except.ok.inj h)
          have hrest := hv hvalue
          have hspace' := length_skipSpace_le cs''
          rw [hcolon, List.length_cons] at hspace
          rw [List.length_cons]
          omega
      · cases h
  · cases h

section

variable {α : Type} {entry : List Char → Parsed α} {close : Char}

theorem consumes_parseEntries (hentry : Consumes entry) (n : Nat) :
    Consumes (parseEntries entry close n) := by
  induction n with
  | zero => intro cs xs rest h; cases h
  | succ n ih =>
    intro cs xs rest h
    simp only [parseEntries] at h
    split at h
    · cases h
    · rename_i x cs' hx
      have hless := hentry hx
      have hspace := length_skipSpace_le cs'
      split at h
      · cases h
      · rename_i c rest' hskip
        rw [hskip, List.length_cons] at hspace
        split_ifs at h
        · obtain ⟨_, rfl⟩ := Prod.mk.inj (Except.ok.inj h)
          omega
        · obtain ⟨ys, hys, _⟩ := prepend_ok.1 h
          have hrest := ih hys
          have hspace' := length_skipSpace_le rest'
          omega

/-- The bound of the loop is no bound: the text runs out first. -/
theorem parseEntries_enough (hentry : Consumes entry) (hnil : entry [] = .error .jsonDecodeError)
    {n : Nat} : ∀ {m : Nat} {cs : List Char}, cs.length ≤ n → cs.length ≤ m →
      parseEntries entry close n cs = parseEntries entry close m cs := by
  have hempty : ∀ m, parseEntries entry close m [] = .error .jsonDecodeError := by
    intro m
    cases m with
    | zero => rfl
    | succ m => simp only [parseEntries, hnil]
  induction n with
  | zero =>
    intro m cs hn _
    rw [List.length_eq_zero_iff.1 (Nat.le_zero.1 hn), hempty, hempty]
  | succ n ih =>
    intro m cs hn hm
    cases m with
    | zero => rw [List.length_eq_zero_iff.1 (Nat.le_zero.1 hm), hempty, hempty]
    | succ m =>
      simp only [parseEntries]
      split
      · rfl
      · rename_i x cs' hx
        have hless := hentry hx
        have hspace := length_skipSpace_le cs'
        split
        · rfl
        · rename_i c rest hskip
          have hspace' := length_skipSpace_le rest
          rw [hskip, List.length_cons] at hspace
          rw [ih (m := m) (by omega) (by omega)]

end

theorem consumes_parseArray {value : List Char → Parsed Json} (hv : Consumes value) :
    Consumes (parseArray value) := by
  intro cs v rest h
  have hspace := length_skipSpace_le cs
  unfold parseArray at h
  split at h
  · rename_i rest' hskip
    obtain ⟨_, rfl⟩ := Prod.mk.inj (Except.ok.inj h)
    rw [hskip, List.length_cons] at hspace
    omega
  · split at h
    · rename_i xs rest' hitems
      obtain ⟨_, rfl⟩ := Prod.mk.inj (Except.ok.inj h)
      exact (consumes_parseEntries hv _ hitems).trans_le hspace
    · cases h

theorem consumes_parseObject {value : List Char → Parsed Json} (hv : Consumes value) :
    Consumes (parseObject value) := by
  intro cs v rest h
  have hspace := length_skipSpace_le cs
  unfold parseObject at h
  split at h
  · rename_i rest' hskip
    obtain ⟨_, rfl⟩ := Prod.mk.inj (Except.ok.inj h)
    rw [hskip, List.length_cons] at hspace
    omega
  · split at h
    · rename_i xs rest' hfields
      obtain ⟨_, rfl⟩ := Prod.mk.inj (Except.ok.inj h)
      exact (consumes_parseEntries (consumes_parseField hv) _ hfields).trans_le hspace
    · cases h

theorem consumes_keyword {cs : List Char} {k : List Char × Json}
    (h : (keywords.find? fun k => k.1.isPrefixOf cs) = some k) :
    (cs.drop k.1.length).length < cs.length := by
  have hmem : k ∈ keywords := List.mem_of_find?_eq_some h
  have hword : 0 < k.1.length := by
    have hall : ∀ k ∈ keywords, 0 < k.1.length := by simp [keywords]
    exact hall k hmem
  have hprefix : k.1 <+: cs := List.isPrefixOf_iff_prefix.1 (by simpa using List.find?_some h)
  have hle := hprefix.length_le
  rw [List.length_drop]
  omega

theorem consumes_scanOnce {nested : Option (List Char → Parsed Json)}
    (hnested : ∀ value, nested = some value → Consumes value) : Consumes (scanOnce nested) := by
  intro cs v rest h
  unfold scanOnce at h
  split at h
  · split at h
    · rename_i cs s rest' hs
      obtain ⟨_, rfl⟩ := Prod.mk.inj (Except.ok.inj h)
      exact (consumes_parseString hs).trans (Nat.lt_succ_self _)
    · cases h
  · cases nested with
    | none => cases h
    | some value =>
      exact (consumes_parseArray (hnested value rfl) h).trans (Nat.lt_succ_self _)
  · cases nested with
    | none => cases h
    | some value =>
      exact (consumes_parseObject (hnested value rfl) h).trans (Nat.lt_succ_self _)
  · split at h
    · rename_i word v' hfind
      obtain ⟨_, rfl⟩ := Prod.mk.inj (Except.ok.inj h)
      exact consumes_keyword hfind
    · exact consumes_parseNumber h

theorem consumes_parse : ∀ levels, Consumes (parse levels)
  | 0 => consumes_scanOnce fun _ h => by cases h
  | levels + 1 => consumes_scanOnce fun _ h => Option.some.inj h ▸ consumes_parse levels

/-- More room for the entries of a value changes nothing. -/
theorem parseEntries_value_enough (levels : Nat) {close : Char} {n : Nat} {cs : List Char}
    (hn : cs.length ≤ n) : parseEntries (parse levels) close n cs =
      parseEntries (parse levels) close cs.length cs :=
  parseEntries_enough (consumes_parse levels) (by cases levels <;> rfl) hn (Nat.le_refl _)

theorem parseEntries_field_enough (levels : Nat) {close : Char} {n : Nat} {cs : List Char}
    (hn : cs.length ≤ n) : parseEntries (parseField (parse levels)) close n cs =
      parseEntries (parseField (parse levels)) close cs.length cs :=
  parseEntries_enough (consumes_parseField (consumes_parse levels)) rfl hn (Nat.le_refl _)

end JsonText

example : loads 2 " [1, \"a\\u00e9\", -2.5e1, true]" =
    .ok (.list [.int 1, .str "aé", .float (.finite (-25)), .bool true]) := by decide +kernel
example : loads 1 "[[1]]" = .error .recursionError := by decide +kernel
example : dumps (.obj [("a", .null), ("é", .list [.bool true])]) =
    "\x7b\"a\": null, \"\\u00e9\": [true]\x7d" := by decide +kernel

end Py

end Constat
