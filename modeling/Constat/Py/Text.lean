import Constat.Py.Float

/-!
# Py.Text

The built-ins of Python the rules call on fact values and strings: `str`, `int`, `isdigit`,
`split`. Strings are taken apart as lists of characters. In `repr` every character beyond ASCII
counts as printable.
-/

namespace Constat

namespace Py

/-- The zeros of the decimal digit ranges (category Nd); each range is ten consecutive digits. -/
def decimalZeros : List Nat :=
  [0x30, 0x660, 0x6f0, 0x7c0, 0x966, 0x9e6, 0xa66, 0xae6, 0xb66, 0xbe6, 0xc66, 0xce6, 0xd66, 0xde6,
    0xe50, 0xed0, 0xf20, 0x1040, 0x1090, 0x17e0, 0x1810, 0x1946, 0x19d0, 0x1a80, 0x1a90, 0x1b50,
    0x1bb0, 0x1c40, 0x1c50, 0xa620, 0xa8d0, 0xa900, 0xa9d0, 0xa9f0, 0xaa50, 0xabf0, 0xff10,
    0x104a0, 0x10d30, 0x11066, 0x110f0, 0x11136, 0x111d0, 0x112f0, 0x11450, 0x114d0, 0x11650,
    0x116c0, 0x11730, 0x118e0, 0x11950, 0x11c50, 0x11d50, 0x11da0, 0x11f50, 0x16a60, 0x16ac0,
    0x16b50, 0x1d7ce, 0x1d7d8, 0x1d7e2, 0x1d7ec, 0x1d7f6, 0x1e140, 0x1e2f0, 0x1e4f0, 0x1e950,
    0x1fbf0]

/-- The digits that are not decimal (superscripts and the like), as ranges. -/
def otherDigits : List (Nat × Nat) :=
  [(0xb2, 0xb3), (0xb9, 0xb9), (0x1369, 0x1371), (0x19da, 0x19da), (0x2070, 0x2070),
    (0x2074, 0x2079), (0x2080, 0x2089), (0x2460, 0x2468), (0x2474, 0x247c), (0x2488, 0x2490),
    (0x24ea, 0x24ea), (0x24f5, 0x24fd), (0x24ff, 0x24ff), (0x2776, 0x277e), (0x2780, 0x2788),
    (0x278a, 0x2792), (0x10a40, 0x10a43), (0x10e60, 0x10e68), (0x11052, 0x1105a),
    (0x1f100, 0x1f10a)]

def decimalValue (c : Char) : Option Nat :=
  (decimalZeros.find? fun z => z ≤ c.toNat ∧ c.toNat < z + 10).map fun z => c.toNat - z

def isSpace (c : Char) : Bool :=
  c.toNat ∈ [0x9, 0xa, 0xb, 0xc, 0xd, 0x1c, 0x1d, 0x1e, 0x1f, 0x20, 0x85, 0xa0, 0x1680, 0x2000,
    0x2001, 0x2002, 0x2003, 0x2004, 0x2005, 0x2006, 0x2007, 0x2008, 0x2009, 0x200a, 0x2028, 0x2029,
    0x202f, 0x205f, 0x3000]

def strip (cs : List Char) : List Char :=
  ((cs.dropWhile isSpace).reverse.dropWhile isSpace).reverse

/-- `s.isdigit()`. -/
def isdigit (cs : List Char) : Bool :=
  !cs.isEmpty && cs.all fun c => (decimalValue c).isSome ||
    otherDigits.any fun r => r.1 ≤ c.toNat ∧ c.toNat ≤ r.2

def isAsciiDigit (c : Char) : Bool := '0' ≤ c ∧ c ≤ '9'

/-- The number that ASCII digits spell. -/
def natOf (digits : List Char) : Nat := digits.foldl (fun n c => 10 * n + (c.toNat - 48)) 0

/-- `s.split(sep)` for a one-character separator. -/
def split (sep : Char) : List Char → List (List Char)
  | [] => [[]]
  | c :: cs =>
    match split sep cs with
    | [] => [[]]
    | part :: parts => if c = sep then [] :: part :: parts else (c :: part) :: parts

/-- What follows the first occurrence of `sep`, if there is one. -/
def after (sep : List Char) : List Char → Option (List Char)
  | [] => if sep = [] then some [] else none
  | c :: cs => if sep.isPrefixOf (c :: cs) then some ((c :: cs).drop sep.length) else after sep cs

def contains (sub cs : List Char) : Bool := (after sub cs).isSome

/-- The digits of an integer literal: single underscores may stand between two digits. -/
def digitValues : List Char → Option (List Nat)
  | [] => none
  | c :: cs =>
    match decimalValue c, cs with
    | none, _ => none
    | some d, [] => some [d]
    | some d, '_' :: cs => (digitValues cs).map (d :: ·)
    | some d, c' :: cs => (digitValues (c' :: cs)).map (d :: ·)

/-- The longest decimal literal `int` reads. -/
def maxIntDigits : Nat := 4300

def parseInt (cs : List Char) : Option Int :=
  let cs := strip cs
  let (neg, body) := match cs with
    | '-' :: rest => (true, rest)
    | '+' :: rest => (false, rest)
    | _ => (false, cs)
  match digitValues body with
  | none => none
  | some ds =>
    if ds.length > maxIntDigits then none
    else
      let n : Nat := ds.foldl (fun n d => 10 * n + d) 0
      some (if neg then -(n : Int) else n)

/-- Round towards zero. -/
def truncate (q : Rat) : Int := if q < 0 then -⌊-q⌋ else ⌊q⌋

def intOfText : PyError := ⟨"ValueError", "invalid literal for int() with base 10"⟩
def intOfNan : PyError := ⟨"ValueError", "cannot convert float NaN to integer"⟩
def intOfInf : PyError := ⟨"OverflowError", "cannot convert float infinity to integer"⟩
def intOfType (name : String) : PyError :=
  ⟨"TypeError", "int() argument must be a string, a bytes-like object or a real number, not " ++
    "'" ++ name ++ "'"⟩

/-- `int(value)`. -/
def int : Json → Except PyError Int
  | .int i => .ok i
  | .bool b => .ok (if b then 1 else 0)
  | .float (.finite q) => .ok (truncate q)
  | .float .nan => .error intOfNan
  | .float (.inf _) => .error intOfInf
  | .str s =>
    match parseInt s.toList with
    | some i => .ok i
    | none => .error intOfText
  | .null => .error (intOfType "NoneType")
  | .list _ => .error (intOfType "list")
  | .obj _ => .error (intOfType "dict")

/-! ## str and repr -/

def hex2 (n : Nat) : String :=
  String.ofList [Nat.digitChar (n / 16), Nat.digitChar (n % 16)]

def escapeChar (quote c : Char) : String :=
  if c = quote ∨ c = '\\' then String.ofList ['\\', c]
  else if c = '\n' then "\\n"
  else if c = '\r' then "\\r"
  else if c = '\t' then "\\t"
  else if c.toNat < 0x20 ∨ c.toNat = 0x7f then "\\x" ++ hex2 c.toNat
  else String.ofList [c]

def reprStr (s : String) : String :=
  let cs := s.toList
  let quote := if '\'' ∈ cs ∧ '"' ∉ cs then '"' else '\''
  String.ofList [quote] ++ String.join (cs.map (escapeChar quote)) ++ String.ofList [quote]

mutual

/-- `repr(value)`. -/
def repr : Json → String
  | .null => "None"
  | .bool b => if b then "True" else "False"
  | .int i => toString i
  | .float f => f.repr
  | .str s => reprStr s
  | .list xs => "[" ++ ", ".intercalate (reprItems xs) ++ "]"
  | .obj fields => "\x7b" ++ ", ".intercalate (reprFields fields) ++ "\x7d"

def reprItems : List Json → List String
  | [] => []
  | x :: xs => repr x :: reprItems xs

def reprFields : List (String × Json) → List String
  | [] => []
  | (k, v) :: fields => (reprStr k ++ ": " ++ repr v) :: reprFields fields

end

/-- `str(value)`. -/
def str : Json → String
  | .str s => s
  | value => repr value

/-- `bool(value)`. -/
def truthy : Json → Bool
  | .null => false
  | .bool b => b
  | .int i => i ≠ 0
  | .float f => !f.isZero
  | .str s => s ≠ ""
  | .list xs => !xs.isEmpty
  | .obj fields => !fields.isEmpty

/-- `hash(value)` raises on a list or a dict, and so does every lookup with such a key. -/
def unhashable : Json → Option PyError
  | .list _ => some ⟨"TypeError", "unhashable type: 'list'"⟩
  | .obj _ => some ⟨"TypeError", "unhashable type: 'dict'"⟩
  | _ => none

/-- A list is split at its first separator in one way. -/
theorem splitList_unique {α : Type} {sep : α} {a b : List α} (ha : sep ∉ a) :
    ∀ {a' b' : List α}, sep ∉ a' → a ++ sep :: b = a' ++ sep :: b' → a = a' ∧ b = b' := by
  induction a with
  | nil =>
    intro a' b' ha' h
    cases a' with
    | nil => exact ⟨rfl, (List.cons.inj h).2⟩
    | cons x a' => exact absurd (List.mem_cons.2 (.inl (List.cons.inj h).1)) ha'
  | cons x a ih =>
    intro a' b' ha' h
    cases a' with
    | nil => exact absurd (List.mem_cons.2 (.inl (List.cons.inj h).1.symm)) ha
    | cons y a' =>
      obtain ⟨rfl, htail⟩ := List.cons.inj h
      rw [List.mem_cons, not_or] at ha ha'
      obtain ⟨rfl, hb⟩ := ih ha.2 ha'.2 htail
      exact ⟨rfl, hb⟩

theorem split_unique {sep : Char} {s a a' b b' : String} (hs : s.toList = [sep])
    (ha : sep ∉ a.toList) (ha' : sep ∉ a'.toList) (h : a ++ (s ++ b) = a' ++ (s ++ b')) :
    a = a' ∧ b = b' := by
  have hlist := congrArg String.toList h
  simp only [String.toList_append, hs, List.singleton_append] at hlist
  obtain ⟨hhead, htail⟩ := splitList_unique ha ha' hlist
  exact ⟨String.toList_inj.1 hhead, String.toList_inj.1 htail⟩

/-- `sep` does not begin within `part` when `sep` follows it. -/
def Before (sep part : String) : Prop := ¬ sep.toList <:+: part.toList ++ sep.toList.dropLast

instance (sep part : String) : Decidable (Before sep part) := inferInstanceAs (Decidable (¬ _))

/-- A shorter first part puts the separator within the longer one. -/
theorem infix_of_shorter {α : Type} {sep a a' b b' : List α} (h : a ++ (sep ++ b) = a' ++ (sep ++ b'))
    (hlen : a.length < a'.length) : sep <:+: a' ++ sep.dropLast := by
  have hfirst : a ++ sep <+: a' ++ (sep ++ b') := by
    rw [← h, ← List.append_assoc]
    exact List.prefix_append _ _
  have hsecond : a' ++ sep.dropLast <+: a' ++ (sep ++ b') :=
    (List.prefix_append_right_inj a').2 ((List.dropLast_prefix sep).trans (List.prefix_append _ _))
  have hle : (a ++ sep).length ≤ (a' ++ sep.dropLast).length := by
    rw [List.length_append, List.length_append, List.length_dropLast]
    omega
  exact (List.suffix_append a sep).isInfix.trans
    (List.prefix_of_prefix_length_le hfirst hsecond hle).isInfix

/-- A text is split at the first occurrence of a separator in one way. -/
theorem before_unique {sep a a' b b' : String} (ha : Before sep a) (ha' : Before sep a')
    (h : a ++ (sep ++ b) = a' ++ (sep ++ b')) : a = a' ∧ b = b' := by
  have hlist := congrArg String.toList h
  simp only [String.toList_append] at hlist
  have hlen : a.toList.length = a'.toList.length := by
    rcases Nat.lt_trichotomy a.toList.length a'.toList.length with hlt | heq | hgt
    · exact absurd (infix_of_shorter hlist hlt) ha'
    · exact heq
    · exact absurd (infix_of_shorter hlist.symm hgt) ha
  obtain ⟨hhead, htail⟩ := List.append_inj hlist hlen
  exact ⟨String.toList_inj.1 hhead, String.toList_inj.1 (List.append_cancel_left htail)⟩

example : int (.str " 1_000 ") = .ok 1000 := by decide +kernel
example : str (.list [.str "it's", .float (.finite (5 / 2)), .null]) = "[\"it's\", 2.5, None]" := by
  decide +kernel

end Py

end Constat
