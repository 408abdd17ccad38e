import Constat.Py.Text
import Constat.UuidText

/-!
# UuidHex

`UUID(text)`: what the constructor of the standard library takes for a UUID. It drops `urn:` and
`uuid:` wherever they stand, braces at the ends and all dashes, and hands the 32 characters that
have to be left to `int(_, 16)`, which reads more than hex digits. The text form of a UUID reads
back as the UUID (`parse_text`).
-/

namespace Constat

namespace Uuid

/-- `s.replace(sub, "")`; `skip` characters of an occurrence are still to be dropped. -/
def removeFrom (sub : List Char) : Nat → List Char → List Char
  | _, [] => []
  | skip + 1, _ :: cs => removeFrom sub skip cs
  | 0, c :: cs =>
    if sub.isPrefixOf (c :: cs) then removeFrom sub (sub.length - 1) cs
    else c :: removeFrom sub 0 cs

def stripBy (p : Char → Bool) (cs : List Char) : List Char :=
  ((cs.dropWhile p).reverse.dropWhile p).reverse

def isBrace (c : Char) : Bool := c = '\x7b' ∨ c = '\x7d'

/-- The white space that `int` skips. -/
def isIntSpace (c : Char) : Bool := Py.isSpace c && !(0x1c ≤ c.toNat ∧ c.toNat ≤ 0x1f)

def hexDigit (c : Char) : Option Nat :=
  match Py.decimalValue c with
  | some d => some d
  | none =>
    if 'a' ≤ c ∧ c ≤ 'f' then some (c.toNat - 87)
    else if 'A' ≤ c ∧ c ≤ 'F' then some (c.toNat - 55)
    else none

/-- Single underscores may stand between two digits. -/
def hexValues : List Char → Option (List Nat)
  | [] => none
  | [c] => (hexDigit c).map fun d => [d]
  | c :: '_' :: cs => (hexDigit c).bind fun d => (hexValues cs).map (d :: ·)
  | c :: cs => (hexDigit c).bind fun d => (hexValues cs).map (d :: ·)

/-- `0x`, and an underscore behind it, may stand before the digits. -/
def dropHexPrefix : List Char → List Char
  | '0' :: x :: rest =>
    if x = 'x' ∨ x = 'X' then
      match rest with
      | '_' :: rest => rest
      | rest => rest
    else '0' :: x :: rest
  | cs => cs

def ofHexValues (ds : List Nat) : Nat := ds.foldl (fun n d => 16 * n + d) 0

/-- `int(text, 16)`. -/
def parseHex (cs : List Char) : Option Int :=
  let (neg, body) := match stripBy isIntSpace cs with
    | '-' :: rest => (true, rest)
    | '+' :: rest => (false, rest)
    | cs => (false, cs)
  (hexValues (dropHexPrefix body)).map fun ds =>
    if neg then -(ofHexValues ds : Int) else ofHexValues ds

/-- `UUID(text)`; `none` is a `ValueError`. -/
def parse (s : String) : Option Uuid :=
  let cs := removeFrom ['u', 'u', 'i', 'd', ':'] 0 (removeFrom ['u', 'r', 'n', ':'] 0 s.toList)
  let cs := (stripBy isBrace cs).filter (· ≠ '-')
  if cs.length ≠ 32 then none
  else
    match parseHex cs with
    | none => none
    | some i => if 0 ≤ i ∧ i < (2 ^ 128 : Nat) then some i.toNat else none

/-! ## The text form reads back -/

theorem removeFrom_eq_self {sub : List Char} {x : Char} (hx : x ∈ sub) :
    ∀ {cs : List Char}, x ∉ cs → removeFrom sub 0 cs = cs := by
  intro cs
  induction cs with
  | nil => intro _; rfl
  | cons c cs ih =>
    intro hcs
    have hprefix : ¬ sub.isPrefixOf (c :: cs) = true := fun h =>
      hcs ((List.isPrefixOf_iff_prefix.1 h).subset hx)
    rw [removeFrom, if_neg hprefix, ih fun h => hcs (List.mem_cons_of_mem c h)]

theorem stripBy_eq_self {p : Char → Bool} {cs : List Char} (h : ∀ c ∈ cs, p c = false) :
    stripBy p cs = cs := by
  have hdrop : ∀ l : List Char, (∀ c ∈ l, p c = false) → l.dropWhile p = l := by
    intro l hl
    cases l with
    | nil => rfl
    | cons c l => rw [List.dropWhile_cons_of_neg (by simp [hl c])]
  rw [stripBy, hdrop cs h, hdrop cs.reverse (by simpa using h), List.reverse_reverse]

def hexChars : List Char :=
  ['0', '1', '2', '3', '4', '5', '6', '7', '8', '9', 'a', 'b', 'c', 'd', 'e', 'f']

/-- What a run over the sixteen digits finds of each. -/
theorem of_mem_hexChars {p : Char → Bool} (h : hexChars.all p = true) {c : Char}
    (hc : c ∈ hexChars) : p c = true := List.all_eq_true.1 h c hc

theorem digitChar_mem : ∀ d < 16, Nat.digitChar d ∈ hexChars := by decide

theorem hexDigit_digitChar : ∀ d < 16, hexDigit (Nat.digitChar d) = some d := by decide +kernel

theorem mem_digits {id : Uuid} {c : Char} (hc : c ∈ id.digits) : c ∈ hexChars := by
  obtain ⟨i, _, rfl⟩ := List.mem_map.1 hc
  exact digitChar_mem _ (Nat.mod_lt _ (by omega))

theorem mem_text {id : Uuid} {c : Char} (hc : c ∈ (text id).toList) : c = '-' ∨ c ∈ hexChars := by
  rw [text_toList] at hc
  simp only [List.mem_append, List.mem_cons] at hc
  have htake : ∀ {n k : Nat}, c ∈ (id.digits.drop n).take k → c ∈ hexChars := fun h =>
    mem_digits (List.mem_of_mem_drop (List.mem_of_mem_take h))
  rcases hc with h | h | h | h | h | h | h | h | h
  · exact .inr (mem_digits (List.mem_of_mem_take h))
  · exact .inl h
  · exact .inr (htake h)
  · exact .inl h
  · exact .inr (htake h)
  · exact .inl h
  · exact .inr (htake h)
  · exact .inl h
  · exact .inr (htake h)

/-- Without its dashes the text is the digits. -/
theorem filter_text (id : Uuid) : (text id).toList.filter (· ≠ '-') = id.digits := by
  have hkeep : ∀ l : List Char, (∀ c ∈ l, c ∈ hexChars) → l.filter (· ≠ '-') = l := by
    intro l hl
    refine List.filter_eq_self.2 fun c hc => decide_eq_true ?_
    rintro rfl
    exact absurd (hl '-' hc) (by decide)
  have hdrop : ∀ n : Nat, ∀ c ∈ id.digits.drop n, c ∈ hexChars := fun n c hc =>
    mem_digits (List.mem_of_mem_drop hc)
  have hpart : ∀ n k : Nat, ((id.digits.drop n).take k).filter (· ≠ '-') =
      (id.digits.drop n).take k := fun n k =>
    hkeep _ fun c hc => hdrop n c (List.mem_of_mem_take hc)
  have hfirst : (id.digits.take 8).filter (· ≠ '-') = id.digits.take 8 := hpart 0 8
  have hdash : ∀ l : List Char, ('-' :: l).filter (· ≠ '-') = l.filter (· ≠ '-') := fun _ => rfl
  have hlast : (id.digits.drop 20).take 12 = id.digits.drop 20 :=
    List.take_of_length_le (by rw [List.length_drop, digits_length])
  have hjoin : ∀ n k : Nat, (id.digits.drop n).take k ++ id.digits.drop (n + k) =
      id.digits.drop n := by
    intro n k
    rw [← List.drop_drop, List.take_append_drop]
  rw [text_toList]
  simp only [List.filter_append, hdash, hpart, hfirst]
  rw [hlast, hjoin 16 4, hjoin 12 4, hjoin 8 4, List.take_append_drop]

theorem hexValues_map : ∀ {ds : List Nat}, ds ≠ [] → (∀ d ∈ ds, d < 16) →
    hexValues (ds.map Nat.digitChar) = some ds := by
  intro ds
  induction ds with
  | nil => intro h; exact absurd rfl h
  | cons d ds ih =>
    intro _ hall
    have hd := hexDigit_digitChar d (hall d List.mem_cons_self)
    cases ds with
    | nil => rw [List.map_cons, List.map_nil, hexValues, hd]; rfl
    | cons e ds =>
      have hrest := ih (List.cons_ne_nil e ds) fun x hx => hall x (List.mem_cons_of_mem d hx)
      have hunder : Nat.digitChar e ≠ '_' := fun h => by
        have hmem := digitChar_mem e (hall e (by simp))
        rw [h] at hmem
        exact absurd hmem (by decide)
      rw [List.map_cons] at hrest ⊢
      rw [List.map_cons, hexValues, hd, hrest]
      · rfl
      · intro h
        cases h
      · intro cs h
        exact hunder (List.cons.inj h).1

theorem ofHexValues_digits (id : Uuid) (n acc : Nat) :
    ((List.range n).reverse.map fun i => id / 16 ^ i % 16).foldl (fun n d => 16 * n + d) acc =
      acc * 16 ^ n + id % 16 ^ n := by
  induction n generalizing acc with
  | zero => simp [Nat.mod_one]
  | succ n ih =>
    rw [List.range_succ, List.reverse_append, List.reverse_singleton, List.singleton_append,
      List.map_cons, List.foldl_cons, ih, Nat.mod_pow_succ, Nat.pow_succ]
    ring

theorem parseHex_digits (id : Uuid) : parseHex id.digits = some ((id % 16 ^ 32 : Nat) : Int) := by
  have hstrip : stripBy isIntSpace id.digits = id.digits := by
    have hnone : hexChars.all (fun c => !isIntSpace c) = true := by decide
    exact stripBy_eq_self fun c hc => by simpa using of_mem_hexChars hnone (mem_digits hc)
  have hchars : ∀ c ∈ id.digits, c ≠ '-' ∧ c ≠ '+' ∧ c ≠ 'x' ∧ c ≠ 'X' := by
    have hall : hexChars.all (fun c => c ≠ '-' ∧ c ≠ '+' ∧ c ≠ 'x' ∧ c ≠ 'X') = true := by decide
    exact fun c hc => of_decide_eq_true (of_mem_hexChars hall (mem_digits hc))
  have hsign : (match id.digits with
      | '-' :: rest => (true, rest)
      | '+' :: rest => (false, rest)
      | cs => (false, cs)) = (false, id.digits) := by
    split
    · rename_i rest heq
      exact absurd rfl (hchars '-' (heq ▸ List.mem_cons_self)).1
    · rename_i rest heq
      exact absurd rfl (hchars '+' (heq ▸ List.mem_cons_self)).2.1
    · rfl
  have hprefix : dropHexPrefix id.digits = id.digits := by
    unfold dropHexPrefix
    split
    · rename_i x rest heq
      have hx := hchars x (heq ▸ List.mem_cons_of_mem _ List.mem_cons_self)
      rw [if_neg (by tauto), heq]
    · rfl
  have hvalues : hexValues id.digits = some ((List.range 32).reverse.map fun i =>
      id / 16 ^ i % 16) := by
    have hdigits : id.digits = ((List.range 32).reverse.map fun i =>
        id / 16 ^ i % 16).map Nat.digitChar := by
      rw [List.map_map]
      rfl
    rw [hdigits]
    refine hexValues_map (by simp) fun d hd => ?_
    obtain ⟨i, _, rfl⟩ := List.mem_map.1 hd
    exact Nat.mod_lt _ (by omega)
  have hfold := ofHexValues_digits id 32 0
  rw [Nat.zero_mul, Nat.zero_add] at hfold
  simp only [parseHex, hstrip, hsign, hprefix, hvalues, Option.map_some, ofHexValues, hfold]
  rfl

theorem parse_text {id : Uuid} (hid : id < bound) : parse (text id) = some id := by
  have hcolon : ':' ∉ (text id).toList := fun h =>
    absurd (mem_text h) (by decide)
  have hbrace : ∀ c ∈ (text id).toList, isBrace c = false := by
    have hnone : hexChars.all (fun c => !isBrace c) = true := by decide
    intro c hc
    rcases mem_text hc with rfl | hc
    · rfl
    · simpa using of_mem_hexChars hnone hc
  have hlt : id < 2 ^ 128 := by
    have hbound : bound = 2 ^ 128 := by decide
    exact hbound ▸ hid
  have hmod : id % 16 ^ 32 = id := Nat.mod_eq_of_lt hid
  rw [parse, removeFrom_eq_self (x := ':') (by simp) hcolon,
    removeFrom_eq_self (x := ':') (by simp) hcolon, stripBy_eq_self hbrace, filter_text]
  simp only [digits_length, ne_eq, not_true_eq_false, if_false, parseHex_digits, hmod]
  rw [if_pos ⟨Int.natCast_nonneg _, by exact_mod_cast hlt⟩, Int.toNat_natCast]

end Uuid

end Constat
