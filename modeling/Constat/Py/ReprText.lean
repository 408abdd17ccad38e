import Constat.Py.Text

/-!
# Py.ReprText

The text of a string or of a list of strings says which one it is: `repr` escapes what would end the
string, so it is read back from in front of any text.

* `unescape`    — the first character that an escaped text stands for.
* `reprStr_inj` — two strings with the same text are the same, whatever follows them.
* `str_inj`     — and so are two lists of strings.
-/

namespace Constat

namespace Py

/-! ## Characters -/

def hexDigit (c : Char) : Nat := if c.toNat < 58 then c.toNat - 48 else c.toNat - 87

def unescape : List Char → Option (Char × List Char)
  | '\\' :: 'n' :: rest => some ('\n', rest)
  | '\\' :: 'r' :: rest => some ('\r', rest)
  | '\\' :: 't' :: rest => some ('\t', rest)
  | '\\' :: 'x' :: a :: b :: rest => some (Char.ofNat (16 * hexDigit a + hexDigit b), rest)
  | '\\' :: c :: rest => some (c, rest)
  | c :: rest => some (c, rest)
  | [] => none

/-- One of the two that `repr` chooses from. -/
def IsQuote (quote : Char) : Prop := quote = '\'' ∨ quote = '"'

theorem hexDigit_hex2 : ∀ n ∈ (127 :: List.range 32),
    16 * hexDigit (Nat.digitChar (n / 16)) + hexDigit (Nat.digitChar (n % 16)) = n := by
  decide +kernel

/-- What is read from the text of a character is the character. -/
theorem unescape_escapeChar {quote : Char} (hquote : IsQuote quote) (c : Char) (rest : List Char) :
    unescape ((escapeChar quote c).toList ++ rest) = some (c, rest) := by
  unfold escapeChar
  split_ifs with hslash hnewline hreturn htab hcontrol
  · rcases hslash with rfl | rfl
    · rcases hquote with rfl | rfl <;> rfl
    · rfl
  · subst hnewline
    rfl
  · subst hreturn
    rfl
  · subst htab
    rfl
  · have hmem : c.toNat ∈ 127 :: List.range 32 := by
      rw [List.mem_cons, List.mem_range]
      omega
    have hlist : ("\\x" ++ hex2 c.toNat).toList = ['\\', 'x', Nat.digitChar (c.toNat / 16),
        Nat.digitChar (c.toNat % 16)] := by simp [hex2]
    rw [hlist]
    simp only [List.cons_append, List.nil_append, unescape, hexDigit_hex2 _ hmem, Char.ofNat_toNat]
  · have hne : c ≠ '\\' := fun h => hslash (.inr h)
    simp [unescape, hne]

/-- What stands for a character does not begin with the quote. -/
theorem escapeChar_head {quote : Char} (hquote : IsQuote quote) (c : Char) :
    ∃ first more, (escapeChar quote c).toList = first :: more ∧ first ≠ quote := by
  have hslash : '\\' ≠ quote := by rcases hquote with rfl | rfl <;> decide
  unfold escapeChar
  split_ifs with hescaped
  · exact ⟨'\\', [c], String.toList_ofList, hslash⟩
  · exact ⟨_, _, rfl, hslash⟩
  · exact ⟨_, _, rfl, hslash⟩
  · exact ⟨_, _, rfl, hslash⟩
  · exact ⟨'\\', _, String.toList_append, hslash⟩
  · exact ⟨c, [], String.toList_ofList, fun h => hescaped (.inl h)⟩

theorem escapeChar_ne_quote {quote : Char} (hquote : IsQuote quote) (c : Char)
    (rest rest' : List Char) : (escapeChar quote c).toList ++ rest ≠ quote :: rest' := by
  obtain ⟨first, more, heq, hne⟩ := escapeChar_head hquote c
  rw [heq]
  exact fun h => hne (List.cons.inj h).1

/-! ## Strings -/

theorem escaped_inj {quote : Char} (hquote : IsQuote quote) {cs : List Char} :
    ∀ {cs' rest rest' : List Char},
      (cs.flatMap fun c => (escapeChar quote c).toList) ++ quote :: rest =
        (cs'.flatMap fun c => (escapeChar quote c).toList) ++ quote :: rest' →
      cs = cs' ∧ rest = rest' := by
  induction cs with
  | nil =>
    intro cs' rest rest' h
    cases cs' with
    | nil => exact ⟨rfl, (List.cons.inj h).2⟩
    | cons c' cs' =>
      rw [List.flatMap_cons, List.append_assoc] at h
      exact absurd h.symm (escapeChar_ne_quote hquote c' _ _)
  | cons c cs ih =>
    intro cs' rest rest' h
    rw [List.flatMap_cons, List.append_assoc] at h
    cases cs' with
    | nil => exact absurd h (escapeChar_ne_quote hquote c _ _)
    | cons c' cs' =>
      rw [List.flatMap_cons, List.append_assoc] at h
      have hread := congrArg unescape h
      rw [unescape_escapeChar hquote, unescape_escapeChar hquote] at hread
      obtain ⟨rfl, hmore⟩ := Prod.mk.inj (Option.some.inj hread)
      obtain ⟨rfl, hrest⟩ := ih hmore
      exact ⟨rfl, hrest⟩

/-- The quote that `repr` puts around a string. -/
def quoteOf (s : String) : Char := if '\'' ∈ s.toList ∧ '"' ∉ s.toList then '"' else '\''

theorem quoteOf_isQuote (s : String) : IsQuote (quoteOf s) := by
  rw [quoteOf]
  split
  · exact .inr rfl
  · exact .inl rfl

theorem toList_reprStr (s : String) : (Py.reprStr s).toList =
    quoteOf s ::
      ((s.toList.flatMap fun c => (escapeChar (quoteOf s) c).toList) ++ [quoteOf s]) := by
  have hquote : Py.reprStr s = String.ofList [quoteOf s] ++
      String.join (s.toList.map (escapeChar (quoteOf s))) ++ String.ofList [quoteOf s] := rfl
  rw [hquote]
  simp [String.toList_join, List.flatMap_def, Function.comp_def]

theorem reprStr_inj {s s' : String} {rest rest' : List Char}
    (h : (Py.reprStr s).toList ++ rest = (Py.reprStr s').toList ++ rest') :
    s = s' ∧ rest = rest' := by
  rw [toList_reprStr, toList_reprStr] at h
  simp only [List.cons_append, List.append_assoc, List.nil_append] at h
  obtain ⟨hquote, hbody⟩ := List.cons.inj h
  rw [← hquote] at hbody
  obtain ⟨hchars, hrest⟩ := escaped_inj (quoteOf_isQuote s) hbody
  exact ⟨String.toList_inj.1 hchars, hrest⟩

/-! ## Lists -/

/-- What follows the first item. -/
def itemsText (xs : List String) : List Char :=
  (xs.flatMap fun x => [',', ' '] ++ (Py.reprStr x).toList) ++ [']']

theorem itemsText_inj {xs : List String} : ∀ {xs' : List String},
    itemsText xs = itemsText xs' → xs = xs' := by
  induction xs with
  | nil =>
    intro xs' h
    cases xs' with
    | nil => rfl
    | cons x' xs' => exact absurd (List.cons.inj h).1 (by decide)
  | cons x xs ih =>
    intro xs' h
    cases xs' with
    | nil => exact absurd (List.cons.inj h).1 (by decide)
    | cons x' xs' =>
      simp only [itemsText, List.flatMap_cons, List.append_assoc, List.append_cancel_left_eq] at h
      obtain ⟨rfl, hmore⟩ := reprStr_inj h
      rw [ih hmore]

theorem intercalate_reprStr (x : String) (xs : List String) :
    [',', ' '].intercalate ((x :: xs).map fun x => (Py.reprStr x).toList) ++ [']'] =
      (Py.reprStr x).toList ++ itemsText xs := by
  induction xs generalizing x with
  | nil => simp [itemsText]
  | cons y ys ih =>
    have hrest := ih y
    rw [List.map_cons] at hrest
    rw [List.map_cons, List.map_cons, List.intercalate_cons_cons, List.append_assoc,
      List.append_assoc, hrest]
    simp [itemsText]

theorem reprItems_strings (xs : List String) :
    Py.reprItems (xs.map .str) = xs.map Py.reprStr := by
  induction xs with
  | nil => rfl
  | cons x xs ih =>
    rw [List.map_cons, Py.reprItems, ih]
    rfl

theorem toList_str (xs : List String) : (Py.str (.list (xs.map .str))).toList =
    '[' :: ([',', ' '].intercalate (xs.map fun x => (Py.reprStr x).toList) ++ [']']) := by
  have hlist : Py.str (.list (xs.map .str)) =
      "[" ++ ", ".intercalate (xs.map Py.reprStr) ++ "]" := by
    rw [← reprItems_strings]
    rfl
  rw [hlist, String.toList_append, String.toList_append, String.toList_intercalate, List.map_map]
  rfl

/-- A list of strings is told by its text. -/
theorem str_inj {xs xs' : List String} (h : Py.str (.list (xs.map .str)) =
    Py.str (.list (xs'.map .str))) : xs = xs' := by
  have hlist := congrArg String.toList h
  rw [toList_str, toList_str, List.cons.injEq] at hlist
  have hitems := hlist.2
  have hbracket : ∀ s : String, ∀ rest, (Py.reprStr s).toList ++ rest ≠ [']'] := by
    intro s rest heq
    rw [toList_reprStr] at heq
    rcases quoteOf_isQuote s with hquote | hquote <;>
      · rw [hquote] at heq
        exact absurd (List.cons.inj heq).1 (by decide)
  cases xs with
  | nil =>
    cases xs' with
    | nil => rfl
    | cons x' xs' =>
      rw [intercalate_reprStr] at hitems
      exact absurd hitems.symm (hbracket x' _)
  | cons x xs =>
    rw [intercalate_reprStr] at hitems
    cases xs' with
    | nil => exact absurd hitems (hbracket x _)
    | cons x' xs' =>
      rw [intercalate_reprStr] at hitems
      obtain ⟨rfl, hmore⟩ := reprStr_inj hitems
      rw [itemsText_inj hmore]

end Py

end Constat
