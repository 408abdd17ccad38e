import Constat.Py.JsonText

/-!
# Py.JsonRoundTrip

`json.loads` reads back what `json.dumps` writes. The values are those without numbers: nothing the
program sends holds one.

* `scanString_dump` — a string comes back whatever its characters are.
* `parse_dump`      — a value comes back from in front of any text, if its nesting is within the
                      levels there are.
-/

namespace Constat

namespace Py

namespace JsonText

/-! ## Strings -/

theorem hexValue_digitChar : ∀ d < 16, hexValue (Nat.digitChar d) = some d := by decide

theorem scanString_escapeUnit {n : Nat} (hn : n < 0x10000) (rest : List Char) :
    scanString (escapeUnit n ++ rest) = prepend (pieceOf n) (scanString rest) := by
  have hhex : hex4 (Nat.digitChar (n / 4096)) (Nat.digitChar (n / 256 % 16))
      (Nat.digitChar (n / 16 % 16)) (Nat.digitChar (n % 16)) = some n := by
    rw [hex4, hexValue_digitChar _ (by omega), hexValue_digitChar _ (by omega),
      hexValue_digitChar _ (by omega), hexValue_digitChar _ (by omega)]
    simp only [Option.some.injEq]
    omega
  simp only [escapeUnit, List.cons_append, List.nil_append, scanString, hhex]

/-- The pieces that the text of a character is read as. -/
def piecesOf (c : Char) : List Piece :=
  if c.toNat < 0x10000 then [.char c]
  else [.half (0xd800 + (c.toNat - 0x10000) / 0x400), .half (0xdc00 + (c.toNat - 0x10000) % 0x400)]

theorem toNat_lt (c : Char) : c.toNat < 0x110000 := by
  rcases c.valid with h | ⟨_, h⟩
  · exact Nat.lt_trans h (by decide)
  · exact h

theorem pieceOf_toNat (c : Char) : pieceOf c.toNat = .char c := by
  have hvalid : ¬ (0xd800 ≤ c.toNat ∧ c.toNat < 0xe000) := by
    rcases c.valid with h | ⟨h, _⟩
    · exact fun h' => absurd h'.1 (Nat.not_le.2 h)
    · exact fun h' => absurd h'.2 (Nat.not_lt.2 h)
  rw [pieceOf, if_neg hvalid, Char.ofNat_toNat]

theorem pieceOf_half {n : Nat} (hlow : 0xd800 ≤ n) (hhigh : n < 0xe000) : pieceOf n = .half n := by
  rw [pieceOf, if_pos ⟨hlow, hhigh⟩]

theorem scanString_escapeChar (c : Char) (rest : List Char) :
    scanString (escapeChar c ++ rest) =
      (piecesOf c).foldr prepend (scanString rest) := by
  by_cases hplane : c.toNat < 0x10000
  · rw [piecesOf, if_pos hplane]
    simp only [List.foldr_cons, List.foldr_nil]
    unfold escapeChar
    split_ifs with h₁ h₂ h₃ h₄ h₅ h₆ h₇ h₈
    · subst h₁; rfl
    · subst h₂; rfl
    · subst h₃; rfl
    · subst h₄; rfl
    · subst h₅; rfl
    · subst h₆; rfl
    · subst h₇; rfl
    · rw [List.singleton_append, scanString]
      · rw [if_neg]
        rintro (h | h)
        · omega
        · exact h₂ h
      · exact h₁
      · intro a b d e rest' h
        exact absurd h h₂
      · intro a rest' h
        exact absurd h h₂
    · rw [scanString_escapeUnit hplane, pieceOf_toNat]
  · have hlt := toNat_lt c
    have hhigh : 0xd800 + (c.toNat - 0x10000) / 0x400 < 0xdc00 := by omega
    have hlow : 0xdc00 + (c.toNat - 0x10000) % 0x400 < 0xe000 := by omega
    have hne : ∀ d : Char, d.toNat < 0x10000 → c ≠ d := by
      rintro d hd rfl
      exact hplane hd
    have hescape : escapeChar c = escapeUnit (0xd800 + (c.toNat - 0x10000) / 0x400) ++
        escapeUnit (0xdc00 + (c.toNat - 0x10000) % 0x400) := by
      rw [escapeChar, if_neg (hne _ (by decide)), if_neg (hne _ (by decide)),
        if_neg (hne _ (by decide)), if_neg (hne _ (by decide)), if_neg (hne _ (by decide)),
        if_neg (hne _ (by decide)), if_neg (hne _ (by decide)), if_neg (by omega), if_neg hplane]
    rw [hescape, List.append_assoc, scanString_escapeUnit (by omega),
      scanString_escapeUnit (by omega), pieceOf_half (by omega) (by omega),
      pieceOf_half (by omega) hlow, piecesOf, if_neg hplane]
    rfl

theorem foldr_prepend (pieces more : List Piece) (rest : List Char) :
    pieces.foldr prepend (.ok (more, rest)) = .ok (pieces ++ more, rest) := by
  induction pieces with
  | nil => rfl
  | cons p pieces ih => rw [List.foldr_cons, ih]; rfl

theorem scanString_dump (cs rest : List Char) :
    scanString (cs.flatMap escapeChar ++ '"' :: rest) = .ok (cs.flatMap piecesOf, rest) := by
  induction cs with
  | nil => rfl
  | cons c cs ih =>
    rw [List.flatMap_cons, List.append_assoc, scanString_escapeChar, ih, foldr_prepend,
      List.flatMap_cons]

theorem joinHalves_piecesOf (c : Char) (more : List Piece) :
    joinHalves (piecesOf c ++ more) = c :: joinHalves more := by
  by_cases hplane : c.toNat < 0x10000
  · rw [piecesOf, if_pos hplane]
    rfl
  · have hlt := toNat_lt c
    rw [piecesOf, if_neg hplane]
    simp only [List.cons_append, List.nil_append, joinHalves]
    rw [if_pos (by omega)]
    have hsum : 0x10000 + (0xd800 + (c.toNat - 0x10000) / 0x400 - 0xd800) * 0x400 +
        (0xdc00 + (c.toNat - 0x10000) % 0x400 - 0xdc00) = c.toNat := by omega
    rw [hsum, Char.ofNat_toNat]

theorem joinHalves_dump (cs : List Char) : joinHalves (cs.flatMap piecesOf) = cs := by
  induction cs with
  | nil => rfl
  | cons c cs ih => rw [List.flatMap_cons, joinHalves_piecesOf, ih]

theorem parseString_dump (s : String) (rest : List Char) :
    parseString (s.toList.flatMap escapeChar ++ '"' :: rest) = .ok (s, rest) := by
  simp only [parseString, scanString_dump, joinHalves_dump, String.ofList_toList]

/-! ## Values -/

mutual

/-- No number in it, and no key twice in a dict. -/
def Plain : Json → Prop
  | .int _ => False
  | .float _ => False
  | .list xs => PlainItems xs
  | .obj fields => (fields.map (·.1)).Nodup ∧ PlainFields fields
  | _ => True

def PlainItems : List Json → Prop
  | [] => True
  | x :: xs => Plain x ∧ PlainItems xs

def PlainFields : List (String × Json) → Prop
  | [] => True
  | (_, v) :: fields => Plain v ∧ PlainFields fields

end

mutual

/-- The levels of nesting. -/
def depth : Json → Nat
  | .list xs => depthItems xs + 1
  | .obj fields => depthFields fields + 1
  | _ => 0

def depthItems : List Json → Nat
  | [] => 0
  | x :: xs => max (depth x) (depthItems xs)

def depthFields : List (String × Json) → Nat
  | [] => 0
  | (_, v) :: fields => max (depth v) (depthFields fields)

end

/-- What the text of a value begins with. -/
def Opens (cs : List Char) : Prop :=
  ∃ c rest, cs = c :: rest ∧ isJsonSpace c = false ∧ c ≠ ']' ∧ c ≠ '\x7d'

theorem opens_cons {c : Char} {rest : List Char} (hspace : isJsonSpace c = false) (h : c ≠ ']')
    (h' : c ≠ '\x7d') : Opens (c :: rest) := ⟨c, rest, rfl, hspace, h, h'⟩

theorem opens_dump {v : Json} (hv : Plain v) (rest : List Char) : Opens (dumpChars v ++ rest) := by
  cases v with
  | null => exact opens_cons rfl (by decide) (by decide)
  | bool b => cases b <;> exact opens_cons rfl (by decide) (by decide)
  | int i => exact absurd hv id
  | float f => exact absurd hv id
  | str s => exact opens_cons rfl (by decide) (by decide)
  | list xs => exact opens_cons rfl (by decide) (by decide)
  | obj fields => exact opens_cons rfl (by decide) (by decide)

theorem skipSpace_opens {cs : List Char} (h : Opens cs) : skipSpace cs = cs := by
  obtain ⟨c, rest, rfl, hspace, _⟩ := h
  rw [skipSpace, List.dropWhile_cons_of_neg (by simp [hspace])]

/-- A reader for entries that finds each one in front of any text. -/
def Finds {α : Type} (entry : List Char → Parsed α) (text : α → List Char) (x : α) : Prop :=
  ∀ rest, entry (text x ++ rest) = .ok (x, rest) ∧ Opens (text x ++ rest)

def separated {α : Type} (text : α → List Char) (xs : List α) : List Char :=
  [',', ' '].intercalate (xs.map text)

section

variable {α : Type} {entry : List Char → Parsed α} {text : α → List Char} {close : Char}

theorem separated_cons_cons (x y : α) (ys : List α) :
    separated text (x :: y :: ys) = text x ++ ',' :: ' ' :: separated text (y :: ys) := by
  simp [separated, List.intercalate_cons_cons]

theorem opens_separated {x : α} {xs : List α} (h : Finds entry text x) (rest : List Char) :
    Opens (separated text (x :: xs) ++ rest) := by
  cases xs with
  | nil =>
    rw [separated, List.map_cons, List.map_nil, List.intercalate_singleton]
    exact (h _).2
  | cons y ys =>
    rw [separated_cons_cons, List.append_assoc]
    exact (h _).2

theorem length_le_separated {xs : List α} (h : ∀ x ∈ xs, Finds entry text x) :
    xs.length ≤ (separated text xs).length := by
  induction xs with
  | nil => exact Nat.zero_le _
  | cons x xs ih =>
    obtain ⟨c, rest, hc, _⟩ := (h x List.mem_cons_self []).2
    have hpos : 0 < (text x).length := by
      rw [← List.append_nil (text x), hc]
      exact Nat.succ_pos _
    cases xs with
    | nil => simpa [separated] using Nat.succ_le_of_lt hpos
    | cons y ys =>
      have hrest := ih fun z hz => h z (List.mem_cons_of_mem x hz)
      simp only [separated_cons_cons, List.length_append, List.length_cons] at hrest ⊢
      omega

/-- The entries come back, if the reader finds each of them. -/
theorem parseEntries_dump (hclose : isJsonSpace close = false) (hcomma : close ≠ ',')
    (rest : List Char) : ∀ {xs : List α} {n : Nat}, xs ≠ [] → xs.length ≤ n →
      (∀ x ∈ xs, Finds entry text x) →
      parseEntries entry close n (separated text xs ++ close :: rest) = .ok (xs, rest) := by
  intro xs
  induction xs with
  | nil => intro n h; exact absurd rfl h
  | cons x xs ih =>
    intro n _ hn hall
    cases n with
    | zero => cases hn
    | succ n =>
      have hx := fun rest => (hall x List.mem_cons_self rest).1
      cases xs with
      | nil =>
        have hskip : skipSpace (close :: rest) = close :: rest := by
          rw [skipSpace, List.dropWhile_cons_of_neg (by simp [hclose])]
        simp only [separated, List.map_cons, List.map_nil, List.intercalate_singleton,
          parseEntries, hx, hskip, if_pos]
      | cons y ys =>
        have hrest := ih (List.cons_ne_nil y ys) (Nat.le_of_succ_le_succ hn)
          fun z hz => hall z (List.mem_cons_of_mem x hz)
        have hopens : Opens (separated text (y :: ys) ++ close :: rest) :=
          opens_separated (hall y (by simp)) _
        have hskip : skipSpace (' ' :: (separated text (y :: ys) ++ close :: rest)) =
            separated text (y :: ys) ++ close :: rest := by
          rw [skipSpace, List.dropWhile_cons_of_pos (by rfl), ← skipSpace, skipSpace_opens hopens]
        have hcomma' : ∀ cs, skipSpace (',' :: cs) = ',' :: cs := fun _ => rfl
        rw [separated_cons_cons, List.append_assoc, parseEntries, hx]
        simp only [List.cons_append, hcomma', if_neg hcomma.symm, if_true, hskip, hrest, prepend]

/-- So the loop bound that the text gives is enough. -/
theorem parseEntries_separated (hclose : isJsonSpace close = false) (hcomma : close ≠ ',')
    {xs : List α} (hne : xs ≠ []) (hall : ∀ x ∈ xs, Finds entry text x) (rest : List Char) :
    parseEntries entry close (separated text xs ++ close :: rest).length
      (separated text xs ++ close :: rest) = .ok (xs, rest) := by
  have hle := length_le_separated hall
  refine parseEntries_dump hclose hcomma rest hne ?_ hall
  rw [List.length_append]
  omega

end

theorem parseArray_opens {value : List Char → Parsed Json} {cs : List Char} (h : Opens cs)
    {xs : List Json} {rest : List Char}
    (hitems : parseEntries value ']' cs.length cs = .ok (xs, rest)) :
    parseArray value cs = .ok (.list xs, rest) := by
  obtain ⟨c, cs', hcs, _, hclose, _⟩ := id h
  rw [parseArray, skipSpace_opens h]
  split
  · exact absurd (List.cons.inj hcs).1.symm hclose
  · rw [hitems]

theorem parseObject_opens {value : List Char → Parsed Json} {cs : List Char} (h : Opens cs)
    {fields : List (String × Json)} {rest : List Char}
    (hfields : parseEntries (parseField value) '\x7d' cs.length cs = .ok (fields, rest)) :
    parseObject value cs = .ok (.obj (dictOf fields), rest) := by
  obtain ⟨c, cs', hcs, _, _, hclose⟩ := id h
  rw [parseObject, skipSpace_opens h]
  split
  · exact absurd (List.cons.inj hcs).1.symm hclose
  · rw [hfields]

theorem dumpItems_eq (xs : List Json) : dumpItems xs = xs.map dumpChars := by
  induction xs with
  | nil => rfl
  | cons x xs ih => rw [dumpItems, ih, List.map_cons]

def dumpField (p : String × Json) : List Char := dumpString p.1 ++ [':', ' '] ++ dumpChars p.2

theorem dumpFields_eq (fields : List (String × Json)) :
    dumpFields fields = fields.map dumpField := by
  induction fields with
  | nil => rfl
  | cons p fields ih => rw [dumpFields, ih, List.map_cons]; rfl

theorem plain_of_mem {xs : List Json} (h : PlainItems xs) : ∀ x ∈ xs, Plain x := by
  induction xs with
  | nil => simp
  | cons x xs ih => simpa using ⟨h.1, ih h.2⟩

theorem plain_of_mem_fields {fields : List (String × Json)} (h : PlainFields fields) :
    ∀ p ∈ fields, Plain p.2 := by
  induction fields with
  | nil => simp
  | cons p fields ih =>
    intro q hq
    rcases List.mem_cons.1 hq with rfl | hq
    · exact h.1
    · exact ih h.2 q hq

theorem depth_le_of_mem {xs : List Json} : ∀ x ∈ xs, depth x ≤ depthItems xs := by
  induction xs with
  | nil => simp
  | cons x xs ih =>
    intro y hy
    rcases List.mem_cons.1 hy with rfl | hy
    · exact Nat.le_max_left _ _
    · exact (ih y hy).trans (Nat.le_max_right _ _)

theorem depth_le_of_mem_fields {fields : List (String × Json)} :
    ∀ p ∈ fields, depth p.2 ≤ depthFields fields := by
  induction fields with
  | nil => simp
  | cons p fields ih =>
    intro q hq
    rcases List.mem_cons.1 hq with rfl | hq
    · exact Nat.le_max_left _ _
    · exact (ih q hq).trans (Nat.le_max_right _ _)

theorem dictOf_eq {fields : List (String × Json)} (h : (fields.map (·.1)).Nodup) :
    dictOf fields = fields := by
  rw [dictOf, Dict.items_foldl_set _ _ _ _ (by simpa [Dict.empty, Dict.keys] using h)]
  simp [Dict.empty]

/-- A value in front of any text, with a reader for the values in it. -/
theorem scanOnce_dump {nested : Option (List Char → Parsed Json)} {levels : Nat}
    (hnested : ∀ n, levels = n + 1 → ∃ value, nested = some value ∧ ∀ v rest, Plain v →
      depth v ≤ n → value (dumpChars v ++ rest) = .ok (v, rest))
    {v : Json} (hv : Plain v) (hdepth : depth v ≤ levels) (rest : List Char) :
    scanOnce nested (dumpChars v ++ rest) = .ok (v, rest) := by
  cases v with
  | null => rfl
  | bool b => cases b <;> rfl
  | int i => exact absurd hv id
  | float f => exact absurd hv id
  | str s =>
    have h := parseString_dump s rest
    simp only [dumpChars, dumpString, List.cons_append, List.append_assoc, List.nil_append,
      scanOnce, h]
  | list xs =>
    obtain ⟨n, rfl⟩ := Nat.exists_eq_succ_of_ne_zero (Nat.ne_of_gt (Nat.lt_of_lt_of_le
      (Nat.succ_pos _) hdepth))
    obtain ⟨value, rfl, hvalue⟩ := hnested n rfl
    simp only [dumpChars, List.cons_append, List.append_assoc, List.nil_append, scanOnce,
      Option.elim_some, dumpItems_eq]
    cases xs with
    | nil => rfl
    | cons x xs =>
      have hall : ∀ y ∈ x :: xs, Finds value dumpChars y := by
        intro y hy rest
        have hplain := plain_of_mem hv y hy
        have hle := depth_le_of_mem y hy
        exact ⟨hvalue y rest hplain (hle.trans (Nat.le_of_succ_le_succ hdepth)),
          opens_dump hplain rest⟩
      exact parseArray_opens (opens_separated (hall x List.mem_cons_self) _)
        (parseEntries_separated rfl (by decide) (List.cons_ne_nil x xs) hall rest)
  | obj fields =>
    obtain ⟨n, rfl⟩ := Nat.exists_eq_succ_of_ne_zero (Nat.ne_of_gt (Nat.lt_of_lt_of_le
      (Nat.succ_pos _) hdepth))
    obtain ⟨value, rfl, hvalue⟩ := hnested n rfl
    simp only [dumpChars, List.cons_append, List.append_assoc, List.nil_append, scanOnce,
      Option.elim_some, dumpFields_eq]
    cases fields with
    | nil => rfl
    | cons p fields =>
      have hall : ∀ q ∈ p :: fields, Finds (parseField value) dumpField q := by
        intro q hq rest
        have hplain := plain_of_mem_fields hv.2 q hq
        have hle := depth_le_of_mem_fields q hq
        refine ⟨?_, opens_cons rfl (by decide) (by decide)⟩
        have hskip : skipSpace (':' :: ' ' :: (dumpChars q.2 ++ rest)) =
            ':' :: ' ' :: (dumpChars q.2 ++ rest) := rfl
        have hskip' : skipSpace (' ' :: (dumpChars q.2 ++ rest)) = dumpChars q.2 ++ rest := by
          rw [skipSpace, List.dropWhile_cons_of_pos (by rfl), ← skipSpace,
            skipSpace_opens (opens_dump hplain rest)]
        simp only [dumpField, dumpString, List.cons_append, List.append_assoc, List.nil_append,
          parseField, parseString_dump, hskip, hskip',
          hvalue q.2 rest hplain (hle.trans (Nat.le_of_succ_le_succ hdepth))]
      have hobject := parseObject_opens (opens_separated (hall p List.mem_cons_self) _)
        (parseEntries_separated rfl (by decide) (List.cons_ne_nil p fields) hall rest)
      rw [dictOf_eq hv.1] at hobject
      exact hobject

theorem parse_dump : ∀ {levels : Nat} {v : Json}, Plain v → depth v ≤ levels → ∀ rest,
    parse levels (dumpChars v ++ rest) = .ok (v, rest)
  | 0, _, hv, hdepth, rest => scanOnce_dump (fun _ h => by cases h) hv hdepth rest
  | levels + 1, _, hv, hdepth, rest => by
    refine scanOnce_dump (fun n hn => ?_) hv hdepth rest
    cases hn
    exact ⟨_, rfl, fun v rest hv hle => parse_dump hv hle rest⟩

end JsonText

open JsonText

theorem loads_dumps {levels : Nat} {v : Json} (hv : Plain v) (hdepth : depth v ≤ levels) :
    loads levels (dumps v) = .ok v := by
  have hopens : Opens (dumpChars v) := by
    have h := opens_dump hv []
    rwa [List.append_nil] at h
  have hhead : (dumpChars v).head? ≠ some '\ufeff' := by
    cases v with
    | null => decide
    | bool b => cases b <;> decide
    | int i => exact absurd hv id
    | float f => exact absurd hv id
    | str s => simp [dumpChars, dumpString]
    | list xs => simp [dumpChars]
    | obj fields => simp [dumpChars]
  have hparse := parse_dump hv hdepth []
  rw [List.append_nil] at hparse
  rw [loads, dumps, String.toList_ofList, if_neg hhead, skipSpace_opens hopens, hparse]
  rfl

end Py

end Constat
