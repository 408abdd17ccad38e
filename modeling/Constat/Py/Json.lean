import Mathlib.Data.Rat.Defs

/-!
# Py.Json

The JSON values a fact or a payload carries, as Python holds them after reading a JSONB column.
Finite floats are exact rationals: every amount below is computed without rounding until the code
itself rounds. A dict is its list of items in insertion order.
-/

namespace Constat

inductive PyFloat where
  | finite (q : Rat)
  | inf (neg : Bool)
  | nan
deriving DecidableEq

inductive Json where
  | null
  | bool (b : Bool)
  | int (i : Int)
  | float (f : PyFloat)
  | str (s : String)
  | list (xs : List Json)
  | obj (fields : List (String × Json))

namespace Json

mutual

def decEq : (a b : Json) → Decidable (a = b)
  | null, null => isTrue rfl
  | bool x, bool y => decidable_of_iff (x = y) (by simp)
  | int x, int y => decidable_of_iff (x = y) (by simp)
  | float x, float y => decidable_of_iff (x = y) (by simp)
  | str x, str y => decidable_of_iff (x = y) (by simp)
  | list x, list y => @decidable_of_iff _ (x = y) (by simp) (decEqList x y)
  | obj x, obj y => @decidable_of_iff _ (x = y) (by simp) (decEqFields x y)
  | null, bool _ | null, int _ | null, float _ | null, str _ | null, list _ | null, obj _
  | bool _, null | bool _, int _ | bool _, float _ | bool _, str _ | bool _, list _
  | bool _, obj _ | int _, null | int _, bool _ | int _, float _ | int _, str _
  | int _, list _ | int _, obj _ | float _, null | float _, bool _ | float _, int _
  | float _, str _ | float _, list _ | float _, obj _ | str _, null | str _, bool _
  | str _, int _ | str _, float _ | str _, list _ | str _, obj _ | list _, null
  | list _, bool _ | list _, int _ | list _, float _ | list _, str _ | list _, obj _
  | obj _, null | obj _, bool _ | obj _, int _ | obj _, float _ | obj _, str _
  | obj _, list _ => isFalse (by intro h; cases h)

def decEqList : (a b : List Json) → Decidable (a = b)
  | [], [] => isTrue rfl
  | [], _ :: _ | _ :: _, [] => isFalse (by intro h; cases h)
  | x :: xs, y :: ys =>
    match decEq x y, decEqList xs ys with
    | isTrue h, isTrue h' => isTrue (by rw [h, h'])
    | isFalse h, _ => isFalse (by intro he; cases he; exact h rfl)
    | _, isFalse h => isFalse (by intro he; cases he; exact h rfl)

def decEqFields : (a b : List (String × Json)) → Decidable (a = b)
  | [], [] => isTrue rfl
  | [], _ :: _ | _ :: _, [] => isFalse (by intro h; cases h)
  | (k, x) :: xs, (l, y) :: ys =>
    match decEq x y, decEqFields xs ys with
    | isTrue h, isTrue h' => decidable_of_iff (k = l) (by simp [h, h'])
    | isFalse h, _ => isFalse (by intro he; cases he; exact h rfl)
    | _, isFalse h => isFalse (by intro he; cases he; exact h rfl)

end

instance : DecidableEq Json := decEq

/-- `dict.get` on the items of a dict. -/
def get? (fields : List (String × Json)) (k : String) : Option Json :=
  (fields.find? fun p => p.1 = k).map (·.2)

end Json

end Constat
