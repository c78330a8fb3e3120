import Mathlib.Data.Rat.Defs
import Mathlib.Algebra.Order.Ring.Rat
import Relprim.Library.Dictionary

/-!
The Python values the package computes with. A finite float is the rational it
denotes and arithmetic on it is exact; the infinities and NaN are kept apart so
that the finiteness checks of the source have something to reject.
-/
namespace Relprim
open Dictionary

inductive PyFloat where
  | finite (q : ℚ)
  | inf (negative : Bool)
  | nan
  deriving DecidableEq

def PyFloat.isfinite : PyFloat → Bool
  | .finite _ => true
  | _ => false

/-- `JsonScalar` of _checks.py; bool, int and float stay apart. -/
inductive JsonScalar where
  | str (s : String)
  | int (n : ℤ)
  | float (x : PyFloat)
  | bool (b : Bool)
  | none
  deriving DecidableEq

def JsonScalar.isfinite : JsonScalar → Bool
  | .float x => x.isfinite
  | _ => true

def JsonScalar.seconds (q : ℚ) : JsonScalar := .float (.finite q)

def JsonScalar.ofOption (f : α → JsonScalar) : Option α → JsonScalar
  | some a => f a
  | Option.none => .none

@[simp] theorem JsonScalar.isfinite_str (s : String) : (JsonScalar.str s).isfinite = true := rfl
@[simp] theorem JsonScalar.isfinite_int (n : ℤ) : (JsonScalar.int n).isfinite = true := rfl
@[simp] theorem JsonScalar.isfinite_float (x : PyFloat) :
    (JsonScalar.float x).isfinite = x.isfinite := rfl
@[simp] theorem JsonScalar.isfinite_bool (b : Bool) : (JsonScalar.bool b).isfinite = true := rfl
@[simp] theorem JsonScalar.isfinite_none : JsonScalar.none.isfinite = true := rfl
@[simp] theorem JsonScalar.isfinite_seconds (q : ℚ) : (JsonScalar.seconds q).isfinite = true := rfl

@[simp] theorem JsonScalar.isfinite_ofOption (f : α → JsonScalar) (o : Option α) :
    (JsonScalar.ofOption f o).isfinite = o.all fun a => (f a).isfinite := by
  cases o <;> rfl

/-- Any object a caller or a callback can hand in. -/
inductive PyValue where
  | scalar (s : JsonScalar)
  | other (typeName : String)
  deriving DecidableEq

/-- An int or float setting; a float setting has passed its finiteness check. -/
inductive PyNumber where
  | int (n : ℤ)
  | float (q : ℚ)
  deriving DecidableEq

def PyNumber.value : PyNumber → ℚ
  | .int n => n
  | .float q => q

/-- The least value that rounds to no float: from here on a float result or a conversion from
    int raises OverflowError. -/
def floatLimit : ℕ := 2 ^ 1024 - 2 ^ 970

/-- `utcoffset` is none for a naive datetime; `instant` counts microseconds from the start of
    year 1 in UTC. -/
structure DateTime where
  instant : ℤ
  utcoffset : Option ℤ
  deriving DecidableEq

def DateTime.utc (instant : ℤ) : DateTime := ⟨instant, some 0⟩

abbrev Metadata := Dict String JsonScalar
abbrev EventPayload := Dict String JsonScalar

/-- The characters that `str.strip()` removes. -/
def isSpace (c : Char) : Bool :=
  c.val ∈ [0x09, 0x0a, 0x0b, 0x0c, 0x0d, 0x1c, 0x1d, 0x1e, 0x1f, 0x20, 0x85, 0xa0, 0x1680,
    0x2000, 0x2001, 0x2002, 0x2003, 0x2004, 0x2005, 0x2006, 0x2007, 0x2008, 0x2009, 0x200a,
    0x2028, 0x2029, 0x202f, 0x205f, 0x3000]

def isBlank (s : String) : Bool := s.toList.all isSpace

end Relprim
