import Mathlib.Data.List.Sort
import Mathlib.Data.Option.Basic
import Relprim.Library.Text

/-!
JSON as Python's json module writes and reads it: objects of scalars are written with
sorted keys, without blanks and without escaping what is not ASCII, and any text is
read. The floats with their `repr` are a parameter.
-/
namespace Json
open Text
variable {F : Type}

inductive Scalar (F : Type) where
  | null
  | bool (b : Bool)
  | int (n : ℤ)
  | float (x : F)
  | str (s : Str)
  deriving DecidableEq

inductive Value (F : Type) where
  | scalar (s : Scalar F)
  | array (items : List (Value F))
  | object (members : List (Str × Value F))

/-- The type of floats: `float` reads the numerals and constants of a text. The conversion
    between int and str raises ValueError beyond `digitLimit` digits. -/
structure Format (F : Type) where
  isfinite : F → Bool
  repr : F → Str
  float : Str → F
  digitLimit : Option ℕ

def Format.within (fmt : Format F) (digits : ℕ) : Bool := fmt.digitLimit.all (digits ≤ ·)

def quote : CodePoint := chr 0x22
def backslash : CodePoint := chr 0x5C
def comma : CodePoint := chr 0x2C
def colon : CodePoint := chr 0x3A
def minus : CodePoint := chr 0x2D
def plus : CodePoint := chr 0x2B
def point : CodePoint := chr 0x2E
def leftBrace : CodePoint := chr 0x7B
def rightBrace : CodePoint := chr 0x7D
def leftBracket : CodePoint := chr 0x5B
def rightBracket : CodePoint := chr 0x5D

def shortEscapes : List (CodePoint × CodePoint) :=
  [(backslash, backslash), (quote, quote), (chr 0x08, code 'b'), (chr 0x0C, code 'f'),
    (chr 0x0A, code 'n'), (chr 0x0D, code 'r'), (chr 0x09, code 't')]

def hexDigit (d : ℕ) : CodePoint := if d < 10 then digit d else ⟨0x61 + (d - 10) % 6, by omega⟩

def hexValue (c : CodePoint) : Option ℕ :=
  if isDigit c then some (digitValue c)
  else if 0x61 ≤ c.val ∧ c.val ≤ 0x66 then some (c.val - 0x61 + 10)
  else if 0x41 ≤ c.val ∧ c.val ≤ 0x46 then some (c.val - 0x41 + 10)
  else none

/-! `dumps`. -/

def escapeChar (c : CodePoint) : Str :=
  match shortEscapes.lookup c with
  | some e => [backslash, e]
  | none =>
    if c.val < 0x20 then
      [backslash, code 'u', digit 0, digit 0, hexDigit (c.val / 16), hexDigit (c.val % 16)]
    else [c]

def quoted (s : Str) : Str := quote :: (s.flatMap escapeChar ++ [quote])

/-- The text of an int, as long as its digits may be counted. -/
def intText (fmt : Format F) (n : ℤ) : Option Str :=
  if fmt.within (natural n.natAbs).length then
    some ((if n < 0 then [minus] else []) ++ natural n.natAbs)
  else none

def scalarText (fmt : Format F) : Scalar F → Option Str
  | .null => some (ofString "null")
  | .bool true => some (ofString "true")
  | .bool false => some (ofString "false")
  | .int n => intText fmt n
  | .float x => if fmt.isfinite x then some (fmt.repr x) else none
  | .str s => some (quoted s)

def memberText (fmt : Format F) (member : Str × Scalar F) : Option Str :=
  (scalarText fmt member.2).map fun text => quoted member.1 ++ colon :: text

def objectText (texts : List Str) : Str :=
  leftBrace :: ([comma].intercalate texts ++ [rightBrace])

def sortKeys (members : List (Str × Scalar F)) : List (Str × Scalar F) :=
  members.insertionSort fun m n => m.1 ≤ n.1

/-- `json.dumps`; none is a ValueError. -/
def dumps (fmt : Format F) (members : List (Str × Scalar F)) : Option Str :=
  ((sortKeys members).mapM (memberText fmt)).map objectText

/-! `loads`. -/

def isBlank (c : CodePoint) : Bool := c.val ∈ [0x20, 0x09, 0x0A, 0x0D]

def skipBlanks (s : Str) : Str := s.dropWhile isBlank

def unescape (e : CodePoint) : Option CodePoint :=
  ((code '/', code '/') :: shortEscapes.map Prod.swap).lookup e

def hex4 (a b c d : CodePoint) : Option CodePoint := do
  let a ← hexValue a
  let b ← hexValue b
  let c ← hexValue c
  let d ← hexValue d
  return chr (((a * 16 + b) * 16 + c) * 16 + d)

/-- The characters up to the closing quote, and whether each was written in hexadecimal. -/
def units : Str → Option (List (CodePoint × Bool) × Str)
  | [] => none
  | c :: rest =>
    if c = quote then some ([], rest)
    else if c = backslash then
      match rest with
      | [] => none
      | e :: rest =>
        if e = code 'u' then
          match rest with
          | a :: b :: c :: d :: rest => do
            let n ← hex4 a b c d
            let (more, rest) ← units rest
            return ((n, true) :: more, rest)
          | _ => none
        else do
          let n ← unescape e
          let (more, rest) ← units rest
          return ((n, false) :: more, rest)
    else if c.val < 0x20 then none
    else do
      let (more, rest) ← units rest
      return ((c, false) :: more, rest)

def isHigh (c : CodePoint) : Bool := 0xD800 ≤ c.val && c.val < 0xDC00
def isLow (c : CodePoint) : Bool := 0xDC00 ≤ c.val && c.val < 0xE000

def pair (high low : CodePoint) : CodePoint :=
  chr (0x10000 + (high.val - 0xD800) * 0x400 + (low.val - 0xDC00))

/-- A surrogate pair of which both halves were written in hexadecimal is one character; such
    a high surrogate waits for what follows. -/
def joinPairs : Option CodePoint → List (CodePoint × Bool) → Str
  | waiting, [] => waiting.toList
  | none, (c, escaped) :: rest =>
    if escaped && isHigh c then joinPairs (some c) rest else c :: joinPairs none rest
  | some high, (c, escaped) :: rest =>
    if escaped && isLow c then pair high c :: joinPairs none rest
    else if escaped && isHigh c then high :: joinPairs (some c) rest
    else high :: c :: joinPairs none rest

def scanString (s : Str) : Option (Str × Str) :=
  (units s).map fun (us, rest) => (joinPairs none us, rest)

def scanSign (s : Str) : Str × Str :=
  match s with
  | c :: rest => if c = minus then ([minus], rest) else ([], s)
  | [] => ([], [])

def scanInteger (s : Str) : Option (Str × Str) :=
  match s with
  | c :: rest => if c = digit 0 then some ([c], rest) else if isDigit c then some (spanDigits s) else none
  | [] => none

def scanFraction (s : Str) : Str × Str :=
  match s with
  | c :: rest =>
    if c = point ∧ (spanDigits rest).1 ≠ [] then (c :: (spanDigits rest).1, (spanDigits rest).2)
    else ([], s)
  | [] => ([], [])

def scanExponentSign (s : Str) : Str × Str :=
  match s with
  | c :: rest => if c = minus ∨ c = plus then ([c], rest) else ([], s)
  | [] => ([], [])

def scanExponent (s : Str) : Str × Str :=
  match s with
  | c :: rest =>
    let (sign, after) := scanExponentSign rest
    if (c = code 'e' ∨ c = code 'E') ∧ (spanDigits after).1 ≠ [] then
      (c :: (sign ++ (spanDigits after).1), (spanDigits after).2)
    else ([], s)
  | [] => ([], [])

structure Numeral where
  sign : Str
  integer : Str
  fraction : Str
  exponent : Str

def scanNumeral (s : Str) : Option (Numeral × Str) := do
  let (sign, s) := scanSign s
  let (integer, s) ← scanInteger s
  let (fraction, s) := scanFraction s
  let (exponent, s) := scanExponent s
  return (⟨sign, integer, fraction, exponent⟩, s)

def Numeral.text (n : Numeral) : Str := n.sign ++ (n.integer ++ (n.fraction ++ n.exponent))

def Numeral.scalar (fmt : Format F) (n : Numeral) : Option (Scalar F) :=
  if n.fraction = [] ∧ n.exponent = [] then
    if fmt.within n.integer.length then
      some (.int (if n.sign = [] then value n.integer else - (value n.integer : ℤ)))
    else none
  else some (.float (fmt.float n.text))

def word (w : String) (a : A) (s : Str) : Option (A × Str) :=
  if (ofString w).isPrefixOf s then some (a, s.drop (ofString w).length) else none

def scanConstant (fmt : Format F) (s : Str) : Option (Scalar F × Str) :=
  word "NaN" (.float (fmt.float (ofString "NaN"))) s <|>
    word "Infinity" (.float (fmt.float (ofString "Infinity"))) s <|>
    word "-Infinity" (.float (fmt.float (ofString "-Infinity"))) s

def scanScalar (fmt : Format F) (s : Str) : Option (Scalar F × Str) :=
  match s with
  | [] => none
  | c :: rest =>
    if c = quote then (scanString rest).map fun (t, rest) => (.str t, rest)
    else if c = code 'n' then word "null" .null s
    else if c = code 't' then word "true" (.bool true) s
    else if c = code 'f' then word "false" (.bool false) s
    else
      match scanNumeral s with
      | some (n, rest) => (n.scalar fmt).map fun v => (v, rest)
      | none => scanConstant fmt s

def expect (c : CodePoint) (s : Str) : Option Str :=
  match s with
  | d :: rest => if d = c then some rest else none
  | [] => none

def members (value : Str → Option (Value F × Str)) : ℕ → Str → Option (List (Str × Value F) × Str)
  | 0, _ => none
  | fuel + 1, s => do
    let s ← expect quote s
    let (key, s) ← scanString s
    let s ← expect colon (skipBlanks s)
    let (v, s) ← value (skipBlanks s)
    match skipBlanks s with
    | [] => none
    | c :: rest =>
      if c = rightBrace then return ([(key, v)], rest)
      else if c = comma then do
        let (more, rest) ← members value fuel (skipBlanks rest)
        return ((key, v) :: more, rest)
      else none

def items (value : Str → Option (Value F × Str)) : ℕ → Str → Option (List (Value F) × Str)
  | 0, _ => none
  | fuel + 1, s => do
    let (v, s) ← value s
    match skipBlanks s with
    | [] => none
    | c :: rest =>
      if c = rightBracket then return ([v], rest)
      else if c = comma then do
        let (more, rest) ← items value fuel (skipBlanks rest)
        return (v :: more, rest)
      else none

/-- A value, where `fuel` bounds what may still be nested or follow. -/
def scanValue (fmt : Format F) : ℕ → Str → Option (Value F × Str)
  | 0, _ => none
  | fuel + 1, s =>
    match s with
    | [] => none
    | c :: rest =>
      if c = leftBrace then
        match skipBlanks rest with
        | [] => none
        | d :: after =>
          if d = rightBrace then some (.object [], after)
          else (members (scanValue fmt fuel) fuel (d :: after)).map fun (ms, s) => (.object ms, s)
      else if c = leftBracket then
        match skipBlanks rest with
        | [] => none
        | d :: after =>
          if d = rightBracket then some (.array [], after)
          else (items (scanValue fmt fuel) fuel (d :: after)).map fun (vs, s) => (.array vs, s)
      else (scanScalar fmt s).map fun (v, s) => (.scalar v, s)

/-- `json.loads`; none is a ValueError. -/
def loads (fmt : Format F) (s : Str) : Option (Value F) := do
  let (v, rest) ← scanValue fmt (s.length + 1) (skipBlanks s)
  if skipBlanks rest = [] then return v else none

end Json
