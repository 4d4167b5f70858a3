import RobotTaskManager.Lib.PyText
import Mathlib.Data.Int.Log
import Mathlib.Data.Rat.Floor

set_option autoImplicit false

/-! # `json.loads`

The decoder of Python's `json` module: what it makes of bytes, and which exception it raises on
the others. It reads more than JSON: `NaN`, `Infinity` and `-Infinity` are numbers, and a number
that is too large for a float is infinite. It reads less as well: an integer has a limited number
of digits, and the objects and arrays that are open at once are limited by the recursion limit.

The functions bear the names of the decoder's own, those of its C part among them.
-/

namespace PyJson

open PyText

/-! ## Values -/

/-- A `float`. -/
inductive Double
  | nan
  | infinite (negative : Bool)
  | finite (negative : Bool) (magnitude : ℚ)
  deriving DecidableEq

/-- The nearest integer, of two the even one. -/
def roundHalfEven (q : ℚ) : ℤ :=
  let n := ⌊q⌋
  if q - n < 1 / 2 then n
  else if 1 / 2 < q - n then n + 1
  else if n % 2 = 0 then n
  else n + 1

/-- The double that is nearest to a number; it has 53 bits, the last of them worth at least
`2 ^ (-1074)`. -/
def Double.nearest (negative : Bool) (magnitude : ℚ) : Double :=
  let ulp : ℚ := 2 ^ max (Int.log 2 magnitude - 52) (-1074)
  let rounded := roundHalfEven (magnitude / ulp) * ulp
  if rounded < 2 ^ 1024 then .finite negative rounded else .infinite negative

/-- What `json.loads` gives. A dict is the list of its items in insertion order. -/
inductive Val
  | null
  | bool (b : Bool)
  | int (n : ℤ)
  | float (x : Double)
  | str (s : Text)
  | list (xs : List Val)
  | dict (items : List (Text × Val))

/-- `d[key] = v`; `same` tells whether two keys are equal. -/
def setItem {κ α : Type} (same : κ → κ → Bool) (items : List (κ × α)) (key : κ) (v : α) :
    List (κ × α) :=
  if items.any fun e => same e.1 key then
    items.map fun e => if same e.1 key then (e.1, v) else e
  else items ++ [(key, v)]

/-- The exceptions of `json.loads`. A `UnicodeDecodeError` is a `ValueError`, but not a
`JSONDecodeError`. -/
inductive Raised
  | unicodeDecodeError
  | jsonDecodeError
  | valueError
  | recursionError
  deriving DecidableEq

/-! ## Tokens -/

def isWhitespace (c : ℕ) : Bool := c = 0x20 || c = 0x09 || c = 0x0A || c = 0x0D

/-- The text behind the whitespace that it begins with. -/
def skip (cs : Text) : Text := cs.dropWhile isWhitespace

def isDigit (c : ℕ) : Bool := '0'.toNat ≤ c && c ≤ '9'.toNat

def hexDigit? (c : ℕ) : Option ℕ :=
  if isDigit c then some (c - '0'.toNat)
  else if 'a'.toNat ≤ c && c ≤ 'f'.toNat then some (c - 'a'.toNat + 10)
  else if 'A'.toNat ≤ c && c ≤ 'F'.toNat then some (c - 'A'.toNat + 10)
  else none

def hex4? (a b c d : ℕ) : Option ℕ := do
  let a ← hexDigit? a
  let b ← hexDigit? b
  let c ← hexDigit? c
  let d ← hexDigit? d
  return ((a * 16 + b) * 16 + c) * 16 + d

/-- The character of an escape of two characters, by the second of them. -/
def escape? (c : ℕ) : Option ℕ :=
  (([('"', 0x22), ('\\', 0x5C), ('/', 0x2F), ('b', 0x08), ('f', 0x0C), ('n', 0x0A), ('r', 0x0D),
    ('t', 0x09)] : List (Char × ℕ)).map fun e => (e.1.toNat, e.2)).lookup c

/-- The pieces of a string behind its opening quote, and the text behind the closing one. -/
def scanPieces : Text → Option (List Piece × Text)
  | [] => none
  | c :: cs =>
      if c = '"'.toNat then some ([], cs)
      else if c = '\\'.toNat then
        match cs with
        | [] => none
        | e :: cs =>
            if e = 'u'.toNat then
              match cs with
              | h₁ :: h₂ :: h₃ :: h₄ :: cs => do
                  let u ← hex4? h₁ h₂ h₃ h₄
                  let r ← scanPieces cs
                  return (.unit u :: r.1, r.2)
              | _ => none
            else do
              let c ← escape? e
              let r ← scanPieces cs
              return (.char c :: r.1, r.2)
      else if c < 0x20 then none
      else do
        let r ← scanPieces cs
        return (.char c :: r.1, r.2)

/-- `scanstring`, behind the opening quote -/
def scanString (cs : Text) : Option (Text × Text) :=
  (scanPieces cs).map fun r => (joinPieces r.1, r.2)

/-- A number as it is written. -/
structure NumberLiteral where
  negative : Bool
  integer : Text
  /-- The digits behind the point; none if there is no point. -/
  fraction : Text
  exponent : Option ℤ

/-- The number that digits write. -/
def digitsValue (ds : Text) : ℕ := ds.foldl (fun n d => 10 * n + (d - '0'.toNat)) 0

/-- A digit is not `0` when others follow it. -/
def matchInteger : Text → Option (Text × Text)
  | [] => none
  | c :: cs =>
      if c = '0'.toNat then some ([c], cs)
      else if isDigit c then some (c :: cs.takeWhile isDigit, cs.dropWhile isDigit)
      else none

/-- A point counts only with a digit behind it. -/
def matchFraction : Text → Text × Text
  | c :: cs =>
      if c = '.'.toNat ∧ cs.takeWhile isDigit ≠ [] then
        (cs.takeWhile isDigit, cs.dropWhile isDigit)
      else ([], c :: cs)
  | [] => ([], [])

/-- The sign of a number or an exponent; `plus`: it may also be a plus. -/
def matchSign (plus : Bool) : Text → Bool × Text
  | c :: cs =>
      if c = '-'.toNat then (true, cs)
      else if plus ∧ c = '+'.toNat then (false, cs)
      else (false, c :: cs)
  | [] => (false, [])

/-- An `e` counts only with an exponent behind it. -/
def matchExponent : Text → Option ℤ × Text
  | c :: cs =>
      let (negative, ds) := matchSign true cs
      if (c = 'e'.toNat ∨ c = 'E'.toNat) ∧ ds.takeWhile isDigit ≠ [] then
        let n : ℤ := digitsValue (ds.takeWhile isDigit)
        (some (if negative then -n else n), ds.dropWhile isDigit)
      else (none, c :: cs)
  | [] => (none, [])

/-- `_match_number` -/
def matchNumber (cs : Text) : Option (NumberLiteral × Text) := do
  let (negative, cs) := matchSign false cs
  let (integer, cs) ← matchInteger cs
  let (fraction, cs) := matchFraction cs
  let (exponent, cs) := matchExponent cs
  return (⟨negative, integer, fraction, exponent⟩, cs)

def NumberLiteral.isFloat (l : NumberLiteral) : Bool := l.fraction ≠ [] || l.exponent.isSome

/-- What the literal stands for. -/
def NumberLiteral.value (l : NumberLiteral) : Val :=
  if l.isFloat then
    .float (.nearest l.negative
      (digitsValue (l.integer ++ l.fraction) * 10 ^ (l.exponent.getD 0 - l.fraction.length)))
  else .int (if l.negative then -digitsValue l.integer else digitsValue l.integer)

/-- `sys.int_info.default_max_str_digits` -/
def maxStrDigits : ℕ := 4300

/-- `int` does not read the literal. -/
def NumberLiteral.TooLong (l : NumberLiteral) : Prop :=
  l.isFloat = false ∧ maxStrDigits < l.integer.length

instance (l : NumberLiteral) : Decidable l.TooLong := inferInstanceAs (Decidable (_ ∧ _))

/-- The words that are values. -/
def constants : List (Text × Val) :=
  [(ofString "null", .null), (ofString "true", .bool true), (ofString "false", .bool false),
    (ofString "NaN", .float .nan), (ofString "Infinity", .float (.infinite false)),
    (ofString "-Infinity", .float (.infinite true))]

def matchConstant (cs : Text) : Option (Val × Text) :=
  constants.findSome? fun (word, v) => (cs.dropPrefix? word).map fun rest => (v, rest)

/-! ## The scanner -/

/-- The kinds of values that have other values in them. -/
inductive Bracket
  | array
  | object
  deriving DecidableEq

def Bracket.opening : Bracket → ℕ
  | .array => '['.toNat
  | .object => '{'.toNat

def Bracket.closing : Bracket → ℕ
  | .array => ']'.toNat
  | .object => '}'.toNat

/-- What stands before a value between the brackets: the key and a colon, in an object. -/
def Bracket.label : Bracket → Text → Option (Text × Text)
  | .array, cs => some ([], cs)
  | .object, [] => none
  | .object, c :: cs =>
      if c = '"'.toNat then do
        let (key, rest) ← scanString cs
        match skip rest with
        | [] => none
        | c :: rest => if c = ':'.toNat then some (key, skip rest) else none
      else none

/-- The value of the items between the brackets. -/
def Bracket.value : Bracket → List (Text × Val) → Val
  | .array, items => .list (items.map Prod.snd)
  | .object, items => .dict (items.foldl (fun d e => setItem (· == ·) d e.1 e.2) [])

/-- What reads a value at the beginning of a text, and leaves the rest of the text. -/
abbrev Scanner := Text → Except Raised (Val × Text)

/-- The items up to the closing bracket. Each of them takes a character of the text, so as many
turns as there are characters are enough. -/
def scanItems (scan : Scanner) (b : Bracket) :
    ℕ → Text → Except Raised (List (Text × Val) × Text)
  | 0, _ => .error .jsonDecodeError
  | turns + 1, cs =>
      match b.label cs with
      | none => .error .jsonDecodeError
      | some (key, cs) => do
          let (v, cs) ← scan cs
          match skip cs with
          | [] => .error .jsonDecodeError
          | c :: cs =>
              if c = b.closing then .ok ([(key, v)], cs)
              else if c = ','.toNat then
                (scanItems scan b turns (skip cs)).map fun r => ((key, v) :: r.1, r.2)
              else .error .jsonDecodeError

/-- What follows an opening bracket. -/
def scanBracket (b : Bracket) (scan : Scanner) (cs : Text) : Except Raised (Val × Text) :=
  if (skip cs).head? = some b.closing then .ok (b.value [], (skip cs).tail)
  else (scanItems scan b (skip cs).length (skip cs)).map fun r => (b.value r.1, r.2)

/-- `_parse_array` -/
def parseArray : Scanner → Scanner := scanBracket .array

/-- `_parse_object` -/
def parseObject : Scanner → Scanner := scanBracket .object

/-- `scan_once` where there is no quote and no opening bracket. -/
def scanBare (cs : Text) : Except Raised (Val × Text) :=
  match matchConstant cs with
  | some r => .ok r
  | none =>
      match matchNumber cs with
      | none => .error .jsonDecodeError
      | some (l, rest) => if l.TooLong then .error .valueError else .ok (l.value, rest)

/-- `scan_once` behind a quote -/
def scanQuoted (cs : Text) : Except Raised (Val × Text) :=
  match scanString cs with
  | none => .error .jsonDecodeError
  | some (s, rest) => .ok (.str s, rest)

/-- `_Py_EnterRecursiveCall`: there is a scanner for the values between brackets unless the
recursion limit is reached. -/
def enterRecursiveCall (scan : Option Scanner) (parse : Scanner → Scanner) : Scanner :=
  match scan with
  | none => fun _ => .error .recursionError
  | some scan => parse scan

/-- `scan_once`, with the scanner for the values between brackets. -/
def scanValue (scan : Option Scanner) : Scanner
  | [] => .error .jsonDecodeError
  | c :: cs =>
      if c = '"'.toNat then scanQuoted cs
      else if c = '{'.toNat then enterRecursiveCall scan parseObject cs
      else if c = '['.toNat then enterRecursiveCall scan parseArray cs
      else scanBare (c :: cs)

/-- `scan_once` when so many more objects and arrays can be open. -/
def scanOnce : ℕ → Scanner
  | 0 => scanValue none
  | levels + 1 => scanValue (some (scanOnce levels))

/-- `JSONDecoder.decode` -/
def decodeText (levels : ℕ) (s : Text) : Except Raised Val := do
  let (v, rest) ← scanOnce levels (skip s)
  if skip rest = [] then return v else throw .jsonDecodeError

/-- `json.loads` of bytes -/
def loads (levels : ℕ) (b : List UInt8) : Except Raised Val :=
  match decode (detectEncoding b) b with
  | none => .error .unicodeDecodeError
  | some s => decodeText levels s

end PyJson
