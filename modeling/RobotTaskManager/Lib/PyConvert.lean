import RobotTaskManager.Lib.PyJson
import RobotTaskManager.Lib.PyValue

set_option autoImplicit false

/-! # Conversions of what `json.loads` gives

`str(v)`, `dict(v)` and `int(v)`, the truth value of `v`, and `d.get(key)`, with the exceptions
that they raise and the messages of these.
-/

namespace PyJson

open PyText
open PyValue (bind_ok_iff bind_error_iff)

/-- What is left to the interpreter and its Unicode database. -/
structure Interpreter where
  /-- `repr(v)` -/
  repr : Val → Text
  /-- `Py_UNICODE_ISSPACE`, of characters that are not ASCII -/
  isSpace : ℕ → Bool
  /-- `Py_UNICODE_TODECIMAL`, of characters that are not ASCII -/
  toDecimal : ℕ → Option ℕ
  /-- How many objects and arrays can be open at once when `json.loads` reads a text. -/
  maxNesting : ℕ
  maxNesting_pos : 0 < maxNesting

inductive ConvertError
  | typeError (message : Text)
  | valueError (message : Text)
  | overflowError (message : Text)

def typeError {α : Type} (message : String) : Except ConvertError α :=
  .error (.typeError (ofString message))

def valueError {α : Type} (message : String) : Except ConvertError α :=
  .error (.valueError (ofString message))

def overflowError {α : Type} (message : String) : Except ConvertError α :=
  .error (.overflowError (ofString message))

namespace Val

def typeName : Val → String
  | .null => "NoneType"
  | .bool _ => "bool"
  | .int _ => "int"
  | .float _ => "float"
  | .str _ => "str"
  | .list _ => "list"
  | .dict _ => "dict"

/-- `bool(v)` -/
def truthy : Val → Bool
  | .null => false
  | .bool b => b
  | .int n => n ≠ 0
  | .float (.finite _ magnitude) => magnitude ≠ 0
  | .float _ => true
  | .str s => s ≠ []
  | .list xs => !xs.isEmpty
  | .dict items => !items.isEmpty

/-- `v or default` -/
def orElse (v default : Val) : Val := if v.truthy then v else default

/-! ## `dict` -/

/-- What an iteration over the value gives, if there is one. -/
def elements? : Val → Option (List Val)
  | .str s => some (s.map fun c => .str [c])
  | .list xs => some xs
  | .dict items => some (items.map fun e => .str e.1)
  | _ => none

def hashable : Val → Bool
  | .list _ => false
  | .dict _ => false
  | _ => true

/-- The number that the value is. -/
def rational? : Val → Option ℚ
  | .bool b => some (if b then 1 else 0)
  | .int n => some n
  | .float (.finite negative magnitude) => some (if negative then -magnitude else magnitude)
  | _ => none

/-- Two values are the same key. The decoder has one object for all `NaN`, and an object is the
same key as itself. -/
def sameKey : Val → Val → Bool
  | .null, .null => true
  | .str s, .str t => s == t
  | .float .nan, .float .nan => true
  | .float (.infinite s), .float (.infinite t) => s == t
  | v, w =>
      match v.rational?, w.rational? with
      | some p, some q => p = q
      | _, _ => false

/-- Element `i` of what `dict` is called with, as a key and its value. -/
def pair (i : ℕ) (v : Val) : Except ConvertError (Val × Val) :=
  match v.elements? with
  | none => typeError s!"cannot convert dictionary update sequence element #{i} to a sequence"
  | some [key, w] => if key.hashable then .ok (key, w)
      else typeError s!"unhashable type: '{key.typeName}'"
  | some xs => valueError
      s!"dictionary update sequence element #{i} has length {xs.length}; 2 is required"

/-- `PyDict_MergeFromSeq2`, from element `i` on -/
def mergeFromSeq2 : ℕ → List (Val × Val) → List Val → Except ConvertError (List (Val × Val))
  | _, d, [] => .ok d
  | i, d, x :: xs => do
      let (key, w) ← x.pair i
      mergeFromSeq2 (i + 1) (setItem sameKey d key w) xs

/-- `dict(v)` -/
def toDict (v : Val) : Except ConvertError (List (Val × Val)) :=
  match v with
  | .dict items => .ok (items.map fun e => (.str e.1, e.2))
  | _ =>
      match v.elements? with
      | none => typeError s!"'{v.typeName}' object is not iterable"
      | some xs => mergeFromSeq2 0 [] xs

/-- The value is a dict, or a sequence of keys with their values. -/
def IsMapping (v : Val) : Prop :=
  (∃ items, v = .dict items) ∨
    ∃ xs, v.elements? = some xs ∧
      ∀ x ∈ xs, ∃ key w, x.elements? = some [key, w] ∧ key.hashable = true

end Val

/-- `d.get(key)` -/
def getItem (items : List (Text × Val)) (key : String) : Val :=
  (items.lookup (ofString key)).getD .null

namespace Interpreter

variable (P : Interpreter)

/-- `str(v)` -/
def str : Val → Text
  | .str s => s
  | v => P.repr v

/-! ## `int` -/

/-- `_PyUnicode_TransformDecimalAndSpaceToASCII` -/
def toAscii (s : Text) : Text :=
  s.map fun c =>
    if c < 127 then c
    else if P.isSpace c then ' '.toNat
    else
      match P.toDecimal c with
      | some d => '0'.toNat + d
      | none => '?'.toNat

/-- `Py_ISSPACE` -/
def isAsciiSpace (c : ℕ) : Bool := c = 0x20 || (0x09 ≤ c && c ≤ 0x0D)

/-- Digits, with a single underscore between two of them at most, and the text behind them. -/
def scanDigits : Text → Option (Text × Text)
  | [] => none
  | c :: cs =>
      if !isDigit c then none
      else
        match cs with
        | [] => some ([c], [])
        | d :: cs =>
            if d = '_'.toNat then (scanDigits cs).map fun r => (c :: r.1, r.2)
            else if isDigit d then (scanDigits (d :: cs)).map fun r => (c :: r.1, r.2)
            else some ([c], d :: cs)

/-- `int(s)` of a string -/
def intOfText (s : Text) : Except ConvertError ℤ :=
  let (negative, digits) := matchSign true ((P.toAscii s).dropWhile isAsciiSpace)
  let invalid := Except.error (.valueError
    (ofString "invalid literal for int() with base 10: " ++ (P.repr (.str s)).take 200))
  match scanDigits digits with
  | none => invalid
  | some (ds, rest) =>
      -- the digits are counted before what follows them is looked at
      if maxStrDigits < ds.length then
        valueError (s!"Exceeds the limit ({maxStrDigits} digits) for integer string conversion: " ++
          s!"value has {ds.length} digits; use sys.set_int_max_str_digits() to increase the limit")
      else if !rest.all isAsciiSpace then invalid
      else .ok (if negative then -digitsValue ds else digitsValue ds)

/-- `int(v)` -/
def int : Val → Except ConvertError ℤ
  | .bool b => .ok (if b then 1 else 0)
  | .int n => .ok n
  | .float .nan => valueError "cannot convert float NaN to integer"
  | .float (.infinite _) => overflowError "cannot convert float infinity to integer"
  | .float (.finite negative magnitude) => .ok (if negative then -⌊magnitude⌋ else ⌊magnitude⌋)
  | .str s => P.intOfText s
  | v => typeError
      s!"int() argument must be a string, a bytes-like object or a real number, not '{v.typeName}'"

end Interpreter

/-! ## What the conversions raise -/

/-- An `OverflowError` is raised. -/
def Overflows {α : Type} (x : Except ConvertError α) : Prop :=
  ∃ message, x = .error (.overflowError message)

theorem overflows_bind {α β : Type} {x : Except ConvertError α}
    {f : α → Except ConvertError β} :
    Overflows (x >>= f) ↔ Overflows x ∨ ∃ a, x = .ok a ∧ Overflows (f a) := by
  constructor
  · rintro ⟨message, h⟩
    cases bind_error_iff.mp h with
    | inl hx => exact Or.inl ⟨message, hx⟩
    | inr hf =>
        obtain ⟨a, hx, hf⟩ := hf
        exact Or.inr ⟨a, hx, message, hf⟩
  · rintro (⟨message, hx⟩ | ⟨a, hx, message, hf⟩)
    · exact ⟨message, bind_error_iff.mpr (Or.inl hx)⟩
    · exact ⟨message, bind_error_iff.mpr (Or.inr ⟨a, hx, hf⟩)⟩

theorem not_overflows_ok {α : Type} {a : α} : ¬ Overflows (.ok a) := nofun

theorem not_overflows_typeError {α : Type} (message : String) :
    ¬ Overflows (typeError message : Except ConvertError α) := nofun

theorem not_overflows_valueError {α : Type} (message : String) :
    ¬ Overflows (valueError message : Except ConvertError α) := nofun

namespace Val

theorem pair_ok_iff {i : ℕ} {v key w : Val} :
    v.pair i = .ok (key, w) ↔ v.elements? = some [key, w] ∧ key.hashable = true := by
  unfold pair
  split
  next h => simp [h, typeError]
  next key' w' h =>
      rw [h, Option.some.injEq, List.cons.injEq, List.cons.injEq]
      by_cases hhash : key'.hashable = true
      · rw [if_pos hhash, Except.ok.injEq, Prod.mk.injEq]
        constructor
        · rintro ⟨rfl, rfl⟩
          exact ⟨⟨rfl, rfl, rfl⟩, hhash⟩
        · rintro ⟨⟨rfl, rfl, -⟩, -⟩
          exact ⟨rfl, rfl⟩
      · rw [if_neg hhash]
        constructor
        · nofun
        · rintro ⟨⟨rfl, -⟩, hkey⟩
          exact absurd hkey hhash
  next xs hne h =>
      constructor
      · nofun
      · rintro ⟨hxs, -⟩
        exact absurd (Option.some.inj (h.symm.trans hxs)) (hne key w)

theorem not_overflows_pair (i : ℕ) (v : Val) : ¬ Overflows (v.pair i) := by
  unfold pair
  split
  · exact not_overflows_typeError _
  · split_ifs
    · exact not_overflows_ok
    · exact not_overflows_typeError _
  · exact not_overflows_valueError _

theorem mergeFromSeq2_ok_iff {xs : List Val} (i : ℕ) (d : List (Val × Val)) :
    (∃ d', mergeFromSeq2 i d xs = .ok d') ↔
      ∀ x ∈ xs, ∃ key w, x.elements? = some [key, w] ∧ key.hashable = true := by
  induction xs generalizing i d with
  | nil => exact iff_of_true ⟨d, rfl⟩ nofun
  | cons x xs ih =>
      rw [List.forall_mem_cons, mergeFromSeq2]
      constructor
      · rintro ⟨d', h⟩
        obtain ⟨⟨key, w⟩, hpair, hrest⟩ := bind_ok_iff.mp h
        exact ⟨⟨key, w, pair_ok_iff.mp hpair⟩, (ih _ _).mp ⟨d', hrest⟩⟩
      · rintro ⟨⟨key, w, hpair⟩, hrest⟩
        obtain ⟨d', hd'⟩ := (ih (i + 1) (setItem sameKey d key w)).mpr hrest
        exact ⟨d', bind_ok_iff.mpr ⟨(key, w), pair_ok_iff.mpr hpair, hd'⟩⟩

theorem not_overflows_mergeFromSeq2 (i : ℕ) (d : List (Val × Val)) (xs : List Val) :
    ¬ Overflows (mergeFromSeq2 i d xs) := by
  induction xs generalizing i d with
  | nil => exact not_overflows_ok
  | cons x xs ih =>
      rw [mergeFromSeq2, overflows_bind]
      rintro (hpair | ⟨⟨key, w⟩, -, hrest⟩)
      · exact not_overflows_pair i x hpair
      · exact ih _ _ hrest

/-- `dict(v)` gives a dict exactly for the mappings. -/
theorem toDict_ok_iff (v : Val) : (∃ d, v.toDict = .ok d) ↔ v.IsMapping := by
  unfold toDict IsMapping
  split
  next items => exact iff_of_true ⟨_, rfl⟩ (Or.inl ⟨items, rfl⟩)
  next hdict =>
      rw [or_iff_right fun ⟨items, h⟩ => hdict items h]
      split
      next h => exact iff_of_false nofun fun ⟨xs, hxs, _⟩ => nomatch h.symm.trans hxs
      next xs h =>
          rw [mergeFromSeq2_ok_iff, h]
          exact ⟨fun hxs => ⟨xs, rfl, hxs⟩, fun ⟨_, hys, hxs⟩ => Option.some.inj hys ▸ hxs⟩

theorem not_overflows_toDict (v : Val) : ¬ Overflows v.toDict := by
  unfold toDict
  split
  · exact not_overflows_ok
  · split
    · exact not_overflows_typeError _
    · exact not_overflows_mergeFromSeq2 _ _ _

end Val

theorem Interpreter.not_overflows_intOfText (P : Interpreter) (s : Text) :
    ¬ Overflows (P.intOfText s) := by
  unfold intOfText
  dsimp only
  split
  · nofun
  · split_ifs
    · exact not_overflows_valueError _
    · nofun
    · exact not_overflows_ok
    · exact not_overflows_ok

theorem Interpreter.overflows_int_iff (P : Interpreter) (v : Val) :
    Overflows (P.int v) ↔ ∃ negative, v = .float (.infinite negative) := by
  cases v with
  | float x =>
      cases x with
      | infinite negative => exact iff_of_true ⟨_, rfl⟩ ⟨negative, rfl⟩
      | nan => exact iff_of_false nofun nofun
      | finite negative magnitude => exact iff_of_false nofun nofun
  | str s => exact iff_of_false (P.not_overflows_intOfText s) nofun
  | null => exact iff_of_false nofun nofun
  | bool b => exact iff_of_false nofun nofun
  | int n => exact iff_of_false nofun nofun
  | list xs => exact iff_of_false nofun nofun
  | dict items => exact iff_of_false nofun nofun

end PyJson
