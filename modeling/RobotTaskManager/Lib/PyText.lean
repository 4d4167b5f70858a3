import Mathlib.Data.UInt
import Mathlib.Data.List.Basic
import Mathlib.Data.String.Basic

set_option autoImplicit false

/-! # Python strings and codecs

A Python string is a list of code points, and lone surrogates are among them. The codecs are the
ones that `json.loads` decodes bytes with, in the error mode `surrogatepass`: an encoded surrogate
is a character, and anything else that is malformed raises `UnicodeDecodeError`, here `none`.
-/

namespace PyText

/-- A `str`: its code points. -/
abbrev Text := List ℕ

def ofString (s : String) : Text := s.toList.map Char.toNat

theorem ofString_ofList (cs : List Char) : ofString (String.ofList cs) = cs.map Char.toNat := by
  rw [ofString, String.toList_ofList]

/-! ## Whitespace -/

/-- The characters `str.strip` removes. -/
def isSpace (c : ℕ) : Bool :=
  (9 ≤ c && c ≤ 13) || (28 ≤ c && c ≤ 32) || c = 133 || c = 160 || c = 5760 ||
    (8192 ≤ c && c ≤ 8202) || c = 8232 || c = 8233 || c = 8239 || c = 8287 || c = 12288

/-- `s.strip()` -/
def Text.strip (s : Text) : Text := ((s.dropWhile isSpace).reverse.dropWhile isSpace).reverse

/-- `s.strip()`, of a string without surrogates. -/
def strip (s : String) : String :=
  let space := isSpace ∘ Char.toNat
  String.ofList (((s.toList.dropWhile space).reverse.dropWhile space).reverse)

theorem ofString_strip (s : String) : ofString (strip s) = Text.strip (ofString s) := by
  rw [strip, ofString_ofList, Text.strip, ofString, List.dropWhile_map, ← List.map_reverse,
    List.dropWhile_map, List.map_reverse]

/-! ## Surrogates -/

def isHighSurrogate (u : ℕ) : Bool := 0xD800 ≤ u && u < 0xDC00

def isLowSurrogate (u : ℕ) : Bool := 0xDC00 ≤ u && u < 0xE000

def joinPair (high low : ℕ) : ℕ := 0x10000 + (high - 0xD800) * 0x400 + (low - 0xDC00)

/-- A piece of a text that is put together: a character, or a unit of UTF-16, which may be one half
of a pair. -/
inductive Piece
  | char (c : ℕ)
  | unit (u : ℕ)
  deriving DecidableEq

def Piece.code : Piece → ℕ
  | .char c => c
  | .unit u => u

/-- A high surrogate and the low one behind it are one character; other units stay alone. -/
def joinPieces : List Piece → Text
  | [] => []
  | [p] => [p.code]
  | .unit u :: .unit v :: ps =>
      if isHighSurrogate u && isLowSurrogate v then joinPair u v :: joinPieces ps
      else u :: joinPieces (.unit v :: ps)
  | p :: q :: ps => p.code :: joinPieces (q :: ps)

/-! ## Decoding -/

def isContinuation (b : UInt8) : Bool := 0x80 ≤ b && b < 0xC0

/-- A character of several bytes: the bits of its first byte, then six of each other byte. -/
def sixBits (bits : ℕ) (b : UInt8) : ℕ := bits * 64 + (b.toNat - 0x80)

/-- `utf-8`. The two bytes of `0xC0` and `0xC1` would be too long for their character, and so would
three for one below `0x800`, and four for one below `0x10000`. -/
def utf8 : List UInt8 → Option Text
  | [] => some []
  | a :: bs =>
      if a < 0x80 then (utf8 bs).map (a.toNat :: ·)
      else
        match bs with
        | [] => none
        | b :: bs =>
            if !isContinuation b then none
            else if 0xC2 ≤ a && a < 0xE0 then
              (utf8 bs).map (sixBits (a.toNat - 0xC0) b :: ·)
            else
              match bs with
              | [] => none
              | c :: bs =>
                  if !isContinuation c then none
                  else if 0xE0 ≤ a && a < 0xF0 then
                    let char := sixBits (sixBits (a.toNat - 0xE0) b) c
                    if char < 0x800 then none else (utf8 bs).map (char :: ·)
                  else
                    match bs with
                    | [] => none
                    | d :: bs =>
                        if !isContinuation d then none
                        else if 0xF0 ≤ a && a < 0xF8 then
                          let char := sixBits (sixBits (sixBits (a.toNat - 0xF0) b) c) d
                          if char < 0x10000 || 0x110000 ≤ char then none
                          else (utf8 bs).map (char :: ·)
                        else none

inductive ByteOrder
  | little
  | big
  deriving DecidableEq

/-- The number of the bytes in this order. -/
def ByteOrder.number (order : ByteOrder) (bs : List UInt8) : ℕ :=
  match order with
  | .little => bs.foldr (fun b n => n * 256 + b.toNat) 0
  | .big => bs.foldl (fun n b => n * 256 + b.toNat) 0

def utf16Units (order : ByteOrder) : List UInt8 → Option (List Piece)
  | [] => some []
  | [_] => none
  | a :: b :: bs => (utf16Units order bs).map (.unit (order.number [a, b]) :: ·)

def utf16 (order : ByteOrder) (bs : List UInt8) : Option Text :=
  (utf16Units order bs).map joinPieces

def utf32 (order : ByteOrder) : List UInt8 → Option Text
  | [] => some []
  | a :: b :: c :: d :: bs =>
      let char := order.number [a, b, c, d]
      if char < 0x110000 then (utf32 order bs).map (char :: ·) else none
  | _ => none

/-! ## Encodings -/

/-- The encodings that `json.detect_encoding` tells apart. -/
inductive Encoding
  | utf8
  | utf8Sig
  | utf16
  | utf16In (order : ByteOrder)
  | utf32
  | utf32In (order : ByteOrder)
  deriving DecidableEq

/-- `json.detect_encoding` -/
def detectEncoding (b : List UInt8) : Encoding :=
  if [0x00, 0x00, 0xFE, 0xFF].isPrefixOf b || [0xFF, 0xFE, 0x00, 0x00].isPrefixOf b then .utf32
  else if [0xFE, 0xFF].isPrefixOf b || [0xFF, 0xFE].isPrefixOf b then .utf16
  else if [0xEF, 0xBB, 0xBF].isPrefixOf b then .utf8Sig
  else
    match b with
    | a :: b :: c :: d :: _ =>
        if a = 0 then (if b = 0 then .utf32In .big else .utf16In .big)
        else if b = 0 then (if c = 0 && d = 0 then .utf32In .little else .utf16In .little)
        else .utf8
    | [a, b] => if a = 0 then .utf16In .big else if b = 0 then .utf16In .little else .utf8
    | _ => .utf8

/-- `b.decode(encoding, 'surrogatepass')`. The codecs without a byte order take it from the mark,
which is dropped, and are little-endian where there is none. -/
def decode (encoding : Encoding) (b : List UInt8) : Option Text :=
  match encoding with
  | .utf8 => PyText.utf8 b
  | .utf8Sig => PyText.utf8 (if [0xEF, 0xBB, 0xBF].isPrefixOf b then b.drop 3 else b)
  | .utf16 =>
      if [0xFE, 0xFF].isPrefixOf b then PyText.utf16 .big (b.drop 2)
      else PyText.utf16 .little (if [0xFF, 0xFE].isPrefixOf b then b.drop 2 else b)
  | .utf16In order => PyText.utf16 order b
  | .utf32 =>
      if [0x00, 0x00, 0xFE, 0xFF].isPrefixOf b then PyText.utf32 .big (b.drop 4)
      else PyText.utf32 .little (if [0xFF, 0xFE, 0x00, 0x00].isPrefixOf b then b.drop 4 else b)
  | .utf32In order => PyText.utf32 order b

end PyText
