import Mathlib.Data.List.Basic
import Mathlib.Data.String.Basic

set_option autoImplicit false

/-! # URI components and URL paths

`encodeURIComponent` of JavaScript, and what the URL parser of a browser makes of the segments of
a path: it resolves the dot segments. A segment that has been encoded holds only unreserved
characters and percent signs, so no character of it has a meaning of its own in a URL. It is the
text itself exactly if the text is unreserved (`encode_eq_self_iff`), and it is a dot segment only
if the text is one (`encode_isDoubleDot`).
-/

namespace Uri

/-! ## Percent-encoding -/

/-- The characters that are not encoded: letters, digits and some marks. -/
def unreserved (c : Char) : Bool := c.isAlphanum || "-_.!~*'()".toList.contains c

def hexDigits : List Char := "0123456789ABCDEF".toList

def hexDigit (n : ℕ) : Char := hexDigits.getD n '0'

def percentByte (b : UInt8) : List Char := ['%', hexDigit (b.toNat / 16), hexDigit (b.toNat % 16)]

def encodeChar (c : Char) : List Char :=
  if unreserved c then [c] else (String.utf8EncodeChar c).flatMap percentByte

/-- `encodeURIComponent` -/
def encode (cs : List Char) : List Char := cs.flatMap encodeChar

variable {c : Char} {cs : List Char}

theorem encode_cons (c : Char) (cs : List Char) : encode (c :: cs) = encodeChar c ++ encode cs :=
  List.flatMap_cons

theorem length_flatMap_percentByte (bs : List UInt8) :
    (bs.flatMap percentByte).length = 3 * bs.length := by
  induction bs with
  | nil => rfl
  | cons b bs ih =>
      rw [List.flatMap_cons, List.length_append, ih, List.length_cons, percentByte]
      simp only [List.length_cons, List.length_nil]
      omega

/-- A character that is encoded becomes longer. -/
theorem length_encodeChar (h : unreserved c = false) : 3 ≤ (encodeChar c).length := by
  have hsize := Char.utf8Size_pos c
  rw [encodeChar, if_neg (by simp [h]), length_flatMap_percentByte, String.length_utf8EncodeChar]
  omega

theorem length_encodeChar_pos (c : Char) : 1 ≤ (encodeChar c).length := by
  cases h : unreserved c with
  | true => rw [encodeChar, if_pos h, List.length_singleton]
  | false => have := length_encodeChar h; omega

theorem length_le_length_encode (cs : List Char) : cs.length ≤ (encode cs).length := by
  induction cs with
  | nil => exact le_rfl
  | cons c cs ih =>
      have := length_encodeChar_pos c
      rw [encode_cons, List.length_append, List.length_cons]
      omega

/-- **A text is encoded as itself exactly if all its characters are unreserved.** -/
theorem encode_eq_self_iff : encode cs = cs ↔ ∀ c ∈ cs, unreserved c = true := by
  induction cs with
  | nil => exact iff_of_true rfl fun c hc => absurd hc List.not_mem_nil
  | cons c cs ih =>
      rw [encode_cons, List.forall_mem_cons]
      cases hc : unreserved c with
      | true => rw [encodeChar, if_pos hc, List.singleton_append, List.cons_inj_right, ih,
          eq_self_iff_true, true_and]
      | false =>
          refine iff_of_false (fun h => ?_) fun h => nomatch h.1
          have hlen := congrArg List.length h
          have hchar := length_encodeChar hc
          have hrest := length_le_length_encode cs
          rw [List.length_append, List.length_cons] at hlen
          omega

/-- An encoded text has no character that separates the parts of a URL. -/
theorem mem_encode (h : c ∈ encode cs) : unreserved c = true ∨ c = '%' := by
  have hdigit : ∀ n, n < 16 → unreserved (hexDigit n) = true := by decide
  obtain ⟨d, -, hd⟩ := List.mem_flatMap.mp h
  unfold encodeChar at hd
  by_cases hun : unreserved d = true
  · rw [if_pos hun, List.mem_singleton] at hd
    exact Or.inl (hd ▸ hun)
  · rw [if_neg hun] at hd
    obtain ⟨b, -, hb⟩ := List.mem_flatMap.mp hd
    have hbyte : b.toNat < 256 := b.toNat_lt
    simp only [percentByte, List.mem_cons, List.not_mem_nil, or_false] at hb
    rcases hb with rfl | rfl | rfl
    · exact Or.inr rfl
    · exact Or.inl (hdigit _ (by omega))
    · exact Or.inl (hdigit _ (by omega))

/-! ## Dot segments -/

/-- The spellings of a dot. -/
def dots : List (List Char) := [['.'], ['%', '2', 'e'], ['%', '2', 'E']]

def isSingleDot (segment : List Char) : Bool := dots.contains segment

def isDoubleDot (segment : List Char) : Bool :=
  (dots.flatMap fun a => dots.map (a ++ ·)).contains segment

/-- The path state of the URL parser: `path` are the segments so far. -/
def resolve : List (List Char) → List (List Char) → List (List Char)
  | path, [] => path
  | path, [segment] =>
      if isDoubleDot segment then path.dropLast ++ [[]]
      else if isSingleDot segment then path ++ [[]]
      else path ++ [segment]
  | path, segment :: segments =>
      if isDoubleDot segment then resolve path.dropLast segments
      else if isSingleDot segment then resolve path segments
      else resolve (path ++ [segment]) segments

/-- The request target for the path of a URL, `path` being what follows its first slash. -/
def requestTarget (path : List Char) : List Char :=
  (resolve [] (path.splitOn '/')).flatMap ('/' :: ·)

/-- The byte of a dot begins the encoding of a dot only. -/
theorem first_byte (c : Char) :
    ∃ b bs, String.utf8EncodeChar c = b :: bs ∧ (b.toNat = 46 → c = '.') := by
  unfold String.utf8EncodeChar
  by_cases h1 : c.val.toNat ≤ 0x7f
  · refine ⟨_, _, if_pos h1, fun hb => ?_⟩
    rw [UInt8.toNat_ofNat'] at hb
    have hval : c.val.toNat = 46 := by omega
    exact Char.ext (UInt32.toNat_inj.mp hval)
  · rw [if_neg h1]
    by_cases h2 : c.val.toNat ≤ 0x7ff
    · refine ⟨_, _, if_pos h2, fun hb => ?_⟩
      rw [UInt8.toNat_ofNat'] at hb
      omega
    · rw [if_neg h2]
      by_cases h3 : c.val.toNat ≤ 0xffff
      · refine ⟨_, _, if_pos h3, fun hb => ?_⟩
        rw [UInt8.toNat_ofNat'] at hb
        omega
      · refine ⟨_, _, if_neg h3, fun hb => ?_⟩
        rw [UInt8.toNat_ofNat'] at hb
        omega

/-- A dot is not encoded. -/
theorem encode_ne_dot {x : Char} (hx : x = 'e' ∨ x = 'E') (rest : List Char) :
    encode cs ≠ '%' :: '2' :: x :: rest := by
  intro h
  cases cs with
  | nil => cases h
  | cons c cs =>
      rw [encode_cons] at h
      cases hc : unreserved c with
      | true =>
          rw [encodeChar, if_pos hc, List.singleton_append] at h
          rw [(List.cons.inj h).1] at hc
          exact absurd hc (by decide)
      | false =>
          obtain ⟨b, bs, hbytes, hdot⟩ := first_byte c
          rw [encodeChar, if_neg (by simp [hc]), hbytes, List.flatMap_cons] at h
          simp only [percentByte, List.cons_append, List.cons.injEq, true_and] at h
          obtain ⟨hhigh, hlow, -⟩ := h
          have hbyte : b.toNat < 256 := b.toNat_lt
          have htwo : ∀ n, n < 16 → hexDigit n = '2' → n = 2 := by decide
          have hfourteen : ∀ n, n < 16 → hexDigit n = 'e' ∨ hexDigit n = 'E' → n = 14 := by decide
          have hh := htwo _ (by omega) hhigh
          have hl := hfourteen _ (by omega) (hlow ▸ hx)
          rw [hdot (by omega)] at hc
          exact absurd hc (by decide)

/-- A dot in an encoded text is a dot of the text. -/
theorem encode_dot {rest : List Char} (h : encode cs = '.' :: rest) :
    ∃ ds, cs = '.' :: ds ∧ encode ds = rest := by
  cases cs with
  | nil => cases h
  | cons c cs =>
      rw [encode_cons] at h
      cases hc : unreserved c with
      | true =>
          rw [encodeChar, if_pos hc, List.singleton_append, List.cons.injEq] at h
          exact ⟨cs, by rw [h.1], h.2⟩
      | false =>
          obtain ⟨b, bs, hbytes, -⟩ := first_byte c
          rw [encodeChar, if_neg (by simp [hc]), hbytes, List.flatMap_cons, percentByte] at h
          exact absurd (List.cons.inj h).1 (by decide)

theorem encode_eq_nil (h : encode cs = []) : cs = [] := by
  have hlen := length_le_length_encode cs
  rw [h, List.length_nil] at hlen
  exact List.length_eq_zero_iff.mp (by omega)

/-- An encoded text is a single dot segment only if it is a dot. -/
theorem encode_isSingleDot (h : isSingleDot (encode cs) = true) : cs = ['.'] := by
  simp only [isSingleDot, dots, List.contains_iff_mem, List.mem_cons, List.not_mem_nil,
    or_false] at h
  rcases h with h | h | h
  · obtain ⟨ds, rfl, hds⟩ := encode_dot h
    rw [encode_eq_nil hds]
  · exact absurd h (encode_ne_dot (Or.inl rfl) _)
  · exact absurd h (encode_ne_dot (Or.inr rfl) _)

/-- It is a double dot segment only if it is two dots. -/
theorem encode_isDoubleDot (h : isDoubleDot (encode cs) = true) : cs = ['.', '.'] := by
  simp only [isDoubleDot, dots, List.contains_iff_mem, List.mem_flatMap, List.mem_map] at h
  obtain ⟨first, hfirst, second, hsecond, h⟩ := h
  simp only [List.mem_cons, List.not_mem_nil, or_false] at hfirst
  rcases hfirst with rfl | rfl | rfl
  · obtain ⟨ds, rfl, hds⟩ := encode_dot h.symm
    have hsingle : isSingleDot (encode ds) = true := by
      rw [hds, isSingleDot, List.contains_iff_mem]
      exact hsecond
    rw [encode_isSingleDot hsingle]
  · exact absurd h.symm (encode_ne_dot (Or.inl rfl) _)
  · exact absurd h.symm (encode_ne_dot (Or.inr rfl) _)

end Uri
