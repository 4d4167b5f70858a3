import Mathlib.Data.Nat.Digits.Lemmas
import RobotTaskManager.Lib.JsonGrammar

set_option autoImplicit false

/-! # `json.dumps`

The encoder of Python's `json` module, with its defaults: the text is ASCII, and what is not is
escaped. The functions bear the names of the encoder's own where it has any. How a finite float is
written is a parameter.

`json.loads` reads what `json.dumps` has written (`decodeText_dumps`), but for two surrogates: a
high one and a low one behind it, if they are two characters of a string, are one character
afterwards (`Val.rejoin`).
-/

namespace PyJson

open PyText
open PyValue (bind_ok_iff map_ok ok_bind)

/-! ## Tokens -/

/-- `int.__repr__` of a natural number -/
def natRepr (n : ℕ) : Text :=
  if n = 0 then ['0'.toNat] else (Nat.digits 10 n).reverse.map ('0'.toNat + ·)

/-- `int.__repr__` -/
def intRepr (n : ℤ) : Text := (if n < 0 then ['-'.toNat] else []) ++ natRepr n.natAbs

/-- `int` does not write the number. -/
def IntTooLong (n : ℤ) : Prop := maxStrDigits < (natRepr n.natAbs).length

instance (n : ℤ) : Decidable (IntTooLong n) := inferInstanceAs (Decidable (_ < _))

def hexDigit (d : ℕ) : ℕ := if d < 10 then '0'.toNat + d else 'a'.toNat + (d - 10)

def unitEscape (u : ℕ) : Text :=
  ['\\'.toNat, 'u'.toNat, hexDigit (u / 4096 % 16), hexDigit (u / 256 % 16), hexDigit (u / 16 % 16),
    hexDigit (u % 16)]

/-- The characters with an escape of two characters, and the second of them. -/
def shortEscapes : List (ℕ × Char) :=
  [(0x5C, '\\'), (0x22, '"'), (0x08, 'b'), (0x0C, 'f'), (0x0A, 'n'), (0x0D, 'r'), (0x09, 't')]

/-- `ascii_escape_unichar`, and the characters that need no escape -/
def escapeChar (c : ℕ) : Text :=
  match shortEscapes.lookup c with
  | some e => ['\\'.toNat, e.toNat]
  | none =>
      if ' '.toNat ≤ c ∧ c ≤ '~'.toNat then [c]
      else if c < 0x10000 then unitEscape c
      else
        unitEscape (0xD800 + (c - 0x10000) / 0x400) ++ unitEscape (0xDC00 + (c - 0x10000) % 0x400)

/-- `py_encode_basestring_ascii` -/
def encodeString (s : Text) : Text := '"'.toNat :: s.flatMap escapeChar ++ ['"'.toNat]

/-- `encoder_encode_float` -/
def encodeFloat (repr : Double → Text) : Double → Text
  | .nan => ofString "NaN"
  | .infinite negative => ofString (if negative then "-Infinity" else "Infinity")
  | .finite negative magnitude => repr (.finite negative magnitude)

/-! ## Values -/

/-- Items with a comma between them. -/
def joinItems : List Text → Text
  | [] => []
  | [t] => t
  | t :: ts => t ++ ofString ", " ++ joinItems ts

/-- Brackets around items. -/
def Bracket.text (b : Bracket) (items : List Text) : Text :=
  b.opening :: joinItems items ++ [b.closing]

/-- `PyObject_Str` of a key, and its value -/
def encodeItem (key value : Text) : Text := encodeString key ++ ofString ": " ++ value

mutual

/-- `encoder_listencode_obj`, when so many more lists and dicts can be open. -/
def dumps (repr : Double → Text) : ℕ → Val → Except Raised Text
  | _, .null => .ok (ofString "null")
  | _, .bool b => .ok (ofString (if b then "true" else "false"))
  | _, .int n => if IntTooLong n then .error .valueError else .ok (intRepr n)
  | _, .float x => .ok (encodeFloat repr x)
  | _, .str s => .ok (encodeString s)
  | 0, .list _ => .error .recursionError
  | levels + 1, .list xs => (dumpsList repr levels xs).map Bracket.array.text
  | 0, .dict _ => .error .recursionError
  | levels + 1, .dict items => (dumpsItems repr levels items).map Bracket.object.text

/-- `encoder_listencode_list` -/
def dumpsList (repr : Double → Text) (levels : ℕ) : List Val → Except Raised (List Text)
  | [] => .ok []
  | v :: xs => do
      let t ← dumps repr levels v
      let ts ← dumpsList repr levels xs
      return t :: ts

/-- `encoder_listencode_dict` -/
def dumpsItems (repr : Double → Text) (levels : ℕ) :
    List (Text × Val) → Except Raised (List Text)
  | [] => .ok []
  | (key, v) :: items => do
      let t ← dumps repr levels v
      let ts ← dumpsItems repr levels items
      return encodeItem key t :: ts

end

/-! ## Numbers are read back -/

section Numbers

variable {rest : Text}

/-- No number goes on with what follows. -/
def Delimited (rest : Text) : Prop :=
  ∀ c, rest.head? = some c → isDigit c = false ∧ c ≠ '.'.toNat ∧ c ≠ 'e'.toNat ∧ c ≠ 'E'.toNat

theorem delimited_nil : Delimited [] := by
  simp [Delimited]

theorem digit_isDigit {d : ℕ} (h : d < 10) : isDigit ('0'.toNat + d) = true := by
  revert d
  decide

theorem natRepr_digits (n : ℕ) : ∀ c ∈ natRepr n, isDigit c = true := by
  unfold natRepr
  split
  · decide
  · intro c hc
    obtain ⟨d, hd, rfl⟩ := List.mem_map.mp hc
    exact digit_isDigit (Nat.digits_lt_base (by decide) (List.mem_reverse.mp hd))

theorem foldl_digits (ds : List ℕ) (n : ℕ) :
    (ds.map ('0'.toNat + ·)).foldl (fun n d => 10 * n + (d - '0'.toNat)) n =
      ds.foldl (fun n d => 10 * n + d) n := by
  rw [List.foldl_map]
  simp

theorem foldl_reverse_digits (ds : List ℕ) :
    ds.reverse.foldl (fun n d => 10 * n + d) 0 = Nat.ofDigits 10 ds := by
  induction ds with
  | nil => rfl
  | cons d ds ih => rw [List.reverse_cons, List.foldl_concat, ih, Nat.ofDigits_cons, Nat.add_comm]

/-- The digits write the number. -/
theorem digitsValue_natRepr (n : ℕ) : digitsValue (natRepr n) = n := by
  unfold natRepr
  split
  · rename_i hn
    rw [hn]
    decide
  · rw [digitsValue, foldl_digits, foldl_reverse_digits, Nat.ofDigits_digits]

/-- A number other than zero does not begin with a zero. -/
theorem natRepr_cons {n : ℕ} (hn : n ≠ 0) : ∃ c cs, natRepr n = c :: cs ∧ c ≠ '0'.toNat := by
  have hne : Nat.digits 10 n ≠ [] := Nat.digits_ne_nil_iff_ne_zero.mpr hn
  unfold natRepr
  rw [if_neg hn, ← List.dropLast_append_getLast hne, List.reverse_append, List.reverse_singleton]
  refine ⟨_, _, rfl, fun h => ?_⟩
  exact Nat.getLast_digit_ne_zero 10 hn (Nat.add_left_cancel (h.trans (Nat.add_zero _).symm))

theorem takeDigits {ds : Text} (hds : ∀ c ∈ ds, isDigit c = true) (hrest : Delimited rest) :
    (ds ++ rest).takeWhile isDigit = ds ∧ (ds ++ rest).dropWhile isDigit = rest := by
  have hnone : rest.takeWhile isDigit = [] ∧ rest.dropWhile isDigit = rest := by
    cases rest with
    | nil => exact ⟨rfl, rfl⟩
    | cons c rest =>
        have hc := (hrest c rfl).1
        simp [hc]
  rw [List.takeWhile_append_of_pos hds, List.dropWhile_append_of_pos hds, hnone.1, hnone.2]
  exact ⟨List.append_nil ds, rfl⟩

theorem matchInteger_natRepr (n : ℕ) (hrest : Delimited rest) :
    matchInteger (natRepr n ++ rest) = some (natRepr n, rest) := by
  by_cases hn : n = 0
  · subst hn
    rfl
  · obtain ⟨c, cs, hcs, hc⟩ := natRepr_cons hn
    have hdigits := natRepr_digits n
    rw [hcs] at hdigits ⊢
    obtain ⟨htake, hdrop⟩ := takeDigits (fun d hd => hdigits d (List.mem_cons_of_mem c hd)) hrest
    rw [List.cons_append, matchInteger, if_neg hc, if_pos (hdigits c List.mem_cons_self), htake,
      hdrop]

theorem matchFraction_delimited (hrest : Delimited rest) : matchFraction rest = ([], rest) := by
  cases rest with
  | nil => rfl
  | cons c rest => exact if_neg fun h => (hrest c rfl).2.1 h.1

theorem matchExponent_delimited (hrest : Delimited rest) : matchExponent rest = (none, rest) := by
  cases rest with
  | nil => rfl
  | cons c rest =>
      obtain ⟨-, -, he, hE⟩ := hrest c rfl
      exact if_neg fun h => h.1.elim he hE

/-- What `int.__repr__` writes is read as the number. -/
theorem matchNumber_intRepr (n : ℤ) (hrest : Delimited rest) :
    matchNumber (intRepr n ++ rest) = some (⟨n < 0, natRepr n.natAbs, [], none⟩, rest) := by
  have hsign : matchSign false (intRepr n ++ rest) =
      (decide (n < 0), natRepr n.natAbs ++ rest) := by
    unfold intRepr
    by_cases hn : n < 0
    · rw [if_pos hn, decide_eq_true hn]
      rfl
    · rw [if_neg hn, decide_eq_false hn, List.nil_append]
      cases hds : natRepr n.natAbs with
      | nil =>
          have hvalue := matchInteger_natRepr n.natAbs delimited_nil
          rw [hds] at hvalue
          cases hvalue
      | cons c cs =>
          have hc := natRepr_digits n.natAbs c (hds ▸ List.mem_cons_self)
          have hminus : c ≠ '-'.toNat := by
            rintro rfl
            revert hc
            decide
          rw [List.cons_append, matchSign, if_neg hminus, if_neg (by simp)]
  rw [matchNumber, hsign]
  simp only [matchInteger_natRepr n.natAbs hrest, Option.bind_eq_bind, Option.bind_some,
    matchFraction_delimited hrest, matchExponent_delimited hrest]
  rfl

/-- The literal of an integer stands for it. -/
theorem value_intRepr (n : ℤ) :
    (⟨n < 0, natRepr n.natAbs, [], none⟩ : NumberLiteral).value = .int n := by
  rw [NumberLiteral.value, if_neg (by simp [NumberLiteral.isFloat])]
  dsimp only
  rw [digitsValue_natRepr]
  by_cases hn : n < 0
  · rw [decide_eq_true hn, if_pos rfl, Int.ofNat_natAbs_of_nonpos hn.le, neg_neg]
  · rw [decide_eq_false hn, if_neg (by simp), Int.natAbs_of_nonneg (not_lt.mp hn)]

end Numbers

/-! ## Strings are read back, with surrogates joined -/

section Strings

/-- A high surrogate and a low one behind it become one character. -/
def rejoin : Text → Text
  | [] => []
  | [c] => [c]
  | c :: d :: s =>
      if isHighSurrogate c && isLowSurrogate d then joinPair c d :: rejoin s
      else c :: rejoin (d :: s)

/-- The code points of a string are characters of Unicode, or surrogates. -/
def IsText (s : Text) : Prop := ∀ c ∈ s, c < 0x110000

instance (s : Text) : Decidable (IsText s) := inferInstanceAs (Decidable (∀ _ ∈ _, _))

/-- What the escape of a character is read as. -/
def escapePieces (c : ℕ) : List Piece :=
  match shortEscapes.lookup c with
  | some _ => [.char c]
  | none =>
      if ' '.toNat ≤ c ∧ c ≤ '~'.toNat then [.char c]
      else if c < 0x10000 then [.unit c]
      else [.unit (0xD800 + (c - 0x10000) / 0x400), .unit (0xDC00 + (c - 0x10000) % 0x400)]

theorem hexDigit?_hexDigit {d : ℕ} (h : d < 16) : hexDigit? (hexDigit d) = some d := by
  revert d
  decide

theorem scanPieces_unit {u : ℕ} (h : u < 0x10000) (cs : Text) :
    scanPieces (unitEscape u ++ cs) =
      (scanPieces cs).map fun r => (.unit u :: r.1, r.2) := by
  have hhex : hex4? (hexDigit (u / 4096 % 16)) (hexDigit (u / 256 % 16)) (hexDigit (u / 16 % 16))
      (hexDigit (u % 16)) = some u := by
    have hdigit (n : ℕ) : hexDigit? (hexDigit (n % 16)) = some (n % 16) :=
      hexDigit?_hexDigit (Nat.mod_lt n (by decide))
    rw [hex4?, hdigit, hdigit, hdigit, hdigit]
    simp only [Option.bind_eq_bind, Option.bind_some, Option.pure_def, Option.some.injEq]
    omega
  rw [unitEscape, List.cons_append, List.cons_append, List.cons_append, List.cons_append,
    List.cons_append, List.cons_append, List.nil_append, scanPieces, if_neg (by decide),
    if_pos rfl]
  simp only [if_pos, hhex, Option.bind_eq_bind, Option.bind_some]
  cases scanPieces cs with
  | none => rfl
  | some r => rfl

theorem scanPieces_short {e c : ℕ} (he : e ≠ 'u'.toNat) (hc : escape? e = some c) (cs : Text) :
    scanPieces ('\\'.toNat :: e :: cs) = (scanPieces cs).map fun r => (.char c :: r.1, r.2) := by
  rw [scanPieces.eq_def]
  dsimp only
  rw [if_neg (by decide), if_pos rfl, if_neg he, hc]
  cases scanPieces cs with
  | none => rfl
  | some r => rfl

theorem scanPieces_plain {c : ℕ} (hquote : c ≠ '"'.toNat) (hbackslash : c ≠ '\\'.toNat)
    (hprintable : 0x20 ≤ c) (cs : Text) :
    scanPieces (c :: cs) = (scanPieces cs).map fun r => (.char c :: r.1, r.2) := by
  rw [scanPieces.eq_def]
  dsimp only
  rw [if_neg hquote, if_neg hbackslash, if_neg (not_lt.mpr hprintable)]
  cases scanPieces cs with
  | none => rfl
  | some r => rfl

/-- The escape of a character is read as its pieces. -/
theorem scanPieces_escapeChar {c : ℕ} (hc : c < 0x110000) (cs : Text) :
    scanPieces (escapeChar c ++ cs) =
      (scanPieces cs).map fun r => (escapePieces c ++ r.1, r.2) := by
  unfold escapeChar escapePieces
  cases hlookup : shortEscapes.lookup c with
  | some e =>
      have hescape : e.toNat ≠ 'u'.toNat ∧ escape? e.toNat = some c := by
        obtain ⟨l₁, l₂, hlist, -⟩ := List.lookup_eq_some_iff.mp hlookup
        have hmem : (c, e) ∈ shortEscapes := hlist ▸ List.mem_append_right l₁ List.mem_cons_self
        revert hmem
        simp only [shortEscapes, List.mem_cons, Prod.mk.injEq, List.not_mem_nil, or_false]
        rintro (⟨rfl, rfl⟩ | ⟨rfl, rfl⟩ | ⟨rfl, rfl⟩ | ⟨rfl, rfl⟩ | ⟨rfl, rfl⟩ | ⟨rfl, rfl⟩ |
          ⟨rfl, rfl⟩) <;> decide
      exact scanPieces_short hescape.1 hescape.2 cs
  | none =>
      dsimp only
      by_cases hplain : ' '.toNat ≤ c ∧ c ≤ '~'.toNat
      · have hquote : c ≠ '"'.toNat := by
          rintro rfl
          exact absurd hlookup (by decide)
        have hbackslash : c ≠ '\\'.toNat := by
          rintro rfl
          exact absurd hlookup (by decide)
        rw [if_pos hplain, if_pos hplain]
        exact scanPieces_plain hquote hbackslash hplain.1 cs
      · rw [if_neg hplain, if_neg hplain]
        by_cases hbmp : c < 0x10000
        · rw [if_pos hbmp, if_pos hbmp]
          exact scanPieces_unit hbmp cs
        · rw [if_neg hbmp, if_neg hbmp, List.append_assoc, scanPieces_unit (by omega),
            scanPieces_unit (by omega), Option.map_map]
          rfl

theorem scanPieces_quoted {s : Text} (hs : IsText s) (rest : Text) :
    scanPieces (s.flatMap escapeChar ++ '"'.toNat :: rest) =
      some (s.flatMap escapePieces, rest) := by
  induction s with
  | nil =>
      rw [List.flatMap_nil, List.nil_append, scanPieces.eq_def]
      rfl
  | cons c s ih =>
      have hc : c < 0x110000 := hs c List.mem_cons_self
      have hs' : IsText s := fun d hd => hs d (List.mem_cons_of_mem c hd)
      rw [List.flatMap_cons, List.append_assoc, scanPieces_escapeChar hc, ih hs',
        List.flatMap_cons]
      rfl

theorem joinPieces_pair {u v : ℕ} (h : (isHighSurrogate u && isLowSurrogate v) = true)
    (ps : List Piece) :
    joinPieces (.unit u :: .unit v :: ps) = joinPair u v :: joinPieces ps := by
  rw [joinPieces, if_pos h]

/-- A piece that is no high surrogate with a low one behind it is a character of its own. -/
theorem joinPieces_alone (p : Piece) (ps : List Piece)
    (h : ∀ v, ps.head? = some (.unit v) → ∀ u, p = .unit u →
      (isHighSurrogate u && isLowSurrogate v) = false) :
    joinPieces (p :: ps) = p.code :: joinPieces ps := by
  cases ps with
  | nil => rfl
  | cons q ps =>
      cases p with
      | char c => rw [joinPieces]; simp
      | unit u =>
          cases q with
          | char c => rw [joinPieces]; simp
          | unit v => rw [joinPieces, if_neg (by simp [h v rfl u rfl])]; rfl

theorem isHighSurrogate_iff (u : ℕ) : isHighSurrogate u = true ↔ 0xD800 ≤ u ∧ u < 0xDC00 := by
  rw [isHighSurrogate, Bool.and_eq_true, decide_eq_true_eq, decide_eq_true_eq]

theorem isLowSurrogate_iff (u : ℕ) : isLowSurrogate u = true ↔ 0xDC00 ≤ u ∧ u < 0xE000 := by
  rw [isLowSurrogate, Bool.and_eq_true, decide_eq_true_eq, decide_eq_true_eq]

theorem joinPair_halves (q r : ℕ) :
    joinPair (0xD800 + q) (0xDC00 + r) = 0x10000 + q * 0x400 + r := by
  unfold joinPair
  rw [Nat.add_sub_cancel_left, Nat.add_sub_cancel_left]

/-- The pieces of a character: itself, or the two halves of a pair. -/
inductive Pieces (c : ℕ) : List Piece → Prop
  | unit : Pieces c [.unit c]
  | char : ¬ isHighSurrogate c = true → ¬ isLowSurrogate c = true → Pieces c [.char c]
  | pair {u v : ℕ} : isHighSurrogate u = true → isLowSurrogate v = true →
      joinPair u v = c → ¬ isHighSurrogate c = true → ¬ isLowSurrogate c = true →
      Pieces c [.unit u, .unit v]

theorem escapePieces_cases {c : ℕ} (hc : c < 0x110000) : Pieces c (escapePieces c) := by
  have hascii (h : c < 0x80) : Pieces c [.char c] := by
    refine .char ?_ ?_
    · rw [isHighSurrogate_iff]
      omega
    · rw [isLowSurrogate_iff]
      omega
  unfold escapePieces
  cases hlookup : shortEscapes.lookup c with
  | some e =>
      obtain ⟨l₁, l₂, hlist, -⟩ := List.lookup_eq_some_iff.mp hlookup
      have hmem : (c, e) ∈ shortEscapes := hlist ▸ List.mem_append_right l₁ List.mem_cons_self
      refine hascii ?_
      revert hmem
      simp only [shortEscapes, List.mem_cons, Prod.mk.injEq, List.not_mem_nil, or_false]
      omega
  | none =>
      dsimp only
      by_cases hplain : ' '.toNat ≤ c ∧ c ≤ '~'.toNat
      · have hle : c ≤ 0x7E := hplain.2
        rw [if_pos hplain]
        exact hascii (by omega)
      · rw [if_neg hplain]
        by_cases hbmp : c < 0x10000
        · rw [if_pos hbmp]
          exact .unit
        · rw [if_neg hbmp]
          have hsplit := Nat.div_add_mod (c - 0x10000) 0x400
          have hlow : (c - 0x10000) % 0x400 < 0x400 := Nat.mod_lt _ (by decide)
          generalize (c - 0x10000) / 0x400 = q at hsplit
          generalize (c - 0x10000) % 0x400 = r at hsplit hlow
          refine .pair ?_ ?_ ?_ ?_ ?_
          · rw [isHighSurrogate_iff]
            omega
          · rw [isLowSurrogate_iff]
            omega
          · rw [joinPair_halves]
            omega
          · rw [isHighSurrogate_iff]
            omega
          · rw [isLowSurrogate_iff]
            omega

/-- A character that is not joined with what follows. -/
theorem joinPieces_escape {c : ℕ} (hc : c < 0x110000) (ps : List Piece)
    (h : ∀ v, ps.head? = some (.unit v) → (isHighSurrogate c && isLowSurrogate v) = false) :
    joinPieces (escapePieces c ++ ps) = c :: joinPieces ps := by
  have hcases := escapePieces_cases hc
  generalize escapePieces c = qs at hcases
  cases hcases with
  | unit =>
      refine joinPieces_alone _ ps fun v hv u hu => ?_
      cases hu
      exact h v hv
  | char => exact joinPieces_alone _ ps fun v hv u hu => by cases hu
  | pair hu hv hjoin =>
      rw [List.cons_append, List.cons_append, List.nil_append, joinPieces_pair (by simp [hu, hv]),
        hjoin]

/-- A surrogate is a piece of its own. -/
theorem escapePieces_surrogate {c : ℕ} (hc : c < 0x110000)
    (h : isHighSurrogate c = true ∨ isLowSurrogate c = true) : escapePieces c = [.unit c] := by
  have hcases := escapePieces_cases hc
  generalize escapePieces c = qs at hcases
  cases hcases with
  | unit => rfl
  | char hhigh hlow => simp [hhigh, hlow] at h
  | pair _ _ _ hhigh hlow => simp [hhigh, hlow] at h

/-- Behind a high surrogate only a low one begins with the second half of a pair. -/
theorem head_escapePieces {d v : ℕ} {ps : List Piece} (hd : d < 0x110000)
    (h : (escapePieces d ++ ps).head? = some (.unit v)) (hv : isLowSurrogate v = true) : v = d := by
  have hcases := escapePieces_cases hd
  generalize escapePieces d = qs at hcases h
  cases hcases with
  | unit =>
      cases h
      rfl
  | char => cases h
  | pair hu =>
      cases h
      rw [isHighSurrogate_iff] at hu
      rw [isLowSurrogate_iff] at hv
      omega

theorem joinPieces_rejoin {s : Text} (hs : IsText s) :
    joinPieces (s.flatMap escapePieces) = rejoin s := by
  fun_induction rejoin s with
  | case1 => rfl
  | case2 c =>
      rw [List.flatMap_cons, List.flatMap_nil,
        joinPieces_escape (hs c List.mem_cons_self) _ (by simp)]
      rfl
  | case3 c d s hpair ih =>
      have hc : c < 0x110000 := hs c List.mem_cons_self
      have hd : d < 0x110000 := hs d (by simp)
      have hboth : isHighSurrogate c = true ∧ isLowSurrogate d = true := by simpa using hpair
      rw [List.flatMap_cons, List.flatMap_cons, escapePieces_surrogate hc (Or.inl hboth.1),
        escapePieces_surrogate hd (Or.inr hboth.2), List.cons_append, List.cons_append,
        List.nil_append, List.nil_append, joinPieces_pair hpair,
        ih fun e he => hs e (by simp [he])]
  | case4 c d s hpair ih =>
      have hc : c < 0x110000 := hs c List.mem_cons_self
      have hd : d < 0x110000 := hs d (by simp)
      have htail : IsText (d :: s) := fun e he => hs e (List.mem_cons_of_mem c he)
      rw [List.flatMap_cons, joinPieces_escape hc, ih htail]
      intro v hv
      by_contra hjoin
      have hboth : isHighSurrogate c = true ∧ isLowSurrogate v = true := by simpa using hjoin
      rw [List.flatMap_cons] at hv
      obtain rfl := head_escapePieces hd hv hboth.2
      exact hpair (by simpa using hboth)

/-- **A string is read back**, with its surrogates joined. -/
theorem scanString_encodeString {s : Text} (hs : IsText s) (rest : Text) :
    ∃ cs, encodeString s ++ rest = '"'.toNat :: cs ∧ scanString cs = some (rejoin s, rest) := by
  refine ⟨s.flatMap escapeChar ++ '"'.toNat :: rest, ?_, ?_⟩
  · rw [encodeString, List.cons_append, List.cons_append, List.append_assoc]
    rfl
  · rw [scanString, scanPieces_quoted hs, Option.map_some, joinPieces_rejoin hs]

end Strings

/-! ## Values -/

namespace Val

/-- To prove something of all values, prove it of a list and of a dict given that it holds of what
is in them. -/
theorem induct {P : Val → Prop} (null : P .null) (bool : ∀ b, P (.bool b)) (int : ∀ n, P (.int n))
    (float : ∀ x, P (.float x)) (str : ∀ s, P (.str s))
    (list : ∀ xs, (∀ v ∈ xs, P v) → P (.list xs))
    (dict : ∀ items, (∀ e ∈ items, P e.2) → P (.dict items)) (v : Val) : P v :=
  @Val.rec P (fun xs => ∀ v ∈ xs, P v) (fun items => ∀ e ∈ items, P e.2) (fun e => P e.2) null bool
    int float str list dict (by simp) (fun _ _ hv hxs => List.forall_mem_cons.mpr ⟨hv, hxs⟩)
    (by simp) (fun _ _ he hitems => List.forall_mem_cons.mpr ⟨he, hitems⟩) (fun _ _ hv => hv) v

mutual

/-- The value with the surrogates in its strings joined; keys that become equal are one key. -/
def rejoin : Val → Val
  | .str s => .str (PyJson.rejoin s)
  | .list xs => .list (rejoinList xs)
  | .dict items => Bracket.object.value (rejoinItems items)
  | v => v

def rejoinList : List Val → List Val
  | [] => []
  | v :: xs => v.rejoin :: rejoinList xs

def rejoinItems : List (Text × Val) → List (Text × Val)
  | [] => []
  | (key, v) :: items => (PyJson.rejoin key, v.rejoin) :: rejoinItems items

end

mutual

/-- `p` holds of the value and of every value in it. -/
def All (p : Val → Prop) : Val → Prop
  | .list xs => p (.list xs) ∧ AllList p xs
  | .dict items => p (.dict items) ∧ AllItems p items
  | v => p v

def AllList (p : Val → Prop) : List Val → Prop
  | [] => True
  | v :: xs => v.All p ∧ AllList p xs

def AllItems (p : Val → Prop) : List (Text × Val) → Prop
  | [] => True
  | (_, v) :: items => v.All p ∧ AllItems p items

end

theorem rejoinList_eq (xs : List Val) : rejoinList xs = xs.map rejoin := by
  induction xs with
  | nil => rfl
  | cons v xs ih => rw [rejoinList, ih, List.map_cons]

theorem rejoinItems_eq (items : List (Text × Val)) :
    rejoinItems items = items.map fun e => (PyJson.rejoin e.1, e.2.rejoin) := by
  induction items with
  | nil => rfl
  | cons e items ih => rw [rejoinItems, ih, List.map_cons]

theorem allList_iff {p : Val → Prop} (xs : List Val) : AllList p xs ↔ ∀ v ∈ xs, v.All p := by
  induction xs with
  | nil => exact iff_of_true trivial (by simp)
  | cons v xs ih => rw [AllList, ih, List.forall_mem_cons]

theorem allItems_iff {p : Val → Prop} (items : List (Text × Val)) :
    AllItems p items ↔ ∀ e ∈ items, e.2.All p := by
  induction items with
  | nil => exact iff_of_true trivial (by simp)
  | cons e items ih => rw [AllItems, ih, List.forall_mem_cons]

end Val

/-! ## Items are read back -/

section Items

variable {scan : Scanner} {b : Bracket} {rest : Text}

/-- What is written begins with a character that is no whitespace and closes no bracket. -/
def StartsDark (t : Text) : Prop :=
  ∃ c cs, t = c :: cs ∧ isWhitespace c = false ∧ ∀ b : Bracket, c ≠ b.closing

theorem StartsDark.append {t : Text} (h : StartsDark t) (cs : Text) : StartsDark (t ++ cs) := by
  obtain ⟨c, tail, rfl, hc⟩ := h
  exact ⟨c, tail ++ cs, rfl, hc⟩

theorem skip_dark {t : Text} (h : StartsDark t) (cs : Text) : skip (t ++ cs) = t ++ cs := by
  obtain ⟨c, tail, rfl, hc, -⟩ := h
  rw [skip, List.cons_append, List.dropWhile_cons_of_neg (by simp [hc])]

/-- Between brackets, the text is read as the item. -/
def ReadsItem (scan : Scanner) (b : Bracket) (t : Text) (item : Text × Val) : Prop :=
  StartsDark t ∧ ∀ rest, Delimited rest → ∃ cs, b.label (t ++ rest) = some (item.1, cs) ∧
    scan cs = .ok (item.2, rest)

theorem delimited_cons {c : ℕ} (h : c = ','.toNat ∨ ∃ b : Bracket, c = b.closing) (cs : Text) :
    Delimited (c :: cs) := by
  intro d hd
  cases hd
  rcases h with rfl | ⟨b, rfl⟩
  · decide
  · cases b <;> decide

theorem skip_closing (b : Bracket) (cs : Text) : skip (b.closing :: cs) = b.closing :: cs := by
  cases b <;> rfl

theorem startsDark_joinItems {t : Text} (h : StartsDark t) (ts : List Text) :
    StartsDark (joinItems (t :: ts)) := by
  cases ts with
  | nil => exact h
  | cons t' ts =>
      rw [joinItems, List.append_assoc]
      · exact h.append _
      · simp

/-- The items between brackets, as many as there are, are read one after the other. -/
theorem scanItems_joinItems {ts : List Text} {items : List (Text × Val)}
    (h : List.Forall₂ (ReadsItem scan b) ts items) (hne : ts ≠ []) (rest : Text) {turns : ℕ}
    (hturns : ts.length ≤ turns) :
    scanItems scan b turns (joinItems ts ++ b.closing :: rest) = .ok (items, rest) := by
  induction h generalizing turns with
  | nil => exact absurd rfl hne
  | @cons t item ts items ht hts ih =>
      cases turns with
      | zero => simp at hturns
      | succ turns =>
          cases hts with
          | nil =>
              obtain ⟨cs, hlabel, hscan⟩ := ht.2 (b.closing :: rest)
                (delimited_cons (Or.inr ⟨b, rfl⟩) rest)
              exact scanItems_last turns hlabel hscan (skip_closing b rest)
          | @cons t' item' ts' items' ht' hts' =>
              have hmore := @ih (by simp) turns (by simpa using hturns)
              have hdark : StartsDark (joinItems (t' :: ts')) := startsDark_joinItems ht'.1 ts'
              obtain ⟨cs, hlabel, hscan⟩ := ht.2
                (','.toNat :: ' '.toNat :: (joinItems (t' :: ts') ++ b.closing :: rest))
                (delimited_cons (Or.inl rfl) _)
              have htext : joinItems (t :: t' :: ts') ++ b.closing :: rest =
                  t ++ ','.toNat :: ' '.toNat :: (joinItems (t' :: ts') ++ b.closing :: rest) := by
                rw [joinItems, List.append_assoc, List.append_assoc]
                · rfl
                · simp
              have hskip : skip (' '.toNat :: (joinItems (t' :: ts') ++ b.closing :: rest)) =
                  joinItems (t' :: ts') ++ b.closing :: rest := skip_dark hdark _
              rw [htext, scanItems_next turns hlabel hscan rfl, hskip, hmore]
              rfl

theorem startsDark_of_reads {ts : List Text} {items : List (Text × Val)}
    (h : List.Forall₂ (ReadsItem scan b) ts items) : ∀ t ∈ ts, StartsDark t := by
  induction h with
  | nil => simp
  | cons ht _ ih => exact List.forall_mem_cons.mpr ⟨ht.1, ih⟩

theorem length_le_joinItems {ts : List Text} (h : ∀ t ∈ ts, StartsDark t) :
    ts.length ≤ (joinItems ts).length := by
  induction ts with
  | nil => exact Nat.zero_le _
  | cons t ts ih =>
      obtain ⟨c, cs, rfl, -⟩ := h _ List.mem_cons_self
      cases ts with
      | nil => exact Nat.succ_le_succ (Nat.zero_le _)
      | cons t' ts =>
          have hle := ih fun t ht => h t (List.mem_cons_of_mem _ ht)
          rw [joinItems, List.length_append, List.length_append]
          · simp only [List.length_cons] at hle ⊢
            omega
          · simp

/-- A list or a dict is read back if its items are. -/
theorem scanOnce_text {levels : ℕ} {ts : List Text} {items : List (Text × Val)}
    (h : List.Forall₂ (ReadsItem (scanOnce levels) b) ts items) (rest : Text) :
    scanOnce (levels + 1) (b.text ts ++ rest) = .ok (b.value items, rest) := by
  have htext : b.text ts ++ rest = b.opening :: (joinItems ts ++ b.closing :: rest) := by
    rw [Bracket.text, List.cons_append, List.cons_append, List.append_assoc]
    rfl
  rw [htext, scanOnce_succ]
  cases h with
  | nil => exact scanBracket_empty (skip_closing b rest)
  | @cons t item ts items ht hts =>
      have hdark : StartsDark (joinItems (t :: ts)) := startsDark_joinItems ht.1 ts
      have hskip := skip_dark hdark (b.closing :: rest)
      have hhead : (skip (joinItems (t :: ts) ++ b.closing :: rest)).head? ≠ some b.closing := by
        rw [hskip]
        obtain ⟨c, cs, hcs, -, hc⟩ := hdark
        rw [hcs]
        exact fun h => hc b (Option.some.inj h)
      have hall : ∀ t' ∈ t :: ts, StartsDark t' := startsDark_of_reads (.cons ht hts)
      have hlength : (t :: ts).length ≤ (joinItems (t :: ts) ++ b.closing :: rest).length := by
        rw [List.length_append]
        exact (length_le_joinItems hall).trans (Nat.le_add_right _ _)
      rw [scanBracket_items _ hhead, hskip,
        scanItems_joinItems (.cons ht hts) (by simp) rest hlength]
      rfl

end Items

/-! ## Values are read back -/

section Values

variable {repr : Double → Text}

/-- The text is ASCII. -/
def IsAscii (s : Text) : Prop := ∀ c ∈ s, c < 0x80

instance (s : Text) : Decidable (IsAscii s) := inferInstanceAs (Decidable (∀ _ ∈ _, _))

theorem IsAscii.isText {s : Text} (h : IsAscii s) : IsText s :=
  fun c hc => (h c hc).trans (by decide)

/-- A finite float is written in ASCII, as a literal that is read as the float. -/
def ReadsBack (repr : Double → Text) : Double → Prop
  | .finite negative magnitude => IsAscii (repr (.finite negative magnitude)) ∧
      ∀ rest, Delimited rest →
        ∃ l, matchNumber (repr (.finite negative magnitude) ++ rest) = some (l, rest) ∧
          l.isFloat = true ∧ l.value = .float (.finite negative magnitude)
  | _ => True

/-- What holds of every value of Python: strings consist of code points, and floats are written as
literals that are read as them. -/
def Sound (repr : Double → Text) : Val → Prop
  | .float x => ReadsBack repr x
  | .str s => IsText s
  | .dict items => ∀ e ∈ items, IsText e.1
  | _ => True

theorem startsDark_number {t : Text} {l : NumberLiteral} (h : matchNumber t = some (l, [])) :
    StartsDark t := by
  obtain ⟨ds, after, hint, -⟩ := matchNumber_eq_some h
  cases t with
  | nil => cases hint
  | cons c cs =>
      have hc : c = '-'.toNat ∨ isDigit c = true := by
        by_cases hminus : c = '-'.toNat
        · exact Or.inl hminus
        · rw [matchSign, if_neg hminus, if_neg (by simp), matchInteger] at hint
          split_ifs at hint with hzero hdigit
          · exact Or.inr (by rw [hzero]; decide)
          · exact Or.inr hdigit
      refine ⟨c, cs, rfl, ?_, fun b => ?_⟩
      · rcases hc with rfl | hc
        · decide
        · have hge : 48 ≤ c := by
            simp only [isDigit, Bool.and_eq_true, decide_eq_true_eq] at hc
            exact hc.1
          simp only [isWhitespace, Bool.or_eq_false_iff, decide_eq_false_iff_not]
          omega
      · rcases hc with rfl | hc
        · cases b <;> decide
        · rintro rfl
          cases b <;> revert hc <;> decide

theorem startsDark_encodeString (s : Text) : StartsDark (encodeString s) :=
  ⟨_, _, rfl, by decide, fun b => by cases b <;> decide⟩

theorem startsDark_text (b : Bracket) (ts : List Text) : StartsDark (b.text ts) :=
  ⟨_, _, rfl, by cases b <;> decide, fun b' => by cases b <;> cases b' <;> decide⟩

theorem startsDark_constant {word : Text} {v : Val} (h : (word, v) ∈ constants) :
    StartsDark word := by
  revert h
  simp only [constants, List.mem_cons, Prod.mk.injEq, List.not_mem_nil, or_false]
  rintro (⟨rfl, -⟩ | ⟨rfl, -⟩ | ⟨rfl, -⟩ | ⟨rfl, -⟩ | ⟨rfl, -⟩ | ⟨rfl, -⟩) <;>
    exact ⟨_, _, rfl, by decide, fun b => by cases b <;> decide⟩

theorem matchConstant_word {word : Text} {v : Val} (h : (word, v) ∈ constants) (rest : Text) :
    matchConstant (word ++ rest) = some (v, rest) := by
  revert h
  simp only [constants, List.mem_cons, Prod.mk.injEq, List.not_mem_nil, or_false]
  rintro (⟨rfl, rfl⟩ | ⟨rfl, rfl⟩ | ⟨rfl, rfl⟩ | ⟨rfl, rfl⟩ | ⟨rfl, rfl⟩ | ⟨rfl, rfl⟩) <;>
    cases rest <;> rfl

/-- The text is read as the value, whatever follows it. -/
def ReadsAs (levels : ℕ) (t : Text) (v : Val) : Prop :=
  StartsDark t ∧ ∀ rest, Delimited rest → scanOnce levels (t ++ rest) = .ok (v, rest)

theorem readsAs_constant {word : Text} {v : Val} (levels : ℕ) (h : (word, v) ∈ constants) :
    ReadsAs levels word v :=
  ⟨startsDark_constant h, fun rest _ => scanOnce_constant levels (matchConstant_word h rest)⟩

theorem readsAs_int {n : ℤ} (levels : ℕ) (h : ¬ IntTooLong n) :
    ReadsAs levels (intRepr n) (.int n) := by
  have hshort : ¬ (⟨n < 0, natRepr n.natAbs, [], none⟩ : NumberLiteral).TooLong := fun h' => h h'.2
  constructor
  · exact startsDark_number (by simpa using matchNumber_intRepr n delimited_nil)
  · intro rest hrest
    rw [scanOnce_number levels (matchNumber_intRepr n hrest), if_neg hshort, value_intRepr]

theorem readsAs_float {x : Double} (levels : ℕ) (h : ReadsBack repr x) :
    ReadsAs levels (encodeFloat repr x) (.float x) := by
  cases x with
  | nan => exact readsAs_constant levels (by simp [constants, encodeFloat])
  | infinite negative =>
      cases negative with
      | false => exact readsAs_constant levels (by simp [constants, encodeFloat])
      | true => exact readsAs_constant levels (by simp [constants, encodeFloat])
  | finite negative magnitude =>
      constructor
      · obtain ⟨l, hl, -⟩ := h.2 [] delimited_nil
        rw [List.append_nil] at hl
        exact startsDark_number hl
      · intro rest hrest
        obtain ⟨l, hl, hfloat, hvalue⟩ := h.2 rest hrest
        have hshort : ¬ l.TooLong := by
          rintro ⟨hint, -⟩
          rw [hint] at hfloat
          cases hfloat
        rw [encodeFloat, scanOnce_number levels hl, if_neg hshort, hvalue]

theorem readsAs_str {s : Text} (levels : ℕ) (hs : IsText s) :
    ReadsAs levels (encodeString s) (.str (rejoin s)) := by
  refine ⟨startsDark_encodeString s, fun rest _ => ?_⟩
  obtain ⟨cs, htext, hscan⟩ := scanString_encodeString hs rest
  rw [htext]
  exact scanOnce_string levels hscan

theorem ReadsAs.readsElement {levels : ℕ} {t : Text} {v : Val} (h : ReadsAs levels t v) :
    ReadsItem (scanOnce levels) .array t ([], v) :=
  ⟨h.1, fun rest hrest => ⟨t ++ rest, rfl, h.2 rest hrest⟩⟩

theorem ReadsAs.readsItem {levels : ℕ} {key t : Text} {v : Val} (h : ReadsAs levels t v)
    (hkey : IsText key) :
    ReadsItem (scanOnce levels) .object (encodeItem key t) (rejoin key, v) := by
  refine ⟨⟨_, _, rfl, by decide, fun b => by cases b <;> decide⟩, fun rest hrest => ?_⟩
  obtain ⟨cs, htext, hscan⟩ := scanString_encodeString hkey (':'.toNat :: ' '.toNat :: (t ++ rest))
  have hitem : encodeItem key t ++ rest = '"'.toNat :: cs := by
    rw [← htext, encodeItem, List.append_assoc, List.append_assoc]
    rfl
  have hcolon : skip (':'.toNat :: ' '.toNat :: (t ++ rest)) =
      ':'.toNat :: ' '.toNat :: (t ++ rest) := rfl
  have hskip : skip (' '.toNat :: (t ++ rest)) = t ++ rest := skip_dark h.1 rest
  refine ⟨t ++ rest, ?_, h.2 rest hrest⟩
  rw [hitem, Bracket.label, if_pos rfl, hscan]
  simp only [Option.bind_eq_bind, Option.bind_some, hcolon, if_pos, hskip]

theorem readsAs_list {levels levels' : ℕ} {xs : List Val} {ts : List Text}
    (hread : ∀ v ∈ xs, ∀ {t}, dumps repr levels v = .ok t → ReadsAs levels' t v.rejoin)
    (h : dumpsList repr levels xs = .ok ts) :
    ReadsAs (levels' + 1) (Bracket.array.text ts) (Val.list xs).rejoin := by
  have hreads : List.Forall₂ (ReadsItem (scanOnce levels') .array) ts
      (xs.map fun v => ([], v.rejoin)) := by
    induction xs generalizing ts with
    | nil =>
        cases h
        exact .nil
    | cons v xs ih =>
        rw [List.forall_mem_cons] at hread
        obtain ⟨t, ht, h⟩ := bind_ok_iff.mp h
        obtain ⟨ts', hts, h⟩ := bind_ok_iff.mp h
        cases h
        exact .cons (hread.1 ht).readsElement (ih hread.2 hts)
  refine ⟨startsDark_text .array ts, fun rest _ => ?_⟩
  rw [scanOnce_text hreads rest, Bracket.value, List.map_map, Val.rejoin, Val.rejoinList_eq]
  rfl

theorem readsAs_dict {levels levels' : ℕ} {items : List (Text × Val)} {ts : List Text}
    (hkeys : ∀ e ∈ items, IsText e.1)
    (hread : ∀ e ∈ items, ∀ {t}, dumps repr levels e.2 = .ok t → ReadsAs levels' t e.2.rejoin)
    (h : dumpsItems repr levels items = .ok ts) :
    ReadsAs (levels' + 1) (Bracket.object.text ts) (Val.dict items).rejoin := by
  have hreads : List.Forall₂ (ReadsItem (scanOnce levels') .object) ts
      (items.map fun e => (rejoin e.1, e.2.rejoin)) := by
    induction items generalizing ts with
    | nil =>
        cases h
        exact .nil
    | cons e items ih =>
        obtain ⟨key, v⟩ := e
        rw [List.forall_mem_cons] at hkeys hread
        obtain ⟨t, ht, h⟩ := bind_ok_iff.mp h
        obtain ⟨ts', hts, h⟩ := bind_ok_iff.mp h
        cases h
        exact .cons ((hread.1 ht).readsItem hkeys.1) (ih hkeys.2 hread.2 hts)
  refine ⟨startsDark_text .object ts, fun rest _ => ?_⟩
  rw [scanOnce_text hreads rest, Val.rejoin, Val.rejoinItems_eq]

/-- **What `json.dumps` writes is read back**, if as many lists and dicts can be open as then. -/
theorem readsAs_dumps {v : Val} (hv : v.All (Sound repr)) {levels levels' : ℕ} {t : Text}
    (h : dumps repr levels v = .ok t) (hle : levels ≤ levels') : ReadsAs levels' t v.rejoin := by
  induction v using Val.induct generalizing levels levels' t with
  | null =>
      rw [dumps] at h
      cases h
      exact readsAs_constant levels' (by simp [constants, Val.rejoin])
  | bool b =>
      rw [dumps] at h
      cases h
      cases b with
      | false => exact readsAs_constant levels' (by simp [constants, Val.rejoin])
      | true => exact readsAs_constant levels' (by simp [constants, Val.rejoin])
  | int n =>
      rw [dumps] at h
      split_ifs at h with hlong
      cases h
      exact readsAs_int levels' hlong
  | float x =>
      rw [dumps] at h
      cases h
      exact readsAs_float levels' hv
  | str s =>
      rw [dumps] at h
      cases h
      exact readsAs_str levels' hv
  | list xs ih =>
      have hxs := (Val.allList_iff xs).mp hv.2
      cases levels with
      | zero =>
          rw [dumps] at h
          cases h
      | succ levels =>
          rw [dumps] at h
          obtain ⟨ts, hts, rfl⟩ := map_ok h
          cases levels' with
          | zero => exact absurd hle (Nat.not_succ_le_zero levels)
          | succ levels' =>
              have hle' : levels ≤ levels' := Nat.le_of_succ_le_succ hle
              exact readsAs_list (fun v hmem _ ht => ih v hmem (hxs v hmem) ht hle') hts
  | dict items ih =>
      have hitems := (Val.allItems_iff items).mp hv.2
      cases levels with
      | zero =>
          rw [dumps] at h
          cases h
      | succ levels =>
          rw [dumps] at h
          obtain ⟨ts, hts, rfl⟩ := map_ok h
          cases levels' with
          | zero => exact absurd hle (Nat.not_succ_le_zero levels)
          | succ levels' =>
              have hle' : levels ≤ levels' := Nat.le_of_succ_le_succ hle
              exact readsAs_dict hv.1
                (fun e hmem _ ht => ih e hmem (hitems e hmem) ht hle') hts

theorem decodeText_of_readsAs {v : Val} {levels : ℕ} {t : Text} (h : ReadsAs levels t v) :
    decodeText levels t = .ok v := by
  have hskip := skip_dark h.1 []
  have hscan := h.2 [] delimited_nil
  rw [List.append_nil] at hskip hscan
  rw [decodeText, hskip, hscan, ok_bind]
  rfl

/-- **`json.loads` reads what `json.dumps` has written**, with surrogates joined. -/
theorem decodeText_dumps {v : Val} (hv : v.All (Sound repr)) {levels levels' : ℕ} {t : Text}
    (h : dumps repr levels v = .ok t) (hle : levels ≤ levels') :
    decodeText levels' t = .ok v.rejoin :=
  decodeText_of_readsAs (readsAs_dumps hv h hle)

/-- However few lists and dicts can be open when it reads, it reads nothing else. -/
theorem decodeText_dumps_or_aborts {v : Val} (hv : v.All (Sound repr)) {levels : ℕ} {t : Text}
    (h : dumps repr levels v = .ok t) (levels' : ℕ) :
    decodeText levels' t = .ok v.rejoin ∨ Aborts (decodeText levels' t) := by
  have hdenotes : Denotes t v.rejoin := by
    obtain ⟨hdark, hread⟩ := readsAs_dumps hv h (le_refl levels)
    have hskip := skip_dark hdark []
    have hscan := hread [] delimited_nil
    rw [List.append_nil] at hskip hscan
    exact ⟨[], hskip.symm ▸ scanOnce_sound hscan, rfl⟩
  by_cases hover : Overruns levels' t
  · exact Or.inr (decodeText_aborts hover)
  · left
    cases decodeText_spec hover with
    | inl hok =>
        obtain ⟨w, hw, honly⟩ := hok
        rw [hw, (honly _).mp hdenotes]
    | inr herr => exact absurd hdenotes (herr.2 _)

end Values

end PyJson
