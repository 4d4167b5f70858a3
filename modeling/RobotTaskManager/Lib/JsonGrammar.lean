import RobotTaskManager.Lib.PyJson
import RobotTaskManager.Lib.PyValue

set_option autoImplicit false

/-! # What `json.loads` reads

`Reads` is the grammar of the texts that `json.loads` is for, with what they denote; it knows
nothing of the limits of the decoder. `Visits` says where a scan begins to read values, and how
many more brackets can be open there. `decodeText_spec` holds the decoder to both: if it comes to a
place where a limit is exceeded, it raises what is no `JSONDecodeError`. If it does not, it gives
what the text denotes, and raises `JSONDecodeError` for a text that denotes nothing.
-/

namespace PyJson

open PyText
open PyValue (ok_bind error_bind map_ok)

variable {cs rest : Text} {v : Val} {b : Bracket} {items : List (Text × Val)} {levels : ℕ}

/-! ## The grammar -/

/-- What can be read from a text: a value, or what stands between two brackets, with the closing
one. -/
inductive Part
  | value (v : Val)
  | items (b : Bracket) (items : List (Text × Val))

/-- `Reads cs p rest`: the text `cs` begins with `p`, and `rest` follows. -/
inductive Reads : Text → Part → Text → Prop
  | string {cs rest s : Text} : scanString cs = some (s, rest) →
      Reads ('"'.toNat :: cs) (.value (.str s)) rest
  | constant {cs rest : Text} {v : Val} : matchConstant cs = some (v, rest) →
      Reads cs (.value v) rest
  | number {cs rest : Text} {l : NumberLiteral} : matchNumber cs = some (l, rest) →
      Reads cs (.value l.value) rest
  | empty {cs rest : Text} {b : Bracket} : skip cs = b.closing :: rest →
      Reads (b.opening :: cs) (.value (b.value [])) rest
  | bracket {cs rest : Text} {b : Bracket} {items : List (Text × Val)} :
      (skip cs).head? ≠ some b.closing → Reads (skip cs) (.items b items) rest →
      Reads (b.opening :: cs) (.value (b.value items)) rest
  | last {cs cs' after rest key : Text} {b : Bracket} {v : Val} : b.label cs = some (key, cs') →
      Reads cs' (.value v) after → skip after = b.closing :: rest →
      Reads cs (.items b [(key, v)]) rest
  | next {cs cs' after next rest key : Text} {b : Bracket} {v : Val}
      {items : List (Text × Val)} : b.label cs = some (key, cs') →
      Reads cs' (.value v) after → skip after = ','.toNat :: next →
      Reads (skip next) (.items b items) rest → Reads cs (.items b ((key, v) :: items)) rest

/-- The text is a value, with whitespace around it. -/
def Denotes (s : Text) (v : Val) : Prop := ∃ rest, Reads (skip s) (.value v) rest ∧ skip rest = []

/-! ## The limits -/

/-- What a scan is to read next. -/
inductive Place
  | value
  | items (b : Bracket)

/-- `Visits levels p cs l cs'`: a scan of `cs` for `p`, when `levels` more brackets can be open,
comes to read a value at `cs'` when `l` more can be open. -/
inductive Visits : ℕ → Place → Text → ℕ → Text → Prop
  | here {levels : ℕ} {cs : Text} : Visits levels .value cs levels cs
  | bracket {levels l : ℕ} {cs cs' : Text} {b : Bracket} : (skip cs).head? ≠ some b.closing →
      Visits levels (.items b) (skip cs) l cs' →
      Visits (levels + 1) .value (b.opening :: cs) l cs'
  | item {levels l : ℕ} {cs cs₁ cs' key : Text} {b : Bracket} : b.label cs = some (key, cs₁) →
      Visits levels .value cs₁ l cs' → Visits levels (.items b) cs l cs'
  | next {levels l : ℕ} {cs cs₁ after next cs' key : Text} {b : Bracket} {v : Val} :
      b.label cs = some (key, cs₁) → Reads cs₁ (.value v) after → skip after = ','.toNat :: next →
      Visits levels (.items b) (skip next) l cs' → Visits levels (.items b) cs l cs'

/-- At this place a limit is exceeded: there is a bracket, but no more can be open, or an integer
with too many digits. -/
def Exceeds (levels : ℕ) (cs : Text) : Prop :=
  (levels = 0 ∧ ∃ b : Bracket, cs.head? = some b.opening) ∨
    ∃ l rest, matchNumber cs = some (l, rest) ∧ l.TooLong

/-- A scan of the text comes to a place where a limit is exceeded. -/
def Overruns (levels : ℕ) (s : Text) : Prop :=
  ∃ l cs, Visits levels .value (skip s) l cs ∧ Exceeds l cs

/-! ## Exceptions -/

section Aborts

variable {α β : Type} {x : Except Raised α} {f : α → Except Raised β}

/-- The exception is no `JSONDecodeError`. -/
def Aborts (x : Except Raised α) : Prop := ∃ e, x = .error e ∧ e ≠ .jsonDecodeError

theorem Aborts.bind (h : Aborts x) (f : α → Except Raised β) : Aborts (x >>= f) := by
  obtain ⟨e, rfl, he⟩ := h
  exact ⟨e, rfl, he⟩

theorem aborts_map {f : α → β} : Aborts (x.map f) ↔ Aborts x := by
  cases x with
  | ok a => exact ⟨nofun, nofun⟩
  | error e =>
      constructor
      · rintro ⟨e', he, hne⟩
        exact ⟨e', congrArg Except.error (Except.error.inj he), hne⟩
      · rintro ⟨e', he, hne⟩
        exact ⟨e', congrArg Except.error (Except.error.inj he), hne⟩

theorem not_aborts_ok {a : α} : ¬ Aborts (.ok a : Except Raised α) := nofun

theorem not_aborts_jsonDecodeError : ¬ Aborts (.error .jsonDecodeError : Except Raised α) := by
  rintro ⟨e, he, hne⟩
  exact hne (Except.error.inj he).symm

end Aborts

/-! ## Tokens -/

theorem length_skip_le (cs : Text) : (skip cs).length ≤ cs.length :=
  (List.dropWhile_suffix isWhitespace).length_le

theorem length_lt_of_skip {c : ℕ} (h : skip cs = c :: rest) : rest.length < cs.length := by
  have hle := length_skip_le cs
  rw [h, List.length_cons] at hle
  exact hle

theorem length_dropDigits_le (cs : Text) : (cs.dropWhile isDigit).length ≤ cs.length :=
  (List.dropWhile_suffix isDigit).length_le

theorem scanPieces_length {ps : List Piece} (h : scanPieces cs = some (ps, rest)) :
    rest.length < cs.length := by
  fun_induction scanPieces cs generalizing ps with
  | case1 => cases h
  | case2 cs =>
      cases h
      exact Nat.lt_succ_self _
  | case3 => cases h
  | case4 h₁ h₂ h₃ h₄ cs _ ih =>
      obtain ⟨u, -, h⟩ := Option.bind_eq_some_iff.mp h
      obtain ⟨r, hr, h⟩ := Option.bind_eq_some_iff.mp h
      cases h
      have hlt := ih hr
      simp only [List.length_cons]
      omega
  | case5 => cases h
  | case6 e cs _ _ ih =>
      obtain ⟨c, -, h⟩ := Option.bind_eq_some_iff.mp h
      obtain ⟨r, hr, h⟩ := Option.bind_eq_some_iff.mp h
      cases h
      have hlt := ih hr
      simp only [List.length_cons]
      omega
  | case7 => cases h
  | case8 c cs _ _ _ ih =>
      obtain ⟨r, hr, h⟩ := Option.bind_eq_some_iff.mp h
      cases h
      exact (ih hr).trans (Nat.lt_succ_self _)

theorem scanString_length {s : Text} (h : scanString cs = some (s, rest)) :
    rest.length < cs.length := by
  obtain ⟨r, hr, hrest⟩ := Option.map_eq_some_iff.mp h
  obtain ⟨ps, rest'⟩ := r
  cases hrest
  exact scanPieces_length hr

theorem label_length {key : Text} (h : b.label cs = some (key, rest)) :
    rest.length ≤ cs.length := by
  cases b with
  | array =>
      cases h
      exact le_refl _
  | object =>
      cases cs with
      | nil => cases h
      | cons c cs =>
          rw [Bracket.label] at h
          split_ifs at h
          obtain ⟨r, hr, h⟩ := Option.bind_eq_some_iff.mp h
          have hstring := scanString_length hr
          have hskip := length_skip_le r.2
          cases hafter : skip r.2 with
          | nil => simp [hafter] at h
          | cons d after =>
              have hskip' := length_skip_le after
              rw [hafter] at hskip
              simp only [hafter] at h
              split_ifs at h
              cases h
              simp only [List.length_cons] at *
              omega

theorem matchSign_length (plus : Bool) (cs : Text) : (matchSign plus cs).2.length ≤ cs.length := by
  unfold matchSign
  split
  · split_ifs <;> simp
  · exact le_refl _

theorem matchInteger_length {ds : Text} (h : matchInteger cs = some (ds, rest)) :
    rest.length < cs.length := by
  cases cs with
  | nil => cases h
  | cons c cs =>
      have hdigits := length_dropDigits_le cs
      rw [matchInteger] at h
      split_ifs at h <;> cases h <;> simp only [List.length_cons] <;> omega

theorem matchFraction_length (cs : Text) : (matchFraction cs).2.length ≤ cs.length := by
  cases cs with
  | nil => exact le_refl _
  | cons c cs =>
      have hdigits := length_dropDigits_le cs
      rw [matchFraction]
      split_ifs
      · exact Nat.le_succ_of_le hdigits
      · exact Nat.le_refl _

theorem matchExponent_length (cs : Text) : (matchExponent cs).2.length ≤ cs.length := by
  cases cs with
  | nil => exact le_refl _
  | cons c cs =>
      have hsign := matchSign_length true cs
      have hdigits := length_dropDigits_le (matchSign true cs).2
      rw [matchExponent]
      dsimp only
      split
      · exact (hdigits.trans hsign).trans (Nat.le_succ _)
      · exact Nat.le_refl _

theorem matchNumber_eq_some {l : NumberLiteral} (h : matchNumber cs = some (l, rest)) :
    ∃ ds after, matchInteger (matchSign false cs).2 = some (ds, after) ∧
      rest = (matchExponent (matchFraction after).2).2 := by
  unfold matchNumber at h
  cases hint : matchInteger (matchSign false cs).2 with
  | none => simp [hint] at h
  | some r =>
      obtain ⟨ds, after⟩ := r
      simp only [hint, Option.bind_eq_bind, Option.bind_some, Option.pure_def, Option.some.injEq,
        Prod.mk.injEq] at h
      exact ⟨ds, after, rfl, h.2.symm⟩

theorem matchNumber_length {l : NumberLiteral} (h : matchNumber cs = some (l, rest)) :
    rest.length < cs.length := by
  obtain ⟨ds, after, hint, rfl⟩ := matchNumber_eq_some h
  calc (matchExponent (matchFraction after).2).2.length
      ≤ (matchFraction after).2.length := matchExponent_length _
    _ ≤ after.length := matchFraction_length after
    _ < (matchSign false cs).2.length := matchInteger_length hint
    _ ≤ cs.length := matchSign_length false cs

theorem matchConstant_eq_some (h : matchConstant cs = some (v, rest)) :
    ∃ word, (word, v) ∈ constants ∧ cs = word ++ rest := by
  obtain ⟨w, hw, hdrop⟩ := List.exists_of_findSome?_eq_some h
  obtain ⟨r, hr, hrest⟩ := Option.map_eq_some_iff.mp hdrop
  cases hrest
  obtain ⟨word, hcs, heq⟩ := List.dropPrefix?_eq_some_iff.mp hr
  exact ⟨w.1, hw, by rw [hcs, eq_of_beq heq]⟩

theorem constants_ne_nil {word : Text} (h : (word, v) ∈ constants) : word ≠ [] := by
  revert h
  simp only [constants, List.mem_cons, Prod.mk.injEq, List.not_mem_nil, or_false]
  rintro (⟨rfl, -⟩ | ⟨rfl, -⟩ | ⟨rfl, -⟩ | ⟨rfl, -⟩ | ⟨rfl, -⟩ | ⟨rfl, -⟩) <;> decide

theorem matchConstant_length (h : matchConstant cs = some (v, rest)) :
    rest.length < cs.length := by
  obtain ⟨word, hword, rfl⟩ := matchConstant_eq_some h
  have hpos := List.length_pos_iff.mpr (constants_ne_nil hword)
  rw [List.length_append]
  omega

theorem Reads.length {p : Part} (h : Reads cs p rest) : rest.length < cs.length := by
  induction h with
  | string h => exact (scanString_length h).trans_le (Nat.le_succ _)
  | constant h => exact matchConstant_length h
  | number h => exact matchNumber_length h
  | empty h => exact (length_lt_of_skip h).trans (Nat.lt_succ_self _)
  | @bracket cs rest b items _ _ ih =>
      have hskip := length_skip_le cs
      simp only [List.length_cons]
      omega
  | last hlabel _ hskip ih =>
      have hle := label_length hlabel
      have hlt := length_lt_of_skip hskip
      omega
  | @next cs cs' after next rest key b v items hlabel _ hskip _ ih ih' =>
      have hle := label_length hlabel
      have hlt := length_lt_of_skip hskip
      have hnext := length_skip_le next
      omega

/-- After an element and a comma less of the text is left. -/
theorem Reads.next_length {cs' after next key : Text} (hread : Reads cs' (.value v) after)
    (hlabel : b.label cs = some (key, cs')) (hskip : skip after = ','.toNat :: next) :
    (skip next).length < cs.length := by
  have hle := label_length hlabel
  have hlt := hread.length
  have hafter := length_lt_of_skip hskip
  have hnext := length_skip_le next
  omega

/-! ## The scanner -/

/-- The text begins with a character that is no quote and no opening bracket. -/
def Bare (cs : Text) : Prop :=
  ∃ c tail, cs = c :: tail ∧ c ≠ '"'.toNat ∧ c ≠ '{'.toNat ∧ c ≠ '['.toNat

theorem bare_constant (h : matchConstant cs = some (v, rest)) : Bare cs := by
  obtain ⟨word, hword, rfl⟩ := matchConstant_eq_some h
  revert hword
  simp only [constants, List.mem_cons, Prod.mk.injEq, List.not_mem_nil, or_false]
  rintro (⟨rfl, -⟩ | ⟨rfl, -⟩ | ⟨rfl, -⟩ | ⟨rfl, -⟩ | ⟨rfl, -⟩ | ⟨rfl, -⟩) <;>
    exact ⟨_, _, rfl, by decide, by decide, by decide⟩

theorem matchNumber_constant {word : Text} (h : (word, v) ∈ constants) (cs : Text) :
    matchNumber (word ++ cs) = none := by
  revert h
  simp only [constants, List.mem_cons, Prod.mk.injEq, List.not_mem_nil, or_false]
  rintro (⟨rfl, -⟩ | ⟨rfl, -⟩ | ⟨rfl, -⟩ | ⟨rfl, -⟩ | ⟨rfl, -⟩ | ⟨rfl, -⟩) <;> rfl

theorem matchConstant_number {l : NumberLiteral} (h : matchNumber cs = some (l, rest)) :
    matchConstant cs = none := by
  cases hconst : matchConstant cs with
  | none => rfl
  | some r =>
      obtain ⟨word, hword, rfl⟩ := matchConstant_eq_some hconst
      rw [matchNumber_constant hword] at h
      cases h

theorem bare_number {l : NumberLiteral} (h : matchNumber cs = some (l, rest)) : Bare cs := by
  obtain ⟨ds, after, hint, -⟩ := matchNumber_eq_some h
  cases cs with
  | nil => cases hint
  | cons c cs =>
      by_cases hminus : c = '-'.toNat
      · subst hminus
        exact ⟨_, _, rfl, by decide, by decide, by decide⟩
      · rw [matchSign, if_neg hminus, if_neg (by simp)] at hint
        refine ⟨c, cs, rfl, ?_, ?_, ?_⟩ <;> rintro rfl <;> cases hint

theorem scanValue_bare (scan : Option Scanner) (h : Bare cs) : scanValue scan cs = scanBare cs := by
  obtain ⟨c, tail, rfl, hquote, hcurly, hsquare⟩ := h
  rw [scanValue, if_neg hquote, if_neg hcurly, if_neg hsquare]

theorem scanOnce_bare (levels : ℕ) (h : Bare cs) : scanOnce levels cs = scanBare cs := by
  cases levels with
  | zero => exact scanValue_bare none h
  | succ levels => exact scanValue_bare (some (scanOnce levels)) h

theorem scanOnce_constant (levels : ℕ) (h : matchConstant cs = some (v, rest)) :
    scanOnce levels cs = .ok (v, rest) := by
  rw [scanOnce_bare levels (bare_constant h), scanBare, h]

theorem scanOnce_number {l : NumberLiteral} (levels : ℕ) (h : matchNumber cs = some (l, rest)) :
    scanOnce levels cs = if l.TooLong then .error .valueError else .ok (l.value, rest) := by
  rw [scanOnce_bare levels (bare_number h), scanBare, matchConstant_number h, h]

theorem scanOnce_string {s : Text} (levels : ℕ) (h : scanString cs = some (s, rest)) :
    scanOnce levels ('"'.toNat :: cs) = .ok (.str s, rest) := by
  cases levels <;> rw [scanOnce, scanValue, if_pos rfl, scanQuoted, h]

theorem scanOnce_zero (b : Bracket) (cs : Text) :
    scanOnce 0 (b.opening :: cs) = .error .recursionError := by
  cases b <;> rfl

theorem scanOnce_succ (levels : ℕ) (b : Bracket) (cs : Text) :
    scanOnce (levels + 1) (b.opening :: cs) = scanBracket b (scanOnce levels) cs := by
  cases b <;> rfl

/-- What `scanOnce` does with a text that does not begin with a bracket. -/
inductive Leaf (levels : ℕ) (cs : Text) : Except Raised (Val × Text) → Prop
  | stuck : Leaf levels cs (.error .jsonDecodeError)
  | tooLong {l : NumberLiteral} {rest : Text} : matchNumber cs = some (l, rest) → l.TooLong →
      Leaf levels cs (.error .valueError)
  | read {v : Val} {rest : Text} : Reads cs (.value v) rest → Leaf levels cs (.ok (v, rest))

theorem scanOnce_cases (levels : ℕ) (cs : Text) :
    (∃ (b : Bracket) (tail : Text), cs = b.opening :: tail) ∨
      Leaf levels cs (scanOnce levels cs) := by
  cases cs with
  | nil => cases levels <;> exact Or.inr .stuck
  | cons c cs =>
      by_cases hquote : c = '"'.toNat
      · right
        subst hquote
        cases hstring : scanString cs with
        | none =>
            have hstuck : scanOnce levels ('"'.toNat :: cs) = .error .jsonDecodeError := by
              cases levels <;> rw [scanOnce, scanValue, if_pos rfl, scanQuoted, hstring]
            exact hstuck ▸ .stuck
        | some r => exact scanOnce_string levels hstring ▸ .read (.string hstring)
      by_cases hcurly : c = '{'.toNat
      · exact Or.inl ⟨.object, cs, by rw [hcurly]; rfl⟩
      by_cases hsquare : c = '['.toNat
      · exact Or.inl ⟨.array, cs, by rw [hsquare]; rfl⟩
      right
      rw [scanOnce_bare levels ⟨c, cs, rfl, hquote, hcurly, hsquare⟩, scanBare]
      cases hconst : matchConstant (c :: cs) with
      | some r => exact .read (.constant hconst)
      | none =>
          cases hnumber : matchNumber (c :: cs) with
          | none => exact .stuck
          | some r =>
              by_cases hlong : r.1.TooLong
              · simp only [if_pos hlong]
                exact .tooLong hnumber hlong
              · simp only [if_neg hlong]
                exact .read (.number hnumber)

theorem Leaf.reads (hleaf : Leaf levels cs (scanOnce levels cs))
    (h : scanOnce levels cs = .ok (v, rest)) : Reads cs (.value v) rest := by
  rw [h] at hleaf
  cases hleaf with
  | read hread => exact hread

theorem Leaf.exists_visits (hleaf : Leaf levels cs (scanOnce levels cs))
    (h : Aborts (scanOnce levels cs)) :
    ∃ l cs', Visits levels .value cs l cs' ∧ Exceeds l cs' := by
  generalize scanOnce levels cs = x at h hleaf
  cases hleaf with
  | stuck => exact absurd h not_aborts_jsonDecodeError
  | tooLong hnumber hlong => exact ⟨levels, cs, .here, Or.inr ⟨_, _, hnumber, hlong⟩⟩
  | read => exact absurd h not_aborts_ok

/-- What one turn of `scanItems` does. -/
inductive Turn (scan : Scanner) (b : Bracket) (turns : ℕ) (cs : Text) :
    Except Raised (List (Text × Val) × Text) → Prop
  | stuck : Turn scan b turns cs (.error .jsonDecodeError)
  | raised {cs' key : Text} {e : Raised} : b.label cs = some (key, cs') →
      scan cs' = .error e → Turn scan b turns cs (.error e)
  | last {cs' after rest key : Text} {v : Val} : b.label cs = some (key, cs') →
      scan cs' = .ok (v, after) → skip after = b.closing :: rest →
      Turn scan b turns cs (.ok ([(key, v)], rest))
  | next {cs' after next key : Text} {v : Val} : b.label cs = some (key, cs') →
      scan cs' = .ok (v, after) → skip after = ','.toNat :: next →
      Turn scan b turns cs
        ((scanItems scan b turns (skip next)).map fun r => ((key, v) :: r.1, r.2))

theorem scanItems_turn (scan : Scanner) (b : Bracket) (turns : ℕ) (cs : Text) :
    Turn scan b turns cs (scanItems scan b (turns + 1) cs) := by
  rw [scanItems]
  cases hlabel : b.label cs with
  | none => exact .stuck
  | some l =>
      cases hscan : scan l.2 with
      | error e =>
          simp only [hscan, error_bind]
          exact .raised hlabel hscan
      | ok r =>
          simp only [hscan, ok_bind]
          cases hskip : skip r.2 with
          | nil => exact .stuck
          | cons c next =>
              by_cases hclose : c = b.closing
              · simp only [if_pos hclose]
                exact .last hlabel hscan (hclose ▸ hskip)
              by_cases hcomma : c = ','.toNat
              · simp only [if_neg hclose, if_pos hcomma]
                exact .next hlabel hscan (hcomma ▸ hskip)
              · simp only [if_neg hclose, if_neg hcomma]
                exact .stuck

theorem closing_ne_comma (b : Bracket) : b.closing ≠ ','.toNat := by
  cases b <;> decide

theorem scanItems_last {scan : Scanner} {cs' after key : Text} (turns : ℕ)
    (hlabel : b.label cs = some (key, cs')) (hscan : scan cs' = .ok (v, after))
    (hskip : skip after = b.closing :: rest) :
    scanItems scan b (turns + 1) cs = .ok ([(key, v)], rest) := by
  rw [scanItems, hlabel]
  simp only [hscan, ok_bind, hskip, if_pos]

theorem scanItems_next {scan : Scanner} {cs' after next key : Text} (turns : ℕ)
    (hlabel : b.label cs = some (key, cs')) (hscan : scan cs' = .ok (v, after))
    (hskip : skip after = ','.toNat :: next) :
    scanItems scan b (turns + 1) cs =
      (scanItems scan b turns (skip next)).map fun r => ((key, v) :: r.1, r.2) := by
  rw [scanItems, hlabel]
  simp only [hscan, ok_bind, hskip, if_neg (closing_ne_comma b).symm, if_pos]

theorem scanItems_aborts {scan : Scanner} {cs' key : Text} (turns : ℕ)
    (hlabel : b.label cs = some (key, cs')) (hscan : Aborts (scan cs')) :
    Aborts (scanItems scan b (turns + 1) cs) := by
  rw [scanItems, hlabel]
  exact hscan.bind _

theorem scanBracket_empty {scan : Scanner} {tail : Text} (h : skip tail = b.closing :: rest) :
    scanBracket b scan tail = .ok (b.value [], rest) := by
  rw [scanBracket, h]
  exact if_pos rfl

theorem scanBracket_items (scan : Scanner) {tail : Text}
    (h : (skip tail).head? ≠ some b.closing) :
    scanBracket b scan tail =
      (scanItems scan b (skip tail).length (skip tail)).map fun r => (b.value r.1, r.2) :=
  if_neg h

theorem eq_cons_of_head? {cs : Text} {c : ℕ} (h : cs.head? = some c) : ∃ tail, cs = c :: tail := by
  cases cs with
  | nil => cases h
  | cons d tail => exact ⟨tail, by rw [Option.some.inj h]⟩

/-! ## The decoder and the grammar -/

theorem scanItems_sound {scan : Scanner}
    (hscan : ∀ {cs v rest}, scan cs = .ok (v, rest) → Reads cs (.value v) rest) {turns : ℕ}
    (h : scanItems scan b turns cs = .ok (items, rest)) : Reads cs (.items b items) rest := by
  induction turns generalizing cs items with
  | zero => cases h
  | succ turns ih =>
      have hturn := scanItems_turn scan b turns cs
      generalize scanItems scan b (turns + 1) cs = x at h hturn
      cases hturn with
      | stuck => cases h
      | raised => cases h
      | last hlabel hv hskip =>
          cases h
          exact .last hlabel (hscan hv) hskip
      | next hlabel hv hskip =>
          obtain ⟨r, hr, hmap⟩ := map_ok h
          cases hmap
          exact .next hlabel (hscan hv) hskip (ih hr)

/-- What the scanner reads is as the grammar says. -/
theorem scanOnce_sound (h : scanOnce levels cs = .ok (v, rest)) : Reads cs (.value v) rest := by
  induction levels generalizing cs v rest with
  | zero =>
      cases scanOnce_cases 0 cs with
      | inl hbracket =>
          obtain ⟨b, tail, rfl⟩ := hbracket
          rw [scanOnce_zero] at h
          cases h
      | inr hleaf => exact hleaf.reads h
  | succ levels ih =>
      cases scanOnce_cases (levels + 1) cs with
      | inl hbracket =>
          obtain ⟨b, tail, rfl⟩ := hbracket
          rw [scanOnce_succ] at h
          by_cases hclose : (skip tail).head? = some b.closing
          · obtain ⟨after, hafter⟩ := eq_cons_of_head? hclose
            rw [scanBracket_empty hafter] at h
            cases h
            exact .empty hafter
          · rw [scanBracket_items _ hclose] at h
            obtain ⟨r, hr, hmap⟩ := map_ok h
            cases hmap
            exact .bracket hclose (scanItems_sound ih hr)
      | inr hleaf => exact hleaf.reads h

/-- What a scan for a part of a text gives, with turns enough for the items. -/
def Part.Scanned (levels : ℕ) (cs rest : Text) : Part → Prop
  | .value v => scanOnce levels cs = .ok (v, rest) ∨ Aborts (scanOnce levels cs)
  | .items b items => ∀ turns, cs.length ≤ turns →
      scanItems (scanOnce levels) b turns cs = .ok (items, rest) ∨
        Aborts (scanItems (scanOnce levels) b turns cs)

/-- Unless it aborts, the scanner reads what the grammar says. -/
theorem Reads.scanned {p : Part} (h : Reads cs p rest) (levels : ℕ) :
    p.Scanned levels cs rest := by
  induction h generalizing levels with
  | string h => exact Or.inl (scanOnce_string levels h)
  | constant h => exact Or.inl (scanOnce_constant levels h)
  | @number cs rest l h =>
      unfold Part.Scanned
      rw [scanOnce_number levels h]
      by_cases hlong : l.TooLong
      · exact Or.inr ⟨.valueError, if_pos hlong, nofun⟩
      · exact Or.inl (if_neg hlong)
  | @empty cs rest b h =>
      unfold Part.Scanned
      cases levels with
      | zero => exact Or.inr ⟨.recursionError, scanOnce_zero b cs, nofun⟩
      | succ levels => exact Or.inl ((scanOnce_succ levels b cs).trans (scanBracket_empty h))
  | @bracket cs rest b items hclose _ ih =>
      unfold Part.Scanned
      cases levels with
      | zero => exact Or.inr ⟨.recursionError, scanOnce_zero b cs, nofun⟩
      | succ levels =>
          rw [scanOnce_succ, scanBracket_items _ hclose, aborts_map]
          cases ih levels _ (le_refl _) with
          | inl hok =>
              rw [hok]
              exact Or.inl rfl
          | inr habort => exact Or.inr habort
  | @last cs cs' after rest key b v hlabel hread hskip ih =>
      intro turns hturns
      have hle := label_length hlabel
      have hlt := hread.length
      cases turns with
      | zero => omega
      | succ turns =>
          cases ih levels with
          | inl hok => exact Or.inl (scanItems_last turns hlabel hok hskip)
          | inr habort => exact Or.inr (scanItems_aborts turns hlabel habort)
  | @next cs cs' after next rest key b v items hlabel hread hskip _ ih ih' =>
      intro turns hturns
      have hlt := hread.next_length hlabel hskip
      cases turns with
      | zero => omega
      | succ turns =>
          cases ih levels with
          | inl hok =>
              rw [scanItems_next turns hlabel hok hskip, aborts_map]
              cases ih' levels turns (by omega) with
              | inl hok' =>
                  rw [hok']
                  exact Or.inl rfl
              | inr habort => exact Or.inr habort
          | inr habort => exact Or.inr (scanItems_aborts turns hlabel habort)

/-! ## The decoder and its limits -/

/-- A scan for what is at a place aborts, with turns enough for the items. -/
def Place.Aborts (levels : ℕ) (cs : Text) : Place → Prop
  | .value => PyJson.Aborts (scanOnce levels cs)
  | .items b => ∀ turns, cs.length ≤ turns →
      PyJson.Aborts (scanItems (scanOnce levels) b turns cs)

theorem Exceeds.aborts (h : Exceeds levels cs) : Aborts (scanOnce levels cs) := by
  cases h with
  | inl hbracket =>
      obtain ⟨rfl, b, hb⟩ := hbracket
      obtain ⟨tail, rfl⟩ := eq_cons_of_head? hb
      exact ⟨.recursionError, scanOnce_zero b tail, nofun⟩
  | inr hlong =>
      obtain ⟨l, rest, hnumber, hlong⟩ := hlong
      exact ⟨.valueError, (scanOnce_number levels hnumber).trans (if_pos hlong), nofun⟩

theorem not_aborts_nil (levels : ℕ) : ¬ Aborts (scanOnce levels []) := by
  cases levels <;> exact not_aborts_jsonDecodeError

/-- A scan that comes to a place where a limit is exceeded aborts. -/
theorem Visits.aborts {p : Place} {l : ℕ} {cs' : Text} (h : Visits levels p cs l cs')
    (hexceeds : Exceeds l cs') : p.Aborts levels cs := by
  induction h with
  | here => exact hexceeds.aborts
  | @bracket levels l cs cs' b hclose _ ih =>
      show Aborts (scanOnce (levels + 1) (b.opening :: cs))
      rw [scanOnce_succ, scanBracket_items _ hclose, aborts_map]
      exact ih hexceeds _ (le_refl _)
  | @item levels l cs cs₁ cs' key b hlabel _ ih =>
      intro turns hturns
      have habort : Aborts (scanOnce levels cs₁) := ih hexceeds
      have hle := label_length hlabel
      cases turns with
      | zero =>
          -- nothing is left of the text, and a scan of nothing does not abort
          have hnil : cs₁ = [] := List.length_eq_zero_iff.mp (by omega)
          exact absurd (hnil ▸ habort) (not_aborts_nil levels)
      | succ turns => exact scanItems_aborts turns hlabel habort
  | @next levels l cs cs₁ after next cs' key b v hlabel hread hskip _ ih =>
      intro turns hturns
      have hlt := hread.next_length hlabel hskip
      cases turns with
      | zero => omega
      | succ turns =>
          cases hread.scanned levels with
          | inl hok =>
              rw [scanItems_next turns hlabel hok hskip, aborts_map]
              exact ih hexceeds turns (by omega)
          | inr habort => exact scanItems_aborts turns hlabel habort

theorem exists_visits_items {scan : Scanner}
    (hsound : ∀ {cs v rest}, scan cs = .ok (v, rest) → Reads cs (.value v) rest)
    (hscan : ∀ {cs}, Aborts (scan cs) → ∃ l cs', Visits levels .value cs l cs' ∧ Exceeds l cs')
    {turns : ℕ} (h : Aborts (scanItems scan b turns cs)) :
    ∃ l cs', Visits levels (.items b) cs l cs' ∧ Exceeds l cs' := by
  induction turns generalizing cs with
  | zero => exact absurd h not_aborts_jsonDecodeError
  | succ turns ih =>
      have hturn := scanItems_turn scan b turns cs
      generalize scanItems scan b (turns + 1) cs = x at h hturn
      cases hturn with
      | stuck => exact absurd h not_aborts_jsonDecodeError
      | raised hlabel hraised =>
          obtain ⟨e, he, hne⟩ := h
          cases he
          obtain ⟨l, cs', hvisits, hexceeds⟩ := hscan ⟨_, hraised, hne⟩
          exact ⟨l, cs', .item hlabel hvisits, hexceeds⟩
      | last => exact absurd h not_aborts_ok
      | next hlabel hv hskip =>
          obtain ⟨l, cs', hvisits, hexceeds⟩ := ih (aborts_map.mp h)
          exact ⟨l, cs', .next hlabel (hsound hv) hskip hvisits, hexceeds⟩

/-- A scan that aborts has come to a place where a limit is exceeded. -/
theorem exists_visits (h : Aborts (scanOnce levels cs)) :
    ∃ l cs', Visits levels .value cs l cs' ∧ Exceeds l cs' := by
  induction levels generalizing cs with
  | zero =>
      cases scanOnce_cases 0 cs with
      | inl hbracket =>
          obtain ⟨b, tail, rfl⟩ := hbracket
          exact ⟨0, _, .here, Or.inl ⟨rfl, b, rfl⟩⟩
      | inr hleaf => exact hleaf.exists_visits h
  | succ levels ih =>
      cases scanOnce_cases (levels + 1) cs with
      | inl hbracket =>
          obtain ⟨b, tail, rfl⟩ := hbracket
          rw [scanOnce_succ] at h
          by_cases hclose : (skip tail).head? = some b.closing
          · obtain ⟨after, hafter⟩ := eq_cons_of_head? hclose
            rw [scanBracket_empty hafter] at h
            exact absurd h not_aborts_ok
          · rw [scanBracket_items _ hclose, aborts_map] at h
            obtain ⟨l, cs', hvisits, hexceeds⟩ := exists_visits_items scanOnce_sound ih h
            exact ⟨l, cs', .bracket hclose hvisits, hexceeds⟩
      | inr hleaf => exact hleaf.exists_visits h

/-- A scan aborts exactly if it comes to a place where a limit is exceeded. -/
theorem aborts_iff : Aborts (scanOnce levels cs) ↔
    ∃ l cs', Visits levels .value cs l cs' ∧ Exceeds l cs' :=
  ⟨exists_visits, fun ⟨_, _, hvisits, hexceeds⟩ => hvisits.aborts hexceeds⟩

/-! ## `json.loads` -/

theorem decodeText_aborts {s : Text} (h : Overruns levels s) : Aborts (decodeText levels s) :=
  (aborts_iff.mpr h).bind _

/-- **Within its limits the decoder gives what the text denotes**, and raises `JSONDecodeError` for
a text that denotes nothing. -/
theorem decodeText_spec {s : Text} (h : ¬ Overruns levels s) :
    (∃ v, decodeText levels s = .ok v ∧ ∀ w, Denotes s w ↔ w = v) ∨
      (decodeText levels s = .error .jsonDecodeError ∧ ∀ w, ¬ Denotes s w) := by
  have hreads : ∀ {v rest}, Reads (skip s) (.value v) rest →
      scanOnce levels (skip s) = .ok (v, rest) := by
    intro v rest hread
    cases hread.scanned levels with
    | inl hok => exact hok
    | inr habort => exact absurd (aborts_iff.mp habort) h
  cases hscan : scanOnce levels (skip s) with
  | error e =>
      right
      have he : e = .jsonDecodeError := by
        by_contra hne
        exact h (aborts_iff.mp ⟨e, hscan, hne⟩)
      refine ⟨by rw [decodeText, hscan, he]; rfl, ?_⟩
      rintro w ⟨rest, hread, -⟩
      rw [hreads hread] at hscan
      cases hscan
  | ok r =>
      obtain ⟨v, rest⟩ := r
      have hread := scanOnce_sound hscan
      have honly : ∀ w, Denotes s w ↔ w = v ∧ skip rest = [] := by
        intro w
        constructor
        · rintro ⟨rest', hread', hend⟩
          rw [hreads hread'] at hscan
          cases hscan
          exact ⟨rfl, hend⟩
        · rintro ⟨rfl, hend⟩
          exact ⟨rest, hread, hend⟩
      by_cases hend : skip rest = []
      · left
        refine ⟨v, ?_, fun w => (honly w).trans (and_iff_left hend)⟩
        rw [decodeText, hscan, ok_bind]
        exact if_pos hend
      · right
        refine ⟨?_, fun w hw => hend ((honly w).mp hw).2⟩
        rw [decodeText, hscan, ok_bind]
        exact if_neg hend

end PyJson
