import Mathlib.Data.List.Range

set_option autoImplicit false

/-! # Attempts

A computation with a state is made again, up to a number of times, while its result asks for it.
`attempts_nested` says that the attempts of attempts are attempts again, of which one bound is left,
and `recorded_attempts` which invocations of the computation have been made in the end.
-/

namespace Attempts

variable {σ α : Type}

/-- Make `f`, and while `again` asks for it make it again, up to `n` more times. -/
def attempts (f : σ → α × σ) (again : α → Prop) [DecidablePred again] : Nat → σ → α × σ
  | 0, s => f s
  | n + 1, s => if again (f s).1 then attempts f again n (f s).2 else f s

/-- The state before the invocation number `i` if `f` is made over and over. -/
def before (f : σ → α × σ) : Nat → σ → σ
  | 0, s => s
  | i + 1, s => before f i (f s).2

/-- `f` with a list of its invocations: the state before, and the result. -/
def recorded (f : σ → α × σ) (s : List (σ × α) × σ) : α × List (σ × α) × σ :=
  ((f s.2).1, s.1 ++ [(s.2, (f s.2).1)], (f s.2).2)

/-- The invocation number `i` if `f` is made over and over. -/
def invocation (f : σ → α × σ) (s : σ) (i : Nat) : σ × α := (before f i s, (f (before f i s)).1)

section Laws

variable (f : σ → α × σ) (again : α → Prop) [DecidablePred again]

/-- Attempts that are cut after some of them. -/
theorem attempts_add (m n : Nat) (s : σ) :
    attempts f again (m + 1 + n) s =
      if again (attempts f again m s).1 then attempts f again n (attempts f again m s).2
      else attempts f again m s := by
  induction m generalizing s with
  | zero => rw [Nat.add_comm, attempts, attempts]
  | succ m ih =>
      have hadd : m + 1 + 1 + n = m + 1 + n + 1 := by omega
      rw [hadd, attempts, attempts]
      by_cases h : again (f s).1
      · rw [if_pos h, if_pos h]
        exact ih (f s).2
      · rw [if_neg h, if_neg h, if_neg h]

/-- **Nested attempts fuse.** -/
theorem attempts_nested (m n : Nat) :
    attempts (attempts f again m) again n = attempts f again ((m + 1) * (n + 1) - 1) := by
  induction n with
  | zero =>
      have hm : (m + 1) * (0 + 1) - 1 = m := by omega
      rw [hm]
      rfl
  | succ n ih =>
      have hbudget : (m + 1) * (n + 1 + 1) - 1 = m + 1 + ((m + 1) * (n + 1) - 1) := by
        have hone : 1 ≤ (m + 1) * (n + 1) := Nat.mul_pos (Nat.succ_pos m) (Nat.succ_pos n)
        rw [Nat.mul_succ (m + 1) (n + 1)]
        omega
      funext s
      rw [hbudget, attempts_add, attempts, ih]

/-- A list of invocations that grows leaves the attempts as they are. -/
theorem attempts_recorded (n : Nat) (log : List (σ × α)) (s : σ) :
    ((attempts (recorded f) again n (log, s)).1, (attempts (recorded f) again n (log, s)).2.2) =
      attempts f again n s := by
  induction n generalizing log s with
  | zero => rfl
  | succ n ih =>
      rw [attempts, attempts]
      by_cases h : again (f s).1
      · have hrec : again (recorded f (log, s)).1 := h
        rw [if_pos h, if_pos hrec]
        exact ih _ _
      · have hrec : ¬ again (recorded f (log, s)).1 := h
        rw [if_neg h, if_neg hrec]
        rfl

/-- **The invocations that are made** are the first ones. All but the last ask for another, and the
last one does not unless no more are allowed. -/
theorem recorded_attempts (n : Nat) (log : List (σ × α)) (s : σ) :
    ∃ c, c ≤ n ∧ (∀ i < c, again (invocation f s i).2) ∧
      (c < n → ¬ again (invocation f s c).2) ∧
      attempts (recorded f) again n (log, s) =
        ((invocation f s c).2, log ++ (List.range (c + 1)).map (invocation f s),
          (f (before f c s)).2) := by
  induction n generalizing log s with
  | zero => exact ⟨0, le_rfl, nofun, nofun, rfl⟩
  | succ n ih =>
      rw [attempts]
      by_cases h : again (f s).1
      · obtain ⟨c, hle, hagain, hlast, heq⟩ := ih (log ++ [(s, (f s).1)]) (f s).2
        refine ⟨c + 1, Nat.succ_le_succ hle, ?_, fun hlt => hlast (Nat.lt_of_succ_lt_succ hlt), ?_⟩
        · intro i hi
          cases i with
          | zero => exact h
          | succ i => exact hagain i (Nat.lt_of_succ_lt_succ hi)
        · have hrec : again (recorded f (log, s)).1 := h
          rw [if_pos hrec, recorded, heq, List.append_assoc, List.range_succ_eq_map (n := c + 1),
            List.map_cons, List.map_map]
          rfl
      · have hrec : ¬ again (recorded f (log, s)).1 := h
        rw [if_neg hrec]
        exact ⟨0, Nat.zero_le _, nofun, fun _ => h, rfl⟩

end Laws

end Attempts
