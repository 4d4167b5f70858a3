import Mathlib.Order.OrderIsoNat

set_option autoImplicit false

/-! # Runs of a step function

A system is given by a step function `step : σ → α → Option (σ × List ε)`: in a state, an
action either is impossible or leads to a next state and emits events. A *run* chains such
steps and concatenates their events into a trace. A run carries a side condition `P` that
every step it takes meets, so that statements about restricted runs ("no step of this run
does …") need no second notion of run.

The rules a development uses are `Run.invariant` (a property of states) and `Run.history` (a
property relating the trace so far to the state). For a condition that is not only enough but
exact there are `throughout_iff_obeys`, about the states that a list of actions (a schedule) leads
through, and `record_iff_obeys`, about what its events and its last state show. An infinite run
(`Infinite`) is cut into finite ones by `Infinite.run_upto`, which carries both rules over to it.
Its own rules are `Infinite.eventually_const` (a measure that never grows stops changing) and
`Infinite.ensures` (what only one kind of action can end still holds when the first of them comes).
-/

namespace Interleaving

variable {σ α ε : Type*}

/-- A finite run from one state to another: the trace it emits, every step meeting `P`. -/
inductive Run (step : σ → α → Option (σ × List ε)) (P : σ → α → Prop) : σ → List ε → σ → Prop
  | nil (s : σ) : Run step P s [] s
  | cons {s s' s'' : σ} {a : α} {es tr : List ε} :
      P s a → step s a = some (s', es) → Run step P s' tr s'' → Run step P s (es ++ tr) s''

/-- The side condition of an unrestricted run. -/
def anyStep : σ → α → Prop := fun _ _ => True

namespace Run

variable {step : σ → α → Option (σ × List ε)} {P Q : σ → α → Prop} {s s' s'' : σ}
  {tr tr' : List ε}

theorem single {a : α} {es : List ε} (hP : P s a) (h : step s a = some (s', es)) :
    Run step P s es s' := by
  have := Run.cons hP h (Run.nil s')
  rwa [List.append_nil] at this

theorem append (h : Run step P s tr s') (h' : Run step P s' tr' s'') :
    Run step P s (tr ++ tr') s'' := by
  induction h with
  | nil _ => exact h'
  | cons hP hs _ ih =>
      rw [List.append_assoc]
      exact Run.cons hP hs (ih h')

theorem mono (hPQ : ∀ s a, P s a → Q s a) (h : Run step P s tr s') : Run step Q s tr s' := by
  induction h with
  | nil s => exact Run.nil s
  | cons hP hs _ ih => exact Run.cons (hPQ _ _ hP) hs ih

theorem any (h : Run step P s tr s') : Run step anyStep s tr s' :=
  h.mono fun _ _ _ => trivial

/-- **The invariant rule.** What every step that meets the side condition keeps holds at the
end of every run that starts with it. -/
theorem invariant {I : σ → Prop}
    (hstep : ∀ s a s' es, I s → P s a → step s a = some (s', es) → I s')
    (h : Run step P s tr s') (hs : I s) : I s' := by
  induction h with
  | nil _ => exact hs
  | cons hP hst _ ih => exact ih (hstep _ _ _ _ hs hP hst)

/-- **The history rule.** `H` relates the events emitted so far to the state they led to. -/
theorem history {H : List ε → σ → Prop}
    (hstep : ∀ tr s a s' es, H tr s → P s a → step s a = some (s', es) → H (tr ++ es) s')
    (h : Run step P s tr s') {tr₀ : List ε} (hs : H tr₀ s) : H (tr₀ ++ tr) s' := by
  induction h generalizing tr₀ with
  | nil _ => rwa [List.append_nil]
  | cons hP hst _ ih =>
      rw [← List.append_assoc]
      exact ih (hstep _ _ _ _ _ hs hP hst)

/-- An event of a run was emitted by one of its steps. -/
theorem exists_step_of_mem {e : ε} (h : Run step P s tr s') (he : e ∈ tr) :
    ∃ tr₁ s₁ a s₂ es tr₂, Run step P s tr₁ s₁ ∧ P s₁ a ∧ step s₁ a = some (s₂, es) ∧ e ∈ es ∧
      Run step P s₂ tr₂ s' ∧ tr = tr₁ ++ es ++ tr₂ := by
  induction h with
  | nil _ => cases he
  | @cons s s₁ s₂ a es tr hP hst hr ih =>
      rcases List.mem_append.mp he with he | he
      · exact ⟨[], s, a, s₁, es, tr, Run.nil s, hP, hst, he, hr, rfl⟩
      · obtain ⟨tr₁, t₁, b, t₂, es', tr₂, h1, hP', h2, h3, h4, rfl⟩ := ih he
        refine ⟨es ++ tr₁, t₁, b, t₂, es', tr₂, Run.cons hP hst h1, hP', h2, h3, h4, ?_⟩
        simp only [List.append_assoc]

/-- Where an event stands in the trace, the run can be cut open: before the step that emitted
it, and after. -/
theorem exists_step_of_split {e : ε} {tr₁ tr₂ : List ε} (h : Run step P s (tr₁ ++ e :: tr₂) s') :
    ∃ tr₀ s₁ a s₂ es₁ es₂ tr₃, Run step P s tr₀ s₁ ∧ P s₁ a ∧
      step s₁ a = some (s₂, es₁ ++ e :: es₂) ∧ Run step P s₂ tr₃ s' ∧
      tr₁ = tr₀ ++ es₁ ∧ tr₂ = es₂ ++ tr₃ := by
  generalize htr : tr₁ ++ e :: tr₂ = tr at h
  induction h generalizing tr₁ with
  | nil _ => simp at htr
  | @cons s s₁ s₂ a es tr hP hst hr ih =>
      rcases List.append_eq_append_iff.mp htr with ⟨m, hes, hm⟩ | ⟨m, hes, hm⟩
      -- the event is in `es`, or it is the first one after it
      · cases m with
        | nil =>
            have hnil : [] ++ e :: tr₂ = tr := by simpa using hm
            obtain ⟨tr₀, t₁, b, t₂, es₁, es₂, tr₃, h0, hb, h1, h2, h3, h4⟩ := ih hnil
            refine ⟨es ++ tr₀, t₁, b, t₂, es₁, es₂, tr₃, .cons hP hst h0, hb, h1, h2, ?_, h4⟩
            rw [List.append_nil] at hes
            rw [← hes, List.append_assoc, ← h3, List.append_nil]
        | cons e' es₂ =>
            obtain ⟨rfl, rfl⟩ := List.cons.inj hm
            exact ⟨[], s, a, s₁, tr₁, es₂, tr, .nil s, hP, by rw [hst, hes], hr, rfl, rfl⟩
      · obtain ⟨tr₀, t₁, b, t₂, es₁, es₂, tr₃, h0, hb, h1, h2, rfl, h4⟩ := ih hm.symm
        refine ⟨es ++ tr₀, t₁, b, t₂, es₁, es₂, tr₃, .cons hP hst h0, hb, h1, h2, ?_, h4⟩
        rw [hes, List.append_assoc]

end Run

/-! ## Running a list of actions -/

section RunActs

variable (step : σ → α → Option (σ × List ε)) (P : σ → α → Prop) [∀ s a, Decidable (P s a)]

instance (s : σ) (a : α) : Decidable (anyStep s a) := isTrue trivial

/-- Perform a list of actions that meet `P` one after the other, collecting the events. -/
def runActs : σ → List α → Option (σ × List ε)
  | s, [] => some (s, [])
  | s, a :: as =>
      if P s a then
        match step s a with
        | none => none
        | some (s', es) =>
            match runActs s' as with
            | none => none
            | some (s'', tr) => some (s'', es ++ tr)
      else none

variable {step P}

/-- A list of actions can be performed if its first one can, and then the others. -/
theorem runActs_cons {s s' : σ} {a : α} {as : List α} {tr : List ε}
    (h : runActs step P s (a :: as) = some (s', tr)) : P s a ∧ ∃ s₁ es tr₁,
      step s a = some (s₁, es) ∧ runActs step P s₁ as = some (s', tr₁) ∧ es ++ tr₁ = tr := by
  rw [runActs] at h
  by_cases hP : P s a
  · rw [if_pos hP] at h
    cases hst : step s a with
    | none => simp [hst] at h
    | some p =>
        obtain ⟨s₁, es⟩ := p
        cases hr : runActs step P s₁ as with
        | none => simp [hst, hr] at h
        | some q =>
            obtain ⟨s₂, tr₁⟩ := q
            simp only [hst, hr, Option.some.injEq, Prod.mk.injEq] at h
            obtain ⟨rfl, htr⟩ := h
            exact ⟨hP, s₁, es, tr₁, rfl, hr, htr⟩
  · rw [if_neg hP] at h
    cases h

theorem Run.of_runActs {s s' : σ} {as : List α} {tr : List ε}
    (h : runActs step P s as = some (s', tr)) : Run step P s tr s' := by
  induction as generalizing s tr with
  | nil =>
      simp only [runActs, Option.some.injEq, Prod.mk.injEq] at h
      obtain ⟨rfl, rfl⟩ := h
      exact Run.nil s
  | cons a as ih =>
      obtain ⟨hP, s₁, es, tr₁, hst, hr, rfl⟩ := runActs_cons h
      exact Run.cons hP hst (ih hr)

/-- The run of a list of actions that can all be taken. -/
theorem Run.of_isSome {s : σ} {as : List α} (h : (runActs step P s as).isSome) :
    Run step P s ((runActs step P s as).get h).2 ((runActs step P s as).get h).1 :=
  Run.of_runActs (Option.some_get h).symm

end RunActs

/-! ## Schedules

A list of actions is taken one after the other, up to the first that cannot be taken. -/

section Schedules

variable (step : σ → α → Option (σ × List ε))

/-- Every action that is taken meets `P` when it is taken. -/
def Obeys (P : σ → α → Prop) : σ → List α → Prop
  | _, [] => True
  | s, a :: as =>
      match step s a with
      | none => True
      | some (s', _) => P s a ∧ Obeys P s' as

/-- `G` holds in every state that the actions lead through. -/
def Throughout (G : σ → Prop) : σ → List α → Prop
  | s, [] => G s
  | s, a :: as =>
      G s ∧
        match step s a with
        | none => True
        | some (s', _) => Throughout G s' as

variable {step} {J G : σ → Prop} {P Q : σ → α → Prop} {s s' : σ} {as : List α} {tr : List ε}

theorem obeys_cons {a : α} {es : List ε} (hst : step s a = some (s', es)) :
    Obeys step P s (a :: as) ↔ P s a ∧ Obeys step P s' as := by
  rw [Obeys, hst]

/-- What an invariant implies holds throughout every schedule that starts with it. -/
theorem Throughout.of_invariant {I : σ → Prop}
    (hstep : ∀ s a s' es, I s → step s a = some (s', es) → I s') (hG : ∀ s, I s → G s)
    (hs : I s) (as : List α) : Throughout step G s as := by
  induction as generalizing s with
  | nil => exact hG s hs
  | cons a as ih =>
      refine ⟨hG s hs, ?_⟩
      cases hst : step s a with
      | none => trivial
      | some r => exact ih (hstep s a r.1 r.2 hs hst)

/-- What holds throughout a schedule that can be taken to its end holds at the end. -/
theorem Throughout.of_runActs (hG : Throughout step G s as)
    (h : runActs step anyStep s as = some (s', tr)) : G s' := by
  induction as generalizing s tr with
  | nil =>
      obtain ⟨rfl, rfl⟩ := h
      exact hG
  | cons a as ih =>
      obtain ⟨-, s₁, es, tr₁, hst, hr, rfl⟩ := runActs_cons h
      rw [Throughout, hst] at hG
      exact ih hG.2 hr

/-- **The rule for exact conditions.** If a step out of a good state leads to a good state
exactly when it meets `P`, then all states of a schedule are good exactly when all its steps
meet `P`. -/
theorem throughout_iff_obeys
    (hinv : ∀ s a s' es, J s → G s → step s a = some (s', es) → J s')
    (hstep : ∀ s a s' es, J s → G s → step s a = some (s', es) → (G s' ↔ P s a))
    (hJ : J s) (hG : G s) : Throughout step G s as ↔ Obeys step P s as := by
  induction as generalizing s with
  | nil => exact iff_of_true hG trivial
  | cons a as ih =>
      rw [Throughout, Obeys, and_iff_right hG]
      cases hst : step s a with
      | none => exact Iff.rfl
      | some p =>
          obtain ⟨s', es⟩ := p
          have hiff := hstep s a s' es hJ hG hst
          show Throughout step G s' as ↔ P s a ∧ Obeys step P s' as
          by_cases hG' : G s'
          · rw [ih (hinv s a s' es hJ hG hst) hG', and_iff_right (hiff.mp hG')]
          -- the schedule turns bad here, and its step does not meet the condition
          · refine iff_of_false (fun h => hG' ?_) fun h => hG' (hiff.mpr h.1)
            cases as with
            | nil => exact h
            | cons b bs => exact h.1

/-- The last action of a schedule that obeys `P` meets `P` in the state it is taken in. -/
theorem Obeys.last {a : α} (h : Obeys step P s (as ++ [a]))
    (hrun : runActs step anyStep s as = some (s', tr)) (ha : (step s' a).isSome) : P s' a := by
  induction as generalizing s tr with
  | nil =>
      obtain ⟨rfl, rfl⟩ := hrun
      obtain ⟨⟨s₁, es⟩, hst⟩ := Option.isSome_iff_exists.mp ha
      exact ((obeys_cons hst).mp h).1
  | cons b as ih =>
      obtain ⟨-, s₁, es, tr₁, hst, hr, rfl⟩ := runActs_cons hrun
      exact ih ((obeys_cons hst).mp h).2 hr

/-- Two conditions that agree where `J` holds, which steps that meet the second one keep. -/
theorem obeys_congr
    (hinv : ∀ s a s' es, J s → Q s a → step s a = some (s', es) → J s')
    (hPQ : ∀ s a s' es, J s → step s a = some (s', es) → (P s a ↔ Q s a))
    (hJ : J s) : Obeys step P s as ↔ Obeys step Q s as := by
  induction as generalizing s with
  | nil => exact Iff.rfl
  | cons a as ih =>
      rw [Obeys, Obeys]
      cases hst : step s a with
      | none => exact Iff.rfl
      | some p =>
          obtain ⟨s', es⟩ := p
          have hiff := hPQ s a s' es hJ hst
          show P s a ∧ Obeys step P s' as ↔ Q s a ∧ Obeys step Q s' as
          by_cases hQ : Q s a
          · rw [and_iff_right (hiff.mpr hQ), and_iff_right hQ]
            exact ih (hinv s a s' es hJ hQ hst)
          · exact iff_of_false (fun h => hQ (hiff.mp h.1)) fun h => hQ h.1

/-- A schedule whose steps all meet `P` is a run with the side condition `P`. -/
theorem Run.of_obeys (h : runActs step anyStep s as = some (s', tr)) (hobeys : Obeys step P s as) :
    Run step P s tr s' := by
  induction as generalizing s tr with
  | nil =>
      obtain ⟨rfl, rfl⟩ := h
      exact Run.nil _
  | cons a as ih =>
      obtain ⟨-, s₁, es, tr₁, hst, hr, rfl⟩ := runActs_cons h
      obtain ⟨hP, hobeys⟩ := (obeys_cons hst).mp hobeys
      exact Run.cons hP hst (ih hr hobeys)

/-- **The rule for a record.** If a step leaves the record good exactly when it was good before and
the step meets `P`, then the record of a schedule is good exactly when all its steps meet `P`. -/
theorem record_iff_obeys {H I : List ε → σ → Prop}
    (hinv : ∀ tr s a s' es, I tr s → step s a = some (s', es) → I (tr ++ es) s')
    (hstep : ∀ tr s a s' es, I tr s → step s a = some (s', es) → (H (tr ++ es) s' ↔ H tr s ∧ P s a))
    {tr₀ : List ε} (hI : I tr₀ s) (h : runActs step anyStep s as = some (s', tr)) :
    H (tr₀ ++ tr) s' ↔ H tr₀ s ∧ Obeys step P s as := by
  induction as generalizing s tr tr₀ with
  | nil =>
      obtain ⟨rfl, rfl⟩ := h
      rw [List.append_nil]
      exact (and_iff_left trivial).symm
  | cons a as ih =>
      obtain ⟨-, s₁, es, tr₁, hst, hr, rfl⟩ := runActs_cons h
      rw [← List.append_assoc, ih (hinv tr₀ s a s₁ es hI hst) hr, hstep tr₀ s a s₁ es hI hst,
        obeys_cons hst, and_assoc]

/-- **The rule for fates.** Steps that meet `P` keep `G`, the first one that does not leads to
`B`, and nothing leads out of `B`: then what the schedule ends in tells whether it has met `P`. -/
theorem obeys_fate {B : σ → Prop}
    (hkeep : ∀ s a s' es, G s → P s a → step s a = some (s', es) → G s')
    (hbreak : ∀ s a s' es, G s → ¬ P s a → step s a = some (s', es) → B s')
    (hstay : ∀ s a s' es, B s → step s a = some (s', es) → B s')
    (hG : G s) (h : runActs step anyStep s as = some (s', tr)) :
    (Obeys step P s as ∧ G s') ∨ (¬ Obeys step P s as ∧ B s') := by
  induction as generalizing s tr with
  | nil =>
      obtain ⟨rfl, rfl⟩ := h
      exact Or.inl ⟨trivial, hG⟩
  | cons a as ih =>
      obtain ⟨-, s₁, es, tr₁, hst, hr, rfl⟩ := runActs_cons h
      rw [obeys_cons hst]
      by_cases hP : P s a
      · rw [and_iff_right hP]
        exact ih (hkeep s a s₁ es hG hP hst) hr
      -- from here on the schedule stays in `B`
      · refine Or.inr ⟨fun h => hP h.1, ?_⟩
        exact (Run.of_runActs hr).invariant (fun _ _ _ _ hB _ => hstay _ _ _ _ hB)
          (hbreak s a s₁ es hG hP hst)

end Schedules

/-! ## Infinite runs -/

/-- An infinite run: its states, the actions taken and the events they emit. -/
structure Infinite (step : σ → α → Option (σ × List ε)) (P : σ → α → Prop) (s₀ : σ) where
  state : ℕ → σ
  act : ℕ → α
  out : ℕ → List ε
  start : state 0 = s₀
  meets : ∀ n, P (state n) (act n)
  valid : ∀ n, step (state n) (act n) = some (state (n + 1), out n)

namespace Infinite

variable {step : σ → α → Option (σ × List ε)} {P : σ → α → Prop} {s₀ : σ}

/-- The events of the first `n` steps. -/
def trace (r : Infinite step P s₀) : ℕ → List ε
  | 0 => []
  | n + 1 => r.trace n ++ r.out n

theorem run_upto (r : Infinite step P s₀) (n : ℕ) : Run step P s₀ (r.trace n) (r.state n) := by
  induction n with
  | zero => rw [r.start]; exact Run.nil s₀
  | succ n ih => exact ih.append (Run.single (r.meets n) (r.valid n))

/-- From some step on, a measure that no step of the run increases does not change. -/
theorem eventually_const (r : Infinite step P s₀) {μ : σ → ℕ}
    (hμ : ∀ n, μ (r.state (n + 1)) ≤ μ (r.state n)) :
    ∃ N, ∀ n, N ≤ n → μ (r.state (n + 1)) = μ (r.state n) := by
  have hanti : Antitone fun n => μ (r.state n) := antitone_nat_of_succ_le hμ
  -- a descending sequence of numbers becomes constant
  obtain ⟨N, hN⟩ := WellFoundedLT.antitone_chain_condition hanti
  exact ⟨N, fun n hn => (hN (n + 1) (by omega)).symm.trans (hN n hn)⟩

/-- What only actions of the kind `A` can end still holds when the first of them comes. -/
theorem ensures (r : Infinite step P s₀) {Q : σ → Prop} {A : α → Prop} {n m : ℕ}
    (hkeep : ∀ k, n ≤ k → Q (r.state k) → ¬ A (r.act k) → Q (r.state (k + 1)))
    (hQ : Q (r.state n)) (hnm : n ≤ m) (hA : A (r.act m)) :
    ∃ k, n ≤ k ∧ A (r.act k) ∧ Q (r.state k) := by
  -- downwards from `m`: `Q` holds at `k`, and if `k` is not of the kind `A` it holds at `k + 1`
  induction hnm using Nat.decreasingInduction with
  | self => exact ⟨m, le_rfl, hA, hQ⟩
  | of_succ k hk ih =>
      by_cases hk' : A (r.act k)
      · exact ⟨k, le_rfl, hk', hQ⟩
      · obtain ⟨l, hl, h⟩ := ih (fun j hj => hkeep j (by omega)) (hkeep k le_rfl hQ hk')
        exact ⟨l, by omega, h⟩

end Infinite

end Interleaving
