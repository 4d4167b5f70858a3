import RobotTaskManager.Lib.Run

set_option autoImplicit false

/-! # Progress along an infinite run

`LeadsTo r p q`: whenever `p` holds in the run, `q` holds then or later. The rules: leads-to is
transitive (`LeadsTo.trans`) and holds where a rank goes down with every action of a kind that keeps
coming (`LeadsTo.of_rank`). `LeadsTo.of_component` is the rule for a part of the system that has a
position of its own, such as a thread, where the rank may only go down from some state on.

Actions keep coming in a run that is fair to them. `Infinite.WeaklyFair` is the fairness of a
scheduler that does not forget what could always go on.

To give an infinite run, put finitely many steps in front (`Infinite.cons`,
`Infinite.exists_prepend`) of one that repeats a step (`Infinite.forever`) or follows a schedule
(`Infinite.scheduled`). `Infinite.drop` leaves steps out at the beginning.
-/

namespace Interleaving

variable {σ α ε : Type*} {step : σ → α → Option (σ × List ε)} {P : σ → α → Prop} {s₀ : σ}

/-- Whenever `p` holds in the run, `q` holds then or later. -/
def LeadsTo (r : Infinite step P s₀) (p q : σ → Prop) : Prop :=
  ∀ n, p (r.state n) → ∃ m, n ≤ m ∧ q (r.state m)

namespace LeadsTo

variable {r : Infinite step P s₀} {p q t : σ → Prop}

theorem trans (h : LeadsTo r p q) (h' : LeadsTo r q t) : LeadsTo r p t := by
  intro n hp
  obtain ⟨m, hnm, hq⟩ := h n hp
  obtain ⟨k, hmk, ht⟩ := h' m hq
  exact ⟨k, hnm.trans hmk, ht⟩

/-- **The rank rule.** As long as `p` holds and `q` has not come, no step increases the rank, the
actions of the kind `A` decrease it, and another of them comes. -/
theorem of_rank {A : α → Prop} (μ : σ → ℕ)
    (hstep : ∀ n, p (r.state n) → q (r.state (n + 1)) ∨
      p (r.state (n + 1)) ∧ μ (r.state (n + 1)) ≤ μ (r.state n) ∧
        (A (r.act n) → μ (r.state (n + 1)) < μ (r.state n)))
    (hfair : ∀ n, p (r.state n) → ∃ m, n ≤ m ∧ A (r.act m)) : LeadsTo r p q := by
  intro n hp
  induction hμ : μ (r.state n) using Nat.strong_induction_on generalizing n with
  | _ rank ih =>
      obtain ⟨m, hnm, hA⟩ := hfair n hp
      -- up to the action of the kind `A` either `q` comes or `p` stays
      have hupto : ∀ k, n ≤ k → k ≤ m → (∃ l, n ≤ l ∧ q (r.state l)) ∨
          p (r.state k) ∧ μ (r.state k) ≤ μ (r.state n) := by
        intro k hnk
        induction k, hnk using Nat.le_induction with
        | base => exact fun _ => Or.inr ⟨hp, le_rfl⟩
        | succ k hnk ihk =>
            intro hkm
            rcases ihk (by omega) with hq | ⟨hpk, hle⟩
            · exact Or.inl hq
            · rcases hstep k hpk with hq | ⟨hp', hle', -⟩
              · exact Or.inl ⟨k + 1, by omega, hq⟩
              · exact Or.inr ⟨hp', hle'.trans hle⟩
      rcases hupto m hnm le_rfl with hq | ⟨hpm, hle⟩
      · exact hq
      · rcases hstep m hpm with hq | ⟨hp', -, hlt⟩
        · exact ⟨m + 1, by omega, hq⟩
        · have hless := hlt hA
          obtain ⟨l, hl, hq⟩ := ih (μ (r.state (m + 1))) (by omega) (m + 1) hp' rfl
          exact ⟨l, by omega, hq⟩

/-- **The rule for one component.** The component `look` of the state passes through positions of
the type `χ`. Its own actions, the `A`, lead from `p` to `q` or keep `p`; once `L` holds they bring
it nearer to `q`. If the other actions leave it as near as it is, `L` comes to hold, and its own
actions keep coming, then `q` is reached. -/
theorem of_component {χ : Type*} (look : σ → Option χ) (rank : χ → ℕ) {p q : χ → Prop}
    {L : σ → Prop} {A : α → Prop}
    (hlate : ∀ n, L (r.state n) → L (r.state (n + 1)))
    (hreach : ∀ n, ∃ m, n ≤ m ∧ L (r.state m))
    (hown : ∀ n x, look (r.state n) = some x → p x → A (r.act n) →
      ∃ y, look (r.state (n + 1)) = some y ∧ (q y ∨ p y ∧ (L (r.state n) → rank y < rank x)))
    (hother : ∀ n x, look (r.state n) = some x → p x → ¬ A (r.act n) →
      ∃ y, look (r.state (n + 1)) = some y ∧ p y ∧ rank y ≤ rank x)
    (hfair : ∀ n x, look (r.state n) = some x → p x → ∃ m, n ≤ m ∧ A (r.act m)) :
    LeadsTo r (fun s => ∃ x, look s = some x ∧ p x) fun s => ∃ y, look s = some y ∧ q y := by
  have hrank {s : σ} {x : χ} (h : look s = some x) : ((look s).map rank).getD 0 = rank x := by
    rw [h]
    rfl
  have hlater : LeadsTo r (fun s => (∃ x, look s = some x ∧ p x) ∧ L s)
      fun s => ∃ y, look s = some y ∧ q y := by
    refine of_rank (A := A) (fun s => ((look s).map rank).getD 0) ?_ ?_
    · rintro n ⟨⟨x, hx, hp⟩, hl⟩
      rw [hrank hx]
      by_cases hA : A (r.act n)
      · obtain ⟨y, hy, hq | ⟨hp', hlt⟩⟩ := hown n x hx hp hA
        · exact Or.inl ⟨y, hy, hq⟩
        · rw [hrank hy]
          exact Or.inr ⟨⟨⟨y, hy, hp'⟩, hlate n hl⟩, (hlt hl).le, fun _ => hlt hl⟩
      · obtain ⟨y, hy, hp', hle⟩ := hother n x hx hp hA
        rw [hrank hy]
        exact Or.inr ⟨⟨⟨y, hy, hp'⟩, hlate n hl⟩, hle, fun h => absurd h hA⟩
    · rintro n ⟨⟨x, hx, hp⟩, -⟩
      exact hfair n x hx hp
  intro n hn
  by_contra hnever
  -- until `L` holds the component stays in `p`
  have hstay : ∀ m, n ≤ m → ∃ x, look (r.state m) = some x ∧ p x := by
    intro m hnm
    induction m, hnm using Nat.le_induction with
    | base => exact hn
    | succ m hnm ih =>
        obtain ⟨x, hx, hp⟩ := ih
        by_cases hA : A (r.act m)
        · obtain ⟨y, hy, hq | ⟨hp', -⟩⟩ := hown m x hx hp hA
          · exact absurd ⟨m + 1, by omega, y, hy, hq⟩ hnever
          · exact ⟨y, hy, hp'⟩
        · obtain ⟨y, hy, hp', -⟩ := hother m x hx hp hA
          exact ⟨y, hy, hp'⟩
  obtain ⟨m, hnm, hl⟩ := hreach n
  obtain ⟨k, hmk, hq⟩ := hlater m ⟨hstay m hnm, hl⟩
  exact hnever ⟨k, hnm.trans hmk, hq⟩

end LeadsTo

namespace Infinite

/-! ## Fairness -/

/-- If actions of the kind `A` are possible from some moment on, one of them comes. -/
def WeaklyFair (r : Infinite step P s₀) (A : α → Prop) : Prop :=
  ∀ n, (∀ m, n ≤ m → ∃ a, A a ∧ (step (r.state m) a).isSome) → ∃ m, n ≤ m ∧ A (r.act m)

/-- **What is possible comes**, if only its coming can make it impossible. -/
theorem WeaklyFair.comes {r : Infinite step P s₀} {A : α → Prop} (h : r.WeaklyFair A) {Q : σ → Prop}
    (hpossible : ∀ n, Q (r.state n) → ∃ a, A a ∧ (step (r.state n) a).isSome)
    (hkeep : ∀ n, Q (r.state n) → ¬ A (r.act n) → Q (r.state (n + 1))) {n : ℕ}
    (hQ : Q (r.state n)) : ∃ m, n ≤ m ∧ A (r.act m) := by
  by_contra hnever
  have hstay : ∀ m, n ≤ m → Q (r.state m) := by
    intro m hnm
    induction m, hnm using Nat.le_induction with
    | base => exact hQ
    | succ m hnm ih => exact hkeep m ih fun hA => hnever ⟨m, hnm, hA⟩
  exact hnever (h n fun m hnm => hpossible m (hstay m hnm))

/-! ## Infinite runs from others -/

/-- One step more at the beginning. -/
def cons {s : σ} {a : α} {es : List ε} (hP : P s₀ a) (h : step s₀ a = some (s, es))
    (r : Infinite step P s) : Infinite step P s₀ where
  state
    | 0 => s₀
    | n + 1 => r.state n
  act
    | 0 => a
    | n + 1 => r.act n
  out
    | 0 => es
    | n + 1 => r.out n
  start := rfl
  meets
    | 0 => hP
    | n + 1 => r.meets n
  valid
    | 0 => by
        show step s₀ a = some (r.state 0, es)
        rw [r.start, h]
    | n + 1 => r.valid n

/-- A list of actions at the beginning. -/
theorem exists_prepend [∀ s a, Decidable (P s a)] {as : List α}
    (h : (runActs step P s₀ as).isSome) (r : Infinite step P ((runActs step P s₀ as).get h).1) :
    ∃ r' : Infinite step P s₀, (∀ k, r'.state (as.length + k) = r.state k) ∧
      ∀ n a, as[n]? = some a → r'.act n = a := by
  obtain ⟨⟨s, tr⟩, hrun⟩ := Option.isSome_iff_exists.mp h
  have hlast : ((runActs step P s₀ as).get h).1 = s := by simp only [hrun, Option.get_some]
  suffices hany : ∀ r : Infinite step P s, ∃ r' : Infinite step P s₀,
      (∀ k, r'.state (as.length + k) = r.state k) ∧ ∀ n a, as[n]? = some a → r'.act n = a by
    subst hlast
    exact hany r
  clear r hlast h
  intro r
  induction as generalizing s₀ tr with
  | nil =>
      obtain ⟨rfl, rfl⟩ := hrun
      exact ⟨r, fun k => by rw [List.length_nil, Nat.zero_add], by simp⟩
  | cons a as ih =>
      obtain ⟨hP, s₁, es, tr₁, hst, hrest, -⟩ := runActs_cons hrun
      obtain ⟨r', hstate, hact⟩ := ih tr₁ hrest
      refine ⟨cons hP hst r', fun k => ?_, fun n b hb => ?_⟩
      · rw [List.length_cons, Nat.add_right_comm]
        exact hstate k
      · cases n with
        | zero => exact Option.some.inj hb
        | succ n => exact hact n b hb

/-- The same action over and over, which leads to `next` and shows nothing as long as `I` holds. -/
def forever (a : α) (next : σ → σ) {I : σ → Prop} (hI : I s₀) (hkeep : ∀ s, I s → I (next s))
    (hP : ∀ s, I s → P s a) (h : ∀ s, I s → step s a = some (next s, [])) :
    Infinite step P s₀ where
  state n := next^[n] s₀
  act _ := a
  out _ := []
  start := rfl
  meets n := hP _ (Function.Iterate.rec I hI hkeep n)
  valid n := by rw [h _ (Function.Iterate.rec I hI hkeep n), Function.iterate_succ_apply']

/-- The states that the actions lead through, as long as they are enabled. -/
def stateAt (step : σ → α → Option (σ × List ε)) (act : ℕ → α) (s₀ : σ) : ℕ → σ
  | 0 => s₀
  | n + 1 => ((step (stateAt step act s₀ n) (act n)).map Prod.fst).getD (stateAt step act s₀ n)

/-- The actions are enabled one after the other, and keep what they are to keep. -/
def Schedules (step : σ → α → Option (σ × List ε)) (P : σ → α → Prop) (act : ℕ → α)
    (I : ℕ → σ → Prop) : Prop :=
  ∀ n s, I n s → P s (act n) ∧ ∃ s' es, step s (act n) = some (s', es) ∧ I (n + 1) s'

theorem stateAt_keeps {act : ℕ → α} {I : ℕ → σ → Prop} (h : Schedules step P act I)
    (h₀ : I 0 s₀) (n : ℕ) : I n (stateAt step act s₀ n) := by
  induction n with
  | zero => exact h₀
  | succ n ih =>
      obtain ⟨-, s', es, hstep, hI⟩ := h n _ ih
      rw [stateAt, hstep]
      exact hI

/-- The run that takes these actions. -/
def scheduled {act : ℕ → α} {I : ℕ → σ → Prop} (h : Schedules step P act I) (h₀ : I 0 s₀) :
    Infinite step P s₀ where
  state := stateAt step act s₀
  act := act
  out n := ((step (stateAt step act s₀ n) (act n)).map Prod.snd).getD []
  start := rfl
  meets n := (h n _ (stateAt_keeps h h₀ n)).1
  valid n := by
    obtain ⟨-, s', es, hstep, -⟩ := h n _ (stateAt_keeps h h₀ n)
    rw [stateAt, hstep]
    rfl

/-- The run from its `n`th state on. -/
def drop (r : Infinite step P s₀) (n : ℕ) : Infinite step P (r.state n) where
  state k := r.state (n + k)
  act k := r.act (n + k)
  out k := r.out (n + k)
  start := rfl
  meets k := r.meets (n + k)
  valid k := r.valid (n + k)

end Infinite

end Interleaving
