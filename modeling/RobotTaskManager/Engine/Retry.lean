import RobotTaskManager.Engine.Graph
import RobotTaskManager.Lib.Attempts

set_option autoImplicit false

/-! # Retry budgets

`RetryDecorator.execute` as one function of the `execute` that it decorates. An `execute` may use a
memory of its own besides userdata: the state here stands for both.
-/

namespace RobotTaskManager.Engine

open Attempts Interleaving

section Execute

variable {σ : Type} (inner : σ → Result × σ) (maxRetries : Nat) (retryOutcome : String)

/-- The loop of `RetryDecorator.execute`, with the local variables `attempts` and `last`. -/
def retryLoop (attempts : Nat) (last : Result) (s : σ) : Result × σ :=
  if last = .ok retryOutcome ∧ attempts ≤ maxRetries then
    let (last, s) := inner s
    retryLoop (attempts + 1) last s
  else (last, s)
termination_by maxRetries + 1 - attempts

/-- `RetryDecorator.execute` -/
def retryExecute (s : σ) : Result × σ :=
  let (last, s) := inner s
  retryLoop inner maxRetries retryOutcome 1 last s

/-- With a result that is not retried the loop is over, and with one that is it goes on with the
attempts that are left. -/
theorem retryLoop_eq {attempts left : Nat} (h : attempts + left = maxRetries + 1) (last : Result)
    (s : σ) : retryLoop inner maxRetries retryOutcome attempts last s =
      match left with
      | 0 => (last, s)
      | left + 1 =>
          if last = .ok retryOutcome then Attempts.attempts inner (· = .ok retryOutcome) left s
          else (last, s) := by
  induction left generalizing attempts last s with
  | zero =>
      have hover : ¬ (last = .ok retryOutcome ∧ attempts ≤ maxRetries) := by omega
      rw [retryLoop, if_neg hover]
  | succ left ih =>
      rw [retryLoop]
      by_cases hlast : last = .ok retryOutcome
      · have hmore : last = .ok retryOutcome ∧ attempts ≤ maxRetries := ⟨hlast, by omega⟩
        rw [if_pos hmore]
        show retryLoop inner maxRetries retryOutcome (attempts + 1) (inner s).1 (inner s).2 = _
        rw [ih (by omega)]
        cases left with
        | zero => simp only [if_pos hlast, Attempts.attempts]
        | succ left => simp only [if_pos hlast, Attempts.attempts]
      · have hover : ¬ (last = .ok retryOutcome ∧ attempts ≤ maxRetries) := fun h => hlast h.1
        rw [if_neg hover]
        simp only [if_neg hlast]

/-- The loop makes up to `max_retries + 1` attempts. -/
theorem retryExecute_eq : retryExecute inner maxRetries retryOutcome =
    attempts inner (· = .ok retryOutcome) maxRetries := by
  funext s
  show retryLoop inner maxRetries retryOutcome 1 (inner s).1 (inner s).2 = _
  rw [retryLoop_eq inner maxRetries retryOutcome (Nat.add_comm 1 maxRetries)]
  cases maxRetries with
  | zero => rfl
  | succ left => simp only [Attempts.attempts]

end Execute

/-! ## The threads of the engine -/

section Engine

variable {σ : Type} {t : Tree} {execute : σ → Result × σ}

/-- On a thread of its own, with nothing requested, the state does what `execute` says. -/
def Runs (t : Tree) (execute : σ → Result × σ) : Prop :=
  ∀ (base : Base) (stack : List Frame) (ctx : Ctx) (inv : Nat) (globalPath : String) (s : σ),
    ∃ tr inv', Run step anyStep (solo ⟨base, stack, .exec t, ctx, inv⟩ globalPath) tr
      (solo ⟨base, stack, .done (execute s).1, ctx, inv'⟩ globalPath)

/-- A leaf does anything. -/
theorem runs_leaf (l : Leaf) (execute : σ → Result × σ) : Runs (.leaf l) execute := by
  intro base stack ctx inv globalPath s
  have hfinish : Run step anyStep (solo ⟨base, stack, .leaf l, ctx, inv⟩ globalPath) []
      (solo ⟨base, stack, .done (execute s).1, ctx, inv⟩ globalPath) :=
    Run.single (a := .leaf 0 (.finish (execute s).1)) trivial rfl
  exact ⟨_, inv, Run.cons (a := .thread 0) trivial rfl hfinish⟩

/-- A decorator that returns or raises what its inner state did. -/
theorem retry_over (execute : σ → Result × σ) (base : Base) (stack : List Frame) (ctx : Ctx)
    (globalPath : String) (k : Nat) (info : RetryInfo) {attempts : Nat} (inv : Nat) {last : Result}
    (s : σ) (hover : ¬ (last = .ok info.retryOutcome ∧ attempts ≤ info.maxRetries)) :
    ∃ tr inv', Run step anyStep
      (solo ⟨base, .retry ⟨k, info, t, attempts⟩ :: stack, .done last, ctx, inv⟩ globalPath) tr
      (solo ⟨base, stack,
        .done (retryLoop execute info.maxRetries info.retryOutcome attempts last s).1, ctx, inv'⟩
        globalPath) := by
  have hback : step (solo ⟨base, .retry ⟨k, info, t, attempts⟩ :: stack, .done last, ctx, inv⟩
      globalPath) (.thread 0) = some
      (solo ⟨base, stack, .done last, ctx, inv⟩ globalPath, []) := by
    refine solo_step (Or.inl rfl) ?_
    cases last with
    | error e => rfl
    | ok o =>
        have ho : ¬ (o = info.retryOutcome ∧ attempts ≤ info.maxRetries) :=
          fun h => hover ⟨congrArg Except.ok h.1, h.2⟩
        simp only [threadStep, resumeStep]
        rw [if_neg ho]
  rw [retryLoop, if_neg hover]
  exact ⟨_, inv, Run.single trivial hback⟩

/-- The frame of a decorator when its inner state is done. -/
theorem retry_runs (h : Runs t execute) (base : Base) (stack : List Frame) (ctx : Ctx)
    (globalPath : String) (k : Nat) (info : RetryInfo) {attempts left : Nat}
    (hleft : attempts + left = info.maxRetries + 1) (inv : Nat) (last : Result) (s : σ) :
    ∃ tr inv', Run step anyStep
      (solo ⟨base, .retry ⟨k, info, t, attempts⟩ :: stack, .done last, ctx, inv⟩ globalPath) tr
      (solo ⟨base, stack,
        .done (retryLoop execute info.maxRetries info.retryOutcome attempts last s).1, ctx, inv'⟩
        globalPath) := by
  induction left generalizing attempts inv last s with
  | zero =>
      have hover : ¬ (last = .ok info.retryOutcome ∧ attempts ≤ info.maxRetries) := by omega
      exact retry_over execute base stack ctx globalPath k info inv s hover
  | succ left ih =>
      by_cases hmore : last = .ok info.retryOutcome ∧ attempts ≤ info.maxRetries
      · obtain ⟨rfl, hle⟩ := hmore
        have hagain : step (solo ⟨base, .retry ⟨k, info, t, attempts⟩ :: stack,
            .done (.ok info.retryOutcome), ctx, inv⟩ globalPath) (.thread 0) = some
            (solo ⟨base, .retry ⟨k, info, t, attempts + 1⟩ :: stack, .exec t, ctx, inv⟩ globalPath,
              [.attempt 0 k (attempts + 1)]) := by
          refine solo_step (Or.inl rfl) ?_
          show some (resumeStep 0 _ stack (.ok info.retryOutcome) (.retry _)) = _
          rw [resumeStep, if_pos ⟨rfl, hle⟩]
        obtain ⟨tr₁, inv₁, hinner⟩ :=
          h base (.retry ⟨k, info, t, attempts + 1⟩ :: stack) ctx inv globalPath s
        have hleft' : attempts + 1 + left = info.maxRetries + 1 := by omega
        obtain ⟨tr₂, inv₂, hrest⟩ := ih hleft' inv₁ (execute s).1 (execute s).2
        rw [retryLoop, if_pos ⟨rfl, hle⟩]
        exact ⟨_, inv₂, Run.cons trivial hagain (hinner.append hrest)⟩
      · exact retry_over execute base stack ctx globalPath k info inv s hmore

/-- **The engine does what `retryExecute` says**, whatever the decorated state does. -/
theorem Runs.retry (h : Runs t execute) (info : RetryInfo) :
    Runs (.retry info t) (retryExecute execute info.maxRetries info.retryOutcome) := by
  intro base stack ctx inv globalPath s
  obtain ⟨tr₁, inv₁, hinner⟩ :=
    h base (.retry ⟨inv, info, t, 1⟩ :: stack) ctx (inv + 1) globalPath s
  obtain ⟨tr₂, inv₂, hloop⟩ := retry_runs h base stack ctx globalPath inv info
    (Nat.add_comm 1 info.maxRetries) inv₁ (execute s).1 (execute s).2
  exact ⟨_, inv₂, Run.cons (a := .thread 0) trivial rfl (hinner.append hloop)⟩

/-- The end of a run that starts with such a state. -/
theorem Runs.result (h : Runs t execute) (ctx : Ctx) (s : σ) :
    ∃ tr c, Run step anyStep (Config.start t .execute ctx) tr c ∧
      c.result = some (execute s).1 := by
  obtain ⟨tr, inv, hrun⟩ := h (.caller .execute) [] ctx 0 ctx.path s
  have hend : Run step anyStep (solo ⟨.caller .execute, [], .done (execute s).1, ctx, inv⟩ ctx.path)
      [.finished 0 (execute s).1]
      (solo ⟨.caller .execute, [], .finished (execute s).1, ctx, inv⟩ ctx.path) :=
    Run.single (a := .thread 0) trivial rfl
  exact ⟨_, _, hrun.append hend, rfl⟩

/-- A decorated decorator of a leaf. -/
theorem nested_retry_result (l : Leaf) (outer info : RetryInfo) (execute : σ → Result × σ)
    (ctx : Ctx) (s : σ) :
    ∃ tr c, Run step anyStep (Config.start (.retry outer (.retry info (.leaf l))) .execute ctx)
        tr c ∧
      c.result = some (retryExecute (retryExecute execute info.maxRetries info.retryOutcome)
        outer.maxRetries outer.retryOutcome s).1 :=
  (((runs_leaf l execute).retry info).retry outer).result ctx s

end Engine

/-! ## Budgets -/

section Budget

variable {σ : Type}

/-- The invocation number `k` is the first that raises or does not return `retryOutcome`. -/
def FirstStop (inner : σ → Result × σ) (retryOutcome : String) (s : σ) (k : Nat) : Prop :=
  ∃ i, k = i + 1 ∧ (invocation inner s i).2 ≠ .ok retryOutcome ∧
    ∀ j < i, (invocation inner s j).2 = .ok retryOutcome

/-- **Retry budgets are exact, and nested retries fuse.** The invocations are the first ones that
`inner` makes if it is invoked over and over, up to the first that raises or returns another
outcome, and at most `m + 1`; the decorator returns or raises what the last of them does. A
decorator of a decorator is one with the product of the budgets. -/
theorem retry_exact (inner : σ → Result × σ) (m n : Nat) (r : String) (s : σ) :
    let run := retryExecute (recorded inner) m r ([], s)
    (run.1, run.2.2) = retryExecute inner m r s ∧
    run.2.1 = (List.range run.2.1.length).map (invocation inner s) ∧
    (∀ k, FirstStop inner r s k → run.2.1.length = min k (m + 1)) ∧
    ((∀ i, (invocation inner s i).2 = .ok r) → run.2.1.length = m + 1) ∧
    run.2.1.getLast?.map Prod.snd = some run.1 ∧
    retryExecute (retryExecute (recorded inner) m r) n r ([], s) =
      retryExecute (recorded inner) ((m + 1) * (n + 1) - 1) r ([], s) := by
  intro run
  obtain ⟨c, hle, hagain, hlast, heq⟩ := recorded_attempts inner (· = .ok r) m [] s
  have hrun : run = ((invocation inner s c).2, (List.range (c + 1)).map (invocation inner s),
      (inner (before inner c s)).2) := by
    show retryExecute (recorded inner) m r ([], s) = _
    rw [retryExecute_eq]
    exact heq
  have hlist : run.2.1 = (List.range (c + 1)).map (invocation inner s) := by rw [hrun]
  have hlen : run.2.1.length = c + 1 := by rw [hlist, List.length_map, List.length_range]
  refine ⟨?_, ?_, ?_, ?_, ?_, ?_⟩
  · show ((retryExecute (recorded inner) m r ([], s)).1,
      (retryExecute (recorded inner) m r ([], s)).2.2) = _
    rw [retryExecute_eq, retryExecute_eq]
    exact attempts_recorded inner _ m [] s
  · rw [hlen, hlist]
  · rintro k ⟨i, rfl, hstop, hbefore⟩
    rw [hlen]
    have hci : c ≤ i := by
      by_contra hlt
      exact hstop (hagain i (Nat.lt_of_not_le hlt))
    rcases Nat.eq_or_lt_of_le hci with rfl | hlt
    · omega
    -- the invocation is one of those before, so that no more are allowed
    · have hcm : ¬ c < m := fun hlt' => hlast hlt' (hbefore c hlt)
      omega
  · intro hall
    have hcm : ¬ c < m := fun hlt => hlast hlt (hall c)
    omega
  · rw [hrun, List.range_succ, List.map_append, List.map_singleton, List.getLast?_concat]
    rfl
  · rw [retryExecute_eq, retryExecute_eq, retryExecute_eq, attempts_nested]

end Budget

end RobotTaskManager.Engine
