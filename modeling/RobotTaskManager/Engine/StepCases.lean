import RobotTaskManager.Engine.Step

set_option autoImplicit false

/-! # What a step can do

`ThreadStep` lists the steps of a thread, one rule for each way through the code, and
`step_cases` says that a step of a run is one of them or a cancel request. The rest of the
file says what the effect of a thread's step leaves of the other threads and of the `Parallel`
executions. The invariants of the following files are proved from these facts and never unfold
the step function.
-/

namespace RobotTaskManager.Engine

/-- The steps of thread `i`, whose state is `t`: action, thread afterwards, effect, events. -/
inductive ThreadStep (c : Config) (i : Nat) (t : Thread) :
    Act → Thread → Effect → List Event → Prop
  | execLeaf {l : Leaf} : t.control = .exec (.leaf l) →
      ThreadStep c i t (.thread i) { t with control := .leaf l } .none []
  | noChildren {m : MachineInfo} {children : List (Child Tree)} :
      t.control = .exec (.machine m children) → m.initialState = none →
      ThreadStep c i t (.thread i)
        { t with control := .done (.error (.noChildren m.className)) } .none []
  | execMachine {m : MachineInfo} {children : List (Child Tree)} {s : String} :
      t.control = .exec (.machine m children) → m.initialState = some s →
      ThreadStep c i t (.thread i)
        { t with control := .loop ⟨t.nextInv, m, children, s, 0⟩, nextInv := t.nextInv + 1 }
        .none []
  | execParallel {oid : Nat} {first : Region Tree} {rest : List (Region Tree)} :
      t.control = .exec (.parallel oid first rest) →
      ThreadStep c i t (.thread i)
        { t with control := .par c.pars.length (.starting (first :: rest)) }
        (.newPar first rest) []
  | execRetry {r : RetryInfo} {inner : Tree} : t.control = .exec (.retry r inner) →
      ThreadStep c i t (.thread i)
        { t with
          stack := .retry ⟨t.nextInv, r, inner, 1⟩ :: t.stack
          control := .exec inner
          nextInv := t.nextInv + 1 }
        .none [.attempt i t.nextInv 1]
  | leafPoll {l : Leaf} : t.control = .leaf l →
      ThreadStep c i t (.leaf i .poll) t .none [.poll i (c.isCancellationRequested t.ctx)]
  | leafFinish {l : Leaf} {r : Result} : t.control = .leaf l →
      ThreadStep c i t (.leaf i (.finish r)) { t with control := .done r } .none []
  | visitCap {f : MachineFrame} : t.control = .loop f → visitCap < f.visits + 1 →
      ThreadStep c i t (.thread i)
        { t with control := .done (.error (.visitCap f.info.className)) } .none []
  | machineCancelled {f : MachineFrame} : t.control = .loop f →
      f.visits + 1 ≤ Engine.visitCap → c.isCancellationRequested t.ctx = true →
      ThreadStep c i t (.thread i) { t with control := .done (.error .cancelled) } .none
        [.check i f.inv (f.visits + 1) true]
  | checkPassed {f : MachineFrame} : t.control = .loop f → f.visits + 1 ≤ Engine.visitCap →
      c.isCancellationRequested t.ctx = false →
      ThreadStep c i t (.thread i)
        { t with control := .checked { f with visits := f.visits + 1 } } .none
        [.check i f.inv (f.visits + 1) false]
  | missingChild {f : MachineFrame} : t.control = .checked f →
      findChild f.children f.current = none →
      ThreadStep c i t (.thread i)
        { t with control := .done (.error (.keyError f.current)) } .none []
  | startChild {f : MachineFrame} {ch : Child Tree} : t.control = .checked f →
      findChild f.children f.current = some ch →
      ThreadStep c i t (.thread i)
        { t with
          stack := .machine f ch t.ctx.path :: t.stack
          control := .exec ch.state
          ctx := { t.ctx with path := enterPath t.ctx.path f.current } }
        (.path (enterPath t.ctx.path f.current))
        (.start i f.inv f.visits f.current ::
          observe t.ctx i true (enterPath t.ctx.path f.current) none)
  | childReturned {f : MachineFrame} {ch : Child Tree} {parentPath o : String}
      {rest : List Frame} : t.control = .done (.ok o) →
      t.stack = .machine f ch parentPath :: rest →
      ThreadStep c i t (.thread i)
        { t with
          stack := rest
          control := afterChild f ch o
          ctx := { t.ctx with path := parentPath } }
        (.path parentPath) (observe t.ctx i false t.ctx.path (some o))
  | childRaised {f : MachineFrame} {ch : Child Tree} {parentPath : String} {e : Exc}
      {rest : List Frame} : t.control = .done (.error e) →
      t.stack = .machine f ch parentPath :: rest →
      ThreadStep c i t (.thread i)
        { t with
          stack := rest
          control := .done (.error e)
          ctx := { t.ctx with path := parentPath } }
        (.path parentPath) (observe t.ctx i false t.ctx.path none)
  | retryAgain {f : RetryFrame} {rest : List Frame} :
      t.control = .done (.ok f.info.retryOutcome) → t.stack = .retry f :: rest →
      f.attempts ≤ f.info.maxRetries →
      ThreadStep c i t (.thread i)
        { t with
          stack := .retry { f with attempts := f.attempts + 1 } :: rest
          control := .exec f.inner }
        .none [.attempt i f.inv (f.attempts + 1)]
  | retryOver {f : RetryFrame} {rest : List Frame} {res : Result} :
      t.control = .done res → t.stack = .retry f :: rest →
      ¬ (res = .ok f.info.retryOutcome ∧ f.attempts ≤ f.info.maxRetries) →
      ThreadStep c i t (.thread i) { t with stack := rest } .none []
  | executeOver {res : Result} : t.control = .done res → t.stack = [] →
      t.base = .caller .execute →
      ThreadStep c i t (.thread i) { t with control := .finished res } .none [.finished i res]
  | runOver {res : Result} {parentPath : String} : t.control = .done res → t.stack = [] →
      t.base = .caller (.run parentPath) →
      ThreadStep c i t (.thread i)
        { t with
          control := .finished res
          ctx := { t.ctx with path := parentPath, token := none } }
        (.path "") (observe t.ctx i false t.ctx.path res.outcome? ++ [.finished i res])
  | runnerSection {res : Result} {p : Nat} {r : Region Tree} : t.control = .done res →
      t.stack = [] → t.base = .runner p r →
      ThreadStep c i t (.thread i) { t with control := .closing } (.runnerSection p r res)
        [.runnerSection p r.name r.outcomes res]
  | threadEnds : t.control = .closing →
      ThreadStep c i t (.thread i) { t with control := .dead } .none []
  | startRegion {p : Nat} {inst : ParInst} {r : Region Tree} {rest : List (Region Tree)} :
      t.control = .par p (.starting (r :: rest)) → c.pars[p]? = some inst →
      ThreadStep c i t (.thread i) { t with control := .par p (.starting rest) }
        (.spawn p r) []
  | allStarted {p : Nat} {inst : ParInst} :
      t.control = .par p (.starting []) → c.pars[p]? = some inst →
      ThreadStep c i t (.thread i) { t with control := .par p .poll } .none []
  | pollWon {p : Nat} {inst : ParInst} {v : String} : t.control = .par p .poll →
      c.pars[p]? = some inst → inst.winner = some v →
      ThreadStep c i t (.thread i) { t with control := .done (.ok v) } .none [.parReturn p v]
  | pollNone {p : Nat} {inst : ParInst} : t.control = .par p .poll →
      c.pars[p]? = some inst → inst.winner = none →
      ThreadStep c i t (.thread i) { t with control := .par p .alive } .none []
  | allDead {p : Nat} {inst : ParInst} : t.control = .par p .alive →
      c.pars[p]? = some inst → c.allDead inst.threads = true →
      ThreadStep c i t (.thread i) { t with control := .par p .final } .none []
  | someAlive {p : Nat} {inst : ParInst} : t.control = .par p .alive →
      c.pars[p]? = some inst → c.allDead inst.threads = false →
      ThreadStep c i t (.thread i) { t with control := .par p .cancel } .none []
  | parCancelled {p : Nat} {inst : ParInst} : t.control = .par p .cancel →
      c.pars[p]? = some inst → c.isCancellationRequested t.ctx = true →
      ThreadStep c i t (.thread i) { t with control := .done (.error .cancelled) } .none
        [.parCancelled p]
  | pollAgain {p : Nat} {inst : ParInst} : t.control = .par p .cancel →
      c.pars[p]? = some inst → c.isCancellationRequested t.ctx = false →
      ThreadStep c i t (.thread i) { t with control := .par p .poll } .none []
  | finalWon {p : Nat} {inst : ParInst} {v : String} : t.control = .par p .final →
      c.pars[p]? = some inst → inst.winner = some v →
      ThreadStep c i t (.thread i) { t with control := .done (.ok v) } .none [.parReturn p v]
  | finalError {p : Nat} {inst : ParInst} {n : String} {e : Exc} {es : List (String × Exc)} :
      t.control = .par p .final → c.pars[p]? = some inst → inst.winner = none →
      inst.errors = (n, e) :: es →
      ThreadStep c i t (.thread i) { t with control := .done (.error e) } .none
        [.parRegionError p e]
  | finalNone {p : Nat} {inst : ParInst} : t.control = .par p .final →
      c.pars[p]? = some inst → inst.winner = none → inst.errors = [] →
      ThreadStep c i t (.thread i) { t with control := .done (.error .noRegionOutcome) } .none
        [.parNoOutcome p]

variable {c c' : Config} {i j : Nat} {t t' u : Thread} {a : Act} {eff : Effect}
  {es : List Event}

theorem ThreadStep.of_exec {s : Tree} (hc : t.control = .exec s) :
    ThreadStep c i t (.thread i) (execStep c i t s).1 (execStep c i t s).2.1
      (execStep c i t s).2.2 := by
  cases s with
  | leaf l => exact .execLeaf hc
  | machine m children =>
      cases hm : m.initialState with
      | none => simpa only [execStep, hm] using ThreadStep.noChildren hc hm
      | some s => simpa only [execStep, hm] using ThreadStep.execMachine hc hm
  | parallel oid first rest => exact .execParallel hc
  | retry r inner => exact .execRetry hc

theorem ThreadStep.of_loop {f : MachineFrame} (hc : t.control = .loop f) :
    ThreadStep c i t (.thread i) (loopStep c i t f).1 (loopStep c i t f).2.1
      (loopStep c i t f).2.2 := by
  by_cases hv : Engine.visitCap < f.visits + 1
  · simpa only [loopStep, if_pos hv] using ThreadStep.visitCap hc hv
  · have hv' : f.visits + 1 ≤ Engine.visitCap := Nat.le_of_not_lt hv
    cases hq : c.isCancellationRequested t.ctx with
    | true =>
        simpa only [loopStep, if_neg hv, hq, if_true] using ThreadStep.machineCancelled hc hv' hq
    | false =>
        simpa only [loopStep, if_neg hv, hq, Bool.false_eq_true, if_false] using
          ThreadStep.checkPassed hc hv' hq

theorem ThreadStep.of_checked {f : MachineFrame} (hc : t.control = .checked f) :
    ThreadStep c i t (.thread i) (checkedStep i t f).1 (checkedStep i t f).2.1
      (checkedStep i t f).2.2 := by
  cases hf : findChild f.children f.current with
  | none => simpa only [checkedStep, hf] using ThreadStep.missingChild hc hf
  | some ch => simpa only [checkedStep, hf] using ThreadStep.startChild hc hf

theorem ThreadStep.of_resume {f : Frame} {rest : List Frame} {res : Result}
    (hc : t.control = .done res) (hs : t.stack = f :: rest) :
    ThreadStep c i t (.thread i) (resumeStep i t rest res f).1 (resumeStep i t rest res f).2.1
      (resumeStep i t rest res f).2.2 := by
  cases f with
  | machine f ch parentPath =>
      cases res with
      | ok o => exact .childReturned hc hs
      | error e => exact .childRaised hc hs
  -- the guard of the retry: the outcome, and the attempts that are left
  | retry f =>
      cases res with
      | ok o =>
          by_cases ho : o = f.info.retryOutcome ∧ f.attempts ≤ f.info.maxRetries
          · obtain ⟨rfl, ha⟩ := ho
            simpa only [resumeStep, true_and, if_pos ha] using ThreadStep.retryAgain hc hs ha
          · simpa only [resumeStep, if_neg ho] using
              ThreadStep.retryOver hc hs (by simpa using ho)
      | error e => exact .retryOver hc hs (by simp)

theorem ThreadStep.of_base {res : Result} (hc : t.control = .done res) (hs : t.stack = []) :
    ThreadStep c i t (.thread i) (baseStep i t res).1 (baseStep i t res).2.1
      (baseStep i t res).2.2 := by
  cases hb : t.base with
  | caller k =>
      cases k with
      | execute => simpa only [baseStep, hb] using ThreadStep.executeOver hc hs hb
      | run parentPath => simpa only [baseStep, hb] using ThreadStep.runOver hc hs hb
  | runner p r => simpa only [baseStep, hb] using ThreadStep.runnerSection hc hs hb

theorem ThreadStep.of_par {p : Nat} {inst : ParInst} {phase : ParPhase}
    (hc : t.control = .par p phase) (hp : c.pars[p]? = some inst) :
    ThreadStep c i t (.thread i) (parStep c t p inst phase).1 (parStep c t p inst phase).2.1
      (parStep c t p inst phase).2.2 := by
  cases phase with
  | starting rest =>
      cases rest with
      | nil => exact .allStarted hc hp
      | cons r rest => exact .startRegion hc hp
  | poll =>
      cases hw : inst.winner with
      | some v => simpa only [parStep, hw] using ThreadStep.pollWon hc hp hw
      | none => simpa only [parStep, hw] using ThreadStep.pollNone hc hp hw
  | alive =>
      cases hd : c.allDead inst.threads with
      | true => simpa [parStep, hd] using ThreadStep.allDead hc hp hd
      | false => simpa [parStep, hd] using ThreadStep.someAlive hc hp hd
  | cancel =>
      cases hq : c.isCancellationRequested t.ctx with
      | true => simpa [parStep, hq] using ThreadStep.parCancelled hc hp hq
      | false => simpa [parStep, hq] using ThreadStep.pollAgain hc hp hq
  | final =>
      cases hw : inst.winner with
      | some v => simpa only [parStep, hw] using ThreadStep.finalWon hc hp hw
      | none =>
          cases he : inst.errors with
          | nil => simpa only [parStep, hw, he] using ThreadStep.finalNone hc hp hw he
          | cons e es =>
              obtain ⟨n, e⟩ := e
              simpa only [parStep, hw, he] using ThreadStep.finalError hc hp hw he

theorem ThreadStep.of_threadStep (h : threadStep c i t = some (t', eff, es)) :
    ThreadStep c i t (.thread i) t' eff es := by
  cases hc : t.control with
  | exec s =>
      have := of_exec (c := c) (i := i) hc
      simp only [threadStep, hc, Option.some.injEq] at h
      rwa [h] at this
  | loop f =>
      have := of_loop (c := c) (i := i) hc
      simp only [threadStep, hc, Option.some.injEq] at h
      rwa [h] at this
  | checked f =>
      have := of_checked (c := c) (i := i) hc
      simp only [threadStep, hc, Option.some.injEq] at h
      rwa [h] at this
  | par p phase =>
      cases hp : c.pars[p]? with
      | none => simp [threadStep, hc, hp] at h
      | some inst =>
          have := of_par (i := i) hc hp
          simp only [threadStep, hc, hp, Option.some.injEq] at h
          rwa [h] at this
  | done res =>
      cases hs : t.stack with
      | nil =>
          have := of_base (c := c) (i := i) hc hs
          simp only [threadStep, hc, hs, Option.some.injEq] at h
          rwa [h] at this
      | cons f rest =>
          have := of_resume (c := c) (i := i) hc hs
          simp only [threadStep, hc, hs, Option.some.injEq] at h
          rwa [h] at this
  | closing =>
      simp only [threadStep, hc, Option.some.injEq, Prod.mk.injEq] at h
      obtain ⟨rfl, rfl, rfl⟩ := h
      exact .threadEnds hc
  | leaf l => simp [threadStep, hc] at h
  | dead => simp [threadStep, hc] at h
  | finished r => simp [threadStep, hc] at h

theorem ThreadStep.of_leafStep {b : LeafAct} (h : leafStep c i t b = some (t', eff, es)) :
    ThreadStep c i t (.leaf i b) t' eff es := by
  cases hc : t.control with
  | leaf l =>
      cases b with
      | poll =>
          simp only [leafStep, hc, Option.some.injEq, Prod.mk.injEq] at h
          obtain ⟨rfl, rfl, rfl⟩ := h
          exact .leafPoll hc
      | finish r =>
          simp only [leafStep, hc, Option.some.injEq, Prod.mk.injEq] at h
          obtain ⟨rfl, rfl, rfl⟩ := h
          exact .leafFinish hc
  | _ => simp [leafStep, hc] at h

/-- **A step of a run** is a cancel request or a step of one of its threads. -/
theorem step_cases (h : step c a = some (c', es)) :
    (∃ tok, a = .request tok ∧ es = [.request tok] ∧
      c' = { c with requested := c.requested ++ [tok] }) ∨
    ∃ i t t' eff, c.threads[i]? = some t ∧ ThreadStep c i t a t' eff es ∧
      c' = c.commit i t' eff := by
  cases a with
  | request tok =>
      simp only [step, Option.some.injEq, Prod.mk.injEq] at h
      exact Or.inl ⟨tok, rfl, h.2.symm, h.1.symm⟩
  | thread i =>
      cases ht : c.threads[i]? with
      | none => simp [step, ht] at h
      | some t =>
          cases hs : threadStep c i t with
          | none => simp [step, ht, actStep, hs] at h
          | some p =>
              obtain ⟨t', eff, es'⟩ := p
              simp only [step, ht, actStep, hs, Option.some.injEq, Prod.mk.injEq] at h
              obtain ⟨rfl, rfl⟩ := h
              exact Or.inr ⟨i, t, t', eff, ht, .of_threadStep hs, rfl⟩
  | leaf i b =>
      cases ht : c.threads[i]? with
      | none => simp [step, ht] at h
      | some t =>
          cases hs : leafStep c i t b with
          | none => simp [step, ht, actStep, hs] at h
          | some p =>
              obtain ⟨t', eff, es'⟩ := p
              simp only [step, ht, actStep, hs, Option.some.injEq, Prod.mk.injEq] at h
              obtain ⟨rfl, rfl⟩ := h
              exact Or.inr ⟨i, t, t', eff, ht, .of_leafStep hs, rfl⟩

/-- The step of a thread inside a `Parallel` execution. -/
theorem step_of_par {p : Nat} {phase : ParPhase} (hi : c.threads[i]? = some t)
    (hc : t.control = .par p phase) (h : step c (.thread i) = some (c', es)) :
    ∃ inst, c.pars[p]? = some inst ∧ es = (parStep c t p inst phase).2.2 ∧
      c' = c.commit i (parStep c t p inst phase).1 (parStep c t p inst phase).2.1 := by
  cases hp : c.pars[p]? with
  | none => simp [step, hi, actStep, threadStep, hc, hp] at h
  | some inst =>
      simp only [step, hi, actStep, threadStep, hc, hp, Option.some.injEq, Prod.mk.injEq] at h
      exact ⟨inst, rfl, h.2.symm, h.1.symm⟩

/-- What a machine does with a child's outcome, with the guards of each way out. -/
theorem afterChild_cases (f : MachineFrame) (ch : Child Tree) (o : String) :
    (o ∉ ch.state.outcomes ∧ afterChild f ch o
      = .done (.error (.undeclaredOutcome f.current o ch.state.outcomes))) ∨
    (o ∈ ch.state.outcomes ∧ ch.transitions.lookup o = none ∧ afterChild f ch o
      = .done (.error (.noTransition f.current o (ch.transitions.map Prod.fst)))) ∨
    ∃ target, o ∈ ch.state.outcomes ∧ ch.transitions.lookup o = some target ∧
      ((target ∈ f.info.outcomes ∧ afterChild f ch o = .done (.ok target)) ∨
       (target ∉ f.info.outcomes ∧ target ∈ childNames f.children ∧
         afterChild f ch o = .loop { f with current := target }) ∨
       (target ∉ f.info.outcomes ∧ target ∉ childNames f.children ∧ afterChild f ch o
         = .done (.error (.danglingTarget target f.info.className f.info.outcomes
             (childNames f.children))))) := by
  -- in the order of the tests of the code: declared, mapped, terminal, child
  by_cases ho : o ∈ ch.state.outcomes
  · cases hl : ch.transitions.lookup o with
    | none => exact Or.inr (Or.inl ⟨ho, rfl, by simp only [afterChild, ho, hl]; rfl⟩)
    | some target =>
        refine Or.inr (Or.inr ⟨target, ho, rfl, ?_⟩)
        by_cases ht : target ∈ f.info.outcomes
        · exact Or.inl ⟨ht, by simp [afterChild, ho, hl, ht]⟩
        · by_cases hn : target ∈ childNames f.children
          · exact Or.inr (Or.inl ⟨ht, hn, by simp [afterChild, ho, hl, ht, hn]⟩)
          · exact Or.inr (Or.inr ⟨ht, hn, by simp [afterChild, ho, hl, ht, hn]⟩)
  · exact Or.inl ⟨ho, by simp [afterChild, ho]⟩

/-- A machine goes on with a child or is over. -/
theorem afterChild_done_or_loop (f : MachineFrame) (ch : Child Tree) (o : String) :
    (∃ r, afterChild f ch o = .done r) ∨ ∃ f', afterChild f ch o = .loop f' := by
  rcases afterChild_cases f ch o with
    ⟨-, h⟩ | ⟨-, -, h⟩ | ⟨target, -, -, ⟨-, h⟩ | ⟨-, -, h⟩ | ⟨-, -, h⟩⟩
  · exact Or.inl ⟨_, h⟩
  · exact Or.inl ⟨_, h⟩
  · exact Or.inl ⟨_, h⟩
  · exact Or.inr ⟨_, h⟩
  · exact Or.inl ⟨_, h⟩

/-! ## What a thread's step leaves of the rest -/

@[simp] theorem commit_requested (c : Config) (i : Nat) (t : Thread) (eff : Effect) :
    (c.commit i t eff).requested = c.requested := by
  cases eff <;> rfl

/-- A thread after a step is the one that took it, one it did not touch, or the thread of a
region that the step started. -/
theorem commit_threads_cases (hi : c.threads[i]? = some t)
    (h : (c.commit i t' eff).threads[j]? = some u) :
    (j = i ∧ u = t') ∨ (j ≠ i ∧ c.threads[j]? = some u) ∨
      ∃ p r, eff = .spawn p r ∧ j = c.threads.length ∧ u = regionThread p r := by
  have hset : ∀ v, (c.threads.set i t')[j]? = some v →
      (j = i ∧ v = t') ∨ (j ≠ i ∧ c.threads[j]? = some v) := by
    intro v hv
    by_cases hji : j = i
    · subst hji
      rw [List.getElem?_set_self (List.getElem?_eq_some_iff.mp hi).1] at hv
      exact Or.inl ⟨rfl, (Option.some.inj hv).symm⟩
    · rw [List.getElem?_set_ne (Ne.symm hji)] at hv
      exact Or.inr ⟨hji, hv⟩
  -- only `spawn` adds a thread, behind those that were there
  cases eff with
  | spawn p r =>
      simp only [Config.commit, List.getElem?_append, List.length_set] at h
      split at h
      · exact (hset u h).imp_right Or.inl
      · rename_i hlt
        rw [List.getElem?_singleton] at h
        split at h
        · exact Or.inr (Or.inr ⟨p, r, rfl, by omega, (Option.some.inj h).symm⟩)
        · exact absurd h (by simp)
  | _ => exact (hset u h).imp_right Or.inl

/-- The threads that were there are still there, only thread `i` is replaced. -/
theorem commit_threads_of_lt (hi : c.threads[i]? = some t) (hj : c.threads[j]? = some u) :
    (c.commit i t' eff).threads[j]? = some (if j = i then t' else u) := by
  have hlt : j < c.threads.length := (List.getElem?_eq_some_iff.mp hj).1
  have hset : (c.threads.set i t')[j]? = some (if j = i then t' else u) := by
    by_cases hji : j = i
    · subst hji
      rw [List.getElem?_set_self hlt, if_pos rfl]
    · rw [List.getElem?_set_ne (Ne.symm hji), hj, if_neg hji]
  cases eff with
  | spawn p r =>
      rw [← hset]
      exact List.getElem?_append_left (by rwa [List.length_set])
  | _ => exact hset

theorem commit_thread_self (hi : c.threads[i]? = some t) :
    (c.commit i t' eff).threads[i]? = some t' := by
  rw [commit_threads_of_lt hi hi, if_pos rfl]

/-- A thread after the step: it is the one that has taken it, or has not changed. -/
theorem commit_thread_cases (hi : c.threads[i]? = some t) (hj : c.threads[j]? = some u)
    (t' : Thread) (eff : Effect) : ∃ u', (c.commit i t' eff).threads[j]? = some u' ∧
    ((j = i ∧ u = t ∧ u' = t') ∨ (j ≠ i ∧ u' = u)) := by
  refine ⟨_, commit_threads_of_lt hi hj, ?_⟩
  by_cases hji : j = i
  · subst hji
    have hut : u = t := Option.some.inj (hj.symm.trans hi)
    exact Or.inl ⟨rfl, hut, if_pos rfl⟩
  · exact Or.inr ⟨hji, if_neg hji⟩

/-- What an effect makes of the `Parallel` execution `p`. -/
def Effect.onPar (eff : Effect) (n : Nat) (p : Nat) (inst : ParInst) : ParInst :=
  match eff with
  | .spawn q _ => if q = p then { inst with threads := inst.threads ++ [n] } else inst
  | .runnerSection q r res => if q = p then inst.runnerSection r res else inst
  | _ => inst

/-- A `Parallel` execution after a step is the effect on one that was there, or new. -/
theorem commit_pars_cases {p : Nat} {inst' : ParInst}
    (h : (c.commit i t' eff).pars[p]? = some inst') :
    (∃ inst, c.pars[p]? = some inst ∧ inst' = eff.onPar c.threads.length p inst) ∨
      ∃ first rest, eff = .newPar first rest ∧ p = c.pars.length ∧
        inst' = ⟨first, rest, [], none, []⟩ := by
  -- a new execution comes behind the others, the other effects change one of them in place
  cases eff with
  | newPar first rest =>
      simp only [Config.commit, List.getElem?_append] at h
      split at h
      · exact Or.inl ⟨inst', h, rfl⟩
      · rw [List.getElem?_singleton] at h
        split at h
        · exact Or.inr ⟨first, rest, rfl, by omega, (Option.some.inj h).symm⟩
        · exact absurd h (by simp)
  | spawn q r =>
      simp only [Config.commit, List.getElem?_modify] at h
      obtain ⟨inst, hp, rfl⟩ := Option.map_eq_some_iff.mp h
      exact Or.inl ⟨inst, hp, by rfl⟩
  | runnerSection q r res =>
      simp only [Config.commit, List.getElem?_modify] at h
      obtain ⟨inst, hp, rfl⟩ := Option.map_eq_some_iff.mp h
      exact Or.inl ⟨inst, hp, by rfl⟩
  | none => exact Or.inl ⟨inst', h, rfl⟩
  | path s => exact Or.inl ⟨inst', h, rfl⟩

/-- A `Parallel` execution that was there stays there. -/
theorem commit_pars_of_some {p : Nat} {inst : ParInst} (hp : c.pars[p]? = some inst) :
    (c.commit i t' eff).pars[p]? = some (eff.onPar c.threads.length p inst) := by
  cases eff with
  | newPar first rest =>
      simp only [Config.commit, Effect.onPar]
      rw [List.getElem?_append_left (List.getElem?_eq_some_iff.mp hp).1, hp]
  | spawn q r =>
      simp only [Config.commit, Effect.onPar, List.getElem?_modify, hp]
      split <;> rfl
  | runnerSection q r res =>
      simp only [Config.commit, Effect.onPar, List.getElem?_modify, hp]
      split <;> rfl
  | none => exact hp
  | path s => exact hp

end RobotTaskManager.Engine
