import Mathlib.Algebra.Ring.Nat
import RobotTaskManager.Engine.Soundness

set_option autoImplicit false

/-! # Termination

Every step of a thread uses up some of a fixed budget (`Config.cost`), except the turns of a
polling loop and the moves of a leaf that has not ended. So a run in which the budget is never
touched again consists of polling and waiting. If the scheduler is fair and leaves end
(`Fair`), the last thread that is still alive polls threads that came after it, and those are
over: it would see all of them dead. Hence every fair run ends (`fair_run_ends`), whatever the
tree and whatever its leaves return.
-/

namespace RobotTaskManager.Engine

open Interleaving

/-! ## The budget -/

mutual

/-- Bounds the steps of an `execute` of a tree and of the threads it starts. A machine has at
most `visitCap` visits of its most expensive child, a retry decorator `maxRetries + 1`
attempts. -/
def Tree.cost : Tree → Nat
  | .leaf _ => 3
  | .machine _ children => visitCap * (childrenCost children + 2) + 3
  | .parallel _ ⟨_, s, _⟩ rest => s.cost + 2 + regionsCost rest + 5
  | .retry r inner => (r.maxRetries + 1) * (inner.cost + 2)

def childrenCost : List (Child Tree) → Nat
  | [] => 0
  | ⟨_, s, _⟩ :: rest => s.cost + childrenCost rest

def regionsCost : List (Region Tree) → Nat
  | [] => 0
  | ⟨_, s, _⟩ :: rest => s.cost + 2 + regionsCost rest

end

def Frame.cost : Frame → Nat
  | .machine f _ _ => (visitCap - f.visits) * (childrenCost f.children + 2) + 2
  | .retry f => (f.info.maxRetries + 1 - f.attempts) * (f.inner.cost + 2) + 1

def Control.cost : Control → Nat
  | .exec s => s.cost + 1
  | .leaf _ => 3
  | .loop f => (visitCap - f.visits) * (childrenCost f.children + 2) + 3
  | .checked f => (visitCap - f.visits) * (childrenCost f.children + 2) +
      childrenCost f.children + 4
  | .par _ (.starting rest) => regionsCost rest + 5
  | .par _ .final => 3
  | .par _ _ => 4
  | .done _ => 2
  | .closing => 1
  | .dead => 0
  | .finished _ => 0

def Thread.cost (t : Thread) : Nat := t.control.cost + (t.stack.map Frame.cost).sum

/-- The budget of the thread an effect starts. -/
def Effect.cost : Effect → Nat
  | .spawn p r => (regionThread p r).cost
  | _ => 0

def Config.cost (c : Config) : Nat := (c.threads.map Thread.cost).sum

theorem cost_le_childrenCost {children : List (Child Tree)} {ch : Child Tree}
    (h : ch ∈ children) : ch.state.cost ≤ childrenCost children := by
  induction children with
  | nil => cases h
  | cons ch' rest ih =>
      obtain ⟨n, s, m⟩ := ch'
      rw [childrenCost]
      rcases List.mem_cons.mp h with rfl | h
      · exact Nat.le_add_right _ _
      · have := ih h
        omega

theorem regionsCost_cons (p : Nat) (r : Region Tree) (rest : List (Region Tree)) :
    regionsCost (r :: rest) = (regionThread p r).cost + 1 + regionsCost rest := by
  obtain ⟨n, s, m⟩ := r
  simp [regionsCost, regionThread, Thread.cost, Control.cost]

/-- What is left of the budget of a machine before and after its next visit. -/
theorem visits_cost {v k : Nat} (h : v + 1 ≤ visitCap) :
    (visitCap - v) * k = (visitCap - (v + 1)) * k + k := by
  have hv : visitCap - v = visitCap - (v + 1) + 1 := by omega
  calc (visitCap - v) * k
    _ = (visitCap - (v + 1) + 1) * k := by rw [hv]
    _ = (visitCap - (v + 1)) * k + k := Nat.succ_mul ..

theorem attempts_cost {a n k : Nat} (h : a ≤ n) :
    (n + 1 - a) * k = (n + 1 - (a + 1)) * k + k := by
  have ha : n + 1 - a = n + 1 - (a + 1) + 1 := by omega
  calc (n + 1 - a) * k
    _ = (n + 1 - (a + 1) + 1) * k := by rw [ha]
    _ = (n + 1 - (a + 1)) * k + k := Nat.succ_mul ..

/-! ## Steps that use up nothing -/

/-- A leaf that asks for cancellation, and the turns of a polling loop that goes on. -/
inductive Waiting (c : Config) (i : Nat) (t : Thread) : Act → Thread → Prop
  | leafPoll {l : Leaf} : t.control = .leaf l → Waiting c i t (.leaf i .poll) t
  | poll {p : Nat} : t.control = .par p .poll →
      Waiting c i t (.thread i) { t with control := .par p .alive }
  | alive {p : Nat} {inst : ParInst} : t.control = .par p .alive → c.pars[p]? = some inst →
      c.allDead inst.threads = false →
      Waiting c i t (.thread i) { t with control := .par p .cancel }
  | cancel {p : Nat} : t.control = .par p .cancel →
      Waiting c i t (.thread i) { t with control := .par p .poll }

section Budget

variable {c c' : Config} {i : Nat} {t t' : Thread} {a : Act} {eff : Effect} {es : List Event}

theorem afterChild_cost (f : MachineFrame) (ch : Child Tree) (parentPath o : String) :
    (afterChild f ch o).cost < 2 + (Frame.machine f ch parentPath).cost := by
  simp only [Frame.cost]
  rcases afterChild_cases f ch o with
    ⟨-, h⟩ | ⟨-, -, h⟩ | ⟨target, -, -, ⟨-, h⟩ | ⟨-, -, h⟩ | ⟨-, -, h⟩⟩
  all_goals
    simp only [h, Control.cost]
    omega

/-- A step that leaves the waiting frames alone is paid for by its control. -/
theorem cost_lt_of_control {k : Control} (hc : t.control = k)
    (h : t'.control.cost + eff.cost < k.cost) (hst : t'.stack = t.stack) :
    t'.cost + eff.cost < t.cost := by
  simp only [Thread.cost, hc, hst]
  omega

theorem cost_eq_of_control {k : Control} (hc : t.control = k) (h : t'.control.cost = k.cost)
    (hst : t'.stack = t.stack) : t'.cost = t.cost := by
  simp only [Thread.cost, hc, hst, h]

/-- A step uses up budget or waits. -/
theorem ThreadStep.cost_cases (hs : ThreadStep c i t a t' eff es) :
    t'.cost + eff.cost < t.cost ∨ (eff = .none ∧ t'.cost = t.cost ∧ Waiting c i t a t') := by
  cases hs with
  | leafPoll hc => exact Or.inr ⟨rfl, rfl, .leafPoll hc⟩
  | pollNone hc hp hw => exact Or.inr ⟨rfl, cost_eq_of_control hc rfl rfl, .poll hc⟩
  | someAlive hc hp hd => exact Or.inr ⟨rfl, cost_eq_of_control hc rfl rfl, .alive hc hp hd⟩
  | pollAgain hc hp hq => exact Or.inr ⟨rfl, cost_eq_of_control hc rfl rfl, .cancel hc⟩
  | execLeaf hc =>
      exact Or.inl (cost_lt_of_control hc (by simp [Control.cost, Tree.cost, Effect.cost]) rfl)
  | noChildren hc hm =>
      exact Or.inl (cost_lt_of_control hc (by simp [Control.cost, Tree.cost, Effect.cost]) rfl)
  | execMachine hc hm =>
      exact Or.inl (cost_lt_of_control hc (by simp [Control.cost, Tree.cost, Effect.cost]) rfl)
  | @execParallel oid first rest hc =>
      obtain ⟨n, s, m⟩ := first
      refine Or.inl (cost_lt_of_control hc ?_ rfl)
      simp [Control.cost, Tree.cost, Effect.cost, regionsCost]
  | @execRetry r inner hc =>
      have := attempts_cost (k := inner.cost + 2) (Nat.zero_le r.maxRetries)
      refine Or.inl ?_
      simp only [Nat.sub_zero, Nat.zero_add] at this
      simp only [Thread.cost, hc, Control.cost, Tree.cost, Effect.cost, Frame.cost, List.map_cons,
        List.sum_cons]
      omega
  | leafFinish hc => exact Or.inl (cost_lt_of_control hc (by simp [Control.cost, Effect.cost]) rfl)
  | visitCap hc hv =>
      exact Or.inl (cost_lt_of_control hc (by simp only [Control.cost, Effect.cost]; omega) rfl)
  | machineCancelled hc hv hq =>
      exact Or.inl (cost_lt_of_control hc (by simp only [Control.cost, Effect.cost]; omega) rfl)
  -- one visit less: what it frees pays for the child
  | @checkPassed f hc hv hq =>
      have := visits_cost (k := childrenCost f.children + 2) hv
      exact Or.inl (cost_lt_of_control hc (by simp only [Control.cost, Effect.cost]; omega) rfl)
  | missingChild hc hf =>
      exact Or.inl (cost_lt_of_control hc (by simp only [Control.cost, Effect.cost]; omega) rfl)
  | startChild hc hf =>
      have := cost_le_childrenCost (findChild_mem hf)
      refine Or.inl ?_
      simp only [Thread.cost, hc, Control.cost, Effect.cost, Frame.cost, List.map_cons,
        List.sum_cons]
      omega
  | @childReturned f ch parentPath o rest hc hst =>
      have := afterChild_cost f ch parentPath o
      have hdone : (Control.done (.ok o)).cost = 2 := rfl
      refine Or.inl ?_
      simp only [Thread.cost, hc, hst, hdone, Effect.cost, List.map_cons, List.sum_cons]
      omega
  | childRaised hc hst =>
      refine Or.inl ?_
      simp only [Thread.cost, hc, hst, Control.cost, Effect.cost, Frame.cost, List.map_cons,
        List.sum_cons]
      omega
  -- one attempt less: what it frees pays for the inner state
  | @retryAgain f rest hc hst ha =>
      have := attempts_cost (k := f.inner.cost + 2) ha
      refine Or.inl ?_
      simp only [Thread.cost, hc, hst, Control.cost, Effect.cost, Frame.cost, List.map_cons,
        List.sum_cons]
      omega
  | retryOver hc hst hn =>
      refine Or.inl ?_
      simp only [Thread.cost, hst, Effect.cost, Frame.cost, List.map_cons, List.sum_cons]
      omega
  | executeOver hc hst hb =>
      exact Or.inl (cost_lt_of_control hc (by simp [Control.cost, Effect.cost]) rfl)
  | runOver hc hst hb =>
      exact Or.inl (cost_lt_of_control hc (by simp [Control.cost, Effect.cost]) rfl)
  | runnerSection hc hst hb =>
      exact Or.inl (cost_lt_of_control hc (by simp [Control.cost, Effect.cost]) rfl)
  | threadEnds hc => exact Or.inl (cost_lt_of_control hc (by simp [Control.cost, Effect.cost]) rfl)
  -- the budget of the region pays for its thread
  | @startRegion p inst r rest hc hp =>
      have := regionsCost_cons p r rest
      exact Or.inl (cost_lt_of_control hc (by simp only [Control.cost, Effect.cost]; omega) rfl)
  | allStarted hc hp =>
      exact Or.inl (cost_lt_of_control hc (by simp [Control.cost, Effect.cost, regionsCost]) rfl)
  | pollWon hc hp hw =>
      exact Or.inl (cost_lt_of_control hc (by simp [Control.cost, Effect.cost]) rfl)
  | allDead hc hp hd =>
      exact Or.inl (cost_lt_of_control hc (by simp [Control.cost, Effect.cost]) rfl)
  | parCancelled hc hp hq =>
      exact Or.inl (cost_lt_of_control hc (by simp [Control.cost, Effect.cost]) rfl)
  | finalWon hc hp hw =>
      exact Or.inl (cost_lt_of_control hc (by simp [Control.cost, Effect.cost]) rfl)
  | finalError hc hp hw he =>
      exact Or.inl (cost_lt_of_control hc (by simp [Control.cost, Effect.cost]) rfl)
  | finalNone hc hp hw he =>
      exact Or.inl (cost_lt_of_control hc (by simp [Control.cost, Effect.cost]) rfl)

theorem sum_map_set {α : Type} {l : List α} {i : Nat} {x : α} (f : α → Nat) (h : l[i]? = some x)
    (y : α) : ((l.set i y).map f).sum + f x = (l.map f).sum + f y := by
  induction l generalizing i with
  | nil => cases h
  | cons z l ih =>
      cases i with
      | zero =>
          obtain rfl : z = x := Option.some.inj h
          simp only [List.set_cons_zero, List.map_cons, List.sum_cons]
          omega
      | succ i =>
          have := ih h
          simp only [List.set_cons_succ, List.map_cons, List.sum_cons]
          omega

theorem cost_commit (hi : c.threads[i]? = some t) (t' : Thread) (eff : Effect) :
    (c.commit i t' eff).cost + t.cost = c.cost + t'.cost + eff.cost := by
  have hset := sum_map_set Thread.cost hi t'
  cases eff with
  | spawn p r =>
      simp only [Config.commit, Config.cost, Effect.cost, List.map_append, List.sum_append,
        List.map_cons, List.map_nil, List.sum_cons, List.sum_nil]
      omega
  | _ => simpa only [Config.commit, Config.cost, Effect.cost, Nat.add_zero] using hset

/-- A step that leaves the budget as it is: a cancel request, or one thread waits. -/
def Idle (c : Config) (a : Act) (c' : Config) : Prop :=
  (∃ tok, a = .request tok ∧ c' = { c with requested := c.requested ++ [tok] }) ∨
  ∃ i t t', c.threads[i]? = some t ∧ Waiting c i t a t' ∧ c' = c.commit i t' .none

theorem step_cost (h : step c a = some (c', es)) :
    c'.cost < c.cost ∨ (c'.cost = c.cost ∧ Idle c a c') := by
  rcases step_cases h with ⟨tok, rfl, rfl, rfl⟩ | ⟨i, t, t', eff, hi, hs, rfl⟩
  · exact Or.inr ⟨rfl, Or.inl ⟨tok, rfl, rfl⟩⟩
  · have hcommit := cost_commit hi t' eff
    rcases hs.cost_cases with hlt | ⟨rfl, heq, hw⟩
    · exact Or.inl (by omega)
    · refine Or.inr ⟨?_, Or.inr ⟨i, t, t', hi, hw, rfl⟩⟩
      have : Effect.none.cost = 0 := rfl
      omega

end Budget

/-! ## Threads that are not over -/

/-- The thread has ended, or the outermost `execute` of the run has. -/
def Control.isOver : Control → Bool
  | .dead => true
  | .finished _ => true
  | _ => false

def Live (c : Config) (i : Nat) : Prop :=
  ∃ t, c.threads[i]? = some t ∧ t.control.isOver = false

/-- Threads of regions die, the caller of the run gets its result. -/
def OverOk (t : Thread) : Prop :=
  match t.control with
  | .closing | .dead => ∃ p r, t.base = .runner p r
  | .finished _ => ∃ k, t.base = .caller k
  | _ => True

/-- A thread inside a `Parallel` execution comes before the threads it has started. -/
structure Parents (c : Config) : Prop where
  each : ∀ (i : Nat) (t : Thread), c.threads[i]? = some t → OverOk t
  order : ∀ (i j p : Nat) (t : Thread) (phase : ParPhase) (inst : ParInst),
    c.threads[i]? = some t → t.control = .par p phase → c.pars[p]? = some inst →
    j ∈ inst.threads → i < j

section Liveness

variable {c c' : Config} {i j : Nat} {t t' : Thread} {a : Act} {eff : Effect} {es : List Event}

theorem OverOk.step (h : OverOk t) (hs : ThreadStep c i t a t' eff es) : OverOk t' := by
  cases hs with
  | leafPoll hc => exact h
  | retryOver hc hst hn => simp only [OverOk, hc]
  | @childReturned f ch parentPath o rest hc hst =>
      rcases afterChild_done_or_loop f ch o with ⟨r, hr⟩ | ⟨f', hf⟩
      · simp only [OverOk, hr]
      · simp only [OverOk, hf]
  | executeOver hc hst hb => exact ⟨_, hb⟩
  | runOver hc hst hb => exact ⟨_, hb⟩
  | runnerSection hc hst hb => exact ⟨_, _, hb⟩
  | threadEnds hc => simpa only [OverOk, hc] using h
  | _ => trivial

theorem Parents.step (h : Parents c) (hst : Engine.step c a = some (c', es)) : Parents c' := by
  rcases step_cases hst with ⟨tok, rfl, rfl, rfl⟩ | ⟨i, t, t', eff, hi, hs, rfl⟩
  · exact ⟨h.each, h.order⟩
  · refine ⟨fun j u hj => ?_, fun j l p u phase inst' hj hc hp hl => ?_⟩
    · rcases commit_threads_cases hi hj with ⟨-, rfl⟩ | ⟨-, hj'⟩ | ⟨p, r, rfl, -, rfl⟩
      · exact (h.each i t hi).step hs
      · exact h.each j u hj'
      · trivial
    · -- a thread inside `p` was there before the step, unless the step creates `p`
      have hold : (∃ v phase', c.threads[j]? = some v ∧ v.control = .par p phase') ∨
          p = c.pars.length := by
        rcases commit_threads_cases hi hj with ⟨rfl, rfl⟩ | ⟨-, hj'⟩ | ⟨q, r, rfl, -, rfl⟩
        · rcases hs.par_cases hc with ⟨phase', hc'⟩ | ⟨first, rest, -, hp', -⟩
          · exact Or.inl ⟨t, phase', hi, hc'⟩
          · exact Or.inr hp'
        · exact Or.inl ⟨u, phase, hj', hc⟩
        · cases hc
      rcases commit_pars_cases hp with ⟨inst, hp', rfl⟩ | ⟨first, rest, -, -, rfl⟩
      · rcases hold with ⟨v, phase', hv, hc'⟩ | rfl
        · rcases onPar_threads eff c.threads.length p inst with hth | ⟨r, -, hth⟩
          · exact h.order j l p v phase' inst hv hc' hp' (hth ▸ hl)
          · rw [hth] at hl
            rcases List.mem_append.mp hl with hl | hl
            · exact h.order j l p v phase' inst hv hc' hp' hl
            · obtain rfl := List.mem_singleton.mp hl
              exact (List.getElem?_eq_some_iff.mp hv).1
        · exact absurd (List.getElem?_eq_some_iff.mp hp').1 (Nat.lt_irrefl _)
      · cases hl

theorem Parents.start (root : Tree) (k : Caller) (ctx : Ctx) : Parents (.start root k ctx) where
  each i t hi := by
    simp only [Config.start, List.getElem?_singleton] at hi
    split at hi
    · obtain rfl := Option.some.inj hi
      trivial
    · cases hi
  order i j p t phase inst _ _ hp := by simp [Config.start] at hp

/-- Waiting ends no thread. -/
theorem Waiting.not_over (h : Waiting c i t a t') :
    t.control.isOver = false ∧ t'.control.isOver = false := by
  cases h with
  | leafPoll hc => exact ⟨by rw [hc]; rfl, by rw [hc]; rfl⟩
  | poll hc => exact ⟨by rw [hc]; rfl, rfl⟩
  | alive hc hp hd => exact ⟨by rw [hc]; rfl, rfl⟩
  | cancel hc => exact ⟨by rw [hc]; rfl, rfl⟩

theorem Idle.live_iff (h : Idle c a c') : Live c' j ↔ Live c j := by
  rcases h with ⟨tok, rfl, rfl⟩ | ⟨i, t, t', hi, hw, rfl⟩
  · rfl
  · refine ⟨fun ⟨u, hu, ho⟩ => ?_, fun ⟨u, hu, ho⟩ => ?_⟩
    · rcases commit_threads_cases hi hu with ⟨rfl, -⟩ | ⟨-, hu'⟩ | ⟨p, r, hp, -⟩
      · exact ⟨t, hi, hw.not_over.1⟩
      · exact ⟨u, hu', ho⟩
      · cases hp
    · obtain ⟨u', hu', ⟨-, -, rfl⟩ | ⟨-, rfl⟩⟩ := commit_thread_cases hi hu t' .none
      · exact ⟨u', hu', hw.not_over.2⟩
      · exact ⟨u', hu', ho⟩

/-- Thread `i` is in a phase of the `Parallel` execution `p`. -/
def InPar (c : Config) (i p : Nat) (phase : ParPhase) : Prop :=
  ∃ t, c.threads[i]? = some t ∧ t.control = .par p phase

/-- The actions that move thread `i` on: its own steps, and the end of the leaf it is in. -/
def Act.Advances (i : Nat) : Act → Prop
  | .thread j => j = i
  | .leaf j (.finish _) => j = i
  | _ => False

theorem Idle.inPar {p : Nat} {phase : ParPhase} (h : Idle c a c') (ha : ¬ a.Advances i)
    (hp : InPar c i p phase) : InPar c' i p phase := by
  obtain ⟨u, hu, hc⟩ := hp
  rcases h with ⟨tok, rfl, rfl⟩ | ⟨k, t, t', hk, hw, rfl⟩
  · exact ⟨u, hu, hc⟩
  · obtain ⟨u', hu', ⟨rfl, rfl, rfl⟩ | ⟨-, rfl⟩⟩ := commit_thread_cases hk hu t' .none
    · refine ⟨u', hu', ?_⟩
      cases hw with
      | leafPoll _ => exact hc
      | poll _ => exact absurd rfl ha
      | alive _ _ _ => exact absurd rfl ha
      | cancel _ => exact absurd rfl ha
    · exact ⟨u', hu', hc⟩

/-- An idle step that moves thread `i` on is a turn of its polling loop. -/
theorem Idle.polls (h : Idle c a c') (ha : a.Advances i) :
    ∃ p, (InPar c i p .poll ∧ InPar c' i p .alive) ∨
      (InPar c i p .alive ∧ (∃ inst, c.pars[p]? = some inst ∧ c.allDead inst.threads = false)) ∨
      (InPar c i p .cancel ∧ InPar c' i p .poll) := by
  rcases h with ⟨tok, rfl, rfl⟩ | ⟨k, t, t', hk, hw, rfl⟩
  · cases ha
  · have hset : (c.commit k t' .none).threads[k]? = some t' := commit_thread_self hk
    cases hw with
    | leafPoll _ => cases ha
    | poll hc =>
        obtain rfl := ha
        exact ⟨_, Or.inl ⟨⟨t, hk, hc⟩, _, hset, rfl⟩⟩
    | alive hc hp hd =>
        obtain rfl := ha
        exact ⟨_, Or.inr (Or.inl ⟨⟨t, hk, hc⟩, _, hp, hd⟩)⟩
    | cancel hc =>
        obtain rfl := ha
        exact ⟨_, Or.inr (Or.inr ⟨⟨t, hk, hc⟩, _, hset, rfl⟩)⟩

theorem InPar.unique {p q : Nat} {phase phase' : ParPhase} (h : InPar c i p phase)
    (h' : InPar c i q phase') : p = q ∧ phase = phase' := by
  obtain ⟨t, hi, hc⟩ := h
  obtain ⟨u, hu, hc'⟩ := h'
  obtain rfl : t = u := Option.some.inj (hi.symm.trans hu)
  simpa using hc.symm.trans hc'

/-- A thread that finds one of its threads alive comes before a thread that is not over. -/
theorem exists_live_gt {tr : List Event} {p : Nat} {inst : ParInst} (hinv : ParInv tr c)
    (hpar : Parents c) (h : InPar c i p .alive) (hp : c.pars[p]? = some inst)
    (hd : c.allDead inst.threads = false) : ∃ j, i < j ∧ Live c j := by
  obtain ⟨t, hi, hc⟩ := h
  have hd' : ¬ c.allDead inst.threads = true := by rw [hd]; nofun
  rw [allDead_iff] at hd'
  push Not at hd'
  obtain ⟨j, hj, hlive⟩ := hd'
  obtain ⟨k, hk⟩ := List.getElem?_of_mem hj
  obtain ⟨r, u, -, hu, hb, -⟩ := hinv.threads p inst k j hp hk
  refine ⟨j, hpar.order i j p t _ inst hi hc hp hj, u, hu, ?_⟩
  have hover := hpar.each j u hu
  cases hcu : u.control with
  | dead => exact absurd hcu (hlive u hu)
  | finished res =>
      simp only [OverOk, hcu, hb] at hover
      obtain ⟨k, hk⟩ := hover
      cases hk
  | _ => rfl

end Liveness

/-! ## Fair runs end -/

section Fairness

variable {P : Config → Act → Prop} {root : Tree} {k : Caller} {ctx : Ctx}

/-- Every thread that is not over is moved on eventually: the scheduler does not forget it,
and the leaf it is in ends. -/
def Fair {s₀ : Config} (r : Infinite Engine.step P s₀) : Prop :=
  ∀ n i, Live (r.state n) i → ∃ m, n ≤ m ∧ (r.act m).Advances i

theorem parents_run {tr : List Event} {c : Config}
    (h : Run Engine.step P (.start root k ctx) tr c) : Parents c :=
  h.invariant (fun _ _ _ _ hI _ hs => hI.step hs) (Parents.start root k ctx)

/-- A fair run cannot go on waiting while a thread is not over: the last such thread would
find all threads it waits for dead. -/
theorem not_live_of_idle (r : Infinite Engine.step P (.start root k ctx)) (hfair : Fair r) {N : Nat}
    (hidle : ∀ n, N ≤ n → Idle (r.state n) (r.act n) (r.state (n + 1))) (i : Nat) :
    ¬ Live (r.state N) i := by
  intro hi
  have hlive : ∀ n, N ≤ n → ∀ j, Live (r.state n) j ↔ Live (r.state N) j := by
    intro n hn j
    induction n, hn using Nat.le_induction with
    | base => rfl
    | succ n hn ih =>
        calc Live (r.state (n + 1)) j
          _ ↔ Live (r.state n) j := (hidle n hn).live_iff
          _ ↔ Live (r.state N) j := ih
  -- the last thread that is not over
  obtain ⟨l, hl, hmax⟩ : ∃ l, Live (r.state N) l ∧ ∀ j, Live (r.state N) j → j ≤ l := by
    have hbdd : BddAbove {j | Live (r.state N) j} :=
      ⟨(r.state N).threads.length, fun j ⟨t, ht, _⟩ => (List.getElem?_eq_some_iff.mp ht).1.le⟩
    exact ⟨_, Nat.sSup_mem ⟨i, hi⟩ hbdd, fun j hj => le_csSup hbdd hj⟩
  -- a phase of the last thread lasts until the thread takes a turn
  have hturn : ∀ n p phase, N ≤ n → InPar (r.state n) l p phase →
      ∃ m, N ≤ m ∧ (r.act m).Advances l ∧ InPar (r.state m) l p phase := by
    intro n p phase hn hp
    obtain ⟨m, hm, ha⟩ := hfair n l ((hlive n hn l).mpr hl)
    obtain ⟨m', hm', ha', hp'⟩ := r.ensures (Q := fun c => InPar c l p phase)
      (A := fun a => a.Advances l) (fun j hj hQ hA => (hidle j (by omega)).inPar hA hQ) hp hm ha
    exact ⟨m', by omega, ha', hp'⟩
  -- it cannot find a thread alive: that one would come after it
  have halive : ∀ n p, N ≤ n → ¬ InPar (r.state n) l p .alive := by
    intro n p hn hp
    obtain ⟨m, hm, ha, hp'⟩ := hturn n p _ hn hp
    obtain ⟨q, ⟨h, -⟩ | ⟨h, inst, hq, hd⟩ | ⟨h, -⟩⟩ := (hidle m hm).polls ha
    · cases (hp'.unique h).2
    · have hrun := r.run_upto m
      obtain ⟨j, hlt, hj⟩ := exists_live_gt (ParInv.run hrun) (parents_run hrun) h hq hd
      have := hmax j ((hlive m hm j).mp hj)
      omega
    · cases (hp'.unique h).2
  -- so it cannot go on from the poll of the winner either
  have hpoll : ∀ n p, N ≤ n → ¬ InPar (r.state n) l p .poll := by
    intro n p hn hp
    obtain ⟨m, hm, ha, hp'⟩ := hturn n p _ hn hp
    obtain ⟨q, ⟨-, h⟩ | ⟨h, -⟩ | ⟨h, -⟩⟩ := (hidle m hm).polls ha
    · exact halive (m + 1) q (by omega) h
    · cases (hp'.unique h).2
    · cases (hp'.unique h).2
  -- but it takes a turn, and every turn leads to one of the two
  obtain ⟨m, hm, ha⟩ := hfair N l hl
  obtain ⟨q, ⟨h, -⟩ | ⟨h, -⟩ | ⟨-, h⟩⟩ := (hidle m hm).polls ha
  · exact hpoll m q hm h
  · exact halive m q hm h
  · exact hpoll (m + 1) q (by omega) h

theorem base_caller {tr : List Event} {c : Config}
    (h : Run Engine.step P (.start root k ctx) tr c) :
    ∃ t, c.threads[0]? = some t ∧ t.base = .caller k := by
  refine h.invariant (I := fun c => ∃ t, c.threads[0]? = some t ∧ t.base = .caller k) ?_
    ⟨_, rfl, rfl⟩
  rintro s a s' es ⟨t, ht, hb⟩ - hst
  obtain ⟨t', ht', hbase⟩ := step_base hst ht
  exact ⟨t', ht', hbase.trans hb⟩

/-- **Every fair run ends.** -/
theorem fair_run_ends (r : Infinite Engine.step P (.start root k ctx)) (hfair : Fair r) :
    ∃ n res, (r.state n).result = some res := by
  obtain ⟨N, hN⟩ := r.eventually_const (μ := Config.cost) fun n => by
    rcases step_cost (r.valid n) with h | ⟨h, -⟩ <;> omega
  have hidle : ∀ n, N ≤ n → Idle (r.state n) (r.act n) (r.state (n + 1)) := by
    intro n hn
    have := hN n hn
    rcases step_cost (r.valid n) with h | ⟨-, h⟩
    · omega
    · exact h
  -- the thread of the caller is over, and only the thread of a region dies
  have hover := not_live_of_idle r hfair hidle 0
  obtain ⟨t, ht, hb⟩ := base_caller (r.run_upto N)
  have hok := (parents_run (r.run_upto N)).each 0 t ht
  cases hc : t.control with
  | finished res => exact ⟨N, res, by simp only [Config.result, ht, hc]⟩
  | dead =>
      simp only [OverOk, hc, hb] at hok
      obtain ⟨p, r, hr⟩ := hok
      cases hr
  | _ => exact absurd ⟨t, ht, by rw [hc]; rfl⟩ hover

end Fairness

/-! ## Outcome soundness -/

/-- No thread is stuck. -/
theorem ParInv.can_advance {tr : List Event} {c : Config} {i : Nat} (hinv : ParInv tr c)
    (h : Live c i) : ∃ a : Act, a.Advances i ∧ (Engine.step c a).isSome := by
  obtain ⟨t, hi, ho⟩ := h
  have hthread : (threadStep c i t).isSome → (Engine.step c (.thread i)).isSome := by
    intro hs
    obtain ⟨⟨t', eff, es⟩, hs⟩ := Option.isSome_iff_exists.mp hs
    simp [Engine.step, hi, actStep, hs]
  -- a leaf can end; every other control that is not over has a step
  cases hc : t.control with
  | leaf l =>
      exact ⟨.leaf i (.finish (.ok "")), rfl, by simp [Engine.step, hi, actStep, leafStep, hc]⟩
  | par p phase =>
      obtain ⟨inst, hp, -⟩ := hinv.phase i t p phase hi hc
      exact ⟨.thread i, rfl, hthread (by simp [threadStep, hc, hp])⟩
  | done r =>
      refine ⟨.thread i, rfl, hthread ?_⟩
      cases hst : t.stack <;> simp [threadStep, hc, hst]
  | dead => exact absurd ho (by simp [hc, Control.isOver])
  | finished r => exact absurd ho (by simp [hc, Control.isOver])
  | _ => exact ⟨.thread i, rfl, hthread (by simp [threadStep, hc])⟩

/-- **Outcome soundness of well-formed trees**, over leaves that return declared outcomes. In
every interleaving, `execute` ends with an outcome the root declares, with `CancelledError`
and the token set, or with the visit cap of one of the machines; no thread is ever stuck, and
`execute` does end in every fair run. -/
theorem outcome_sound {root : Tree} (hwf : WellFormed root) (k : Caller) (ctx : Ctx) :
    (∀ (tr : List Event) (c : Config), Run Engine.step LeafDeclared (.start root k ctx) tr c →
      (∀ i, Live c i → ∃ a : Act, a.Advances i ∧ (Engine.step c a).isSome) ∧
      ∀ res, c.result = some res →
        (∃ o ∈ root.outcomes, res = .ok o) ∨
        (res = .error .cancelled ∧ ∃ tok, ctx.token = some tok ∧ tok ∈ c.requested) ∨
        ∃ m children, Subtree root (.machine m children) ∧
          res = .error (.visitCap m.className)) ∧
    ∀ r : Infinite Engine.step LeafDeclared (.start root k ctx), Fair r →
      ∃ n res, (r.state n).result = some res := by
  refine ⟨fun tr c h => ⟨fun i hi => (ParInv.run h).can_advance hi, fun res hres => ?_⟩,
    fun r hfair => fair_run_ends r hfair⟩
  obtain ⟨t, ht, hb⟩ := base_caller h
  obtain ⟨s, -, hctl⟩ := ((Typed.run hwf h).threads 0 t ht).state
  have hc : t.control = .finished res := by
    simp only [Config.result, ht] at hres
    split at hres
    · rename_i hc
      rw [hc, Option.some.inj hres]
    · cases hres
  rw [hc] at hctl
  cases res with
  | ok o => exact Or.inl ⟨o, hctl, rfl⟩
  | error e =>
      cases hctl with
      | cancelled htok hr => exact Or.inr (Or.inl ⟨rfl, _, htok, hr⟩)
      | visitCap hsub => exact Or.inr (Or.inr ⟨_, _, hsub, rfl⟩)

/-- A machine that drives to a pose and watches meanwhile, and then takes a picture. -/
def inspection : Tree :=
  .machine ⟨0, "Inspection", .behaviorSM ["speed"], ["done", "failed"], some "approach"⟩
    [⟨"approach", .parallel 1
        ⟨"drive", .leaf ⟨2, "DriveToPoseState", ["succeeded", "failed"]⟩,
          [("succeeded", "there"), ("failed", "stuck")]⟩
        [⟨"watch", .leaf ⟨3, "Watch", ["seen"]⟩, [("seen", "stuck")]⟩],
      [("stuck", "failed"), ("there", "shoot")]⟩,
     ⟨"shoot", .retry ⟨4, 3, "failed"⟩ (.leaf ⟨5, "CaptureImageState", ["succeeded", "failed"]⟩),
      [("succeeded", "done"), ("failed", "failed")]⟩]

theorem inspection_wellFormed : WellFormed inspection := by
  refine .machine ⟨by simp, ⟨_, rfl, by decide⟩, by decide, by decide⟩ ?_
  refine List.forall_mem_cons.mpr ⟨?_, List.forall_mem_singleton.mpr (.retry (.leaf _))⟩
  refine .parallel (by decide) ?_
  exact List.forall_mem_cons.mpr ⟨.leaf _, List.forall_mem_singleton.mpr (.leaf _)⟩

/-- The first region wins, the picture is taken at the second attempt. -/
def inspectionActs : List Act :=
  [.thread 0, .thread 0, .thread 0, .thread 0, .thread 0, .thread 0, .thread 0,
    .thread 1, .leaf 1 (.finish (.ok "succeeded")), .thread 1,
    .thread 0, .thread 0, .thread 0, .thread 0, .thread 0, .thread 0,
    .leaf 0 (.finish (.ok "failed")), .thread 0, .thread 0,
    .leaf 0 (.finish (.ok "succeeded")), .thread 0, .thread 0, .thread 0]

theorem outcome_sound_inspection : ∃ (tr : List Event) (c : Config) (o : String),
    Run Engine.step LeafDeclared (.start inspection .execute .empty) tr c ∧
      c.result = some (.ok o) ∧ o ∈ inspection.outcomes := by
  have hacts : (runActs Engine.step LeafDeclared (.start inspection .execute .empty)
      inspectionActs).isSome := by decide
  have hrun := Run.of_isSome hacts
  obtain ⟨-, hres⟩ := (outcome_sound inspection_wellFormed .execute .empty).1 _ _ hrun
  rcases hres (.ok "done") rfl with ⟨o, ho, h⟩ | ⟨h, -⟩ | ⟨m, children, -, h⟩
  · exact ⟨_, _, o, hrun, by rw [← h]; rfl, ho⟩
  · cases h
  · cases h

end RobotTaskManager.Engine
