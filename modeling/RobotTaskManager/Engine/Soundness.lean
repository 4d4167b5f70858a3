import RobotTaskManager.Engine.Parallel

set_option autoImplicit false

/-! # Outcome soundness

Typing for the threads of a run of a well-formed tree. The base and the waiting frames of a
thread determine the state whose `execute` the thread is in (`Awaits`), and that state
determines what the control may be (`ControlOk`): in particular an `execute` that is over has
returned an outcome its state declares or raised one of the exceptions of `Allowed`. Every
step preserves the typing (`Typed.step`), as long as leaves return declared outcomes
(`LeafDeclared`); the exceptions of a machine with an incomplete transition table and of a
region with an incomplete mapping are ruled out there.
-/

namespace RobotTaskManager.Engine

open Interleaving

/-! ## The states of a tree -/

/-- `s` is a state of the tree `root`, at any depth. -/
inductive Subtree (root : Tree) : Tree → Prop
  | self : Subtree root root
  | child {m : MachineInfo} {children : List (Child Tree)} {ch : Child Tree} :
      Subtree root (.machine m children) → ch ∈ children → Subtree root ch.state
  | region {oid : Nat} {first r : Region Tree} {rest : List (Region Tree)} :
      Subtree root (.parallel oid first rest) → r ∈ first :: rest → Subtree root r.state
  | inner {r : RetryInfo} {inner : Tree} : Subtree root (.retry r inner) → Subtree root inner

theorem WellFormed.subtree {root s : Tree} (hwf : WellFormed root) (h : Subtree root s) :
    WellFormed s := by
  induction h with
  | self => exact hwf
  | child _ hch ih =>
      cases ih with
      | machine _ hall => exact hall _ hch
  | region _ hr ih =>
      cases ih with
      | parallel _ hall => exact hall _ hr
  | inner _ ih =>
      cases ih with
      | retry hin => exact hin

/-! ## Typing -/

/-- The state whose `execute` a thread with this base and these waiting frames is in. -/
inductive Awaits (root : Tree) : Base → List Frame → Tree → Prop
  | caller (k : Caller) : Awaits root (.caller k) [] root
  | runner {p : Nat} {r : Region Tree} : Subtree root r.state → Awaits root (.runner p r) [] r.state
  | machine {b : Base} {stack : List Frame} {f : MachineFrame} {ch : Child Tree}
      {parentPath : String} : Awaits root b stack (.machine f.info f.children) →
      ch ∈ f.children → Awaits root b (.machine f ch parentPath :: stack) ch.state
  | retry {b : Base} {stack : List Frame} {f : RetryFrame} :
      Awaits root b stack (.retry f.info f.inner) → Awaits root b (.retry f :: stack) f.inner

/-- The exceptions a run of a well-formed tree may raise: `CancelledError` with the token of
the run set, and the visit cap of one of its machines. -/
inductive Allowed (root : Tree) (token : Option Nat) (c : Config) : Exc → Prop
  | cancelled {tok : Nat} : token = some tok → tok ∈ c.requested → Allowed root token c .cancelled
  | visitCap {m : MachineInfo} {children : List (Child Tree)} :
      Subtree root (.machine m children) → Allowed root token c (.visitCap m.className)

/-- What an `execute` of `s` may end with. -/
def ResultOk (root : Tree) (token : Option Nat) (c : Config) (s : Tree) : Result → Prop
  | .ok o => o ∈ s.outcomes
  | .error e => Allowed root token c e

/-- What a thread in an `execute` of `s` may be doing. -/
def ControlOk (root : Tree) (token : Option Nat) (c : Config) (s : Tree) : Control → Prop
  | .exec s' => s' = s
  | .leaf l => s = .leaf l
  | .loop f => s = .machine f.info f.children ∧ f.current ∈ childNames f.children
  | .checked f => s = .machine f.info f.children ∧ f.current ∈ childNames f.children
  | .par p _ => ∃ oid inst, c.pars[p]? = some inst ∧ s = .parallel oid inst.first inst.rest
  | .done r => ResultOk root token c s r
  | .closing => True
  | .dead => True
  | .finished r => ResultOk root token c root r

structure ThreadOk (root : Tree) (token : Option Nat) (c : Config) (t : Thread) : Prop where
  state : ∃ s, Awaits root t.base t.stack s ∧ ControlOk root token c s t.control
  ctx : t.ctx.token = none ∨ t.ctx.token = token
  region : ∀ (p : Nat) (r : Region Tree), t.base = .runner p r →
    ∃ inst, c.pars[p]? = some inst ∧ r ∈ inst.regions

structure ParOk (root : Tree) (token : Option Nat) (c : Config) (inst : ParInst) : Prop where
  parallel : ∃ oid, Subtree root (.parallel oid inst.first inst.rest)
  winner : ∀ v, inst.winner = some v → v ∈ parallelOutcomes inst.regions
  errors : ∀ e ∈ inst.errors, Allowed root token c e.2

structure Typed (root : Tree) (token : Option Nat) (c : Config) : Prop where
  threads : ∀ (i : Nat) (t : Thread), c.threads[i]? = some t → ThreadOk root token c t
  pars : ∀ (p : Nat) (inst : ParInst), c.pars[p]? = some inst → ParOk root token c inst

/-- The leaf that thread `i` is in. -/
def Config.leaf? (c : Config) (i : Nat) : Option Leaf :=
  match c.threads[i]? with
  | some t =>
      match t.control with
      | .leaf l => some l
      | _ => none
  | none => none

/-- The leaf returns one of its declared outcomes. -/
def Leaf.declares (l : Leaf) : Result → Bool
  | .ok o => decide (o ∈ l.outcomes)
  | .error _ => false

/-- A leaf ends by returning one of its declared outcomes. -/
def LeafDeclared (c : Config) : Act → Prop
  | .leaf i (.finish r) => (c.leaf? i).all (·.declares r) = true
  | _ => True

instance (c : Config) : (a : Act) → Decidable (LeafDeclared c a)
  | .leaf i (.finish r) =>
      inferInstanceAs (Decidable ((c.leaf? i).all (·.declares r) = true))
  | .leaf _ .poll => isTrue trivial
  | .thread _ => isTrue trivial
  | .request _ => isTrue trivial

section Typing

variable {root s : Tree} {token : Option Nat} {c c' : Config} {i : Nat} {t t' : Thread}
  {a : Act} {eff : Effect} {es tr : List Event}

theorem Awaits.subtree {b : Base} {stack : List Frame} (h : Awaits root b stack s) :
    Subtree root s := by
  induction h with
  | caller _ => exact .self
  | runner hr => exact hr
  | machine _ hch ih => exact ih.child hch
  | retry _ ih => exact ih.inner

theorem Awaits.of_machine {b : Base} {stack : List Frame} {f : MachineFrame} {ch : Child Tree}
    {parentPath : String} (h : Awaits root b (.machine f ch parentPath :: stack) s) :
    Awaits root b stack (.machine f.info f.children) ∧ ch ∈ f.children ∧ s = ch.state := by
  cases h with
  | machine hb hch => exact ⟨hb, hch, rfl⟩

theorem Awaits.of_retry {b : Base} {stack : List Frame} {f : RetryFrame}
    (h : Awaits root b (.retry f :: stack) s) :
    Awaits root b stack (.retry f.info f.inner) ∧ s = f.inner := by
  cases h with
  | retry hb => exact ⟨hb, rfl⟩

theorem Awaits.of_caller {k : Caller} (h : Awaits root (.caller k) [] s) : s = root := by
  cases h with
  | caller _ => rfl

theorem Awaits.of_runner {p : Nat} {r : Region Tree} (h : Awaits root (.runner p r) [] s) :
    s = r.state := by
  cases h with
  | runner _ => rfl

theorem LeafDeclared.exists_outcome {l : Leaf} {r : Result}
    (h : LeafDeclared c (.leaf i (.finish r))) (hi : c.threads[i]? = some t)
    (hc : t.control = .leaf l) : ∃ o ∈ l.outcomes, r = .ok o := by
  have h' : l.declares r = true := by simpa [LeafDeclared, Config.leaf?, hi, hc] using h
  cases r with
  | ok o => exact ⟨o, of_decide_eq_true h', rfl⟩
  | error e => cases h'

/-! ## Later configurations -/

/-- `c'` comes later than `c`: tokens stay set and `Parallel` executions keep their regions. -/
structure Later (c c' : Config) : Prop where
  requested : ∀ tok ∈ c.requested, tok ∈ c'.requested
  pars : ∀ (p : Nat) (inst : ParInst), c.pars[p]? = some inst →
    ∃ inst', c'.pars[p]? = some inst' ∧ inst'.first = inst.first ∧ inst'.rest = inst.rest

theorem Later.commit (c : Config) (i : Nat) (t' : Thread) (eff : Effect) :
    Later c (c.commit i t' eff) where
  requested tok h := by rwa [commit_requested]
  pars p inst hp := by
    have hreg := onPar_regions eff c.threads.length p inst
    simp only [ParInst.regions, List.cons.injEq] at hreg
    exact ⟨_, commit_pars_of_some hp, hreg⟩

theorem Allowed.later {e : Exc} (h : Allowed root token c e) (hl : Later c c') :
    Allowed root token c' e := by
  cases h with
  | cancelled htok hr => exact .cancelled htok (hl.requested _ hr)
  | visitCap hs => exact .visitCap hs

theorem ResultOk.later {r : Result} (h : ResultOk root token c s r) (hl : Later c c') :
    ResultOk root token c' s r := by
  cases r with
  | ok o => exact h
  | error e => exact Allowed.later h hl

theorem ControlOk.later {k : Control} (h : ControlOk root token c s k) (hl : Later c c') :
    ControlOk root token c' s k := by
  cases k with
  | par p phase =>
      obtain ⟨oid, inst, hp, rfl⟩ := h
      obtain ⟨inst', hp', hf, hr⟩ := hl.pars p inst hp
      exact ⟨oid, inst', hp', by rw [hf, hr]⟩
  | done r => exact ResultOk.later h hl
  | finished r => exact ResultOk.later h hl
  | _ => exact h

theorem ThreadOk.later (h : ThreadOk root token c t) (hl : Later c c') :
    ThreadOk root token c' t where
  state := by
    obtain ⟨s, hs, hc⟩ := h.state
    exact ⟨s, hs, hc.later hl⟩
  ctx := h.ctx
  region p r hb := by
    obtain ⟨inst, hp, hr⟩ := h.region p r hb
    obtain ⟨inst', hp', hf, hrest⟩ := hl.pars p inst hp
    refine ⟨inst', hp', ?_⟩
    simpa only [ParInst.regions, hf, hrest] using hr

theorem ParOk.later {inst : ParInst} (h : ParOk root token c inst) (hl : Later c c') :
    ParOk root token c' inst :=
  ⟨h.parallel, h.winner, fun e he => (h.errors e he).later hl⟩

/-! ## Containers -/

/-- What a machine does with a declared outcome of a child, if its table is complete. -/
theorem afterChild_ok {f : MachineFrame} {ch : Child Tree} {o : String}
    (hm : MachineComplete f.info f.children) (hch : ch ∈ f.children)
    (ho : o ∈ ch.state.outcomes) :
    ControlOk root token c (.machine f.info f.children) (afterChild f ch o) := by
  -- of the five ways out, completeness leaves the terminal outcome and the next child
  have hsome := hm.covered ch hch o ho
  rcases afterChild_cases f ch o with
    ⟨hn, -⟩ | ⟨-, hn, -⟩ | ⟨target, -, hl, ⟨ht, h⟩ | ⟨-, ht, h⟩ | ⟨ht, ht', -⟩⟩
  · exact absurd ho hn
  · rw [hn] at hsome
    cases hsome
  · rw [h]
    exact ht
  · rw [h]
    exact ⟨rfl, ht⟩
  · rcases hm.closed ch hch _ (mem_of_lookup hl) with h | h
    · exact absurd h ht'
    · exact absurd h ht

/-- A region of a well-formed `Parallel` makes its mapped outcome the winner. -/
theorem ParOk.runnerSection {inst : ParInst} {r : Region Tree} {res : Result}
    (hwf : WellFormed root) (h : ParOk root token c inst) (hr : r ∈ inst.regions)
    (hres : ResultOk root token c r.state res) :
    ParOk root token c (inst.runnerSection r res) := by
  cases res with
  | error e =>
      refine ⟨h.parallel, h.winner, fun e' he' => ?_⟩
      rcases List.mem_append.mp he' with he' | he'
      · exact h.errors e' he'
      · obtain rfl := List.mem_singleton.mp he'
        exact hres
  | ok raw =>
      cases hw : inst.winner with
      | some v =>
          simp only [ParInst.runnerSection, hw]
          exact h
      | none =>
          obtain ⟨oid, hsub⟩ := h.parallel
          cases hwf.subtree hsub with
          | parallel hmap _ =>
              -- the region maps every outcome its state declares
              obtain ⟨v, hv⟩ := Option.isSome_iff_exists.mp (hmap r hr raw hres)
              simp only [ParInst.runnerSection, hw, hv]
              refine ⟨⟨oid, hsub⟩, fun v' hv' => ?_, h.errors⟩
              obtain rfl := Option.some.inj hv'
              exact lookup_mem_parallelOutcomes hr hv

/-- A token that a thread sees set is the token of the run. -/
theorem ThreadOk.allowed_cancelled (h : ThreadOk root token c t)
    (hq : c.isCancellationRequested t.ctx = true) : Allowed root token c .cancelled := by
  obtain ⟨tok, htok, hmem⟩ := (isCancellationRequested_iff c t.ctx).mp hq
  rcases h.ctx with hn | hn
  · rw [hn] at htok
    cases htok
  · exact .cancelled (hn.symm.trans htok) hmem

/-! ## Preservation -/

/-- The state a thread awaits and what its control may be. -/
def InState (root : Tree) (token : Option Nat) (c : Config) (t : Thread) : Prop :=
  ∃ s, Awaits root t.base t.stack s ∧ ControlOk root token c s t.control

section StateOk

variable {s s' : Tree} {f : MachineFrame} {res : Result} {p : Nat} {phase : ParPhase}

theorem ThreadStep.exec_ok (hwf : WellFormed root) (haw : Awaits root t.base t.stack s)
    (hctl : ControlOk root token c s t.control) (hx : t.control = .exec s')
    (hs : ThreadStep c i t a t' eff es) : InState root token (c.commit i t' eff) t' := by
  cases hs with
  | execLeaf hc =>
      rw [hc] at hctl
      exact ⟨s, haw, hctl.symm⟩
  -- a complete machine has an initial state
  | noChildren hc hm =>
      rw [hc] at hctl
      obtain rfl := hctl
      cases hwf.subtree haw.subtree with
      | machine hcomp _ =>
          obtain ⟨s, hs, -⟩ := hcomp.initial
          rw [hm] at hs
          cases hs
  | execMachine hc hm =>
      rw [hc] at hctl
      obtain rfl := hctl
      cases hwf.subtree haw.subtree with
      | machine hcomp _ =>
          obtain ⟨s, hs, hmem⟩ := hcomp.initial
          obtain rfl := Option.some.inj (hm.symm.trans hs)
          exact ⟨_, haw, rfl, hmem⟩
  | execParallel hc =>
      rw [hc] at hctl
      obtain rfl := hctl
      exact ⟨_, haw, _, ⟨_, _, [], none, []⟩, by simp [Config.commit], rfl⟩
  | execRetry hc =>
      rw [hc] at hctl
      obtain rfl := hctl
      exact ⟨_, .retry haw, rfl⟩
  | _ => simp_all

theorem ThreadStep.leaf_ok {l : Leaf} (hi : c.threads[i]? = some t) (hP : LeafDeclared c a)
    (haw : Awaits root t.base t.stack s) (hctl : ControlOk root token c s t.control)
    (hx : t.control = .leaf l) (hs : ThreadStep c i t a t' eff es) :
    InState root token (c.commit i t' eff) t' := by
  cases hs with
  | leafPoll hc => exact ⟨s, haw, hctl.later (Later.commit c i t .none)⟩
  | leafFinish hc =>
      obtain ⟨o, ho, rfl⟩ := hP.exists_outcome hi hc
      rw [hc] at hctl
      obtain rfl := hctl
      exact ⟨_, haw, ho⟩
  | _ => simp_all

/-- The steps at the top of the loop of a machine. -/
theorem ThreadStep.loop_ok (hok : ThreadOk root token c t) (haw : Awaits root t.base t.stack s)
    (hctl : ControlOk root token c s t.control) (hx : t.control = .loop f)
    (hs : ThreadStep c i t a t' eff es) : InState root token (c.commit i t' eff) t' := by
  cases hs with
  | visitCap hc _ =>
      rw [hc] at hctl
      obtain ⟨rfl, -⟩ := hctl
      exact ⟨_, haw, .visitCap haw.subtree⟩
  | machineCancelled hc _ hq =>
      exact ⟨s, haw, (hok.allowed_cancelled hq).later (Later.commit c i _ .none)⟩
  | checkPassed hc _ _ =>
      rw [hc] at hctl
      exact ⟨s, haw, hctl⟩
  | _ => simp_all

/-- The steps behind the cancellation check of a machine, whose `current` is the name of a child. -/
theorem ThreadStep.checked_ok (haw : Awaits root t.base t.stack s)
    (hctl : ControlOk root token c s t.control) (hx : t.control = .checked f)
    (hs : ThreadStep c i t a t' eff es) : InState root token (c.commit i t' eff) t' := by
  cases hs with
  | missingChild hc hf =>
      rw [hc] at hctl
      have := findChild_isSome.mpr hctl.2
      rw [hf] at this
      cases this
  | startChild hc hf =>
      rw [hc] at hctl
      obtain ⟨rfl, -⟩ := hctl
      exact ⟨_, .machine haw (findChild_mem hf), rfl⟩
  | _ => simp_all

/-- The steps behind an `execute` that is over: the frame goes on, or who called the outermost
`execute`. -/
theorem ThreadStep.done_ok (hwf : WellFormed root) (haw : Awaits root t.base t.stack s)
    (hctl : ControlOk root token c s t.control) (hx : t.control = .done res)
    (hs : ThreadStep c i t a t' eff es) : InState root token (c.commit i t' eff) t' := by
  have hlater := Later.commit c i t' eff
  cases hs with
  | childReturned hc hst =>
      rw [hst] at haw
      rw [hc] at hctl
      obtain ⟨hbelow, hch, rfl⟩ := haw.of_machine
      cases hwf.subtree hbelow.subtree with
      | machine hcomp _ => exact ⟨_, hbelow, afterChild_ok hcomp hch hctl⟩
  | childRaised hc hst =>
      rw [hst] at haw
      rw [hc] at hctl
      exact ⟨_, haw.of_machine.1, Allowed.later hctl hlater⟩
  | retryAgain hc hst _ =>
      rw [hst] at haw
      exact ⟨_, .retry haw.of_retry.1, rfl⟩
  | @retryOver f rest res hc hst _ =>
      rw [hst] at haw
      obtain ⟨hbelow, rfl⟩ := haw.of_retry
      rw [hc] at hctl
      refine ⟨_, hbelow, ControlOk.later ?_ hlater⟩
      -- a decorator declares the outcomes of its inner state
      show ControlOk root token c _ t.control
      rw [hc]
      cases res with
      | ok o => exact hctl
      | error e => exact hctl
  | executeOver hc hst hb =>
      rw [hc] at hctl
      have hroot : Awaits root (.caller .execute) [] s := by rwa [hb, hst] at haw
      rw [hroot.of_caller] at haw hctl
      exact ⟨root, haw, ResultOk.later hctl hlater⟩
  | @runOver res parentPath hc hst hb =>
      rw [hc] at hctl
      have hroot : Awaits root (.caller (.run parentPath)) [] s := by rwa [hb, hst] at haw
      rw [hroot.of_caller] at haw hctl
      exact ⟨root, haw, ResultOk.later hctl hlater⟩
  | runnerSection hc hst hb => exact ⟨s, haw, trivial⟩
  | _ => simp_all

/-- The steps of `_execute_first_wins`. -/
theorem ThreadStep.par_ok (hty : Typed root token c) (hinv : ParInv tr c)
    (hi : c.threads[i]? = some t) (haw : Awaits root t.base t.stack s)
    (hctl : ControlOk root token c s t.control) (hx : t.control = .par p phase)
    (hs : ThreadStep c i t a t' eff es) : InState root token (c.commit i t' eff) t' := by
  have hok := hty.threads i t hi
  have hlater := Later.commit c i t' eff
  -- what the execution that the thread is inside knows
  have hpar : ∀ {p : Nat} {inst : ParInst} {phase : ParPhase}, t.control = .par p phase →
      c.pars[p]? = some inst → ∃ oid, s = .parallel oid inst.first inst.rest := by
    intro p inst phase hc hp
    rw [hc] at hctl
    obtain ⟨oid, inst', hp', rfl⟩ := hctl
    exact ⟨oid, by rw [Option.some.inj (hp'.symm.trans hp)]⟩
  have hwon : ∀ {p : Nat} {inst : ParInst} {phase : ParPhase} {v : String},
      t.control = .par p phase → c.pars[p]? = some inst → inst.winner = some v →
      v ∈ s.outcomes := by
    intro p inst phase v hc hp hw
    obtain ⟨oid, rfl⟩ := hpar hc hp
    exact (hty.pars p inst hp).winner v hw
  cases hs with
  | startRegion hc hp =>
      rw [hc] at hctl
      exact ⟨s, haw, ControlOk.later (k := .par _ (.starting _)) hctl hlater⟩
  | allStarted hc hp =>
      rw [hc] at hctl
      exact ⟨s, haw, hctl⟩
  | pollWon hc hp hw => exact ⟨s, haw, hwon hc hp hw⟩
  | pollNone hc hp hw =>
      rw [hc] at hctl
      exact ⟨s, haw, hctl⟩
  | allDead hc hp hd =>
      rw [hc] at hctl
      exact ⟨s, haw, hctl⟩
  | someAlive hc hp hd =>
      rw [hc] at hctl
      exact ⟨s, haw, hctl⟩
  | parCancelled hc hp hq => exact ⟨s, haw, (hok.allowed_cancelled hq).later hlater⟩
  | pollAgain hc hp hq =>
      rw [hc] at hctl
      exact ⟨s, haw, hctl⟩
  | finalWon hc hp hw => exact ⟨s, haw, hwon hc hp hw⟩
  -- the error that is raised was recorded for a region
  | finalError hc hp _ he =>
      have := (hty.pars _ _ hp).errors _ (he ▸ List.mem_cons_self)
      exact ⟨s, haw, Allowed.later this hlater⟩
  | finalNone hc hp hw he => exact absurd he (hinv.errors_ne_nil hi hc hp hw)
  | _ => simp_all

/-- A thread ends; one that has ended makes no step. -/
theorem ThreadStep.ended_ok (haw : Awaits root t.base t.stack s)
    (hx : t.control = .closing ∨ t.control = .dead ∨ ∃ res, t.control = .finished res)
    (hs : ThreadStep c i t a t' eff es) : InState root token (c.commit i t' eff) t' := by
  cases hs with
  | threadEnds hc => exact ⟨s, haw, trivial⟩
  | _ => simp_all

end StateOk

/-- The state a thread awaits and what its control may be, after a step of the thread. -/
theorem ThreadStep.state_ok (hwf : WellFormed root) (hty : Typed root token c)
    (hinv : ParInv tr c) (hi : c.threads[i]? = some t) (hP : LeafDeclared c a)
    (hs : ThreadStep c i t a t' eff es) : InState root token (c.commit i t' eff) t' := by
  have hok := hty.threads i t hi
  -- `s` is the state the thread is in before the step
  obtain ⟨s, haw, hctl⟩ := hok.state
  cases hx : t.control with
  | exec s' => exact hs.exec_ok hwf haw hctl hx
  | leaf l => exact hs.leaf_ok hi hP haw hctl hx
  | loop f => exact hs.loop_ok hok haw hctl hx
  | checked f => exact hs.checked_ok haw hctl hx
  | par p phase => exact hs.par_ok hty hinv hi haw hctl hx
  | done res => exact hs.done_ok hwf haw hctl hx
  | closing => exact hs.ended_ok haw (Or.inl hx)
  | dead => exact hs.ended_ok haw (Or.inr (Or.inl hx))
  | finished res => exact hs.ended_ok haw (Or.inr (Or.inr ⟨res, hx⟩))

/-- A step of a thread sets no context token, it clears it at most. -/
theorem ThreadStep.token_eq (hs : ThreadStep c i t a t' eff es) :
    t'.ctx.token = t.ctx.token ∨ t'.ctx.token = none := by
  cases hs with
  | runOver hc hst hb => exact Or.inr rfl
  | _ => exact Or.inl rfl

/-- The thread of a region that a step has just started. -/
theorem Typed.spawned {p : Nat} {r : Region Tree} (hty : Typed root token c) (hinv : ParInv tr c)
    (hi : c.threads[i]? = some t) (hs : ThreadStep c i t a t' (.spawn p r) es) :
    ThreadOk root token c (regionThread p r) := by
  obtain ⟨rest, hc, -⟩ := hs.of_spawn
  obtain ⟨inst, hp, hdrop⟩ := hinv.phase i t p _ hi hc
  have hr : r ∈ inst.regions := by
    have hmem : r ∈ inst.regions.drop inst.threads.length := by
      rw [show inst.regions.drop inst.threads.length = r :: rest from hdrop]
      exact List.mem_cons_self
    exact List.mem_of_mem_drop hmem
  obtain ⟨oid, hsub⟩ := (hty.pars p inst hp).parallel
  refine ⟨⟨r.state, .runner (hsub.region hr), rfl⟩, Or.inl rfl, ?_⟩
  intro q r' hb
  obtain ⟨rfl, rfl⟩ : p = q ∧ r = r' := by simpa [regionThread] using hb
  exact ⟨inst, hp, hr⟩

/-- What the effect of a step makes of a `Parallel` execution that was there. -/
theorem Typed.onPar {p : Nat} {inst : ParInst} (hwf : WellFormed root) (hty : Typed root token c)
    (hi : c.threads[i]? = some t) (hs : ThreadStep c i t a t' eff es)
    (hp : c.pars[p]? = some inst) :
    ParOk root token (c.commit i t' eff) (eff.onPar c.threads.length p inst) := by
  have hlater := Later.commit c i t' eff
  have hok := (hty.pars p inst hp).later hlater
  cases eff with
  | spawn q r =>
      simp only [Effect.onPar]
      split
      · exact ⟨hok.parallel, hok.winner, hok.errors⟩
      · exact hok
  | runnerSection q r res =>
      simp only [Effect.onPar]
      split
      · rename_i hq
        subst hq
        cases hs with
        | runnerSection hc hst hb =>
            -- the runner's state has ended as it may, and the runner is one of `q`
            obtain ⟨s, haw, hctl⟩ := (hty.threads i t hi).state
            rw [hb, hst] at haw
            rw [hc] at hctl
            obtain rfl := haw.of_runner
            obtain ⟨inst', hq, hr⟩ := (hty.threads i t hi).region _ _ hb
            obtain rfl := Option.some.inj (hq.symm.trans hp)
            exact hok.runnerSection hwf hr (ResultOk.later hctl hlater)
      · exact hok
  | _ => exact hok

theorem Typed.step (hwf : WellFormed root) (hty : Typed root token c) (hinv : ParInv tr c)
    (hP : LeafDeclared c a) (h : Engine.step c a = some (c', es)) : Typed root token c' := by
  rcases step_cases h with ⟨tok, rfl, rfl, rfl⟩ | ⟨i, t, t', eff, hi, hs, rfl⟩
  · have hlater : Later c { c with requested := c.requested ++ [tok] } :=
      ⟨fun _ => List.mem_append_left _, fun p inst hp => ⟨inst, hp, rfl, rfl⟩⟩
    exact ⟨fun i t hi => (hty.threads i t hi).later hlater,
      fun p inst hp => (hty.pars p inst hp).later hlater⟩
  · have hlater := Later.commit c i t' eff
    constructor
    · intro j u hj
      rcases commit_threads_cases hi hj with ⟨-, rfl⟩ | ⟨-, hj'⟩ | ⟨p, r, rfl, -, rfl⟩
      · have hok := (hty.threads i t hi).later hlater
        refine ⟨hs.state_ok hwf hty hinv hi hP, ?_, ?_⟩
        · rcases hs.token_eq with htok | htok
          · rw [htok]
            exact hok.ctx
          · exact Or.inl htok
        · intro p r hb
          exact hok.region p r (hs.base_eq.symm.trans hb)
      · exact (hty.threads j u hj').later hlater
      · exact (hty.spawned hinv hi hs).later hlater
    · intro p inst hp
      rcases commit_pars_cases hp with ⟨inst₀, hp₀, rfl⟩ | ⟨first, rest, rfl, rfl, rfl⟩
      · exact hty.onPar hwf hi hs hp₀
      · -- a new execution: the thread is about to execute a `Parallel` of the tree
        cases hs with
        | @execParallel oid first rest hc =>
            obtain ⟨s, haw, hctl⟩ := (hty.threads i t hi).state
            rw [hc] at hctl
            obtain rfl := hctl
            exact ⟨⟨oid, haw.subtree⟩, nofun, nofun⟩

theorem Typed.start (root : Tree) (k : Caller) (ctx : Ctx) :
    Typed root ctx.token (.start root k ctx) where
  threads i t hi := by
    simp only [Config.start, List.getElem?_singleton] at hi
    split at hi
    · obtain rfl := Option.some.inj hi
      exact ⟨⟨root, .caller k, rfl⟩, Or.inr rfl, fun p r hb => by cases hb⟩
    · cases hi
  pars p inst hp := by simp [Config.start] at hp

/-- The typing holds in every run whose leaves return declared outcomes. -/
theorem Typed.run {k : Caller} {ctx : Ctx} (hwf : WellFormed root)
    (h : Run Engine.step LeafDeclared (.start root k ctx) tr c) : Typed root ctx.token c := by
  have := h.history (H := fun tr c => ParInv tr c ∧ Typed root ctx.token c)
    (fun _ _ _ _ _ hH hP hs => ⟨hH.1.step hs, hH.2.step hwf hH.1 hP hs⟩)
    ⟨ParInv.start root k ctx, Typed.start root k ctx⟩
  exact this.2

end Typing

end RobotTaskManager.Engine
