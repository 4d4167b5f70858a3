import RobotTaskManager.Engine.Soundness

set_option autoImplicit false

/-! # Which state a thread is in

At any time a thread is inside the `execute` of one state of the tree, and its stack is the way
from there up to the state it has begun with (`Placed`). This holds for every tree, complete or
not, and whatever its leaves do.
-/

namespace RobotTaskManager.Engine

open Interleaving

/-- What a thread in an `execute` of `s` may be doing, its results aside. -/
def StaysIn (c : Config) (s : Tree) : Control → Prop
  | .exec s' => s' = s
  | .leaf l => s = .leaf l
  | .loop f => s = .machine f.info f.children
  | .checked f => s = .machine f.info f.children
  | .par p phase => ∃ oid inst, c.pars[p]? = some inst ∧
      s = .parallel oid inst.first inst.rest ∧
      ∀ rest, phase = .starting rest → ∀ r ∈ rest, r ∈ inst.regions
  | _ => True

structure Placed (root : Tree) (c : Config) : Prop where
  thread : ∀ (i : Nat) (t : Thread), c.threads[i]? = some t →
    ∃ s, Awaits root t.base t.stack s ∧ StaysIn c s t.control
  runner : ∀ (i : Nat) (t : Thread) (p : Nat) (r : Region Tree), c.threads[i]? = some t →
    t.base = .runner p r → ∃ inst, c.pars[p]? = some inst ∧ r ∈ inst.regions
  par : ∀ (p : Nat) (inst : ParInst), c.pars[p]? = some inst →
    ∃ oid, Subtree root (.parallel oid inst.first inst.rest)

section Placement

variable {root s : Tree} {c c' : Config} {i : Nat} {t t' : Thread} {a : Act} {eff : Effect}
  {es : List Event}

theorem StaysIn.later {k : Control} (h : StaysIn c s k) (hl : Later c c') : StaysIn c' s k := by
  cases k with
  | par p phase =>
      obtain ⟨oid, inst, hp, rfl, hrest⟩ := h
      obtain ⟨inst', hp', hfirst, hrest'⟩ := hl.pars p inst hp
      refine ⟨oid, inst', hp', by rw [hfirst, hrest'], ?_⟩
      rw [ParInst.regions, hfirst, hrest']
      exact hrest
  | _ => exact h

theorem afterChild_staysIn (f : MachineFrame) (ch : Child Tree) (o : String) :
    StaysIn c (.machine f.info f.children) (afterChild f ch o) := by
  rcases afterChild_cases f ch o with
    ⟨-, h⟩ | ⟨-, -, h⟩ | ⟨target, -, -, ⟨-, h⟩ | ⟨-, -, h⟩ | ⟨-, -, h⟩⟩
  all_goals
    rw [h]
    trivial

/-- A step within an execution of a `Parallel` that does not start a thread. -/
theorem StaysIn.phase {p : Nat} {phase phase' : ParPhase} (h : StaysIn c s (.par p phase))
    (hphase : ∀ rest, phase' ≠ .starting rest) : StaysIn c s (.par p phase') := by
  obtain ⟨oid, inst, hp, hs, -⟩ := h
  exact ⟨oid, inst, hp, hs, fun rest heq => absurd heq (hphase rest)⟩

theorem Placed.threadStep (h : Placed root c) (hi : c.threads[i]? = some t)
    (hs : ThreadStep c i t a t' eff es) :
    ∃ s, Awaits root t'.base t'.stack s ∧ StaysIn (c.commit i t' eff) s t'.control := by
  have hlater := Later.commit c i t' eff
  -- `s` is the state the thread is in before the step
  obtain ⟨s, haw, hctl⟩ := h.thread i t hi
  have hcur {k : Control} (hc : t.control = k) : StaysIn c s k := hc ▸ hctl
  cases hs with
  | execLeaf hc => exact ⟨s, haw, (hcur hc).symm⟩
  | execMachine hc => exact ⟨s, haw, (hcur hc).symm⟩
  | execParallel hc =>
      refine ⟨s, haw, _, ⟨_, _, [], none, []⟩, by simp [Config.commit], (hcur hc).symm, ?_⟩
      intro rest heq r hr
      cases heq
      exact hr
  | execRetry hc =>
      obtain rfl := hcur hc
      exact ⟨_, .retry haw, rfl⟩
  | leafPoll hc => exact ⟨s, haw, hctl⟩
  | checkPassed hc => exact ⟨s, haw, hcur hc⟩
  | startChild hc hf =>
      obtain rfl := hcur hc
      exact ⟨_, .machine haw (findChild_mem hf), rfl⟩
  | childReturned hc hst =>
      rw [hst] at haw
      obtain ⟨haw, -, -⟩ := haw.of_machine
      exact ⟨_, haw, afterChild_staysIn _ _ _⟩
  | childRaised hc hst =>
      rw [hst] at haw
      obtain ⟨haw, -, -⟩ := haw.of_machine
      exact ⟨_, haw, trivial⟩
  | retryAgain hc hst ha =>
      rw [hst] at haw
      exact ⟨_, .retry haw.of_retry.1, rfl⟩
  | retryOver hc hst hn =>
      rw [hst] at haw
      refine ⟨_, haw.of_retry.1, ?_⟩
      show StaysIn _ _ t.control
      rw [hc]
      trivial
  | startRegion hc =>
      obtain ⟨oid, inst, hp, hs, hin⟩ := hcur hc
      refine ⟨s, haw, StaysIn.later (c := c) ⟨oid, inst, hp, hs, ?_⟩ hlater⟩
      intro rest' heq r hr
      cases heq
      exact hin _ rfl r (List.mem_cons_of_mem _ hr)
  | allStarted hc =>
      refine ⟨s, haw, ((hcur hc).phase ?_).later hlater⟩
      intro rest heq
      cases heq
  | pollNone hc =>
      refine ⟨s, haw, ((hcur hc).phase ?_).later hlater⟩
      intro rest heq
      cases heq
  | allDead hc =>
      refine ⟨s, haw, ((hcur hc).phase ?_).later hlater⟩
      intro rest heq
      cases heq
  | someAlive hc =>
      refine ⟨s, haw, ((hcur hc).phase ?_).later hlater⟩
      intro rest heq
      cases heq
  | pollAgain hc =>
      refine ⟨s, haw, ((hcur hc).phase ?_).later hlater⟩
      intro rest heq
      cases heq
  | _ => exact ⟨s, haw, trivial⟩

theorem Placed.step (h : Placed root c) (hst : Engine.step c a = some (c', es)) :
    Placed root c' := by
  rcases step_cases hst with ⟨tok, rfl, rfl, rfl⟩ | ⟨i, t, t', eff, hi, hs, rfl⟩
  · have hlater : Later c { c with requested := c.requested ++ [tok] } :=
      ⟨fun _ => List.mem_append_left _, fun p inst hp => ⟨inst, hp, rfl, rfl⟩⟩
    refine ⟨fun i t hi => ?_, h.runner, h.par⟩
    obtain ⟨s, haw, hctl⟩ := h.thread i t hi
    exact ⟨s, haw, hctl.later hlater⟩
  · have hlater := Later.commit c i t' eff
    have hregion {p : Nat} {r : Region Tree} (hr : ∃ inst, c.pars[p]? = some inst ∧
        r ∈ inst.regions) : ∃ inst, (c.commit i t' eff).pars[p]? = some inst ∧
        r ∈ inst.regions := by
      obtain ⟨inst, hp, hr⟩ := hr
      obtain ⟨inst', hp', hfirst, hrest⟩ := hlater.pars p inst hp
      refine ⟨inst', hp', ?_⟩
      rw [ParInst.regions, hfirst, hrest]
      exact hr
    -- the region of a thread that the step starts
    have hspawn {p : Nat} {r : Region Tree} (heff : eff = .spawn p r) :
        ∃ inst, c.pars[p]? = some inst ∧ r ∈ inst.regions := by
      subst heff
      obtain ⟨rest, hc, -⟩ := hs.of_spawn
      obtain ⟨s, -, hctl⟩ := h.thread i t hi
      rw [hc] at hctl
      obtain ⟨-, inst, hp, -, hin⟩ := hctl
      exact ⟨inst, hp, hin _ rfl r List.mem_cons_self⟩
    refine ⟨fun j u hj => ?_, fun j u p r hj hb => ?_, fun p inst hp => ?_⟩
    · rcases commit_threads_cases hi hj with ⟨-, rfl⟩ | ⟨-, hj'⟩ | ⟨p, r, heff, -, rfl⟩
      · exact h.threadStep hi hs
      · obtain ⟨s, haw, hctl⟩ := h.thread j u hj'
        exact ⟨s, haw, hctl.later hlater⟩
      · obtain ⟨inst, hp, hr⟩ := hspawn heff
        obtain ⟨oid, hsub⟩ := h.par p inst hp
        exact ⟨r.state, .runner (hsub.region hr), rfl⟩
    · rcases commit_threads_cases hi hj with ⟨-, rfl⟩ | ⟨-, hj'⟩ | ⟨q, r', heff, -, rfl⟩
      · exact hregion (h.runner i t p r hi (hs.base_eq.symm.trans hb))
      · exact hregion (h.runner j u p r hj' hb)
      · cases hb
        exact hregion (hspawn heff)
    · rcases commit_pars_cases hp with ⟨inst₀, hp₀, rfl⟩ | ⟨first, rest, rfl, rfl, rfl⟩
      · obtain ⟨oid, hsub⟩ := h.par p inst₀ hp₀
        obtain ⟨inst', hp', hfirst, hrest⟩ := hlater.pars p inst₀ hp₀
        obtain rfl := Option.some.inj (hp.symm.trans hp')
        exact ⟨oid, by rwa [hfirst, hrest]⟩
      -- a new execution: the thread is about to execute a `Parallel` of the tree
      · cases hs with
        | @execParallel oid first rest hc =>
            obtain ⟨s, haw, hctl⟩ := h.thread i t hi
            rw [hc] at hctl
            obtain rfl := hctl
            exact ⟨oid, haw.subtree⟩

theorem Placed.start (root : Tree) (k : Caller) (ctx : Ctx) :
    Placed root (.start root k ctx) where
  thread i t hi := by
    simp only [Config.start, List.getElem?_singleton] at hi
    split at hi
    · obtain rfl := Option.some.inj hi
      exact ⟨root, .caller k, rfl⟩
    · cases hi
  runner i t p r hi hb := by
    simp only [Config.start, List.getElem?_singleton] at hi
    split at hi
    · obtain rfl := Option.some.inj hi
      cases hb
    · cases hi
  par p inst hp := by simp [Config.start] at hp

end Placement

end RobotTaskManager.Engine
