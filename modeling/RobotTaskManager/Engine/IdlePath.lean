import RobotTaskManager.Engine.Observer

set_option autoImplicit false

/-! # The active path between runs

Calls of `BehaviorSM.run`, one after the other, with all the threads that they start. The threads of
an abandoned region go on when their run is over, and with a machine inside they go on recording
paths: `active_path()` is not empty then although nothing runs. `active_path_idle_iff` says that
this is the only way: the path is empty whenever no run is in progress if and only if no thread
records a child at such a time.
-/

namespace RobotTaskManager.Engine

open Interleaving

/-! ## Runs in a row -/

/-- The runs of a process so far. A run is in progress from its call to the last write of its
`finally`. -/
structure Session where
  /-- The runs that have entered their root, with the threads they have started. -/
  runs : List Config
  /-- The call that has reset the path and not entered its root yet, and its context. -/
  entering : Option (RunCall × Ctx)
  requested : List Nat
  /-- `_GLOBAL_PATH`, which `active_path()` reads. -/
  globalPath : String

def Session.init : Session := ⟨[], none, [], ""⟩

/-- No run is in progress. -/
def Session.Idle (s : Session) : Prop :=
  s.entering = none ∧ ∀ c ∈ s.runs, c.result.isSome = true

instance (s : Session) : Decidable s.Idle :=
  match h : s.entering with
  | none => decidable_of_iff (∀ c ∈ s.runs, c.result.isSome = true) (by simp [Session.Idle, h])
  | some _ => isFalse (by simp [Session.Idle, h])

/-- What the runs share: the tokens and the recorded path. -/
def Session.view (s : Session) (c : Config) : Config :=
  { c with requested := s.requested, globalPath := s.globalPath }

inductive SessionAct
  /-- `run`, up to `reset_global_path()`. -/
  | call (r : RunCall) (ctx : Ctx)
  /-- `_observer.enter` of the root. -/
  | enterRoot
  | thread (k i : Nat)
  | leaf (k i : Nat) (a : LeafAct)
  | request (tok : Nat)

/-- A step of a thread, or a leaf, of the run `k`. -/
def Session.engineStep (s : Session) (k : Nat) (a : Act) : Option (Session × List Event) :=
  match s.runs[k]? with
  | none => none
  | some c =>
      match step (s.view c) a with
      | none => none
      | some (c', es) =>
          some ({ s with runs := s.runs.set k c', globalPath := c'.globalPath }, es)

def sessionStep (s : Session) : SessionAct → Option (Session × List Event)
  | .call r ctx =>
      if s.Idle then
        -- `HfsmError`: missing behavior_parameter(s)
        if r.missing ≠ [] then some (s, [])
        else some ({ s with entering := some (r, ctx), globalPath := "" }, [])
      else none
  | .enterRoot =>
      match s.entering with
      | none => none
      | some (r, ctx) =>
          match r.start ctx with
          | .error _ => none
          | .ok (c, es) =>
              some ({ s with
                  runs := s.runs ++ [c]
                  entering := none
                  globalPath := c.globalPath },
                es)
  | .thread k i => s.engineStep k (.thread i)
  | .leaf k i a => s.engineStep k (.leaf i a)
  | .request tok => some ({ s with requested := s.requested ++ [tok] }, [.request tok])

/-! ## What the threads record -/

/-- The path that the next step of a thread records: a machine's next child, or the machine when the
child is over, or nothing at the end of `run`. -/
def Thread.records (t : Thread) : Option String :=
  match t.control, t.stack, t.base with
  | .checked f, _, _ => (findChild f.children f.current).map fun _ => enterPath t.ctx.path f.current
  | .done _, .machine _ _ parentPath :: _, _ => some parentPath
  | .done _, [], .caller (.run _) => some ""
  | _, _, _ => none

/-- `active_path()` is empty while no run is in progress. -/
def IdlePathEmpty (s : Session) : Prop := s.Idle → s.globalPath = ""

/-- While no run is in progress, no thread that an earlier run has left behind records a child. -/
def QuietWhenIdle (s : Session) (a : SessionAct) : Prop :=
  s.Idle → ∀ (k i : Nat) (c : Config) (t : Thread) (p : String), a = .thread k i →
    s.runs[k]? = some c → c.threads[i]? = some t → t.records = some p → p = ""

section Steps

variable {s s' : Session} {c c' : Config} {i k : Nat} {t t' : Thread} {a : Act} {eff : Effect}
  {es : List Event}

theorem commit_globalPath (c : Config) (i : Nat) (t : Thread) (eff : Effect) :
    (c.commit i t eff).globalPath = eff.path?.getD c.globalPath := by
  cases eff <;> rfl

theorem ThreadStep.path_eq (hs : ThreadStep c i t a t' eff es) :
    (a = .thread i ∧ eff.path? = t.records) ∨ ((∃ b, a = .leaf i b) ∧ eff.path? = none) := by
  cases hs with
  | leafPoll hc => exact Or.inr ⟨⟨_, rfl⟩, rfl⟩
  | leafFinish hc => exact Or.inr ⟨⟨_, rfl⟩, rfl⟩
  | _ => exact Or.inl ⟨rfl, by simp_all [Thread.records, Effect.path?]⟩

/-- The thread `0` of a run is that of the caller of `BehaviorSM.run`. -/
def CalledByRun (c : Config) : Prop :=
  ∃ t parentPath, c.threads[0]? = some t ∧ t.base = .caller (.run parentPath)

theorem CalledByRun.step (h : CalledByRun c) (hst : Engine.step c a = some (c', es)) :
    CalledByRun c' := by
  obtain ⟨t₀, parentPath, ht₀, hb⟩ := h
  obtain ⟨t₁, ht₁, hbase⟩ := step_base hst ht₀
  exact ⟨t₁, parentPath, ht₁, hbase.trans hb⟩

/-- The last thing a run does is to clear the path. -/
theorem CalledByRun.clears (h : CalledByRun c) (hnone : c.result = none)
    (hst : Engine.step c a = some (c', es)) (hsome : c'.result.isSome = true) :
    c'.globalPath = "" := by
  obtain ⟨t₀, parentPath, ht₀, hb⟩ := h
  obtain ⟨res, hres⟩ := Option.isSome_iff_exists.mp hsome
  rcases step_cases hst with ⟨tok, rfl, rfl, rfl⟩ | ⟨i, t, t', eff, hi, hs, rfl⟩
  · cases hnone.symm.trans hres
  · obtain ⟨u, hu, hc⟩ := result_eq_some.mp hres
    obtain ⟨t₁, ht₁, hcases⟩ := commit_thread_cases hi ht₀ t' eff
    obtain rfl : u = t₁ := Option.some.inj (hu.symm.trans ht₁)
    rcases hcases with ⟨rfl, rfl, rfl⟩ | ⟨-, rfl⟩
    · obtain ⟨-, -, rfl⟩ := hs.restores hb hc
      rfl
    · cases hnone.symm.trans (result_eq_some.mpr ⟨u, ht₀, hc⟩)

/-! ## Between the runs -/

theorem engineStep_cases (h : s.engineStep k a = some (s', es)) :
    ∃ c c', s.runs[k]? = some c ∧ step (s.view c) a = some (c', es) ∧
      s' = { s with runs := s.runs.set k c', globalPath := c'.globalPath } := by
  unfold Session.engineStep at h
  cases hk : s.runs[k]? with
  | none => simp [hk] at h
  | some c =>
      cases hst : step (s.view c) a with
      | none => simp [hk, hst] at h
      | some q =>
          obtain ⟨c', es'⟩ := q
          simp only [hk, hst] at h
          obtain ⟨rfl, rfl⟩ := Prod.mk.inj (Option.some.inj h)
          exact ⟨c, c', rfl, hst, rfl⟩

/-- **The path between the runs.** A step of a run leaves the path empty while no run is in progress
exactly if it records no child at such a time. -/
theorem engineStep_idlePath (hrun : ∀ c ∈ s.runs, CalledByRun c) (hempty : IdlePathEmpty s)
    (h : s.engineStep k a = some (s', es)) :
    IdlePathEmpty s' ↔ (s.Idle → ∀ (i : Nat) (c : Config) (t : Thread) (p : String),
      a = .thread i → s.runs[k]? = some c → c.threads[i]? = some t → t.records = some p →
      p = "") := by
  obtain ⟨c, c', hk, hst, rfl⟩ := engineStep_cases h
  have hmem : c ∈ s.runs := List.mem_of_getElem? hk
  by_cases hidle : s.Idle
  · obtain ⟨res, hres⟩ := Option.isSome_iff_exists.mp (hidle.2 c hmem)
    have hidle' : Session.Idle
        { s with runs := s.runs.set k c', globalPath := c'.globalPath } := by
      refine ⟨hidle.1, fun d hd => ?_⟩
      rcases List.mem_or_eq_of_mem_set hd with hd | rfl
      · exact hidle.2 d hd
      · exact Option.isSome_of_eq_some (result_step (c := s.view c) hres hst)
    have hgood : IdlePathEmpty { s with runs := s.runs.set k c', globalPath := c'.globalPath } ↔
        c'.globalPath = "" := ⟨fun h => h hidle', fun h _ => h⟩
    rw [hgood]
    rcases step_cases hst with ⟨tok, rfl, rfl, rfl⟩ | ⟨i, t, t', eff, hi, hs, rfl⟩
    · exact iff_of_true (hempty hidle) (fun _ _ _ _ _ => nofun)
    · rw [commit_globalPath]
      show eff.path?.getD s.globalPath = "" ↔ _
      rw [hempty hidle]
      rcases hs.path_eq with ⟨rfl, hpath⟩ | ⟨⟨b, rfl⟩, hpath⟩
      · rw [hpath]
        constructor
        · rintro hp - j d u p hj hd hu hrec
          obtain rfl : i = j := Act.thread.inj hj
          obtain rfl : c = d := Option.some.inj (hk.symm.trans hd)
          obtain rfl : t = u := Option.some.inj (hi.symm.trans hu)
          rwa [hrec] at hp
        · intro h
          cases hrec : t.records with
          | none => rfl
          | some p => exact h hidle i c t p rfl hk hi hrec
      · rw [hpath]
        exact iff_of_true rfl (fun _ _ _ _ _ => nofun)
  -- the run that has been in progress ends with this step
  · refine iff_of_true (fun hidle' => ?_) (fun hi => absurd hi hidle)
    have hsome : c'.result.isSome = true :=
      hidle'.2 c' (List.mem_set (List.getElem?_eq_some_iff.mp hk).1 c')
    have hnone : c.result = none := by
      by_contra hne
      refine hidle ⟨hidle'.1, fun d hd => ?_⟩
      obtain ⟨j, hj⟩ := List.mem_iff_getElem?.mp hd
      by_cases hjk : k = j
      · subst hjk
        obtain rfl : c = d := Option.some.inj (hk.symm.trans hj)
        exact Option.isSome_iff_ne_none.mpr hne
      · refine hidle'.2 d (List.mem_of_getElem? (i := j) ?_)
        rw [List.getElem?_set_ne hjk, hj]
    exact CalledByRun.clears (c := s.view c) (hrun c hmem) hnone hst hsome

/-! ## All sessions -/

/-- All runs of the session have been called by `BehaviorSM.run`. -/
def AllCalledByRun (s : Session) : Prop := ∀ c ∈ s.runs, CalledByRun c

theorem AllCalledByRun.engineStep (h : AllCalledByRun s)
    (hengine : s.engineStep k a = some (s', es)) : AllCalledByRun s' := by
  obtain ⟨c, c', hk, hst, rfl⟩ := engineStep_cases hengine
  intro d hd
  rcases List.mem_or_eq_of_mem_set hd with hd | rfl
  · exact h d hd
  · exact CalledByRun.step (c := s.view c) (h c (List.mem_of_getElem? hk)) hst

/-- A call is rejected, or resets the path when no run is in progress. -/
theorem call_cases {r : RunCall} {ctx : Ctx} (h : sessionStep s (.call r ctx) = some (s', es)) :
    s' = s ∨ s' = { s with entering := some (r, ctx), globalPath := "" } := by
  unfold sessionStep at h
  by_cases hidle : s.Idle
  · by_cases hmissing : r.missing ≠ []
    · simp only [if_pos hidle, if_pos hmissing] at h
      exact Or.inl (Prod.mk.inj (Option.some.inj h)).1.symm
    · simp only [if_pos hidle, if_neg hmissing] at h
      exact Or.inr (Prod.mk.inj (Option.some.inj h)).1.symm
  · simp [hidle] at h

/-- Entering the root adds a run that is not over. -/
theorem enterRoot_cases (h : sessionStep s .enterRoot = some (s', es)) :
    ∃ root parentPath ctx, s' = { s with
      runs := s.runs ++ [.start root (.run parentPath) ctx]
      entering := none
      globalPath := ctx.path } := by
  unfold sessionStep at h
  cases hent : s.entering with
  | none => simp [hent] at h
  | some q =>
      obtain ⟨r, ctx⟩ := q
      cases hstart : r.start ctx with
      | error missing => simp [hent, hstart] at h
      | ok q =>
          obtain ⟨c, es'⟩ := q
          simp only [hent, hstart] at h
          obtain ⟨rfl, rfl⟩ := RunCall.start_ok hstart
          exact ⟨_, _, _, (Prod.mk.inj (Option.some.inj h)).1.symm⟩

theorem AllCalledByRun.step {b : SessionAct} (h : AllCalledByRun s)
    (hst : sessionStep s b = some (s', es)) : AllCalledByRun s' := by
  cases b with
  | call r ctx =>
      rcases call_cases hst with rfl | rfl
      · exact h
      · exact h
  | enterRoot =>
      obtain ⟨root, parentPath, ctx, rfl⟩ := enterRoot_cases hst
      intro c hc
      rcases List.mem_append.mp hc with hc | hc
      · exact h c hc
      · obtain rfl := List.mem_singleton.mp hc
        exact ⟨_, parentPath, rfl, rfl⟩
  | thread k i => exact h.engineStep hst
  | leaf k i b => exact h.engineStep hst
  | request tok =>
      obtain ⟨rfl, -⟩ := Prod.mk.inj (Option.some.inj hst)
      exact h

/-- What a step does to the path between the runs. -/
theorem idlePath_step_iff {b : SessionAct} (hrun : AllCalledByRun s) (hempty : IdlePathEmpty s)
    (hst : sessionStep s b = some (s', es)) : IdlePathEmpty s' ↔ QuietWhenIdle s b := by
  cases b with
  | call r ctx =>
      refine iff_of_true ?_ (fun _ _ _ _ _ _ => nofun)
      rcases call_cases hst with rfl | rfl
      · exact hempty
      · exact fun _ => rfl
  | enterRoot =>
      obtain ⟨root, parentPath, ctx, rfl⟩ := enterRoot_cases hst
      refine iff_of_true (fun hidle => ?_) (fun _ _ _ _ _ _ => nofun)
      -- the run that has been entered is not over
      have hover := hidle.2 _ (List.mem_append_right _ (List.mem_singleton_self _))
      cases hover
  | thread k i =>
      rw [engineStep_idlePath hrun hempty hst]
      constructor
      · rintro h hidle k' i' c t p hact hk hi hrec
        obtain ⟨rfl, rfl⟩ := SessionAct.thread.inj hact
        exact h hidle i c t p rfl hk hi hrec
      · rintro h hidle i' c t p hact hk hi hrec
        obtain rfl := Act.thread.inj hact
        exact h hidle k i c t p rfl hk hi hrec
  | leaf k i b =>
      rw [engineStep_idlePath hrun hempty hst]
      exact iff_of_true (fun _ _ _ _ _ => nofun) (fun _ _ _ _ _ _ => nofun)
  | request tok =>
      obtain ⟨rfl, -⟩ := Prod.mk.inj (Option.some.inj hst)
      exact iff_of_true hempty (fun _ _ _ _ _ _ => nofun)

end Steps

/-- **`active_path()` is empty when no run is in progress**, throughout a schedule of runs one after
the other and of all the threads that they start, exactly if no thread that an earlier run has left
behind records a child at such a time. -/
theorem active_path_idle_iff (as : List SessionAct) :
    Throughout sessionStep IdlePathEmpty .init as ↔ Obeys sessionStep QuietWhenIdle .init as := by
  refine throughout_iff_obeys (J := AllCalledByRun) (fun _ _ _ _ hrun _ hst => hrun.step hst)
    (fun _ _ _ _ hrun hempty hst => idlePath_step_iff hrun hempty hst) ?_ (fun _ => rfl)
  intro c hc
  cases hc

/-- A leaf and a machine side by side: the leaf wins. -/
def sideBySide : RunCall :=
  ⟨⟨0, "Patrol", .behaviorSM [], ["done"], some "work"⟩,
    [⟨"work", .parallel 1 ⟨"fast", .leaf ⟨2, "Step", ["ok"]⟩, [("ok", "done")]⟩
        [⟨"slow", .machine ⟨3, "Slow", .stateMachine, ["done"], some "step"⟩
          [⟨"step", .leaf ⟨4, "Step", ["ok"]⟩, [("ok", "done")]⟩], [("done", "done")]⟩],
      [("done", "done")]⟩],
    [], none, none⟩

/-- The run is over before the machine enters its child. -/
def slowRegion : List SessionAct :=
  [.call sideBySide .empty, .enterRoot, .thread 0 0, .thread 0 0, .thread 0 0, .thread 0 0,
    .thread 0 0, .thread 0 0, .thread 0 0, .thread 0 1, .leaf 0 1 (.finish (.ok "ok")),
    .thread 0 1, .thread 0 0, .thread 0 0, .thread 0 0,
    .thread 0 2, .thread 0 2, .thread 0 2]

theorem slowRegion_isSome : (runActs sessionStep anyStep .init slowRegion).isSome := by
  decide +kernel

/-- The child of the region is the active path, although no run is in progress. -/
theorem not_always_idlePathEmpty :
    ¬ ∀ as : List SessionAct, Throughout sessionStep IdlePathEmpty .init as := by
  intro h
  have hempty : IdlePathEmpty ((runActs sessionStep anyStep .init slowRegion).get
      slowRegion_isSome).1 :=
    (h slowRegion).of_runActs (Option.some_get slowRegion_isSome).symm
  have hidle : ((runActs sessionStep anyStep .init slowRegion).get slowRegion_isSome).1.Idle := by
    decide +kernel
  have hpath : ((runActs sessionStep anyStep .init slowRegion).get
      slowRegion_isSome).1.globalPath = "step" := by decide +kernel
  exact absurd (hpath.symm.trans (hempty hidle)) (by decide)

end RobotTaskManager.Engine
