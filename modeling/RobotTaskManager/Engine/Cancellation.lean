import RobotTaskManager.Engine.Parallel

set_option autoImplicit false

/-! # Cancellation of a run

`BehaviorSM.run` installs its `CancelToken` in the context of the thread that calls it. What
the tree does after `CancelToken.request()` is read off the trace of the run, split at the
request: `pre` before it, `post` after it (`Stopped`).

The token reaches only the thread that called `run`, since a new `threading.Thread` starts
with an empty context, and `RetryDecorator.execute` never looks at it. So the tree stops in
the runs whose steps meet `CancelHeard`: after the request no machine check and no leaf's poll
is made in a context without the token, and no retry decorator gets its retry outcome with
attempts left. `not_always_stopped` is about a run in which a region does both.
-/

namespace RobotTaskManager.Engine

open Interleaving

/-! ## What the trace says -/

/-- The child a machine of thread `i` starts: invocation, visit and name. -/
def Event.start? (i : Nat) : Event → Option (Nat × Nat × String)
  | .start j inv visit name => if j = i then some (inv, visit, name) else none
  | _ => none

/-- The children started by the machines of thread `i`. -/
def starts (i : Nat) (tr : List Event) : List (Nat × Nat × String) :=
  tr.filterMap (Event.start? i)

@[simp] theorem starts_observe (j : Nat) (ctx : Ctx) (i : Nat) (enter : Bool) (path : String)
    (o : Option String) : starts j (observe ctx i enter path o) = [] := by
  unfold observe
  split <;> rfl

@[simp] theorem starts_append (i : Nat) (tr tr' : List Event) :
    starts i (tr ++ tr') = starts i tr ++ starts i tr' :=
  List.filterMap_append

/-- The tree stops after a request that came between `pre` and `post`: the machines of each
thread start at most one child, whose check was passed before the request, retry decorators
start no further attempt, and every leaf that asks is told so. -/
structure Stopped (pre post : List Event) : Prop where
  one : ∀ i, (starts i post).length ≤ 1
  checked : ∀ (i inv visit : Nat) (name : String), Event.start i inv visit name ∈ post →
    Event.check i inv visit false ∈ pre
  attempts : ∀ i inv n : Nat, Event.attempt i inv n ∈ post → n = 1
  polls : ∀ (i : Nat) (seen : Bool), Event.poll i seen ∈ post → seen = true

/-! ## The condition -/

/-- The next step of the thread, or a poll of its leaf, asks `is_cancellation_requested`. -/
def Thread.readsToken (t : Thread) : Bool :=
  match t.control with
  | .loop f => decide (f.visits + 1 ≤ visitCap)
  | .leaf _ => true
  | _ => false

/-- A retry decorator gets its retry outcome with attempts left. -/
def Thread.retries (t : Thread) : Bool :=
  match t.control, t.stack with
  | .done (.ok o), .retry f :: _ =>
      decide (o = f.info.retryOutcome ∧ f.attempts ≤ f.info.maxRetries)
  | _, _ => false

/-- The next step of the thread does not ignore the token. -/
def Thread.hears (tok : Nat) (t : Thread) : Prop :=
  (t.readsToken = true → t.ctx.token = some tok) ∧ t.retries = false

instance (tok : Nat) (t : Thread) : Decidable (t.hears tok) :=
  inferInstanceAs (Decidable (_ ∧ _))

/-- No step of a thread and no poll of a leaf ignores the token. -/
def CancelHeard (tok : Nat) (c : Config) : Act → Prop
  | .thread i => ∀ t ∈ c.threads[i]?, t.hears tok
  | .leaf i .poll => ∀ t ∈ c.threads[i]?, t.hears tok
  | .leaf _ (.finish _) => True
  | .request _ => True

instance (tok : Nat) (c : Config) : (a : Act) → Decidable (CancelHeard tok c a)
  | .thread i => inferInstanceAs (Decidable (∀ t ∈ c.threads[i]?, t.hears tok))
  | .leaf i .poll => inferInstanceAs (Decidable (∀ t ∈ c.threads[i]?, t.hears tok))
  | .leaf _ (.finish _) => isTrue trivial
  | .request _ => isTrue trivial

/-! ## The request and after -/

section Steps

variable {c c' : Config} {i j : Nat} {t t' : Thread} {a : Act} {eff : Effect}
  {es tr pre post : List Event} {tok : Nat}

/-- A step starts at most one child, the one whose check its thread has passed. -/
theorem ThreadStep.starts_eq (hs : ThreadStep c i t a t' eff es) (j : Nat) :
    starts j es = [] ∨ ∃ f, j = i ∧ t.control = .checked f ∧ (∀ g, t'.control ≠ .checked g) ∧
      starts j es = [(f.inv, f.visits, f.current)] := by
  cases hs with
  | @startChild f ch hc hf =>
      have htail := starts_observe j t.ctx i true (enterPath t.ctx.path f.current) none
      by_cases hij : i = j
      · subst hij
        refine Or.inr ⟨f, rfl, hc, nofun, ?_⟩
        rw [starts, List.filterMap_cons_some (b := (f.inv, f.visits, f.current))
          (by simp [Event.start?])]
        rw [← starts, htail]
      · refine Or.inl ?_
        rw [starts, List.filterMap_cons_none (by simp [Event.start?, hij]), ← starts, htail]
  | childReturned hc hst => exact Or.inl (starts_observe ..)
  | childRaised hc hst => exact Or.inl (starts_observe ..)
  | runOver hc hst hb =>
      refine Or.inl ?_
      rw [starts_append, starts_observe]
      rfl
  | _ => exact Or.inl rfl

/-- A thread is past a check after a step only if it was before, or has just passed it. -/
theorem ThreadStep.checked_cases (hs : ThreadStep c i t a t' eff es) {f : MachineFrame}
    (hc : t'.control = .checked f) :
    ∃ g, t.control = .loop g ∧ g.visits + 1 ≤ Engine.visitCap ∧
      c.isCancellationRequested t.ctx = false ∧ f = { g with visits := g.visits + 1 } ∧
      es = [.check i g.inv (g.visits + 1) false] := by
  cases hs with
  | @checkPassed g hl hv hq =>
      cases hc
      exact ⟨g, hl, hv, hq, rfl, rfl⟩
  | leafPoll hl => exact absurd (hl.symm.trans hc) nofun
  | retryOver hl hst hn => exact absurd (hl.symm.trans hc) nofun
  | @childReturned g ch parentPath o rest hl hst =>
      rcases afterChild_done_or_loop g ch o with ⟨r, hr⟩ | ⟨g', hg⟩
      · exact absurd (hr.symm.trans hc) nofun
      · exact absurd (hg.symm.trans hc) nofun
  | _ => cases hc

/-- Every thread past a check has passed it in the trace. -/
def ChecksPassed (tr : List Event) (c : Config) : Prop :=
  ∀ (i : Nat) (t : Thread) (f : MachineFrame), c.threads[i]? = some t → t.control = .checked f →
    Event.check i f.inv f.visits false ∈ tr

theorem ChecksPassed.step (h : ChecksPassed tr c) (hst : Engine.step c a = some (c', es)) :
    ChecksPassed (tr ++ es) c' := by
  intro j u f hj hc
  rcases step_cases hst with ⟨tok, rfl, rfl, rfl⟩ | ⟨i, t, t', eff, hi, hs, rfl⟩
  · exact List.mem_append_left _ (h j u f hj hc)
  · rcases commit_threads_cases hi hj with ⟨rfl, rfl⟩ | ⟨-, hj'⟩ | ⟨p, r, -, -, rfl⟩
    · obtain ⟨g, -, -, -, rfl, rfl⟩ := hs.checked_cases hc
      exact List.mem_append_right _ List.mem_cons_self
    · exact List.mem_append_left _ (h j u f hj' hc)
    · cases hc

/-- What holds after the request: the token is set, and a thread still past a check has passed
it before the request and started nothing since. -/
structure AfterRequest (tok : Nat) (pre post : List Event) (c : Config) : Prop where
  requested : tok ∈ c.requested
  pending : ∀ (i : Nat) (t : Thread) (f : MachineFrame), c.threads[i]? = some t →
    t.control = .checked f → Event.check i f.inv f.visits false ∈ pre ∧ starts i post = []
  stopped : Stopped pre post

theorem ThreadStep.checked_of_start {inv visit : Nat} {name : String}
    (hs : ThreadStep c i t a t' eff es) (h : Event.start j inv visit name ∈ es) :
    ∃ f, j = i ∧ t.control = .checked f ∧ inv = f.inv ∧ visit = f.visits := by
  have hmem : (inv, visit, name) ∈ starts j es :=
    List.mem_filterMap.mpr ⟨_, h, by simp [Event.start?]⟩
  rcases hs.starts_eq j with hn | ⟨f, hji, hc, -, hn⟩
  · rw [hn] at hmem
    cases hmem
  · rw [hn, List.mem_singleton, Prod.mk.injEq, Prod.mk.injEq] at hmem
    exact ⟨f, hji, hc, hmem.1, hmem.2.1⟩

/-- A step that does not retry starts first attempts only. -/
theorem ThreadStep.attempt_one (hs : ThreadStep c i t a t' eff es)
    (hr : a = .thread i → t.retries = false) {inv n : Nat} (h : Event.attempt j inv n ∈ es) :
    n = 1 := by
  -- the observer is told about no attempt
  have hobs : ∀ ctx k enter path o, Event.attempt j inv n ∉ observe ctx k enter path o :=
    fun ctx k enter path o h => by cases mem_observe h
  cases hs with
  | execRetry hc =>
      obtain ⟨-, -, hn⟩ : j = i ∧ inv = t.nextInv ∧ n = 1 := by simpa using h
      exact hn
  | retryAgain hc hst ha => exact absurd (hr rfl) (by simp [Thread.retries, hc, hst, ha])
  | startChild hc hf => simp [hobs] at h
  | childReturned hc hst => exact absurd h (hobs _ _ _ _ _)
  | childRaised hc hst => exact absurd h (hobs _ _ _ _ _)
  | runOver hc hst hb => simp [hobs] at h
  | _ => simp at h

/-- A leaf that asks in a context with the requested token is told so. -/
theorem ThreadStep.poll_seen (hs : ThreadStep c i t a t' eff es) (hreq : tok ∈ c.requested)
    (hP : a = .leaf i .poll → t.hears tok) {seen : Bool} (h : Event.poll j seen ∈ es) :
    seen = true := by
  have hobs : ∀ ctx k enter path o, Event.poll j seen ∉ observe ctx k enter path o :=
    fun ctx k enter path o h => by cases mem_observe h
  cases hs with
  | leafPoll hc =>
      obtain ⟨-, rfl⟩ : j = i ∧ seen = c.isCancellationRequested t.ctx := by simpa using h
      -- the context of the leaf has the token, and the token is set
      have htok := (hP rfl).1 (by simp [Thread.readsToken, hc])
      exact (isCancellationRequested_iff c t.ctx).mpr ⟨tok, htok, hreq⟩
  | startChild hc hf => simp [hobs] at h
  | childReturned hc hst => exact absurd h (hobs _ _ _ _ _)
  | childRaised hc hst => exact absurd h (hobs _ _ _ _ _)
  | runOver hc hst hb => simp [hobs] at h
  | _ => simp at h

/-- Another request. -/
theorem AfterRequest.request (h : AfterRequest tok pre post c) (tok' : Nat) :
    AfterRequest tok pre (post ++ [.request tok'])
      { c with requested := c.requested ++ [tok'] } := by
  have hstarts : ∀ i, starts i (post ++ [.request tok']) = starts i post := by
    intro i
    rw [starts_append]
    exact List.append_nil _
  refine ⟨List.mem_append_left _ h.requested, ?_, ?_, ?_, ?_, ?_⟩
  · intro i t f hi hc
    rw [hstarts]
    exact h.pending i t f hi hc
  · intro i
    rw [hstarts]
    exact h.stopped.one i
  · intro i inv visit name hm
    exact h.stopped.checked i inv visit name (by simpa using hm)
  · intro i inv n hm
    exact h.stopped.attempts i inv n (by simpa using hm)
  · intro i seen hm
    exact h.stopped.polls i seen (by simpa using hm)

/-- A thread whose next step does not ignore the token passes no check any more. -/
theorem ThreadStep.not_checked (hs : ThreadStep c i t a t' eff es) (hreq : tok ∈ c.requested)
    (hhears : a = .thread i → t.hears tok) (f : MachineFrame) : t'.control ≠ .checked f := by
  intro hc
  obtain ⟨g, hl, hv, hq, -, -⟩ := hs.checked_cases hc
  have ha : a = .thread i := by
    cases hs with
    | leafPoll hl' => exact absurd (hl'.symm.trans hl) nofun
    | leafFinish hl' => exact absurd (hl'.symm.trans hl) nofun
    | _ => rfl
  -- the check would have seen the token
  have htok : t.ctx.token = some tok := (hhears ha).1 (by simpa [Thread.readsToken, hl] using hv)
  have hseen := (isCancellationRequested_iff c t.ctx).mpr ⟨tok, htok, hreq⟩
  rw [hq] at hseen
  cases hseen

/-- A step of a thread that does not ignore the token. -/
theorem AfterRequest.threadStep (h : AfterRequest tok pre post c) (hi : c.threads[i]? = some t)
    (hs : ThreadStep c i t a t' eff es) (hhears : a = .thread i ∨ a = .leaf i .poll → t.hears tok) :
    AfterRequest tok pre (post ++ es) (c.commit i t' eff) := by
  refine ⟨by rw [commit_requested]; exact h.requested, ?_, ?_, ?_, ?_, ?_⟩
  · intro j u f hj hc
    rcases commit_threads_cases hi hj with ⟨rfl, rfl⟩ | ⟨hji, hj'⟩ | ⟨p, r, -, -, rfl⟩
    · exact absurd hc (hs.not_checked h.requested (fun ha => hhears (Or.inl ha)) f)
    · obtain ⟨hcheck, hnone⟩ := h.pending j u f hj' hc
      refine ⟨hcheck, ?_⟩
      rw [starts_append, hnone]
      -- a step of another thread starts no child of `j`
      rcases hs.starts_eq j with hn | ⟨g, hji', -⟩
      · exact hn
      · exact absurd hji' hji
    · cases hc
  · intro j
    rw [starts_append, List.length_append]
    rcases hs.starts_eq j with hn | ⟨f, rfl, hc, -, hn⟩
    · rw [hn]
      exact h.stopped.one j
    · -- the first child since the request
      rw [hn, (h.pending j t f hi hc).2]
      exact Nat.le_refl 1
  · intro j inv visit name hm
    rcases List.mem_append.mp hm with hm | hm
    · exact h.stopped.checked j inv visit name hm
    · obtain ⟨f, rfl, hc, rfl, rfl⟩ := hs.checked_of_start hm
      exact (h.pending j t f hi hc).1
  · intro j inv n hm
    rcases List.mem_append.mp hm with hm | hm
    · exact h.stopped.attempts j inv n hm
    · exact hs.attempt_one (fun ha => (hhears (Or.inl ha)).2) hm
  · intro j seen hm
    rcases List.mem_append.mp hm with hm | hm
    · exact h.stopped.polls j seen hm
    · exact hs.poll_seen h.requested (fun ha => hhears (Or.inr ha)) hm

/-- The steps of a run after the request keep the tree stopped. -/
theorem AfterRequest.step (h : AfterRequest tok pre post c) (hP : CancelHeard tok c a)
    (hst : Engine.step c a = some (c', es)) : AfterRequest tok pre (post ++ es) c' := by
  rcases step_cases hst with ⟨tok', rfl, rfl, rfl⟩ | ⟨i, t, t', eff, hi, hs, rfl⟩
  · exact h.request tok'
  · apply h.threadStep hi hs
    rintro (rfl | rfl)
    · exact hP t hi
    · exact hP t hi

end Steps

/-! ## Runs -/

/-- **A run stops after a request, wherever it comes,** as long as no step ignores the
token. -/
theorem stopped_of_heard {root : Tree} {tok : Nat} {rootName : String} {observer : Bool}
    {pre post : List Event} {c c' : Config}
    (hpre : Run Engine.step anyStep (.startRun root tok rootName observer) pre c)
    (hpost : Run Engine.step (CancelHeard tok) { c with requested := c.requested ++ [tok] }
      post c') : Stopped pre post := by
  have hstart : ChecksPassed [] (.startRun root tok rootName observer) := by
    intro i t f hi hc
    simp only [Config.startRun, Config.start, List.getElem?_singleton] at hi
    split at hi
    · obtain rfl := Option.some.inj hi
      cases hc
    · cases hi
  -- up to the request: a thread past a check has passed it in `pre`
  have hpassed : ChecksPassed ([] ++ pre) c :=
    hpre.history (fun _ _ _ _ _ h _ hs => h.step hs) hstart
  have hafter : AfterRequest tok pre ([] ++ post) c' := hpost.history
    (fun _ _ _ _ _ h hP hs => h.step hP hs)
    ⟨List.mem_append_right _ List.mem_cons_self, fun i t f hi hc => ⟨hpassed i t f hi hc, rfl⟩,
      ⟨fun _ => Nat.zero_le 1, by simp, by simp, by simp⟩⟩
  exact hafter.stopped

/-- Two states one after the other. -/
def patrol : Tree :=
  .machine ⟨0, "Patrol", .behaviorSM [], ["done", "failed"], some "drive"⟩
    [⟨"drive", .leaf ⟨1, "DriveToPoseState", ["succeeded", "failed"]⟩,
      [("succeeded", "shoot"), ("failed", "failed")]⟩,
     ⟨"shoot", .leaf ⟨2, "CaptureImageState", ["succeeded", "failed"]⟩,
      [("succeeded", "done"), ("failed", "failed")]⟩]

/-- The request comes after the check for the first state: it is started, told that it is to
end, and nothing follows it. -/
theorem stopped_of_heard_patrol : ∃ (pre post : List Event) (c c' : Config),
    Run Engine.step anyStep (.startRun patrol 7 "patrol" false) pre c ∧
    Run Engine.step (CancelHeard 7) { c with requested := c.requested ++ [7] } post c' ∧
    starts 0 post = [(0, 1, "drive")] ∧ c'.result = some (.error .cancelled) ∧
    Stopped pre post := by
  have hpre : (runActs Engine.step anyStep (.startRun patrol 7 "patrol" false)
      [.thread 0, .thread 0]).isSome := by decide
  have hpost : (runActs Engine.step (CancelHeard 7)
      { ((runActs Engine.step anyStep (.startRun patrol 7 "patrol" false)
        [.thread 0, .thread 0]).get hpre).1 with requested := [] ++ [7] }
      [.thread 0, .thread 0, .leaf 0 .poll, .leaf 0 (.finish (.ok "succeeded")),
        .thread 0, .thread 0, .thread 0]).isSome := by rfl
  exact ⟨_, _, _, _, Run.of_isSome hpre, Run.of_isSome hpost, rfl, rfl,
    stopped_of_heard (Run.of_isSome hpre) (Run.of_isSome hpost)⟩

/-- A state that is tried again, in a region of a `Parallel`. -/
def regionRetry : Tree :=
  .machine ⟨0, "Survey", .behaviorSM [], ["done", "failed"], some "both"⟩
    [⟨"both", .parallel 1
        ⟨"shoot", .retry ⟨2, 3, "failed"⟩
            (.leaf ⟨3, "CaptureImageState", ["succeeded", "failed"]⟩),
          [("succeeded", "done"), ("failed", "failed")]⟩ [],
      [("done", "done"), ("failed", "failed")]⟩]

/-- A leaf in a region is told that no cancellation is requested, and when it fails it is
tried again. -/
theorem not_always_stopped : ¬ ∀ (root : Tree) (tok : Nat) (rootName : String)
    (observer : Bool) (pre post : List Event) (c c' : Config),
    Run Engine.step anyStep (.startRun root tok rootName observer) pre c →
    Run Engine.step anyStep { c with requested := c.requested ++ [tok] } post c' →
    c'.result = none → Stopped pre post := by
  intro h
  have hpre : (runActs Engine.step anyStep (.startRun regionRetry 7 "survey" false)
      [.thread 0, .thread 0, .thread 0, .thread 0, .thread 0,
        .thread 1, .thread 1]).isSome := by decide
  have hpost : (runActs Engine.step anyStep
      { ((runActs Engine.step anyStep (.startRun regionRetry 7 "survey" false)
        [.thread 0, .thread 0, .thread 0, .thread 0, .thread 0,
          .thread 1, .thread 1]).get hpre).1 with requested := [] ++ [7] }
      [.leaf 1 .poll, .leaf 1 (.finish (.ok "failed")), .thread 1]).isSome := by rfl
  have hstop := h regionRetry 7 "survey" false _ _ _ _ (Run.of_isSome hpre)
    (Run.of_isSome hpost) rfl
  have hpoll : Event.poll 1 false ∈ [Event.poll 1 false, Event.attempt 1 0 2] := by decide
  cases hstop.polls 1 false hpoll

end RobotTaskManager.Engine
