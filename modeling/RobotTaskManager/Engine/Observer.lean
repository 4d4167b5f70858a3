import RobotTaskManager.Engine.Paths
import RobotTaskManager.Engine.Termination
import RobotTaskManager.Lib.Brackets

set_option autoImplicit false

/-! # What an observer sees of `BehaviorSM.run`

`RunCall.start` is `run` up to the call of `execute`. The observer is called with the contexts of
the threads, and the threads of regions have none installed, so all it sees comes from the thread
of the caller. An exception of the callback is dropped (`except Exception: pass`), so the call is
all there is of it.

The brackets that an observer has seen opened and not closed are those of the frames of the thread
(`openPaths`), and what it sees closed is the innermost one.
-/

namespace RobotTaskManager.Engine

open Interleaving Brackets

/-! ## The prologue of `run` -/

/-- A call of `BehaviorSM.run`. Of `behavior_parameter` only the keys are looked at. -/
structure RunCall where
  info : MachineInfo
  children : List (Child Tree)
  behaviorParameter : List String
  cancelToken : Option Nat
  rootName : Option String

/-- `[p for p in self.behavior_parameters if p not in behavior_parameter]` -/
def RunCall.missing (r : RunCall) : List String :=
  match r.info.kind with
  | .stateMachine => []
  | .behaviorSM parameters => parameters.filter fun p => p ∉ r.behaviorParameter

/-- `root_name or type(self).__name__` -/
def RunCall.segment (r : RunCall) : String :=
  match r.rootName with
  | none => r.info.className
  | some name => if name = "" then r.info.className else name

/-- `run` in the context of its caller, up to the call of `execute`: the `HfsmError` for missing
parameters, or the run with its token installed and its root entered, and the call of the
observer. -/
def RunCall.start (r : RunCall) (ctx : Ctx) : Except (List String) (Config × List Event) :=
  if r.missing ≠ [] then .error r.missing
  else
    .ok (.start (.machine r.info r.children) (.run ctx.path)
        ⟨r.cancelToken, enterPath ctx.path r.segment, ctx.observer⟩,
      observe ctx 0 true (enterPath ctx.path r.segment) none)

/-! ## Dotted paths -/

/-- The names of the children that the machines of a stack are in, the outermost one first. -/
def enclosing : List Frame → List String
  | [] => []
  | .machine f _ _ :: rest => enclosing rest ++ [f.current]
  | .retry _ :: rest => enclosing rest

theorem intercalate_concat (sep first last : String) (names : List String) :
    sep.intercalate (first :: (names ++ [last])) =
      sep.intercalate (first :: names) ++ sep ++ last := by
  induction names generalizing first with
  | nil =>
      rw [List.nil_append, String.intercalate_cons_cons, String.intercalate_singleton,
        String.intercalate_singleton]
  | cons name names ih =>
      rw [List.cons_append, String.intercalate_cons_cons, ih, String.intercalate_cons_cons]
      simp only [String.append_assoc]

/-- The path of a stack is the dot-join of the root and the names of the children. -/
theorem pathOf_eq_intercalate {root : String} (hroot : root ≠ "") (stack : List Frame) :
    pathOf root stack = ".".intercalate (root :: enclosing stack) := by
  induction stack with
  | nil => exact (String.intercalate_singleton).symm
  | cons f rest ih =>
      cases f with
      | machine f ch parentPath =>
          have hne : pathOf root rest ≠ "" := (begins_pathOf hroot rest).ne_empty hroot
          rw [pathOf, enterPath, if_neg hne, enclosing, intercalate_concat, ih]
      | retry f => exact ih

/-- A run is over when the thread of its caller is finished. -/
theorem result_eq_some {c : Config} {res : Result} :
    c.result = some res ↔ ∃ t, c.threads[0]? = some t ∧ t.control = .finished res := by
  unfold Config.result
  cases c.threads[0]? with
  | none => simp
  | some t => cases h : t.control <;> simp [h]

theorem result_step {c c' : Config} {a : Act} {es : List Event} {res : Result}
    (hres : c.result = some res) (hst : Engine.step c a = some (c', es)) :
    c'.result = some res := by
  obtain ⟨t₀, ht₀, hc⟩ := result_eq_some.mp hres
  rcases step_cases hst with ⟨tok, rfl, rfl, rfl⟩ | ⟨i, t, t', eff, hi, hs, rfl⟩
  · exact hres
  · have hne : 0 ≠ i := by
      rintro rfl
      obtain rfl : t₀ = t := Option.some.inj (ht₀.symm.trans hi)
      exact hs.not_finished res hc
    refine result_eq_some.mpr ⟨t₀, ?_, hc⟩
    rw [commit_threads_of_lt hi ht₀, if_neg hne]

/-! ## Brackets -/

/-- A call of the observer as a bracket. -/
def Event.bracket? : Event → Option (Paren String (Option String))
  | .observed _ true path _ => some (.opening path)
  | .observed _ false path outcome => some (.closing path outcome)
  | _ => none

/-- What the observer has seen. -/
def observations (tr : List Event) : List (Paren String (Option String)) :=
  tr.filterMap Event.bracket?

theorem observations_append (tr tr' : List Event) :
    observations (tr ++ tr') = observations tr ++ observations tr' :=
  List.filterMap_append

theorem observations_observe (ctx : Ctx) (i : Nat) (enter : Bool) (path : String)
    (o : Option String) : observations (observe ctx i enter path o) =
      if ctx.observer then [if enter then .opening path else .closing path o] else [] := by
  unfold observe
  cases ctx.observer <;> cases enter <;> rfl

/-- The paths of a stack, from the innermost child out to the root. -/
def stackPaths (root : String) : List Frame → List String
  | [] => [root]
  | .machine f ch parentPath :: rest =>
      pathOf root (.machine f ch parentPath :: rest) :: stackPaths root rest
  | .retry _ :: rest => stackPaths root rest

/-- The brackets that a thread has open. -/
def openPaths (root : String) (t : Thread) : List String :=
  match t.control with
  | .finished _ => []
  | _ => stackPaths root t.stack

theorem openPaths_of_not_finished {root : String} {t : Thread}
    (h : ∀ res, t.control ≠ .finished res) : openPaths root t = stackPaths root t.stack := by
  unfold openPaths
  split
  · rename_i res hc
    exact absurd hc (h res)
  · rfl

section Steps

variable {root : String} {c c' : Config} {i : Nat} {t t' : Thread} {a : Act} {eff : Effect}
  {es : List Event}

/-- What a step of a thread shows to an observer: nothing, and the thread stays where it is; the
child that it enters; or the child, or the root, that it is over with. -/
inductive Shown (root : String) (t t' : Thread) : List (Paren String (Option String)) → Prop
  | nothing : openPaths root t' = openPaths root t → Shown root t t' []
  | enter : t.ctx.observer = true →
      openPaths root t' = pathOf root t'.stack :: openPaths root t →
      Shown root t t' [.opening (pathOf root t'.stack)]
  | exit (res : Result) : t.ctx.observer = true → t.control = .done res →
      openPaths root t = t.ctx.path :: openPaths root t' →
      Shown root t t' [.closing t.ctx.path res.outcome?]

/-- A thread is finished by the step in which its outermost `execute` ends. -/
theorem ThreadStep.finished_cases (hs : ThreadStep c i t a t' eff es) :
    (∀ res, t'.control ≠ .finished res) ∨
      ∃ res k, t.control = .done res ∧ t.stack = [] ∧ t.base = .caller k ∧
        t'.control = .finished res := by
  have hrun := hs.not_finished
  cases hs with
  | executeOver hc hst hb => exact Or.inr ⟨_, _, hc, hst, hb, rfl⟩
  | runOver hc hst hb => exact Or.inr ⟨_, _, hc, hst, hb, rfl⟩
  | leafPoll hc => exact Or.inl hrun
  | retryOver hc hst hn => exact Or.inl hrun
  | @childReturned f ch parentPath o rest hc hst =>
      refine Or.inl fun res => ?_
      show afterChild f ch o ≠ _
      rcases afterChild_done_or_loop f ch o with ⟨r, h⟩ | ⟨f', h⟩
      · rw [h]
        nofun
      · rw [h]
        nofun
  | _ => exact Or.inl (fun _ => nofun)

/-- `run` leaves the path of its caller, no token and an empty recorded path behind. -/
theorem ThreadStep.restores (hs : ThreadStep c i t a t' eff es) {parentPath : String}
    (hbase : t.base = .caller (.run parentPath)) {res : Result}
    (hfin : t'.control = .finished res) :
    t'.ctx.path = parentPath ∧ t'.ctx.token = none ∧ eff = .path "" := by
  obtain ⟨res', k, hdone, hstack, -, -⟩ := hs.finished_cases.resolve_left fun h => h res hfin
  cases hs with
  | runOver hc hst hb =>
      obtain ⟨rfl⟩ := hbase.symm.trans hb
      exact ⟨rfl, rfl, rfl⟩
  | childReturned hc hst => cases hst.symm.trans hstack
  | childRaised hc hst => cases hst.symm.trans hstack
  | _ => simp_all

theorem ThreadStep.observer_eq (hs : ThreadStep c i t a t' eff es) :
    t'.ctx.observer = t.ctx.observer := by
  cases hs <;> rfl

/-- Without an observer in the context of the thread nothing is seen. -/
theorem ThreadStep.unseen (hs : ThreadStep c i t a t' eff es) (hobs : t.ctx.observer = false) :
    observations es = [] := by
  have hobserve : ∀ enter path o, observations (observe t.ctx i enter path o) = [] := by
    intro enter path o
    rw [observations_observe, hobs]
    exact if_neg Bool.false_ne_true
  cases hs with
  | startChild hc hf => exact hobserve true _ none
  | childReturned hc hst => exact hobserve false _ _
  | childRaised hc hst => exact hobserve false _ _
  | runOver hc hst hb =>
      rw [observations_append, hobserve]
      rfl
  | _ => rfl

/-- **What the observer of a run is shown** by a step of the thread that has called it. -/
theorem ThreadStep.shown (hs : ThreadStep c i t a t' eff es) {parentPath : String}
    (hbase : t.base = .caller (.run parentPath)) (hp : PathOk root t)
    (hobs : t.ctx.observer = true) : Shown root t t' (observations es) := by
  have hrun := hs.not_finished
  have hpath : t.ctx.path = pathOf root t.stack := hp.path hrun
  have hopen : openPaths root t = stackPaths root t.stack := openPaths_of_not_finished hrun
  have hframe : t.stack ≠ [] → ∀ res, t'.control ≠ .finished res := by
    intro hne
    rcases hs.finished_cases with h | ⟨_, _, -, h, -⟩
    · exact h
    · exact absurd h hne
  have hseen : ∀ enter path o, observations (observe t.ctx i enter path o) =
      [if enter then .opening path else .closing path o] := by
    intro enter path o
    rw [observations_observe, if_pos hobs]
  -- a step that is seen by nobody and leaves the stack with the same machines
  have hquiet : observations es = [] → stackPaths root t'.stack = stackPaths root t.stack →
      (∀ res, t'.control ≠ .finished res) → Shown root t t' (observations es) := by
    intro hes hstack hnot
    rw [hes]
    exact .nothing (by rw [openPaths_of_not_finished hnot, hopen, hstack])
  cases hs with
  | @startChild f ch hc hf =>
      have hshown : observations (.start i f.inv f.visits f.current ::
          observe t.ctx i true (enterPath t.ctx.path f.current) none) =
          [.opening (pathOf root (.machine f ch t.ctx.path :: t.stack))] := by
        rw [pathOf, ← hpath]
        exact hseen true _ none
      rw [hshown]
      refine .enter hobs ?_
      rw [hopen]
      rfl
  | @childReturned f ch parentPath' o rest hc hst =>
      have hnot := hframe (by rw [hst]; exact List.cons_ne_nil _ _)
      rw [hseen]
      refine .exit (.ok o) hobs hc ?_
      rw [hopen, openPaths_of_not_finished hnot, hpath, hst]
      rfl
  | @childRaised f ch parentPath' e rest hc hst =>
      have hnot := hframe (by rw [hst]; exact List.cons_ne_nil _ _)
      rw [hseen]
      refine .exit (.error e) hobs hc ?_
      rw [hopen, openPaths_of_not_finished hnot, hpath, hst]
      rfl
  -- decorators are on no path
  | execRetry hc => exact hquiet rfl rfl (fun _ => nofun)
  | retryAgain hc hst ha => exact hquiet rfl (by rw [hst]; rfl) (fun _ => nofun)
  | retryOver hc hst hn => exact hquiet rfl (by rw [hst]; rfl) hrun
  | leafPoll hc => exact hquiet rfl rfl hrun
  | executeOver hc hst hb => cases hbase.symm.trans hb
  | @runOver res parentPath' hc hst hb =>
      rw [observations_append, hseen]
      refine .exit res hobs hc ?_
      rw [hopen, hpath, hst]
      rfl
  | _ => exact hquiet rfl rfl (fun _ => nofun)

theorem Shown.unclosed {l : List (Paren String (Option String))} {shown} (h : Shown root t t' shown)
    (hl : Unclosed l (openPaths root t)) : Unclosed (l ++ shown) (openPaths root t') := by
  cases h with
  | nothing hsame =>
      rw [List.append_nil, hsame]
      exact hl
  | enter _ hopen =>
      rw [hopen]
      exact .opening hl
  | exit res _ _ hopen =>
      rw [hopen] at hl
      exact .closing hl

/-! ## The invariant -/

/-- The thread that has called `run`: what it has shown, and what it leaves behind. -/
structure CallerOk (root : String) (observer : Bool) (tr : List Event) (t : Thread) : Prop where
  base : t.base = .caller (.run "")
  installed : t.ctx.observer = observer
  restored : ∀ res, t.control = .finished res → t.ctx.path = "" ∧ t.ctx.token = none
  seen : observer = true → Unclosed (observations tr) (openPaths root t)
  unseen : observer = false → observations tr = []

structure ObserverInv (root : String) (observer : Bool) (tr : List Event) (c : Config) : Prop where
  onPath : OnPath root c
  caller : ∃ t, c.threads[0]? = some t ∧ CallerOk root observer tr t
  /-- The threads of regions have no observer. -/
  quiet : ∀ (i : Nat) (t : Thread), c.threads[i]? = some t → i ≠ 0 → t.ctx.observer = false

variable {observer : Bool} {tr : List Event}

/-- Nobody sees the steps of other threads. -/
theorem CallerOk.unshown (h : CallerOk root observer tr t) (hes : observations es = []) :
    CallerOk root observer (tr ++ es) t := by
  have hsame : observations (tr ++ es) = observations tr := by
    rw [observations_append, hes, List.append_nil]
  exact ⟨h.base, h.installed, h.restored, hsame ▸ h.seen, hsame ▸ h.unseen⟩

theorem CallerOk.step (h : CallerOk root observer tr t) (hp : PathOk root t)
    (hs : ThreadStep c i t a t' eff es) : CallerOk root observer (tr ++ es) t' where
  base := hs.base_eq.trans h.base
  installed := hs.observer_eq.trans h.installed
  restored _ hc := by
    obtain ⟨hpath, htoken, -⟩ := hs.restores h.base hc
    exact ⟨hpath, htoken⟩
  seen hobs := by
    rw [observations_append]
    exact (hs.shown h.base hp (h.installed.trans hobs)).unclosed (h.seen hobs)
  unseen hobs := by
    rw [observations_append, h.unseen hobs, hs.unseen (h.installed.trans hobs)]
    rfl

theorem ObserverInv.callerPath (h : ObserverInv root observer tr c) (ht : c.threads[0]? = some t)
    (hcaller : CallerOk root observer tr t) : PathOk root t := by
  have hp := h.onPath 0 t ht
  rwa [hcaller.base] at hp

theorem ObserverInv.step (h : ObserverInv root observer tr c)
    (hst : Engine.step c a = some (c', es)) : ObserverInv root observer (tr ++ es) c' := by
  obtain ⟨t₀, ht₀, hcaller⟩ := h.caller
  have honPath := h.onPath.step hst
  rcases step_cases hst with ⟨tok, rfl, rfl, rfl⟩ | ⟨i, t, t', eff, hi, hs, rfl⟩
  · exact ⟨honPath, ⟨t₀, ht₀, hcaller.unshown rfl⟩, h.quiet⟩
  · refine ⟨honPath, ?_, ?_⟩
    · obtain ⟨t₁, ht₁, ⟨rfl, rfl, rfl⟩ | ⟨hne, rfl⟩⟩ := commit_thread_cases hi ht₀ t' eff
      · exact ⟨t₁, ht₁, hcaller.step (h.callerPath ht₀ hcaller) hs⟩
      · exact ⟨t₁, ht₁, hcaller.unshown (hs.unseen (h.quiet i t hi (Ne.symm hne)))⟩
    · intro j u hj hne
      rcases commit_threads_cases hi hj with ⟨rfl, rfl⟩ | ⟨-, hj'⟩ | ⟨p, r, rfl, -, rfl⟩
      · rw [hs.observer_eq]
        exact h.quiet j t hi hne
      · exact h.quiet j u hj' hne
      · rfl

theorem RunCall.start_ok {r : RunCall} {ctx : Ctx} {c₀ : Config} {es₀ : List Event}
    (h : r.start ctx = .ok (c₀, es₀)) :
    c₀ = .start (.machine r.info r.children) (.run ctx.path)
      ⟨r.cancelToken, enterPath ctx.path r.segment, ctx.observer⟩ ∧
    es₀ = observe ctx 0 true (enterPath ctx.path r.segment) none := by
  unfold RunCall.start at h
  split at h
  · cases h
  · obtain ⟨rfl, rfl⟩ := Prod.mk.inj (Except.ok.inj h)
    exact ⟨rfl, rfl⟩

theorem ObserverInv.start {r : RunCall} {token : Option Nat} {c₀ : Config} {es₀ : List Event}
    (h : r.start ⟨token, "", observer⟩ = .ok (c₀, es₀)) :
    ObserverInv r.segment observer es₀ c₀ := by
  obtain ⟨rfl, rfl⟩ := RunCall.start_ok h
  have hpath : enterPath "" r.segment = r.segment := if_pos rfl
  rw [hpath]
  refine ⟨OnPath.start _ _ _, ⟨_, rfl, rfl, rfl, fun _ => nofun, ?_, ?_⟩, ?_⟩
  · rintro rfl
    exact Unclosed.opening Unclosed.nil
  · rintro rfl
    rfl
  · intro i t hi hne
    simp only [Config.start, List.getElem?_singleton, if_neg hne] at hi
    cases hi

/-! ## Handing over to a child -/

/-- A child is started with its frame on the stack and its path recorded. -/
theorem ThreadStep.of_start {j inv visit : Nat} {name : String}
    (hs : ThreadStep c i t a t' eff es) (h : Event.start j inv visit name ∈ es) :
    ∃ f ch, j = i ∧ f.current = name ∧ findChild f.children name = some ch ∧
      t'.stack = .machine f ch t.ctx.path :: t.stack ∧ t'.control = .exec ch.state ∧
      eff = .path t'.ctx.path := by
  -- the observer is told about no start
  have hobs : ∀ ctx k enter path o, Event.start j inv visit name ∉ observe ctx k enter path o :=
    fun ctx k enter path o h => by cases mem_observe h
  cases hs with
  | @startChild f ch hc hf =>
      rcases List.mem_cons.mp h with h | h
      · obtain ⟨rfl, -, -, rfl⟩ := Event.start.inj h
        exact ⟨f, ch, rfl, rfl, hf, rfl, rfl, rfl⟩
      · exact absurd h (hobs _ _ _ _ _)
  | childReturned hc hst => exact absurd h (hobs _ _ _ _ _)
  | childRaised hc hst => exact absurd h (hobs _ _ _ _ _)
  | runOver hc hst hb => simp [hobs] at h
  | _ => simp at h

/-- What is seen closed is the child, or the root, that the caller's thread is over with. -/
theorem ObserverInv.closed (h : ObserverInv root observer tr c)
    (hst : Engine.step c a = some (c', es)) {path : String} {outcome : Option String}
    (hmem : .closing path outcome ∈ observations es) :
    ∃ t res opens, c.threads[0]? = some t ∧ t.control = .done res ∧ outcome = res.outcome? ∧
      Unclosed (observations tr) (path :: opens) := by
  obtain ⟨t₀, ht₀, hcaller⟩ := h.caller
  rcases step_cases hst with ⟨tok, rfl, rfl, rfl⟩ | ⟨i, t, t', eff, hi, hs, rfl⟩
  · cases hmem
  · by_cases h0 : i = 0
    · subst h0
      obtain rfl : t₀ = t := Option.some.inj (ht₀.symm.trans hi)
      have hp := h.callerPath ht₀ hcaller
      cases hobs : t₀.ctx.observer with
      | false =>
          rw [hs.unseen hobs] at hmem
          cases hmem
      | true =>
          have hopen := hcaller.seen (hcaller.installed.symm.trans hobs)
          have hshown := hs.shown hcaller.base hp hobs
          generalize observations es = shown at hshown hmem
          cases hshown with
          | nothing _ => cases hmem
          | enter _ _ => simp at hmem
          | exit res _ hc hclose =>
              obtain ⟨rfl, rfl⟩ := Paren.closing.inj (List.mem_singleton.mp hmem)
              rw [hclose] at hopen
              exact ⟨t₀, res, _, ht₀, hc, rfl, hopen⟩
    · rw [hs.unseen (h.quiet i t hi h0)] at hmem
      cases hmem

/-- A machine of the caller's thread hands over with the path of its child recorded. -/
theorem ObserverInv.handsOver (h : ObserverInv root observer tr c)
    (hst : Engine.step c a = some (c', es)) {inv visit : Nat} {name : String}
    (hmem : Event.start 0 inv visit name ∈ es) (hroot : root ≠ "") :
    ∃ t' f ch parentPath rest, c'.threads[0]? = some t' ∧
      t'.stack = .machine f ch parentPath :: rest ∧ f.current = name ∧
      findChild f.children name = some ch ∧ t'.control = .exec ch.state ∧
      t'.ctx.path = ".".intercalate (root :: enclosing t'.stack) ∧
      c'.globalPath = t'.ctx.path := by
  have honPath := h.onPath.step hst
  rcases step_cases hst with ⟨tok, rfl, rfl, rfl⟩ | ⟨i, t, t', eff, hi, hs, rfl⟩
  · simp at hmem
  · obtain ⟨f, ch, rfl, hname, hch, hstack, hc, rfl⟩ := hs.of_start hmem
    obtain ⟨t₀, ht₀, hcaller⟩ := h.caller
    obtain rfl : t₀ = t := Option.some.inj (ht₀.symm.trans hi)
    have ht' : (c.commit 0 t' (.path t'.ctx.path)).threads[0]? = some t' := commit_thread_self hi
    have hp := honPath 0 t' ht'
    rw [hs.base_eq, hcaller.base] at hp
    have hnot : ∀ r, t'.control ≠ .finished r := by
      rw [hc]
      exact fun _ => nofun
    refine ⟨t', f, ch, _, _, ht', hstack, hname, hch, hc, ?_, rfl⟩
    rw [hp.path hnot]
    exact pathOf_eq_intercalate hroot t'.stack

end Steps

/-- **What an observer sees of `BehaviorSM.run`**, called from an empty path. When the run is over,
the calls of the observer are balanced, and the path and the token of the caller are as they were.
Each exit closes the path that was entered last, with the outcome of the state that is over. And a
machine of the caller's thread hands over to a child when the recorded path is that of the child:
the root and the children on the way to it, joined by dots. -/
theorem run_observed (r : RunCall) (token : Option Nat) (observer : Bool) {c₀ c : Config}
    {es₀ tr : List Event} (hstart : r.start ⟨token, "", observer⟩ = .ok (c₀, es₀))
    (h : Run Engine.step anyStep c₀ tr c) :
    (∀ res, c.result = some res → Balanced (observations (es₀ ++ tr)) ∧
      ∃ t, c.threads[0]? = some t ∧ t.ctx.path = "" ∧ t.ctx.token = none) ∧
    ∀ (a : Act) (c' : Config) (es : List Event), Engine.step c a = some (c', es) →
      (∀ (path : String) (outcome : Option String), .closing path outcome ∈ observations es →
        ∃ t res opens, c.threads[0]? = some t ∧ t.control = .done res ∧
          outcome = res.outcome? ∧ Unclosed (observations (es₀ ++ tr)) (path :: opens)) ∧
      ∀ (inv visit : Nat) (name : String), Event.start 0 inv visit name ∈ es → r.segment ≠ "" →
        ∃ t' f ch parentPath rest, c'.threads[0]? = some t' ∧
          t'.stack = .machine f ch parentPath :: rest ∧ f.current = name ∧
          findChild f.children name = some ch ∧ t'.control = .exec ch.state ∧
          t'.ctx.path = ".".intercalate (r.segment :: enclosing t'.stack) ∧
          c'.globalPath = t'.ctx.path := by
  have hinv : ObserverInv r.segment observer (es₀ ++ tr) c :=
    h.history (fun _ _ _ _ _ hinv _ hst => hinv.step hst) (ObserverInv.start hstart)
  refine ⟨?_, fun a c' es hst => ⟨?_, ?_⟩⟩
  · intro res hres
    obtain ⟨t, ht, hcaller⟩ := hinv.caller
    obtain ⟨t', ht', hc⟩ := result_eq_some.mp hres
    obtain rfl : t = t' := Option.some.inj (ht.symm.trans ht')
    refine ⟨?_, t, ht, hcaller.restored res hc⟩
    cases hobs : observer with
    | false =>
        rw [hcaller.unseen hobs]
        exact .nil
    | true =>
        have hopen := hcaller.seen hobs
        simp only [openPaths, hc] at hopen
        exact hopen.balanced
  · intro path outcome hmem
    exact hinv.closed hst hmem
  · intro inv visit name hmem hsegment
    exact hinv.handsOver hst hmem hsegment


/-- A machine whose child returns `"ok"`, with an observer installed. -/
def observedCall : RunCall :=
  ⟨⟨0, "Watched", .behaviorSM ["speed"], ["done"], some "a"⟩,
    [⟨"a", .leaf ⟨1, "Step", ["ok"]⟩, [("ok", "done")]⟩], ["speed"], some 0, some "job"⟩

def observedStart : Config × List Event :=
  (.start (.machine observedCall.info observedCall.children) (.run "") ⟨some 0, "job", true⟩,
    [.observed 0 true "job" none])

theorem observedCall_start : observedCall.start ⟨none, "", true⟩ = .ok observedStart := rfl

def observedActs : List Act :=
  [.thread 0, .thread 0, .thread 0, .thread 0, .leaf 0 (.finish (.ok "ok")), .thread 0, .thread 0]

theorem observedActs_isSome : (runActs step anyStep observedStart.1 observedActs).isSome := by
  decide

/-- The whole run is seen, and nothing of it is left behind. -/
theorem run_observed_returned :
    Balanced [.opening "job", .opening "job.a", .closing "job.a" (some "ok"),
      .closing "job" (some "done")] ∧
    ∃ t, ((runActs step anyStep observedStart.1 observedActs).get
      observedActs_isSome).1.threads[0]? = some t ∧ t.ctx.path = "" ∧ t.ctx.token = none :=
  (run_observed observedCall none true observedCall_start (Run.of_isSome observedActs_isSome)).1
    (.ok "done") (by decide)

end RobotTaskManager.Engine
