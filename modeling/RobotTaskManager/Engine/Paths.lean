import RobotTaskManager.Engine.Parallel

set_option autoImplicit false

/-! # Active paths

The active path of a thread is the path it has begun with, followed by the names of the children
its machines are in. So is every path it records: `_observer.enter` records the one with the new
child, `_observer.exit` the one without it, and the end of `BehaviorSM.run` the empty path.
-/

namespace RobotTaskManager.Engine

/-- The path `start`, followed by the children that the frames of a stack are in. -/
def pathOf (start : String) : List Frame → String
  | [] => start
  | .machine f _ _ :: rest => enterPath (pathOf start rest) f.current
  | .retry _ :: rest => pathOf start rest

/-- Each machine's frame holds the path to go back to. -/
def ParentsOk (start : String) : List Frame → Prop
  | [] => True
  | .machine _ _ parentPath :: rest => parentPath = pathOf start rest ∧ ParentsOk start rest
  | .retry _ :: rest => ParentsOk start rest

structure PathOk (start : String) (t : Thread) : Prop where
  path : (∀ r, t.control ≠ .finished r) → t.ctx.path = pathOf start t.stack
  parents : ParentsOk start t.stack

/-- The path that a thread begins with: that of the root, or the empty one of a new thread. -/
def startPath (rootPath : String) : Base → String
  | .caller _ => rootPath
  | .runner _ _ => ""

/-- Every thread is on the path of its stack. -/
def OnPath (rootPath : String) (c : Config) : Prop :=
  ∀ (i : Nat) (t : Thread), c.threads[i]? = some t → PathOk (startPath rootPath t.base) t

section Steps

variable {rootPath path₀ : String} {c c' : Config} {i : Nat} {t t' : Thread} {a : Act}
  {eff : Effect} {es : List Event}

/-- A step that leaves the stack and the path as they are. -/
theorem PathOk.frame (h : PathOk path₀ t) (hstack : t'.stack = t.stack) (hctx : t'.ctx = t.ctx)
    (hrun : ∀ r, t.control ≠ .finished r) : PathOk path₀ t' where
  path _ := by
    rw [hctx, hstack]
    exact h.path hrun
  parents := hstack ▸ h.parents

theorem ThreadStep.not_finished (hs : ThreadStep c i t a t' eff es) (r : Result) :
    t.control ≠ .finished r := by
  cases hs <;> simp_all

theorem ThreadStep.pathOk (hs : ThreadStep c i t a t' eff es) (h : PathOk path₀ t) :
    PathOk path₀ t' := by
  have hrun : ∀ r, t.control ≠ .finished r := hs.not_finished
  have hpath : t.ctx.path = pathOf path₀ t.stack := h.path hrun
  cases hs with
  | @startChild f ch hc hf =>
      refine ⟨fun _ => ?_, ⟨hpath, h.parents⟩⟩
      show enterPath t.ctx.path f.current = enterPath (pathOf path₀ t.stack) f.current
      rw [hpath]
  | childReturned hc hst =>
      have hparents := h.parents
      rw [hst] at hparents
      exact ⟨fun _ => hparents.1, hparents.2⟩
  | childRaised hc hst =>
      have hparents := h.parents
      rw [hst] at hparents
      exact ⟨fun _ => hparents.1, hparents.2⟩
  -- a decorator adds nothing to the path
  | execRetry hc => exact ⟨fun _ => hpath, h.parents⟩
  | retryAgain hc hst ha =>
      have hparents := h.parents
      rw [hst] at hparents hpath
      exact ⟨fun _ => hpath, hparents⟩
  | retryOver hc hst hn =>
      have hparents := h.parents
      rw [hst] at hparents hpath
      exact ⟨fun _ => hpath, hparents⟩
  | runOver hc hst hb => exact ⟨fun hnot => absurd rfl (hnot _), h.parents⟩
  | _ => exact h.frame rfl rfl hrun

/-- **What a step records** is the path of the stack afterwards, or the empty path at the end of
the run. -/
theorem ThreadStep.recorded {p : String} (hs : ThreadStep c i t a t' (.path p) es)
    (h : PathOk path₀ t) : p = pathOf path₀ t'.stack ∨
      ((∃ k, t.base = .caller k) ∧ (∃ r, t'.control = .finished r) ∧ p = "") := by
  generalize heff : Effect.path p = eff at hs
  cases hs with
  | @startChild f ch hc hf =>
      cases heff
      have hpath := h.path fun r => by rw [hc]; nofun
      refine Or.inl ?_
      show enterPath t.ctx.path f.current = enterPath (pathOf path₀ t.stack) f.current
      rw [hpath]
  | childReturned hc hst =>
      cases heff
      have hparents := h.parents
      rw [hst] at hparents
      exact Or.inl hparents.1
  | childRaised hc hst =>
      cases heff
      have hparents := h.parents
      rw [hst] at hparents
      exact Or.inl hparents.1
  | runOver hc hst hb =>
      cases heff
      exact Or.inr ⟨⟨_, hb⟩, ⟨_, rfl⟩, rfl⟩
  | _ => cases heff

/-- The argument of `_set_global_path`, if the step calls it. -/
def Effect.path? : Effect → Option String
  | .path p => some p
  | _ => Option.none

/-- The thread that takes a step and the path it records, if it records one. -/
def recordedPath (c : Config) (a : Act) : Option (Nat × String) :=
  match a with
  | .request _ => none
  | .thread i | .leaf i _ =>
      match c.threads[i]? with
      | none => none
      | some t =>
          match actStep c t a with
          | none => none
          | some (_, eff, _) => eff.path?.map fun p => (i, p)

/-- A step records no path, or it is a step of the thread that `recordedPath` gives, with the
path as its effect. -/
theorem recordedPath_cases (h : Engine.step c a = some (c', es)) : recordedPath c a = none ∨
    ∃ i t t' p, recordedPath c a = some (i, p) ∧ c.threads[i]? = some t ∧
      ThreadStep c i t a t' (.path p) es ∧ c' = c.commit i t' (.path p) := by
  have hpath : ∀ i t t' eff, c.threads[i]? = some t → ThreadStep c i t a t' eff es →
      recordedPath c a = eff.path?.map (fun p => (i, p)) → c' = c.commit i t' eff →
      recordedPath c a = none ∨ ∃ i t t' p, recordedPath c a = some (i, p) ∧
        c.threads[i]? = some t ∧ ThreadStep c i t a t' (.path p) es ∧
        c' = c.commit i t' (.path p) := by
    intro i t t' eff hi hs hrec hc
    cases eff with
    | path p => exact Or.inr ⟨i, t, t', p, hrec, hi, hs, hc⟩
    | _ => exact Or.inl hrec
  cases a with
  | request tok => exact Or.inl rfl
  | thread i =>
      cases hi : c.threads[i]? with
      | none => simp [Engine.step, hi] at h
      | some t =>
          cases hact : threadStep c i t with
          | none => simp [Engine.step, hi, actStep, hact] at h
          | some q =>
              obtain ⟨t', eff, es'⟩ := q
              simp only [Engine.step, hi, actStep, hact] at h
              obtain ⟨rfl, rfl⟩ := Prod.mk.inj (Option.some.inj h)
              exact hpath i t t' eff hi (.of_threadStep hact)
                (by simp only [recordedPath, hi, actStep, hact]) rfl
  | leaf i b =>
      cases hi : c.threads[i]? with
      | none => simp [Engine.step, hi] at h
      | some t =>
          cases hact : leafStep c i t b with
          | none => simp [Engine.step, hi, actStep, hact] at h
          | some q =>
              obtain ⟨t', eff, es'⟩ := q
              simp only [Engine.step, hi, actStep, hact] at h
              obtain ⟨rfl, rfl⟩ := Prod.mk.inj (Option.some.inj h)
              exact hpath i t t' eff hi (.of_leafStep hact)
                (by simp only [recordedPath, hi, actStep, hact]) rfl

theorem OnPath.step (h : OnPath rootPath c) (hst : Engine.step c a = some (c', es)) :
    OnPath rootPath c' := by
  rcases step_cases hst with ⟨tok, rfl, rfl, rfl⟩ | ⟨i, t, t', eff, hi, hs, rfl⟩
  · exact h
  · intro j u hj
    rcases commit_threads_cases hi hj with ⟨rfl, rfl⟩ | ⟨-, hj'⟩ | ⟨p, r, rfl, -, rfl⟩
    · rw [hs.base_eq]
      exact hs.pathOk (h j t hi)
    · exact h j u hj'
    · exact ⟨fun _ => rfl, trivial⟩

theorem OnPath.start (root : Tree) (k : Caller) (ctx : Ctx) :
    OnPath ctx.path (.start root k ctx) := by
  intro i t hi
  simp only [Config.start, List.getElem?_singleton] at hi
  split at hi
  · obtain rfl := Option.some.inj hi
    exact ⟨fun _ => rfl, trivial⟩
  · cases hi

end Steps

/-! ## Paths below a root -/

/-- `path` is the dotted path `first`, or goes on below it. -/
def Begins (first path : String) : Prop := path = first ∨ ∃ rest, path = first ++ "." ++ rest

theorem Begins.ne_empty {first path : String} (h : Begins first path) (hne : first ≠ "") :
    path ≠ "" := by
  rcases h with rfl | ⟨rest, rfl⟩
  · exact hne
  · simp

theorem Begins.enter {first path : String} (h : Begins first path) (hne : first ≠ "")
    (segment : String) : Begins first (enterPath path segment) := by
  rw [enterPath, if_neg (h.ne_empty hne)]
  rcases h with rfl | ⟨rest, rfl⟩
  · exact Or.inr ⟨segment, rfl⟩
  · exact Or.inr ⟨rest ++ "." ++ segment, by simp only [String.append_assoc]⟩

theorem begins_pathOf {first : String} (hne : first ≠ "") (stack : List Frame) :
    Begins first (pathOf first stack) := by
  induction stack with
  | nil => exact Or.inl rfl
  | cons f rest ih =>
      cases f with
      | machine f ch parentPath => exact ih.enter hne f.current
      | retry f => exact ih

end RobotTaskManager.Engine
