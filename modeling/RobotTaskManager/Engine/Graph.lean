import RobotTaskManager.Engine.StepCases

set_option autoImplicit false

/-! # A machine follows its transition graph

`StateMachine.execute` as one function: children that return or raise anything, depending on all
that has been invoked before and on userdata (`Behaviour`), and no cancellation. What it does is
compared with the walks in its transition graph: `Walk` says that a number of invocations, each
leading to the next child, end at a child, and `Ends` lists the ways in which the next invocation
ends the execution.
-/

namespace RobotTaskManager.Engine

open Interleaving

/-- What the children do: from the invocations so far with their results, the name of the child
that is invoked and userdata, the result of the invocation and userdata afterwards. -/
abbrev Behaviour (U : Type) := List (String × Result) → String → U → Result × U

/-- How an `execute` has ended, the invocations it made, and userdata. -/
structure Execution (U : Type) where
  result : Result
  invocations : List (String × Result)
  userdata : U

section Execute

variable {U : Type} (m : MachineInfo) (children : List (Child Tree)) (behave : Behaviour U)

/-- The loop of `execute`, with so many visits left before `visit_cap`. -/
def machineLoop : Nat → String → List (String × Result) → U → Execution U
  | 0, _, log, u => ⟨.error (.visitCap m.className), log, u⟩
  | left + 1, current, log, u =>
      match findChild children current with
      | none => ⟨.error (.keyError current), log, u⟩
      | some ch =>
          match behave log current u with
          | (.error e, u') => ⟨.error e, log ++ [(current, .error e)], u'⟩
          | (.ok o, u') =>
              let log' := log ++ [(current, .ok o)]
              if o ∉ ch.state.outcomes then
                ⟨.error (.undeclaredOutcome current o ch.state.outcomes), log', u'⟩
              else
                match ch.transitions.lookup o with
                | none =>
                    ⟨.error (.noTransition current o (ch.transitions.map Prod.fst)), log', u'⟩
                | some target =>
                    if target ∈ m.outcomes then ⟨.ok target, log', u'⟩
                    else if target ∈ childNames children then machineLoop left target log' u'
                    else
                      ⟨.error (.danglingTarget target m.className m.outcomes
                        (childNames children)), log', u'⟩

/-- `StateMachine.execute` -/
def executeMachine (u : U) : Execution U :=
  match m.initialState with
  | none => ⟨.error (.noChildren m.className), [], u⟩
  | some s => machineLoop m children behave visitCap s [] u

/-! ## Walks -/

/-- The child `s` is invoked and returns an outcome that it declares and that is mapped. -/
inductive Leads (log : List (String × Result)) (s : String) (u : U) (o target : String) (u' : U) :
    Prop
  | mk {ch : Child Tree} : findChild children s = some ch → behave log s u = (.ok o, u') →
      o ∈ ch.state.outcomes → ch.transitions.lookup o = some target →
      Leads log s u o target u'

/-- After so many invocations, each leading to a child that is no outcome of the machine, the
child `s` is next. -/
inductive Walk (u₀ : U) : Nat → String → List (String × Result) → U → Prop
  | start {s : String} : m.initialState = some s → Walk u₀ 0 s [] u₀
  | next {n : Nat} {s o target : String} {log : List (String × Result)} {u u' : U} :
      Walk u₀ n s log u → Leads children behave log s u o target u' → target ∉ m.outcomes →
      target ∈ childNames children → Walk u₀ (n + 1) target (log ++ [(s, .ok o)]) u'

/-- The ways in which an execution ends: how, with which invocations, and with which userdata. -/
inductive Ends (u₀ : U) : Result → List (String × Result) → U → Prop
  /-- The last outcome leads to an outcome of the machine. -/
  | returned {n : Nat} {s o target : String} {log : List (String × Result)} {u u' : U} :
      Walk m children behave u₀ n s log u → n < visitCap →
      Leads children behave log s u o target u' → target ∈ m.outcomes →
      Ends u₀ (.ok target) (log ++ [(s, .ok o)]) u'
  /-- The last child raises. -/
  | childRaised {n : Nat} {s : String} {log : List (String × Result)} {u u' : U} {e : Exc} :
      Walk m children behave u₀ n s log u → n < visitCap → behave log s u = (.error e, u') →
      Ends u₀ (.error e) (log ++ [(s, .error e)]) u'
  | undeclared {n : Nat} {s o : String} {log : List (String × Result)} {u u' : U}
      {ch : Child Tree} : Walk m children behave u₀ n s log u → n < visitCap →
      findChild children s = some ch → behave log s u = (.ok o, u') → o ∉ ch.state.outcomes →
      Ends u₀ (.error (.undeclaredOutcome s o ch.state.outcomes)) (log ++ [(s, .ok o)]) u'
  | unmapped {n : Nat} {s o : String} {log : List (String × Result)} {u u' : U}
      {ch : Child Tree} : Walk m children behave u₀ n s log u → n < visitCap →
      findChild children s = some ch → behave log s u = (.ok o, u') → o ∈ ch.state.outcomes →
      ch.transitions.lookup o = none →
      Ends u₀ (.error (.noTransition s o (ch.transitions.map Prod.fst))) (log ++ [(s, .ok o)]) u'
  | dangling {n : Nat} {s o target : String} {log : List (String × Result)} {u u' : U} :
      Walk m children behave u₀ n s log u → n < visitCap →
      Leads children behave log s u o target u' → target ∉ m.outcomes →
      target ∉ childNames children →
      Ends u₀ (.error (.danglingTarget target m.className m.outcomes (childNames children)))
        (log ++ [(s, .ok o)]) u'
  /-- All invocations have been made, and the last one leads to another child. -/
  | capped {s : String} {log : List (String × Result)} {u : U} :
      Walk m children behave u₀ visitCap s log u → Ends u₀ (.error (.visitCap m.className)) log u

end Execute

section Graph

variable {U : Type} {m : MachineInfo} {children : List (Child Tree)} {behave : Behaviour U}
  {u₀ u : U} {n : Nat} {s : String} {log : List (String × Result)}

/-- A walk makes one invocation in each of its steps. -/
theorem Walk.length_log (h : Walk m children behave u₀ n s log u) : log.length = n := by
  induction h with
  | start _ => rfl
  | next _ _ _ _ ih => rw [List.length_append, List.length_singleton, ih]

/-- The next child of a walk is a child. -/
theorem Walk.mem_childNames (hinit : ∀ s, m.initialState = some s → s ∈ childNames children)
    (h : Walk m children behave u₀ n s log u) : s ∈ childNames children := by
  cases h with
  | start hs => exact hinit s hs
  | next _ _ _ hmem => exact hmem

/-- A child that leads to a target does what `machineLoop` makes of it. -/
theorem Leads.machineLoop {o target : String} {u' : U} {left : Nat}
    (h : Leads children behave log s u o target u') :
    machineLoop m children behave (left + 1) s log u =
      if target ∈ m.outcomes then ⟨.ok target, log ++ [(s, .ok o)], u'⟩
      else if target ∈ childNames children then
        machineLoop m children behave left target (log ++ [(s, .ok o)]) u'
      else ⟨.error (.danglingTarget target m.className m.outcomes (childNames children)),
        log ++ [(s, .ok o)], u'⟩ := by
  obtain ⟨hch, hb, ho, hlookup⟩ := h
  rw [Engine.machineLoop]
  simp only [hch, hb, hlookup]
  rw [if_neg (not_not.mpr ho)]

/-- **A walk is followed**: the execution comes to its end with the visits that are left. -/
theorem Walk.executeMachine_eq (h : Walk m children behave u₀ n s log u) {left : Nat}
    (hleft : n + left = visitCap) :
    executeMachine m children behave u₀ = machineLoop m children behave left s log u := by
  induction h generalizing left with
  | start hs =>
      rw [Nat.zero_add] at hleft
      rw [executeMachine, hs, hleft]
  | next _ hleads hout hmem ih =>
      rw [ih (by omega : _ + (left + 1) = visitCap), hleads.machineLoop, if_neg hout, if_pos hmem]

/-- **The loop ends the walk** in one of the ways of `Ends`. -/
theorem machineLoop_ends (hinit : ∀ s, m.initialState = some s → s ∈ childNames children)
    (h : Walk m children behave u₀ n s log u) {left : Nat} (hleft : n + left = visitCap) :
    Ends m children behave u₀ (machineLoop m children behave left s log u).result
      (machineLoop m children behave left s log u).invocations
      (machineLoop m children behave left s log u).userdata := by
  induction left generalizing n s log u with
  | zero =>
      rw [Nat.add_zero] at hleft
      subst hleft
      exact .capped h
  | succ left ih =>
      have hlt : n < visitCap := by omega
      obtain ⟨ch, hch⟩ := Option.isSome_iff_exists.mp
        (findChild_isSome.mpr (h.mem_childNames hinit))
      cases hb : behave log s u with
      | mk res u' =>
          cases res with
          | error e =>
              rw [machineLoop]
              simp only [hch, hb]
              exact .childRaised h hlt hb
          | ok o =>
              by_cases ho : o ∈ ch.state.outcomes
              · cases hlookup : ch.transitions.lookup o with
                | none =>
                    rw [machineLoop]
                    simp only [hch, hb, hlookup]
                    rw [if_neg (not_not.mpr ho)]
                    exact .unmapped h hlt hch hb ho hlookup
                | some target =>
                    have hleads : Leads children behave log s u o target u' :=
                      ⟨hch, hb, ho, hlookup⟩
                    rw [hleads.machineLoop]
                    by_cases hout : target ∈ m.outcomes
                    · rw [if_pos hout]
                      exact .returned h hlt hleads hout
                    · rw [if_neg hout]
                      by_cases hmem : target ∈ childNames children
                      · rw [if_pos hmem]
                        exact ih (h.next hleads hout hmem) (by omega)
                      · rw [if_neg hmem]
                        exact .dangling h hlt hleads hout hmem
              · rw [machineLoop]
                simp only [hch, hb]
                rw [if_pos ho]
                exact .undeclared h hlt hch hb ho

/-- What ends a walk is what the execution comes to. -/
theorem Ends.executeMachine_eq (hinit : ∀ s, m.initialState = some s → s ∈ childNames children)
    {r : Result} (h : Ends m children behave u₀ r log u) :
    executeMachine m children behave u₀ = ⟨r, log, u⟩ := by
  have hleft : ∀ {n}, n < visitCap → n + (visitCap - n - 1 + 1) = visitCap := by
    intro n hlt
    omega
  cases h with
  | returned hwalk hlt hleads hout =>
      rw [hwalk.executeMachine_eq (hleft hlt), hleads.machineLoop, if_pos hout]
  | childRaised hwalk hlt hb =>
      obtain ⟨ch, hch⟩ := Option.isSome_iff_exists.mp
        (findChild_isSome.mpr (hwalk.mem_childNames hinit))
      rw [hwalk.executeMachine_eq (hleft hlt), machineLoop]
      simp only [hch, hb]
  | undeclared hwalk hlt hch hb ho =>
      rw [hwalk.executeMachine_eq (hleft hlt), machineLoop]
      simp only [hch, hb]
      rw [if_pos ho]
  | unmapped hwalk hlt hch hb ho hlookup =>
      rw [hwalk.executeMachine_eq (hleft hlt), machineLoop]
      simp only [hch, hb, hlookup]
      rw [if_neg (not_not.mpr ho)]
  | dangling hwalk hlt hleads hout hmem =>
      rw [hwalk.executeMachine_eq (hleft hlt), hleads.machineLoop, if_neg hout, if_neg hmem]
  | capped hwalk => rw [hwalk.executeMachine_eq (Nat.add_zero _), machineLoop]

/-- **The execution and its ends**: it comes to what one of the ways of `Ends` says, and to nothing
else. -/
theorem executeMachine_iff_ends (hinit : ∃ s, m.initialState = some s ∧ s ∈ childNames children)
    {r : Result} :
    executeMachine m children behave u₀ = ⟨r, log, u⟩ ↔ Ends m children behave u₀ r log u := by
  obtain ⟨s₀, hs₀, hmem⟩ := hinit
  have hinit : ∀ s, m.initialState = some s → s ∈ childNames children := by
    intro s hs
    rwa [Option.some.inj (hs₀.symm.trans hs)] at hmem
  constructor
  · intro h
    have hstart : Walk m children behave u₀ 0 s₀ [] u₀ := .start hs₀
    have hends := machineLoop_ends hinit hstart (Nat.zero_add visitCap)
    rw [← hstart.executeMachine_eq (Nat.zero_add visitCap), h] at hends
    exact hends
  · exact Ends.executeMachine_eq hinit

/-! ## What a walk has recorded -/

/-- The children of a walk have all returned. -/
theorem Walk.returned (h : Walk m children behave u₀ n s log u) :
    ∀ p ∈ log, ∃ o, p.2 = .ok o := by
  induction h with
  | start _ => exact List.forall_mem_nil _
  | next _ _ _ _ ih =>
      intro p hp
      rcases List.mem_append.mp hp with hp | hp
      · exact ih p hp
      · exact ⟨_, congrArg Prod.snd (List.mem_singleton.mp hp)⟩

/-- One more invocation can be recorded before `visit_cap`. -/
theorem Walk.length_append_le (h : Walk m children behave u₀ n s log u) (hlt : n < visitCap)
    (p : String × Result) : (log ++ [p]).length ≤ visitCap := by
  rw [List.length_append, h.length_log]
  exact hlt

/-- No execution makes more invocations than `visit_cap`. -/
theorem Ends.length_le {r : Result} (h : Ends m children behave u₀ r log u) :
    log.length ≤ visitCap := by
  -- one invocation more than the walk that ends, or the whole walk
  cases h with
  | returned hwalk hlt _ _ => exact hwalk.length_append_le hlt _
  | childRaised hwalk hlt _ => exact hwalk.length_append_le hlt _
  | undeclared hwalk hlt _ _ _ => exact hwalk.length_append_le hlt _
  | unmapped hwalk hlt _ _ _ _ => exact hwalk.length_append_le hlt _
  | dangling hwalk hlt _ _ _ => exact hwalk.length_append_le hlt _
  | capped hwalk => exact hwalk.length_log.le

/-- An execution returns an outcome at the end of a walk that leads to it. -/
theorem ends_ok_iff {o : String} : Ends m children behave u₀ (.ok o) log u ↔
    ∃ n s raw log₀ u', Walk m children behave u₀ n s log₀ u' ∧ n + 1 ≤ visitCap ∧
      Leads children behave log₀ s u' raw o u ∧ o ∈ m.outcomes ∧ log = log₀ ++ [(s, .ok raw)] := by
  constructor
  · intro h
    cases h with
    | returned hwalk hlt hleads hout => exact ⟨_, _, _, _, _, hwalk, hlt, hleads, hout, rfl⟩
  · rintro ⟨n, s, raw, log₀, u', hwalk, hlt, hleads, hout, rfl⟩
    exact .returned hwalk hlt hleads hout

/-- The execution gives up where another invocation would be needed after `visit_cap` of them. -/
theorem ends_capped_iff : Ends m children behave u₀ (.error (.visitCap m.className)) log u ∧
    (∀ p ∈ log, ∃ o, p.2 = .ok o) ↔ ∃ s, Walk m children behave u₀ visitCap s log u := by
  constructor
  · rintro ⟨h, hret⟩
    cases h with
    | capped hwalk => exact ⟨_, hwalk⟩
    -- a child may raise the same exception, but then it has not returned
    | @childRaised _ s log _ _ _ _ _ _ =>
        obtain ⟨o, ho⟩ := hret (s, .error (.visitCap m.className)) (by simp)
        cases ho
  · rintro ⟨s, hwalk⟩
    exact ⟨.capped hwalk, hwalk.returned⟩

end Graph

/-! ## The threads of the engine

A machine of leaves on a thread of its own, with nothing requested: the steps of the engine come to
what `executeMachine` comes to, and start the children that it invokes. -/

section Engine

/-- The children that the machines of a trace have started. -/
def startNames (tr : List Event) : List String :=
  tr.filterMap fun e =>
    match e with
    | .start _ _ _ name => some name
    | _ => none

theorem startNames_append (tr tr' : List Event) :
    startNames (tr ++ tr') = startNames tr ++ startNames tr' := by
  unfold startNames
  exact List.filterMap_append

theorem startNames_observe (ctx : Ctx) (i : Nat) (enter : Bool) (path : String)
    (o : Option String) : startNames (observe ctx i enter path o) = [] := by
  unfold observe
  cases ctx.observer <;> rfl

/-- A run of one thread, with nothing requested. -/
def solo (t : Thread) (globalPath : String) : Config := ⟨[t], [], [], globalPath⟩

theorem solo_not_requested (t : Thread) (globalPath : String) (ctx : Ctx) :
    (solo t globalPath).isCancellationRequested ctx = false := by
  unfold Config.isCancellationRequested solo
  cases ctx.token with
  | none => rfl
  | some tok => simp

/-- The path after an effect of a machine or a leaf. -/
def Effect.pathAfter (globalPath : String) : Effect → String
  | .path s => s
  | _ => globalPath

theorem solo_step {t t' : Thread} {globalPath : String} {eff : Effect} {es : List Event}
    (heff : eff = .none ∨ ∃ s, eff = .path s)
    (h : threadStep (solo t globalPath) 0 t = some (t', eff, es)) :
    step (solo t globalPath) (.thread 0) = some (solo t' (eff.pathAfter globalPath), es) := by
  have hthread : (solo t globalPath).threads[0]? = some t := rfl
  simp only [step, hthread, actStep, h]
  rcases heff with rfl | ⟨s, rfl⟩ <;> rfl

/-- What a machine does after its child. -/
def afterResult (f : MachineFrame) (ch : Child Tree) : Result → Control
  | .ok o => afterChild f ch o
  | .error e => .done (.error e)

/-- One turn of the loop: the leaf `current` is started once, and the machine goes on with its
result. -/
theorem loop_turn (base : Base) (ctx : Ctx) (inv : Nat) (globalPath : String) {f : MachineFrame}
    {ch : Child Tree} {l : Leaf} (hlt : f.visits + 1 ≤ visitCap)
    (hch : findChild f.children f.current = some ch) (hl : ch.state = .leaf l) (r : Result) :
    ∃ tr, Run step anyStep (solo ⟨base, [], .loop f, ctx, inv⟩ globalPath) tr
        (solo ⟨base, [], afterResult { f with visits := f.visits + 1 } ch r, ctx, inv⟩ ctx.path) ∧
      startNames tr = [f.current] := by
  have hreq := solo_not_requested ⟨base, [], .loop f, ctx, inv⟩ globalPath ctx
  have hcheck : threadStep (solo ⟨base, [], .loop f, ctx, inv⟩ globalPath) 0
      ⟨base, [], .loop f, ctx, inv⟩ = some
      (⟨base, [], .checked { f with visits := f.visits + 1 }, ctx, inv⟩, .none,
        [.check 0 f.inv (f.visits + 1) false]) := by
    show some (loopStep _ 0 _ f) = _
    rw [loopStep, if_neg (Nat.not_lt.mpr hlt), if_neg (by rw [hreq]; exact Bool.false_ne_true)]
  have hstart : threadStep (solo ⟨base, [], .checked { f with visits := f.visits + 1 }, ctx, inv⟩
      globalPath) 0 ⟨base, [], .checked { f with visits := f.visits + 1 }, ctx, inv⟩ = some
      (⟨base, [.machine { f with visits := f.visits + 1 } ch ctx.path], .exec (.leaf l),
          { ctx with path := enterPath ctx.path f.current }, inv⟩,
        .path (enterPath ctx.path f.current),
        .start 0 f.inv (f.visits + 1) f.current ::
          observe ctx 0 true (enterPath ctx.path f.current) none) := by
    show some (checkedStep 0 _ { f with visits := f.visits + 1 }) = _
    simp only [checkedStep, hch, hl]
  have hdone : step (solo ⟨base, [.machine { f with visits := f.visits + 1 } ch ctx.path],
      .done r, { ctx with path := enterPath ctx.path f.current }, inv⟩
      (enterPath ctx.path f.current)) (.thread 0) = some
      (solo ⟨base, [], afterResult { f with visits := f.visits + 1 } ch r, ctx, inv⟩ ctx.path,
        observe ctx 0 false (enterPath ctx.path f.current) r.outcome?) := by
    cases r <;> rfl
  -- the leaf is entered and ended between the two
  have hrun := Run.cons (P := anyStep) trivial (solo_step (Or.inl rfl) hcheck)
    (Run.cons trivial (solo_step (Or.inr ⟨_, rfl⟩) hstart)
      (Run.cons (a := .thread 0) trivial rfl
        (Run.cons (a := .leaf 0 (.finish r)) trivial rfl (Run.single trivial hdone))))
  refine ⟨_, hrun, ?_⟩
  show [] ++ (f.current :: startNames (observe _ _ _ _ _ ++ ([] ++ ([] ++ observe _ _ _ _ _)))) = _
  rw [List.nil_append, startNames_append, startNames_observe]
  exact congrArg (f.current :: ·) (startNames_observe _ _ _ _ _)

/-- After a child the engine is done with what `machineLoop` comes to, or both go on with the same
next child. -/
theorem machineLoop_turn {U : Type} {m : MachineInfo} {children : List (Child Tree)}
    {behave : Behaviour U} (k visits left : Nat) {s : String} {log : List (String × Result)}
    {u u' : U} {ch : Child Tree} {r : Result} (hch : findChild children s = some ch)
    (hb : behave log s u = (r, u')) :
    (∃ res, afterResult ⟨k, m, children, s, visits⟩ ch r = .done res ∧
      machineLoop m children behave (left + 1) s log u = ⟨res, log ++ [(s, r)], u'⟩) ∨
    (∃ target, target ∈ childNames children ∧
      afterResult ⟨k, m, children, s, visits⟩ ch r = .loop ⟨k, m, children, target, visits⟩ ∧
      machineLoop m children behave (left + 1) s log u =
        machineLoop m children behave left target (log ++ [(s, r)]) u') := by
  cases r with
  | error e =>
      refine Or.inl ⟨.error e, rfl, ?_⟩
      rw [machineLoop]
      simp only [hch, hb]
  | ok o =>
      have hloop : ∀ target, o ∈ ch.state.outcomes → ch.transitions.lookup o = some target →
          Leads children behave log s u o target u' := fun target ho hl => ⟨hch, hb, ho, hl⟩
      -- in the order of the tests of the code: declared, mapped, terminal, child
      rcases afterChild_cases ⟨k, m, children, s, visits⟩ ch o with ⟨ho, h⟩ | ⟨ho, hl, h⟩ |
        ⟨target, ho, hl, ⟨hout, h⟩ | ⟨hout, hmem, h⟩ | ⟨hout, hmem, h⟩⟩
      · refine Or.inl ⟨_, h, ?_⟩
        simp only [machineLoop, hch, hb, if_pos ho]
      · refine Or.inl ⟨_, h, ?_⟩
        simp only [machineLoop, hch, hb, if_neg (not_not.mpr ho), hl]
      · refine Or.inl ⟨_, h, ?_⟩
        rw [(hloop target ho hl).machineLoop, if_pos hout]
      · refine Or.inr ⟨target, hmem, h, ?_⟩
        rw [(hloop target ho hl).machineLoop, if_neg hout, if_pos hmem]
      · refine Or.inl ⟨_, h, ?_⟩
        rw [(hloop target ho hl).machineLoop, if_neg hout, if_neg hmem]

/-- **The loop of the engine is `machineLoop`.** -/
theorem machineLoop_runs {U : Type} {m : MachineInfo} {children : List (Child Tree)}
    (behave : Behaviour U) (hleaf : ∀ ch ∈ children, ∃ l, ch.state = .leaf l) (base : Base)
    (ctx : Ctx) (k inv : Nat) {visits left : Nat} {s : String} (hs : s ∈ childNames children)
    (hleft : visits + left = visitCap)
    (log : List (String × Result)) (u : U) (globalPath : String) :
    ∃ tr globalPath', Run step anyStep
        (solo ⟨base, [], .loop ⟨k, m, children, s, visits⟩, ctx, inv⟩ globalPath) tr
        (solo ⟨base, [], .done (machineLoop m children behave left s log u).result, ctx, inv⟩
          globalPath') ∧
      (machineLoop m children behave left s log u).invocations.map Prod.fst =
        log.map Prod.fst ++ startNames tr := by
  induction left generalizing visits s log u globalPath with
  | zero =>
      have hcap : visitCap < visits + 1 := by omega
      refine ⟨[], globalPath, Run.single (a := .thread 0) trivial
        (solo_step (Or.inl rfl) ?_), (List.append_nil _).symm⟩
      show some (loopStep _ 0 _ ⟨k, m, children, s, visits⟩) = _
      rw [loopStep, if_pos hcap]
      rfl
  | succ left ih =>
      have hlt : visits + 1 ≤ visitCap := by omega
      have hleft' : visits + 1 + left = visitCap := by omega
      obtain ⟨ch, hch⟩ := Option.isSome_iff_exists.mp (findChild_isSome.mpr hs)
      obtain ⟨l, hl⟩ := hleaf ch (findChild_mem hch)
      obtain ⟨tr, hrun, htr⟩ := loop_turn base ctx inv globalPath
        (f := ⟨k, m, children, s, visits⟩) hlt hch hl (behave log s u).1
      rcases machineLoop_turn (m := m) k (visits + 1) left hch
          (Prod.mk.eta (p := behave log s u)).symm with ⟨res, hafter, hloop⟩ | ⟨t, ht, hafter, hloop⟩
      · rw [hloop]
        rw [hafter] at hrun
        exact ⟨tr, ctx.path, hrun, by rw [List.map_append, htr]; rfl⟩
      · rw [hloop]
        rw [hafter] at hrun
        obtain ⟨tr', globalPath', hrun', htr'⟩ := ih ht hleft'
          (log ++ [(s, (behave log s u).1)]) (behave log s u).2 ctx.path
        refine ⟨tr ++ tr', globalPath', hrun.append hrun', ?_⟩
        rw [htr', startNames_append, htr, List.map_append, List.append_assoc]
        rfl

/-- **The engine does what `executeMachine` says**: a machine of leaves ends with its result, and
has started the children that it invokes, in that order. -/
theorem executeMachine_runs {U : Type} {m : MachineInfo} {children : List (Child Tree)}
    (behave : Behaviour U) (hleaf : ∀ ch ∈ children, ∃ l, ch.state = .leaf l)
    (hinit : ∃ s, m.initialState = some s ∧ s ∈ childNames children) (ctx : Ctx) (u₀ : U) :
    ∃ tr c, Run step anyStep (Config.start (.machine m children) .execute ctx) tr c ∧
      c.result = some (executeMachine m children behave u₀).result ∧
      startNames tr = (executeMachine m children behave u₀).invocations.map Prod.fst := by
  obtain ⟨s, hs, hmem⟩ := hinit
  obtain ⟨tr, globalPath, hrun, htr⟩ := machineLoop_runs behave hleaf (.caller .execute)
    ctx 0 1 hmem (Nat.zero_add visitCap) [] u₀ ctx.path
  have hexec : executeMachine m children behave u₀ =
      machineLoop m children behave visitCap s [] u₀ := by
    rw [executeMachine, hs]
  have hstart : step (Config.start (.machine m children) .execute ctx) (.thread 0) = some
      (solo ⟨.caller .execute, [], .loop ⟨0, m, children, s, 0⟩, ctx, 1⟩ ctx.path, []) := by
    refine solo_step (t := callerThread (.machine m children) .execute ctx) (Or.inl rfl) ?_
    show some (execStep _ 0 _ (.machine m children)) = _
    simp only [execStep, hs]
    rfl
  rw [hexec]
  refine ⟨_, _, Run.cons trivial hstart (hrun.append (Run.single (a := .thread 0) trivial rfl)),
    rfl, ?_⟩
  rw [htr, List.nil_append, startNames_append]
  exact List.append_nil _

end Engine

/-- A machine of two leaves, one after the other. -/
def chainInfo : MachineInfo := ⟨0, "Chain", .stateMachine, ["done", "failed"], some "a"⟩

def chainChildren : List (Child Tree) :=
  [⟨"a", .leaf ⟨1, "Step", ["next"]⟩, [("next", "b")]⟩,
    ⟨"b", .leaf ⟨2, "Step", ["ok"]⟩, [("ok", "done")]⟩]

def chainBehaviour : Behaviour Unit := fun _ name u =>
  (.ok (if name = "a" then "next" else "ok"), u)

/-- **`StateMachine.execute` follows its transition graph.** It returns an outcome exactly when a
walk of at most `visit_cap` invocations leads to it, it ends in one of the ways of `Ends` with just
these invocations, and it raises for the number of visits exactly when a walk needs one more. -/
theorem execute_follows_graph {U : Type} (m : MachineInfo) (children : List (Child Tree))
    (hinit : ∃ s, m.initialState = some s ∧ s ∈ childNames children) (behave : Behaviour U)
    (u₀ : U) (log : List (String × Result)) (u : U) :
    (∀ o, executeMachine m children behave u₀ = ⟨.ok o, log, u⟩ ↔
      ∃ n s raw log₀ u', Walk m children behave u₀ n s log₀ u' ∧ n + 1 ≤ 10000 ∧
        Leads children behave log₀ s u' raw o u ∧ o ∈ m.outcomes ∧
        log = log₀ ++ [(s, .ok raw)]) ∧
    (∀ r, executeMachine m children behave u₀ = ⟨r, log, u⟩ ↔
      Ends m children behave u₀ r log u) ∧
    (executeMachine m children behave u₀ = ⟨.error (.visitCap m.className), log, u⟩ ∧
        (∀ p ∈ log, ∃ o, p.2 = .ok o) ↔
      ∃ s, Walk m children behave u₀ 10000 s log u) ∧
    (executeMachine m children behave u₀).invocations.length ≤ 10000 := by
  refine ⟨?_, ?_, ?_, ?_⟩
  · intro o
    rw [executeMachine_iff_ends hinit]
    exact ends_ok_iff
  · intro r
    exact executeMachine_iff_ends hinit
  · rw [executeMachine_iff_ends hinit]
    exact ends_capped_iff
  · exact ((executeMachine_iff_ends hinit).mp rfl).length_le

/-- A child that leads to another one, which leads to an outcome of the machine. -/
theorem execute_follows_graph_chain :
    ∃ n s raw log₀ u', Walk chainInfo chainChildren chainBehaviour () n s log₀ u' ∧
      n + 1 ≤ 10000 ∧ Leads chainChildren chainBehaviour log₀ s u' raw "done" () ∧
      "done" ∈ chainInfo.outcomes ∧
      [("a", .ok "next"), ("b", .ok "ok")] = log₀ ++ [(s, .ok raw)] :=
  ((execute_follows_graph chainInfo chainChildren ⟨"a", rfl, by decide⟩ chainBehaviour ()
    [("a", .ok "next"), ("b", .ok "ok")] ()).1 "done").mp (by rfl)

end RobotTaskManager.Engine
