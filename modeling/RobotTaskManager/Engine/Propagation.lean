import RobotTaskManager.Engine.Observer

set_option autoImplicit false

/-! # `CancelledError` on its way up

A `CancelledError` that a leaf raises goes up through the frames of its thread. In the thread of a
region it is recorded in the `errors` of the `Parallel`, and the thread that polls these may still
return a winner, or raise another error that was recorded before: then the `CancelledError` is gone.
`InFlight` follows it on its way, and `cancelled_kept` says that it reaches the caller of `run` if
no `Parallel` leaves it behind.
-/

namespace RobotTaskManager.Engine

open Interleaving

/-- The `execute` calls of a thread are waited for: it is the thread of the caller, or that of a
region whose `Parallel` has not been left by a thread that is waited for. -/
inductive WaitedFor (c : Config) : Nat → Prop
  | caller : WaitedFor c 0
  | region {i k : Nat} {t u : Thread} {p : Nat} {r : Region Tree} {phase : ParPhase} :
      c.threads[i]? = some t → t.base = .runner p r → c.threads[k]? = some u →
      u.control = .par p phase → WaitedFor c k → WaitedFor c i

/-- A `CancelledError` is on its way up in a thread: it is raised there, it is recorded in the
`Parallel` that the thread is in, or it is on its way in one of the regions. -/
inductive InFlight (c : Config) : Nat → Prop
  | raised {i : Nat} {t : Thread} : c.threads[i]? = some t →
      t.control = .done (.error .cancelled) → InFlight c i
  | ended {i : Nat} {t : Thread} : c.threads[i]? = some t →
      t.control = .finished (.error .cancelled) → InFlight c i
  | recorded {i : Nat} {t : Thread} {p : Nat} {phase : ParPhase} {inst : ParInst} {name : String} :
      c.threads[i]? = some t → t.control = .par p phase → c.pars[p]? = some inst →
      (name, .cancelled) ∈ inst.errors → InFlight c i
  | inRegion {i k : Nat} {t u : Thread} {p : Nat} {r : Region Tree} {phase : ParPhase} :
      c.threads[k]? = some u → u.control = .par p phase → c.threads[i]? = some t →
      t.base = .runner p r → InFlight c i → InFlight c k

/-! ## The condition -/

/-- The next step of the thread leaves its `Parallel` with a winner, or with an exception that is
not `CancelledError`. -/
def Config.leavesOtherwise (c : Config) (i : Nat) : Bool :=
  match c.threads[i]? with
  | none => false
  | some t =>
      match t.control with
      | .par p .poll =>
          match c.pars[p]? with
          | none => false
          | some inst => inst.winner.isSome
      | .par p .final =>
          match c.pars[p]? with
          | none => false
          | some inst =>
              inst.winner.isSome || decide (inst.errors.head?.map Prod.snd ≠ some .cancelled)
      | _ => false

/-- No `Parallel` that is waited for leaves the `CancelledError` of a region behind. -/
def KeepsCancelled (c : Config) (a : Act) : Prop :=
  ∀ i, a = .thread i → WaitedFor c i → InFlight c i → c.leavesOtherwise i = false

section Steps

variable {c c' : Config} {i k p : Nat} {t t' : Thread} {a : Act} {eff : Effect}
  {es tr : List Event}

/-! ## One thread -/

/-- A thread in a `Parallel` stays there, or leaves it with `CancelledError`. -/
theorem ThreadStep.par_left (hs : ThreadStep c i t a t' eff es) (hi : c.threads[i]? = some t)
    {phase : ParPhase} (hc : t.control = .par p phase) (hkeep : c.leavesOtherwise i = false) :
    (∃ phase', t'.control = .par p phase') ∨ t'.control = .done (.error .cancelled) := by
  have hpoll : ∀ q inst, t.control = .par q .poll → c.pars[q]? = some inst →
      inst.winner = none := by
    intro q inst hq hinst
    simp only [Config.leavesOtherwise, hi, hq, hinst] at hkeep
    exact Option.not_isSome_iff_eq_none.mp (by rw [hkeep]; exact Bool.false_ne_true)
  have hfinal : ∀ q inst, t.control = .par q .final → c.pars[q]? = some inst →
      inst.winner = none ∧ inst.errors.head?.map Prod.snd = some .cancelled := by
    intro q inst hq hinst
    simp only [Config.leavesOtherwise, hi, hq, hinst, Bool.or_eq_false_iff,
      decide_eq_false_iff_not, not_not] at hkeep
    refine ⟨Option.not_isSome_iff_eq_none.mp ?_, hkeep.2⟩
    rw [hkeep.1]
    exact Bool.false_ne_true
  have hsame : ∀ q phase', t.control = .par q phase' → q = p := by
    intro q phase' hq
    exact (Control.par.inj (hq.symm.trans hc)).1
  cases hs with
  | startRegion hd hp => exact Or.inl ⟨_, by rw [hsame _ _ hd]⟩
  | allStarted hd hp => exact Or.inl ⟨_, by rw [hsame _ _ hd]⟩
  | pollNone hd hp hw => exact Or.inl ⟨_, by rw [hsame _ _ hd]⟩
  | allDead hd hp hdead => exact Or.inl ⟨_, by rw [hsame _ _ hd]⟩
  | someAlive hd hp hdead => exact Or.inl ⟨_, by rw [hsame _ _ hd]⟩
  | pollAgain hd hp hq => exact Or.inl ⟨_, by rw [hsame _ _ hd]⟩
  | parCancelled hd hp hq => exact Or.inr rfl
  -- the ways out that the condition excludes
  | pollWon hd hp hw => cases (hpoll _ _ hd hp).symm.trans hw
  | finalWon hd hp hw => cases (hfinal _ _ hd hp).1.symm.trans hw
  | finalNone hd hp hw he =>
      have herrors := (hfinal _ _ hd hp).2
      rw [he] at herrors
      cases herrors
  | finalError hd hp hw he =>
      have herrors := (hfinal _ _ hd hp).2
      rw [he] at herrors
      obtain rfl := Option.some.inj herrors
      exact Or.inr rfl
  | _ => simp_all

/-- Only leaves have acts of their own. -/
theorem ThreadStep.act_eq (hs : ThreadStep c i t a t' eff es) (hleaf : ∀ l, t.control ≠ .leaf l) :
    a = .thread i := by
  cases hs with
  | leafPoll hc => exact absurd hc (hleaf _)
  | leafFinish hc => exact absurd hc (hleaf _)
  | _ => rfl

/-- A raised `CancelledError` goes on up through the thread, leaves `run`, or is recorded. -/
theorem ThreadStep.raised (hs : ThreadStep c i t a t' eff es)
    (hc : t.control = .done (.error .cancelled)) :
    t'.control = .done (.error .cancelled) ∨ t'.control = .finished (.error .cancelled) ∨
      ∃ p r, t.base = .runner p r ∧ eff = .runnerSection p r (.error .cancelled) := by
  cases hs with
  | childRaised hd hst =>
      obtain rfl := Except.error.inj (Control.done.inj (hd.symm.trans hc))
      exact Or.inl rfl
  | retryOver hd hst hn => exact Or.inl hc
  | executeOver hd hst hb =>
      obtain rfl := Control.done.inj (hd.symm.trans hc)
      exact Or.inr (Or.inl rfl)
  | runOver hd hst hb =>
      obtain rfl := Control.done.inj (hd.symm.trans hc)
      exact Or.inr (Or.inl rfl)
  | runnerSection hd hst hb =>
      obtain rfl := Control.done.inj (hd.symm.trans hc)
      exact Or.inr (Or.inr ⟨_, _, hb, rfl⟩)
  | _ => simp_all

theorem mem_runnerSection_errors {inst : ParInst} {e : String × Exc} (h : e ∈ inst.errors)
    (r : Region Tree) (res : Result) : e ∈ (inst.runnerSection r res).errors := by
  cases res with
  | error e' => exact List.mem_append_left _ h
  | ok raw =>
      simp only [ParInst.runnerSection]
      cases inst.winner with
      | some v => exact h
      | none =>
          cases r.outcomes.lookup raw with
          | none => exact List.mem_append_left _ h
          | some v => exact h

/-- Errors that are recorded stay recorded. -/
theorem mem_onPar_errors {inst : ParInst} {e : String × Exc} (h : e ∈ inst.errors) (n : Nat) :
    e ∈ (eff.onPar n p inst).errors := by
  cases eff with
  | spawn q r =>
      simp only [Effect.onPar]
      split
      · exact h
      · exact h
  | runnerSection q r res =>
      simp only [Effect.onPar]
      split
      · exact mem_runnerSection_errors h r res
      · exact h
  | _ => exact h

/-! ## All threads -/

/-- The `CancelledError` of the thread has been recorded in the `Parallel` of its region. -/
def RecordedAbove (c : Config) (i : Nat) : Prop :=
  ∃ t p r inst name, c.threads[i]? = some t ∧ t.base = .runner p r ∧ c.pars[p]? = some inst ∧
    (name, Exc.cancelled) ∈ inst.errors

/-- Whether a `CancelledError` is on its way depends on the threads and the `Parallel`s only. -/
theorem InFlight.congr (h : InFlight c i) (hthreads : c'.threads = c.threads)
    (hpars : c'.pars = c.pars) : InFlight c' i := by
  induction h with
  | raised hi hc => exact .raised (hthreads ▸ hi) hc
  | ended hi hc => exact .ended (hthreads ▸ hi) hc
  | recorded hi hc hp he => exact .recorded (hthreads ▸ hi) hc (hpars ▸ hp) he
  | inRegion hk hc hi hb _ ih => exact .inRegion (hthreads ▸ hk) hc (hthreads ▸ hi) hb ih

/-- **A `CancelledError` stays on its way**, or has just been recorded, as long as no `Parallel`
leaves it behind. -/
theorem InFlight.step (h : InFlight c k) (hw : WaitedFor c k) (hinv : ParInv tr c)
    (hkeep : KeepsCancelled c a) (hst : Engine.step c a = some (c', es)) :
    InFlight c' k ∨ RecordedAbove c' k := by
  rcases step_cases hst with ⟨tok, rfl, rfl, rfl⟩ | ⟨i, t, t', eff, hi, hs, rfl⟩
  · exact Or.inl (h.congr rfl rfl)
  -- the thread `k` after the step, in a `Parallel` that it was in before
  · have hstays : ∀ k u p phase, c.threads[k]? = some u → u.control = .par p phase →
        WaitedFor c k → InFlight c k → ∃ u', (c.commit i t' eff).threads[k]? = some u' ∧
          ((∃ phase', u'.control = .par p phase') ∨ u'.control = .done (.error .cancelled)) := by
      intro k u p phase hk hc hw hf
      obtain ⟨u', hu', ⟨rfl, rfl, rfl⟩ | ⟨-, rfl⟩⟩ := commit_thread_cases hi hk t' eff
      · have hact : a = .thread k := hs.act_eq (by rw [hc]; exact fun _ => nofun)
        exact ⟨u', hu', hs.par_left hk hc (hkeep k hact hw hf)⟩
      · exact ⟨u', hu', Or.inl ⟨phase, hc⟩⟩
    induction h with
    | @raised j u hj hc =>
        obtain ⟨u', hu', ⟨rfl, rfl, rfl⟩ | ⟨-, rfl⟩⟩ := commit_thread_cases hi hj t' eff
        · rcases hs.raised hc with hc' | hc' | ⟨p, r, hb, rfl⟩
          · exact Or.inl (.raised hu' hc')
          · exact Or.inl (.ended hu' hc')
          · obtain ⟨inst, hp⟩ : ∃ inst, c.pars[p]? = some inst :=
              ⟨_, List.getElem?_eq_getElem (hinv.runner j u p r hi hb)⟩
            refine Or.inr ⟨u', p, r, _, r.name, hu', hs.base_eq.trans hb,
              commit_pars_of_some hp, ?_⟩
            simp only [Effect.onPar, if_true]
            exact List.mem_append_right _ (List.mem_singleton_self _)
        · exact Or.inl (.raised hu' hc)
    | @ended j u hj hc =>
        obtain ⟨u', hu', ⟨-, rfl, -⟩ | ⟨-, rfl⟩⟩ := commit_thread_cases hi hj t' eff
        · exact absurd hc (hs.not_finished _)
        · exact Or.inl (.ended hu' hc)
    | @recorded j u p phase inst name hj hc hp he =>
        obtain ⟨u', hu', ⟨phase', hc'⟩ | hc'⟩ :=
          hstays j u p phase hj hc hw (.recorded hj hc hp he)
        · exact Or.inl (.recorded hu' hc' (commit_pars_of_some hp) (mem_onPar_errors he _))
        · exact Or.inl (.raised hu' hc')
    | @inRegion j l v u p r phase hk hc hj hb hf ih =>
        obtain ⟨u', hu', ⟨phase', hc'⟩ | hc'⟩ :=
          hstays l u p phase hk hc hw (.inRegion hk hc hj hb hf)
        · obtain ⟨v', hj', hbase⟩ := commit_base hi hs hj
          have hb' : v'.base = .runner p r := hbase.trans hb
          rcases ih (.region hj hb hk hc hw) with hf' | ⟨w, q, r', inst, name, hw', hbw, hp, he⟩
          · exact Or.inl (.inRegion hu' hc' hj' hb' hf')
          -- it is recorded in the `Parallel` that the thread `l` is in
          · obtain rfl := Option.some.inj (hj'.symm.trans hw')
            obtain ⟨rfl, rfl⟩ := Base.runner.inj (hb'.symm.trans hbw)
            exact Or.inl (.recorded hu' hc' hp he)
        · exact Or.inl (.raised hu' hc')

/-! ## The leaf that raises it -/

theorem leaf_of_finish {res : Result}
    (hst : Engine.step c (.leaf i (.finish res)) = some (c', es)) :
    ∃ t l, c.threads[i]? = some t ∧ t.control = .leaf l ∧
      c' = c.commit i { t with control := .done res } .none := by
  rcases step_cases hst with ⟨tok, hact, -, -⟩ | ⟨j, t, t', eff, hj, hs, rfl⟩
  · cases hact
  · cases hs with
    | leafFinish hc => exact ⟨t, _, hj, hc, rfl⟩

/-- A leaf that ends is still waited for. -/
theorem WaitedFor.leafFinish {res : Result} (h : WaitedFor c k)
    (hst : Engine.step c (.leaf i (.finish res)) = some (c', es)) : WaitedFor c' k := by
  obtain ⟨t, l, hi, hl, rfl⟩ := leaf_of_finish hst
  -- the other threads have not changed, and this one is in no `Parallel`
  have hbase : ∀ (m : Nat) (v : Thread), c.threads[m]? = some v → ∃ v' : Thread,
      (c.commit i { t with control := .done res } .none).threads[m]? = some v' ∧
        v'.base = v.base ∧ ((∀ l, v.control ≠ .leaf l) → v'.control = v.control) := by
    intro m v hm
    obtain ⟨v', hv', ⟨-, rfl, rfl⟩ | ⟨-, rfl⟩⟩ :=
      commit_thread_cases hi hm { t with control := .done res } .none
    · exact ⟨_, hv', rfl, fun hno => absurd hl (hno l)⟩
    · exact ⟨v', hv', rfl, fun _ => rfl⟩
  induction h with
  | caller => exact .caller
  | region hj hb hk hc _ ih =>
      obtain ⟨v, hv, hvb, -⟩ := hbase _ _ hj
      obtain ⟨u, hu, -, huc⟩ := hbase _ _ hk
      refine .region hv (hvb.trans hb) hu ((huc ?_).trans hc) ih
      rw [hc]
      exact fun _ => nofun

/-- What is waited for reaches the thread of the caller. -/
theorem InFlight.of_waitedFor (hw : WaitedFor c i) (h : InFlight c i) : InFlight c 0 := by
  induction hw with
  | caller => exact h
  | region hi hb hk hc _ ih => exact ih (.inRegion hk hc hi hb h)

theorem inFlight_of_leaf (hw : WaitedFor c i)
    (hst : Engine.step c (.leaf i (.finish (.error .cancelled))) = some (c', es)) :
    InFlight c' 0 := by
  refine InFlight.of_waitedFor (hw.leafFinish hst) ?_
  obtain ⟨t, l, hi, -, rfl⟩ := leaf_of_finish hst
  exact .raised (commit_thread_self hi) rfl

/-- A run that is over has come to the `CancelledError` that was on its way. -/
theorem InFlight.result (h : InFlight c 0) {res : Result} (hres : c.result = some res) :
    res = .error .cancelled := by
  obtain ⟨t, ht, hc⟩ := result_eq_some.mp hres
  cases h with
  | raised hi hd =>
      obtain rfl := Option.some.inj (ht.symm.trans hi)
      cases hc.symm.trans hd
  | ended hi hd =>
      obtain rfl := Option.some.inj (ht.symm.trans hi)
      exact Control.finished.inj (hc.symm.trans hd)
  | recorded hi hd _ _ =>
      obtain rfl := Option.some.inj (ht.symm.trans hi)
      cases hc.symm.trans hd
  | inRegion hk hd _ _ _ =>
      obtain rfl := Option.some.inj (ht.symm.trans hk)
      cases hc.symm.trans hd

/-- While a thread that is waited for is not finished, the run is not over. -/
theorem WaitedFor.result_none (h : WaitedFor c i) (hi : c.threads[i]? = some t)
    (hc : ∀ res, t.control ≠ .finished res) : c.result = none := by
  induction h generalizing t with
  | caller =>
      by_contra hne
      obtain ⟨res, hres⟩ := Option.ne_none_iff_exists'.mp hne
      obtain ⟨u, hu, hfin⟩ := result_eq_some.mp hres
      obtain rfl := Option.some.inj (hi.symm.trans hu)
      exact hc res hfin
  | region _ _ hk hpar _ ih =>
      refine ih hk ?_
      rw [hpar]
      exact fun _ => nofun

end Steps

section Runs

variable {root : Tree} {caller : Caller} {ctx : Ctx}

/-- On its way to the caller of the run: the invariant of a run that keeps it. -/
theorem inFlight_step {c c' : Config} {a : Act} {es tr : List Event}
    (hrun : Run step anyStep (.start root caller ctx) tr c) (h : InFlight c 0)
    (hkeep : KeepsCancelled c a) (hst : step c a = some (c', es)) : InFlight c' 0 := by
  rcases h.step .caller (ParInv.run hrun) hkeep hst with h | ⟨t, p, r, inst, name, ht, hb, -, -⟩
  · exact h
  -- the thread of the caller is in no region
  · have hrun' := hrun.append (Run.single trivial hst)
    obtain ⟨u, hu, hcaller⟩ := base_caller hrun'
    obtain rfl := Option.some.inj (ht.symm.trans hu)
    cases hb.symm.trans hcaller

theorem inFlight_run {c c' : Config} {tr tr' : List Event}
    (hrun : Run step anyStep (.start root caller ctx) tr c) (h : InFlight c 0)
    (hkeep : Run step KeepsCancelled c tr' c') : InFlight c' 0 := by
  have hboth : Run step anyStep (.start root caller ctx) (tr ++ tr') c' ∧ InFlight c' 0 := by
    refine hkeep.history (H := fun tr c => Run step anyStep (.start root caller ctx) tr c ∧
      InFlight c 0) ?_ ⟨hrun, h⟩
    rintro tr s a s' es ⟨hrun, h⟩ hP hst
    exact ⟨hrun.append (Run.single trivial hst), inFlight_step hrun h hP hst⟩
  exact hboth.2

/-- **`CancelledError` reaches the caller.** In a run that leaves none behind in a `Parallel`, once
a leaf that is waited for has raised it, the run can only end with it; and it does end, if no thread
is forgotten and every leaf ends. -/
theorem cancelled_kept (root : Tree) (caller : Caller) (ctx : Ctx) :
    (∀ (tr tr' es : List Event) (c c' c'' : Config) (i : Nat),
      Run step KeepsCancelled (.start root caller ctx) tr c → WaitedFor c i →
      step c (.leaf i (.finish (.error .cancelled))) = some (c', es) →
      Run step KeepsCancelled c' tr' c'' →
      ∀ res, c''.result = some res → res = .error .cancelled) ∧
    ∀ (r : Infinite step KeepsCancelled (.start root caller ctx)), Fair r → ∀ n i,
      r.act n = .leaf i (.finish (.error .cancelled)) → WaitedFor (r.state n) i →
      ∃ m, n < m ∧ (r.state m).result = some (.error .cancelled) := by
  constructor
  · intro tr tr' es c c' c'' i hrun hw hst hrun' res hres
    have hany := hrun.any.append (Run.single trivial hst)
    exact (inFlight_run hany (inFlight_of_leaf hw hst) hrun').result hres
  · intro r hfair n i hact hw
    have hraise := r.valid n
    rw [hact] at hraise
    have hrun := (r.run_upto (n + 1)).any
    have hflight : ∀ m, n + 1 ≤ m → InFlight (r.state m) 0 := by
      intro m hm
      induction m, hm using Nat.le_induction with
      | base => exact inFlight_of_leaf hw hraise
      | succ m hm ih => exact inFlight_step (r.run_upto m).any ih (r.meets m) (r.valid m)
    obtain ⟨N, res, hres⟩ := fair_run_ends r hfair
    -- the run is not over when the leaf raises
    have hlt : n < N := by
      by_contra hle
      have hover : ∀ m, N ≤ m → (r.state m).result = some res := by
        intro m hm
        induction m, hm using Nat.le_induction with
        | base => exact hres
        | succ m hm ih => exact result_step ih (r.valid m)
      obtain ⟨t, l, hi, hl, -⟩ := leaf_of_finish hraise
      have hnone := hw.result_none hi (by rw [hl]; exact fun _ => nofun)
      cases hnone.symm.trans (hover n (Nat.le_of_not_lt hle))
    exact ⟨N, hlt, by rw [hres, (hflight N hlt).result hres]⟩

end Runs

/-- No step leaves a `Parallel` other than with `CancelledError`, wherever it comes from. -/
def NeverOtherwise (c : Config) : Act → Prop
  | .thread i => c.leavesOtherwise i = false
  | _ => True

instance (c : Config) : (a : Act) → Decidable (NeverOtherwise c a)
  | .thread i => inferInstanceAs (Decidable (c.leavesOtherwise i = false))
  | .leaf _ _ => isTrue trivial
  | .request _ => isTrue trivial

theorem NeverOtherwise.keepsCancelled {c : Config} {a : Act} (h : NeverOtherwise c a) :
    KeepsCancelled c a := by
  rintro i rfl - -
  exact h

/-- A machine whose only child is `twoRegions`. -/
def watchedDrive : MachineInfo :=
  ⟨3, "WatchedDrive", .behaviorSM [], ["seen", "aborted"], some "both"⟩

def watchedChild : Child Tree :=
  ⟨"both", twoRegions, [("seen", "seen"), ("aborted", "aborted")]⟩

def watchedRun : Config :=
  .start (.machine watchedDrive [watchedChild]) (.run "") ⟨none, "WatchedDrive", false⟩

/-- The regions of `twoRegions`. -/
def driveRegion : Region Tree :=
  ⟨"drive", .leaf ⟨1, "DriveToPoseState", ["succeeded", "failed"]⟩, [("failed", "aborted")]⟩

def watchRegion : Region Tree :=
  ⟨"watch", .leaf ⟨2, "CaptureImageState", ["succeeded"]⟩, [("succeeded", "seen")]⟩

/-- Both regions have been started, and the first one is in its leaf. -/
def inDrive (drive : Control) : Config :=
  ⟨[⟨.caller (.run ""),
        [.machine ⟨0, watchedDrive, [watchedChild], "both", 1⟩ watchedChild "WatchedDrive"],
        .par 0 .poll, ⟨none, "WatchedDrive.both", false⟩, 1⟩,
      ⟨.runner 0 driveRegion, [], drive, .empty, 0⟩,
      ⟨.runner 0 watchRegion, [], .exec watchRegion.state, .empty, 0⟩],
    [⟨driveRegion, [watchRegion], [1, 2], none, []⟩], [], "WatchedDrive.both"⟩

theorem inDrive_waitedFor (drive : Control) : WaitedFor (inDrive drive) 1 :=
  .region rfl rfl rfl rfl .caller

def inLeaf : Config := inDrive (.leaf ⟨1, "DriveToPoseState", ["succeeded", "failed"]⟩)

def hasRaised : Config := inDrive (.done (.error .cancelled))

/-- Up to the start of the regions, and into the first one. -/
def intoLeaf : List Act :=
  [.thread 0, .thread 0, .thread 0, .thread 0, .thread 0, .thread 0, .thread 0, .thread 1]

theorem inLeaf_run : runActs step NeverOtherwise watchedRun intoLeaf =
    some (inLeaf, [.check 0 0 1 false, .start 0 0 1 "both"]) := by rfl

theorem inLeaf_raises :
    step inLeaf (.leaf 1 (.finish (.error .cancelled))) = some (hasRaised, []) := by rfl

/-- The first region records its `CancelledError`, the second one another exception after it. -/
def firstOfTwo : List Act :=
  [.thread 1, .thread 1, .thread 2, .leaf 2 (.finish (.error (.other "ValueError"))),
    .thread 2, .thread 2, .thread 0, .thread 0, .thread 0, .thread 0, .thread 0]

theorem firstOfTwo_isSome : (runActs step NeverOtherwise hasRaised firstOfTwo).isSome := by
  decide

theorem cancelled_kept_firstOfTwo : ∃ (tr : List Event) (c : Config) (res : Result),
    Run step KeepsCancelled hasRaised tr c ∧ c.result = some res ∧ res = .error .cancelled := by
  have hrun := (Run.of_runActs inLeaf_run).mono fun _ _ h => NeverOtherwise.keepsCancelled h
  have hrun' := (Run.of_isSome firstOfTwo_isSome).mono fun _ _ h => NeverOtherwise.keepsCancelled h
  exact ⟨_, _, .error .cancelled, hrun', rfl,
    (cancelled_kept _ _ _).1 _ _ _ _ _ _ 1 hrun (inDrive_waitedFor _)
      inLeaf_raises hrun' _ rfl⟩

/-- The second region wins before the first one is polled. -/
def winnerOfTwo : List Act :=
  [.thread 1, .thread 2, .leaf 2 (.finish (.ok "succeeded")), .thread 2, .thread 0, .thread 0,
    .thread 0]

theorem winnerOfTwo_isSome : (runActs step anyStep hasRaised winnerOfTwo).isSome := by decide

/-- A winner is returned although the other region has raised `CancelledError`. -/
theorem not_always_kept : ¬ ∀ (root : Tree) (ctx : Ctx) (tr tr' es : List Event)
    (c c' c'' : Config) (i : Nat), Run step anyStep (.start root (.run "") ctx) tr c →
    WaitedFor c i → step c (.leaf i (.finish (.error .cancelled))) = some (c', es) →
    Run step anyStep c' tr' c'' → ∀ res, c''.result = some res → res = .error .cancelled := by
  intro h
  cases h _ _ _ _ _ _ _ _ 1 (Run.of_runActs inLeaf_run).any (inDrive_waitedFor _)
    inLeaf_raises (Run.of_isSome winnerOfTwo_isSome) (.ok "seen") rfl

end RobotTaskManager.Engine
