import RobotTaskManager.Engine.StepCases

set_option autoImplicit false

/-! # `Parallel` with policy `first_wins`

What an execution of a `Parallel` is for, as a function of the lock-protected sections its
runners have gone through, in lock order: its winner is the first outcome that a region maps
(`firstMapped`), and before there is one every section has recorded an error
(`sectionError`). `ParInv` says that the `winner` and `errors` of the code are these functions
of the history, and what the thread that polls them knows in each phase; it holds in every
interleaving. The safety of `_execute_first_wins` follows.
-/

namespace RobotTaskManager.Engine

open Interleaving

/-! ## The history of an execution -/

/-- A lock-protected section: region, its mapping and how its state ended. -/
abbrev Section := String × OutcomeMap × Result

/-- The section an event of the execution `p` reports. -/
def Event.section? (p : Nat) : Event → Option Section
  | .runnerSection q n m r => if q = p then some (n, m, r) else none
  | _ => none

/-- The sections of the execution `p`, in lock order. -/
def sections (p : Nat) (tr : List Event) : List Section := tr.filterMap (Event.section? p)

/-- The mapped outcome of a section, if its region maps what its state returned. -/
def mapped : Section → Option String
  | (_, m, .ok raw) => m.lookup raw
  | (_, _, .error _) => none

/-- The mapped outcome of the first runner, in lock order, that has one. -/
def firstMapped (secs : List Section) : Option String := secs.findSome? mapped

/-- The error a section without mapped outcome records. -/
def sectionError : Section → Exc
  | (_, _, .error e) => e
  | (n, m, .ok raw) => .unmappedOutcome n raw ((m.map Prod.fst).insertionSort (· ≤ ·))

@[simp] theorem sections_append (p : Nat) (tr tr' : List Event) :
    sections p (tr ++ tr') = sections p tr ++ sections p tr' :=
  List.filterMap_append

@[simp] theorem sections_observe (p : Nat) (ctx : Ctx) (i : Nat) (enter : Bool) (path : String)
    (o : Option String) : sections p (observe ctx i enter path o) = [] := by
  unfold observe
  split <;> rfl

theorem firstMapped_append (secs secs' : List Section) :
    firstMapped (secs ++ secs') = (firstMapped secs).or (firstMapped secs') :=
  List.findSome?_append

theorem firstMapped_append_of_some {secs : List Section} {v : String}
    (h : firstMapped secs = some v) (secs' : List Section) :
    firstMapped (secs ++ secs') = some v := by
  rw [firstMapped_append, h, Option.some_or]

/-- `winner` and `errors` are what the history says. -/
structure ParHistory (inst : ParInst) (secs : List Section) : Prop where
  winner : inst.winner = firstMapped secs
  errors : firstMapped secs = none → inst.errors.map Prod.snd = secs.map sectionError

theorem ParHistory.runnerSection {inst : ParInst} {secs : List Section} (r : Region Tree)
    (res : Result) (h : ParHistory inst secs) :
    ParHistory (inst.runnerSection r res) (secs ++ [(r.name, r.outcomes, res)]) := by
  have hone : firstMapped [(r.name, r.outcomes, res)] = mapped (r.name, r.outcomes, res) := by
    cases hm : mapped (r.name, r.outcomes, res) <;> simp [firstMapped, hm]
  cases res with
  | error e =>
      have hlast : firstMapped (secs ++ [(r.name, r.outcomes, .error e)]) = firstMapped secs := by
        rw [firstMapped_append, hone]
        exact Option.or_none
      refine ⟨by rw [hlast]; exact h.winner, fun hn => ?_⟩
      rw [hlast] at hn
      simp only [ParInst.runnerSection, List.map_append, h.errors hn]
      rfl
  | ok raw =>
      cases hw : inst.winner with
      -- the section of a runner that comes late changes nothing
      | some v =>
          have hsome := firstMapped_append_of_some (h.winner.symm.trans hw)
            [(r.name, r.outcomes, .ok raw)]
          refine ⟨?_, fun hn => ?_⟩
          · simp only [ParInst.runnerSection, hw, hsome]
          · rw [hsome] at hn
            cases hn
      | none =>
          -- no winner yet: this section decides
          have hnone : firstMapped secs = none := h.winner.symm.trans hw
          have hlast : firstMapped (secs ++ [(r.name, r.outcomes, .ok raw)])
              = r.outcomes.lookup raw := by
            rw [firstMapped_append, hnone, hone]
            rfl
          cases hl : r.outcomes.lookup raw with
          | none =>
              refine ⟨?_, fun _ => ?_⟩
              · simp only [ParInst.runnerSection, hw, hl, hlast]
              · simp only [ParInst.runnerSection, hw, hl, List.map_append, h.errors hnone]
                rfl
          | some v =>
              refine ⟨?_, fun hn => ?_⟩
              · simp only [ParInst.runnerSection, hw, hl, hlast]
              · rw [hlast, hl] at hn
                cases hn

/-! ## Facts about single steps -/

/-- The runner of the thread has left its lock-protected section. -/
def Control.sectionDone : Control → Bool
  | .closing => true
  | .dead => true
  | _ => false

/-- The section an effect carries out on the execution `p`. -/
def Effect.sections (p : Nat) : Effect → List Section
  | .runnerSection q r res => if q = p then [(r.name, r.outcomes, res)] else []
  | _ => []

section Steps

variable {c c' : Config} {i j : Nat} {t t' u : Thread} {a : Act} {eff : Effect}
  {es : List Event} {p : Nat}

theorem ThreadStep.base_eq (h : ThreadStep c i t a t' eff es) : t'.base = t.base := by
  cases h <;> rfl

/-- A thread keeps its base. -/
theorem commit_base (hi : c.threads[i]? = some t) (hs : ThreadStep c i t a t' eff es) {j : Nat}
    {u : Thread} (hj : c.threads[j]? = some u) :
    ∃ u', (c.commit i t' eff).threads[j]? = some u' ∧ u'.base = u.base := by
  obtain ⟨u', hu', ⟨rfl, rfl, rfl⟩ | ⟨-, rfl⟩⟩ := commit_thread_cases hi hj t' eff
  · exact ⟨u', hu', hs.base_eq⟩
  · exact ⟨u', hu', rfl⟩

theorem step_base {c' : Config} {j : Nat} {u : Thread} (hst : Engine.step c a = some (c', es))
    (hj : c.threads[j]? = some u) : ∃ u', c'.threads[j]? = some u' ∧ u'.base = u.base := by
  rcases step_cases hst with ⟨tok, rfl, rfl, rfl⟩ | ⟨i, t, t', eff, hi, hs, rfl⟩
  · exact ⟨u, hj, rfl⟩
  · exact commit_base hi hs hj

/-- The events of a step report exactly the section it goes through. -/
theorem ThreadStep.sections_eq (h : ThreadStep c i t a t' eff es) (p : Nat) :
    sections p es = eff.sections p := by
  cases h with
  | startChild hc hf => exact sections_observe ..
  | childReturned hc hs => exact sections_observe ..
  | childRaised hc hs => exact sections_observe ..
  | runOver hc hs hb =>
      rw [sections_append, sections_observe]
      rfl
  | @runnerSection res q r hc hs hb =>
      by_cases hq : q = p <;> simp [Effect.sections, Engine.sections, Event.section?, hq]
  | _ => rfl

/-- A runner goes through its section when its thread leaves the last `execute`. -/
theorem ThreadStep.sectionDone_iff (h : ThreadStep c i t a t' eff es)
    (hd : t'.control.sectionDone = true) :
    t.control.sectionDone = true ∨
      ∃ q r res, t.base = .runner q r ∧ eff = .runnerSection q r res := by
  cases h with
  | @runnerSection res q r hc hs hb => exact Or.inr ⟨q, r, res, hb, rfl⟩
  | threadEnds hc => exact Or.inl (by rw [hc]; rfl)
  | leafPoll hc => exact Or.inl hd
  | retryOver hc hs hn => exact Or.inl hd
  | @childReturned f ch parentPath o rest hc hs =>
      rcases afterChild_done_or_loop f ch o with ⟨r, hr⟩ | ⟨f', hf'⟩
      · exact absurd (hr ▸ hd : (Control.done r).sectionDone = true) (by simp [Control.sectionDone])
      · exact absurd (hf' ▸ hd : (Control.loop f').sectionDone = true)
          (by simp [Control.sectionDone])
  | _ => cases hd

/-- A dead thread takes no step. -/
theorem ThreadStep.not_dead (h : ThreadStep c i t a t' eff es) : t.control ≠ .dead := by
  intro hd
  cases h <;> simp_all

/-- A thread is inside a `Parallel` after a step if it was, or has just created it. -/
theorem ThreadStep.par_cases (h : ThreadStep c i t a t' eff es) {phase : ParPhase}
    (hp : t'.control = .par p phase) :
    (∃ phase', t.control = .par p phase') ∨
      ∃ first rest, eff = .newPar first rest ∧ p = c.pars.length ∧
        phase = .starting (first :: rest) := by
  cases h with
  | @execParallel oid first rest hc =>
      cases hp
      exact Or.inr ⟨first, rest, rfl, rfl, rfl⟩
  | leafPoll hc => exact Or.inl ⟨phase, hp⟩
  | retryOver hc hs hn => exact Or.inl ⟨phase, hp⟩
  | @childReturned f ch parentPath o rest hc hs =>
      rcases afterChild_done_or_loop f ch o with ⟨r, hr⟩ | ⟨f', hf'⟩
      · exact absurd (hr.symm.trans hp) nofun
      · exact absurd (hf'.symm.trans hp) nofun
  | startRegion hc hi => cases hp; exact Or.inl ⟨_, hc⟩
  | allStarted hc hi => cases hp; exact Or.inl ⟨_, hc⟩
  | pollNone hc hi hw => cases hp; exact Or.inl ⟨_, hc⟩
  | allDead hc hi hd => cases hp; exact Or.inl ⟨_, hc⟩
  | someAlive hc hi hd => cases hp; exact Or.inl ⟨_, hc⟩
  | pollAgain hc hi hq => cases hp; exact Or.inl ⟨_, hc⟩
  | _ => cases hp

/-- Only the thread that is starting the regions of `p` adds a thread to it. -/
theorem ThreadStep.of_spawn {r : Region Tree} (h : ThreadStep c i t a t' (.spawn p r) es) :
    ∃ rest, t.control = .par p (.starting (r :: rest)) ∧
      t'.control = .par p (.starting rest) := by
  cases h with
  | @startRegion q inst r rest hc hi => exact ⟨rest, hc, rfl⟩

end Steps

/-! ## The invariant -/

/-- What the thread inside an execution knows in each phase: the regions it has not started
yet, from the polling on that it has started all of them, and after the loop that they have
all ended. -/
def PhaseOk (c : Config) (inst : ParInst) : ParPhase → Prop
  | .starting rest => inst.regions.drop inst.threads.length = rest
  | .final => inst.regions.length ≤ inst.threads.length ∧ c.allDead inst.threads = true
  | _ => inst.regions.length ≤ inst.threads.length

/-- The `k`th thread of an execution is the runner of its `k`th region, and has left its
section only if the history contains it. -/
def RegionThread (c : Config) (p : Nat) (inst : ParInst) (secs : List Section)
    (k j : Nat) : Prop :=
  ∃ r t, inst.regions[k]? = some r ∧ c.threads[j]? = some t ∧ t.base = .runner p r ∧
    (t.control.sectionDone = true → ∃ res, (r.name, r.outcomes, res) ∈ secs)

structure ParInv (tr : List Event) (c : Config) : Prop where
  history : ∀ p inst, c.pars[p]? = some inst → ParHistory inst (sections p tr)
  threads : ∀ p inst k j, c.pars[p]? = some inst → inst.threads[k]? = some j →
    RegionThread c p inst (sections p tr) k j
  phase : ∀ (j : Nat) (t : Thread) (p : Nat) (phase : ParPhase),
    c.threads[j]? = some t → t.control = .par p phase →
    ∃ inst, c.pars[p]? = some inst ∧ PhaseOk c inst phase
  owner : ∀ (j k : Nat) (t u : Thread) (p : Nat) (phase phase' : ParPhase),
    c.threads[j]? = some t → c.threads[k]? = some u →
    t.control = .par p phase → u.control = .par p phase' → j = k
  runner : ∀ (j : Nat) (t : Thread) (p : Nat) (r : Region Tree),
    c.threads[j]? = some t → t.base = .runner p r → p < c.pars.length
  fresh : ∀ p, c.pars.length ≤ p → sections p tr = []

theorem ParInv.start (root : Tree) (k : Caller) (ctx : Ctx) :
    ParInv [] (.start root k ctx) where
  history p inst h := by simp [Config.start] at h
  threads p inst k j h := by simp [Config.start] at h
  phase j t p phase h hc := by
    simp only [Config.start, List.getElem?_singleton] at h
    split at h
    · cases h
      cases hc
    · cases h
  owner j l t u p phase phase' h _ hc := by
    simp only [Config.start, List.getElem?_singleton] at h
    split at h
    · cases h
      cases hc
    · cases h
  runner j t p r h hb := by
    simp only [Config.start, List.getElem?_singleton] at h
    split at h
    · cases h
      cases hb
    · cases h
  fresh p _ := rfl

section Preservation

variable {c c' : Config} {i j : Nat} {t t' u : Thread} {a : Act} {eff : Effect}
  {es tr : List Event} {p : Nat}

/-- Dead threads stay dead. -/
theorem allDead_commit (hi : c.threads[i]? = some t) (hs : ThreadStep c i t a t' eff es)
    {threads : List Nat} (h : c.allDead threads = true) :
    (c.commit i t' eff).allDead threads = true := by
  rw [allDead_iff] at h ⊢
  intro j hj
  obtain ⟨u, hu, hd⟩ := h j hj
  have hji : j ≠ i := by
    rintro rfl
    exact hs.not_dead (Option.some.inj (hi.symm.trans hu) ▸ hd)
  exact ⟨u, by rw [commit_threads_of_lt hi hu, if_neg hji], hd⟩

/-- A lock-protected section writes `winner` and `errors` only. -/
theorem ParInst.runnerSection_writes (inst : ParInst) (r : Region Tree) (res : Result) :
    ∃ winner errors, inst.runnerSection r res
      = { inst with winner := winner, errors := errors } := by
  cases res with
  | error e => exact ⟨_, _, rfl⟩
  | ok raw =>
      simp only [ParInst.runnerSection]
      split
      · exact ⟨_, _, rfl⟩
      · split
        · exact ⟨_, _, rfl⟩
        · exact ⟨_, _, rfl⟩

theorem onPar_regions (eff : Effect) (n p : Nat) (inst : ParInst) :
    (eff.onPar n p inst).regions = inst.regions := by
  cases eff with
  | spawn q r =>
      simp only [Effect.onPar]
      split <;> rfl
  | runnerSection q r res =>
      obtain ⟨winner, errors, h⟩ := inst.runnerSection_writes r res
      simp only [Effect.onPar, h]
      split <;> rfl
  | _ => rfl

theorem onPar_threads (eff : Effect) (n p : Nat) (inst : ParInst) :
    (eff.onPar n p inst).threads = inst.threads ∨
      ∃ r, eff = .spawn p r ∧ (eff.onPar n p inst).threads = inst.threads ++ [n] := by
  cases eff with
  | spawn q r =>
      by_cases hq : q = p
      · subst hq
        exact Or.inr ⟨r, rfl, by simp [Effect.onPar]⟩
      · exact Or.inl (by simp [Effect.onPar, hq])
  | runnerSection q r res =>
      obtain ⟨winner, errors, h⟩ := inst.runnerSection_writes r res
      apply Or.inl
      simp only [Effect.onPar, h]
      split <;> rfl
  | _ => exact Or.inl rfl

theorem ParHistory.commit {inst : ParInst} (h : ParHistory inst (sections p tr))
    (hs : ThreadStep c i t a t' eff es) (n : Nat) :
    ParHistory (eff.onPar n p inst) (sections p (tr ++ es)) := by
  rw [sections_append, hs.sections_eq p]
  cases eff with
  | runnerSection q r res =>
      by_cases hq : q = p
      · simpa only [Effect.onPar, Effect.sections, if_pos hq] using h.runnerSection r res
      · simpa only [Effect.onPar, Effect.sections, if_neg hq, List.append_nil] using h
  | spawn q r =>
      simp only [Effect.onPar, Effect.sections, List.append_nil]
      split
      · exact ⟨h.winner, h.errors⟩
      · exact h
  | _ => simpa only [Effect.onPar, Effect.sections, List.append_nil] using h

/-- The runner threads that were there still run their region. -/
theorem RegionThread.commit {inst : ParInst} {k : Nat}
    (h : RegionThread c p inst (sections p tr) k j) (hi : c.threads[i]? = some t)
    (hs : ThreadStep c i t a t' eff es) (n : Nat) :
    RegionThread (c.commit i t' eff) p (eff.onPar n p inst) (sections p (tr ++ es)) k j := by
  obtain ⟨r, u, hr, hu, hb, hd⟩ := h
  rw [sections_append, hs.sections_eq p]
  obtain ⟨u', hu', hcases⟩ := commit_thread_cases hi hu t' eff
  refine ⟨r, u', (onPar_regions eff n p inst).symm ▸ hr, hu', ?_⟩
  -- the thread that takes the step is the only one that can leave its section in it
  rcases hcases with ⟨rfl, rfl, rfl⟩ | ⟨-, rfl⟩
  · refine ⟨hs.base_eq.trans hb, fun hd' => ?_⟩
    rcases hs.sectionDone_iff hd' with hd' | ⟨q, r', res, hb', rfl⟩
    · obtain ⟨res, hres⟩ := hd hd'
      exact ⟨res, List.mem_append_left _ hres⟩
    · obtain ⟨rfl, rfl⟩ : p = q ∧ r = r' := by simpa using hb.symm.trans hb'
      exact ⟨res, List.mem_append_right _ (by simp [Effect.sections])⟩
  · refine ⟨hb, fun hd' => ?_⟩
    obtain ⟨res, hres⟩ := hd hd'
    exact ⟨res, List.mem_append_left _ hres⟩

/-- What another thread than `i` knows about its execution survives the step. -/
theorem PhaseOk.commit {inst : ParInst} {phase : ParPhase} (h : PhaseOk c inst phase)
    (hi : c.threads[i]? = some t) (hs : ThreadStep c i t a t' eff es)
    (hne : ∀ r, eff ≠ .spawn p r) (n : Nat) :
    PhaseOk (c.commit i t' eff) (eff.onPar n p inst) phase := by
  have hth : (eff.onPar n p inst).threads = inst.threads := by
    rcases onPar_threads eff n p inst with h | ⟨r, hr, -⟩
    · exact h
    · exact absurd hr (hne r)
  cases phase with
  | final =>
      simp only [PhaseOk, onPar_regions, hth] at h ⊢
      exact ⟨h.1, allDead_commit hi hs h.2⟩
  | _ => simpa only [PhaseOk, onPar_regions, hth] using h

/-- What the thread `i` itself knows after its step. -/
theorem ThreadStep.phaseOk (hinv : ParInv tr c) (hi : c.threads[i]? = some t)
    (hs : ThreadStep c i t a t' eff es) {phase : ParPhase} (hp : t'.control = .par p phase) :
    ∃ inst, (c.commit i t' eff).pars[p]? = some inst ∧
      PhaseOk (c.commit i t' eff) inst phase := by
  have hold : ∀ {inst : ParInst} {phase' : ParPhase}, c.pars[p]? = some inst →
      t.control = .par p phase' → PhaseOk c inst phase' := by
    intro inst phase' hpar hc
    obtain ⟨inst', hpar', hok⟩ := hinv.phase i t p phase' hi hc
    exact Option.some.inj (hpar'.symm.trans hpar) ▸ hok
  -- the thread was inside `p` before, or the step creates `p`
  rcases hs.par_cases hp with ⟨phase', hc⟩ | ⟨first, rest, rfl, rfl, rfl⟩
  · obtain ⟨inst, hpar, hok⟩ := hinv.phase i t p phase' hi hc
    refine ⟨_, commit_pars_of_some hpar, ?_⟩
    cases hs with
    | leafPoll hl => exact absurd (hl.symm.trans hc) nofun
    | retryOver hl => exact absurd (hl.symm.trans hc) nofun
    | childReturned hl => exact absurd (hl.symm.trans hc) nofun
    | execParallel hl => exact absurd (hl.symm.trans hc) nofun
    | @startRegion q inst' r rest hl hq =>
        obtain ⟨rfl, rfl⟩ : q = p ∧ phase' = .starting (r :: rest) := by
          simpa [eq_comm] using hl.symm.trans hc
        obtain rfl : phase = .starting rest := by simpa [eq_comm] using hp
        have hdrop : inst.regions.drop inst.threads.length = r :: rest := hok
        show ((Effect.spawn q r).onPar c.threads.length q inst).regions.drop
          ((Effect.spawn q r).onPar c.threads.length q inst).threads.length = rest
        rw [onPar_regions]
        simp only [Effect.onPar, if_true, List.length_append, List.length_singleton]
        rw [← List.tail_drop, hdrop, List.tail_cons]
    | @allStarted q inst' hl hq =>
        obtain ⟨rfl, rfl⟩ : q = p ∧ phase' = .starting [] := by
          simpa [eq_comm] using hl.symm.trans hc
        obtain rfl : phase = .poll := by simpa [eq_comm] using hp
        exact List.drop_eq_nil_iff.mp hok
    | @pollNone q inst' hl hq hw =>
        obtain ⟨rfl, rfl⟩ : q = p ∧ phase' = .poll := by simpa [eq_comm] using hl.symm.trans hc
        obtain rfl : phase = .alive := by simpa [eq_comm] using hp
        exact hok
    -- the check of the threads has just seen all of them dead
    | @allDead q inst' hl hq hd =>
        obtain ⟨rfl, rfl⟩ : q = p ∧ phase' = .alive := by simpa [eq_comm] using hl.symm.trans hc
        obtain rfl : phase = .final := by simpa [eq_comm] using hp
        obtain rfl : inst' = inst := Option.some.inj (hq.symm.trans hpar)
        exact ⟨hok, allDead_commit hi (.allDead hl hq hd) hd⟩
    | @someAlive q inst' hl hq hd =>
        obtain ⟨rfl, rfl⟩ : q = p ∧ phase' = .alive := by simpa [eq_comm] using hl.symm.trans hc
        obtain rfl : phase = .cancel := by simpa [eq_comm] using hp
        exact hok
    | @pollAgain q inst' hl hq hr =>
        obtain ⟨rfl, rfl⟩ : q = p ∧ phase' = .cancel := by simpa [eq_comm] using hl.symm.trans hc
        obtain rfl : phase = .poll := by simpa [eq_comm] using hp
        exact hok
    | _ => cases hp
  · refine ⟨⟨first, rest, [], none, []⟩, ?_, rfl⟩
    simp [Config.commit]

theorem ParInv.commit (hinv : ParInv tr c) (hi : c.threads[i]? = some t)
    (hs : ThreadStep c i t a t' eff es) : ParInv (tr ++ es) (c.commit i t' eff) where
  history p inst hp := by
    rcases commit_pars_cases hp with ⟨inst₀, hp₀, rfl⟩ | ⟨first, rest, rfl, rfl, rfl⟩
    · exact (hinv.history p inst₀ hp₀).commit hs _
    · rw [sections_append, hs.sections_eq, hinv.fresh _ (Nat.le_refl _)]
      exact ⟨rfl, fun _ => rfl⟩
  threads p inst k j hp hj := by
    rcases commit_pars_cases hp with ⟨inst₀, hp₀, rfl⟩ | ⟨first, rest, rfl, rfl, rfl⟩
    · rcases onPar_threads eff c.threads.length p inst₀ with hth | ⟨r, rfl, hth⟩
      · rw [hth] at hj
        exact (hinv.threads p inst₀ k j hp₀ hj).commit hi hs _
      · rw [hth, List.getElem?_append] at hj
        split at hj
        · exact (hinv.threads p inst₀ k j hp₀ hj).commit hi hs _
        · -- the new thread runs the first region that was not started yet
          rw [List.getElem?_singleton] at hj
          split at hj
          · obtain ⟨rest, hc, -⟩ := hs.of_spawn
            obtain ⟨inst₁, hp₁, hok⟩ := hinv.phase i t p _ hi hc
            obtain rfl : inst₁ = inst₀ := Option.some.inj (hp₁.symm.trans hp₀)
            have hdrop : inst₁.regions.drop inst₁.threads.length = r :: rest := hok
            have hk : k = inst₁.threads.length := by omega
            refine ⟨r, regionThread p r, ?_, ?_, rfl, fun hd => by cases hd⟩
            · rw [onPar_regions, hk, ← List.head?_drop, hdrop]
              rfl
            · obtain rfl : c.threads.length = j := Option.some.inj hj
              simp [Config.commit]
          · cases hj
    · simp at hj
  phase j u p phase hj hc := by
    rcases commit_threads_cases hi hj with ⟨-, rfl⟩ | ⟨hne, hu⟩ | ⟨q, r, -, -, rfl⟩
    · exact hs.phaseOk hinv hi hc
    · obtain ⟨inst, hp, hok⟩ := hinv.phase j u p phase hu hc
      refine ⟨_, commit_pars_of_some hp, hok.commit hi hs ?_ _⟩
      -- a thread of `p` can only be started by the thread inside `p`
      rintro r rfl
      obtain ⟨rest, hc', -⟩ := hs.of_spawn
      exact hne (hinv.owner j i u t p _ _ hu hi hc hc')
    · cases hc
  owner j k u v p phase phase' hj hk hu hv := by
    -- an execution that a thread is inside is not the new one
    have hnew : ∀ {l : Nat} {w : Thread} {ph : ParPhase}, c.threads[l]? = some w →
        w.control = .par p ph → p ≠ c.pars.length := by
      intro l w ph hl hw
      obtain ⟨inst, hp, -⟩ := hinv.phase l w p ph hl hw
      exact Nat.ne_of_lt (List.getElem?_eq_some_iff.mp hp).1
    rcases commit_threads_cases hi hj with ⟨rfl, rfl⟩ | ⟨-, hj'⟩ | ⟨q, r, -, -, rfl⟩
    · rcases commit_threads_cases hi hk with ⟨rfl, rfl⟩ | ⟨-, hk'⟩ | ⟨q, r, -, -, rfl⟩
      · rfl
      · rcases hs.par_cases hu with ⟨phase₀, hc⟩ | ⟨first, rest, -, hp, -⟩
        · exact hinv.owner j k t v p _ _ hi hk' hc hv
        · exact absurd hp (hnew hk' hv)
      · cases hv
    · rcases commit_threads_cases hi hk with ⟨rfl, rfl⟩ | ⟨-, hk'⟩ | ⟨q, r, -, -, rfl⟩
      · rcases hs.par_cases hv with ⟨phase₀, hc⟩ | ⟨first, rest, -, hp, -⟩
        · exact hinv.owner j k u t p _ _ hj' hi hu hc
        · exact absurd hp (hnew hj' hu)
      · exact hinv.owner j k u v p _ _ hj' hk' hu hv
      · cases hv
    · cases hu
  runner j u p r hj hb := by
    have hlen : ∀ {q : Nat}, q < c.pars.length → q < (c.commit i t' eff).pars.length := by
      intro q hq
      exact (List.getElem?_eq_some_iff.mp
        (commit_pars_of_some (List.getElem?_eq_getElem hq))).1
    rcases commit_threads_cases hi hj with ⟨-, rfl⟩ | ⟨-, hj'⟩ | ⟨q, r', rfl, -, rfl⟩
    · exact hlen (hinv.runner i t p r hi (hs.base_eq.symm.trans hb))
    · exact hlen (hinv.runner j u p r hj' hb)
    · obtain ⟨rfl, rfl⟩ : q = p ∧ r' = r := by simpa [regionThread] using hb
      obtain ⟨rest, hc, -⟩ := hs.of_spawn
      obtain ⟨inst, hp, -⟩ := hinv.phase i t q _ hi hc
      exact hlen (List.getElem?_eq_some_iff.mp hp).1
  fresh p hp := by
    have hle : c.pars.length ≤ (c.commit i t' eff).pars.length := by
      cases eff <;> simp [Config.commit]
    rw [sections_append, hinv.fresh p (Nat.le_trans hle hp), hs.sections_eq, List.nil_append]
    cases eff with
    | runnerSection q r res =>
        have hq : q < c.pars.length := by
          cases hs with
          | runnerSection hc hst hb => exact hinv.runner i t q r hi hb
        exact if_neg (Nat.ne_of_lt (Nat.lt_of_lt_of_le hq (Nat.le_trans hle hp)))
    | _ => rfl

end Preservation

theorem ParInv.step {c c' : Config} {a : Act} {es tr : List Event} (hinv : ParInv tr c)
    (h : step c a = some (c', es)) : ParInv (tr ++ es) c' := by
  rcases step_cases h with ⟨tok, rfl, rfl, rfl⟩ | ⟨i, t, t', eff, hi, hs, rfl⟩
  · -- a request touches neither threads nor executions, and reports no section
    have hsec : ∀ p, sections p (tr ++ [Event.request tok]) = sections p tr := by
      intro p
      rw [sections_append]
      exact List.append_nil _
    exact
      { history := fun p inst hp => hsec p ▸ hinv.history p inst hp
        threads := fun p inst k j hp hj => hsec p ▸ hinv.threads p inst k j hp hj
        phase := hinv.phase
        owner := hinv.owner
        runner := hinv.runner
        fresh := fun p hp => (hsec p).trans (hinv.fresh p hp) }
  · exact hinv.commit hi hs

/-- The invariant holds in every interleaving. -/
theorem ParInv.run {root : Tree} {k : Caller} {ctx : Ctx} {P : Config → Act → Prop}
    {c : Config} {tr : List Event} (h : Run Engine.step P (.start root k ctx) tr c) :
    ParInv tr c := by
  have := h.history (H := ParInv) (fun _ _ _ _ _ hinv _ hs => hinv.step hs)
    (ParInv.start root k ctx)
  rwa [List.nil_append] at this

/-! ## Safety of `_execute_first_wins` -/

/-- Every region of the execution `p` has been started and its thread has ended, after its
lock-protected section. -/
def AllFinished (tr : List Event) (c : Config) (p : Nat) : Prop :=
  ∃ inst, c.pars[p]? = some inst ∧ inst.threads.length = inst.regions.length ∧
    (∀ j ∈ inst.threads, ∃ t, c.threads[j]? = some t ∧ t.control = .dead) ∧
    ∀ r ∈ inst.regions, ∃ res, (r.name, r.outcomes, res) ∈ sections p tr

section Safety

variable {c c' : Config} {i : Nat} {t t' : Thread} {es tr : List Event} {p : Nat}

theorem ParInv.allFinished (hinv : ParInv tr c) (hi : c.threads[i]? = some t)
    (hc : t.control = .par p .final) : AllFinished tr c p := by
  obtain ⟨inst, hp, hle, hdead⟩ := hinv.phase i t p _ hi hc
  rw [allDead_iff] at hdead
  -- at least as many threads as regions, and each thread runs a region of its own
  have hlen : inst.threads.length = inst.regions.length := by
    refine Nat.le_antisymm (Nat.le_of_not_lt fun hlt => ?_) hle
    obtain ⟨r, -, hr, -⟩ := hinv.threads p inst _ _ hp (List.getElem?_eq_getElem hlt)
    simp at hr
  refine ⟨inst, hp, hlen, hdead, fun r hr => ?_⟩
  obtain ⟨k, hk, rfl⟩ := List.getElem_of_mem hr
  have hk' : k < inst.threads.length := by omega
  obtain ⟨r', u, hr', hu, -, hsec⟩ :=
    hinv.threads p inst k _ hp (List.getElem?_eq_getElem hk')
  obtain rfl : inst.regions[k] = r' := by
    rw [List.getElem?_eq_getElem hk] at hr'
    exact Option.some.inj hr'
  obtain ⟨v, hv, hd⟩ := hdead _ (List.getElem_mem hk')
  obtain rfl : v = u := Option.some.inj (hv.symm.trans hu)
  exact hsec (by rw [hd]; rfl)

/-- The first error of an execution without winner is the error of its first section. -/
theorem ParHistory.head_error {inst : ParInst} {secs : List Section}
    (h : ParHistory inst secs) (hw : inst.winner = none) :
    inst.errors.head?.map Prod.snd = secs.head?.map sectionError := by
  have hnone : firstMapped secs = none := h.winner.symm.trans hw
  calc inst.errors.head?.map Prod.snd
    _ = (inst.errors.map Prod.snd).head? := List.head?_map.symm
    _ = (secs.map sectionError).head? := by rw [h.errors hnone]
    _ = secs.head?.map sectionError := List.head?_map

/-- After the loop there is a winner or an error. -/
theorem ParInv.errors_ne_nil (hinv : ParInv tr c) (hi : c.threads[i]? = some t)
    (hc : t.control = .par p .final) {inst : ParInst} (hp : c.pars[p]? = some inst)
    (hw : inst.winner = none) : inst.errors ≠ [] := by
  intro he
  obtain ⟨inst', hp', -, -, hsec⟩ := hinv.allFinished hi hc
  obtain rfl : inst' = inst := Option.some.inj (hp'.symm.trans hp)
  -- there is a first region, so there is a section, and its error comes first
  obtain ⟨res, hmem⟩ := hsec inst'.first List.mem_cons_self
  have hh := (hinv.history p inst' hp).head_error hw
  rw [he] at hh
  cases hs : sections p tr with
  | nil =>
      rw [hs] at hmem
      cases hmem
  | cons s secs => simp [hs] at hh

/-- How a thread leaves `_execute_first_wins`. -/
theorem ParInv.exit (hinv : ParInv tr c) (hi : c.threads[i]? = some t) {phase : ParPhase}
    (hc : t.control = .par p phase) (h : Engine.step c (.thread i) = some (c', es))
    (ht' : c'.threads[i]? = some t') :
    (∀ o, t'.control = .done (.ok o) → firstMapped (sections p tr) = some o) ∧
    ∀ e, t'.control = .done (.error e) →
      (phase = .cancel ∧ e = .cancelled ∧ ∃ tok, t.ctx.token = some tok ∧ tok ∈ c.requested) ∨
      (phase = .final ∧ AllFinished tr c p ∧ firstMapped (sections p tr) = none ∧
        (sections p tr).head?.map sectionError = some e) := by
  obtain ⟨inst, hp, -, rfl⟩ := step_of_par hi hc h
  obtain rfl : (parStep c t p inst phase).1 = t' :=
    Option.some.inj ((commit_thread_self hi).symm.trans ht')
  have hhist := hinv.history p inst hp
  cases phase with
  | starting rest =>
      cases rest with
      | nil => exact ⟨nofun, nofun⟩
      | cons r rest => exact ⟨nofun, nofun⟩
  | poll =>
      cases hw : inst.winner with
      | none => simp [parStep, hw]
      | some v =>
          have hv := hhist.winner.symm.trans hw
          simpa [parStep, hw] using hv
  | alive =>
      cases hd : c.allDead inst.threads <;> simp [parStep, hd]
  | cancel =>
      cases hr : c.isCancellationRequested t.ctx with
      | false => simp [parStep, hr]
      | true =>
          have htok := (isCancellationRequested_iff c t.ctx).mp hr
          simpa [parStep, hr] using htok
  | final =>
      cases hw : inst.winner with
      | some v =>
          have hv := hhist.winner.symm.trans hw
          simpa [parStep, hw] using hv
      | none =>
          cases he : inst.errors with
          -- the last `raise` of the code
          | nil => exact absurd he (hinv.errors_ne_nil hi hc hp hw)
          | cons ne es =>
              have hfirst := hhist.head_error hw
              have hnone := hhist.winner.symm.trans hw
              rw [he] at hfirst
              refine ⟨by simp [parStep, hw, he], fun e hce => Or.inr ⟨rfl, ?_, hnone, ?_⟩⟩
              · exact hinv.allFinished hi hc
              · obtain rfl : ne.2 = e := by simpa [parStep, hw, he] using hce
                exact hfirst.symm

/-- A recorded winner stays. -/
theorem ParInv.winner_stays {P : Config → Act → Prop} {tr' : List Event}
    (hinv : ParInv tr c) {inst : ParInst} {v : String} (hp : c.pars[p]? = some inst)
    (hw : inst.winner = some v) (h : Run Engine.step P c tr' c') :
    ∃ inst', c'.pars[p]? = some inst' ∧ inst'.winner = some v := by
  have hrun := h.history (H := fun tr c => ParInv tr c ∧
      firstMapped (sections p tr) = some v ∧ p < c.pars.length) ?_
    ⟨hinv, (hinv.history p inst hp).winner.symm.trans hw, (List.getElem?_eq_some_iff.mp hp).1⟩
  · obtain ⟨hinv', hfirst, hlt⟩ := hrun
    refine ⟨_, List.getElem?_eq_getElem hlt, ?_⟩
    rw [(hinv'.history p _ (List.getElem?_eq_getElem hlt)).winner, hfirst]
  · rintro tr s a s' es ⟨hinv, hfirst, hlt⟩ - hst
    refine ⟨hinv.step hst, ?_, ?_⟩
    · rw [sections_append]
      exact firstMapped_append_of_some hfirst _
    · rcases step_cases hst with ⟨tok, -, -, rfl⟩ | ⟨i, t, t', eff, -, -, rfl⟩
      · exact hlt
      · exact (List.getElem?_eq_some_iff.mp
          (commit_pars_of_some (List.getElem?_eq_getElem hlt))).1

/-- The last `raise` of `_execute_first_wins` is never reached. -/
theorem ParInv.no_parNoOutcome (hinv : ParInv tr c) {a : Act}
    (h : Engine.step c a = some (c', es)) : Event.parNoOutcome p ∉ es := by
  rcases step_cases h with ⟨tok, -, rfl, -⟩ | ⟨i, t, t', eff, hi, hs, rfl⟩
  · simp
  · have hobs : ∀ ctx i enter path o, Event.parNoOutcome p ∉ observe ctx i enter path o := by
      intro ctx i enter path o
      unfold observe
      split <;> simp
    cases hs with
    | finalNone hc hp hw he => exact absurd he (hinv.errors_ne_nil hi hc hp hw)
    | startChild hc hf => simp [hobs]
    | childReturned hc hf => exact hobs _ _ _ _ _
    | childRaised hc hf => exact hobs _ _ _ _ _
    | runOver hc hst hb => simp [hobs]
    | _ => simp

/-- **Safety of `first_wins` in every interleaving.** A recorded winner never changes, and a
thread inside `_execute_first_wins` returns only the mapped outcome of the first runner that
has one; when it has given up polling it returns that outcome if there is one; it raises
`CancelledError` only if the token it sees is set, and an error of a region only when all
regions have finished without a mapped outcome, and then the first one recorded. -/
theorem first_wins_safe {root : Tree} {k : Caller} {ctx : Ctx} {tr : List Event} {c : Config}
    (h : Run Engine.step anyStep (.start root k ctx) tr c) :
    (∀ (p : Nat) (inst : ParInst) (v : String), c.pars[p]? = some inst →
        inst.winner = some v → ∀ (tr' : List Event) (c' : Config),
      Run Engine.step anyStep c tr' c' →
        ∃ inst' : ParInst, c'.pars[p]? = some inst' ∧ inst'.winner = some v) ∧
    (∀ (i : Nat) (t : Thread) (p : Nat) (phase : ParPhase) (c' : Config) (es : List Event)
        (t' : Thread), c.threads[i]? = some t → t.control = .par p phase →
        Engine.step c (.thread i) = some (c', es) → c'.threads[i]? = some t' →
      (∀ o, t'.control = .done (.ok o) → firstMapped (sections p tr) = some o) ∧
      ∀ e, t'.control = .done (.error e) →
        (phase = .cancel ∧ e = .cancelled ∧
          ∃ tok, t.ctx.token = some tok ∧ tok ∈ c.requested) ∨
        (phase = .final ∧ AllFinished tr c p ∧ firstMapped (sections p tr) = none ∧
          (sections p tr).head?.map sectionError = some e)) ∧
    (∀ (i : Nat) (t : Thread) (p : Nat) (v : String), c.threads[i]? = some t →
        t.control = .par p .final → firstMapped (sections p tr) = some v →
      ∃ (c' : Config) (t' : Thread), Engine.step c (.thread i) = some (c', [.parReturn p v]) ∧
        c'.threads[i]? = some t' ∧ t'.control = .done (.ok v)) ∧
    ∀ p, Event.parNoOutcome p ∉ tr := by
  have hinv := ParInv.run h
  refine ⟨?_, ?_, ?_, ?_⟩
  · intro p inst v hp hw tr' c' hr
    exact hinv.winner_stays hp hw hr
  · intro i t p phase c' es t' hi hc hst ht'
    exact hinv.exit hi hc hst ht'
  · intro i t p v hi hc hfirst
    obtain ⟨inst, hp, -⟩ := hinv.phase i t p _ hi hc
    have hw : inst.winner = some v := (hinv.history p inst hp).winner.trans hfirst
    refine ⟨c.commit i { t with control := .done (.ok v) } .none, _, ?_,
      commit_thread_self hi, rfl⟩
    simp [Engine.step, hi, actStep, threadStep, hc, hp, parStep, hw]
  · intro p hmem
    obtain ⟨tr₁, c₁, a, c₂, es, tr₂, hr, -, hst, he, -, -⟩ := h.exists_step_of_mem hmem
    exact (ParInv.run hr).no_parNoOutcome hst he

end Safety

/-- Two leaves side by side; only what the second returns is mapped. -/
def twoRegions : Tree :=
  .parallel 0 ⟨"drive", .leaf ⟨1, "DriveToPoseState", ["succeeded", "failed"]⟩,
      [("failed", "aborted")]⟩
    [⟨"watch", .leaf ⟨2, "CaptureImageState", ["succeeded"]⟩, [("succeeded", "seen")]⟩]

/-- Both regions end between the check of the winner and the check of the threads. -/
def lateWinner : List Act :=
  [.thread 0, .thread 0, .thread 0, .thread 0, .thread 0,
    .thread 1, .leaf 1 (.finish (.ok "succeeded")), .thread 1, .thread 1,
    .thread 2, .leaf 2 (.finish (.ok "succeeded")), .thread 2, .thread 2, .thread 0]

theorem first_wins_safe_lateWinner :
    ∃ (tr : List Event) (c c' : Config) (t' : Thread),
      Run Engine.step anyStep (.start twoRegions .execute .empty) tr c ∧
      Engine.step c (.thread 0) = some (c', [.parReturn 0 "seen"]) ∧
      c'.threads[0]? = some t' ∧ t'.control = .done (.ok "seen") := by
  have hacts : (runActs Engine.step anyStep (.start twoRegions .execute .empty)
      lateWinner).isSome := by decide
  have hrun := Run.of_isSome hacts
  obtain ⟨c', t', h⟩ := (first_wins_safe hrun).2.2.1 0 _ 0 "seen" rfl rfl rfl
  exact ⟨_, _, c', t', hrun, h⟩

end RobotTaskManager.Engine
