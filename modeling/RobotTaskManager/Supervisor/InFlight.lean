import RobotTaskManager.Supervisor.Node
import RobotTaskManager.Lib.Run

set_option autoImplicit false

/-! # The `in_flight` flag

The flag of a skill stands for the one call its chain waits for: a `get_state` call and then,
perhaps, a `change_state` call. `_kick` clears it when the deadline of the call has passed. If
the call still completes afterwards, its done callback works on the flag of a newer chain.
`KeepsFlag` excludes this: the call given up is not a `change_state` call, and the late reply of
a `get_state` call finds no newer chain and asks for no transition.
-/

namespace RobotTaskManager.Supervisor

open Interleaving
open Ros (primaryStateUnconfigured primaryStateInactive)

/-! ## The property -/

def Call.isChange (c : Call) : Bool := c.request ≠ .getState

/-- The number of outstanding `change_state` calls. -/
def Slot.changing (slot : Slot) : Nat := slot.calls.countP Call.isChange

/-- At most one `change_state` call of each skill is outstanding. -/
def AtMostOneChange (s : State) : Prop := ∀ slot ∈ s.slots, slot.changing ≤ 1

/-- No `change_state` call was made because of a `get_state` call that had been given up. -/
def NoStaleChange (tr : List Event) : Prop := ∀ k t, Event.changeState k t true ∉ tr

/-! ## The condition -/

/-- What is given up is never a `change_state` call. A `get_state` call that was given up
completes, if at all, while nothing is in flight, and not with a state that leads to a
transition (unless `change_state` is away). -/
def KeepsFlag (s : State) : Act → Prop
  | .kick _ _ =>
      match s.next with
      | none => True
      | some slot =>
          slot.skill.timedOut s.clock = true → ∀ c ∈ slot.calls, c.isChange = false
  | .stateDone k i c ready =>
      match s.callOf k i with
      | none => True
      | some (skill, call) =>
          call.givenUp = true → skill.inFlight = false ∧ (ready = false ∨ c.transition = none)
  | _ => True

instance (s : State) (a : Act) : Decidable (KeepsFlag s a) :=
  match a with
  | .advance _ => isTrue trivial
  | .pollAll => isTrue trivial
  | .transitionDone _ _ _ => isTrue trivial
  | .kick _ _ =>
      match h : s.next with
      | none => isTrue (by simp only [KeepsFlag, h])
      | some slot =>
          decidable_of_iff
            (slot.skill.timedOut s.clock = true → ∀ c ∈ slot.calls, c.isChange = false)
            (by simp only [KeepsFlag, h])
  | .stateDone k i c ready =>
      match h : s.callOf k i with
      | none => isTrue (by simp only [KeepsFlag, h])
      | some (skill, call) =>
          decidable_of_iff (call.givenUp = true →
            skill.inFlight = false ∧ (ready = false ∨ c.transition = none))
            (by simp only [KeepsFlag, h])

/-! ## The invariant -/

/-- The number of outstanding calls that have not been given up. -/
def Slot.live (slot : Slot) : Nat := slot.calls.countP fun c => !c.givenUp

/-- The flag is set exactly when there is a call to wait for, and then there is one. -/
structure SlotInv (slot : Slot) : Prop where
  live : slot.live = if slot.skill.inFlight then 1 else 0
  change : ∀ c ∈ slot.calls, c.isChange = true → c.givenUp = false

theorem countP_eraseIdx {α : Type} {l : List α} {i : Nat} {a : α} (h : l[i]? = some a)
    (p : α → Bool) : l.countP p = (l.eraseIdx i).countP p + if p a then 1 else 0 := by
  obtain ⟨hi, rfl⟩ := List.getElem?_eq_some_iff.mp h
  rw [List.eraseIdx_eq_take_drop_succ, List.countP_append]
  calc l.countP p
      = (l.take i ++ l[i] :: l.drop (i + 1)).countP p := by
        rw [List.getElem_cons_drop, List.take_append_drop]
    _ = (l.take i).countP p + (l.drop (i + 1)).countP p + if p l[i] then 1 else 0 := by
        rw [List.countP_append, List.countP_cons]
        omega

theorem SlotInv.new (name : String) : SlotInv ⟨.new name, []⟩ := ⟨rfl, nofun⟩

theorem SlotInv.changing_le {slot : Slot} (h : SlotInv slot) : slot.changing ≤ 1 := by
  have hle : slot.changing ≤ slot.live := by
    refine List.countP_mono_left fun c hc hch => ?_
    rw [h.change c hc hch]
    rfl
  have hlive := h.live
  split at hlive <;> omega

/-- A reply that asks for no transition, or finds `change_state` away, fires none. -/
theorem onState_quiet (skill : ManagedSkill) (now : Nat) {ready : Bool} {c : Completion Nat}
    (h : ready = false ∨ c.transition = none) : (onState skill now ready c).2 = none := by
  rw [onState_transition]
  rcases h with h | h
  · rw [h]
    rfl
  · rw [h, ite_self]

section Callbacks

variable {slot : Slot} {now i : Nat}

/-- A call that is erased takes its share of the live calls with it. -/
theorem SlotInv.live_eraseIdx (h : SlotInv slot) {c : Call} (hc : slot.calls[i]? = some c) :
    (slot.calls.eraseIdx i).countP (fun c => !c.givenUp) + (if c.givenUp then 0 else 1) =
      if slot.skill.inFlight then 1 else 0 := by
  have hcount : slot.live = _ := countP_eraseIdx hc fun c => !c.givenUp
  rw [h.live] at hcount
  cases hg : c.givenUp with
  | true => simpa [hg] using hcount.symm
  | false => simpa [hg] using hcount.symm

theorem SlotInv.kick (h : SlotInv slot) (ready : Bool) (delay : Nat)
    (hP : slot.skill.timedOut now = true → ∀ c ∈ slot.calls, c.isChange = false) :
    SlotInv (slot.kick now ready delay) := by
  rcases kick_cases slot.skill now ready delay with ⟨hf, ht, hk⟩ | ⟨hout, hflag, -⟩
  -- the call in flight has time left
  · have hsame : slot.kick now ready delay = slot := by simp [Slot.kick, hk, ht]
    rw [hsame]
    exact h
  -- the calls that are left have all been given up, and none of them is `change_state`
  · obtain ⟨calls, hcalls, hlive, hchange⟩ : ∃ calls : List Call,
        (if slot.skill.timedOut now then slot.calls.map fun c => { c with givenUp := true }
          else slot.calls) = calls ∧ calls.countP (fun c => !c.givenUp) = 0 ∧
        ∀ c ∈ calls, c.isChange = true → c.givenUp = false := by
      refine ⟨_, rfl, ?_, ?_⟩
      · by_cases ht : slot.skill.timedOut now = true
        · simp [ht]
        · have hf : slot.skill.inFlight = false := by
            by_contra hf
            exact ht (hout (by simpa using hf))
          have := h.live
          simpa [hf, ht, Slot.live] using this
      · by_cases ht : slot.skill.timedOut now = true
        · rw [if_pos ht]
          intro c hc hch
          obtain ⟨c', hc', rfl⟩ := List.mem_map.mp hc
          have hno : c'.isChange = false := hP ht c' hc'
          have : c'.isChange = true := hch
          rw [hno] at this
          cases this
        · rw [if_neg ht]
          exact h.change
    constructor
    · rw [Slot.live, Slot.kick, hcalls, hflag]
      cases (Supervisor.kick slot.skill now ready delay).2 with
      | true => simp [List.countP_append, hlive]
      | false => simp [hlive]
    · rw [Slot.kick, hcalls]
      intro c hc hch
      split at hc
      · rcases List.mem_append.mp hc with hc | hc
        · exact hchange c hc hch
        · obtain rfl := List.mem_singleton.mp hc
          rfl
      · exact hchange c hc hch

theorem SlotInv.stateDone (h : SlotInv slot) {stale : Bool}
    (hc : slot.calls[i]? = some ⟨.getState, stale⟩) (ready : Bool) (c : Completion Nat)
    (hP : stale = true → slot.skill.inFlight = false ∧ (ready = false ∨ c.transition = none)) :
    SlotInv (slot.stateDone i now ready c) := by
  have herase := h.live_eraseIdx hc
  have hflag := onState_inFlight slot.skill now ready c
  constructor
  · rw [Slot.live, Slot.stateDone, hflag]
    cases hs : stale with
    | true =>
        obtain ⟨hoff, hquiet⟩ := hP hs
        have hnone := onState_quiet slot.skill now hquiet
        simpa [hs, hoff, hnone] using herase
    | false =>
        have hon : slot.skill.inFlight = true := by
          by_contra hoff
          simp [hs, hoff] at herase
        cases ht : (onState slot.skill now ready c).2 with
        | none => simpa [hs, hon, ht] using herase
        | some t => simpa [hs, hon, ht, List.countP_append] using herase
  · intro c' hc' hch
    rcases List.mem_append.mp hc' with hc' | hc'
    · exact h.change c' (List.mem_of_mem_eraseIdx hc') hch
    · obtain ⟨t, -, rfl⟩ := List.mem_map.mp hc'
      rfl

theorem SlotInv.transitionDone (h : SlotInv slot) {t : Nat} {stale : Bool}
    (hc : slot.calls[i]? = some ⟨.changeState t, stale⟩) : SlotInv (slot.transitionDone i) := by
  have hlive : stale = false := h.change _ (List.mem_of_getElem? hc) rfl
  have herase := h.live_eraseIdx hc
  have hon : slot.skill.inFlight = true := by
    by_contra hoff
    simp [hlive, hoff] at herase
  constructor
  · simpa [Slot.live, Slot.transitionDone, onTransitionDone, hlive, hon] using herase
  · exact fun c' hc' => h.change c' (List.mem_of_mem_eraseIdx hc')

end Callbacks

/-! ## Runs -/

def Inv (s : State) : Prop := ∀ slot ∈ s.slots, SlotInv slot

theorem Inv.init (managedNodes : List String) (clock : Nat) : Inv (.init managedNodes clock) := by
  intro slot hs
  obtain ⟨name, -, rfl⟩ := List.mem_map.mp hs
  exact SlotInv.new name

theorem Inv.set {slots : List Slot} (h : ∀ slot ∈ slots, SlotInv slot) {slot : Slot}
    (hs : SlotInv slot) (k : Nat) : ∀ slot' ∈ slots.set k slot, SlotInv slot' := by
  intro slot' hm
  rcases List.mem_or_eq_of_mem_set hm with hm | rfl
  · exact h slot' hm
  · exact hs

section Steps

variable {s s' : State} {a : Act} {es : List Event}

/-- A step that meets the condition keeps the invariant, and sends no stale transition. -/
theorem Inv.step (h : Inv s) (hP : KeepsFlag s a) (hst : step s a = some (s', es)) :
    Inv s' ∧ NoStaleChange es := by
  rcases step_cases hst with ⟨d, rfl, rfl, rfl⟩ | ⟨rfl, -, rfl, rfl⟩ |
    ⟨ready, delay, k, slot, rfl, hp, hs, rfl, hes⟩ |
    ⟨k, i, c, ready, slot, stale, rfl, -, hs, hc, rfl, rfl⟩ |
    ⟨k, i, c, slot, t, stale, rfl, -, hs, hc, rfl, rfl⟩
  · exact ⟨h, nofun⟩
  · exact ⟨h, nofun⟩
  · have hslot := h slot (List.mem_of_getElem? hs)
    have hnext : s.next = some slot := by rw [State.next, hp]; exact hs
    refine ⟨Inv.set h (hslot.kick ready delay ?_) k, fun k' t hm => ?_⟩
    · simpa only [KeepsFlag, hnext] using hP
    · cases hes _ hm
  · have hslot := h slot (List.mem_of_getElem? hs)
    have hcall : s.callOf k i = some (slot.skill, ⟨.getState, stale⟩) := by
      simp [State.callOf, hs, hc]
    have hquiet : stale = true →
        slot.skill.inFlight = false ∧ (ready = false ∨ c.transition = none) := by
      simpa only [KeepsFlag, hcall] using hP
    refine ⟨Inv.set h (hslot.stateDone hc ready c hquiet) k, fun k' t hm => ?_⟩
    obtain ⟨t', ht', he⟩ := List.mem_map.mp hm
    cases he
    -- a late reply that meets the condition leads to no transition
    rw [onState_quiet slot.skill s.clock (hquiet rfl).2] at ht'
    cases ht'
  · have hslot := h slot (List.mem_of_getElem? hs)
    exact ⟨Inv.set h (hslot.transitionDone hc) k, nofun⟩

end Steps

/-- In a run whose steps meet the condition. -/
theorem keepsFlag_safe {managedNodes : List String} {clock : Nat} {tr : List Event} {s : State}
    (h : Run step KeepsFlag (.init managedNodes clock) tr s) : Inv s ∧ NoStaleChange tr := by
  have hboth : Inv s ∧ NoStaleChange ([] ++ tr) := by
    refine h.history (H := fun tr s => Inv s ∧ NoStaleChange tr) ?_ ⟨Inv.init _ _, nofun⟩
    intro tr s a s' es hH hP hst
    obtain ⟨hinv, hstale⟩ := hH.1.step hP hst
    refine ⟨hinv, fun k t hm => ?_⟩
    rcases List.mem_append.mp hm with hm | hm
    · exact hH.2 k t hm
    · exact hstale k t hm
  exact hboth

/-! ## After a step that does not meet the condition

Two outstanding calls of one skill are enough: the reply of each that is a `get_state` call may
come next and say `unconfigured`. -/

section Race

variable {s s' : State} {k : Nat} {slot : Slot}

/-- The position of a poll is the number of a skill. -/
def PollInv (s : State) : Prop := ∀ k, s.polling = some k → k < s.slots.length

theorem pollFrom_lt {j : Nat} (h : s.pollFrom j = some k) : k < s.slots.length := by
  rw [State.pollFrom] at h
  split at h
  · cases h
    assumption
  · cases h

theorem PollInv.step {a : Act} {es : List Event} (h : PollInv s)
    (hst : step s a = some (s', es)) : PollInv s' := by
  rcases step_cases hst with ⟨d, -, rfl, -⟩ | ⟨-, -, rfl, -⟩ |
    ⟨ready, delay, j, slot, -, -, -, rfl, -⟩ | ⟨j, i, c, ready, slot, stale, -, hp, -, -, rfl, -⟩ |
    ⟨j, i, c, slot, t, stale, -, hp, -, -, rfl, -⟩
  · exact h
  · exact fun k hk => pollFrom_lt hk
  · intro k hk
    have := pollFrom_lt (s := s) hk
    simpa using this
  · exact fun k hk => by rw [hp] at hk; cases hk
  · exact fun k hk => by rw [hp] at hk; cases hk

theorem run_kick {j : Nat} (hp : s.polling = some j) (hs : s.slots[j]? = some slot)
    (ready : Bool) : ∃ es, Run step anyStep s es
      ⟨s.clock + 0, s.slots.set j (slot.kick s.clock ready 0), s.pollFrom (j + 1)⟩ :=
  ⟨_, Run.single (a := .kick ready 0) trivial (by simp only [step, hp, hs]; rfl)⟩

/-- `_poll_all` goes on to skill `k`; the skills before it may be away. -/
theorem poll_to {j : Nat} (hp : s.polling = some j) (hj : j ≤ k) (hs : s.slots[k]? = some slot) :
    ∃ tr s', Run step anyStep s tr s' ∧ s'.polling = some k ∧ s'.slots[k]? = some slot := by
  -- one kick for each skill from `j` up to `k`
  induction hn : k - j generalizing j s with
  | zero =>
      obtain rfl : j = k := by omega
      exact ⟨[], s, Run.nil s, hp, hs⟩
  | succ n ih =>
      obtain ⟨hk, -⟩ := List.getElem?_eq_some_iff.mp hs
      have hlt : j < s.slots.length := by omega
      obtain ⟨es, hkick⟩ := run_kick hp (List.getElem?_eq_getElem hlt) false
      have hp' : s.pollFrom (j + 1) = some (j + 1) := by rw [State.pollFrom, if_pos (by omega)]
      obtain ⟨tr, s₂, hrun, h₂⟩ := ih
        (s := ⟨s.clock + 0, s.slots.set j (s.slots[j].kick s.clock false 0), s.pollFrom (j + 1)⟩)
        hp' (by omega) (by rw [List.getElem?_set_ne (by omega)]; exact hs) (by omega)
      exact ⟨_, s₂, hkick.append hrun, h₂⟩

/-- `_poll_all` comes to its end; a skill it has passed stays as it is. -/
theorem poll_end (hinv : PollInv s) (hk : ∀ j, s.polling = some j → k < j)
    (hs : s.slots[k]? = some slot) :
    ∃ tr s', Run step anyStep s tr s' ∧ s'.polling = none ∧ s'.slots[k]? = some slot := by
  cases hp : s.polling with
  | none => exact ⟨[], s, Run.nil s, hp, hs⟩
  | some j =>
      induction hn : s.slots.length - j generalizing j s with
      | zero =>
          have := hinv j hp
          omega
      | succ n ih =>
          obtain ⟨es, hkick⟩ := run_kick hp (List.getElem?_eq_getElem (hinv j hp)) false
          have hkj := hk j hp
          have hs' : (s.slots.set j (s.slots[j].kick s.clock false 0))[k]? = some slot := by
            rw [List.getElem?_set_ne (by omega)]
            exact hs
          by_cases hlt : j + 1 < s.slots.length
          · have hp' : s.pollFrom (j + 1) = some (j + 1) := by rw [State.pollFrom, if_pos hlt]
            obtain ⟨tr, s₂, hrun, h₂⟩ := ih
              (s := ⟨s.clock + 0, s.slots.set j (s.slots[j].kick s.clock false 0),
                s.pollFrom (j + 1)⟩)
              (hinv.step (a := .kick false 0) (by
                simp only [step, hp, List.getElem?_eq_getElem (hinv j hp)]; rfl))
              (fun i hi => by
                obtain rfl := Option.some.inj (hp'.symm.trans hi)
                omega)
              hs' (j + 1) hp' (by rw [List.length_set]; omega)
            exact ⟨_, s₂, hkick.append hrun, h₂⟩
          · refine ⟨es, _, hkick, ?_, hs'⟩
            show s.pollFrom (j + 1) = none
            rw [State.pollFrom, if_neg hlt]

/-- With the flag off, the next poll calls `get_state`, whatever else is outstanding. -/
theorem poll_calls (hinv : PollInv s) (hp : s.polling = none) (hs : s.slots[k]? = some slot)
    (hoff : slot.skill.inFlight = false) : ∃ tr s' slot', Run step anyStep s tr s' ∧
      PollInv s' ∧ s'.polling = none ∧ s'.slots[k]? = some slot' ∧
      slot'.calls.length = slot.calls.length + 1 := by
  obtain ⟨hk, -⟩ := List.getElem?_eq_some_iff.mp hs
  -- the timer fires
  have hfirst : s.pollFrom 0 = some 0 := by rw [State.pollFrom, if_pos (by omega)]
  have htick : Run step anyStep s [] { s with polling := s.pollFrom 0 } :=
    Run.single (a := .pollAll) trivial (by simp only [step, hp])
  -- the loop comes to skill `k`, and kicks it
  obtain ⟨tr₁, s₁, hto, hp₁, hs₁⟩ := poll_to (s := { s with polling := s.pollFrom 0 })
    hfirst (Nat.zero_le k) hs
  obtain ⟨es, hkick⟩ := run_kick hp₁ hs₁ true
  have hrun := (htick.append hto).append hkick
  have hinv₂ := hrun.invariant (I := PollInv) (fun _ _ _ _ h _ hst => h.step hst) hinv
  -- and goes on to its end
  obtain ⟨hk₁, -⟩ := List.getElem?_eq_some_iff.mp hs₁
  obtain ⟨tr₃, s₃, hend, hp₃, hs₃⟩ := poll_end (k := k) hinv₂
    (fun j hj => by
      have hj' : s₁.pollFrom (k + 1) = some j := hj
      rw [State.pollFrom] at hj'
      split at hj' <;> cases hj'
      omega)
    (List.getElem?_set_self hk₁)
  refine ⟨_, s₃, _, hrun.append hend, ?_, hp₃, hs₃, ?_⟩
  · exact (hrun.append hend).invariant (fun _ _ _ _ h _ hst => h.step hst) hinv
  · simp [Slot.kick, kick, hoff, ManagedSkill.timedOut]

/-- The reply of a `get_state` call that says `unconfigured` makes it a `change_state` call. -/
theorem reply_fires {i : Nat} {stale : Bool} (hp : s.polling = none)
    (hs : s.slots[k]? = some slot) (hc : slot.calls[i]? = some ⟨.getState, stale⟩) :
    ∃ es s' slot', Run step anyStep s es s' ∧ s'.polling = none ∧ s'.slots[k]? = some slot' ∧
      slot'.calls.length = slot.calls.length ∧ slot'.changing = slot.changing + 1 := by
  obtain ⟨hk, -⟩ := List.getElem?_eq_some_iff.mp hs
  obtain ⟨hi, -⟩ := List.getElem?_eq_some_iff.mp hc
  have hstep : step s (.stateDone k i (.response primaryStateUnconfigured) true) =
      some ({ s with
          slots := s.slots.set k
            (slot.stateDone i s.clock true (.response primaryStateUnconfigured)) },
        [.changeState k transitionConfigure stale]) := by
    simp only [step, hp, hs, hc]
    rfl
  have hrun := Run.single (P := anyStep) trivial hstep
  refine ⟨_, _, _, hrun, hp, List.getElem?_set_self hk, ?_, ?_⟩
  · have : 0 < slot.calls.length := by omega
    simp [Slot.stateDone, onState, transitionFor, fireTransition, List.length_eraseIdx, hi]
    omega
  · have := countP_eraseIdx hc Call.isChange
    simp [Slot.changing, Slot.stateDone, onState, transitionFor, fireTransition,
      List.countP_append, this, Call.isChange]

/-- Two outstanding calls of a skill can become two `change_state` calls. -/
theorem two_calls_race (hp : s.polling = none) (hs : s.slots[k]? = some slot)
    (h2 : 2 ≤ slot.calls.length) :
    ∃ tr s', Run step anyStep s tr s' ∧ ¬ AtMostOneChange s' := by
  induction hn : 2 - slot.changing generalizing s slot with
  | zero =>
      refine ⟨[], s, Run.nil s, fun h => ?_⟩
      have := h slot (List.mem_of_getElem? hs)
      omega
  | succ n ih =>
      -- one of the calls is still a `get_state` call
      obtain ⟨c, hc, hget⟩ : ∃ c ∈ slot.calls, c.isChange = false := by
        by_contra hall
        have : slot.changing = slot.calls.length := by
          refine List.countP_eq_length.mpr fun c hc => ?_
          by_contra hget
          exact hall ⟨c, hc, by simpa using hget⟩
        omega
      obtain ⟨i, hi⟩ := List.mem_iff_getElem?.mp hc
      obtain ⟨request, stale⟩ := c
      obtain rfl : request = .getState := by simpa [Call.isChange] using hget
      obtain ⟨es, s₁, slot₁, hrun, hp₁, hs₁, hlen, hch⟩ := reply_fires hp hs hi
      obtain ⟨tr, s₂, hrun₂, hrace⟩ := ih hp₁ hs₁ (by omega) (by omega)
      exact ⟨_, s₂, hrun.append hrun₂, hrace⟩

/-- A call that is outstanding while the flag is off can be overtaken by a second one. -/
theorem off_race (hinv : PollInv s) (hk : ∀ j, s.polling = some j → k < j)
    (hs : s.slots[k]? = some slot) (hoff : slot.skill.inFlight = false)
    (h1 : 1 ≤ slot.calls.length) :
    ∃ tr s', Run step anyStep s tr s' ∧ ¬ AtMostOneChange s' := by
  obtain ⟨tr₁, s₁, hend, hp₁, hs₁⟩ := poll_end hinv hk hs
  have hinv₁ := hend.invariant (I := PollInv) (fun _ _ _ _ h _ hst => h.step hst) hinv
  obtain ⟨tr₂, s₂, slot₂, hpoll, -, hp₂, hs₂, hlen⟩ := poll_calls hinv₁ hp₁ hs₁ hoff
  obtain ⟨tr₃, s₃, hrace, h⟩ := two_calls_race hp₂ hs₂ (by omega)
  exact ⟨_, s₃, (hend.append hpoll).append hrace, h⟩

/-- A step that does not meet the condition has sent a stale transition, or opens a race. -/
theorem race_of_step {a : Act} {es : List Event} (h : Inv s) (hpoll : PollInv s)
    (hst : step s a = some (s', es)) (hP : ¬ KeepsFlag s a) :
    ¬ NoStaleChange es ∨ ∃ tr s'', Run step anyStep s' tr s'' ∧ ¬ AtMostOneChange s'' := by
  have hpoll' : PollInv s' := hpoll.step hst
  rcases step_cases hst with ⟨d, rfl, -, -⟩ | ⟨rfl, -, -, -⟩ |
    ⟨ready, delay, k, slot, rfl, hp, hs, rfl, -⟩ |
    ⟨k, i, c, ready, slot, stale, rfl, hp, hs, hc, rfl, rfl⟩ |
    ⟨k, i, c, slot, t, stale, rfl, -, -, -, -, -⟩
  · exact absurd trivial hP
  · exact absurd trivial hP
  -- a `change_state` call has been given up
  · refine Or.inr ?_
    obtain ⟨hk, -⟩ := List.getElem?_eq_some_iff.mp hs
    have hnext : s.next = some slot := by rw [State.next, hp]; exact hs
    obtain ⟨hout, c, hc, hch⟩ : slot.skill.timedOut s.clock = true ∧
        ∃ c ∈ slot.calls, c.isChange = true := by
      simpa [KeepsFlag, hnext] using hP
    have hpos : 0 < slot.calls.length := List.length_pos_of_mem hc
    have hs' : (s.slots.set k (slot.kick s.clock ready delay))[k]? =
        some (slot.kick s.clock ready delay) := List.getElem?_set_self hk
    have hafter : ∀ j, s.pollFrom (k + 1) = some j → k < j := by
      intro j hj
      rw [State.pollFrom] at hj
      split at hj <;> cases hj
      omega
    have hlen : (slot.kick s.clock ready delay).calls.length =
        slot.calls.length + if ready then 1 else 0 := by
      cases ready <;> simp [Slot.kick, kick, hout]
    cases ready with
    | false =>
        refine off_race hpoll' hafter hs' ?_ (by omega)
        simp [Slot.kick, kick, hout]
    | true =>
        obtain ⟨tr₁, s₁, hend, hp₁, hs₁⟩ := poll_end hpoll' hafter hs'
        obtain ⟨tr₂, s₂, hrace, hbad⟩ := two_calls_race hp₁ hs₁ (by simp at hlen; omega)
        exact ⟨_, s₂, hend.append hrace, hbad⟩
  -- the reply of a `get_state` call that has been given up
  · have hslot := h slot (List.mem_of_getElem? hs)
    have hcall : s.callOf k i = some (slot.skill, ⟨.getState, stale⟩) := by
      simp [State.callOf, hs, hc]
    simp only [KeepsFlag, hcall, Classical.not_imp] at hP
    obtain ⟨rfl, hP⟩ := hP
    by_cases hquiet : ready = false ∨ c.transition = none
    -- it clears the flag while the call of another chain is outstanding
    · refine Or.inr ?_
      have hon : slot.skill.inFlight = true := by
        by_contra hoff
        exact hP ⟨by simpa using hoff, hquiet⟩
      have hfired := onState_quiet slot.skill s.clock hquiet
      obtain ⟨hk, -⟩ := List.getElem?_eq_some_iff.mp hs
      refine off_race (k := k) hpoll' (fun j hj => by rw [hp] at hj; cases hj)
        (List.getElem?_set_self hk) ?_ ?_
      · simp [Slot.stateDone, onState_inFlight, hfired]
      · have herase := hslot.live_eraseIdx hc
        simp only [hon, if_true] at herase
        have hle : (slot.calls.eraseIdx i).countP _ ≤ _ :=
          List.countP_le_length (p := fun c => !c.givenUp)
        simp only [Slot.stateDone, List.length_append]
        omega
    -- it leads to a transition
    · refine Or.inl fun hno => ?_
      obtain ⟨hready, htrans⟩ := not_or.mp hquiet
      obtain ⟨t, ht⟩ := Option.ne_none_iff_exists'.mp htrans
      refine hno k t ?_
      rw [onState_transition, if_pos (by simpa using hready), ht]
      exact List.mem_singleton.mpr rfl
  · exact absurd trivial hP

end Race

/-- **The `in_flight` flag prevents racing transitions** in the runs whose steps all meet
`KeepsFlag`, and a run that takes a step that does not meet it can go on to a race. -/
theorem in_flight_guards (managedNodes : List String) (clock : Nat) :
    (∀ (tr : List Event) (s : State), Run step KeepsFlag (.init managedNodes clock) tr s →
      AtMostOneChange s ∧ NoStaleChange tr) ∧
    ∀ (tr es : List Event) (s s' : State) (a : Act),
      Run step KeepsFlag (.init managedNodes clock) tr s → step s a = some (s', es) →
        ¬ KeepsFlag s a → ∃ tr' s'', Run step anyStep s' tr' s'' ∧
          ¬ (AtMostOneChange s'' ∧ NoStaleChange (tr ++ es ++ tr')) := by
  constructor
  · intro tr s hrun
    obtain ⟨hinv, hstale⟩ := keepsFlag_safe hrun
    exact ⟨fun slot hs => (hinv slot hs).changing_le, hstale⟩
  · intro tr es s s' a hrun hst hP
    have hpoll : PollInv s := hrun.invariant (fun _ _ _ _ h _ hst => h.step hst) nofun
    rcases race_of_step (keepsFlag_safe hrun).1 hpoll hst hP with hstale | ⟨tr', s'', hrun', hrace⟩
    · refine ⟨[], s', Run.nil s', fun h => hstale fun k t hm => h.2 k t ?_⟩
      simp [hm]
    · exact ⟨tr', s'', hrun', fun h => hrace h.1⟩

/-- The skill answers `get_state` after more than three seconds, when the supervisor has asked
again. -/
def lateReply : List Act :=
  [.pollAll, .kick true 0, .advance 3500000000, .pollAll, .kick true 0,
    .stateDone 0 0 (.response primaryStateUnconfigured) true]

theorem not_always_in_flight_guards : ¬ ∀ (tr : List Event) (s : State),
    Run step anyStep (.init ["move_motor_server"] 0) tr s →
      AtMostOneChange s ∧ NoStaleChange tr := by
  intro h
  have hacts : (runActs step anyStep (.init ["move_motor_server"] 0) lateReply).isSome := by
    decide
  have hstale := (h [.getState 0, .getState 0, .changeState 0 transitionConfigure true] _
    (Run.of_isSome hacts)).2
  exact hstale 0 transitionConfigure (by simp)

/-- A skill that comes up, is configured and is activated in time. -/
example : (runActs step KeepsFlag (.init ["move_motor_server"] 0)
    [.pollAll, .kick false 0, .advance 500000000, .pollAll, .kick true 0,
      .stateDone 0 0 (.response primaryStateUnconfigured) true,
      .transitionDone 0 0 (.response true), .pollAll, .kick true 0,
      .stateDone 0 0 (.response primaryStateInactive) true]).isSome := by
  decide

end RobotTaskManager.Supervisor
