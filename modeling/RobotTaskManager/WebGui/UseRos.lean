import Mathlib.Logic.Function.Basic

set_option autoImplicit false

/-! # The subscriptions of `useRos.ts`

The maps of the module and the `WebSocket`s that `connect` makes, with their events in any order: a
socket opens, closes or brings a message of the server, and components call `connect` and
`subscribe`. What is not about topics (services, binary data, the displayed state) is left out.

A socket carries what has gone over it as well: the channels that its server has advertised and not
withdrawn, and the subscriptions sent for them. The handlers of the code never read these. A socket
that is closing brings no messages any more, and what is sent on it is dropped, as the standard has
it.
-/

namespace RobotTaskManager.WebGui.UseRos

/-- A `Channel`; what is needed to decode its messages is left out. -/
structure Channel where
  id : Nat
  topic : String
  deriving DecidableEq

/-- An entry of a `subscribe` message, with the topic that it was sent for. -/
structure Subscription where
  id : Nat
  channelId : Nat
  topic : String
  deriving DecidableEq

inductive ReadyState
  | connecting
  | opened
  | closing
  | closed
  deriving DecidableEq

/-- A `WebSocket`. -/
structure Socket where
  readyState : ReadyState
  /-- The topics of the channels that are advertised on it. -/
  advertised : Nat → Option String
  /-- The subscriptions sent on it that have not ended with their channel. -/
  subscriptions : List Subscription

def Socket.new : Socket := ⟨.connecting, fun _ => none, []⟩

/-- `WebSocket.close` -/
def Socket.close (sock : Socket) : Socket :=
  match sock.readyState with
  | .connecting | .opened => { sock with readyState := .closing }
  | .closing | .closed => sock

/-- The channels after an `advertise` message. -/
def advertisedAfter (advertised : Nat → Option String) (channels : List Channel) :
    Nat → Option String :=
  channels.foldl (fun adv ch => Function.update adv ch.id (some ch.topic)) advertised

/-- The server advertises channels. -/
def Socket.advertise (sock : Socket) (channels : List Channel) : Socket :=
  { sock with advertised := advertisedAfter sock.advertised channels }

/-- The server withdraws channels: their subscriptions end. -/
def Socket.unadvertise (sock : Socket) (channelIds : List Nat) : Socket :=
  { sock with
    advertised := fun id => if id ∈ channelIds then none else sock.advertised id
    subscriptions := sock.subscriptions.filter fun sub => sub.channelId ∉ channelIds }

/-- The variables of the module. A socket is named by its place among all that `connect` has made;
of `topicHandlers` only the number of handlers matters. -/
structure RosState where
  sockets : List Socket
  ws : Option Nat
  topicHandlers : String → Nat
  channelsByTopic : String → Option Channel
  channelsById : Nat → Option Channel
  nextSubId : Nat
  subsByTopic : String → Option Nat
  pendingSubs : String → Bool

def RosState.init : RosState :=
  ⟨[], none, fun _ => 0, fun _ => none, fun _ => none, 1, fun _ => none, fun _ => false⟩

def RosState.setSocket (s : RosState) (k : Nat) (sock : Socket) : RosState :=
  { s with sockets := s.sockets.set k sock }

/-- `send`: nothing without a socket, and an `InvalidStateError` (`false`) while it is
connecting. -/
def RosState.send (s : RosState) (sub : Subscription) : RosState × Bool :=
  match s.ws with
  | none => (s, true)
  | some k =>
      match s.sockets[k]? with
      | none => (s, true)
      | some sock =>
          match sock.readyState with
          | .connecting => (s, false)
          | .opened =>
              (s.setSocket k { sock with subscriptions := sock.subscriptions ++ [sub] }, true)
          | .closing | .closed => (s, true)

/-- What `onChannelAvailable` does to the maps. -/
def RosState.register (s : RosState) (topic : String) : RosState :=
  { s with
    nextSubId := s.nextSubId + 1
    subsByTopic := Function.update s.subsByTopic topic (some s.nextSubId)
    pendingSubs := Function.update s.pendingSubs topic false }

/-- `onChannelAvailable`, and whether it returns. -/
def RosState.onChannelAvailable (s : RosState) (topic : String) : RosState × Bool :=
  if s.pendingSubs topic = true then
    match s.channelsByTopic topic with
    | none => (s, true)
    | some ch => (s.register topic).send ⟨s.nextSubId, ch.id, topic⟩
  else (s, true)

def RosState.setChannel (s : RosState) (ch : Channel) : RosState :=
  { s with
    channelsByTopic := Function.update s.channelsByTopic ch.topic (some ch)
    channelsById := Function.update s.channelsById ch.id (some ch) }

/-- The loop of `handleJson` for `advertise`. An exception ends it, and `onmessage` drops it. -/
def RosState.handleAdvertise : RosState → List Channel → RosState
  | s, [] => s
  | s, ch :: rest =>
      match (s.setChannel ch).onChannelAvailable ch.topic with
      | (s', true) => s'.handleAdvertise rest
      | (s', false) => s'

def RosState.dropChannel (s : RosState) (id : Nat) : RosState :=
  { s with
    channelsByTopic := match s.channelsById id with
      | none => s.channelsByTopic
      | some ch => Function.update s.channelsByTopic ch.topic none
    channelsById := Function.update s.channelsById id none }

/-- The loop of `handleJson` for `unadvertise`. -/
def RosState.handleUnadvertise (s : RosState) (channelIds : List Nat) : RosState :=
  channelIds.foldl RosState.dropChannel s

/-- `if (ws) ws.close()` -/
def RosState.closeOld (s : RosState) : RosState :=
  match s.ws with
  | none => s
  | some k =>
      match s.sockets[k]? with
      | none => s
      | some sock => s.setSocket k sock.close

/-- `connect`; the constructor of `WebSocket` throws for an URL that it cannot parse. -/
def RosState.connect (s : RosState) (urlValid : Bool) : RosState :=
  let s := s.closeOld
  if urlValid then { s with sockets := s.sockets ++ [.new], ws := some s.sockets.length } else s

/-- `sock.onclose`, of whichever socket. -/
def RosState.onclose (s : RosState) : RosState :=
  { s with
    ws := none
    channelsByTopic := fun _ => none
    channelsById := fun _ => none
    subsByTopic := fun _ => none }

/-- `subscribe` -/
def RosState.subscribe (s : RosState) (topic : String) : RosState :=
  let s := { s with
    topicHandlers := Function.update s.topicHandlers topic (s.topicHandlers topic + 1) }
  match s.channelsByTopic topic with
  | none => { s with pendingSubs := Function.update s.pendingSubs topic true }
  | some _ => if s.subsByTopic topic = none then (s.onChannelAvailable topic).1 else s

inductive RosAct
  | connect (urlValid : Bool)
  /-- The `open` event of a socket. -/
  | opens (k : Nat)
  /-- The `close` event of a socket. -/
  | closes (k : Nat)
  /-- An `advertise` message on a socket. -/
  | advertise (k : Nat) (channels : List Channel)
  /-- An `unadvertise` message on a socket. -/
  | unadvertise (k : Nat) (channelIds : List Nat)
  | subscribe (topic : String)
  deriving DecidableEq

/-- The socket, if it is in that state. -/
def RosState.socketIn (s : RosState) (k : Nat) (p : ReadyState → Bool) : Option Socket :=
  s.sockets[k]?.filter fun sock => p sock.readyState

def rosStep (s : RosState) : RosAct → Option (RosState × List Subscription)
  | .connect urlValid => some (s.connect urlValid, [])
  | .opens k => (s.socketIn k (· = .connecting)).map fun sock =>
      (s.setSocket k { sock with readyState := .opened }, [])
  | .closes k => (s.socketIn k (· ≠ .closed)).map fun sock =>
      ((s.setSocket k { sock with readyState := .closed }).onclose, [])
  | .advertise k channels => (s.socketIn k (· = .opened)).map fun sock =>
      ((s.setSocket k (sock.advertise channels)).handleAdvertise channels, [])
  | .unadvertise k channelIds => (s.socketIn k (· = .opened)).map fun sock =>
      ((s.setSocket k (sock.unadvertise channelIds)).handleUnadvertise channelIds, [])
  | .subscribe topic => some (s.subscribe topic, [])

/-! ## What the functions do -/

section Functions

variable {s s' : RosState} {k : Nat} {sock : Socket}

/-- A subscription more, of one topic. -/
def Socket.subscribed (sock : Socket) (sub : Subscription) : Socket :=
  { sock with subscriptions := sock.subscriptions ++ [sub] }

theorem send_none (hws : s.ws = none) (sub : Subscription) : s.send sub = (s, true) := by
  unfold RosState.send
  split
  · rfl
  · rename_i k hk
    cases hws.symm.trans hk

theorem send_opened (hws : s.ws = some k) (hk : s.sockets[k]? = some sock)
    (hopen : sock.readyState = .opened) (sub : Subscription) :
    s.send sub = (s.setSocket k (sock.subscribed sub), true) := by
  unfold RosState.send
  split
  · rename_i hnone
    cases hws.symm.trans hnone
  · rename_i j hj
    obtain rfl : k = j := Option.some.inj (hws.symm.trans hj)
    obtain ⟨readyState, advertised, subscriptions⟩ := sock
    cases hopen
    rw [hk]
    rfl

theorem send_cases (s : RosState) (sub : Subscription) : (s.send sub).1 = s ∨
    ∃ k sock, s.sockets[k]? = some sock ∧ sock.readyState = .opened ∧
      (s.send sub).1 = s.setSocket k (sock.subscribed sub) := by
  cases hws : s.ws with
  | none => exact Or.inl (by rw [send_none hws])
  | some k =>
      cases hk : s.sockets[k]? with
      | none => exact Or.inl (by simp [RosState.send, hws, hk])
      | some sock =>
          cases hstate : sock.readyState with
          | opened => exact Or.inr ⟨k, sock, hk, hstate, by rw [send_opened hws hk hstate]⟩
          | connecting => exact Or.inl (by simp [RosState.send, hws, hk, hstate])
          | closing => exact Or.inl (by simp [RosState.send, hws, hk, hstate])
          | closed => exact Or.inl (by simp [RosState.send, hws, hk, hstate])

/-- What the client subscribes to when a channel becomes available. -/
def RosState.available (s : RosState) (topic : String) : Option Channel :=
  if s.pendingSubs topic = true then s.channelsByTopic topic else none

theorem onChannelAvailable_eq (s : RosState) (topic : String) :
    s.onChannelAvailable topic =
      match s.available topic with
      | none => (s, true)
      | some ch => (s.register topic).send ⟨s.nextSubId, ch.id, topic⟩ := by
  unfold RosState.onChannelAvailable RosState.available
  by_cases hp : s.pendingSubs topic = true
  · rw [if_pos hp, if_pos hp]
  · rw [if_neg hp, if_neg hp]

/-- What is kept for each channel is kept by the loop of an `advertise` message. -/
theorem handleAdvertise_induction {I : RosState → Prop}
    (hset : ∀ s ch, I s → I (RosState.setChannel s ch))
    (havailable : ∀ s topic, I s → I (RosState.onChannelAvailable s topic).1)
    (h : I s) (channels : List Channel) : I (s.handleAdvertise channels) := by
  induction channels generalizing s with
  | nil => exact h
  | cons ch rest ih =>
      have hone := havailable (s.setChannel ch) ch.topic (hset s ch h)
      rw [RosState.handleAdvertise]
      cases hres : (s.setChannel ch).onChannelAvailable ch.topic with
      | mk s₁ returned =>
          rw [hres] at hone
          cases returned with
          | true => exact ih hone
          | false => exact hone

/-- An `unadvertise` message changes the maps of the channels only. -/
theorem handleUnadvertise_eq (s : RosState) (channelIds : List Nat) : ∃ byTopic byId,
    s.handleUnadvertise channelIds =
      { s with channelsByTopic := byTopic, channelsById := byId } := by
  induction channelIds generalizing s with
  | nil => exact ⟨_, _, rfl⟩
  | cons id rest ih =>
      obtain ⟨byTopic, byId, heq⟩ := ih (s.dropChannel id)
      exact ⟨byTopic, byId, heq⟩

theorem close_subscriptions (sock : Socket) : sock.close.subscriptions = sock.subscriptions := by
  unfold Socket.close
  split <;> rfl

/-- A socket that `close` has been called on is neither connecting nor open. -/
theorem close_not_live (sock : Socket) :
    sock.close.readyState ≠ .connecting ∧ sock.close.readyState ≠ .opened := by
  obtain ⟨readyState, advertised, subscriptions⟩ := sock
  cases readyState <;> exact ⟨nofun, nofun⟩

/-- `ws.close()` closes the socket of `ws`, if there is one. -/
theorem closeOld_cases (s : RosState) : s.closeOld = s ∨
    ∃ k sock, s.ws = some k ∧ s.sockets[k]? = some sock ∧
      s.closeOld = s.setSocket k sock.close := by
  unfold RosState.closeOld
  split
  · exact Or.inl rfl
  · rename_i k hws
    split
    · exact Or.inl rfl
    · rename_i sock hk
      exact Or.inr ⟨k, sock, hws, hk, rfl⟩

/-- A handler more for the topic. -/
def RosState.addHandler (s : RosState) (topic : String) : RosState :=
  { s with
    topicHandlers := Function.update s.topicHandlers topic (s.topicHandlers topic + 1) }

theorem subscribe_eq (s : RosState) (topic : String) : s.subscribe topic =
    match s.channelsByTopic topic with
    | none =>
        { s.addHandler topic with pendingSubs := Function.update s.pendingSubs topic true }
    | some _ =>
        if s.subsByTopic topic = none then ((s.addHandler topic).onChannelAvailable topic).1
        else s.addHandler topic := rfl

theorem addHandler_pos (s : RosState) (topic : String) :
    0 < (s.addHandler topic).topicHandlers topic := by
  show 0 < Function.update s.topicHandlers topic (s.topicHandlers topic + 1) topic
  rw [Function.update_self]
  exact Nat.succ_pos _

theorem addHandler_of_ne (s : RosState) {topic other : String} (hne : other ≠ topic) :
    (s.addHandler topic).topicHandlers other = s.topicHandlers other :=
  Function.update_of_ne hne ..

theorem addHandler_handled (s : RosState) (topic : String) {other : String}
    (h : 0 < s.topicHandlers other) : 0 < (s.addHandler topic).topicHandlers other := by
  by_cases hother : other = topic
  · subst hother
    exact addHandler_pos s other
  · rwa [addHandler_of_ne s hother]

/-- What a step does. -/
inductive RosMove (s : RosState) : RosAct → RosState → Prop
  | connect (urlValid : Bool) : RosMove s (.connect urlValid) (s.connect urlValid)
  | opens {k : Nat} {sock : Socket} : s.sockets[k]? = some sock → sock.readyState = .connecting →
      RosMove s (.opens k) (s.setSocket k { sock with readyState := .opened })
  | closes {k : Nat} {sock : Socket} : s.sockets[k]? = some sock →
      RosMove s (.closes k) (s.setSocket k { sock with readyState := .closed }).onclose
  | advertise {k : Nat} {sock : Socket} : s.sockets[k]? = some sock →
      sock.readyState = .opened → (channels : List Channel) → RosMove s (.advertise k channels)
        ((s.setSocket k (sock.advertise channels)).handleAdvertise channels)
  | unadvertise {k : Nat} {sock : Socket} : s.sockets[k]? = some sock →
      sock.readyState = .opened → (channelIds : List Nat) → RosMove s (.unadvertise k channelIds)
        ((s.setSocket k (sock.unadvertise channelIds)).handleUnadvertise channelIds)
  | subscribe (topic : String) : RosMove s (.subscribe topic) (s.subscribe topic)

/-- An event of a socket in a certain state. -/
theorem socketIn_eq_some {p : ReadyState → Bool} {f : Socket → RosState × List Subscription}
    {es : List Subscription} (h : (s.socketIn k p).map f = some (s', es)) :
    ∃ sock, s.sockets[k]? = some sock ∧ p sock.readyState = true ∧ (f sock).1 = s' := by
  obtain ⟨sock, hin, heq⟩ := Option.map_eq_some_iff.mp h
  obtain ⟨hk, hp⟩ := Option.filter_eq_some_iff.mp hin
  exact ⟨sock, hk, hp, congrArg Prod.fst heq⟩

theorem RosMove.of_step {a : RosAct} {es : List Subscription}
    (hst : rosStep s a = some (s', es)) : RosMove s a s' := by
  cases a with
  | connect urlValid =>
      obtain rfl : s.connect urlValid = s' := congrArg Prod.fst (Option.some.inj hst)
      exact .connect urlValid
  | opens k =>
      obtain ⟨sock, hk, hconnecting, rfl⟩ := socketIn_eq_some hst
      exact .opens hk (of_decide_eq_true hconnecting)
  | closes k =>
      obtain ⟨sock, hk, -, rfl⟩ := socketIn_eq_some hst
      exact .closes hk
  | advertise k channels =>
      obtain ⟨sock, hk, hopen, rfl⟩ := socketIn_eq_some hst
      exact .advertise hk (of_decide_eq_true hopen) channels
  | unadvertise k channelIds =>
      obtain ⟨sock, hk, hopen, rfl⟩ := socketIn_eq_some hst
      exact .unadvertise hk (of_decide_eq_true hopen) channelIds
  | subscribe topic =>
      obtain rfl : s.subscribe topic = s' := congrArg Prod.fst (Option.some.inj hst)
      exact .subscribe topic

end Functions

/-! ## The invariant -/

/-- What holds of the variables at any time: `ws` is the last socket, subscriptions have numbers
that have been given out, only topics with a handler wait or are subscribed to, and nothing has come
over a socket that is connecting. -/
structure RosInv (s : RosState) : Prop where
  ws : ∀ k, s.ws = some k → k + 1 = s.sockets.length
  subscriptions : ∀ sock ∈ s.sockets, ∀ sub ∈ sock.subscriptions,
    sub.id < s.nextSubId ∧ 0 < s.topicHandlers sub.topic
  pending : ∀ topic, s.pendingSubs topic = true → 0 < s.topicHandlers topic
  fresh : ∀ sock ∈ s.sockets, sock.readyState = .connecting → ∀ id, sock.advertised id = none

section Invariant

variable {s s' : RosState} {k : Nat} {sock sock' : Socket} {topic : String}

theorem RosInv.setSocket (h : RosInv s) (hk : s.sockets[k]? = some sock)
    (hsub : ∀ sub ∈ sock'.subscriptions, sub ∈ sock.subscriptions)
    (hfresh : sock'.readyState = .connecting → ∀ id, sock'.advertised id = none) :
    RosInv (s.setSocket k sock') where
  ws j hj := (h.ws j hj).trans (List.length_set ..).symm
  subscriptions x hx sub hmem := by
    rcases List.mem_or_eq_of_mem_set hx with hx | rfl
    · exact h.subscriptions x hx sub hmem
    · exact h.subscriptions sock (List.mem_of_getElem? hk) sub (hsub sub hmem)
  pending := h.pending
  fresh x hx := by
    rcases List.mem_or_eq_of_mem_set hx with hx | rfl
    · exact h.fresh x hx
    · exact hfresh

theorem RosInv.send (h : RosInv s) {sub : Subscription} (hid : sub.id < s.nextSubId)
    (hhandled : 0 < s.topicHandlers sub.topic) : RosInv (s.send sub).1 := by
  rcases send_cases s sub with heq | ⟨k, sock, hk, hopen, heq⟩
  · rw [heq]
    exact h
  · rw [heq]
    refine ⟨fun j hj => (h.ws j hj).trans (List.length_set ..).symm, ?_, h.pending, ?_⟩
    · intro x hx sub' hmem
      rcases List.mem_or_eq_of_mem_set hx with hx | rfl
      · exact h.subscriptions x hx sub' hmem
      · rcases List.mem_append.mp hmem with hmem | hmem
        · exact h.subscriptions sock (List.mem_of_getElem? hk) sub' hmem
        · obtain rfl := List.mem_singleton.mp hmem
          exact ⟨hid, hhandled⟩
    · intro x hx hconnecting
      rcases List.mem_or_eq_of_mem_set hx with hx | rfl
      · exact h.fresh x hx hconnecting
      · cases hopen.symm.trans hconnecting

theorem RosInv.register (h : RosInv s) (topic : String) : RosInv (s.register topic) where
  ws := h.ws
  subscriptions x hx sub hmem := by
    obtain ⟨hid, hhandled⟩ := h.subscriptions x hx sub hmem
    exact ⟨Nat.lt_trans hid (Nat.lt_succ_self _), hhandled⟩
  pending other hp := by
    by_cases hother : other = topic
    · subst hother
      have hfalse : (s.register other).pendingSubs other = false := Function.update_self ..
      cases hfalse.symm.trans hp
    · have hsame : (s.register topic).pendingSubs other = s.pendingSubs other :=
        Function.update_of_ne hother ..
      exact h.pending other (hsame.symm.trans hp)
  fresh := h.fresh

theorem RosInv.onChannelAvailable (h : RosInv s) (topic : String) :
    RosInv (s.onChannelAvailable topic).1 := by
  rw [onChannelAvailable_eq]
  cases hav : s.available topic with
  | none => exact h
  | some ch =>
      have hp : s.pendingSubs topic = true := by
        by_contra hno
        rw [RosState.available, if_neg hno] at hav
        cases hav
      exact (h.register topic).send (Nat.lt_succ_self _) (h.pending topic hp)

theorem RosInv.setChannel (h : RosInv s) (ch : Channel) : RosInv (s.setChannel ch) :=
  ⟨h.ws, h.subscriptions, h.pending, h.fresh⟩

theorem RosInv.handleAdvertise (h : RosInv s) (channels : List Channel) :
    RosInv (s.handleAdvertise channels) :=
  handleAdvertise_induction (fun _ ch h => h.setChannel ch)
    (fun _ topic h => h.onChannelAvailable topic) h channels

theorem RosInv.connect (h : RosInv s) (urlValid : Bool) : RosInv (s.connect urlValid) := by
  have hclose : RosInv s.closeOld := by
    rcases closeOld_cases s with heq | ⟨k, sock, -, hk, heq⟩
    · rw [heq]
      exact h
    · rw [heq]
      refine h.setSocket hk ?_ ?_
      · intro sub hmem
        rwa [close_subscriptions] at hmem
      · intro hconnecting
        exact absurd hconnecting (close_not_live sock).1
  unfold RosState.connect
  cases urlValid with
  | false => exact hclose
  | true =>
      refine ⟨?_, ?_, hclose.pending, ?_⟩
      · rintro k hk
        obtain rfl := Option.some.inj hk
        simp
      · intro x hx sub hmem
        rcases List.mem_append.mp hx with hx | hx
        · exact hclose.subscriptions x hx sub hmem
        · obtain rfl := List.mem_singleton.mp hx
          cases hmem
      · intro x hx hconnecting id
        rcases List.mem_append.mp hx with hx | hx
        · exact hclose.fresh x hx hconnecting id
        · obtain rfl := List.mem_singleton.mp hx
          rfl

theorem RosInv.addHandler (h : RosInv s) (topic : String) : RosInv (s.addHandler topic) where
  ws := h.ws
  subscriptions x hx sub hmem := by
    obtain ⟨hid, hhandled⟩ := h.subscriptions x hx sub hmem
    exact ⟨hid, addHandler_handled s topic hhandled⟩
  pending other hp := addHandler_handled s topic (h.pending other hp)
  fresh := h.fresh

theorem RosInv.advertised (h : RosInv s) (hk : s.sockets[k]? = some sock)
    (hopen : sock.readyState = .opened) (channels : List Channel) :
    RosInv (s.setSocket k (sock.advertise channels)) := by
  refine h.setSocket hk (fun _ hmem => hmem) fun hconnecting => ?_
  cases hconnecting.symm.trans hopen

theorem RosInv.unadvertised (h : RosInv s) (hk : s.sockets[k]? = some sock)
    (hopen : sock.readyState = .opened) (channelIds : List Nat) :
    RosInv (s.setSocket k (sock.unadvertise channelIds)) := by
  refine h.setSocket hk (fun _ hmem => (List.mem_filter.mp hmem).1) fun hconnecting => ?_
  cases hconnecting.symm.trans hopen

theorem RosInv.subscribe (h : RosInv s) (topic : String) : RosInv (s.subscribe topic) := by
  have hmore := h.addHandler topic
  rw [subscribe_eq]
  cases hch : s.channelsByTopic topic with
  | none =>
      refine ⟨hmore.ws, hmore.subscriptions, fun other hp => ?_, hmore.fresh⟩
      by_cases hother : other = topic
      · subst hother
        exact addHandler_pos s other
      · have hp : Function.update s.pendingSubs topic true other = true := hp
        rw [Function.update_of_ne hother] at hp
        exact hmore.pending other hp
  | some ch =>
      by_cases hsub : s.subsByTopic topic = none
      · simp only [if_pos hsub]
        exact hmore.onChannelAvailable topic
      · simp only [if_neg hsub]
        exact hmore

theorem RosInv.step {a : RosAct} {es : List Subscription} (h : RosInv s)
    (hst : rosStep s a = some (s', es)) : RosInv s' := by
  cases RosMove.of_step hst with
  | connect urlValid => exact h.connect urlValid
  | opens hk _ => exact h.setSocket hk (fun _ hmem => hmem) nofun
  | @closes k sock hk =>
      have hset : RosInv (s.setSocket k { sock with readyState := .closed }) :=
        h.setSocket hk (fun _ hmem => hmem) nofun
      exact ⟨nofun, hset.subscriptions, hset.pending, hset.fresh⟩
  | advertise hk hopen channels => exact (h.advertised hk hopen channels).handleAdvertise channels
  | @unadvertise k sock hk hopen channelIds =>
      have hset := h.unadvertised hk hopen channelIds
      obtain ⟨byTopic, byId, heq⟩ :=
        handleUnadvertise_eq (s.setSocket k (sock.unadvertise channelIds)) channelIds
      rw [heq]
      exact ⟨hset.ws, hset.subscriptions, hset.pending, hset.fresh⟩
  | subscribe topic => exact h.subscribe topic

end Invariant

end RobotTaskManager.WebGui.UseRos
