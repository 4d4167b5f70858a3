import RobotTaskManager.Lib.Run
import RobotTaskManager.WebGui.UseRos

set_option autoImplicit false

/-! # Live topics

The topics that are advertised on the current socket and have a handler, and the subscriptions that
they have there. A topic waits in `pendingSubs` for its first subscription only, and the `close`
event of any socket ends the subscriptions of all of them, so that topics are lost in several ways.
`live_topics_iff` tells the schedules in which none is.
-/

namespace RobotTaskManager.WebGui.UseRos

open Interleaving

/-- The socket that `connect` has made last. -/
def Current (s : RosState) (k : Nat) (sock : Socket) : Prop :=
  k + 1 = s.sockets.length ∧ s.sockets[k]? = some sock

def Advertises (advertised : Nat → Option String) (topic : String) : Prop :=
  ∃ id, advertised id = some topic

def Socket.subscriptionsTo (sock : Socket) (topic : String) : List Subscription :=
  sock.subscriptions.filter fun sub => sub.topic = topic

/-- The topic has exactly one subscription on the socket, for one of its own channels, and it is the
one that `handleBinary` knows. -/
def Served (s : RosState) (sock : Socket) (advertised : Nat → Option String) (topic : String) :
    Prop :=
  ∃ sub, sock.subscriptionsTo topic = [sub] ∧ advertised sub.channelId = some topic ∧
    s.subsByTopic topic = some sub.id

/-- While the current socket is open, every topic with a handler that is advertised on it is
served. -/
def LiveTopics (s : RosState) : Prop :=
  ∀ (k : Nat) (sock : Socket), Current s k sock → sock.readyState = .opened →
    ∀ topic, 0 < s.topicHandlers topic → Advertises sock.advertised topic →
      Served s sock sock.advertised topic

/-- The channel that an `advertise` message makes the client subscribe to, for a topic. -/
def RosState.subscribesTo (s : RosState) (channels : List Channel) (topic : String) :
    Option Nat :=
  if s.pendingSubs topic = true then (channels.find? fun ch => ch.topic = topic).map Channel.id
  else none

/-- A subscription of the topic to that channel, or none, leaves it served. -/
def Serves (s : RosState) (k : Nat) (sock : Socket) (advertised : Nat → Option String)
    (topic : String) : Option Nat → Prop
  | some channelId => s.ws = some k ∧ sock.subscriptionsTo topic = [] ∧
      advertised channelId = some topic
  | none => Served s sock advertised topic

/-- The step keeps the topics live. A socket may close while the current one is open only if nothing
is advertised there that has a handler. An `advertise` message makes the client subscribe to a topic
that has no subscription yet, on the current socket, or finds it served. An `unadvertise` message
does not withdraw the channel of a subscription from a topic that keeps another one. And `subscribe`
comes before the topic is advertised, or the topic has a handler already. -/
def KeepsLive (s : RosState) : RosAct → Prop
  | .connect _ => True
  | .opens _ => True
  | .closes j => ∀ (k : Nat) (sock : Socket), Current s k sock → sock.readyState = .opened →
      j ≠ k → ∀ topic, 0 < s.topicHandlers topic → ¬ Advertises sock.advertised topic
  | .advertise j channels => ∀ (k : Nat) (sock : Socket), Current s k sock →
      sock.readyState = .opened →
      let advertised := if j = k then advertisedAfter sock.advertised channels else sock.advertised
      ∀ topic, 0 < s.topicHandlers topic → Advertises advertised topic →
        Serves s k sock advertised topic (s.subscribesTo channels topic)
  | .unadvertise j channelIds => ∀ (sock : Socket), Current s j sock →
      ∀ topic, 0 < s.topicHandlers topic →
        (∃ id, id ∉ channelIds ∧ sock.advertised id = some topic) →
        ∀ sub ∈ sock.subscriptionsTo topic, sub.channelId ∉ channelIds
  | .subscribe topic => ∀ (k : Nat) (sock : Socket), Current s k sock →
      sock.readyState = .opened → Advertises sock.advertised topic → 0 < s.topicHandlers topic

/-! ## Sending -/

section Effects

variable {s s' : RosState} {k : Nat} {sock : Socket} {topic : String}

theorem Current.setSocket (hcur : Current s k sock) (sock' : Socket) :
    Current (s.setSocket k sock') k sock' := by
  refine ⟨hcur.1.trans (List.length_set ..).symm, ?_⟩
  exact List.getElem?_set_self (List.getElem?_eq_some_iff.mp hcur.2).1

theorem subscriptionsTo_subscribed (sock : Socket) (sub : Subscription) :
    (sock.subscribed sub).subscriptionsTo sub.topic = sock.subscriptionsTo sub.topic ++ [sub] := by
  unfold Socket.subscriptionsTo Socket.subscribed
  rw [List.filter_append]
  simp

theorem subscriptionsTo_subscribed_of_ne (sock : Socket) {sub : Subscription} {other : String}
    (hne : other ≠ sub.topic) :
    (sock.subscribed sub).subscriptionsTo other = sock.subscriptionsTo other := by
  unfold Socket.subscriptionsTo Socket.subscribed
  rw [List.filter_append]
  simp [Ne.symm hne]

/-- One topic before and after steps of the client: the subscription that it has been given, if any,
or nothing has changed. -/
structure Given (s s' : RosState) (sock sock' : Socket) (k : Nat) (topic : String)
    (channelId : Option Nat) : Prop where
  left : channelId = none → s'.subsByTopic topic = s.subsByTopic topic ∧
    sock'.subscriptionsTo topic = sock.subscriptionsTo topic
  given : ∀ cid, channelId = some cid → ∃ id, s.nextSubId ≤ id ∧ s'.subsByTopic topic = some id ∧
    sock'.subscriptionsTo topic =
      if s.ws = some k then sock.subscriptionsTo topic ++ [⟨id, cid, topic⟩]
      else sock.subscriptionsTo topic

/-- The client has taken steps, and the current socket with its channels is the same. -/
structure Same (s s' : RosState) (k : Nat) (sock sock' : Socket) : Prop where
  current : Current s' k sock'
  readyState : sock'.readyState = sock.readyState
  advertised : sock'.advertised = sock.advertised
  ws : s'.ws = s.ws
  topicHandlers : s'.topicHandlers = s.topicHandlers
  nextSubId : s.nextSubId ≤ s'.nextSubId

/-- **A channel becomes available** while the current socket is open: the topic is given a
subscription if it waits for one, the others are left alone. -/
theorem onChannelAvailable_spec (hcur : Current s k sock) (hopen : sock.readyState = .opened)
    (hws : s.ws = none ∨ s.ws = some k) (topic : String) :
    ∃ s' sock', s.onChannelAvailable topic = (s', true) ∧ Same s s' k sock sock' ∧
      Given s s' sock sock' k topic ((s.available topic).map Channel.id) ∧
      (∀ other, other ≠ topic → Given s s' sock sock' k other none ∧
        s'.pendingSubs other = s.pendingSubs other) ∧
      (s'.pendingSubs topic = true → s.pendingSubs topic = true ∧ s.available topic = none) := by
  rw [onChannelAvailable_eq]
  cases hav : s.available topic with
  | none =>
      refine ⟨s, sock, rfl, ⟨hcur, rfl, rfl, rfl, rfl, le_rfl⟩, ⟨fun _ => ⟨rfl, rfl⟩, nofun⟩,
        fun other _ => ⟨⟨fun _ => ⟨rfl, rfl⟩, nofun⟩, rfl⟩, fun h => ⟨h, rfl⟩⟩
  | some ch =>
      -- the maps are the same whether the message is sent or not
      have hmap : ∀ other, other ≠ topic →
          (s.register topic).subsByTopic other = s.subsByTopic other ∧
            (s.register topic).pendingSubs other = s.pendingSubs other := by
        intro other hne
        exact ⟨Function.update_of_ne hne _ _, Function.update_of_ne hne _ _⟩
      have htopic : (s.register topic).subsByTopic topic = some s.nextSubId :=
        Function.update_self ..
      have hdone : (s.register topic).pendingSubs topic = true → s.pendingSubs topic = true ∧
          some ch = none := by
        intro h
        have hfalse : (s.register topic).pendingSubs topic = false := Function.update_self ..
        cases hfalse.symm.trans h
      rcases hws with hws | hws
      · refine ⟨s.register topic, sock, send_none (s := s.register topic) hws _,
          ⟨hcur, rfl, rfl, rfl, rfl, Nat.le_succ _⟩, ⟨nofun, ?_⟩,
          fun other hne => ⟨⟨fun _ => ⟨(hmap other hne).1, rfl⟩, nofun⟩, (hmap other hne).2⟩, hdone⟩
        rintro cid -
        exact ⟨s.nextSubId, le_rfl, htopic, by rw [hws]; rfl⟩
      · refine ⟨_, _, send_opened (s := s.register topic) hws hcur.2 hopen _,
          ⟨Current.setSocket (s := s.register topic) hcur _, rfl, rfl, rfl, rfl, Nat.le_succ _⟩,
          ⟨nofun, ?_⟩, fun other hne => ⟨⟨fun _ => ⟨(hmap other hne).1, ?_⟩, nofun⟩,
            (hmap other hne).2⟩, hdone⟩
        · rintro cid hcid
          obtain rfl : ch.id = cid := Option.some.inj hcid
          refine ⟨s.nextSubId, le_rfl, htopic, ?_⟩
          rw [if_pos hws]
          exact subscriptionsTo_subscribed sock ⟨s.nextSubId, ch.id, topic⟩
        · exact subscriptionsTo_subscribed_of_ne sock hne

/-! ## The loop of an `advertise` message -/

theorem Given.then_none {s₁ s₂ : RosState} {sock₁ sock₂ : Socket} {channelId : Option Nat}
    (h : Given s s₁ sock sock₁ k topic channelId) (h' : Given s₁ s₂ sock₁ sock₂ k topic none) :
    Given s s₂ sock sock₂ k topic channelId := by
  obtain ⟨hsubs, hlist⟩ := h'.left rfl
  constructor
  · intro hnone
    rw [hsubs, hlist]
    exact h.left hnone
  · intro cid hcid
    rw [hsubs, hlist]
    exact h.given cid hcid

theorem Given.after_none {s₁ s₂ : RosState} {sock₁ sock₂ : Socket} {channelId : Option Nat}
    (h : Given s s₁ sock sock₁ k topic none) (hsame : Same s s₁ k sock sock₁)
    (h' : Given s₁ s₂ sock₁ sock₂ k topic channelId) :
    Given s s₂ sock sock₂ k topic channelId := by
  obtain ⟨hsubs, hlist⟩ := h.left rfl
  constructor
  · intro hnone
    rw [← hsubs, ← hlist]
    exact h'.left hnone
  · intro cid hcid
    obtain ⟨id, hle, hid, hnew⟩ := h'.given cid hcid
    rw [hsame.ws, hlist] at hnew
    exact ⟨id, hsame.nextSubId.trans hle, hid, hnew⟩

theorem Same.trans {s₁ s₂ : RosState} {sock₁ sock₂ : Socket} (h : Same s s₁ k sock sock₁)
    (h' : Same s₁ s₂ k sock₁ sock₂) : Same s s₂ k sock sock₂ where
  current := h'.current
  readyState := h'.readyState.trans h.readyState
  advertised := h'.advertised.trans h.advertised
  ws := h'.ws.trans h.ws
  topicHandlers := h'.topicHandlers.trans h.topicHandlers
  nextSubId := h.nextSubId.trans h'.nextSubId

theorem subscribesTo_of_not_pending (channels : List Channel)
    (h : s.pendingSubs topic ≠ true) : s.subscribesTo channels topic = none := if_neg h

/-- **The loop of an `advertise` message** gives each topic that waits the first of its channels. -/
theorem handleAdvertise_spec (hcur : Current s k sock) (hopen : sock.readyState = .opened)
    (hws : s.ws = none ∨ s.ws = some k) (channels : List Channel) :
    ∃ sock', Same s (s.handleAdvertise channels) k sock sock' ∧ ∀ topic,
      Given s (s.handleAdvertise channels) sock sock' k topic (s.subscribesTo channels topic) := by
  induction channels generalizing s sock with
  | nil =>
      refine ⟨sock, ⟨hcur, rfl, rfl, rfl, rfl, le_rfl⟩, fun topic => ?_⟩
      have hnone : s.subscribesTo [] topic = none := by
        unfold RosState.subscribesTo
        split <;> rfl
      rw [hnone]
      exact ⟨fun _ => ⟨rfl, rfl⟩, nofun⟩
  | cons ch rest ih =>
      obtain ⟨s₁, sock₁, heq, hsame, hgiven, hothers, hpending⟩ :=
        onChannelAvailable_spec (s := s.setChannel ch) hcur hopen hws ch.topic
      have hav : (s.setChannel ch).available ch.topic =
          if s.pendingSubs ch.topic = true then some ch else none := by
        show (if s.pendingSubs ch.topic = true then
          Function.update s.channelsByTopic ch.topic (some ch) ch.topic else none) = _
        rw [Function.update_self]
      -- the maps of the channels take no part in what is given
      have hsame : Same s s₁ k sock sock₁ := ⟨hsame.current, hsame.readyState, hsame.advertised,
        hsame.ws, hsame.topicHandlers, hsame.nextSubId⟩
      have hloop : s.handleAdvertise (ch :: rest) = s₁.handleAdvertise rest := by
        rw [RosState.handleAdvertise, heq]
      rw [hloop]
      obtain ⟨sock₂, hsame₂, hgiven₂⟩ := ih hsame.current (hsame.readyState.trans hopen)
        (by rw [hsame.ws]; exact hws)
      refine ⟨sock₂, hsame.trans hsame₂, fun topic => ?_⟩
      by_cases htopic : topic = ch.topic
      · subst htopic
        rw [hav] at hgiven hpending
        -- after its first channel the topic does not wait any more
        have hdone : s₁.pendingSubs ch.topic ≠ true := by
          intro h
          obtain ⟨hp, hnone⟩ := hpending h
          have hp : s.pendingSubs ch.topic = true := hp
          rw [if_pos hp] at hnone
          cases hnone
        have hrest := hgiven₂ ch.topic
        rw [subscribesTo_of_not_pending rest hdone] at hrest
        have hto : s.subscribesTo (ch :: rest) ch.topic =
            Option.map Channel.id (if s.pendingSubs ch.topic = true then some ch else none) := by
          unfold RosState.subscribesTo
          split <;> simp
        rw [hto]
        exact Given.then_none ⟨hgiven.left, hgiven.given⟩ hrest
      · obtain ⟨hnone, hp⟩ := hothers topic htopic
        have hto : s.subscribesTo (ch :: rest) topic = s₁.subscribesTo rest topic := by
          unfold RosState.subscribesTo
          rw [hp, List.find?_cons_of_neg (by simpa using Ne.symm htopic)]
          rfl
        rw [hto]
        exact Given.after_none ⟨hnone.left, hnone.given⟩ hsame (hgiven₂ topic)

end Effects

/-! ## The current socket -/

section Currents

variable {s s' : RosState} {k j : Nat} {sock sock' : Socket} {topic : String}

theorem Current.unique (h : Current s k sock) (h' : Current s j sock') : k = j ∧ sock = sock' := by
  obtain rfl : k = j := Nat.succ.inj (h.1.trans h'.1.symm)
  exact ⟨rfl, Option.some.inj (h.2.symm.trans h'.2)⟩

theorem exists_current (hj : s.sockets[j]? = some sock) : ∃ k sock', Current s k sock' := by
  have hlt : j < s.sockets.length := (List.getElem?_eq_some_iff.mp hj).1
  have hlast : s.sockets.length - 1 < s.sockets.length := by omega
  exact ⟨_, _, by omega, List.getElem?_eq_getElem hlast⟩

/-- Another socket than the current one is set. -/
theorem current_setSocket_of_ne (hne : j ≠ k) :
    Current (s.setSocket j sock') k sock ↔ Current s k sock := by
  unfold Current RosState.setSocket
  rw [List.length_set, List.getElem?_set_ne hne]

theorem Current.of_setSocket (hcur : Current (s.setSocket k sock') k sock)
    (hk : k < s.sockets.length) : sock = sock' :=
  Option.some.inj (hcur.2.symm.trans (List.getElem?_set_self hk))

/-- `ws` is the current socket or nothing. -/
theorem RosInv.ws_cases (h : RosInv s) (hcur : Current s k sock) :
    s.ws = none ∨ s.ws = some k := by
  cases hws : s.ws with
  | none => exact Or.inl rfl
  | some i =>
      obtain rfl : i = k := Nat.succ.inj ((h.ws i hws).trans hcur.1.symm)
      exact Or.inr rfl

theorem RosInv.current_ids (h : RosInv s) (hcur : Current s k sock) :
    ∀ sub ∈ sock.subscriptions, sub.id < s.nextSubId := fun sub hmem =>
  (h.subscriptions sock (List.mem_of_getElem? hcur.2) sub hmem).1

theorem liveTopics_iff (hcur : Current s k sock) (hopen : sock.readyState = .opened) :
    LiveTopics s ↔ ∀ topic, 0 < s.topicHandlers topic → Advertises sock.advertised topic →
      Served s sock sock.advertised topic := by
  constructor
  · intro h
    exact h k sock hcur hopen
  · intro h j sock' hcur' _
    obtain ⟨rfl, rfl⟩ := hcur.unique hcur'
    exact h

/-- Nothing is asked while the current socket is not open. -/
theorem liveTopics_of_not_opened (hcur : Current s k sock) (hclosed : sock.readyState ≠ .opened) :
    LiveTopics s := by
  intro j sock' hcur' hopen
  obtain ⟨rfl, rfl⟩ := hcur.unique hcur'
  exact absurd hopen hclosed

/-- What the client sends leaves the sockets in the states that they are in. -/
theorem send_readyStates (s : RosState) (sub : Subscription) :
    (s.send sub).1.sockets.map Socket.readyState = s.sockets.map Socket.readyState := by
  rcases send_cases s sub with heq | ⟨k, sock, hk, -, heq⟩
  · rw [heq]
  · rw [heq]
    have hstate : (s.sockets.map Socket.readyState)[k]? = some sock.readyState := by
      rw [List.getElem?_map, hk]
      rfl
    obtain ⟨hlt, hget⟩ := List.getElem?_eq_some_iff.mp hstate
    calc (s.sockets.set k (sock.subscribed sub)).map Socket.readyState
        = (s.sockets.map Socket.readyState).set k sock.readyState := List.map_set
      _ = (s.sockets.map Socket.readyState).set k (s.sockets.map Socket.readyState)[k] := by
          rw [hget]
      _ = s.sockets.map Socket.readyState := List.set_getElem_self hlt

theorem onChannelAvailable_readyStates (s : RosState) (topic : String) :
    (s.onChannelAvailable topic).1.sockets.map Socket.readyState =
      s.sockets.map Socket.readyState := by
  rw [onChannelAvailable_eq]
  cases s.available topic with
  | none => rfl
  | some ch => exact send_readyStates (s.register topic) _

theorem handleAdvertise_readyStates (s : RosState) (channels : List Channel) :
    (s.handleAdvertise channels).sockets.map Socket.readyState =
      s.sockets.map Socket.readyState := by
  refine handleAdvertise_induction
    (I := fun s' => s'.sockets.map Socket.readyState = s.sockets.map Socket.readyState)
    (fun _ _ h => h) (fun s' topic h => ?_) rfl channels
  exact (onChannelAvailable_readyStates s' topic).trans h

theorem subscribe_readyStates (s : RosState) (topic : String) :
    (s.subscribe topic).sockets.map Socket.readyState = s.sockets.map Socket.readyState := by
  rw [subscribe_eq]
  split
  · rfl
  · split
    · exact onChannelAvailable_readyStates (s.addHandler topic) topic
    · rfl

/-- The current socket is not open, and no socket changes its state. -/
theorem liveTopics_of_readyStates
    (hstates : s'.sockets.map Socket.readyState = s.sockets.map Socket.readyState)
    (hcur : Current s k sock) (hclosed : sock.readyState ≠ .opened) : LiveTopics s' := by
  intro j sock' hcur' hopen
  have hlen : s'.sockets.length = s.sockets.length := by
    simpa using congrArg List.length hstates
  obtain rfl : k = j := Nat.succ.inj (hcur.1.trans (hlen.symm.trans hcur'.1.symm))
  have hk := congrArg (fun states => states[k]?) hstates
  simp only [List.getElem?_map, hcur'.2, hcur.2] at hk
  exact absurd ((Option.some.inj hk).symm.trans hopen) hclosed

end Currents

/-! ## Steps -/

section Steps

variable {s s' : RosState} {k j : Nat} {sock sock' : Socket} {topic : String}

theorem connect_liveTopics (hinv : RosInv s) (hlive : LiveTopics s) (urlValid : Bool) :
    LiveTopics (s.connect urlValid) := by
  unfold RosState.connect
  cases urlValid with
  | true =>
      have hcur : Current { s.closeOld with
          sockets := s.closeOld.sockets ++ [.new], ws := some s.closeOld.sockets.length }
          s.closeOld.sockets.length .new := by
        refine ⟨?_, ?_⟩
        · simp
        · simp
      exact liveTopics_of_not_opened hcur nofun
  | false =>
      show LiveTopics s.closeOld
      rcases closeOld_cases s with heq | ⟨k, sock, hws, hk, heq⟩
      · rw [heq]
        exact hlive
      -- the socket that is closed is the current one
      · rw [heq]
        have hcur : Current s k sock := ⟨hinv.ws k hws, hk⟩
        exact liveTopics_of_not_opened (hcur.setSocket sock.close) (close_not_live sock).2

theorem opens_liveTopics (hinv : RosInv s) (hlive : LiveTopics s)
    (hj : s.sockets[j]? = some sock) (hconnecting : sock.readyState = .connecting) :
    LiveTopics (s.setSocket j { sock with readyState := .opened }) := by
  intro k sock' hcur hopen topic hhandled hadv
  by_cases hjk : j = k
  · subst hjk
    obtain rfl := hcur.of_setSocket (List.getElem?_eq_some_iff.mp hj).1
    obtain ⟨id, hid⟩ := hadv
    have hnone : sock.advertised id = none :=
      hinv.fresh sock (List.mem_of_getElem? hj) hconnecting id
    cases hnone.symm.trans hid
  · exact hlive k sock' ((current_setSocket_of_ne hjk).mp hcur) hopen topic hhandled hadv

/-- The `close` event of any socket ends the subscriptions of all. -/
theorem closes_liveTopics_iff (hj : s.sockets[j]? = some sock) :
    LiveTopics (s.setSocket j { sock with readyState := .closed }).onclose ↔
      KeepsLive s (.closes j) := by
  constructor
  · intro h k sock' hcur hopen hjk topic hhandled hadv
    obtain ⟨sub, -, -, hsub⟩ :=
      h k sock' ((current_setSocket_of_ne hjk).mpr hcur) hopen topic hhandled hadv
    cases hsub
  · intro h k sock' hcur hopen topic hhandled hadv
    have hcur : Current (s.setSocket j { sock with readyState := .closed }) k sock' := hcur
    by_cases hjk : j = k
    · subst hjk
      obtain rfl := hcur.of_setSocket (List.getElem?_eq_some_iff.mp hj).1
      cases hopen
    · have hcur := (current_setSocket_of_ne hjk).mp hcur
      exact absurd hadv (h k sock' hcur hopen hjk topic hhandled)

/-- When a topic is served, after what it has been given. -/
theorem served_iff_of_given {advertised : Nat → Option String} {channelId : Option Nat}
    (hids : ∀ sub ∈ sock.subscriptions, sub.id < s.nextSubId)
    (h : Given s s' sock sock' k topic channelId) :
    Served s' sock' advertised topic ↔ Serves s k sock advertised topic channelId := by
  cases channelId with
  | none =>
      obtain ⟨hsubs, hlist⟩ := h.left rfl
      unfold Serves Served
      rw [hsubs, hlist]
  | some cid =>
      obtain ⟨id, hle, hid, hlist⟩ := h.given cid rfl
      by_cases hws : s.ws = some k
      · rw [if_pos hws] at hlist
        constructor
        · rintro ⟨sub, hsub, hadv, -⟩
          have happend : sock.subscriptionsTo topic ++ [⟨id, cid, topic⟩] = [] ++ [sub] :=
            hlist.symm.trans hsub
          obtain ⟨hnil, hone⟩ := List.append_inj' happend rfl
          obtain rfl := List.singleton_inj.mp hone
          exact ⟨hws, hnil, hadv⟩
        · rintro ⟨-, hnil, hadv⟩
          refine ⟨⟨id, cid, topic⟩, ?_, hadv, hid⟩
          rw [hlist, hnil]
          rfl
      -- the number is not that of any subscription on the socket
      · rw [if_neg hws] at hlist
        refine iff_of_false ?_ fun h => hws h.1
        rintro ⟨sub, hsub, -, hnum⟩
        have hmem : sub ∈ sock.subscriptionsTo topic := by
          rw [← hlist, hsub]
          exact List.mem_singleton_self sub
        have hlt : sub.id < s.nextSubId := hids sub (List.mem_filter.mp hmem).1
        have hsame : id = sub.id := Option.some.inj (hid.symm.trans hnum)
        omega

/-- The socket of an `advertise` message, and another one. -/
theorem advertise_current (hcur : Current s k sock) (hj : s.sockets[j]? = some sock')
    (channels : List Channel) :
    ∃ sock₁ : Socket, Current (s.setSocket j (sock'.advertise channels)) k sock₁ ∧
      sock₁.readyState = sock.readyState ∧ sock₁.subscriptions = sock.subscriptions ∧
      sock₁.advertised =
        if j = k then advertisedAfter sock.advertised channels else sock.advertised := by
  by_cases hjk : j = k
  · subst hjk
    obtain rfl : sock = sock' := Option.some.inj (hcur.2.symm.trans hj)
    exact ⟨_, hcur.setSocket _, rfl, rfl, (if_pos rfl).symm⟩
  · exact ⟨sock, (current_setSocket_of_ne hjk).mpr hcur, rfl, rfl, (if_neg hjk).symm⟩

/-- What the condition asks of the topics of the current socket. -/
theorem keepsLive_advertise_iff {channels : List Channel} {advertised : Nat → Option String}
    (hcur : Current s k sock) (hopen : sock.readyState = .opened)
    (hadv : advertised =
      if j = k then advertisedAfter sock.advertised channels else sock.advertised) :
    KeepsLive s (.advertise j channels) ↔
      ∀ topic, 0 < s.topicHandlers topic → Advertises advertised topic →
        Serves s k sock advertised topic (s.subscribesTo channels topic) := by
  subst hadv
  constructor
  · intro h
    exact h k sock hcur hopen
  · intro h i sock' hcur' _
    obtain ⟨rfl, rfl⟩ := hcur.unique hcur'
    exact h

theorem advertise_liveTopics_iff (hinv : RosInv s) (hj : s.sockets[j]? = some sock)
    (hopen : sock.readyState = .opened) (channels : List Channel) :
    LiveTopics ((s.setSocket j (sock.advertise channels)).handleAdvertise channels) ↔
      KeepsLive s (.advertise j channels) := by
  obtain ⟨k, sock₀, hcur⟩ := exists_current hj
  obtain ⟨sock₁, hcur₁, hstate, hsubs, hadv⟩ := advertise_current hcur hj channels
  by_cases hopen₀ : sock₀.readyState = .opened
  · have hopen₁ : sock₁.readyState = .opened := hstate.trans hopen₀
    have hinv₁ := hinv.advertised hj hopen channels
    have hids := hinv₁.current_ids hcur₁
    obtain ⟨sock₂, hsame, hgiven⟩ :=
      handleAdvertise_spec hcur₁ hopen₁ (hinv₁.ws_cases hcur₁) channels
    have hto : ∀ topic, sock₁.subscriptionsTo topic = sock₀.subscriptionsTo topic := by
      intro topic
      unfold Socket.subscriptionsTo
      rw [hsubs]
    have hserved : ∀ topic,
        Served ((s.setSocket j (sock.advertise channels)).handleAdvertise channels) sock₂
          sock₁.advertised topic ↔
          Serves s k sock₀ sock₁.advertised topic (s.subscribesTo channels topic) := by
      intro topic
      refine (served_iff_of_given hids (hgiven topic)).trans ?_
      show Serves s k sock₁ sock₁.advertised topic (s.subscribesTo channels topic) ↔ _
      cases s.subscribesTo channels topic with
      | none =>
          unfold Serves Served
          rw [hto]
      | some cid =>
          unfold Serves
          rw [hto]
    rw [keepsLive_advertise_iff hcur hopen₀ hadv,
      liveTopics_iff hsame.current (hsame.readyState.trans hopen₁), hsame.advertised,
      hsame.topicHandlers]
    simp only [hserved]
    exact Iff.rfl
  -- nothing is asked before and nothing after
  · refine iff_of_true ?_ fun i sock' hcur' hopen' => ?_
    · exact liveTopics_of_readyStates (handleAdvertise_readyStates _ channels) hcur₁
        fun hopen₁ => hopen₀ (hstate.symm.trans hopen₁)
    · obtain ⟨rfl, rfl⟩ := hcur.unique hcur'
      exact absurd hopen' hopen₀

/-! The subscriptions of the withdrawn channels end. -/

theorem subscriptionsTo_unadvertise (sock : Socket) (channelIds : List Nat) (topic : String) :
    (sock.unadvertise channelIds).subscriptionsTo topic =
      (sock.subscriptionsTo topic).filter fun sub => sub.channelId ∉ channelIds := by
  unfold Socket.subscriptionsTo Socket.unadvertise
  rw [List.filter_filter, List.filter_filter]
  simp only [Bool.and_comm]

theorem advertises_unadvertise (sock : Socket) (channelIds : List Nat) (topic : String) :
    Advertises (sock.unadvertise channelIds).advertised topic ↔
      ∃ id, id ∉ channelIds ∧ sock.advertised id = some topic := by
  constructor
  · rintro ⟨id, hid⟩
    have hid : (if id ∈ channelIds then none else sock.advertised id) = some topic := hid
    by_cases hmem : id ∈ channelIds
    · rw [if_pos hmem] at hid
      cases hid
    · rw [if_neg hmem] at hid
      exact ⟨id, hmem, hid⟩
  · rintro ⟨id, hmem, hid⟩
    exact ⟨id, (if_neg hmem).trans hid⟩

theorem unadvertise_liveTopics_iff (hlive : LiveTopics s) (hj : s.sockets[j]? = some sock)
    (hopen : sock.readyState = .opened) (channelIds : List Nat) :
    LiveTopics ((s.setSocket j (sock.unadvertise channelIds)).handleUnadvertise channelIds) ↔
      KeepsLive s (.unadvertise j channelIds) := by
  obtain ⟨byTopic, byId, heq⟩ :=
    handleUnadvertise_eq (s.setSocket j (sock.unadvertise channelIds)) channelIds
  rw [heq]
  by_cases hcur : Current s j sock
  · have hcur₁ := hcur.setSocket (sock.unadvertise channelIds)
    have hiff : LiveTopics { s.setSocket j (sock.unadvertise channelIds) with
        channelsByTopic := byTopic, channelsById := byId } ↔ _ := liveTopics_iff hcur₁ hopen
    rw [hiff]
    constructor
    · intro h sock' hcur' topic hhandled hadv sub hmem
      obtain ⟨-, rfl⟩ := hcur.unique hcur'
      obtain ⟨sub', hlist, -, -⟩ :=
        h topic hhandled ((advertises_unadvertise sock channelIds topic).mpr hadv)
      rw [subscriptionsTo_unadvertise] at hlist
      -- one subscription is left, and there was one before
      obtain ⟨id, -, hid⟩ := hadv
      obtain ⟨sub₀, hlist₀, -, -⟩ := hlive j sock hcur hopen topic hhandled ⟨id, hid⟩
      obtain rfl : sub = sub₀ := by simpa [hlist₀] using hmem
      by_contra hin
      rw [hlist₀, List.filter_cons_of_neg (by simpa using hin)] at hlist
      cases hlist
    · intro h topic hhandled hadv
      have hadv' := (advertises_unadvertise sock channelIds topic).mp hadv
      obtain ⟨id, hnotin, hid⟩ := hadv'
      obtain ⟨sub, hlist, hchannel, hsub⟩ := hlive j sock hcur hopen topic hhandled ⟨id, hid⟩
      have hkept : sub.channelId ∉ channelIds := by
        refine h sock hcur topic hhandled ⟨id, hnotin, hid⟩ sub ?_
        rw [hlist]
        exact List.mem_singleton_self sub
      refine ⟨sub, ?_, (if_neg hkept).trans hchannel, hsub⟩
      rw [subscriptionsTo_unadvertise, hlist, List.filter_cons_of_pos (by simpa using hkept)]
      rfl
  -- the current socket is another one, and is left alone
  · have hother : ∀ sock', ¬ Current s j sock' := by
      intro sock' hcur'
      obtain rfl : sock = sock' := Option.some.inj (hj.symm.trans hcur'.2)
      exact hcur hcur'
    refine iff_of_true ?_ fun sock' hcur' => absurd hcur' (hother sock')
    intro k sock' hcur' hopen' topic hhandled hadv
    have hcur' : Current (s.setSocket j (sock.unadvertise channelIds)) k sock' := hcur'
    by_cases hjk : j = k
    · subst hjk
      have hlen : j + 1 = s.sockets.length := hcur'.1.trans (List.length_set ..)
      exact absurd ⟨hlen, hj⟩ hcur
    · exact hlive k sock' ((current_setSocket_of_ne hjk).mp hcur') hopen' topic hhandled hadv

/-! `subscribe` -/

theorem Given.of_subsByTopic (h : s'.subsByTopic = s.subsByTopic) (sock : Socket) (k : Nat)
    (topic : String) : Given s s' sock sock k topic none :=
  ⟨fun _ => ⟨congrFun h topic, rfl⟩, nofun⟩

/-- What `subscribe` does while the current socket is open: at most the topic is given a
subscription, if it has been waiting for one. -/
theorem subscribe_spec (hcur : Current s k sock) (hopen : sock.readyState = .opened)
    (hws : s.ws = none ∨ s.ws = some k) (topic : String) :
    ∃ sock' channelId, Current (s.subscribe topic) k sock' ∧ sock'.readyState = .opened ∧
      sock'.advertised = sock.advertised ∧
      (s.subscribe topic).topicHandlers = (s.addHandler topic).topicHandlers ∧
      Given s (s.subscribe topic) sock sock' k topic channelId ∧
      (∀ cid, channelId = some cid → s.pendingSubs topic = true ∧ s.subsByTopic topic = none) ∧
      ∀ other, other ≠ topic → Given s (s.subscribe topic) sock sock' k other none := by
  rw [subscribe_eq]
  cases s.channelsByTopic topic with
  | none =>
      exact ⟨sock, none, hcur, hopen, rfl, rfl, .of_subsByTopic (by rfl) sock k topic, nofun,
        fun other _ => .of_subsByTopic (by rfl) sock k other⟩
  | some ch =>
      by_cases hsub : s.subsByTopic topic = none
      · rw [if_pos hsub]
        obtain ⟨s', sock', heq, hsame, hgiven, hothers, -⟩ :=
          onChannelAvailable_spec (s := s.addHandler topic) hcur hopen hws topic
        rw [heq]
        refine ⟨sock', _, hsame.current, hsame.readyState.trans hopen, hsame.advertised,
          hsame.topicHandlers, ⟨hgiven.left, hgiven.given⟩, ?_, ?_⟩
        · intro cid hcid
          refine ⟨?_, hsub⟩
          by_contra hno
          have hav : (s.addHandler topic).available topic = none := if_neg hno
          rw [hav] at hcid
          cases hcid
        · intro other hne
          obtain ⟨hleft, -⟩ := hothers other hne
          exact ⟨hleft.left, hleft.given⟩
      · rw [if_neg hsub]
        exact ⟨sock, none, hcur, hopen, rfl, rfl, .of_subsByTopic (by rfl) sock k topic, nofun,
          fun other _ => .of_subsByTopic (by rfl) sock k other⟩

theorem subscribe_liveTopics_iff (hinv : RosInv s) (hlive : LiveTopics s) (topic : String) :
    LiveTopics (s.subscribe topic) ↔ KeepsLive s (.subscribe topic) := by
  by_cases hany : ∃ k sock, Current s k sock
  · obtain ⟨k, sock, hcur⟩ := hany
    by_cases hopen : sock.readyState = .opened
    · have hids := hinv.current_ids hcur
      obtain ⟨sock', channelId, hcur', hopen', hadv, hhandlers, hgiven, hasked, hothers⟩ :=
        subscribe_spec hcur hopen (hinv.ws_cases hcur) topic
      have hlive := (liveTopics_iff hcur hopen).mp hlive
      rw [liveTopics_iff hcur' hopen', hadv, hhandlers]
      by_cases hhandled : 0 < s.topicHandlers topic
      -- a handler more for a topic that has one
      · refine iff_of_true (fun other hother hadvertised => ?_) fun _ _ _ _ _ => hhandled
        by_cases hne : other = topic
        · subst hne
          have hserved := hlive other hhandled hadvertised
          cases channelId with
          | none => exact (served_iff_of_given hids hgiven).mpr hserved
          | some cid =>
              obtain ⟨sub, -, -, hsub⟩ := hserved
              cases (hasked cid rfl).2.symm.trans hsub
        · rw [addHandler_of_ne s hne] at hother
          exact (served_iff_of_given hids (hothers other hne)).mpr (hlive other hother hadvertised)
      -- its first handler: the topic has not been waiting and has no subscription
      · have hid : channelId = none := by
          cases channelId with
          | none => rfl
          | some cid => exact absurd (hinv.pending topic (hasked cid rfl).1) hhandled
        subst hid
        have hunserved : ¬ Served (s.subscribe topic) sock' sock.advertised topic := by
          rw [served_iff_of_given hids hgiven]
          rintro ⟨sub, hlist, -, -⟩
          obtain ⟨hmem, htopic⟩ : sub ∈ sock.subscriptions ∧ sub.topic = topic := by
            have hmem : sub ∈ sock.subscriptionsTo topic := by
              rw [hlist]
              exact List.mem_singleton_self sub
            simpa [Socket.subscriptionsTo] using hmem
          have hpos := (hinv.subscriptions sock (List.mem_of_getElem? hcur.2) sub hmem).2
          exact hhandled (htopic ▸ hpos)
        constructor
        · intro h i x hcur' _ hadvertised
          obtain ⟨rfl, rfl⟩ := hcur.unique hcur'
          exact absurd (h topic (addHandler_pos s topic) hadvertised) hunserved
        · intro h other hother hadvertised
          by_cases hne : other = topic
          · subst hne
            exact absurd (h k sock hcur hopen hadvertised) hhandled
          · rw [addHandler_of_ne s hne] at hother
            exact (served_iff_of_given hids (hothers other hne)).mpr
              (hlive other hother hadvertised)
    · refine iff_of_true ?_ fun i x hcur' hopen' _ => ?_
      · exact liveTopics_of_readyStates (subscribe_readyStates s topic) hcur hopen
      · obtain ⟨rfl, rfl⟩ := hcur.unique hcur'
        exact absurd hopen' hopen
  -- there is no socket yet
  · refine iff_of_true (fun i x hcur' _ => ?_) fun i x hcur' _ _ => ?_
    · have hlen : (s.subscribe topic).sockets.length = s.sockets.length := by
        simpa using congrArg List.length (subscribe_readyStates s topic)
      have hi : i < s.sockets.length := by
        have := hcur'.1
        omega
      exact absurd (exists_current (List.getElem?_eq_getElem hi)) hany
    · exact absurd ⟨i, x, hcur'⟩ hany

theorem liveTopics_step_iff {a : RosAct} {es : List Subscription} (hinv : RosInv s)
    (hlive : LiveTopics s) (hst : rosStep s a = some (s', es)) :
    LiveTopics s' ↔ KeepsLive s a := by
  cases RosMove.of_step hst with
  | connect urlValid => exact iff_of_true (connect_liveTopics hinv hlive urlValid) trivial
  | opens hk hconnecting => exact iff_of_true (opens_liveTopics hinv hlive hk hconnecting) trivial
  | closes hk => exact closes_liveTopics_iff hk
  | advertise hk hopen channels => exact advertise_liveTopics_iff hinv hk hopen channels
  | unadvertise hk hopen channelIds => exact unadvertise_liveTopics_iff hlive hk hopen channelIds
  | subscribe topic => exact subscribe_liveTopics_iff hinv hlive topic

end Steps

/-- **Live topics stay subscribed** throughout a schedule of events, exactly if each of its steps
keeps them so. -/
theorem live_topics_iff (as : List RosAct) :
    Throughout rosStep LiveTopics .init as ↔ Obeys rosStep KeepsLive .init as := by
  refine throughout_iff_obeys (J := RosInv) (fun _ _ _ _ hinv _ hst => hinv.step hst)
    (fun _ _ _ _ hinv hlive hst => liveTopics_step_iff hinv hlive hst) ?_ ?_
  · exact ⟨nofun, nofun, nofun, nofun⟩
  · rintro k sock ⟨hlen, -⟩
    cases hlen

/-- The topic is advertised first. -/
def lateSubscribe : List RosAct :=
  [.connect true, .opens 0, .advertise 0 [⟨1, "/odom"⟩], .subscribe "/odom"]

theorem lateSubscribe_isSome : (runActs rosStep anyStep .init lateSubscribe).isSome := by
  decide +kernel

/-- Nothing is subscribed to. -/
theorem not_always_live : ¬ ∀ as : List RosAct, Throughout rosStep LiveTopics .init as := by
  intro h
  have hlive : LiveTopics ((runActs rosStep anyStep .init lateSubscribe).get
      lateSubscribe_isSome).1 :=
    (h lateSubscribe).of_runActs (Option.some_get lateSubscribe_isSome).symm
  have hserved := hlive 0 _ ⟨rfl, rfl⟩ rfl "/odom" (by decide +kernel) ⟨1, rfl⟩
  obtain ⟨sub, -, -, hsub⟩ := hserved
  cases hsub

end RobotTaskManager.WebGui.UseRos
