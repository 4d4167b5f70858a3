import RobotTaskManager.Executor.Step

set_option autoImplicit false

/-! # The RCS bridge

`RcsBridgeNode` of `mw_rcs_bridge` next to the executor node. The HTTP handlers `submit_order`,
`cancel_order` and `snapshot` run one after the other on one thread, the callbacks of the ROS
side on another. A goal that is sent reaches the executor later, if at all, and so does the
answer on its way back; status messages are delivered in order, with any delay. Other clients
send goals to the same executor.

A submission is numbered in the order in which its goal is sent; the number stands for the
future of `send_goal_async`. The reading of the HTTP bodies is left out, and so is what is done
with the cancel of a goal handle after it has been sent.
-/

namespace RobotTaskManager.Rcs

open Executor (GoalAct GoalPc GoalRequest JsonModule Outcome Status StatusMsg safeJsonLoads)

variable {Dict : Type}

/-! ## Data -/

structure OrderRequest (Dict : Type) where
  subjobId : String
  behaviorParameter : Dict
  userdataIn : Dict
  orderId : String

structure OrderResponse where
  ok : Bool
  orderId : String
  message : String
  deriving DecidableEq

structure CancelResponse where
  ok : Bool
  message : String
  deriving DecidableEq

/-- What `uuid.uuid4().hex` gives. -/
structure Uuid where
  hex : String
  ne : hex ≠ ""

/-- What the executor has decided about a goal: it is rejected, or it is goal number `g`. -/
inductive Decision
  | rejected
  | accepted (g : Nat)
  deriving DecidableEq

/-- A goal that `submit_order` has sent. `answered`: the future is done. -/
structure Submission where
  orderId : String
  request : GoalRequest
  decision : Option Decision
  answered : Bool
  deriving DecidableEq

/-- A status message together with the goals whose data it carries; these are not part of the
message. -/
structure Report where
  msg : StatusMsg
  goals : List Nat
  deriving DecidableEq

/-- The fields of the node. `pending` is the dict `_pending`, the last assignment first. -/
structure Bridge where
  pending : List (String × Nat)
  lastState : Option Report
  lastOrderId : String
  deriving DecidableEq

def Bridge.init : Bridge := ⟨[], none, ""⟩

/-! ## The handlers -/

/-- `order_id = req.order_id or uuid.uuid4().hex` -/
def OrderRequest.effectiveId (req : OrderRequest Dict) (uuid : Uuid) : String :=
  if req.orderId = "" then uuid.hex else req.orderId

/-- The goal that `submit_order` sends. -/
def OrderRequest.goal (J : JsonModule Dict) (req : OrderRequest Dict) : GoalRequest :=
  ⟨req.subjobId, J.dumps req.behaviorParameter, J.dumps req.userdataIn⟩

/-- `submit_order` once the goal has been sent as submission `n`. -/
def Bridge.submitOrder (b : Bridge) (n : Nat) (orderId : String) : Bridge × OrderResponse :=
  ({ b with pending := (orderId, n) :: b.pending, lastOrderId := orderId },
    ⟨true, orderId, "dispatched"⟩)

/-- `submit_order` when the executor's action server does not show up in time. -/
def executorUnavailable (req : OrderRequest Dict) : OrderResponse :=
  ⟨false, req.orderId, "executor unavailable"⟩

/-- What `future.result()` is, as far as `cancel_order` looks at it: an accepted handle. -/
def Submission.handleAccepted (sub : Submission) : Bool :=
  match sub.answered, sub.decision with
  | true, some (.accepted _) => true
  | _, _ => false

/-- `cancel_order`: the response, and the submission whose handle gets `cancel_goal_async`. -/
def Bridge.cancelOrder (b : Bridge) (submissions : List Submission) (orderId : String) :
    CancelResponse × Option Nat :=
  match b.pending.lookup orderId with
  | none => (⟨false, "unknown order_id"⟩, none)
  | some n =>
      match submissions[n]? with
      | none => (⟨false, "unknown order_id"⟩, none)
      | some sub =>
          if sub.handleAccepted then (⟨true, "cancel requested"⟩, some n)
          else (⟨false, "goal handle not yet accepted"⟩, none)

/-- `_STATUS_LABELS` -/
def statusLabel : Status → String
  | .idle => "idle"
  | .running => "running"
  | .success => "success"
  | .failure => "failure"

/-- `StateSnapshot`; `goals` are those of the status message it is made of. -/
structure StateSnapshot (Dict : Type) where
  orderId : String
  subjobId : String
  status : String
  activeState : String
  userdataSnapshot : Dict
  elapsed : Nat
  goals : List Nat

/-- `json.loads(last.userdata_snapshot_json or '{}')`, where a `JSONDecodeError` gives the empty
dict. The executor only writes dicts. -/
def snapshotUserdata (J : JsonModule Dict) (text : String) : Dict :=
  if text = "" then J.empty
  else
    match J.loads text with
    | .dict d => d
    | _ => J.empty

def Bridge.snapshot (J : JsonModule Dict) (b : Bridge) : StateSnapshot Dict :=
  match b.lastState with
  | none => ⟨b.lastOrderId, "", "idle", "", J.empty, 0, []⟩
  | some r =>
      ⟨b.lastOrderId, r.msg.subjobId, statusLabel r.msg.status, r.msg.activeState,
        snapshotUserdata J r.msg.userdataSnapshotJson, r.msg.elapsed, r.goals⟩

/-- `json` for requests whose parameters and userdata are empty dicts. -/
def emptyDicts : JsonModule Unit := ⟨fun _ => .dict (), fun _ => "{}", ()⟩

/-- An order without parameters. -/
def plainOrder (subjobId orderId : String) : OrderRequest Unit := ⟨subjobId, (), (), orderId⟩

def anyUuid : Uuid := ⟨"0f", by decide⟩

example : ((Bridge.init.submitOrder 0 ((plainOrder "Patrol" "").effectiveId anyUuid)).1.cancelOrder
    [⟨"0f", (plainOrder "Patrol" "").goal emptyDicts, none, false⟩] "0f").1 =
      ⟨false, "goal handle not yet accepted"⟩ := by decide

/-! ## The bridge and the executor -/

/-- The fields of a status message that a snapshot shows. -/
inductive Field
  | subjobId
  | status
  | activeState
  | userdata
  deriving DecidableEq

structure State (Dict : Type) where
  bridge : Bridge
  submissions : List Submission
  executor : Executor.State Dict
  /-- The goal whose `_execute_goal` has set a status field last. -/
  owner : Field → Option Nat
  /-- The status messages on their way. -/
  queue : List Report

def State.init (now : Nat) : State Dict := ⟨.init, [], .init now, fun _ => none, []⟩

/-- What `active_path()` gives, and the goal in whose run the engine has recorded it. -/
structure LivePath where
  path : String
  goal : Option Nat
  deriving DecidableEq

inductive Event (Dict : Type)
  | submitted (response : OrderResponse)
  | canceled (orderId : String) (response : CancelResponse) (handle : Option Nat)
  | snapshot (s : StateSnapshot Dict)

inductive Act (Dict : Type)
  /-- `submit_order`; `available` is what `wait_for_server` gives. -/
  | submitOrder (req : OrderRequest Dict) (uuid : Uuid) (available : Bool)
  | cancelOrder (orderId : String)
  | snapshot
  /-- The goal of submission `k` reaches the executor, and `_goal_callback` answers it. -/
  | arrive (k : Nat)
  /-- The answer reaches the bridge: the future of submission `k` is done. -/
  | answer (k : Nat)
  /-- A step of the executor: the goal of another client, or any of its callbacks. -/
  | executor (a : Executor.Act)
  /-- `_publish_status`, with the path it has read. -/
  | publish (live : LivePath) (now : Nat)
  /-- `_on_status` is called with the next message. -/
  | onStatus

/-- The status fields that the last section of an `_execute_goal` sets before it is left. -/
def returnedFields (o : Outcome) (snapshot : Except String String) : List Field :=
  match snapshot, o.text with
  | .error _, _ => [.status]
  | .ok _, .error _ => [.status, .userdata]
  | .ok _, .ok _ => [.status, .activeState, .userdata]

/-- The status fields that a step of an `_execute_goal` sets. -/
def written (J : JsonModule Dict) (req : GoalRequest) : GoalPc Dict → GoalAct → List Field
  | .accepted, .start _ =>
      match safeJsonLoads J req.behaviorParameterJson, safeJsonLoads J req.userdataInJson with
      | .ok _, .ok _ => [.subjobId, .status, .activeState, .userdata]
      | _, _ => []
  | .cancelling _, .finish => [.status, .activeState, .userdata]
  -- `_finish_failure` leaves the active state as it is
  | .failing _ _, .finish => [.status, .userdata]
  | .returned o _ snapshot _ _, .finish => returnedFields o snapshot
  | _, _ => []

/-- `owner` after a step of the executor. -/
def State.ownerAfter (J : JsonModule Dict) (s : State Dict) : Executor.Act → Field → Option Nat
  | .goal g a => fun f =>
      match s.executor.goals[g]? with
      | none => s.owner f
      | some goal => if f ∈ written J goal.request goal.pc a then some g else s.owner f
  | _ => s.owner

/-- The message that `_publish_status` sends after it has read `live`. -/
def State.report (s : State Dict) (live : LivePath) (now : Nat) : Report where
  msg := s.executor.node.publishSection live.path now
  goals := [Field.subjobId, .status, .userdata].filterMap s.owner ++
    (if s.executor.node.busy then live.goal else s.owner .activeState).toList

def step (J : JsonModule Dict) (s : State Dict) :
    Act Dict → Option (State Dict × List (Event Dict))
  | .submitOrder req uuid available =>
      if !available then some (s, [.submitted (executorUnavailable req)])
      else
        let orderId := req.effectiveId uuid
        let submitted := s.bridge.submitOrder s.submissions.length orderId
        some ({ s with
            bridge := submitted.1
            submissions := s.submissions ++ [⟨orderId, req.goal J, none, false⟩] },
          [.submitted submitted.2])
  | .cancelOrder orderId =>
      let canceled := s.bridge.cancelOrder s.submissions orderId
      some (s, [.canceled orderId canceled.1 canceled.2])
  | .snapshot => some (s, [.snapshot (s.bridge.snapshot J)])
  | .arrive k =>
      match s.submissions[k]? with
      | some ⟨orderId, request, none, answered⟩ =>
          (Executor.step J s.executor (.goalRequest request)).map fun p =>
            let decision := if s.executor.node.busy then .rejected
              else .accepted s.executor.goals.length
            ({ s with
                executor := p.1
                submissions := s.submissions.set k ⟨orderId, request, some decision, answered⟩ },
              [])
      | _ => none
  | .answer k =>
      match s.submissions[k]? with
      | some ⟨orderId, request, some decision, false⟩ =>
          some ({ s with
              submissions := s.submissions.set k ⟨orderId, request, some decision, true⟩ },
            [])
      | _ => none
  | .executor a =>
      (Executor.step J s.executor a).map fun p =>
        ({ s with executor := p.1, owner := s.ownerAfter J a }, [])
  | .publish live now => some ({ s with queue := s.queue ++ [s.report live now] }, [])
  | .onStatus =>
      match s.queue with
      | [] => none
      | r :: rest =>
          some ({ s with bridge := { s.bridge with lastState := some r }, queue := rest }, [])

/-! ## What a step can do -/

/-- The steps, one rule for each way through the handlers and callbacks. -/
inductive Step (J : JsonModule Dict) (s : State Dict) :
    Act Dict → State Dict → List (Event Dict) → Prop
  | unavailable {req : OrderRequest Dict} {uuid : Uuid} :
      Step J s (.submitOrder req uuid false) s [.submitted (executorUnavailable req)]
  | submitted {req : OrderRequest Dict} {uuid : Uuid} :
      Step J s (.submitOrder req uuid true)
        { s with
          bridge := (s.bridge.submitOrder s.submissions.length (req.effectiveId uuid)).1
          submissions := s.submissions ++ [⟨req.effectiveId uuid, req.goal J, none, false⟩] }
        [.submitted ⟨true, req.effectiveId uuid, "dispatched"⟩]
  | canceled {orderId : String} :
      Step J s (.cancelOrder orderId) s
        [.canceled orderId (s.bridge.cancelOrder s.submissions orderId).1
          (s.bridge.cancelOrder s.submissions orderId).2]
  | snapshot : Step J s .snapshot s [.snapshot (s.bridge.snapshot J)]
  | rejected {k : Nat} {sub : Submission} :
      s.submissions[k]? = some sub → sub.decision = none → s.executor.node.busy = true →
      Step J s (.arrive k)
        { s with submissions := s.submissions.set k { sub with decision := some .rejected } } []
  | accepted {k : Nat} {sub : Submission} :
      s.submissions[k]? = some sub → sub.decision = none → s.executor.node.busy = false →
      Step J s (.arrive k)
        { s with
          executor := { s.executor with goals := s.executor.goals ++ [⟨sub.request, .accepted⟩] }
          submissions := s.submissions.set k
            { sub with decision := some (.accepted s.executor.goals.length) } } []
  | answered {k : Nat} {sub : Submission} {d : Decision} :
      s.submissions[k]? = some sub → sub.decision = some d →
      Step J s (.answer k)
        { s with submissions := s.submissions.set k { sub with answered := true } } []
  | executor {a : Executor.Act} {executor : Executor.State Dict} {es : List Executor.Event} :
      Executor.step J s.executor a = some (executor, es) →
      Step J s (.executor a) { s with executor, owner := s.ownerAfter J a } []
  | publish {live : LivePath} {now : Nat} :
      Step J s (.publish live now) { s with queue := s.queue ++ [s.report live now] } []
  | onStatus {r : Report} {rest : List Report} :
      s.queue = r :: rest →
      Step J s .onStatus
        { s with bridge := { s.bridge with lastState := some r }, queue := rest } []

theorem step_cases {J : JsonModule Dict} {s s' : State Dict} {act : Act Dict}
    {es : List (Event Dict)} (h : step J s act = some (s', es)) : Step J s act s' es := by
  cases act with
  | submitOrder req uuid available =>
      cases available with
      | false =>
          obtain ⟨rfl, rfl⟩ := Prod.mk.inj (Option.some.inj h)
          exact .unavailable
      | true =>
          obtain ⟨rfl, rfl⟩ := Prod.mk.inj (Option.some.inj h)
          exact .submitted
  | cancelOrder orderId =>
      obtain ⟨rfl, rfl⟩ := Prod.mk.inj (Option.some.inj h)
      exact .canceled
  | snapshot =>
      obtain ⟨rfl, rfl⟩ := Prod.mk.inj (Option.some.inj h)
      exact .snapshot
  | arrive k =>
      rw [step] at h
      split at h
      · rename_i orderId request answered hk
        cases hb : s.executor.node.busy with
        | true =>
            simp only [Executor.step, hb, if_true, Option.map_some] at h
            obtain ⟨rfl, rfl⟩ := Prod.mk.inj (Option.some.inj h)
            exact .rejected hk rfl hb
        | false =>
            simp only [Executor.step, hb, Bool.false_eq_true, if_false, Option.map_some] at h
            obtain ⟨rfl, rfl⟩ := Prod.mk.inj (Option.some.inj h)
            exact .accepted hk rfl hb
      · cases h
  | answer k =>
      rw [step] at h
      split at h
      · rename_i orderId request d hk
        obtain ⟨rfl, rfl⟩ := Prod.mk.inj (Option.some.inj h)
        exact .answered hk rfl
      · cases h
  | executor a =>
      rw [step, Option.map_eq_some_iff] at h
      obtain ⟨⟨executor, es'⟩, hst, h⟩ := h
      obtain ⟨rfl, rfl⟩ := Prod.mk.inj h
      exact .executor hst
  | publish live now =>
      obtain ⟨rfl, rfl⟩ := Prod.mk.inj (Option.some.inj h)
      exact .publish
  | onStatus =>
      rw [step] at h
      split at h
      · cases h
      · rename_i r rest hq
        obtain ⟨rfl, rfl⟩ := Prod.mk.inj (Option.some.inj h)
        exact .onStatus hq

end RobotTaskManager.Rcs
