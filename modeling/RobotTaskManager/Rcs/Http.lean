import RobotTaskManager.Lib.JsonGrammar
import RobotTaskManager.Lib.PyConvert

set_option autoImplicit false

/-! # The HTTP side of the RCS bridge

`do_POST` of the handler, from the bytes of the body to what is sent back. Strings are Python's,
and the ROS side is what the node finds of it when it is asked; how it gets there is modelled with
the bridge. `_send_json` sends an object; that `json.dumps` writes it is not modelled.

A body should get exactly one JSON response, with status 400 if it is not valid JSON or does not
convert to a request, and only then (`AnsweredOnce`). `post_answered_iff` says which bodies do:
where the body is decoded only `JSONDecodeError` is caught, and where it is converted only
`TypeError` and `ValueError`, but some bodies raise something else there.
-/

namespace RobotTaskManager.Rcs.Http

open PyText PyJson

/-! ## Requests and responses -/

structure OrderRequest where
  subjobId : Text
  behaviorParameter : List (Val × Val)
  userdataIn : List (Val × Val)
  orderId : Text
  orderUpdateId : ℤ

/-- `OrderRequest.from_dict` -/
def OrderRequest.fromDict (P : Interpreter) : Val → Except ConvertError OrderRequest
  | .dict data =>
      if (getItem data "subjob_id").truthy then do
        let behaviorParameter ← ((getItem data "behavior_parameter").orElse (.dict [])).toDict
        let userdataIn ← ((getItem data "userdata_in").orElse (.dict [])).toDict
        let orderUpdateId ← P.int ((getItem data "order_update_id").orElse (.int 0))
        return {
          subjobId := P.str (getItem data "subjob_id")
          behaviorParameter := behaviorParameter
          userdataIn := userdataIn
          orderId := P.str ((getItem data "order_id").orElse (.str []))
          orderUpdateId := orderUpdateId }
      else valueError "OrderRequest requires \"subjob_id\""
  | _ => typeError "OrderRequest body must be a JSON object"

structure OrderResponse where
  ok : Bool
  orderId : Text
  message : Text

def OrderResponse.toDict (r : OrderResponse) : Val :=
  .dict [(ofString "ok", .bool r.ok), (ofString "order_id", .str r.orderId),
    (ofString "message", .str r.message)]

structure CancelRequest where
  orderId : Text

/-- `CancelRequest.from_dict` -/
def CancelRequest.fromDict (P : Interpreter) : Val → Except ConvertError CancelRequest
  | .dict data =>
      if (getItem data "order_id").truthy then .ok ⟨P.str (getItem data "order_id")⟩
      else valueError "CancelRequest requires \"order_id\""
  | _ => valueError "CancelRequest requires \"order_id\""

structure CancelResponse where
  ok : Bool
  message : Text

def CancelResponse.toDict (r : CancelResponse) : Val :=
  .dict [(ofString "ok", .bool r.ok), (ofString "message", .str r.message)]

/-- What the node finds when a request comes in. -/
structure Node where
  /-- What `wait_for_server` gives. -/
  serverReady : Bool
  /-- What `uuid.uuid4().hex` gives. -/
  uuid : Text
  /-- The orders in `_pending`, and whether the result of the future is an accepted goal handle. -/
  pending : Text → Option Bool

/-- The response of `submit_order`. -/
def Node.submitOrder (node : Node) (req : OrderRequest) : OrderResponse :=
  if node.serverReady then
    ⟨true, if req.orderId = [] then node.uuid else req.orderId, ofString "dispatched"⟩
  else ⟨false, req.orderId, ofString "executor unavailable"⟩

/-- The response of `cancel_order`. -/
def Node.cancelOrder (node : Node) (req : CancelRequest) : CancelResponse :=
  match node.pending req.orderId with
  | none => ⟨false, ofString "unknown order_id"⟩
  | some false => ⟨false, ofString "goal handle not yet accepted"⟩
  | some true => ⟨true, ofString "cancel requested"⟩

/-! ## The handler -/

/-- What is sent back: by `_send_json`, or by `send_error`. -/
inductive Response
  | json (code : ℕ) (obj : Val)
  | error (code : ℕ)

/-- An exception that nothing in `do_POST` catches. -/
inductive Uncaught
  | loads (e : Raised)
  | convert (e : ConvertError)

/-- What a request leads to: the responses, and the exception that ends the handler, if any. -/
structure Handled where
  sent : List Response
  raised : Option Uncaught

def sendJson (code : ℕ) (obj : Val) : Handled := ⟨[.json code obj], none⟩

/-- `{'ok': False, 'message': message}` -/
def failure (message : Text) : Val :=
  .dict [(ofString "ok", .bool false), (ofString "message", .str message)]

/-- The `try` around a `from_dict`, and what is done with the request. -/
def convertAnd {α : Type} (req : Except ConvertError α) (handle : α → Handled) : Handled :=
  match req with
  | .ok req => handle req
  | .error (.typeError message) => sendJson 400 (failure message)
  | .error (.valueError message) => sendJson 400 (failure message)
  | .error (.overflowError message) => ⟨[], some (.convert (.overflowError message))⟩

/-- `do_POST`; `body` is what `self.rfile.read(n)` gives. -/
def doPost (P : Interpreter) (node : Node) (path : String) (body : List UInt8) : Handled :=
  match loads P.maxNesting (if body = [] then [0x7B, 0x7D] else body) with
  | .error .jsonDecodeError => sendJson 400 (failure (ofString "invalid JSON"))
  | .error e => ⟨[], some (.loads e)⟩
  | .ok data =>
      if path = "/order" then
        convertAnd (OrderRequest.fromDict P data) fun req =>
          let resp := node.submitOrder req
          sendJson (if resp.ok then 200 else 500) resp.toDict
      else if path = "/cancel" then
        convertAnd (CancelRequest.fromDict P data) fun req =>
          let resp := node.cancelOrder req
          sendJson (if resp.ok then 200 else 404) resp.toDict
      else ⟨[.error 404], none⟩

/-! ## What a body should get -/

inductive Endpoint
  | order
  | cancel
  deriving DecidableEq

def Endpoint.path : Endpoint → String
  | .order => "/order"
  | .cancel => "/cancel"

/-- The body is JSON, as far as `json.loads` is for it, and stands for `data`. -/
def ValidJson (body : List UInt8) (data : Val) : Prop :=
  ∃ s, decode (detectEncoding body) body = some s ∧ Denotes s data

def Endpoint.Converts (P : Interpreter) (data : Val) : Endpoint → Prop
  | .order => ∃ req, OrderRequest.fromDict P data = .ok req
  | .cancel => ∃ req, CancelRequest.fromDict P data = .ok req

/-- No exception is left, and exactly one JSON response is sent, with status 400 exactly if the
body is not valid JSON or does not convert. -/
def AnsweredOnce (P : Interpreter) (node : Node) (endpoint : Endpoint) (body : List UInt8) : Prop :=
  ∃ code obj, doPost P node endpoint.path body = ⟨[.json code obj], none⟩ ∧
    (code = 400 ↔ ¬ ∃ data, ValidJson body data ∧ endpoint.Converts P data)

/-- `from_dict` comes to the update id of the order, and this is infinite. -/
def UpdateIdInfinite (data : Val) : Prop :=
  ∃ items, data = .dict items ∧ (getItem items "subjob_id").truthy = true ∧
    ((getItem items "behavior_parameter").orElse (.dict [])).IsMapping ∧
    ((getItem items "userdata_in").orElse (.dict [])).IsMapping ∧
    ∃ negative, getItem items "order_update_id" = .float (.infinite negative)

/-- The bodies that `do_POST` has an answer for: text in the encoding it is taken for, within the
limits of the decoder, and no order with an infinite update id. -/
def Answerable (P : Interpreter) (endpoint : Endpoint) (body : List UInt8) : Prop :=
  ∃ s, decode (detectEncoding body) body = some s ∧ ¬ Overruns P.maxNesting s ∧
    (endpoint = .order → ∀ data, Denotes s data → ¬ UpdateIdInfinite data)

/-! ## Conversions -/

variable {P : Interpreter} {node : Node} {endpoint : Endpoint} {body : List UInt8} {data : Val}

theorem orElse_infinite_iff {v : Val} {n : ℤ} :
    (∃ negative, v.orElse (.int n) = .float (.infinite negative)) ↔
      ∃ negative, v = .float (.infinite negative) := by
  unfold Val.orElse
  by_cases hv : v.truthy = true
  · rw [if_pos hv]
  · rw [if_neg hv]
    refine iff_of_false nofun ?_
    rintro ⟨negative, rfl⟩
    exact hv rfl

theorem overflows_order_iff :
    Overflows (OrderRequest.fromDict P data) ↔ UpdateIdInfinite data := by
  cases data with
  | dict items =>
      rw [OrderRequest.fromDict]
      by_cases hsubjob : (getItem items "subjob_id").truthy = true
      · rw [if_pos hsubjob, overflows_bind, or_iff_right (Val.not_overflows_toDict _)]
        constructor
        · rintro ⟨behaviorParameter, hbehavior, h⟩
          rw [overflows_bind, or_iff_right (Val.not_overflows_toDict _)] at h
          obtain ⟨userdataIn, huserdata, h⟩ := h
          rw [overflows_bind] at h
          cases h with
          | inl hint =>
              rw [P.overflows_int_iff, orElse_infinite_iff] at hint
              exact ⟨items, rfl, hsubjob, (Val.toDict_ok_iff _).mp ⟨_, hbehavior⟩,
                (Val.toDict_ok_iff _).mp ⟨_, huserdata⟩, hint⟩
          | inr hreturn =>
              obtain ⟨n, -, hreturn⟩ := hreturn
              exact absurd hreturn not_overflows_ok
        · rintro ⟨items', hitems, -, hbehavior, huserdata, hid⟩
          cases hitems
          obtain ⟨behaviorParameter, hbehavior⟩ := (Val.toDict_ok_iff _).mpr hbehavior
          obtain ⟨userdataIn, huserdata⟩ := (Val.toDict_ok_iff _).mpr huserdata
          refine ⟨behaviorParameter, hbehavior, overflows_bind.mpr (Or.inr ?_)⟩
          refine ⟨userdataIn, huserdata, overflows_bind.mpr (Or.inl ?_)⟩
          exact (P.overflows_int_iff _).mpr (orElse_infinite_iff.mpr hid)
      · rw [if_neg hsubjob]
        refine iff_of_false (not_overflows_valueError _) ?_
        rintro ⟨items', hitems, hsubjob', -⟩
        cases hitems
        exact hsubjob hsubjob'
  | _ =>
      refine iff_of_false (not_overflows_typeError _) ?_
      rintro ⟨items, hitems, -⟩
      cases hitems

theorem not_overflows_cancel : ¬ Overflows (CancelRequest.fromDict P data) := by
  unfold CancelRequest.fromDict
  split
  · split_ifs
    · exact not_overflows_ok
    · exact not_overflows_valueError _
  · exact not_overflows_valueError _

/-! ## Responses -/

theorem convertAnd_answers_iff {α : Type} {req : Except ConvertError α} {handle : α → Handled}
    (hhandle : ∀ r, ∃ code obj, handle r = ⟨[.json code obj], none⟩ ∧ code ≠ 400) :
    (∃ code obj, convertAnd req handle = ⟨[.json code obj], none⟩ ∧
      (code = 400 ↔ ¬ ∃ r, req = .ok r)) ↔ ¬ Overflows req := by
  cases req with
  | ok r =>
      obtain ⟨code, obj, hr, hcode⟩ := hhandle r
      exact iff_of_true ⟨code, obj, hr, iff_of_false hcode fun h => h ⟨r, rfl⟩⟩ not_overflows_ok
  | error e =>
      cases e with
      | typeError message => exact iff_of_true ⟨400, _, rfl, iff_of_true rfl nofun⟩ nofun
      | valueError message => exact iff_of_true ⟨400, _, rfl, iff_of_true rfl nofun⟩ nofun
      | overflowError message => exact iff_of_false nofun fun h => h ⟨message, rfl⟩

theorem doPost_ok (hbody : body ≠ []) (h : loads P.maxNesting body = .ok data) :
    (∃ code obj, doPost P node endpoint.path body = ⟨[.json code obj], none⟩ ∧
      (code = 400 ↔ ¬ endpoint.Converts P data)) ↔
        (endpoint = .order → ¬ UpdateIdInfinite data) := by
  unfold doPost
  rw [if_neg hbody, h]
  cases endpoint with
  | order =>
      refine (convertAnd_answers_iff fun req => ⟨_, _, rfl, ?_⟩).trans ?_
      · split_ifs <;> decide
      · rw [overflows_order_iff, imp_iff_right rfl]
  | cancel =>
      refine (convertAnd_answers_iff fun req => ⟨_, _, rfl, ?_⟩).trans ?_
      · split_ifs <;> decide
      · exact iff_of_true not_overflows_cancel nofun

theorem doPost_jsonDecodeError (hbody : body ≠ [])
    (h : loads P.maxNesting body = .error .jsonDecodeError) (path : String) :
    doPost P node path body = sendJson 400 (failure (ofString "invalid JSON")) := by
  unfold doPost
  rw [if_neg hbody, h]

theorem doPost_aborts (hbody : body ≠ []) (h : Aborts (loads P.maxNesting body))
    (path : String) : ∃ e, doPost P node path body = ⟨[], some (.loads e)⟩ := by
  obtain ⟨e, he, hne⟩ := h
  unfold doPost
  rw [if_neg hbody, he]
  cases e with
  | jsonDecodeError => exact absurd rfl hne
  | unicodeDecodeError => exact ⟨_, rfl⟩
  | valueError => exact ⟨_, rfl⟩
  | recursionError => exact ⟨_, rfl⟩

/-! ## The empty body -/

/-- An empty body is read as an empty object, which is no request. -/
theorem doPost_nil (P : Interpreter) (node : Node) (endpoint : Endpoint) :
    ∃ obj, doPost P node endpoint.path [] = ⟨[.json 400 obj], none⟩ := by
  have hloads : loads P.maxNesting [0x7B, 0x7D] = .ok (.dict []) := by
    obtain ⟨n, hn⟩ := Nat.exists_eq_succ_of_ne_zero P.maxNesting_pos.ne'
    rw [hn]
    rfl
  unfold doPost
  rw [if_pos rfl, hloads]
  cases endpoint <;> exact ⟨_, rfl⟩

theorem not_denotes_nil : ¬ Denotes [] data := by
  rintro ⟨rest, hread, -⟩
  exact absurd hread.length (Nat.not_lt_zero _)

theorem not_overruns_nil (levels : ℕ) : ¬ Overruns levels [] := by
  intro h
  exact not_aborts_nil levels (aborts_iff.mpr h)

theorem answeredOnce_nil (P : Interpreter) (node : Node) (endpoint : Endpoint) :
    AnsweredOnce P node endpoint [] := by
  obtain ⟨obj, hobj⟩ := doPost_nil P node endpoint
  refine ⟨400, obj, hobj, iff_of_true rfl ?_⟩
  rintro ⟨data, ⟨s, hs, hdenotes⟩, -⟩
  cases hs
  exact not_denotes_nil hdenotes

theorem answerable_nil (P : Interpreter) (endpoint : Endpoint) : Answerable P endpoint [] :=
  ⟨[], rfl, not_overruns_nil P.maxNesting, fun _ _ h => absurd h not_denotes_nil⟩

theorem validJson_iff {s : Text} (h : decode (detectEncoding body) body = some s) :
    ValidJson body data ↔ Denotes s data :=
  ⟨fun ⟨_, ht, hdata⟩ => Option.some.inj (h.symm.trans ht) ▸ hdata, fun hdata => ⟨s, h, hdata⟩⟩

theorem answerable_iff {s : Text} (h : decode (detectEncoding body) body = some s) :
    Answerable P endpoint body ↔ ¬ Overruns P.maxNesting s ∧
      (endpoint = .order → ∀ data, Denotes s data → ¬ UpdateIdInfinite data) := by
  constructor
  · rintro ⟨t, ht, hanswerable⟩
    cases h.symm.trans ht
    exact hanswerable
  · exact fun hanswerable => ⟨s, h, hanswerable⟩

/-- **Which bodies are answered once**: those that are text in the encoding they are taken for, keep
within the limits of the decoder, and are no order with an infinite update id. -/
theorem post_answered_iff (P : Interpreter) (node : Node) (endpoint : Endpoint)
    (body : List UInt8) : AnsweredOnce P node endpoint body ↔ Answerable P endpoint body := by
  by_cases hbody : body = []
  · rw [hbody]
    exact iff_of_true (answeredOnce_nil P node endpoint) (answerable_nil P endpoint)
  have hfails : Aborts (loads P.maxNesting body) → ¬ AnsweredOnce P node endpoint body := by
    rintro habort ⟨code, obj, hpost, -⟩
    obtain ⟨e, he⟩ := doPost_aborts hbody habort endpoint.path
    exact nomatch he.symm.trans hpost
  cases hdecode : decode (detectEncoding body) body with
  | none =>
      have habort : Aborts (loads P.maxNesting body) :=
        ⟨.unicodeDecodeError, by rw [loads, hdecode], nofun⟩
      refine iff_of_false (hfails habort) ?_
      rintro ⟨s, hs, -⟩
      exact nomatch hdecode.symm.trans hs
  | some s =>
      have hloads : loads P.maxNesting body = decodeText P.maxNesting s := by rw [loads, hdecode]
      rw [answerable_iff hdecode]
      by_cases hover : Overruns P.maxNesting s
      · exact iff_of_false (hfails (hloads ▸ decodeText_aborts hover)) fun h => h.1 hover
      rw [and_iff_right hover]
      unfold AnsweredOnce
      simp only [validJson_iff hdecode]
      cases decodeText_spec hover with
      | inl hok =>
          obtain ⟨data, hok, hdenotes⟩ := hok
          simp only [hdenotes, exists_eq_left, forall_eq]
          exact doPost_ok hbody (hloads.trans hok)
      | inr hnone =>
          obtain ⟨herror, hdenotes⟩ := hnone
          refine iff_of_true ⟨400, _, doPost_jsonDecodeError hbody (hloads.trans herror) _, ?_⟩
            fun _ data hdata => absurd hdata (hdenotes data)
          exact iff_of_true rfl fun ⟨data, hdata, _⟩ => hdenotes data hdata

/-- An interpreter whose Unicode database has the ASCII characters only. -/
def plainInterpreter : Interpreter := ⟨fun _ => [], fun _ => false, fun _ => none, 900, by decide⟩

/-- A node that has no server and no orders. -/
def idleNode : Node := ⟨false, [], fun _ => none⟩

def infiniteOrder : List UInt8 :=
  (ofString "\x7b\"subjob_id\": \"Patrol\", \"order_update_id\": Infinity\x7d").map UInt8.ofNat

/-- An order with an infinite update id gets no response. -/
theorem not_always_answeredOnce : ¬ ∀ (P : Interpreter) (node : Node) (endpoint : Endpoint)
    (body : List UInt8), AnsweredOnce P node endpoint body := by
  intro h
  obtain ⟨code, obj, hpost, -⟩ := h plainInterpreter idleNode .order infiniteOrder
  have hsilent : (doPost plainInterpreter idleNode "/order" infiniteOrder).sent.isEmpty = true := by
    decide +kernel
  rw [show doPost plainInterpreter idleNode "/order" infiniteOrder = _ from hpost] at hsilent
  cases hsilent

end RobotTaskManager.Rcs.Http
