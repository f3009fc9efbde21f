/-
# Platform.Endpoint -- one end of the call and reply protocol

An endpoint makes calls and serves them.  A call it makes has a record in `pending`,
and with the options it was given a timer and an abort listener; it settles by a reply,
by its timer, by its signal, by the failure of its own send, or by `dispose`.  A call it
serves has a run of the handler, with a controller in `owned` until the run is over.

`channel.send` may throw where it is called.  What a throw skips is skipped here too:
each operation takes the outcome of its sends, and the messages it returns are those
that went out.
-/
import Mathlib

namespace Kiagent.Platform

set_option autoImplicit false

universe u

variable {V : Type u}

/-! ## Messages -/

/-- The value of a property: a string, or anything else that crosses the wire. -/
inductive Field (V : Type u) where
  | text (s : String)
  | value (v : V)
  deriving DecidableEq

abbrev Props (V : Type u) := List (String × Field V)

def propOf (props : Props V) (key : String) : Option (Field V) :=
  (props.find? fun p => p.1 = key).map Prod.snd

/-- Assignment to a property. -/
def setProp (props : Props V) (key : String) (x : Field V) : Props V :=
  props.filter (fun p => p.1 ≠ key) ++ [(key, x)]

structure ReplyMsg (V : Type u) where
  id : Nat
  ok : Bool
  value : Option V := none
  error : Option String := none
  code : Option String := none
  errorName : Option String := none
  errorFields : Option (Props V) := none
  deriving DecidableEq

structure Request (V : Type u) where
  ns : String
  method : String
  args : List V
  transactionId : Option String := none
  transactionBoundary : Option Bool := none
  deriving DecidableEq

inductive Msg (V : Type u) where
  | call (id : Nat) (request : Request V) (deadline : Option Int)
  | cancel (id : Nat)
  | reply (r : ReplyMsg V)
  deriving DecidableEq

/-! ## Errors on the wire -/

def ERROR_FIELD_ALLOWLIST : List String := ["expected", "actual", "modelId", "source", "code"]

/-- The codes of `WireErrorCode`. -/
def wireErrorCodes : List String :=
  ["auth", "permanent", "HOST_CALL_IN_TRANSACTION", "RPC_ABORTED", "RPC_DEADLINE_EXCEEDED",
    "DB_WORKER_CRASHED", "DB_WORKER_RESTARTING", "DB_WORKER_DEAD", "DB_OPERATION_CANCELLED",
    "DB_COORDINATOR_CLOSED", "DB_OWNER_RELEASED", "DB_OWNER_POISONED", "DB_TX_TOKEN_INVALID",
    "DB_TX_EXPIRED", "PLUGIN_DB_IMPORT_INCOMPLETE", "PLUGIN_DB_IMPORT_DIGEST_MISMATCH",
    "PLUGIN_DB_IMPORT_SCHEMA_MISMATCH", "PLUGIN_DB_IMPORT_SNAPSHOT_INVALID",
    "PLUGIN_DB_IMPORT_SOURCE_CHANGED", "PLUGIN_DB_IMPORT_SOURCE_UNAVAILABLE",
    "PLUGIN_DB_IMPORT_FOREIGN_KEY", "PLUGIN_DB_IMPORT_DESCRIPTOR_CHANGED",
    "PLUGIN_DB_IMPORT_STATE_INVALID", "PLUGIN_DB_TARGET_NONEMPTY", "PLUGIN_DB_DESCRIPTOR_DRIFT",
    "PLUGIN_DB_DESCRIPTOR_FOREIGN_KEY", "PLUGIN_DB_SCHEMA_OBJECT_KIND",
    "PLUGIN_DB_SCHEMA_OBJECT_MISSING", "PLUGIN_DB_SCHEMA_REFERENCE", "PLUGIN_DB_LEGACY_FK_ORDER",
    "PLUGIN_DB_LEGACY_FK_CYCLE", "PLUGIN_DB_LEGACY_PATH_DRIFT", "PLUGIN_DB_LEGACY_PATH_INVALID",
    "PLUGIN_DB_LEGACY_SOURCE_UNAVAILABLE", "PLUGIN_DB_REGISTRY_PATH_INVALID",
    "PLUGIN_DB_NOT_REGISTERED", "PLUGIN_DB_NOT_OPEN", "PLUGIN_DB_OWNER_INVALID",
    "PLUGIN_DB_RESET_TOMBSTONE", "PLUGIN_SQL_DDL_FORBIDDEN", "PLUGIN_SQL_SCHEMA_IN_TRANSACTION",
    "PLUGIN_SQL_TRANSACTION_CONTROL", "PLUGIN_SQL_UNAUTHORIZED", "PLUGIN_SQLITE_UNSUPPORTED",
    "PLUGIN_MIGRATION_NOT_REGISTERED", "PLUGIN_MIGRATION_LEDGER_MISMATCH",
    "PLUGIN_REGISTRATION_HOST_ONLY", "FILE_ROOT_REVOKED", "FILE_HANDLE_INVALID",
    "FILE_OPERATION_CANCELLED", "NETWORK_ABORTED", "NETWORK_TIMEOUT"]

/-- What a handler rejected with; an object with a message is an error. -/
structure Thrown (V : Type u) where
  /-- `String(e)` -/
  text : String
  message : Option String
  name : Option String
  own : Props V

def isErrorLike (e : Thrown V) : Bool := e.message.isSome

def wireErrorCode (e : Thrown V) : Option String :=
  match propOf e.own "code" with
  | some (.text code) => if code ∈ wireErrorCodes then some code else none
  | _ => none

/-- The fields of `props` that may cross, in the order of the list. -/
def allowed (props : Props V) : Props V :=
  ERROR_FIELD_ALLOWLIST.filterMap fun key => (propOf props key).map fun x => (key, x)

def errorWireFields (e : Thrown V) : Option (Props V) :=
  if isErrorLike e then
    if allowed e.own = [] then none else some (allowed e.own)
  else none

/-- An `Error` as its receiver sees it. -/
structure RpcError (V : Type u) where
  message : String
  name : String := "Error"
  props : Props V := []
  deriving DecidableEq

def applyErrorWireFields (props : Props V) (fields : Option (Props V)) : Props V :=
  match fields with
  | none => props
  | some fields => (allowed fields).foldl (fun props p => setProp props p.1 p.2) props

def abortError : RpcError V :=
  { message := "operation aborted", name := "AbortError", props := [("code", .text "RPC_ABORTED")] }

def timeoutError : RpcError V :=
  { message := "RPC call timed out", name := "TimeoutError"
    props := [("code", .text "RPC_DEADLINE_EXCEEDED")] }

def endpointDisposed : RpcError V := { message := "endpoint disposed" }

/-- The error a failure reply rejects its call with. -/
def replyError (r : ReplyMsg V) : RpcError V :=
  let props := applyErrorWireFields [] r.errorFields
  { message := r.error.getD "remote error"
    name := r.errorName.getD "Error"
    props := match r.code with
      | some code => if code = "" then props else setProp props "code" (.text code)
      | none => props }

/-- What a call was settled by. -/
inductive Cause (V : Type u) where
  | reply (r : ReplyMsg V)
  | aborted
  | timedOut
  | sendFailed (error : RpcError V)
  | disposed (error : RpcError V)
  deriving DecidableEq

/-- What the caller's promise resolves to, or is rejected with. -/
def Cause.outcome : Cause V → Except (RpcError V) (Option V)
  | .reply r => if r.ok then .ok r.value else .error (replyError r)
  | .aborted => .error abortError
  | .timedOut => .error timeoutError
  | .sendFailed error => .error error
  | .disposed error => .error error

/-! ## The state of an endpoint -/

/-- A handler runs until what follows its promise has run: the reply, and then the
cleanup of its controller. -/
inductive Phase where
  | running
  | replied
  | ended
  deriving DecidableEq

structure Run (V : Type u) where
  id : Nat
  request : Request V
  deadline : Option Int
  /-- The delay of the deadline's timer, while it is armed. -/
  timer : Option Int
  aborted : Bool
  phase : Phase

structure CallOptions where
  /-- A signal, and whether it is aborted already. -/
  signal : Option Bool := none
  timeoutMs : Option Int := none
  transactionId : Option String := none
  transactionBoundary : Option Bool := none

structure Endpoint (V : Type u) where
  nextId : Nat := 1
  disposed : Bool := false
  /-- The calls with a record, in the order of the map. -/
  pending : List Nat := []
  /-- The calls whose timer is armed. -/
  timers : List Nat := []
  /-- The calls with a listener on their signal. -/
  listeners : List Nat := []
  /-- Every resolve and reject of a call's promise. -/
  settled : List (Nat × Cause V) := []
  /-- The calls that were refused before they had an id. -/
  refused : List (Cause V) := []
  /-- A call handler is installed. -/
  handler : Bool := false
  /-- The controllers, by the id of the call; a controller is named by its run. -/
  owned : Nat → Option Nat := fun _ => none
  runs : Nat → Option (Run V) := fun _ => none
  started : Nat := 0

namespace Endpoint

/-! ## Calling -/

/-- `cleanup` of a call's record, after its delete. -/
def drop (e : Endpoint V) (id : Nat) : Endpoint V :=
  { e with
    pending := e.pending.filter (· ≠ id)
    timers := e.timers.filter (· ≠ id)
    listeners := e.listeners.filter (· ≠ id) }

def settle (e : Endpoint V) (id : Nat) (cause : Cause V) : Endpoint V :=
  { e with settled := e.settled ++ [(id, cause)] }

/-- `abort` of a call; the cancel goes out before the reject. -/
def abort (e : Endpoint V) (id : Nat) (cause : Cause V) (sent : Bool) :
    Endpoint V × List (Msg V) :=
  if id ∈ e.pending then
    if sent then ((e.drop id).settle id cause, [.cancel id]) else (e.drop id, [])
  else (e, [])

/-- `call`; `failure` is what its send throws. -/
def call (e : Endpoint V) (ns method : String) (args : List V) (options : CallOptions) (now : Int)
    (failure : Option (RpcError V)) : Endpoint V × List (Msg V) :=
  if e.disposed then ({ e with refused := e.refused ++ [.disposed endpointDisposed] }, [])
  else if options.signal = some true then
    ({ e with refused := e.refused ++ [.aborted] }, [])
  else
    let id := e.nextId
    let deadline := options.timeoutMs.map fun ms => now + max 0 ms
    let issued := { e with
      nextId := e.nextId + 1
      pending := e.pending ++ [id]
      listeners := if options.signal.isSome then e.listeners ++ [id] else e.listeners
      timers := if deadline.isSome then e.timers ++ [id] else e.timers }
    match failure with
    | some error => (issued.settle id (.sendFailed error), [])
    | none => (issued, [.call id
        { ns, method, args
          transactionId := options.transactionId
          transactionBoundary := options.transactionBoundary } deadline])

/-- The timer of a call fires. -/
def timeout (e : Endpoint V) (id : Nat) (sent : Bool) : Endpoint V × List (Msg V) :=
  { e with timers := e.timers.filter (· ≠ id) }.abort id .timedOut sent

/-- The signal of a call is aborted; its listener is called once. -/
def onAbort (e : Endpoint V) (id : Nat) (sent : Bool) : Endpoint V × List (Msg V) :=
  { e with listeners := e.listeners.filter (· ≠ id) }.abort id .aborted sent

def onReply (e : Endpoint V) (r : ReplyMsg V) : Endpoint V :=
  if r.id ∈ e.pending then (e.drop r.id).settle r.id (.reply r) else e

/-! ## Serving -/

def onCall (e : Endpoint V) : Endpoint V := { e with handler := true }

def modifyRun (e : Endpoint V) (t : Nat) (f : Run V → Run V) : Endpoint V :=
  { e with runs := Function.update e.runs t ((e.runs t).map f) }

/-- A call arrives.  Without a handler it is answered at once, if that send goes out. -/
def serve (e : Endpoint V) (id : Nat) (request : Request V) (deadline : Option Int) (now : Int)
    (sent : Bool) : Endpoint V × List (Msg V) :=
  if e.handler then
    ({ e with
      owned := Function.update e.owned id (some e.started)
      runs := Function.update e.runs e.started (some
        { id, request, deadline
          timer := deadline.map fun d => max 0 (d - now)
          aborted := false
          phase := .running })
      started := e.started + 1 }, [])
  else
    ({ e with owned := Function.update e.owned id none },
      if sent then [.reply { id, ok := false, error := some "no call handler installed" }] else [])

def abortRun (r : Run V) : Run V := { r with aborted := true }

/-- A cancel arrives. -/
def onCancel (e : Endpoint V) (id : Nat) : Endpoint V :=
  match e.owned id with
  | none => e
  | some t => e.modifyRun t abortRun

/-- The timer of a run's deadline fires. -/
def onDeadline (e : Endpoint V) (t : Nat) : Endpoint V :=
  e.modifyRun t fun r => { abortRun r with timer := none }

/-- The reply to a rejection. -/
def rejection (r : Run V) (e : Thrown V) : ReplyMsg V :=
  { id := r.id
    ok := false
    error := some (e.message.getD e.text)
    code := if r.aborted && isErrorLike e && e.name = some "AbortError" then some "RPC_ABORTED"
      else wireErrorCode e
    errorName := if isErrorLike e then e.name else none
    errorFields := errorWireFields e }

/-- The replies a finished handler tries to send; a result that does not go out is
followed by a failure that carries only strings. -/
def replies (r : Run V) (result : Except (Thrown V) V) (first second : Option String) :
    List (Msg V) :=
  match result, first with
  | .ok value, none => [.reply { id := r.id, ok := true, value := some value }]
  | .ok _, some error =>
      if second.isSome then []
      else [.reply { id := r.id, ok := false
                     error := some ("result could not be sent over the wire: " ++ error) }]
  | .error e, none => [.reply (rejection r e)]
  | .error _, some _ => []

/-- The handler's promise settles; `first` and `second` are what its sends throw. -/
def finish (e : Endpoint V) (t : Nat) (r : Run V) (result : Except (Thrown V) V)
    (first second : Option String) : Endpoint V × List (Msg V) :=
  (e.modifyRun t fun r => { r with phase := .replied }, replies r result first second)

/-- The `finally` of a run. -/
def retire (e : Endpoint V) (t : Nat) (r : Run V) : Endpoint V :=
  { e.modifyRun t fun r => { r with phase := .ended, timer := none } with
    owned := Function.update e.owned r.id none }

/-! ## Disposal -/

/-- The number of cancels that go out when the next one throws. -/
def cutShort (e : Endpoint V) (stop : Option Nat) : Option Nat :=
  stop.filter (· < e.pending.length)

def dispose (e : Endpoint V) (reason : RpcError V) (stop : Option Nat) :
    Endpoint V × List (Msg V) :=
  if e.disposed then (e, [])
  else
    let rejected := { e with
      disposed := true
      timers := e.timers.filter (· ∉ e.pending)
      listeners := e.listeners.filter (· ∉ e.pending)
      settled := e.settled ++ e.pending.map fun id => (id, .disposed reason) }
    match e.cutShort stop with
    | some sent => (rejected, (e.pending.take sent).map .cancel)
    | none =>
        ({ rejected with
          runs := fun t => (e.runs t).map fun r =>
            if e.owned r.id = some t then abortRun r else r
          pending := []
          owned := fun _ => none }, e.pending.map .cancel)

/-! ## Events -/

inductive Event (V : Type u) where
  | onCall
  | call (ns method : String) (args : List V) (options : CallOptions) (now : Int)
      (failure : Option (RpcError V))
  | timeout (id : Nat) (sent : Bool)
  | abort (id : Nat) (sent : Bool)
  | receive (msg : Msg V) (now : Int) (sent : Bool)
  | finish (t : Nat) (result : Except (Thrown V) V) (first second : Option String)
  | retire (t : Nat)
  | deadline (t : Nat)
  | dispose (reason : RpcError V) (stop : Option Nat)

/-- What happens to an endpoint, and what it sends.  A disposed endpoint has left the
channel, so nothing reaches it. -/
def step (e : Endpoint V) : Event V → Option (Endpoint V × List (Msg V))
  | .onCall => some (e.onCall, [])
  | .call ns method args options now failure => some (e.call ns method args options now failure)
  | .timeout id sent => if id ∈ e.timers then some (e.timeout id sent) else none
  | .abort id sent => if id ∈ e.listeners then some (e.onAbort id sent) else none
  | .receive msg now sent =>
      if e.disposed then some (e, [])
      else match msg with
        | .call id request deadline => some (e.serve id request deadline now sent)
        | .cancel id => some (e.onCancel id, [])
        | .reply r => some (e.onReply r, [])
  | .finish t result first second =>
      match e.runs t with
      | some r => if r.phase = .running then some (e.finish t r result first second) else none
      | none => none
  | .retire t =>
      match e.runs t with
      | some r => if r.phase = .replied then some (e.retire t r, []) else none
      | none => none
  | .deadline t =>
      match e.runs t with
      | some r => if r.timer.isSome then some (e.onDeadline t, []) else none
      | none => none
  | .dispose reason stop => some (e.dispose reason stop)

/-- The send of a call or of a cancel throws. -/
def throws (e : Endpoint V) : Event V → Bool
  | .call _ _ _ options _ failure =>
      !e.disposed && decide (options.signal ≠ some true) && failure.isSome
  | .timeout id sent => decide (id ∈ e.pending) && !sent
  | .abort id sent => decide (id ∈ e.pending) && !sent
  | .dispose _ stop => !e.disposed && (e.cutShort stop).isSome
  | _ => false

end Endpoint

end Kiagent.Platform
