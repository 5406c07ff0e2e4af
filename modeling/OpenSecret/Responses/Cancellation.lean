import OpenSecret.Credentials.Tokens
import OpenSecret.Foundation.Exclusion
import OpenSecret.Responses.Storage
import Mathlib.Data.List.Nodup
import Mathlib.Logic.Function.Basic

/-!
Who ends a response. The storage task and any number of cancel requests write
its status; each write is one conditional update, but a cancel request looks
first and broadcasts afterwards. Streams and their cancellation listeners stand
beside the tables, and next to them a history of the broadcasts that no code reads.
-/
namespace OpenSecret.Responses
open Framing Interleaving

def ResponseStatus.active : ResponseStatus → Bool
  | .queued => true
  | .inProgress => true
  | .completed => false
  | .failed => false
  | .cancelled => false

namespace Tables

def getResponseByUuidAndUser (uuid userId : Uuid) : Statement (Option Response) := fun t =>
  .ok (t.responses.find? fun r => r.uuid = uuid ∧ r.userId = userId,t)

def cancelByUuidAndUser (uuid userId : Uuid) : Statement (Option Response) := fun t =>
  let cancelable := fun r : Response => decide (r.uuid = uuid ∧ r.userId = userId ∧ r.status.active)
  .ok ((t.responses.find? cancelable).map fun r => { r with status := .cancelled },
    { t with responses := t.responses.map fun r =>
        if cancelable r then { r with status := .cancelled } else r })

end Tables

/-- Where the stream of a response is: `response.created` and `response.in_progress`
    are sent, the orchestrator is spawned, and once it runs it subscribes and starts
    the loop. Unread broadcasts are pending. -/
inductive Phase where
  | opened
  | created
  | inProgress
  | spawned
  | listening (pending : List Uuid)
  | stopped
  | finished
  | abandoned
  deriving DecidableEq

/-- A listener stops the loop for its own id and skips the others; the client may go
    away before the orchestrator is spawned. -/
inductive Phase.Moves (id : Uuid) : Phase → Phase → Prop where
  | create : Moves id .opened .created
  | progress : Moves id .created .inProgress
  | spawn : Moves id .inProgress .spawned
  | subscribe : Moves id .spawned (.listening [])
  | stop {pending : List Uuid} : Moves id (.listening (id :: pending)) .stopped
  | skip {other : Uuid} {pending : List Uuid} (unrelated : other ≠ id) :
      Moves id (.listening (other :: pending)) (.listening pending)
  | finish {pending : List Uuid} : Moves id (.listening pending) .finished
  | abandon {phase : Phase} (early : phase = .opened ∨ phase = .created ∨ phase = .inProgress) :
      Moves id phase .abandoned

/-- `send` reaches the receivers that exist. -/
def Phase.receive (id : Uuid) : Phase → Phase
  | .listening pending => .listening (pending ++ [id])
  | phase => phase

structure Broadcast where
  id : Uuid
  phase : Option Phase
  deriving DecidableEq

/-- `serial` is the sequence behind `responses.id`. -/
structure ResponseWorld where
  tables : Tables
  serial : Int
  streams : Uuid → Option Phase
  broadcasts : List Broadcast

abbrev ResponseAction (ε α : Type) := ExceptT ε (Prog ResponseWorld) α

def callDatabase {α : Type} (fate : CallFate) (statement : Statement α) :
    ResponseAction ResponsesError α :=
  ExceptT.mk (transact fun w =>
    ((fate.answer statement w.tables).1,{ w with tables := (fate.answer statement w.tables).2 }))

def ResponseWorld.send (id : Uuid) (w : ResponseWorld) : ResponseWorld :=
  { w with
    streams := fun other => (w.streams other).map (Phase.receive id)
    broadcasts := w.broadcasts ++ [⟨id,w.streams id⟩] }

def broadcast {ε : Type} (id : Uuid) :
    ResponseAction ε Unit := ExceptT.lift (transact fun w => ((),w.send id))

/-- Database errors other than a missing row. -/
def queryResponse {α : Type} (fate : CallFate) (statement : Statement α) :
    ResponseAction ApiError α :=
  mapError (fun _ => .internalServerError) (callDatabase fate statement)

def cancelResponse (id user : Uuid) (fates : Nat → CallFate) :
    ResponseAction ApiError Response := do
  let some response ← queryResponse (fates 0) (Tables.getResponseByUuidAndUser id user)
    | throw .notFound
  if response.status.active then do
    match ← queryResponse (fates 1) (Tables.cancelByUuidAndUser id user) with
    | some cancelled => do
      broadcast id
      pure cancelled
    | none => do
      let some _ ← queryResponse (fates 2) (Tables.getResponseByUuidAndUser id user)
        | throw .notFound
      throw .badRequest
  else
    throw .badRequest

/-- What makes the storage task return. -/
inductive Ending where
  | responseDone
  | cancelled
  | error
  | channelClosed
  deriving DecidableEq

def Ending.status : Ending → ResponseStatus
  | .responseDone => .completed
  | .cancelled => .cancelled
  | .error => .failed
  | .channelClosed => .failed

inductive StatusRequest where
  | terminal (responseId : Int) (ending : Ending) (fate : CallFate)
  | cancel (id user : Uuid) (fates : Nat → CallFate)

inductive StatusReply where
  | updated (result : Except ResponsesError Bool)
  | cancelled (result : Except ApiError Response)

/-- What happens beside the writers: responses are created and deleted, and streams
    are opened and move on. -/
inductive Elsewhere : ResponseWorld → ResponseWorld → Prop where
  | rows {w : ResponseWorld} {tables : Tables} {serial : Int} (later : w.serial ≤ serial)
      (unique : (tables.responses.map Response.id).Nodup)
      (known : ∀ r ∈ tables.responses, r ∈ w.tables.responses ∨ w.serial ≤ r.id ∧ r.id < serial) :
      Elsewhere w { w with tables, serial }
  | opens {w : ResponseWorld} {id : Uuid} (new : w.streams id = none) :
      Elsewhere w { w with streams := Function.update w.streams id (some .opened) }
  | moves {w : ResponseWorld} {id : Uuid} {phase next : Phase} (here : w.streams id = some phase)
      (moved : Phase.Moves id phase next) :
      Elsewhere w { w with streams := Function.update w.streams id (some next) }

def statusWriters : System ResponseWorld StatusRequest StatusReply where
  handle
    | .terminal responseId ending fate =>
      (callDatabase fate
        (Tables.updateStatusIfCurrent responseId .inProgress ending.status)).run >>=
        fun result => pure (.updated result)
    | .cancel id user fates =>
      (cancelResponse id user fates).run >>= fun result => pure (.cancelled result)
  admits _ _ := True
  interferes := Elsewhere

theorem within_cancelResponse {R : ResponseWorld → ResponseWorld → Prop} {id user : Uuid}
    {fates : Nat → CallFate}
    (asks : ∀ fate, Within R (queryResponse fate (Tables.getResponseByUuidAndUser id user)))
    (cancels : Within R (queryResponse (fates 1) (Tables.cancelByUuidAndUser id user)))
    (sends : Within R (broadcast id : ResponseAction ApiError Unit)) :
    Within R (cancelResponse id user fates) := by
  simp [cancelResponse, Option.forall, asks, cancels, sends]

end OpenSecret.Responses
