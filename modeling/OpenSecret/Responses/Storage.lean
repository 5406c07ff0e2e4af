import OpenSecret.Responses.Messages

/-!
The storage task: it reads storage messages from its channel, keeps the text of
unfinished items in memory and writes the rows of the response. Each database
call has a fate, drawn from the environment: it answers, it fails, or it takes
effect and is reported as failed. Timestamps count microseconds. Columns the
task neither reads nor varies, and foreign keys to the conversation and the
response, are left out.
-/
namespace OpenSecret.Responses
open Framing

inductive ItemStatus where
  | inProgress
  | completed
  | incomplete
  deriving DecidableEq, Repr

inductive ResponseStatus where
  | queued
  | inProgress
  | completed
  | failed
  | cancelled
  deriving DecidableEq, Repr

structure Response where
  id : Int
  uuid : Uuid
  userId : Uuid
  status : ResponseStatus

structure AssistantMessage where
  uuid : Uuid
  conversationId : Int
  responseId : Option Int
  userId : Uuid
  contentEnc : Option Bytes
  completionTokens : Int32
  status : ItemStatus
  finishReason : Option Text
  createdAt : Int

structure ReasoningItem where
  uuid : Uuid
  conversationId : Int
  responseId : Option Int
  userId : Uuid
  contentEnc : Option Bytes
  reasoningTokens : Int32
  status : ItemStatus
  createdAt : Int

structure ToolCall where
  id : Nat
  uuid : Uuid
  conversationId : Int
  responseId : Option Int
  userId : Uuid
  name : Text
  argumentsEnc : Option Bytes
  argumentTokens : Int32
  status : ItemStatus
  createdAt : Int

structure ToolOutput where
  uuid : Uuid
  conversationId : Int
  responseId : Option Int
  userId : Uuid
  toolCallFk : Nat
  outputEnc : Bytes
  outputTokens : Int32
  status : ItemStatus
  createdAt : Int

structure Tables where
  responses : List Response
  assistantMessages : List AssistantMessage
  reasoningItems : List ReasoningItem
  toolCalls : List ToolCall
  toolOutputs : List ToolOutput
  /-- The sequence behind `tool_calls.id`. -/
  toolCallSerial : Nat

inductive ResponsesError where
  | conversationNotFound
  | conversationProjectNotFound
  | toolCallNotFound
  | databaseError
  deriving DecidableEq, Repr

abbrev Statement (α : Type) := Tables → Except ResponsesError (α × Tables)

namespace Tables

def updateStatusIfCurrent (id : Int) (current new : ResponseStatus) : Statement Bool := fun t =>
  let affected := fun r : Response => decide (r.id = id ∧ r.status = current)
  .ok (t.responses.any affected,
    { t with responses := t.responses.map fun r => if affected r
    then { r with status := new } else r })

def getAssistantMessageByUuid (uuid : Uuid) : Statement (Option AssistantMessage) := fun t =>
  .ok (t.assistantMessages.find? (·.uuid = uuid),t)

/-- Uuids are unique in each table. -/
def createAssistantMessage (new : AssistantMessage) : Statement Unit := fun t =>
  if t.assistantMessages.any (·.uuid = new.uuid) then .error .databaseError
  else .ok ((),{ t with assistantMessages := t.assistantMessages ++ [new] })

def updateAssistantMessage (uuid : Uuid) (contentEnc : Option Bytes) (completionTokens : Int32)
    (status : ItemStatus) (finishReason : Option Text) : Statement Unit := fun t =>
  if t.assistantMessages.any (·.uuid = uuid) then
    .ok ((),{ t with assistantMessages := t.assistantMessages.map fun m =>
      if m.uuid = uuid then { m with contentEnc, completionTokens, status, finishReason } else m })
  else .error .databaseError

def createReasoningItem (new : ReasoningItem) : Statement Unit := fun t =>
  if t.reasoningItems.any (·.uuid = new.uuid) then .error .databaseError
  else .ok ((),{ t with reasoningItems := t.reasoningItems ++ [new] })

def updateReasoningItem (uuid : Uuid) (contentEnc : Option Bytes) (reasoningTokens : Int32)
    (status : ItemStatus) : Statement Unit := fun t =>
  if t.reasoningItems.any (·.uuid = uuid) then
    .ok ((),{ t with reasoningItems := t.reasoningItems.map fun m =>
      if m.uuid = uuid then { m with contentEnc, reasoningTokens, status } else m })
  else .error .databaseError

def createToolCall (new : Nat → ToolCall) : Statement Unit := fun t =>
  let call := new t.toolCallSerial
  if t.toolCalls.any (·.uuid = call.uuid) then .error .databaseError
  else .ok ((),{ t with toolCalls := t.toolCalls ++ [call], toolCallSerial :=
    t.toolCallSerial + 1 })

def getToolCallByUuid (uuid userId : Uuid) : Statement ToolCall := fun t =>
  match t.toolCalls.find? fun c => c.uuid = uuid ∧ c.userId = userId with
  | some call => .ok (call,t)
  | none => .error .toolCallNotFound

def createToolOutput (new : ToolOutput) : Statement Unit := fun t =>
  if t.toolOutputs.any (·.uuid = new.uuid) then .error .databaseError
  else .ok ((),{ t with toolOutputs := t.toolOutputs ++ [new] })

end Tables

inductive CallFate where
  | answered
  | refused
  | unreported
  deriving DecidableEq, Repr

def CallFate.answer {τ α : Type} (fate : CallFate) (statement : τ → Except ResponsesError (α × τ))
    (t : τ) :
    Except ResponsesError α × τ :=
  match fate, statement t with
  | .refused, _ => (.error .databaseError,t)
  | _, .error e => (.error e,t)
  | .answered, .ok (a,t') => (.ok a,t')
  | .unreported, .ok (_,t') => (.error .databaseError,t')

section
variable {τ α : Type} {fate : CallFate} {statement : τ → Except ResponsesError (α × τ)} {t : τ}

theorem answer_ran (fate : CallFate) (statement : τ → Except ResponsesError (α × τ)) (t : τ) :
    (fate.answer statement t).2 = t ∨ ∃ a, statement t = .ok (a,(fate.answer statement t).2) := by
  unfold CallFate.answer
  cases statement t <;> cases fate <;> simp [Prod.ext_iff]

theorem answer_ok {a : α} (told : (fate.answer statement t).1 = .ok a) :
    statement t = .ok (a,(fate.answer statement t).2) := by
  unfold CallFate.answer at told ⊢
  cases result : statement t <;> cases fate <;> simp_all [Prod.ext_iff]

end

structure StorageEnv where
  runtime : Runtime
  nonces : Nat → Nonce
  fates : Nat → CallFate
  conversationId : Int
  responseId : Int
  userId : Uuid

structure PendingAssistantMessage where
  content : Text := []
  createdAt : Option Int := none

/-- An acknowledgement carries no id; `toolCallId` records which call it was sent for. -/
structure ToolAck where
  toolCallId : Uuid
  persisted : Bool
  deriving DecidableEq

/-- The variables of the task, the database, and what it has put on the
    acknowledgement channel. `calls` and `sealings` count the draws from the environment. -/
structure StorageTask where
  pendingMessages : List (Uuid × PendingAssistantMessage)
  pendingReasoning : List (Uuid × Text)
  nextItemCreatedAt : Int
  tables : Tables
  calls : Nat
  sealings : Nat
  acks : List ToolAck

/-- A failed encryption panics and takes the task with it. -/
abbrev Storing (α : Type) := StateT StorageTask Option α

/-- `entry(key).or_default()` followed by a change of the entry. -/
def upsert {α : Type} (key : Uuid) (default : α) (change : α → α) :
    List (Uuid × α) → List (Uuid × α)
  | [] => [(key,change default)]
  | (k,v) :: rest =>
    if k = key then (k,change v) :: rest else (k,v) :: upsert key default change rest

def find {α : Type} (key : Uuid) (entries : List (Uuid × α)) : Option α :=
  (entries.find? (·.1 = key)).map (·.2)

def without {α : Type} (key : Uuid) (entries : List (Uuid × α)) : List (Uuid × α) :=
  entries.filter (·.1 ≠ key)

namespace StorageTask

def changePending (s : StorageTask) (itemId : Uuid)
    (change : PendingAssistantMessage → PendingAssistantMessage) : StorageTask :=
  { s with pendingMessages := upsert itemId {} change s.pendingMessages }

def changeReasoning (s : StorageTask) (itemId : Uuid) (change : Text → Text) : StorageTask :=
  { s with pendingReasoning := upsert itemId [] change s.pendingReasoning }

end StorageTask

section
variable (env : StorageEnv)

def databaseCall {α : Type} (statement : Statement α) :
    Storing (Except ResponsesError α) := fun s =>
  let counted := { s with calls := s.calls + 1 }
  match env.fates s.calls, statement s.tables with
  | .refused, _ => some (.error .databaseError,counted)
  | _, .error e => some (.error e,counted)
  | .answered, .ok (a,tables) => some (.ok a,{ counted with tables })
  | .unreported, .ok (_,tables) => some (.error .databaseError,{ counted with tables })

def encrypted (bytes : Bytes) : Storing Bytes := fun s =>
  match encryptWithKey env.runtime.primitives env.runtime.userKey (env.nonces s.sealings) bytes with
  | .ok sealed => some (sealed,{ s with sealings := s.sealings + 1 })
  | .error _ => none

def clampTokenCount (text : Text) :
    Int32 := Int32.ofNat (min (env.runtime.countTokens text) (2 ^ 31 - 1))

def allocateCreatedAt : Storing Int := fun s =>
  some (s.nextItemCreatedAt,{ s with nextItemCreatedAt := s.nextItemCreatedAt + 1 })

def createAssistantMessageIfMissing (itemId : Uuid) (createdAt : Int) :
    Storing (Except ResponsesError Unit) := do
  match ← databaseCall env (Tables.getAssistantMessageByUuid itemId) with
  | .ok (some _) => return .ok ()
  | .ok none => databaseCall env (Tables.createAssistantMessage
      { uuid := itemId, conversationId := env.conversationId, responseId := some env.responseId,
        userId := env.userId, contentEnc := none, completionTokens := 0, status := .inProgress,
        finishReason := none, createdAt })
  | .error e => return .error e

def updateTerminalResponseStatus (status : ResponseStatus) : Storing Unit := do
  let _ ← databaseCall env (Tables.updateStatusIfCurrent env.responseId .inProgress status)

/-- Empty content is stored as null. -/
def contentEnc (content : Text) : Storing (Option Bytes) :=
  if content = [] then return none
  else do
    let sealed ← encrypted env (utf8 content)
    return some sealed

def finalizeAssistantMessage (itemId : Uuid) (content : Text) (status : ItemStatus)
    (finishReason : Option Text) : Storing (Except ResponsesError Unit) := do
  let sealed ← contentEnc env content
  databaseCall env (Tables.updateAssistantMessage itemId sealed
    (clampTokenCount env content) status finishReason)

def createReasoningItem (itemId : Uuid) (createdAt : Int) : Storing (Except ResponsesError Unit) :=
  databaseCall env (Tables.createReasoningItem
    { uuid := itemId, conversationId := env.conversationId, responseId := some env.responseId,
      userId := env.userId, contentEnc := none, reasoningTokens :=
      0, status := .inProgress, createdAt })

def finalizeReasoningItem (itemId : Uuid) (content : Text) (status : ItemStatus) :
    Storing (Except ResponsesError Unit) := do
  let sealed ← contentEnc env content
  databaseCall env (Tables.updateReasoningItem itemId sealed (clampTokenCount env content) status)

def persistToolCall (toolCallId : Uuid) (name : Text) (arguments : Json) (createdAt : Int) :
    Storing (Except ResponsesError Unit) := do
  let printed := env.runtime.printJson arguments
  let argumentsEnc ← encrypted env (utf8 printed)
  databaseCall env (Tables.createToolCall fun id =>
    { id, uuid := toolCallId, conversationId := env.conversationId, responseId :=
      some env.responseId,
      userId := env.userId, name, argumentsEnc := some argumentsEnc,
      argumentTokens := clampTokenCount env printed, status := .completed, createdAt })

def persistToolOutput (toolOutputId toolCallId : Uuid) (output : Text) (createdAt : Int) :
    Storing (Except ResponsesError Unit) := do
  match ← databaseCall env (Tables.getToolCallByUuid toolCallId env.userId) with
  | .error e => return .error e
  | .ok call =>
    let outputEnc ← encrypted env (utf8 output)
    databaseCall env (Tables.createToolOutput
      { uuid := toolOutputId, conversationId := env.conversationId, responseId :=
        some env.responseId,
        userId := env.userId, toolCallFk := call.id, outputEnc, outputTokens :=
        clampTokenCount env output,
        status := .completed, createdAt })

/-- Drains the pending items, failures ignored. -/
def markPendingItemsIncomplete (messageFinishReason : Option Text) : Storing Unit := do
  let s ← get
  set { s with pendingMessages := [], pendingReasoning := [] }
  s.pendingMessages.forM fun (itemId,pending) =>
    discard (finalizeAssistantMessage env itemId pending.content .incomplete messageFinishReason)
  s.pendingReasoning.forM fun (itemId,content) =>
    discard (finalizeReasoningItem env itemId content .incomplete)

def acknowledge (toolCallId : Uuid) (persisted : Bool) : Storing Unit :=
  modify fun s => { s with acks := s.acks ++ [⟨toolCallId,persisted⟩] }

def finishReasonCancelled : Text := "cancelled"

/-- The entry of a started message keeps the timestamp it was first given. -/
def startedAt (itemId : Uuid) : Storing Int := do
  let s ← get
  match (find itemId s.pendingMessages).bind (·.createdAt) with
  | some createdAt => return createdAt
  | none =>
    let createdAt ← allocateCreatedAt
    modify (·.changePending itemId fun pending => { pending with createdAt := some createdAt })
    return createdAt

/-- The timestamp and content of a message that is done, which is no longer pending. -/
def takePending (itemId : Uuid) : Storing (Int × Text) := do
  let s ← get
  let pending := (find itemId s.pendingMessages).getD {}
  set { s with pendingMessages := without itemId s.pendingMessages }
  match pending.createdAt with
  | some createdAt => return (createdAt,pending.content)
  | none => return (← allocateCreatedAt,pending.content)

/-- One message of the channel; the result tells whether the task returns. -/
def onStorageMessage : StorageMessage → Storing Bool
  | .messageStarted itemId => do
    let createdAt ← startedAt itemId
    discard (createAssistantMessageIfMissing env itemId createdAt)
    return false
  | .contentDelta itemId delta => do
    modify (·.changePending itemId fun pending =>
      { pending with content := pending.content ++ delta })
    return false
  | .messageDone itemId finishReason => do
    let (createdAt,content) ← takePending itemId
    discard (createAssistantMessageIfMissing env itemId createdAt)
    discard (finalizeAssistantMessage env itemId content .completed (some finishReason))
    return false
  | .reasoningStarted itemId => do
    modify (·.changeReasoning itemId id)
    let createdAt ← allocateCreatedAt
    discard (createReasoningItem env itemId createdAt)
    return false
  | .reasoningDelta itemId delta => do
    modify (·.changeReasoning itemId (· ++ delta))
    return false
  | .reasoningDone itemId => do
    let s ← get
    set { s with pendingReasoning := without itemId s.pendingReasoning }
    discard (finalizeReasoningItem env itemId ((find itemId s.pendingReasoning).getD []) .completed)
    return false
  | .usage _ _ => return false
  | .responseDone _ => do
    -- nothing is pending here unless the sender broke its protocol
    markPendingItemsIncomplete env none
    updateTerminalResponseStatus env .completed
    return true
  | .cancelled => do
    updateTerminalResponseStatus env .cancelled
    markPendingItemsIncomplete env (some finishReasonCancelled)
    return true
  | .error _ => do
    updateTerminalResponseStatus env .failed
    markPendingItemsIncomplete env none
    return true
  | .toolCall toolCallId name arguments => do
    let createdAt ← allocateCreatedAt
    match ← persistToolCall env toolCallId name arguments createdAt with
    | .ok () => return false
    | .error _ =>
      acknowledge toolCallId false
      return false
  | .toolOutput toolOutputId toolCallId output => do
    let createdAt ← allocateCreatedAt
    let persisted ← persistToolOutput env toolOutputId toolCallId output createdAt
    acknowledge toolCallId persisted.isOk
    return false

def onChannelClosed : Storing Unit := do
  updateTerminalResponseStatus env .failed
  markPendingItemsIncomplete env none

/-- The messages that arrive before the channel is closed. -/
def storageTask : List StorageMessage → Storing Unit
  | [] => onChannelClosed env
  | message :: rest => do
    if ← onStorageMessage env message then return ()
    else storageTask rest

end

def StorageTask.start (tables : Tables) (firstItemCreatedAt : Int) : StorageTask :=
  ⟨[],[],firstItemCreatedAt,tables,0,0,[]⟩

end OpenSecret.Responses
