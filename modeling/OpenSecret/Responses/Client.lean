import OpenSecret.Responses.Storage

/-!
The client side of a response: the loop that turns storage messages into server
events. An event is sealed under the session's key; where that fails the client
receives an error in its place and the loop goes on. Fields that are the same in
every event are left out.
-/
namespace OpenSecret.Responses
open Framing

inductive StreamOutputItemRecord where
  | message (id : Uuid) (text : Text)
  | reasoning (id : Uuid) (text : Text)
  | toolCall (id callId : Uuid) (name arguments : Text)
  | toolOutput (id callId : Uuid) (output : Text)
  deriving DecidableEq

inductive OutputType where
  | message
  | reasoning
  | toolCall
  | toolOutput
  deriving DecidableEq, Repr

structure OutputItem where
  id : Uuid
  outputType : OutputType
  status : ItemStatus
  role : Option Text := none
  content : Option (List Text) := none
  callId : Option Uuid := none
  name : Option Text := none
  arguments : Option Text := none
  output : Option Text := none
  deriving DecidableEq

structure ResponseUsage where
  inputTokens : Int32
  outputTokens : Int32
  totalTokens : Int32
  deriving DecidableEq

def buildUsage (promptTokens completionTokens : Int32) : ResponseUsage :=
  ⟨promptTokens,completionTokens,promptTokens + completionTokens⟩

inductive ResponseEvent where
  | created (sequenceNumber : Int32)
  | inProgress (sequenceNumber : Int32)
  | outputItemAdded (sequenceNumber outputIndex : Int32) (item : OutputItem)
  | contentPartAdded (sequenceNumber : Int32) (itemId : Uuid) (outputIndex : Int32)
  | outputTextDelta (sequenceNumber : Int32) (itemId : Uuid) (outputIndex : Int32) (delta : Text)
  | outputTextDone (sequenceNumber : Int32) (itemId : Uuid) (outputIndex : Int32) (text : Text)
  | reasoningTextDelta (sequenceNumber : Int32) (itemId : Uuid) (outputIndex : Int32) (delta : Text)
  | reasoningTextDone (sequenceNumber : Int32) (itemId : Uuid) (outputIndex : Int32) (text : Text)
  | contentPartDone (sequenceNumber : Int32) (itemId : Uuid) (outputIndex : Int32) (text : Text)
  | outputItemDone (sequenceNumber outputIndex : Int32) (item : OutputItem)
  | completed (sequenceNumber : Int32) (output : List OutputItem) (usage : ResponseUsage)
  | cancelled
  | error (message : Text)
  | toolCallCreated (sequenceNumber outputIndex : Int32) (toolCallId : Uuid)
      (name : Text) (arguments : Json)
  | toolOutputCreated (sequenceNumber outputIndex : Int32) (toolOutputId toolCallId : Uuid)
      (output : Text)

namespace ResponseEvent

/-- The events after which the client hears nothing more. -/
def isTerminal : ResponseEvent → Bool
  | .completed _ _ _ | .cancelled | .error _ => true
  | _ => false

/-- The events that `emit_without_sequence` sends. -/
def isUnnumbered : ResponseEvent → Bool
  | .cancelled | .error _ => true
  | _ => false

end ResponseEvent

/-- An event the loop yielded; the client can read it only if it was sealed. -/
structure Emission where
  event : ResponseEvent
  sealed : Bool

structure ClientResponseState where
  items : List StreamOutputItemRecord := []
  indices : List (Uuid × Nat) := []

namespace ClientResponseState

def push (s : ClientResponseState) (itemId : Uuid) (record : StreamOutputItemRecord) :
    Int32 × ClientResponseState :=
  (Int32.ofNat s.items.length,⟨s.items ++ [record],(itemId,s.items.length) :: s.indices⟩)

def pushMessage (s : ClientResponseState) (itemId : Uuid) := s.push itemId (.message itemId [])

def pushReasoning (s : ClientResponseState) (itemId : Uuid) := s.push itemId (.reasoning itemId [])

def pushToolCall (printJson : Json → Text) (s : ClientResponseState) (itemId : Uuid) (name : Text)
    (arguments : Json) :=
  s.push itemId (.toolCall itemId itemId name (printJson arguments))

def pushToolOutput (s : ClientResponseState) (itemId callId : Uuid) (output : Text) :=
  s.push itemId (.toolOutput itemId callId output)

def index (s : ClientResponseState) (itemId : Uuid) :
    Option Nat := (s.indices.find? (·.1 = itemId)).map (·.2)

def messageOutputIndex (s : ClientResponseState) (itemId : Uuid) :
    Option Int32 := (s.index itemId).map Int32.ofNat

def reasoningOutputIndex (s : ClientResponseState) (itemId : Uuid) :
    Option Int32 := (s.index itemId).map Int32.ofNat

def record (s : ClientResponseState) (itemId : Uuid) : Option (Nat × StreamOutputItemRecord) := do
  let index ← s.index itemId
  let record ← s.items[index]?
  return (index,record)

def appendMessageDelta (s : ClientResponseState) (itemId : Uuid) (delta : Text) :
    Option (Int32 × ClientResponseState) :=
  match s.record itemId with
  | some (index,.message id text) =>
    some (Int32.ofNat index,{ s with items := s.items.set index (.message id (text ++ delta)) })
  | _ => none

def appendReasoningDelta (s : ClientResponseState) (itemId : Uuid) (delta : Text) :
    Option (Int32 × ClientResponseState) :=
  match s.record itemId with
  | some (index,.reasoning id text) =>
    some (Int32.ofNat index,{ s with items := s.items.set index (.reasoning id (text ++ delta)) })
  | _ => none

def messageText (s : ClientResponseState) (itemId : Uuid) : Option Text :=
  match s.record itemId with
  | some (_,.message _ text) => some text
  | _ => none

def reasoningText (s : ClientResponseState) (itemId : Uuid) : Option Text :=
  match s.record itemId with
  | some (_,.reasoning _ text) => some text
  | _ => none

end ClientResponseState

namespace OutputItem

def newMessage (id : Uuid) : OutputItem :=
  { id, outputType := .message, status := .inProgress, role :=
    some roleAssistant, content := some [] }

def newReasoning (id : Uuid) (status : ItemStatus) : OutputItem :=
  { id, outputType := .reasoning, status, content := some [] }

def newToolCall (id callId : Uuid) (status : ItemStatus) (name arguments : Text) : OutputItem :=
  { id, outputType := .toolCall, status, callId := some callId, name :=
    some name, arguments := some arguments }

def newToolOutput (id callId : Uuid) (status : ItemStatus) (output : Text) : OutputItem :=
  { id, outputType := .toolOutput, status, callId := some callId, output := some output }

def completedMessage (id : Uuid) (text : Text) : OutputItem :=
  { newMessage id with status := .completed, content := some [text] }

end OutputItem

def ClientResponseState.buildOutputItems (s : ClientResponseState) : List OutputItem :=
  s.items.map fun
    | .message id text => .completedMessage id text
    | .reasoning id _ => .newReasoning id .completed
    | .toolCall id callId name arguments => .newToolCall id callId .completed name arguments
    | .toolOutput id callId output => .newToolOutput id callId .completed output

inductive ClientStatus where
  | running
  | ended
  | disconnected
  deriving DecidableEq, Repr

structure ClientStream where
  state : ClientResponseState
  sequenceNumber : Int32
  totalPromptTokensUsed : Int32
  totalCompletionTokens : Int32
  emitted : List Emission
  status : ClientStatus

/-- `seals n` tells whether the session's key was there for the `n`-th event. -/
structure ClientEnv where
  printJson : Json → Text
  totalPromptTokens : Int32
  seals : Nat → Bool

abbrev Streaming (α : Type) := StateM ClientStream α

section
variable (env : ClientEnv)

/-- Only an event that was sealed and carries a number moves the sequence on. -/
def emit (event : Int32 → ResponseEvent) : Streaming Unit := modify fun s =>
  let sealed := env.seals s.emitted.length
  { s with
    emitted := s.emitted ++ [⟨event s.sequenceNumber,sealed⟩]
    sequenceNumber := if sealed && !(event s.sequenceNumber).isUnnumbered
      then s.sequenceNumber + 1 else s.sequenceNumber }

def pushed (push : ClientResponseState → Int32 × ClientResponseState) : Streaming Int32 := fun s =>
  ((push s.state).1,{ s with state := (push s.state).2 })

/-- A delta for an unknown item changes nothing. -/
def appended (append : ClientResponseState → Option (Int32 × ClientResponseState)) :
    Streaming (Option Int32) := fun s =>
  match append s.state with
  | some (index,state) => (some index,{ s with state })
  | none => (none,s)

/-- One message of the channel; the result tells whether the loop breaks. -/
def onClientMessage : StorageMessage → Streaming Bool
  | .messageStarted itemId => do
    let outputIndex ← pushed (·.pushMessage itemId)
    emit env (.outputItemAdded · outputIndex (.newMessage itemId))
    emit env (.contentPartAdded · itemId outputIndex)
    return false
  | .contentDelta itemId delta => do
    match ← appended (·.appendMessageDelta itemId delta) with
    | none => return false
    | some outputIndex =>
      emit env (.outputTextDelta · itemId outputIndex delta)
      return false
  | .messageDone itemId _ => do
    let s ← get
    match s.state.messageOutputIndex itemId with
    | none => return false
    | some outputIndex =>
      let text := (s.state.messageText itemId).getD []
      emit env (.outputTextDone · itemId outputIndex text)
      emit env (.contentPartDone · itemId outputIndex text)
      emit env (.outputItemDone · outputIndex (.completedMessage itemId text))
      return false
  | .reasoningStarted itemId => do
    let outputIndex ← pushed (·.pushReasoning itemId)
    emit env (.outputItemAdded · outputIndex (.newReasoning itemId .inProgress))
    return false
  | .reasoningDelta itemId delta => do
    match ← appended (·.appendReasoningDelta itemId delta) with
    | none => return false
    | some outputIndex =>
      emit env (.reasoningTextDelta · itemId outputIndex delta)
      return false
  | .reasoningDone itemId => do
    let s ← get
    match s.state.reasoningOutputIndex itemId with
    | none => return false
    | some outputIndex =>
      emit env (.reasoningTextDone · itemId outputIndex ((s.state.reasoningText itemId).getD []))
      emit env (.outputItemDone · outputIndex (.newReasoning itemId .completed))
      return false
  | .responseDone _ => do
    let s ← get
    let promptTokens := if 0 < s.totalPromptTokensUsed then s.totalPromptTokensUsed
      else env.totalPromptTokens
    emit env
      (.completed · s.state.buildOutputItems (buildUsage promptTokens s.totalCompletionTokens))
    return true
  | .usage promptTokens completionTokens => do
    modify fun s => { s with
      totalPromptTokensUsed := s.totalPromptTokensUsed + promptTokens
      totalCompletionTokens := s.totalCompletionTokens + completionTokens }
    return false
  | .cancelled => do
    emit env fun _ => .cancelled
    return true
  | .error message => do
    emit env fun _ => .error message
    return true
  | .toolCall toolCallId name arguments => do
    let printed := env.printJson arguments
    let outputIndex ← pushed (·.pushToolCall env.printJson toolCallId name arguments)
    emit env
      (.outputItemAdded · outputIndex (.newToolCall toolCallId toolCallId .inProgress name printed))
    emit env (.toolCallCreated · outputIndex toolCallId name arguments)
    emit env
      (.outputItemDone · outputIndex (.newToolCall toolCallId toolCallId .completed name printed))
    return false
  | .toolOutput toolOutputId toolCallId output => do
    let outputIndex ← pushed (·.pushToolOutput toolOutputId toolCallId output)
    emit env
      (.outputItemAdded · outputIndex (.newToolOutput toolOutputId toolCallId .inProgress output))
    emit env (.toolOutputCreated · outputIndex toolOutputId toolCallId output)
    emit env
      (.outputItemDone · outputIndex (.newToolOutput toolOutputId toolCallId .completed output))
    return false

def ClientStream.receive (message : StorageMessage) (s : ClientStream) : ClientStream :=
  let next := onClientMessage env message s
  if next.1 then { next.2 with status := .ended } else next.2

def ClientStream.start : ClientStream :=
  (do emit env .created; emit env .inProgress : Streaming Unit) ⟨{},0,0,0,[],.running⟩ |>.2

end

def ClientStream.terminals (s : ClientStream) : Nat := s.emitted.countP (·.event.isTerminal)

section
variable {env : ClientEnv} {α β : Type} {s : ClientStream}

/-- The step yields no terminal event and keeps the loop's status. -/
def Unfinished (x : Streaming α) :
    Prop := ∀ s, (x s).2.terminals = s.terminals ∧ (x s).2.status = s.status

def GoesOn (x : Streaming Bool) : Prop := Unfinished x ∧ ∀ s, (x s).1 = false

theorem goesOn_return : GoesOn (pure false) := ⟨fun _ => ⟨rfl,rfl⟩,fun _ => rfl⟩

theorem goesOn_bind {x : Streaming α} {f : α → Streaming Bool} (first : Unfinished x)
    (rest : ∀ a, GoesOn (f a)) :
    GoesOn (x >>= f) := by
  refine ⟨fun s => ?_,fun s => (rest (x s).1).2 (x s).2⟩
  obtain ⟨count,status⟩ := (rest (x s).1).1 (x s).2
  exact ⟨count.trans (first s).1,status.trans (first s).2⟩

theorem terminals_emit (env : ClientEnv) (s : ClientStream) (event : Int32 → ResponseEvent) :
    (emit env event s).2.terminals = s.terminals + if (event s.sequenceNumber).isTerminal
      then 1 else 0 := by
  change (s.emitted ++ [_]).countP _ = _
  rw [List.countP_append, List.countP_singleton]
  rfl

theorem goesOn_emit {event : Int32 → ResponseEvent} {next : Streaming Bool}
    (plain : ∀ n, (event n).isTerminal = false) (rest : GoesOn next) :
    GoesOn (emit env event >>= fun _ => next) := by
  refine goesOn_bind (fun s => ⟨?_,rfl⟩) fun _ => rest
  rw [terminals_emit, plain]
  rfl

theorem unfinished_appended (append : ClientResponseState → Option (Int32 × ClientResponseState)) :
    Unfinished (appended append) := fun s => by
  unfold appended
  split <;> exact ⟨rfl,rfl⟩

variable {m : StorageMessage}

theorem onClientMessage_goesOn (plain : m.isTerminal = false) : GoesOn (onClientMessage env m) := by
  have pushes : ∀ push, Unfinished (pushed push) := fun _ _ => ⟨rfl,rfl⟩
  have reads : Unfinished (get : Streaming ClientStream) := fun _ => ⟨rfl,rfl⟩
  have one : ∀ {event : Int32 → ResponseEvent}, (∀ n, (event n).isTerminal = false) →
      GoesOn (emit env event >>= fun _ => pure false) :=
        fun plain => goesOn_emit plain goesOn_return
  cases m with
  | messageStarted i =>
    exact goesOn_bind (pushes _) fun _ => goesOn_emit (fun _ => rfl) (one fun _ => rfl)
  | contentDelta i delta | reasoningDelta i delta =>
    refine goesOn_bind (unfinished_appended _) fun outputIndex => ?_
    cases outputIndex with
    | none => exact goesOn_return
    | some n => exact one fun _ => rfl
  | messageDone i reason =>
    refine goesOn_bind reads fun s => ?_
    cases s.state.messageOutputIndex i with
    | none => exact goesOn_return
    | some n => exact goesOn_emit (fun _ => rfl) (goesOn_emit (fun _ => rfl) (one fun _ => rfl))
  | reasoningStarted i => exact goesOn_bind (pushes _) fun _ => one fun _ => rfl
  | reasoningDone i =>
    refine goesOn_bind reads fun s => ?_
    cases s.state.reasoningOutputIndex i with
    | none => exact goesOn_return
    | some n => exact goesOn_emit (fun _ => rfl) (one fun _ => rfl)
  | usage _ _ => exact goesOn_bind (fun _ => ⟨rfl,rfl⟩) fun _ => goesOn_return
  | toolCall i name arguments | toolOutput i callId output =>
    exact goesOn_bind (pushes _) fun _ =>
      goesOn_emit (fun _ => rfl) (goesOn_emit (fun _ => rfl) (one fun _ => rfl))
  | responseDone _ | error _ | cancelled => cases plain

theorem ClientStream.receive_goesOn (s : ClientStream) (env : ClientEnv)
    (plain : m.isTerminal = false) :
    (s.receive env m).terminals = s.terminals ∧ (s.receive env m).status = s.status := by
  have goesOn : GoesOn (onClientMessage env m) := onClientMessage_goesOn plain
  rw [ClientStream.receive, goesOn.2 s]
  exact goesOn.1 s

theorem ClientStream.receive_ends (s : ClientStream) (env : ClientEnv)
    (terminal : m.isTerminal = true) :
    (s.receive env m).terminals = s.terminals + 1 ∧ (s.receive env m).status = .ended := by
  cases m with
  | responseDone _ => exact ⟨terminals_emit env s (.completed · _ _),rfl⟩
  | error message => exact ⟨terminals_emit env s fun _ => .error message,rfl⟩
  | cancelled => exact ⟨terminals_emit env s fun _ => .cancelled,rfl⟩
  | _ => cases terminal

end

def plainClient : ClientEnv := ⟨fun _ => [],0,fun _ => true⟩

end OpenSecret.Responses
