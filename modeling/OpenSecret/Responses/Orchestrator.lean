import OpenSecret.Responses.Messages
import OpenSecret.Foundation.Effects

/-!
The assistant and tool loop of `handlers.rs` as a task: it draws ids, asks the
model provider for completions, runs tools, and hands every storage message to
the storage task first and to the client stream second. A completion is asked
for as the whole sequence of its chunks; the sequence ends where the provider's
channel closes. Building the request and the prompt is left to the environment.
-/
namespace OpenSecret.Responses
open Framing Effects

def maxWebSearchToolTurns : Nat := 30

/-- `awaitToolAck` names the call it waits for, which the source does not.
    `outOfTurns` has no reply: it stands where the loop of the source would go on. -/
inductive Effect where
  | newUuid
  | getChatCompletion (prompt : List Json) (toolsEnabled : Bool)
  | sendStorage (message : StorageMessage)
  | trySendClient (message : StorageMessage)
  | sendClient (message : StorageMessage)
  | executeTool (call : ModelToolCall) (provider : WebSearchProvider)
  | awaitToolAck (toolCallId : Uuid)
  | rebuildPrompt
  | awaitCancellation
  | outOfTurns

@[reducible] def Reply : Effect → Type
  | .newUuid => Uuid
  | .getChatCompletion _ _ => Except ApiError (List CompletionChunk)
  | .sendStorage _ | .trySendClient _ | .sendClient _ => Bool
  | .executeTool _ _ => Text
  | .awaitToolAck _ => AckWait
  | .rebuildPrompt => Except ApiError (List Json)
  | .awaitCancellation => Unit
  | .outOfTurns => Empty

abbrev Orchestrated (α : Type) := ExceptT (Fault ApiError) (Task Effect Reply) α

def internalError {α : Type} : Orchestrated α := throw (.error .internalServerError)

def orThrow {α : Type} : Except ApiError α → Orchestrated α
  | .ok a => pure a
  | .error e => throw (.error e)

def sendStorageMessage (message : StorageMessage) : Orchestrated Unit := do
  if ← perform (.sendStorage message) then
    let _ ← perform (.trySendClient message)
  else
    internalError

inductive ReasoningState where
  | notStarted
  | active (itemId : Uuid)
  | done
  deriving DecidableEq

inductive AssistantTurnOutcome where
  | toolCall (call : ModelToolCall)
  | final

structure Turn where
  streamedToolCalls : List StreamedToolCall := []
  finishReason : Option Text := none
  currentMessageId : Option Uuid := none
  nextMessageId : Option Uuid
  reasoning : ReasoningState := .notStarted
  sawToolCalls : Bool := false

def closeReasoningIfActive (t : Turn) : Orchestrated Turn :=
  match t.reasoning with
  | .active itemId => do
    sendStorageMessage (.reasoningDone itemId)
    return { t with reasoning := .done }
  | _ => return t

def nextAssistantMessageId : Option Uuid → Orchestrated Uuid
  | some itemId => return itemId
  | none => perform Effect.newUuid

def ensureMessageStarted (t : Turn) : Orchestrated (Uuid × Turn) :=
  match t.currentMessageId with
  | some itemId => return (itemId,t)
  | none => do
    let itemId ← nextAssistantMessageId t.nextMessageId
    sendStorageMessage (.messageStarted itemId)
    return (itemId,{ t with currentMessageId := some itemId, nextMessageId := none })

def appendStreamedToolCall (calls : List StreamedToolCall) (entry : Json) : List StreamedToolCall :=
  let index := ((entry.get "index").bind Json.asU64).getD 0
  let calls := calls ++ List.replicate (index + 1 - calls.length) {}
  match entry.get "function" with
  | none => calls
  | some function =>
    let calls := match function.text "name" with
      | some name => calls.modify index fun call => { call with name := some name }
      | none => calls
    match function.text "arguments" with
    | some arguments =>
      calls.modify index fun call => { call with arguments := call.arguments ++ arguments }
    | none => calls

def appendStreamedToolCalls (calls : List StreamedToolCall) (delta : Json) :
    List StreamedToolCall :=
  (delta.asArray.getD []).foldl appendStreamedToolCall calls

def hasStreamedToolCallEntries (delta : Json) : Bool := delta.asArray.any (!·.isEmpty)

def finalizeFirstModelToolCall (parseJson : Text → Option Json) (calls : List StreamedToolCall) :
    Option ModelToolCall := do
  let call ← calls.head?
  let name ← call.name
  return ⟨name,(parseJson call.arguments).getD (.obj [])⟩

def finishedByToolCalls : Text := "tool_calls"

def assistantTurnFinishedWithToolCall (sawToolCalls toolsEnabled : Bool)
    (finishReason : Option Text) : Bool :=
  sawToolCalls || (toolsEnabled && finishReason == some finishedByToolCalls)

def finalAssistantFinishReason (toolsEnabled : Bool) : Option Text → Text
  | some reason => if reason = finishedByToolCalls ∧ toolsEnabled = false then "stop" else reason
  | none => "stop"

def noteFinishReason (choice : Option Json) (t : Turn) : Turn :=
  match choice.bind (·.text "finish_reason") with
  | some reason => if reason = [] then t else { t with finishReason := some reason }
  | none => t

/-- The newer key wins even when its text is empty. -/
def reasoningDelta (delta : Option Json) : Option Text := do
  let d ← delta
  d.text "reasoning" <|> d.text "reasoning_content"

def onReasoning (delta : Option Json) (t : Turn) : Orchestrated Turn :=
  match (reasoningDelta delta).filter (· ≠ []) with
  | none => return t
  | some text =>
    match t.reasoning with
    | .done => return t
    | .notStarted => do
      let itemId ← perform .newUuid
      sendStorageMessage (.reasoningStarted itemId)
      sendStorageMessage (.reasoningDelta itemId text)
      return { t with reasoning := .active itemId }
    | .active itemId => do
      sendStorageMessage (.reasoningDelta itemId text)
      return t

def closeMessage (t : Turn) : Orchestrated Turn :=
  match t.currentMessageId with
  | some itemId => do
    sendStorageMessage (.messageDone itemId finishedByToolCalls)
    return { t with currentMessageId := none }
  | none => return t

def onToolCalls (toolsEnabled : Bool) (delta : Option Json) (t : Turn) : Orchestrated Turn :=
  match (delta.bind (·.get "tool_calls")).filter hasStreamedToolCallEntries with
  | none => return t
  | some entries =>
    if toolsEnabled then do
      let t ← closeMessage t
      let t ← closeReasoningIfActive t
      return { t with
        sawToolCalls := true, streamedToolCalls :=
          appendStreamedToolCalls t.streamedToolCalls entries }
    else return t

def onContent (delta : Option Json) (t : Turn) : Orchestrated Turn :=
  match (delta.bind (·.text "content")).filter (· ≠ []) with
  | none => return t
  | some content =>
    if t.sawToolCalls then return t
    else do
      let t ← closeReasoningIfActive t
      let (itemId,t) ← ensureMessageStarted t
      sendStorageMessage (.contentDelta itemId content)
      return t

def onStreamChunk (toolsEnabled : Bool) (json : Json) (t : Turn) : Orchestrated Turn := do
  let choice := (json.get "choices").bind (·.index 0)
  let delta := choice.bind (·.get "delta")
  let t ← onReasoning delta (noteFinishReason choice t)
  let t ← onToolCalls toolsEnabled delta t
  onContent delta t

/-- The outcome of the turn and the message id that is still unused. -/
def onDone (parseJson : Text → Option Json) (toolsEnabled : Bool) (t : Turn) :
    Orchestrated (AssistantTurnOutcome × Option Uuid) := do
  let t ← closeReasoningIfActive t
  if assistantTurnFinishedWithToolCall t.sawToolCalls toolsEnabled t.finishReason then
    match finalizeFirstModelToolCall parseJson t.streamedToolCalls with
    | some call => return (.toolCall call,t.nextMessageId)
    | none => internalError
  else
    let (itemId,t) ← ensureMessageStarted t
    let finishReason := finalAssistantFinishReason toolsEnabled t.finishReason
    sendStorageMessage (.messageDone itemId finishReason)
    sendStorageMessage (.responseDone finishReason)
    return (.final,t.nextMessageId)

def streamChunks (parseJson : Text → Option Json) (toolsEnabled : Bool) :
    Turn → List CompletionChunk → Orchestrated (AssistantTurnOutcome × Option Uuid)
  | _, [] => internalError
  | t, .streamChunk json :: rest => do
    let t ← onStreamChunk toolsEnabled json t
    streamChunks parseJson toolsEnabled t rest
  | t, .usage usage :: rest => do
    sendStorageMessage (.usage usage.promptTokens usage.completionTokens)
    streamChunks parseJson toolsEnabled t rest
  | t, .done :: _ => onDone parseJson toolsEnabled t
  | _, .error _ :: _ => internalError
  | _, .fullResponse _ :: _ => internalError

def streamOneAssistantTurn (parseJson : Text → Option Json) (prompt : List Json)
    (toolsEnabled : Bool) (nextMessageId : Option Uuid) :
    Orchestrated (AssistantTurnOutcome × Option Uuid) := do
  let completion ← perform (.getChatCompletion prompt toolsEnabled)
  let chunks ← orThrow completion
  streamChunks parseJson toolsEnabled { nextMessageId } chunks

def storageFailureMessage : StorageMessage := .error "Internal storage failure - request aborted"

def enqueueToolMessage (message : StorageMessage) : Orchestrated Unit := do
  if ← perform (.sendStorage message) then
    let _ ← perform (.trySendClient message)
  else
    let _ ← perform (.sendClient storageFailureMessage)
    internalError

def acknowledged : AckWait → Orchestrated Unit
  | .received true => return ()
  | _ => internalError

def executeToolCallAndWait (provider : WebSearchProvider) (call : ModelToolCall) :
    Orchestrated Unit := do
  let toolCallId ← perform .newUuid
  let toolOutputId ← perform .newUuid
  enqueueToolMessage (.toolCall toolCallId call.name call.arguments)
  let output ← perform (.executeTool call provider)
  enqueueToolMessage (.toolOutput toolOutputId toolCallId output)
  let wait ← perform (.awaitToolAck toolCallId)
  acknowledged wait

structure Loop where
  prompt : List Json
  toolsEnabled : Bool
  toolTurnCount : Nat
  nextMessageId : Option Uuid

def expectProvider : Option WebSearchProvider → Orchestrated WebSearchProvider
  | some provider => return provider
  | none => throw .panicked

def assistantLoop (parseJson : Text → Option Json) (provider : Option WebSearchProvider) :
    Nat → Loop → Orchestrated Unit
  | 0, _ => do
    let never ← perform .outOfTurns
    nomatch never
  | turns + 1, l => do
    let (outcome,nextMessageId) ← streamOneAssistantTurn parseJson
      l.prompt l.toolsEnabled l.nextMessageId
    match outcome with
    | .final => return ()
    | .toolCall call =>
      let provided ← expectProvider provider
      executeToolCallAndWait provided call
      let toolTurnCount := l.toolTurnCount + 1
      let rebuilt ← perform .rebuildPrompt
      let prompt ← orThrow rebuilt
      assistantLoop parseJson provider turns
        ⟨prompt,provider.isSome && decide (toolTurnCount < maxWebSearchToolTurns),
          toolTurnCount,nextMessageId⟩

def failureMessage (e : ApiError) : StorageMessage :=
  .error ("Streaming failed: ".toList ++ ApiError.debug e)

/-- A panic ends the spawned task without another message. -/
def reportFailure : Outcome ApiError Unit → Orchestrated Unit
  | .ok () => return ()
  | .error .panicked => throw .panicked
  | .error (.error e) => do
    let _ ← perform (.sendStorage (failureMessage e))
    let _ ← perform (.trySendClient (failureMessage e))
    throw (.error e)

def setupCompletionProcessor (parseJson : Text → Option Json) (provider : Option WebSearchProvider)
    (prompt : List Json) (assistantMessageId : Uuid) : Orchestrated Unit := do
  let result ← attempt (assistantLoop parseJson provider (maxWebSearchToolTurns + 1)
    ⟨prompt,provider.isSome,0,some assistantMessageId⟩)
  reportFailure result

/-- Messages for other responses and lagged receivers are waited past. -/
def waitForResponseCancellation : Orchestrated Unit := do
  let _ ← perform .awaitCancellation
  let _ ← perform (.sendStorage .cancelled)
  let _ ← perform (.sendClient .cancelled)

end OpenSecret.Responses
