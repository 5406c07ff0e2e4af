import OpenSecret.Prompt.Messages

/-!
`context_builder.rs`: the metadata pass that selects rows, the decoding of the
selected rows, the truncation of the decoded list and its rendering for the chat
API. The reads of the conversation succeed here; a failed one ends the call with
an internal server error before any of this runs. Debug assertions are not part
of a release build.
-/
namespace OpenSecret
open Framing Truncation

structure ChatMsg where
  role : Text
  content : Text
  reasoning : Option Text
  toolCallId : Option Uuid
  tok : Nat
  deriving DecidableEq

structure PendingReasoning where
  content : Text
  tok : Nat
  deriving DecidableEq

structure ContextEntry where
  messageType : MessageType
  ids : List (MessageType × Int)
  tok : Nat
  deriving DecidableEq

def asUsize (t : Int32) : Nat := (t.toInt % 2 ^ 64).toNat

def RawThreadMessageMetadata.key (m : RawThreadMessageMetadata) : MessageType × Int :=
  (m.messageType,m.id)

def metadataTokenCount (m : RawThreadMessageMetadata) : Nat := (m.tokenCount.map asUsize).getD 0

def storedTokenCount (tokenCount : Option Int32) : Option Nat :=
  tokenCount.bind fun count => if 0 ≤ count.toInt then some count.toInt.toNat else none

def ContextEntry.single (m : RawThreadMessageMetadata) : ContextEntry :=
  ⟨m.messageType,[m.key],metadataTokenCount m⟩

/-- A call or an answer of the assistant takes the reasoning before it along. -/
def ContextEntry.withReasoning (pending : List RawThreadMessageMetadata)
    (m : RawThreadMessageMetadata) : ContextEntry :=
  ⟨m.messageType,(pending ++ [m]).map RawThreadMessageMetadata.key,
    usizeSum ((pending ++ [m]).map metadataTokenCount)⟩

def buildContextEntries (includeReasoning : Bool) (pending : List RawThreadMessageMetadata) :
    List RawThreadMessageMetadata → List ContextEntry
  | [] => []
  | m :: rest =>
    match m.messageType, includeReasoning with
    | .reasoning, true => buildContextEntries includeReasoning (pending ++ [m]) rest
    | .reasoning, false => buildContextEntries includeReasoning pending rest
    | .assistant, true => .withReasoning pending m :: buildContextEntries includeReasoning [] rest
    | .toolCall, true => .withReasoning pending m :: buildContextEntries includeReasoning [] rest
    | _, _ => .single m :: buildContextEntries includeReasoning [] rest

section
variable (R : Runtime)

def userMessagePromptTokenCount (contentJson : Text) (tokenCount : Option Int32) : Nat :=
  let stored := (storedTokenCount tokenCount).getD (R.countTokens contentJson)
  if Text.contains contentJson "\"input_image\"" then
    max stored (((R.parseMessageContent contentJson).map
      (MessageContentConverter.estimatePromptTokens R)).getD 0)
  else stored

def decryptText (bytes : Bytes) : Except ApiError Text :=
  match decryptWithKey R.primitives R.userKey bytes with
  | .ok plain => .ok (R.fromUtf8Lossy plain)
  | .error _ => .error .internalServerError

def decryptInstruction (instruction : StoredInstruction) : Except ApiError (Text × Nat) :=
  (decryptText R instruction.promptEnc).map fun content =>
    (content,asUsize instruction.promptTokens)

def storedInstruction (c : Conversation) : Except ApiError (Option (Text × Nat)) :=
  match c.projectInstruction.or c.defaultInstruction with
  | some instruction => (decryptInstruction R instruction).map some
  | none => .ok none

def withInternal (internalInstructions : Option Text) (system : Option (Text × Nat)) :
    Option (Text × Nat) :=
  match internalInstructions with
  | none => system
  | some internal =>
    let content := match system with
      | some (existing,_) => internal ++ "\n\n".toList ++ existing
      | none => internal
    some (content,R.countTokens content)

def baseInstruction (c : Conversation) (overrideInstructions : Option Text) :
    Except ApiError (Option (Text × Nat)) :=
  match overrideInstructions with
  | some text => .ok (some (text,R.countTokens text))
  | none => storedInstruction R c

def systemInstruction (c : Conversation) (overrideInstructions internalInstructions : Option Text) :
    Except ApiError (Option (Text × Nat)) :=
  (baseInstruction R c overrideInstructions).map (withInternal R internalInstructions)

def systemMsg (system : Text × Nat) : ChatMsg := ⟨roleSystem,system.1,none,none,system.2⟩

def truncationText : Text := "[Previous messages truncated due to context limits]"

def truncationMsg : ChatMsg := ⟨roleAssistant,truncationText,none,none,R.countTokens truncationText⟩

def determineNeededMessageIds (metadata : List RawThreadMessageMetadata) (model : Text)
    (systemTokens tokenReserve : Nat) : List (MessageType × Int) × Bool :=
  let entries := buildContextEntries (modelSupportsReasoningHistory model) [] metadata
  let ctxBudget := promptTokenBudget model - tokenReserve
  if usizeAdd systemTokens (usizeSum (entries.map ContextEntry.tok)) ≤ ctxBudget then
    (entries.flatMap ContextEntry.ids,false)
  else
    let isUser : ContextEntry → Bool := fun entry => entry.messageType = .user
    let head := firstUser isUser entries
    let headTokens := usizeSum (head.map ContextEntry.tok)
    let availableForTail :=
      ctxBudget - usizeAdd (usizeAdd systemTokens headTokens) (R.countTokens truncationText)
    let tail := fromUser isUser (recent ContextEntry.tok availableForTail entries)
    ((head ++ tail).flatMap ContextEntry.ids,true)

def toolCallJson (id : Uuid) (name arguments : Text) : Json :=
  .obj [("role",.str roleAssistant),("tool_calls",.arr [
    .obj [("id",.str id.hyphenated),("type",.str "function"),
      ("function",.obj [("name",.str name),("arguments",.str arguments)])]])]

def storedToolCall (r : RawThreadMessage) (argumentsStr : Text) : Json :=
  let arguments := (R.parseJson argumentsStr).getD (.obj [])
  toolCallJson (r.toolCallId.getD (R.newUuid r)) (r.toolName.getD "function")
    (R.printJson arguments)

def rowTokens (r : RawThreadMessage) (content : Text) : Nat :=
  (r.tokenCount.map asUsize).getD (R.countTokens content)

def pendingTokens (pending : Option PendingReasoning) : Nat :=
  (pending.map PendingReasoning.tok).getD 0

/-- The message of a row whose content is decrypted; reasoning rows have none. -/
def messageOf (pending : Option PendingReasoning) (r : RawThreadMessage) (content : Text) :
    Option ChatMsg :=
  let reasoning := pending.map PendingReasoning.content
  match r.messageType with
  | .user => some ⟨roleUser,content,none,none,userMessagePromptTokenCount R content r.tokenCount⟩
  | .assistant =>
    some ⟨roleAssistant,content,reasoning,none,
      usizeAdd (rowTokens R r content) (pendingTokens pending)⟩
  | .toolCall => some ⟨roleAssistant,R.printJson (storedToolCall R r content),reasoning,none,
      usizeAdd (rowTokens R r content) (pendingTokens pending)⟩
  | .toolOutput => some ⟨roleTool,content,none,r.toolCallId,rowTokens R r content⟩
  | .reasoning => none

/-- Reasoning that waits for the next assistant message. -/
def collectReasoning (pending : Option PendingReasoning) (r : RawThreadMessage) (content : Text) :
    Option PendingReasoning :=
  if content = [] then pending
  else match pending with
    | some p => some ⟨p.content ++ content,usizeAdd p.tok (rowTokens R r content)⟩
    | none => some ⟨content,rowTokens R r content⟩

/-- Reasoning without content or for a model that takes none leaves what is pending. -/
def decodeReasoning (includeReasoning : Bool) (pending : Option PendingReasoning)
    (r : RawThreadMessage) :
    Except ApiError (Option PendingReasoning) :=
  match includeReasoning, r.contentEnc with
  | true, some enc => (decryptText R enc).map (collectReasoning R pending r)
  | _, _ => .ok pending

/-- One row of the decode loop: the reasoning that is pending after it, and its message. -/
def decodeRow (includeReasoning : Bool) (pending : Option PendingReasoning) (r : RawThreadMessage) :
    Except ApiError (Option PendingReasoning × Option ChatMsg) :=
  if r.messageType = .reasoning then
    (decodeReasoning R includeReasoning pending r).map fun next => (next,none)
  else match r.contentEnc with
    | none => .ok (none,none)
    | some enc => (decryptText R enc).map fun content => (none,messageOf R pending r content)

def decodeMessages (includeReasoning : Bool) (pending : Option PendingReasoning) :
    List RawThreadMessage → Except ApiError (List ChatMsg)
  | [] => .ok []
  | r :: rest => do
    let step ← decodeRow R includeReasoning pending r
    let later ← decodeMessages includeReasoning step.1 rest
    return step.2.toList ++ later

def isUser (m : ChatMsg) : Bool := m.role = roleUser
def isSystem (m : ChatMsg) : Bool := m.role = roleSystem

/-- The first system message and the first user message, as far as the latter. -/
def headMessages (hasSystem : Bool) : List ChatMsg → List ChatMsg
  | [] => []
  | m :: rest =>
    if isSystem m && !hasSystem then m :: headMessages true rest
    else if isUser m then [m]
    else headMessages hasSystem rest

def totalTokens (msgs : List ChatMsg) : Nat := usizeSum (msgs.map ChatMsg.tok)

def keptTail (ctxBudget : Nat) (msgs : List ChatMsg) : List ChatMsg :=
  let headTokens := totalTokens (headMessages false msgs)
  fromUser isUser (recent ChatMsg.tok
    (ctxBudget - usizeAdd headTokens (R.countTokens truncationText)) msgs)

def truncateMessages (ctxBudget : Nat) (msgs : List ChatMsg) : List ChatMsg :=
  let head := headMessages false msgs
  let tail := keptTail R ctxBudget msgs
  let didTruncate := head.length + tail.length < msgs.length
  let kept := head ++ (if didTruncate then [truncationMsg R] else []) ++ tail
  if totalTokens kept > ctxBudget then
    match head.any isSystem, kept.find? isSystem with
    | true, some sys =>
      if usizeAdd sys.tok (totalTokens tail) ≤ ctxBudget then sys :: tail else tail
    | _, _ => tail
  else kept

def fitMessages (ctxBudget : Nat) (msgs : List ChatMsg) : List ChatMsg :=
  if totalTokens msgs > ctxBudget then truncateMessages R ctxBudget msgs else msgs

def attachReasoningToAssistantMessage (message : Json) (reasoning : Option Text) : Json :=
  match reasoning with
  | none => message
  | some reasoning =>
    let message := message.set "reasoning" (.str reasoning)
    if (message.get "content").isSome then message
    else message.set "content" (.str [])

/-- Assistant content that reads as JSON with tool calls is taken for a stored call. -/
def parsedToolCall (content : Text) : Option Json :=
  (R.parseJson content).filter fun parsed => (parsed.get "tool_calls").isSome

def assistantMessage (content : Text) : Json :=
  (parsedToolCall R content).getD
    (.obj [("role",.str roleAssistant),("content",.str content)])

def renderMessage (includeReasoning : Bool) (m : ChatMsg) : Except ApiError Json :=
  if m.role = roleTool then
    match m.toolCallId with
    | some id => .ok (.obj [("role",.str roleTool),("content",.str m.content),
        ("tool_call_id",.str id.hyphenated)])
    | none => .error .internalServerError
  else if m.role = roleAssistant then
    let reasoning := if includeReasoning then m.reasoning.filter (fun text => text ≠ []) else none
    .ok (attachReasoningToAssistantMessage (assistantMessage R m.content) reasoning)
  else if m.role = roleUser then
    match R.parseMessageContent m.content with
    | some content => .ok (.obj [("role",.str m.role),
        ("content",MessageContentConverter.toOpenaiFormat content)])
    | none => .error .internalServerError
  else .ok (.obj [("role",.str m.role),("content",.str m.content)])

/-- `ids` maps original ids to the new ones, the latest first. -/
structure KimiIds where
  next : Nat
  ids : List (Text × Text)

def kimiId (functionName : Text) (index : Nat) : Text :=
  "functions.".toList ++ functionName ++ ':' :: Nat.toDigits 10 index

def kimiToolCall (s : KimiIds) (toolCall : Json) : KimiIds × Json :=
  match (toolCall.get "function").bind (·.text "name"), toolCall.text "id" with
  | some functionName, some originalId =>
    let id := kimiId functionName s.next
    (⟨s.next + 1,(originalId,id) :: s.ids⟩,toolCall.set "id" (.str id))
  | _, _ => (s,toolCall)

/-- In-place update of a list, with a state carried from left to right. -/
def updateEach {σ α : Type} (f : σ → α → σ × α) : σ → List α → σ × List α
  | s, [] => (s,[])
  | s, a :: rest =>
    let first := f s a
    let later := updateEach f first.1 rest
    (later.1,first.2 :: later.2)

def kimiMessage (s : KimiIds) (message : Json) : KimiIds × Json :=
  if message.text "role" = some roleAssistant then
    match (message.get "tool_calls").bind Json.asArray with
    | some toolCalls =>
      let updated := updateEach kimiToolCall s toolCalls
      (updated.1,message.set "tool_calls" (.arr updated.2))
    | none => (s,message)
  else if message.text "role" = some roleTool then
    match (message.text "tool_call_id").bind fun id => s.ids.lookup id with
    | some id => (s,message.set "tool_call_id" (.str id))
    | none => (s,message)
  else (s,message)

def normalizeToolCallIdsForKimi (messages : List Json) : List Json :=
  (updateEach kimiMessage ⟨0,[]⟩ messages).2

def finalMessages (model : Text) (messages : List Json) : List Json :=
  if modelUsesKimiToolCallIds model then normalizeToolCallIdsForKimi messages else messages

def buildPromptFromChatMessagesWithTokenReserve (msgs : List ChatMsg) (model : Text)
    (tokenReserve : Nat) : Except ApiError (List Json × Nat) := do
  let kept := fitMessages R (promptTokenBudget model - tokenReserve) msgs
  let rendered ← kept.mapM (renderMessage R (modelSupportsReasoningHistory model))
  return (finalMessages model rendered,totalTokens kept)

def withTruncationMsg (hasSystem didTruncate : Bool) (msgs : List ChatMsg) : List ChatMsg :=
  let insertPos := if hasSystem then 2 else 1
  if didTruncate && insertPos < msgs.length
    then msgs.insertIdx insertPos (truncationMsg R) else msgs

/-- A zero reserve goes through `build_prompt_from_chat_messages`, which is the
    same function at zero. -/
def buildPromptWithTokenReserve (c : Conversation) (model : Text)
    (overrideInstructions internalInstructions : Option Text) (tokenReserve : Nat) :
    Except ApiError (List Json × Nat) := do
  let system ← systemInstruction R c overrideInstructions internalInstructions
  let needed := determineNeededMessageIds R c.getConversationContextMetadata model
    ((system.map Prod.snd).getD 0) tokenReserve
  let raw := c.getMessagesByIds needed.1
  let decoded ← decodeMessages R (modelSupportsReasoningHistory model) none raw
  let msgs := withTruncationMsg R system.isSome needed.2 ((system.map systemMsg).toList ++ decoded)
  buildPromptFromChatMessagesWithTokenReserve R msgs model tokenReserve

end

end OpenSecret
