import OpenSecret.Conversations.Listing
import OpenSecret.Foundation.Confinement
import OpenSecret.Foundation.Text

/-!
`POST /v1/conversations/{id}` and the background task that titles a
conversation. The update replaces the encrypted metadata of the row; the task
reads them, sets one key and writes them back. Every database call is one step
with a fate of its own. Beside the tables stands a list of what has been
committed, which no code reads.
-/
namespace OpenSecret.Conversations
open Framing Interleaving Responses

inductive Commit where
  | updated (conversationId : Int) (metadata : Option Json)
  | titled (conversationId : Int) (version : Nat)

structure ConversationWorld where
  tables : ConversationTables
  commits : List Commit

abbrev ConversationStatement (α : Type) :=
  ConversationWorld → Except ResponsesError (α × ConversationWorld)

def Table.modify {Row : Type} {id : Row → Int} {uuid : Row → Uuid} (table : Table Row id uuid)
    (change : Row → Row) (sameId : ∀ row, id (change row) = id row)
    (sameUuid : ∀ row, uuid (change row) = uuid row) :
    Table Row id uuid where
  rows := table.rows.map change
  ids := by
    rw [List.map_map, show id ∘ change = id from funext sameId]
    exact table.ids
  uuids := by
    rw [List.map_map, show uuid ∘ change = uuid from funext sameUuid]
    exact table.uuids

structure ConversationUpdateChanges where
  metadataEnc : Option Bytes
  projectId : Option (Option Int)
  isPinned : Option Bool

/-- A change that is absent leaves its column alone. -/
def ConversationUpdateChanges.apply (changes : ConversationUpdateChanges) (c : Conversation) :
    Conversation :=
  { c with
    metadataEnc := changes.metadataEnc.or c.metadataEnc
    projectId := changes.projectId.getD c.projectId
    isPinned := changes.isPinned.getD c.isPinned }

def ConversationUpdateChanges.onRow (changes : ConversationUpdateChanges) (conversationId : Int)
    (userId : Uuid) (c : Conversation) : Conversation :=
  if c.id = conversationId ∧ c.userId = userId then changes.apply c else c

theorem onRow_id (changes : ConversationUpdateChanges) (conversationId : Int) (userId : Uuid)
    (c : Conversation) :
    (changes.onRow conversationId userId c).id = c.id := by
  unfold ConversationUpdateChanges.onRow
  split <;> rfl

theorem onRow_uuid (changes : ConversationUpdateChanges) (conversationId : Int) (userId : Uuid)
    (c : Conversation) :
    (changes.onRow conversationId userId c).uuid = c.uuid := by
  unfold ConversationUpdateChanges.onRow
  split <;> rfl

theorem onRow_userId (changes : ConversationUpdateChanges) (conversationId : Int) (userId : Uuid)
    (c : Conversation) :
    (changes.onRow conversationId userId c).userId = c.userId := by
  unfold ConversationUpdateChanges.onRow
  split <;> rfl

namespace Conversation

def getByIdAndUser (conversationId : Int) (userId : Uuid) :
    ConversationStatement Conversation := fun w =>
  match w.tables.conversations.rows.find? fun c => c.id = conversationId ∧ c.userId = userId with
  | some c => .ok (c,w)
  | none => .error .conversationNotFound

def getByUuidAndUser (conversationUuid userId : Uuid) :
    ConversationStatement Conversation := fun w =>
  match w.tables.conversations.rows.find? fun c => c.uuid = conversationUuid ∧
    c.userId = userId with
  | some c => .ok (c,w)
  | none => .error .conversationNotFound

/-- One statement, which also checks that the project it refers to exists. -/
def update (conversationId : Int) (userId : Uuid) (changes : ConversationUpdateChanges)
    (commit : Commit) :
    ConversationStatement Conversation := fun w =>
  if changes.metadataEnc.isNone ∧ changes.projectId.isNone ∧ changes.isPinned.isNone then
    getByIdAndUser conversationId userId w
  else if changes.projectId.join.any fun id => !w.tables.projects.rows.any (·.id = id) then
    .error .databaseError
  else
    match w.tables.conversations.rows.find? fun c => c.id = conversationId ∧ c.userId = userId with
    | none => .error .conversationNotFound
    | some c =>
      .ok (changes.apply c,
        { tables := { w.tables with
            conversations := w.tables.conversations.modify (changes.onRow conversationId userId)
              (onRow_id changes conversationId userId) (onRow_uuid changes conversationId userId) }
          commits := w.commits ++ [commit] })

def updateMetadata (conversationId : Int) (userId : Uuid) (metadataEnc : Bytes) (commit : Commit) :
    ConversationStatement Conversation :=
  update conversationId userId ⟨some metadataEnc,none,none⟩ commit

end Conversation

def getConversationProjectByUuidAndUser (projectUuid userId : Uuid) :
    ConversationStatement ConversationProject :=
  fun w =>
    match w.tables.projects.rows.find? fun p => p.uuid = projectUuid ∧ p.userId = userId with
    | some project => .ok (project,w)
    | none => .error .conversationProjectNotFound

def getConversationProjectByIdAndUser (projectId : Int) (userId : Uuid) :
    ConversationStatement ConversationProject :=
  fun w =>
    match w.tables.projects.rows.find? fun p => p.id = projectId ∧ p.userId = userId with
    | some project => .ok (project,w)
    | none => .error .conversationProjectNotFound

inductive NullableField (T : Type) where
  | missing
  | null
  | value (v : T)

def NullableField.isMissing {T : Type} : NullableField T → Bool
  | .missing => true
  | _ => false

structure UpdateConversationRequest where
  metadata : Option Json
  projectId : NullableField Uuid
  pinned : Option Bool

def validateMetadata (metadata : Json) : Except ApiError Unit :=
  if metadata.isObject then .ok () else .error .badRequest

def mapConversationError : ResponsesError → ApiError
  | .conversationNotFound => .notFound
  | _ => .internalServerError

def mapConversationProjectError : ResponsesError → ApiError
  | .conversationProjectNotFound => .notFound
  | _ => .internalServerError

/-- An update with what is random or outside about it. -/
structure UpdateCall where
  conversationUuid : Uuid
  body : UpdateConversationRequest
  keyRetrieved : Bool
  nonce : Nonce
  fates : Nat → CallFate

inductive TitleCompletion where
  | failed
  | ended
  | unexpectedChunk
  | fullResponse (response : Json)

inductive TitleFailure where
  | completionFailed
  | streamEnded
  | unexpectedChunk
  | missingContent
  | conversationNotLoaded
  | metadataNotDecrypted
  | metadataNotUpdated

structure TitleTask where
  conversationId : Int
  conversationUuid : Uuid
  completion : TitleCompletion
  nonce : Nonce
  fates : Nat → CallFate

def titleKey : Text := "title"

def extractTitle (response : Json) : Option Text := do
  let choices ← response.get "choices"
  let choice ← choices.index 0
  let message ← choice.get "message"
  let content ← message.get "content"
  let title ← content.asStr
  return Text.trim title

def TitleCompletion.title : TitleCompletion → Except TitleFailure Text
  | .failed => .error .completionFailed
  | .ended => .error .streamEnded
  | .unexpectedChunk => .error .unexpectedChunk
  | .fullResponse response =>
    match extractTitle response with
    | some title => .ok title
    | none => .error .missingContent

abbrev ConversationAction (ε α : Type) := ExceptT (Fault ε) (Prog ConversationWorld) α

def query {ε α : Type} (rename : ResponsesError → ε) (fate : CallFate)
    (statement : ConversationStatement α) :
    ConversationAction ε α :=
  mapError (fun e => .error (rename e)) (ExceptT.mk (transact fun w => fate.answer statement w))

section
variable (R : Runtime) (fromSlice : Bytes → Option Json) (user : Uuid)

/-- A failed encryption panics. -/
def sealMetadata {ε : Type} (nonce : Nonce) (metadata : Json) : Except (Fault ε) Bytes :=
  match encryptWithKey R.primitives R.userKey nonce (utf8 (R.printJson metadata)) with
  | .ok sealed => .ok sealed
  | .error _ => .error .panicked

def sealUpdate (nonce : Nonce) : Option Json → Except (Fault ApiError) (Option Bytes)
  | none => .ok none
  | some metadata =>
    match validateMetadata metadata with
    | .error e => .error (.error e)
    | .ok () => (sealMetadata R nonce metadata).map some

def resolveProjectUpdate (fate : CallFate) :
    NullableField Uuid → ConversationAction ApiError (Option (Option Int) × ProjectCache)
  | .value projectUuid => do
    let project ← query mapConversationProjectError fate
      (getConversationProjectByUuidAndUser projectUuid user)
    return (some (some project.id),[(project.id,project.uuid)])
  | .null => return (some none,[])
  | .missing => return (none,[])

def resolveUpdatedProject (fate : CallFate) (projectId : Option Int) (cache : ProjectCache) :
    ConversationAction ApiError (Option Uuid) :=
  match projectId with
  | none => return none
  | some projectId =>
    match cache.find? (·.1 = projectId) with
    | some entry => return some entry.2
    | none => do
      let project ← query mapConversationProjectError fate
        (getConversationProjectByIdAndUser projectId user)
      return some project.uuid

/-- The metadata of the answer are those of the request, if it has any. -/
def answeredMetadata (metadata : Option Json) (updated : Conversation) :
    Except (Fault ApiError) (Option Json) :=
  match metadata with
  | some metadata => .ok (some metadata)
  | none => (decryptContent R fromSlice updated.metadataEnc).mapError .error

def updateConversation (call : UpdateCall) : ConversationAction ApiError ConversationResponse :=
  if call.body.metadata.isNone ∧ call.body.projectId.isMissing ∧ call.body.pinned.isNone then
    throw (.error .badRequest)
  else do
    let conversation ← query mapConversationError (call.fates 0)
      (Conversation.getByUuidAndUser call.conversationUuid user)
    settle (if call.keyRetrieved then .ok () else .error (.error .internalServerError))
    let metadataEnc ← settle (sealUpdate R call.nonce call.body.metadata)
    let (projectUpdate,projectCache) ← resolveProjectUpdate user (call.fates 1) call.body.projectId
    let updated ← query mapConversationError (call.fates 2)
      (Conversation.update conversation.id user ⟨metadataEnc,projectUpdate,call.body.pinned⟩
        (.updated conversation.id call.body.metadata))
    let metadata ← settle (answeredMetadata R fromSlice call.body.metadata updated)
    let projectId ← resolveUpdatedProject user (call.fates 3) updated.projectId projectCache
    return ⟨updated.uuid,metadata,projectId,updated.isPinned,timestamp updated.createdAt,
      timestamp updated.lastActivityAt⟩

/-- The row, and how many commits there were when it was read. -/
def readForTitle (conversationUuid : Uuid) : ConversationStatement (Conversation × Nat) := fun w =>
  match Conversation.getByUuidAndUser conversationUuid user w with
  | .ok (conversation,w) => .ok ((conversation,w.commits.length),w)
  | .error e => .error e

def spawnTitleGenerationTask (task : TitleTask) : ConversationAction TitleFailure Unit := do
  let title ← settle (task.completion.title.mapError .error)
  let (conversation,version) ← query (fun _ => .conversationNotLoaded) (task.fates 0)
    (readForTitle user task.conversationUuid)
  let metadata ← settle ((decryptContent R fromSlice conversation.metadataEnc).mapError
    fun _ => .error .metadataNotDecrypted)
  let metadataEnc ← settle
    (sealMetadata R task.nonce ((metadata.getD (.obj [])).set titleKey (.str title)))
  let _ ← query (fun _ => .metadataNotUpdated) (task.fates 1)
    (Conversation.updateMetadata task.conversationId user metadataEnc
      (.titled task.conversationId version))
  return ()

end

inductive MetadataRequest where
  | title (task : TitleTask)
  | update (call : UpdateCall)

inductive MetadataReply where
  | titled (result : Except (Fault TitleFailure) Unit)
  | updated (result : Except (Fault ApiError) ConversationResponse)

def serveMetadata (R : Runtime) (fromSlice : Bytes → Option Json) (user : Uuid) :
    MetadataRequest → Prog ConversationWorld MetadataReply
  | .title task => do
    let result ← (spawnTitleGenerationTask R fromSlice user task).run
    return .titled result
  | .update call => do
    let result ← (updateConversation R fromSlice user call).run
    return .updated result

/-- The updates of one user, while a title task is running; `value` tells what a
    request can carry as metadata. -/
def metadataWriters (R : Runtime) (fromSlice : Bytes → Option Json) (user : Uuid)
    (value : Json → Prop) :
    System ConversationWorld MetadataRequest MetadataReply where
  handle := serveMetadata R fromSlice user
  admits _
    | .title _ => False
    | .update call => ∀ metadata, call.body.metadata = some metadata → value metadata
  interferes _ _ := False

end OpenSecret.Conversations
