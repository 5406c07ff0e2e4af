import OpenSecret.Conversations.Store

/-!
`GET /v1/conversations`: the conversations of a user, filtered by project and
pin, listed by last activity and serial id. The user has been authenticated and
the user's key loaded.
-/
namespace OpenSecret.Conversations
open Framing Keyset

structure ConversationTables where
  conversations : Table Conversation (·.id) (·.uuid)
  projects : Table ConversationProject (·.id) (·.uuid)

inductive ConversationProjectFilter where
  | any
  | assigned (projectId : Int)
  | unassigned
  deriving DecidableEq

def Conversation.place (c : Conversation) : Int × Int := (c.lastActivityAt,c.id)

def filterConversations (t : ConversationTables) (userId : Uuid)
    (projectFilter : ConversationProjectFilter) (pinned : Option Bool) : List Conversation :=
  let query := t.conversations.rows.filter (·.userId = userId)
  let query := match projectFilter with
    | .any => query
    | .assigned projectId => query.filter (·.projectId = some projectId)
    | .unassigned => query.filter (·.projectId = none)
  match pinned with
  | some isPinned => query.filter (·.isPinned = isPinned)
  | none => query

/-- The cursor is looked up among all conversations of the user; one that is not there is ignored.
    -/
def selectConversations (t : ConversationTables) (userId : Uuid) (after : Option Uuid)
    (order : Text) (projectFilter : ConversationProjectFilter) (pinned : Option Bool) :
    List Conversation :=
  let query := filterConversations t userId projectFilter pinned
  match after with
  | none => query
  | some afterUuid =>
    match (t.conversations.rows.filter fun c => c.uuid = afterUuid ∧ c.userId = userId).head? with
    | some cursor => query.filter fun c => followsCursor order c.place cursor.place
    | none => query

def listForUser (db : OrderBy Conversation) (t : ConversationTables) (userId : Uuid) (limit : Int)
    (after : Option Uuid) (order : Text) (projectFilter : ConversationProjectFilter)
    (pinned : Option Bool) :
    List Conversation :=
  (orderRows db Conversation.place order
    (selectConversations t userId after order projectFilter pinned)).take
    limit.toNat

def getProjectByUuidAndUser (t : ConversationTables) (projectUuid userId : Uuid) :
    Except ApiError ConversationProject :=
  match t.projects.rows.find? fun p => p.uuid = projectUuid ∧ p.userId = userId with
  | some project => .ok project
  | none => .error .notFound

def getProjectByIdAndUser (t : ConversationTables) (projectId : Int) (userId : Uuid) :
    Except ApiError ConversationProject :=
  match t.projects.rows.find? fun p => p.id = projectId ∧ p.userId = userId with
  | some project => .ok project
  | none => .error .notFound

structure ListConversationsParams where
  limit : Int
  after : Option Uuid
  order : Text
  projectId : Option Uuid
  unassignedProject : Option Bool
  pinned : Option Bool

def ListConversationsParams.validate (params : ListConversationsParams) : Except ApiError Unit :=
  if params.projectId.isSome ∧ params.unassignedProject = some true
    then .error .badRequest else .ok ()

def resolveConversationProjectFilter (t : ConversationTables) (userUuid : Uuid)
    (params : ListConversationsParams) :
    Except ApiError ConversationProjectFilter := do
  params.validate
  if params.unassignedProject = some true then return .unassigned
  else match params.projectId with
    | some projectUuid =>
      let project ← getProjectByUuidAndUser t projectUuid userUuid
      return .assigned project.id
    | none => return .any

abbrev ProjectCache := List (Int × Uuid)

def resolveProjectUuid (t : ConversationTables) (userUuid : Uuid) (projectId : Option Int)
    (cache : ProjectCache) :
    Except ApiError (Option Uuid × ProjectCache) :=
  match projectId with
  | none => .ok (none,cache)
  | some projectId =>
    match cache.find? (·.1 = projectId) with
    | some entry => .ok (some entry.2,cache)
    | none => do
      let project ← getProjectByIdAndUser t projectId userUuid
      return (some project.uuid,(projectId,project.uuid) :: cache)

structure ConversationResponse where
  id : Uuid
  metadata : Option Json
  projectId : Option Uuid
  pinned : Bool
  createdAt : Int
  lastActivityAt : Int

section
variable (R : Runtime) (fromSlice : Bytes → Option Json) (t : ConversationTables) (userUuid : Uuid)

def buildConversationResponse (conversation : Conversation) (metadata : Option Json)
    (projectCache : ProjectCache) :
    Except ApiError (ConversationResponse × ProjectCache) := do
  let metadata ← (match metadata with
    | some metadata => .ok (some metadata)
    | none => decryptContent R fromSlice conversation.metadataEnc)
  let (projectId,projectCache) ← resolveProjectUuid t userUuid conversation.projectId projectCache
  return (⟨conversation.uuid,metadata,projectId,conversation.isPinned,
    timestamp conversation.createdAt,
    timestamp conversation.lastActivityAt⟩,projectCache)

def buildConversationResponses : List Conversation → ProjectCache →
    Except ApiError (List ConversationResponse)
  | [], _ => .ok []
  | conv :: rest, projectCache => do
    let (response,projectCache) ← buildConversationResponse R
      fromSlice t userUuid conv none projectCache
    let data ← buildConversationResponses rest projectCache
    return response :: data

abbrev ConversationListResponse := Page Uuid ConversationResponse

def listConversations (db : OrderBy Conversation) (params : ListConversationsParams) :
    Except ApiError ConversationListResponse := do
  let limit := paginationLimit params.limit
  let projectFilter ← resolveConversationProjectFilter t userUuid params
  let conversations :=
    listForUser db t userUuid (limit + 1) params.after params.order projectFilter params.pinned
  let (hasMore,conversationsToReturn) := withinLimit limit conversations
  let data ← buildConversationResponses R fromSlice t userUuid conversationsToReturn []
  let (firstId,lastId) := Paginator.getCursorIds conversationsToReturn Conversation.uuid
  return ⟨data,hasMore,firstId,lastId⟩

end

end OpenSecret.Conversations
