import OpenSecret.Conversations.Store

/-!
`GET /v1/conversations/{id}/items`: the items of a conversation are the rows of
five tables, listed together by creation time and serial id. The conversation
and the key of its owner have been loaded. The model, the token counts and the
finish reason of a row are not read by the listing.
-/
namespace OpenSecret.Conversations
open Framing Keyset Responses

structure RawThreadMessage where
  messageType : MessageType
  id : Int
  uuid : Uuid
  contentEnc : Option Bytes
  status : Option ItemStatus
  createdAt : Int
  toolCallId : Option Uuid
  toolName : Option Text

def RawThreadMessage.place (m : RawThreadMessage) : Int × Int := (m.createdAt,m.id)

def conversationMessages (t : ItemTables) (conversationId : Int) : List RawThreadMessage :=
  (t.userMessages.rows.filter (·.conversationId = conversationId)).map (fun um =>
    ⟨.user,um.id,um.uuid,some um.contentEnc,some .completed,um.createdAt,none,none⟩) ++
  (t.assistantMessages.rows.filter (·.conversationId = conversationId)).map (fun am =>
    ⟨.assistant,am.id,am.uuid,am.contentEnc,some am.status,am.createdAt,none,none⟩) ++
  (t.toolCalls.rows.filter (·.conversationId = conversationId)).map (fun tc =>
    ⟨.toolCall,tc.id,tc.uuid,tc.argumentsEnc,some .completed,
      tc.createdAt,some tc.uuid,some tc.name⟩) ++
  (t.toolOutputs.rows.filter (·.conversationId = conversationId)).flatMap (fun tto =>
    (t.toolCalls.rows.filter (·.id = tto.toolCallFk)).map fun tc =>
      ⟨.toolOutput,tto.id,tto.uuid,some tto.outputEnc,some .completed,
        tto.createdAt,some tc.uuid,some tc.name⟩) ++
  (t.reasoningItems.rows.filter (·.conversationId = conversationId)).map (fun ri =>
    ⟨.reasoning,ri.id,ri.uuid,ri.contentEnc,some ri.status,ri.createdAt,none,none⟩)

def RawThreadMessage.follows (order : Text) (cm cursor : RawThreadMessage) : Bool :=
  followsCursor order cm.place cursor.place

/-- The rows a query selects: all of them, or the join with the rows whose uuid is the cursor. -/
def selectMessages (messages : List RawThreadMessage) (after : Option Uuid) (order : Text) :
    List RawThreadMessage :=
  match after with
  | none => messages
  | some afterUuid =>
    let cursorMessages := messages.filter (·.uuid = afterUuid)
    messages.flatMap fun cm => (cursorMessages.filter (cm.follows order)).map fun _ => cm

def orderMessages (db : OrderBy RawThreadMessage) (order : Text)
    (messages : List RawThreadMessage) :
    List RawThreadMessage :=
  orderRows db RawThreadMessage.place order messages

def getConversationContext (db : OrderBy RawThreadMessage) (t : ItemTables)
    (conversationId limit : Int) (after : Option Uuid) (order : Text) : List RawThreadMessage :=
  (orderMessages db order (selectMessages (conversationMessages t conversationId) after order)).take
    limit.toNat

inductive ConversationContent where
  | text (text : Text)
  | inputText (text : Text)
  | outputText (text : Text)
  | inputImage (imageUrl : Text)
  | inputFile (filename : Text)

def conversationContentFrom : MessageContent → List ConversationContent
  | .text text => [.inputText text]
  | .parts parts => parts.filterMap fun
    | .text text | .inputText text => some (.inputText text)
    | .inputImage imageUrl _ _ => imageUrl.map .inputImage
    | .inputFile filename _ => some (.inputFile filename)

inductive ConversationItem where
  | message (id : Uuid) (status : Option ItemStatus) (role : Text)
      (content : List ConversationContent)
      (createdAt : Option Int)
  | functionToolCall (id callId : Uuid) (name arguments : Text)
      (status : Option ItemStatus) (createdAt : Option Int)
  | functionToolCallOutput (id callId : Uuid) (output : Text)
      (status : Option ItemStatus) (createdAt : Option Int)
  | reasoning (id : Uuid) (content : List Text) (status : Option ItemStatus)
      (createdAt : Option Int)

def ConversationItem.id : ConversationItem → Uuid
  | .message id _ _ _ _ | .functionToolCall id _ _ _ _ _ | .functionToolCallOutput id _ _ _ _
  | .reasoning id _ _ _ => id

namespace ConversationItemConverter

def userMessageToItem (R : Runtime) (msg : RawThreadMessage) (content : Text) :
    Except ApiError ConversationItem :=
  match R.parseMessageContent content with
  | none => .error .internalServerError
  | some messageContent => .ok (.message msg.uuid msg.status roleUser
      (conversationContentFrom messageContent) (some (timestamp msg.createdAt)))

def assistantMessageToItem (msg : RawThreadMessage) (content : Text) :
    Except ApiError ConversationItem :=
  let contentParts := if content = [] then [] else [.outputText content]
  .ok (.message msg.uuid msg.status roleAssistant contentParts (some (timestamp msg.createdAt)))

def defaultToolFunctionName : Text := "function"

def toolCallToItem (msg : RawThreadMessage) (content : Text) : Except ApiError ConversationItem :=
  match msg.toolCallId with
  | none => .error .internalServerError
  | some callId =>
    .ok (.functionToolCall msg.uuid callId (msg.toolName.getD defaultToolFunctionName) content
      msg.status (some (timestamp msg.createdAt)))

def toolOutputToItem (msg : RawThreadMessage) (content : Text) : Except ApiError ConversationItem :=
  match msg.toolCallId with
  | none => .error .internalServerError
  | some callId =>
    .ok (.functionToolCallOutput msg.uuid callId content msg.status
      (some (timestamp msg.createdAt)))

def reasoningToItem (msg : RawThreadMessage) (content : Text) : Except ApiError ConversationItem :=
  let contentItems := if content = [] then [] else [content]
  .ok (.reasoning msg.uuid contentItems msg.status (some (timestamp msg.createdAt)))

/-- Content that is not there yet reads as empty. -/
def decryptStringOrDefault (R : Runtime) : Option Bytes → Except ApiError Text
  | none => .ok []
  | some encrypted => decryptText R encrypted

def messageToItem (R : Runtime) (msg : RawThreadMessage) : Except ApiError ConversationItem := do
  let content ← decryptStringOrDefault R msg.contentEnc
  match msg.messageType with
  | .user => userMessageToItem R msg content
  | .assistant => assistantMessageToItem msg content
  | .toolCall => toolCallToItem msg content
  | .toolOutput => toolOutputToItem msg content
  | .reasoning => reasoningToItem msg content

def messagesToItems (R : Runtime) (rawMessages : List RawThreadMessage) (startIndex limit : Nat) :
    Except ApiError (List ConversationItem) :=
  ((rawMessages.drop startIndex).take limit).mapM (messageToItem R)

end ConversationItemConverter

structure ListItemsParams where
  limit : Int
  after : Option Uuid
  order : Text

abbrev ConversationItemListResponse := Page Uuid ConversationItem

def listConversationItems (db : OrderBy RawThreadMessage) (R : Runtime) (t : ItemTables)
    (conversationId : Int) (params : ListItemsParams) :
    Except ApiError ConversationItemListResponse := do
  let limit := paginationLimit params.limit
  let rawMessages :=
    getConversationContext db t conversationId (limit + 1) params.after params.order
  let (hasMore,messagesToReturn) := withinLimit limit rawMessages
  let items ← ConversationItemConverter.messagesToItems R messagesToReturn 0 messagesToReturn.length
  let (firstId,lastId) := Paginator.getCursorIds items ConversationItem.id
  return ⟨items,hasMore,firstId,lastId⟩

end OpenSecret.Conversations
