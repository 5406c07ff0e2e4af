import OpenSecret.Credentials.Tokens
import OpenSecret.Foundation.Json
import OpenSecret.Foundation.Truncation

/-!
What a prompt is made of: the stored rows of a conversation, the content of user
messages, and the per-model settings the context builder reads. Tokenizer, JSON
reader and printer belong to libraries and are fields of the runtime. Columns
the context builder does not read are left out.
-/
namespace OpenSecret
open Framing Truncation

def roleUser : Text := "user"
def roleAssistant : Text := "assistant"
def roleSystem : Text := "system"
def roleTool : Text := "tool"

inductive MessageType where
  | user
  | assistant
  | toolCall
  | toolOutput
  | reasoning
  deriving DecidableEq, Repr

structure RawThreadMessage where
  messageType : MessageType
  id : Int
  contentEnc : Option Bytes
  tokenCount : Option Int32
  toolCallId : Option Uuid
  toolName : Option Text
  deriving DecidableEq

structure RawThreadMessageMetadata where
  messageType : MessageType
  id : Int
  tokenCount : Option Int32
  deriving DecidableEq

def RawThreadMessage.key (r : RawThreadMessage) : MessageType × Int := (r.messageType,r.id)

def RawThreadMessage.metadata (r : RawThreadMessage) : RawThreadMessageMetadata :=
  ⟨r.messageType,r.id,r.tokenCount⟩

structure StoredInstruction where
  promptEnc : Bytes
  promptTokens : Int32

/-- The rows of a conversation in chronological order; serial ids are unique
    within each of the five tables the rows come from. -/
structure Conversation where
  rows : List RawThreadMessage
  keys : (rows.map RawThreadMessage.key).Nodup
  projectInstruction : Option StoredInstruction
  defaultInstruction : Option StoredInstruction

namespace Conversation

def contextWindowRows : Nat := 1000

def window (c : Conversation) :
    List RawThreadMessage := c.rows.drop (c.rows.length - contextWindowRows)

def getConversationContextMetadata (c : Conversation) : List RawThreadMessageMetadata :=
  c.window.map RawThreadMessage.metadata

def getMessagesByIds (c : Conversation) (ids : List (MessageType × Int)) : List RawThreadMessage :=
  c.rows.filter fun r => r.key ∈ ids

end Conversation

inductive MessageContentPart where
  | text (text : Text)
  | inputText (text : Text)
  | inputImage (imageUrl fileId detail : Option Text)
  | inputFile (filename fileData : Text)
  deriving DecidableEq

inductive MessageContent where
  | text (text : Text)
  | parts (parts : List MessageContentPart)
  deriving DecidableEq

/-- `newUuid` is the id drawn while a row without a call id is decoded. -/
structure Runtime where
  primitives : Primitives
  userKey : AeadKey
  countTokens : Text → Nat
  fromUtf8Lossy : Bytes → Text
  parseJson : Text → Option Json
  printJson : Json → Text
  parseMessageContent : Text → Option MessageContent
  newUuid : RawThreadMessage → Uuid

namespace MessageContentConverter

def validateContent (content : MessageContent) : Except ApiError Unit :=
  match content with
  | .text _ => .ok ()
  | .parts parts =>
    if parts.any fun
        | .inputImage imageUrl fileId _ => fileId.isSome || imageUrl.isNone
        | _ => false
    then .error .badRequest else .ok ()

def normalizeContent : MessageContent → MessageContent
  | .text text => .parts [.inputText text]
  | .parts parts => .parts parts

def contentPartToOpenai : MessageContentPart → Json
  | .text text => .obj [("type".toList,.str "text".toList),("text".toList,.str text)]
  | .inputText text => .obj [("type".toList,.str "text".toList),("text".toList,.str text)]
  | .inputImage imageUrl _ detail =>
    let url : List (Text × Json) := [("url".toList,.str (imageUrl.getD []))]
    let image := match detail with
      | some d => url ++ [("detail".toList,.str d)]
      | none => url
    .obj [("type".toList,.str "image_url".toList),("image_url".toList,.obj image)]
  | .inputFile filename fileData => .obj [("type".toList,.str "file".toList),
      ("file".toList,.obj [("filename".toList,.str filename),("file_data".toList,.str fileData)])]

def toOpenaiFormat : MessageContent → Json
  | .text text => .str text
  | .parts parts => .arr (parts.map contentPartToOpenai)

def inputImageTokenEstimate : Nat := 1024

def usizeSaturatingAdd (a b : Nat) : Nat := min (a + b) (2 ^ 64 - 1)

def estimateContentPartTokens (R : Runtime) : MessageContentPart → Nat
  | .text text => R.countTokens text
  | .inputText text => R.countTokens text
  | .inputImage _ _ _ => inputImageTokenEstimate
  | .inputFile filename _ => R.countTokens filename

def estimatePromptTokens (R : Runtime) : MessageContent → Nat
  | .text text => R.countTokens text
  | .parts parts =>
    parts.foldl (fun total part => usizeSaturatingAdd total (estimateContentPartTokens R part)) 0

end MessageContentConverter

structure ModelConfigEntry where
  id : Text
  contextWindow : Nat

def modelConfigs : List ModelConfigEntry :=
  [⟨"gpt-oss-120b",128000⟩,⟨"gemma4-31b",256000⟩,⟨"kimi-k3",256000⟩,
    ⟨"kimi-k2-6",256000⟩,⟨"glm-5-2",384000⟩,⟨"deepseek-v4-flash",800000⟩,
    ⟨"llama3-3-70b",128000⟩,⟨"gpt-oss-safeguard-120b",131000⟩]

def defaultContextWindow : Nat := 64000

def aliasTarget (model : Text) : Option Text :=
  if model = "auto:quick" then some "gpt-oss-120b".toList
  else if model = "auto:powerful" then some "kimi-k2-6".toList
  else none

/-- An exact id first, then the first id the name starts with. -/
def modelContextWindow (model : Text) : Nat :=
  let canonical := (aliasTarget model).getD model
  let entry := (modelConfigs.find? (·.id = canonical)).or
    (modelConfigs.find? fun entry => Text.startsWith canonical entry.id)
  (entry.map ModelConfigEntry.contextWindow).getD defaultContextWindow

def modelSupportsReasoningHistory (model : Text) : Bool :=
  let canonical := (aliasTarget model).getD model
  let lowered := Text.toAsciiLowercase canonical
  let normalized := ((Text.stripPrefix lowered "openai/".toList).or
    (Text.stripPrefix lowered "tinfoil/".toList)).getD lowered
  normalized ∈ ["kimi-k2-6".toList,"kimi-k2.6".toList,"kimi-k3".toList,"glm-5-2".toList,
    "glm-5.2".toList]

def modelUsesKimiToolCallIds (model : Text) : Bool :=
  Text.contains (Text.toAsciiLowercase model) "kimi"

def promptTokenBudget (model : Text) : Nat := modelContextWindow model - (4096 + 500)

end OpenSecret
