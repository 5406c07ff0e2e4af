import OpenSecret.Prompt.Messages

/-!
What travels between the tasks that serve one response: chunks from the model
provider to the orchestrator, storage messages from the orchestrator to the
storage task and to the client stream.
-/
namespace OpenSecret.Responses
open Framing

def numberedId (n : Nat) : Uuid := ⟨bigEndian 16 n,bigEndian_length 16 n⟩

structure CompletionUsage where
  promptTokens : Int32
  completionTokens : Int32
  cachedPromptTokens : Option Int32
  deriving DecidableEq

inductive CompletionChunk where
  | streamChunk (json : Json)
  | fullResponse (json : Json)
  | usage (usage : CompletionUsage)
  | done
  | error (message : Text)

inductive StorageMessage where
  | messageStarted (itemId : Uuid)
  | contentDelta (itemId : Uuid) (delta : Text)
  | messageDone (itemId : Uuid) (finishReason : Text)
  | reasoningStarted (itemId : Uuid)
  | reasoningDelta (itemId : Uuid) (delta : Text)
  | reasoningDone (itemId : Uuid)
  | usage (promptTokens completionTokens : Int32)
  | responseDone (finishReason : Text)
  | error (message : Text)
  | cancelled
  | toolCall (toolCallId : Uuid) (name : Text) (arguments : Json)
  | toolOutput (toolOutputId toolCallId : Uuid) (output : Text)

/-- The messages on which the storage task returns and the client stream breaks. -/
def StorageMessage.isTerminal : StorageMessage → Bool
  | .responseDone _ | .error _ | .cancelled => true
  | _ => false

def StorageMessage.isTool : StorageMessage → Bool
  | .toolCall _ _ _ | .toolOutput _ _ _ => true
  | _ => false

structure ModelToolCall where
  name : Text
  arguments : Json

structure StreamedToolCall where
  name : Option Text := none
  arguments : Text := []

inductive WebSearchProvider where
  | brave
  | kagi
  deriving DecidableEq, Repr

/-- What the orchestrator sees of an acknowledgement: its result, a dropped
    sender, or five seconds without one. -/
inductive AckWait where
  | received (persisted : Bool)
  | dropped
  | timedOut
  deriving DecidableEq, Repr

def ApiError.debug : ApiError → Text
  | .invalidUsernameOrPassword => "InvalidUsernameOrPassword"
  | .invalidJwt => "InvalidJwt"
  | .internalServerError => "InternalServerError"
  | .serviceUnavailable => "ServiceUnavailable"
  | .badRequest => "BadRequest"
  | .conflict => "Conflict"
  | .encryptionError => "EncryptionError"
  | .unauthorized => "Unauthorized"
  | .invalidInviteCode => "InvalidInviteCode"
  | .refreshFailed => "RefreshFailed"
  | .userAlreadyVerified => "UserAlreadyVerified"
  | .noEmailFound => "NoEmailFound"
  | .userExistsNotLinked => "UserExistsNotLinked"
  | .userNotFound => "UserNotFound"
  | .emailAlreadyExists => "EmailAlreadyExists"
  | .usageLimitReached => "UsageLimitReached"
  | .freeTokenLimitExceeded => "FreeTokenLimitExceeded"
  | .modelNotAvailableOnPlan => "ModelNotAvailableOnPlan"
  | .messageExceedsContextLimit => "MessageExceedsContextLimit"
  | .notFound => "NotFound"
  | .unprocessableEntity => "UnprocessableEntity"
  | .payloadTooLarge => "PayloadTooLarge"
  | .tooManyRequests => "TooManyRequests"

end OpenSecret.Responses
