import OpenSecret.Conversations.Store

/-!
Phase 3 of a responses request: the response row and the user message row are
written by two database calls, one after the other and in no transaction. The
uuid of the message can be chosen by the client. Each call has a fate, as in the
storage task. Sampling settings are kept as the bits of their floats.
-/
namespace OpenSecret.Intake
open Framing Responses Conversations

structure Sampling where
  temperature : UInt32
  topP : UInt32

structure ResponsesCreateRequest where
  model : Text
  temperature : Option UInt32
  topP : Option UInt32
  maxOutputTokens : Option Int32
  toolChoice : Option Text
  parallelToolCalls : Bool
  store : Bool
  metadata : Option Json

structure PreparedRequest where
  contentEnc : Bytes
  userMessageTokens : Int32

structure NewResponse where
  uuid : Uuid
  userId : Uuid
  conversationId : Int
  status : ResponseStatus
  model : Text
  temperature : Option UInt32
  topP : Option UInt32
  maxOutputTokens : Option Int32
  toolChoice : Option Text
  parallelToolCalls : Bool
  store : Bool
  metadataEnc : Option Bytes

structure StoredResponse extends NewResponse where
  id : Int

structure NewUserMessage where
  uuid : Uuid
  conversationId : Int
  responseId : Option Int
  userId : Uuid
  contentEnc : Bytes
  promptTokens : Int32

structure StoredUserMessage extends NewUserMessage where
  id : Int
  createdAt : Int

structure RequestTables where
  users : List Uuid
  conversations : List Int
  responses : List StoredResponse
  userMessages : List StoredUserMessage
  responseSerial : Int
  userMessageSerial : Int

/-- Uuids are unique, and the user and the conversation exist. -/
def RequestTables.createResponse (new : NewResponse) (t : RequestTables) :
    Except ResponsesError (StoredResponse × RequestTables) :=
  if t.responses.any (·.uuid = new.uuid) ∨ new.userId ∉ t.users ∨
    new.conversationId ∉ t.conversations then
    .error .databaseError
  else
    let stored : StoredResponse := ⟨new,t.responseSerial⟩
    .ok (stored,{ t with responses := t.responses ++ [stored], responseSerial :=
      t.responseSerial + 1 })

def RequestTables.createUserMessage (now : Int) (new : NewUserMessage) (t : RequestTables) :
    Except ResponsesError (StoredUserMessage × RequestTables) :=
  if t.userMessages.any (·.uuid = new.uuid) ∨ new.userId ∉ t.users ∨
    new.conversationId ∉ t.conversations ∨
      new.responseId.any fun id => !t.responses.any (·.id = id) then
    .error .databaseError
  else
    let stored : StoredUserMessage := ⟨new,t.userMessageSerial,now⟩
    .ok (stored,{ t with
      userMessages := t.userMessages ++ [stored], userMessageSerial := t.userMessageSerial + 1 })

structure IntakeEnv where
  runtime : Runtime
  fromSlice : Bytes → Option Json
  parseUuid : Text → Option Uuid
  resolveResponsesSampling : ResponsesCreateRequest → Sampling
  newMessageUuid : Uuid
  newResponseUuid : Uuid
  nonce : Nonce
  now : Int
  responseFate : CallFate
  messageFate : CallFate

structure PersistedData where
  response : StoredResponse
  decryptedMetadata : Option Json
  userMessageCreatedAt : Int

abbrev Persisting (α : Type) := RequestTables → Except (Fault ApiError) α × RequestTables

def internalMessageId : Text := "internal_message_id"

/-- A client may name the message; what is not a uuid is replaced by a new one. -/
def messageUuid (env : IntakeEnv) (metadata : Option Json) : Uuid :=
  match metadata.bind (·.text internalMessageId) with
  | some idStr => (env.parseUuid idStr).getD env.newMessageUuid
  | none => env.newMessageUuid

/-- A failed encryption panics. -/
def encryptMetadata (env : IntakeEnv) : Option Json → Except (Fault ApiError) (Option Bytes)
  | none => .ok none
  | some metadata =>
    match encryptWithKey env.runtime.primitives env.runtime.userKey
      env.nonce (utf8 (env.runtime.printJson metadata)) with
    | .ok sealed => .ok (some sealed)
    | .error _ => .error .panicked

def internalError : Fault ApiError := .error .internalServerError

/-- One database call; every error of the database becomes an internal server error. -/
def call {α : Type} (fate : CallFate)
    (statement : RequestTables → Except ResponsesError (α × RequestTables)) :
    Persisting α := fun t =>
  match fate, statement t with
  | .refused, _ => (.error internalError,t)
  | _, .error _ => (.error internalError,t)
  | .answered, .ok (a,t') => (.ok a,t')
  | .unreported, .ok (_,t') => (.error internalError,t')

section
variable (env : IntakeEnv) (user : Uuid) (body : ResponsesCreateRequest)
  (prepared : PreparedRequest)
  (conversation : Int)

def newResponse (metadataEnc : Option Bytes) : NewResponse where
  uuid := env.newResponseUuid
  userId := user
  conversationId := conversation
  status := .inProgress
  model := body.model
  temperature := some (env.resolveResponsesSampling body).temperature
  topP := some (env.resolveResponsesSampling body).topP
  maxOutputTokens := body.maxOutputTokens
  toolChoice := body.toolChoice
  parallelToolCalls := body.parallelToolCalls
  store := body.store
  metadataEnc := metadataEnc

def newUserMessage (responseId : Int) : NewUserMessage where
  uuid := messageUuid env body.metadata
  conversationId := conversation
  responseId := some responseId
  userId := user
  contentEnc := prepared.contentEnc
  promptTokens := prepared.userMessageTokens

def persistRequestData : Persisting PersistedData := fun t =>
  match encryptMetadata env body.metadata with
  | .error e => (.error e,t)
  | .ok metadataEnc =>
    match call env.responseFate
      (RequestTables.createResponse (newResponse env user body conversation metadataEnc)) t with
    | (.error e,t) => (.error e,t)
    | (.ok response,t) =>
      match call env.messageFate (RequestTables.createUserMessage env.now
          (newUserMessage env user body prepared conversation response.id)) t with
      | (.error e,t) => (.error e,t)
      | (.ok userMessage,t) =>
        match decryptContent env.runtime env.fromSlice response.metadataEnc with
        | .error e => (.error (.error e),t)
        | .ok decryptedMetadata => (.ok ⟨response,decryptedMetadata,userMessage.createdAt⟩,t)

end

def AllOrNothing (env : IntakeEnv) (user : Uuid) (body : ResponsesCreateRequest)
    (prepared : PreparedRequest) (conversation : Int) (t : RequestTables) : Prop :=
  ∀ e, (persistRequestData env user body prepared conversation t).1 = .error (.error e) →
    (persistRequestData env user body prepared conversation t).2.responses = t.responses ∧
    (persistRequestData env user body prepared conversation t).2.userMessages = t.userMessages

section
variable {env : IntakeEnv} {user : Uuid} {body : ResponsesCreateRequest}
  {prepared : PreparedRequest}
  {conversation : Int} {t : RequestTables}

def Accepted (env : IntakeEnv) (user : Uuid) (conversation : Int) (t : RequestTables) : Prop :=
  (∀ r ∈ t.responses, r.uuid ≠ env.newResponseUuid) ∧ user ∈ t.users ∧
    conversation ∈ t.conversations

/-- Nothing fails once the response row is written: the call that wrote it was
    answered, the message has an unused uuid and its call is answered too, and
    the metadata just stored can be read back. -/
structure Unbroken (env : IntakeEnv) (body : ResponsesCreateRequest)
    (t : RequestTables) : Prop where
  responseFate : env.responseFate = .answered
  messageFate : env.messageFate = .answered
  unused : ∀ m ∈ t.userMessages, m.uuid ≠ messageUuid env body.metadata
  readable : ∀ metadataEnc, encryptMetadata env body.metadata = .ok metadataEnc →
    ∃ metadata, decryptContent env.runtime env.fromSlice metadataEnc = .ok metadata

theorem createResponse_ok (metadataEnc : Option Bytes)
    (accepted : Accepted env user conversation t) :
    t.createResponse (newResponse env user body conversation metadataEnc) =
      .ok (⟨newResponse env user body conversation metadataEnc,t.responseSerial⟩,{ t with
        responses :=
          t.responses ++ [⟨newResponse env user body conversation metadataEnc,t.responseSerial⟩]
        responseSerial := t.responseSerial + 1 }) := by
  obtain ⟨fresh,known,stored⟩ := accepted
  refine if_neg ?_
  rintro (taken | unknown | absent)
  · obtain ⟨r,mem,same⟩ := List.any_eq_true.mp taken
    exact fresh r mem (of_decide_eq_true same)
  · exact unknown known
  · exact absent stored

theorem createResponse_error (metadataEnc : Option Bytes)
    (rejected : ¬ Accepted env user conversation t) :
    t.createResponse (newResponse env user body conversation metadataEnc) =
      .error .databaseError := by
  refine if_pos (by_contra fun free => rejected ?_)
  simp only [not_or, not_not] at free
  obtain ⟨fresh,known,stored⟩ := free
  refine ⟨fun r mem same => fresh (List.any_eq_true.mpr ⟨r,mem,?_⟩),known,stored⟩
  exact decide_eq_true same

/-- Beside the response it belongs to, only its uuid can keep a message out. -/
theorem createUserMessage_after {new : NewResponse} {serial next : Int}
    (accepted : Accepted env user conversation t) :
    RequestTables.createUserMessage env.now
      (newUserMessage env user body prepared conversation serial)
      { t with responses := t.responses ++ [⟨new,serial⟩], responseSerial := next } =
      if ∀ m ∈ t.userMessages, m.uuid ≠ messageUuid env body.metadata then
        .ok (⟨newUserMessage env user body prepared conversation serial,
          t.userMessageSerial,env.now⟩,{ t with
          responses := t.responses ++ [⟨new,serial⟩]
          responseSerial := next
          userMessages := t.userMessages ++
            [⟨newUserMessage env user body prepared conversation serial,
              t.userMessageSerial,env.now⟩]
          userMessageSerial := t.userMessageSerial + 1 })
      else .error .databaseError := by
  obtain ⟨-,known,found⟩ := accepted
  unfold RequestTables.createUserMessage
  by_cases unused : ∀ m ∈ t.userMessages, m.uuid ≠ messageUuid env body.metadata
  · rw [if_pos unused]
    refine if_neg ?_
    rintro (taken | unknown | absent | orphan)
    · obtain ⟨m,mem,same⟩ := List.any_eq_true.mp taken
      exact unused m mem (of_decide_eq_true same)
    · exact unknown known
    · exact absent found
    · simp [newUserMessage] at orphan
  · rw [if_neg unused]
    obtain ⟨m,mem,same⟩ : ∃ m ∈ t.userMessages, m.uuid = messageUuid env body.metadata := by
      simpa using unused
    exact if_pos (.inl (List.any_eq_true.mpr ⟨m,mem,decide_eq_true same⟩))

def Started (env : IntakeEnv) (user : Uuid) (body : ResponsesCreateRequest) (conversation : Int)
    (t : RequestTables) : Prop :=
  (∃ metadataEnc, encryptMetadata env body.metadata = .ok metadataEnc) ∧
    Accepted env user conversation t ∧
    env.responseFate ≠ .refused

theorem persist_not_started (stopped : ¬ Started env user body conversation t) :
    (persistRequestData env user body prepared conversation t).2 = t := by
  unfold persistRequestData
  cases sealed : encryptMetadata env body.metadata with
  | error e => rfl
  | ok metadataEnc =>
    by_cases accepted : Accepted env user conversation t
    · have refused : env.responseFate = .refused := by
        by_contra answered
        exact stopped ⟨⟨metadataEnc,sealed⟩,accepted,answered⟩
      simp only [call, refused]
    · simp only [call, createResponse_error metadataEnc accepted]
      cases env.responseFate <;> rfl

theorem decryptContent_error {R : Runtime} {fromSlice : Bytes → Option Json}
    {encrypted : Option Bytes} {e : ApiError}
    (failed : decryptContent R fromSlice encrypted = .error e) : e = .internalServerError := by
  unfold decryptContent at failed
  split at failed
  · cases failed
  · split at failed
    · cases failed; rfl
    · split at failed
      · cases failed; rfl
      · cases failed

variable (prepared) in
theorem persist_started (started : Started env user body conversation t) :
    (persistRequestData env user body prepared conversation t).2.responses ≠ t.responses ∧
    ((∃ data, (persistRequestData env user body prepared conversation t).1 = .ok data) ∧
      Unbroken env body t ∨
      (persistRequestData env user body prepared conversation t).1 = .error internalError ∧
        ¬ Unbroken env body t) := by
  obtain ⟨⟨metadataEnc,sealed⟩,accepted,answered⟩ := started
  have longer : ∀ r : StoredResponse, t.responses ++ [r] ≠ t.responses := fun r => by simp
  unfold persistRequestData
  simp only [sealed, call, createResponse_ok metadataEnc accepted]
  cases responseFate : env.responseFate with
  | refused => exact absurd responseFate answered
  | unreported =>
    refine ⟨longer _,.inr ⟨rfl,fun unbroken => ?_⟩⟩
    cases responseFate.symm.trans unbroken.responseFate
  | answered =>
    simp only [createUserMessage_after accepted]
    cases messageFate : env.messageFate with
    | refused =>
      refine ⟨longer _,.inr ⟨rfl,fun unbroken => ?_⟩⟩
      cases messageFate.symm.trans unbroken.messageFate
    | unreported =>
      have broken : ¬ Unbroken env body t := fun unbroken => by
        cases messageFate.symm.trans unbroken.messageFate
      by_cases unused : ∀ m ∈ t.userMessages, m.uuid ≠ messageUuid env body.metadata
      · simp only [if_pos unused]
        exact ⟨longer _,.inr ⟨trivial,broken⟩⟩
      · simp only [if_neg unused]
        exact ⟨longer _,.inr ⟨trivial,broken⟩⟩
    | answered =>
      by_cases unused : ∀ m ∈ t.userMessages, m.uuid ≠ messageUuid env body.metadata
      · simp only [if_pos unused, newResponse]
        cases read : decryptContent env.runtime env.fromSlice metadataEnc with
        | error e =>
          refine ⟨longer _,.inr ⟨by rw [decryptContent_error read]; rfl,fun unbroken => ?_⟩⟩
          obtain ⟨metadata,readable⟩ := unbroken.readable metadataEnc sealed
          cases read.symm.trans readable
        | ok metadata =>
          refine ⟨longer _,.inl ⟨⟨_,rfl⟩,⟨responseFate,messageFate,unused,?_⟩⟩⟩
          intro other same
          cases sealed.symm.trans same
          exact ⟨metadata,read⟩
      · simp only [if_neg unused]
        exact ⟨longer _,.inr ⟨trivial,fun unbroken => unused unbroken.unused⟩⟩

end

/-- A failed request leaves no row behind exactly when nothing fails after the
    response row was written. -/
theorem persisted_all_or_nothing_iff (env : IntakeEnv) (user : Uuid) (body : ResponsesCreateRequest)
    (prepared : PreparedRequest) (conversation : Int) (t : RequestTables) :
    AllOrNothing env user body prepared conversation t ↔
      (Started env user body conversation t → Unbroken env body t) := by
  constructor
  · intro whole started
    obtain ⟨added,⟨-,unbroken⟩ | ⟨failed,-⟩⟩ := persist_started prepared started
    · exact unbroken
    · exact absurd (whole _ failed).1 added
  · intro unbroken e failed
    by_cases started : Started env user body conversation t
    · obtain ⟨-,⟨⟨data,done⟩,-⟩ | ⟨-,broken⟩⟩ := persist_started prepared started
      · cases done.symm.trans failed
      · exact absurd (unbroken started) broken
    · rw [persist_not_started started]
      exact ⟨rfl,rfl⟩

def plainIntake : IntakeEnv where
  runtime := openRuntime
  fromSlice _ := some (.obj [])
  parseUuid _ := some (numberedId 1)
  resolveResponsesSampling _ := ⟨0,0⟩
  newMessageUuid := numberedId 2
  newResponseUuid := numberedId 3
  nonce := ⟨List.replicate 12 0,rfl⟩
  now := 5
  responseFate := .answered
  messageFate := .answered

def namingRequest : ResponsesCreateRequest :=
  ⟨[],none,none,none,none,false,true,some (.obj [(internalMessageId,.str "id")])⟩

def oneUser (messages : List StoredUserMessage) :
    RequestTables := ⟨[numberedId 9],[7],[],messages,1,1⟩

def earlierMessage : StoredUserMessage := ⟨⟨numberedId 1,7,none,numberedId 9,[],0⟩,0,4⟩

/-- A client that names a message it has named before gets an error, and a
    response in progress stays behind. -/
theorem reused_message_id_strands_response :
    ¬ AllOrNothing plainIntake (numberedId 9) namingRequest ⟨[],0⟩ 7 (oneUser [earlierMessage]) ∧
    (persistRequestData plainIntake (numberedId 9) namingRequest
      ⟨[],0⟩ 7 (oneUser [earlierMessage])).2.responses.map
      (·.status) = [.inProgress] := by
  refine ⟨fun whole => ?_,rfl⟩
  have unchanged := (whole .internalServerError rfl).1
  cases congrArg List.length unchanged

theorem named_message_persisted :
    AllOrNothing plainIntake (numberedId 9) namingRequest ⟨[],0⟩ 7 (oneUser []) :=
  (persisted_all_or_nothing_iff plainIntake (numberedId 9) namingRequest ⟨[],0⟩ 7 (oneUser [])).mpr
    fun _ => ⟨rfl,rfl,nofun,fun _ sealed => by cases sealed; exact ⟨_,rfl⟩⟩

end OpenSecret.Intake
