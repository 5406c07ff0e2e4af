import OpenSecret.Prompt.Decoding
import OpenSecret.Prompt.Fitting
import OpenSecret.Prompt.Selection

/-!
The token total of a request: the stored history is built with the new message as
reserve, and the new message is added. Key retrieval, encryption and storage of
the new message do not enter the total and are left out. Tokens of a text in
memory are far fewer than a machine word can count.
-/
namespace OpenSecret
open Framing Truncation List

structure MessageInput where
  role : Text
  content : MessageContent

inductive InputMessage where
  | string (text : Text)
  | messages (inputs : List MessageInput)

def InputMessage.normalize : InputMessage → Except ApiError (List MessageInput)
  | .string text => .ok [⟨roleUser,.parts [.inputText text]⟩]
  | .messages inputs => inputs.mapM fun msg =>
      (MessageContentConverter.validateContent msg.content).map fun _ =>
        { msg with content := MessageContentConverter.normalizeContent msg.content }

def hasInputFile : MessageContent → Bool
  | .text _ => false
  | .parts parts => parts.any fun
      | .inputFile _ _ => true
      | _ => false

structure PreparedRequest where
  messageContent : MessageContent
  userMessageTokens : Int32
  deriving DecidableEq

structure ChatBillingAccess where
  canUse : Bool
  isFree : Bool

def ChatBillingAccess.checkWithTokens (access : ChatBillingAccess) (inputTokens : Int32) :
    Except ApiError Unit :=
  if !access.canUse then .error .usageLimitReached
  else if access.isFree && inputTokens > 20000 then .error .freeTokenLimitExceeded
  else .ok ()

/-- Requests without a billing answer pass. -/
def checkBilling (billingAccess : Option ChatBillingAccess) (totalPromptTokens : Nat) :
    Except ApiError Unit :=
  match billingAccess with
  | some access => access.checkWithTokens (Int32.ofNat totalPromptTokens)
  | none => .ok ()

def clampTokens (tokenCount : Nat) : Int32 :=
  if tokenCount > 2 ^ 31 - 1 then Int32.maxValue else Int32.ofNat tokenCount

section
variable (R : Runtime)

def prepareMessage (model : Text) (content : MessageContent) : Except ApiError PreparedRequest :=
  let userMessageTokens := clampTokens (MessageContentConverter.estimatePromptTokens R content)
  if asUsize userMessageTokens ≥ promptTokenBudget model then .error .messageExceedsContextLimit
  else .ok ⟨content,userMessageTokens⟩

def validateAndNormalizeInput (model : Text) (input : InputMessage) :
    Except ApiError PreparedRequest := do
  let normalized ← input.normalize
  if normalized.any fun msg => hasInputFile msg.content then .error .badRequest
  else match normalized.head? with
    | none => .error .badRequest
    | some first => prepareMessage R model first.content

def buildContextAndCheckBilling (c : Conversation) (model : Text) (instructions : Option Text)
    (internalSystemPrompt : Text) (prepared : PreparedRequest)
    (billingAccess : Option ChatBillingAccess) :
    Except ApiError (List Json × Nat) := do
  let built ← buildPromptWithTokenReserve R c model instructions (some internalSystemPrompt)
    (asUsize prepared.userMessageTokens)
  let userMessage : Json := .obj [("role",.str roleUser),
    ("content",MessageContentConverter.toOpenaiFormat prepared.messageContent)]
  let totalPromptTokens := usizeAdd built.2 (asUsize prepared.userMessageTokens)
  checkBilling billingAccess totalPromptTokens
  return (built.1 ++ [userMessage],totalPromptTokens)

end

structure Runtime.Bounded (R : Runtime) : Prop where
  text : ∀ text, R.countTokens text < 2 ^ 50
  content : ∀ text content, R.parseMessageContent text = some content →
    MessageContentConverter.estimatePromptTokens R content < 2 ^ 50

def RawThreadMessage.NonNegative (r : RawThreadMessage) : Prop :=
  ∀ t, r.tokenCount = some t → 0 ≤ t.toInt

section
variable {R : Runtime}

theorem asUsize_lt {t : Int32} (nonneg : 0 ≤ t.toInt) : asUsize t < 2 ^ 31 := by
  have high : t.toInt < 2 ^ 31 := t.toInt_lt
  rw [asUsize, Int.emod_eq_of_lt nonneg (by omega)]
  omega

variable {r : RawThreadMessage} {includeReasoning : Bool} {pending next : Option PendingReasoning}

theorem rowTokens_lt (bounded : R.Bounded) (nonneg : r.NonNegative) (content : Text) :
    rowTokens R r content < 2 ^ 50 := by
  unfold rowTokens
  cases counted : r.tokenCount with
  | none => exact bounded.text content
  | some t =>
    have small := asUsize_lt (nonneg t counted)
    simp only [Option.map_some, Option.getD_some]
    omega

theorem userMessagePromptTokenCount_lt (bounded : R.Bounded) (nonneg : r.NonNegative)
    (content : Text) : userMessagePromptTokenCount R content r.tokenCount < 2 ^ 50 := by
  have stored : (storedTokenCount r.tokenCount).getD (R.countTokens content) < 2 ^ 50 := by
    unfold storedTokenCount
    cases counted : r.tokenCount with
    | none => exact bounded.text content
    | some t =>
      have high : t.toInt < 2 ^ 31 := t.toInt_lt
      simp only [Option.bind_some, if_pos (nonneg t counted), Option.getD_some]
      omega
  have estimated : ((R.parseMessageContent content).map
      (MessageContentConverter.estimatePromptTokens R)).getD 0 < 2 ^ 50 := by
    cases parsed : R.parseMessageContent content with
    | none => simp
    | some message => exact bounded.content content message parsed
  unfold userMessagePromptTokenCount
  dsimp only
  split
  · exact Nat.max_lt.mpr ⟨stored,estimated⟩
  · exact stored

theorem decodeReasoning_tokens (bounded : R.Bounded) (nonneg : r.NonNegative)
    (small : pendingTokens pending + 2 ^ 50 < 2 ^ 64)
    (row : decodeReasoning R includeReasoning pending r = .ok next) :
    pendingTokens next ≤ pendingTokens pending + 2 ^ 50 := by
  unfold decodeReasoning at row
  split at row
  · obtain ⟨content,-,rfl⟩ := map_eq_ok.mp row
    have own := rowTokens_lt bounded nonneg content
    unfold collectReasoning
    split
    · omega
    · cases pending with
      | none =>
        simp only [pendingTokens, Option.map_some, Option.getD_some]
        omega
      | some p =>
        simp only [pendingTokens, Option.map_some, Option.getD_some] at small ⊢
        rw [usizeAdd_eq (by omega)]
        omega
  · cases row
    omega

theorem decodeRow_tokens (bounded : R.Bounded) {message : Option ChatMsg} (nonneg : r.NonNegative)
    (small : pendingTokens pending + 2 ^ 50 < 2 ^ 64)
    (row : decodeRow R includeReasoning pending r = .ok (next,message)) :
    pendingTokens next + tokens ChatMsg.tok message.toList ≤ pendingTokens pending + 2 ^ 50 := by
  by_cases visible : r.visible = true
  · obtain ⟨rfl,m,rfl,enc,content,-,-,made⟩ := decodeRow_visible visible row
    have own := rowTokens_lt bounded nonneg content
    have user := userMessagePromptTokenCount_lt bounded nonneg content
    have sum := usizeAdd_eq (a := rowTokens R r content) (b := pendingTokens pending) (by omega)
    have none : pendingTokens none = 0 := rfl
    have tok : m.tok ≤ pendingTokens pending + 2 ^ 50 := by
      unfold messageOf at made
      split at made <;> cases made
      · dsimp only
        omega
      · dsimp only
        omega
      · dsimp only
        omega
      · dsimp only
        omega
    rw [none, Option.toList_some, tokens_cons, tokens_nil]
    omega
  · rw [decodeRow_hidden (Bool.eq_false_iff.mpr visible) row,
      Option.toList_none, tokens_nil, Nat.add_zero]
    unfold decodeRow at row
    split at row
    · obtain ⟨after,reasoning,pair⟩ := map_eq_ok.mp row
      cases pair
      exact decodeReasoning_tokens bounded nonneg small reasoning
    · rename_i shown
      split at row
      · cases row
        exact Nat.zero_le _
      · rename_i enc content
        simp [RawThreadMessage.visible, shown, content] at visible

theorem decodeMessages_tokens (bounded : R.Bounded)
    {rows : List RawThreadMessage} {msgs : List ChatMsg} (nonneg : ∀ r ∈ rows, r.NonNegative)
    (small : pendingTokens pending + rows.length * 2 ^ 50 < 2 ^ 64)
    (decoding : decodeMessages R includeReasoning pending rows = .ok msgs) :
    tokens ChatMsg.tok msgs ≤ pendingTokens pending + rows.length * 2 ^ 50 := by
  induction rows generalizing pending msgs with
  | nil =>
    cases decoding
    exact Nat.zero_le _
  | cons r rest ih =>
    obtain ⟨next,message,later,row,others,rfl⟩ := decodeMessages_cons decoding
    rw [length_cons] at small ⊢
    have first := decodeRow_tokens bounded (nonneg r (by simp)) (by omega) row
    have rest := ih (fun q mem => nonneg q (by simp [mem])) (by omega) others
    rw [tokens_append]
    omega

theorem withTruncationMsg_facts (hasSystem didTruncate : Bool) (msgs : List ChatMsg) :
    (withTruncationMsg R hasSystem didTruncate msgs).getLast? = msgs.getLast? ∧
      tokens ChatMsg.tok (withTruncationMsg R hasSystem didTruncate msgs) ≤
        tokens ChatMsg.tok msgs + R.countTokens truncationText := by
  rcases withTruncationMsg_split R hasSystem didTruncate
    msgs with same | ⟨before,after,-,some_after,rfl,-,cut⟩
  · rw [same]
    exact ⟨rfl,by omega⟩
  · have marker : (truncationMsg R).tok = R.countTokens truncationText := rfl
    rw [cut]
    constructor
    · rw [getLast?_append, getLast?_append, getLast?_cons_of_ne_nil some_after]
    · simp only [tokens_append, tokens_cons, marker]
      omega

end

section
variable {R : Runtime}

theorem promptTokenBudget_lt (model : Text) : promptTokenBudget model < 2 ^ 63 := by
  have window : modelContextWindow model ≤ 800000 := by
    unfold modelContextWindow
    dsimp only
    cases found : (modelConfigs.find? (·.id = (aliasTarget model).getD model)).or
        (modelConfigs.find? fun entry =>
          Text.startsWith ((aliasTarget model).getD model) entry.id) with
    | none => decide
    | some entry =>
      have listed : entry ∈ modelConfigs := by
        rcases Option.or_eq_some_iff.mp found with exact | ⟨-,start⟩
        · exact mem_of_find?_eq_some exact
        · exact mem_of_find?_eq_some start
      have all : ∀ e ∈ modelConfigs, e.contextWindow ≤ 800000 := by decide
      exact all entry listed
  unfold promptTokenBudget
  omega

variable {model : Text} {ctxBudget : Nat} {includeReasoning : Bool} {rows : List RawThreadMessage}
  {decoded : List ChatMsg} {c : Conversation} {override : Option Text} {internal : Text}

theorem validateAndNormalizeInput_tokens {input : InputMessage} {prepared : PreparedRequest}
    (accepted : validateAndNormalizeInput R model input = .ok prepared) :
    asUsize prepared.userMessageTokens < promptTokenBudget model := by
  obtain ⟨normalized,-,accepted⟩ := bind_eq_ok.mp accepted
  split at accepted
  · cases accepted
  · split at accepted
    · cases accepted
    · unfold prepareMessage at accepted
      dsimp only at accepted
      split at accepted
      · cases accepted
      · rename_i fits
        rw [← Except.ok.inj accepted]
        exact Nat.lt_of_not_le fits

def userRowExceeds (R : Runtime) (ctxBudget : Nat) (r : RawThreadMessage) : Bool :=
  match r.contentEnc.map (decryptText R) with
  | some (.ok content) => decide (r.messageType = .user) &&
      decide (ctxBudget < userMessagePromptTokenCount R content r.tokenCount)
  | _ => false

/-- The newest row with content among those the metadata pass selects is a user
    row with more tokens than the reserve leaves. -/
def newestUserMessageExceeds (R : Runtime) (c : Conversation) (model : Text)
    (override internal : Option Text) (tokenReserve : Nat) : Bool :=
  match systemInstruction R c override internal with
  | .error _ => false
  | .ok system =>
    let selected :=
      c.getMessagesByIds (determineNeededMessageIds R c.getConversationContextMetadata model
      ((system.map Prod.snd).getD 0) tokenReserve).1
    (selected.filter RawThreadMessage.visible).getLast?.any
      (userRowExceeds R (promptTokenBudget model - tokenReserve))

theorem userRowExceeds_iff {pending : Option PendingReasoning} {r : RawThreadMessage}
    {m : ChatMsg} (decoded : DecodedRow R pending r m) :
    userRowExceeds R ctxBudget r = true ↔ isUser m = true ∧ ctxBudget < m.tok := by
  rw [decoded.isUser_iff]
  by_cases user : r.messageType = .user
  · obtain ⟨enc,content,stored,decrypted,rfl⟩ := decoded.of_user user
    simp [userRowExceeds, stored, decrypted, user]
  · unfold userRowExceeds
    split <;> simp [user]

theorem decoded_last_iff (decoding : decodeMessages R includeReasoning none rows = .ok decoded) :
    (∃ last, decoded.getLast? = some last ∧ isUser last = true ∧ ctxBudget < last.tok) ↔
      (rows.filter RawThreadMessage.visible).getLast?.any (userRowExceeds R ctxBudget) = true := by
  rcases forall₂_getLast? (decodeMessages_rows decoding) with ⟨noRow,
    noMessage⟩ | ⟨r,m,row,message,pending,made⟩
  · simp [noRow, noMessage]
  · rw [row, message, Option.any_some, userRowExceeds_iff made]
    simp

theorem systemInstruction_internal {system : Option (Text × Nat)}
    (instructed : systemInstruction R c override (some internal) = .ok system) :
    ∃ content, system = some (content,R.countTokens content) := by
  obtain ⟨base,-,rfl⟩ := map_eq_ok.mp instructed
  exact ⟨_,rfl⟩

/-- All tokens of the messages a build fits into its budget: at most a thousand
    rows, the system message and the marker. -/
theorem build_tokens (bounded : R.Bounded) (few : rows.length ≤ 1000)
    (nonneg : ∀ r ∈ rows, r.NonNegative)
    (decoding : decodeMessages R includeReasoning none rows = .ok decoded) (system : Text)
    (didTruncate : Bool) :
    tokens ChatMsg.tok (withTruncationMsg R true didTruncate
      (systemMsg (system,R.countTokens system) :: decoded)) ≤ 1002 * 2 ^ 50 := by
  obtain ⟨-,marked⟩ := withTruncationMsg_facts (R := R) true didTruncate
    (systemMsg (system,R.countTokens system) :: decoded)
  have systemTok : (systemMsg (system,R.countTokens system)).tok = R.countTokens system := rfl
  have systemSmall := bounded.text system
  have markerSmall := bounded.text truncationText
  have none : pendingTokens none = 0 := rfl
  have fromRows := decodeMessages_tokens bounded nonneg (by omega) decoding
  rw [tokens_cons, systemTok] at marked
  omega

theorem buildPrompt_over_iff (bounded : R.Bounded) {tokenReserve total : Nat} {prompt : List Json}
    (nonneg : ∀ r ∈ c.rows, r.NonNegative)
    (built : buildPromptWithTokenReserve R c model override
      (some internal) tokenReserve = .ok (prompt,total)) :
    (promptTokenBudget model - tokenReserve < total ↔
      newestUserMessageExceeds R c model override (some internal) tokenReserve = true) ∧
      total < 2 ^ 63 := by
  obtain ⟨system,decoded,needed,instructed,determined,decoding,built⟩ :=
    buildPromptWithTokenReserve_ok built
  obtain ⟨rendered,-,-,rfl⟩ := buildPrompt_ok built
  have few : (c.getMessagesByIds needed.1).length ≤ 1000 := by
    rw [← determined, selected_rows]
    exact (length_filter_le _ _).trans c.window_length
  obtain ⟨content,rfl⟩ := systemInstruction_internal instructed
  have small :=
    build_tokens bounded few (fun r mem => nonneg r (mem_of_mem_filter mem)) decoding
    content needed.2
  have markerSmall := bounded.text truncationText
  have system : (Option.map systemMsg (some (content,R.countTokens content))).toList ++ decoded =
      systemMsg (content,R.countTokens content) :: decoded := rfl
  rw [system, Option.isSome_some]
  generalize listed :
    withTruncationMsg R true needed.2 (systemMsg (content,R.countTokens content) :: decoded) =
    msgs at small
  have fitted := fitMessages_tokens R (promptTokenBudget model - tokenReserve) msgs
  refine ⟨?_,?_⟩
  · rw [fitMessages_over_iff (by omega), ← listed, (withTruncationMsg_facts _ _ _).1]
    simp only [newestUserMessageExceeds, instructed]
    rw [determined, ← decoded_last_iff decoding]
    cases decoded with
    | nil => simp [isUser, systemMsg, show roleSystem ≠ roleUser by decide]
    | cons m rest => rw [getLast?_cons_cons]
  · rw [totalTokens_eq (by omega)]
    omega

/-- The total is within the budget exactly when the newest stored message that
    is kept is not a user message too large for what the new message leaves. -/
theorem total_within_budget_iff (bounded : R.Bounded) {c : Conversation} {model : Text}
    {input : InputMessage} {prepared : PreparedRequest} {instructions : Option Text}
    {internal : Text} {billingAccess : Option ChatBillingAccess} {prompt : List Json} {total : Nat}
    (nonneg : ∀ r ∈ c.rows, r.NonNegative)
    (accepted : validateAndNormalizeInput R model input = .ok prepared)
    (built : buildContextAndCheckBilling R c model instructions internal prepared billingAccess =
      .ok (prompt,total)) :
    total ≤ promptTokenBudget model ↔
      newestUserMessageExceeds R c model instructions (some internal)
        (asUsize prepared.userMessageTokens) =
        false := by
  have room := validateAndNormalizeInput_tokens accepted
  obtain ⟨history,ofHistory,built⟩ := bind_eq_ok.mp built
  obtain ⟨_,-,pair⟩ := bind_eq_ok.mp built
  cases pair
  obtain ⟨exceeds,small⟩ := buildPrompt_over_iff bounded nonneg ofHistory
  have budget : promptTokenBudget model < 2 ^ 63 := promptTokenBudget_lt model
  rw [usizeAdd_eq (by omega), ← Bool.not_eq_true, ← exceeds]
  omega

end

def budgetRuntime : Runtime :=
  sampleRuntime (fun t => if t = "big" then 20000 else 10) (fun _ => none) fun _ => []

theorem budgetRuntime_bounded : budgetRuntime.Bounded := by
  have text : ∀ t, budgetRuntime.countTokens t < 2 ^ 50 := by
    intro t
    simp only [budgetRuntime, sampleRuntime]
    split <;> decide
  refine ⟨text,fun t content parsed => ?_⟩
  simp only [budgetRuntime, sampleRuntime] at parsed
  split at parsed
  · split at parsed
    · cases parsed
      exact text _
    · cases parsed
  · cases parsed

def longChat (userTokens : Int32) : Conversation where
  rows := [⟨.user,1,sealText "\"hi\"",some userTokens,none,none⟩,
    ⟨.assistant,1,sealText "hello",some 20000,none,none⟩]
  keys := by simp [RawThreadMessage.key]
  projectInstruction := none
  defaultInstruction := none

def bigRequest : PreparedRequest := ⟨.parts [.inputText "big"],20000⟩

theorem bigRequest_accepted :
    validateAndNormalizeInput budgetRuntime "other" (.string "big") = .ok bigRequest := by
  decide +kernel

theorem longChat_nonNegative {userTokens : Int32} (nonneg : 0 ≤ userTokens.toInt) :
    ∀ r ∈ (longChat userTokens).rows, r.NonNegative := by
  intro r mem t counted
  rcases mem_cons.mp mem with rfl | mem
  · cases counted
    exact nonneg
  · rw [mem_singleton.mp mem] at counted
    cases counted
    decide

/-- The answer is cut, the first message stays although it alone is too large. -/
theorem first_message_exceeds_budget :
    ∃ prompt total, (∀ r ∈ (longChat 50000).rows, r.NonNegative) ∧
      validateAndNormalizeInput budgetRuntime "other" (.string "big") = .ok bigRequest ∧
      buildContextAndCheckBilling budgetRuntime (longChat 50000) "other" none "system" bigRequest
        none = .ok (prompt,total) ∧
      promptTokenBudget "other" = 59404 ∧ total = 70000 := by
  have building : (buildContextAndCheckBilling budgetRuntime (longChat 50000) "other" none
      "system" bigRequest none).toOption.map (fun out => out.2) = some 70000 := by decide +kernel
  obtain ⟨⟨prompt,total⟩,built,rfl⟩ := map_eq_some_ok building
  exact ⟨prompt,_,longChat_nonNegative (by decide),bigRequest_accepted,built,by decide +kernel,rfl⟩

theorem small_history_within_budget :
    ∃ prompt total, buildContextAndCheckBilling budgetRuntime (longChat 30000) "other" none
        "system" bigRequest none = .ok (prompt,total) ∧ total ≤ promptTokenBudget "other" := by
  have builds : (buildContextAndCheckBilling budgetRuntime (longChat 30000) "other" none
      "system" bigRequest none).isOk = true := by decide +kernel
  obtain ⟨⟨prompt,total⟩,built⟩ := exists_ok builds
  exact ⟨prompt,total,built,(total_within_budget_iff budgetRuntime_bounded
    (longChat_nonNegative (by decide)) bigRequest_accepted built).mpr (by decide +kernel)⟩

end OpenSecret
