import OpenSecret.Prompt.Attachment
import Mathlib.Data.List.Flatten

/-!
Selecting rows by their metadata before they are decoded, against decoding all of
them. Both truncate what does not fit, the first one twice. The prompts are equal
unless the recent end reaches back to the first user message or has none.
-/
namespace OpenSecret
open Framing Truncation List

def ContextEntry.isUser (entry : ContextEntry) : Bool := entry.messageType = .user

def Conversation.InstructionsNonNegative (c : Conversation) : Prop :=
  ∀ instruction, c.projectInstruction.or c.defaultInstruction = some instruction →
    0 ≤ instruction.promptTokens.toInt

section
variable {R : Runtime} {c : Conversation} {model : Text} {tokenReserve : Nat}
  {override internal : Option Text} {system : Option (Text × Nat)}

theorem systemInstruction_tokens (bounded : R.Bounded) (nonneg : c.InstructionsNonNegative)
    (instructed : systemInstruction R c override internal = .ok system) :
    (system.map Prod.snd).getD 0 < 2 ^ 50 := by
  obtain ⟨base,ofBase,rfl⟩ := map_eq_ok.mp instructed
  cases internal with
  | some internal => exact bounded.text _
  | none =>
    unfold baseInstruction at ofBase
    split at ofBase
    · cases ofBase
      exact bounded.text _
    · unfold storedInstruction at ofBase
      split at ofBase
      · rename_i instruction found
        obtain ⟨pair,decrypted,rfl⟩ := map_eq_ok.mp ofBase
        obtain ⟨content,-,rfl⟩ := map_eq_ok.mp decrypted
        exact (asUsize_lt (nonneg instruction found)).trans (by decide)
      · cases ofBase
        exact Nat.two_pow_pos 50

theorem determineNeeded_eq {metadata : List RawThreadMessageMetadata} {entries : List ContextEntry}
    {systemTokens : Nat}
    (listed : buildContextEntries (modelSupportsReasoningHistory model) [] metadata = entries)
    (small : systemTokens + tokens ContextEntry.tok entries +
      R.countTokens truncationText < 2 ^ 64) :
    determineNeededMessageIds R metadata model systemTokens tokenReserve =
      if systemTokens + tokens ContextEntry.tok entries ≤
        promptTokenBudget model - tokenReserve then
        (entries.flatMap ContextEntry.ids,false)
      else
        ((firstUser ContextEntry.isUser entries ++ tailWithin ContextEntry.tok ContextEntry.isUser
        (promptTokenBudget model - tokenReserve) systemTokens (R.countTokens truncationText)
        entries).flatMap ContextEntry.ids,true) := by
  have first : tokens ContextEntry.tok (firstUser ContextEntry.isUser entries) ≤
      tokens ContextEntry.tok entries := by
    rcases split_at_user _ entries with none | ⟨before,m,after,split,none,user⟩
    · rw [firstUser_none none]
      exact Nat.zero_le _
    · rw [split, firstUser_split none user, tokens_cons, tokens_nil, tokens_append, tokens_cons]
      omega
  have whole : usizeAdd systemTokens (usizeSum (entries.map ContextEntry.tok)) =
      systemTokens + tokens ContextEntry.tok entries := by
    rw [usizeSum_eq (show tokens ContextEntry.tok entries < 2 ^ 64 by omega), usizeAdd_eq]
    · rfl
    · show systemTokens + tokens ContextEntry.tok entries < 2 ^ 64
      omega
  have head : usizeSum ((firstUser ContextEntry.isUser entries).map ContextEntry.tok) =
      tokens ContextEntry.tok (firstUser ContextEntry.isUser entries) :=
    usizeSum_eq (show tokens ContextEntry.tok (firstUser ContextEntry.isUser entries) <
      2 ^ 64 by omega)
  have isUser : (fun entry : ContextEntry => decide (entry.messageType = .user)) =
    ContextEntry.isUser := rfl
  unfold determineNeededMessageIds tailWithin
  dsimp only
  rw [listed, whole, isUser, head, usizeAdd_eq (a := systemTokens) (by omega),
    usizeAdd_eq (by omega)]

theorem withTruncationMsg_body (system : Option (Text × Nat)) (selected : List ChatMsg) :
    withTruncationMsg R system.isSome true ((system.map systemMsg).toList ++ selected) =
      (system.map systemMsg).toList ++ markedBody R selected := by
  unfold withTruncationMsg
  dsimp only
  cases system with
  | none =>
    match selected with
    | [] => rfl
    | [_] => rfl
    | first :: second :: rest => simp [markedBody]
  | some pair =>
    match selected with
    | [] => rfl
    | [_] => rfl
    | first :: second :: rest => simp [markedBody]

def selectedMessages (R : Runtime) (ctxBudget : Nat) (sys body : List ChatMsg) : List ChatMsg :=
  if tokens ChatMsg.tok sys + tokens ChatMsg.tok body ≤ ctxBudget then body
  else markedBody R (selectedBody R ctxBudget sys body)

theorem Turn.entry_ids (t : Turn) : t.entry.ids = t.rows.map RawThreadMessage.key := by
  simp only [Turn.entry, ContextEntry.withReasoning, Turn.rows, map_append, map_map, map_cons,
    map_nil]
  rfl

variable {includeReasoning : Bool} {ids : List (MessageType × Int)} {selected : List Turn}

theorem getMessagesByIds_turns {rows : List RawThreadMessage} (inRows : rows.Sublist c.rows)
    (sub : selected.Sublist (turns includeReasoning [] rows))
    (chosen : ∀ key, key ∈ ids ↔ key ∈ selected.flatMap fun t => t.rows.map RawThreadMessage.key) :
    (selected.flatMap Turn.rows).Sublist c.rows ∧ c.getMessagesByIds ids =
      selected.flatMap Turn.rows := by
  have listed : (selected.flatMap Turn.rows).Sublist c.rows :=
    ((sub.flatMap Turn.rows).trans (turns_sublist includeReasoning [] rows)).trans inRows
  refine ⟨listed,?_⟩
  rw [Conversation.getMessagesByIds, ← filter_keys listed c.keys]
  refine filter_congr fun r _ => ?_
  rw [decide_eq_decide, chosen, map_flatMap]

theorem decode_selected (complete : ∀ r ∈ c.rows, r.Complete R)
    (sub : selected.Sublist (turns includeReasoning [] c.rows))
    (chosen : ∀ key, key ∈ ids ↔ key ∈ selected.flatMap fun t => t.rows.map RawThreadMessage.key) :
    decodeMessages R includeReasoning none (c.getMessagesByIds ids) =
      .ok (selected.map (Turn.message R)) := by
  obtain ⟨listed,fetched⟩ := getMessagesByIds_turns (Sublist.refl _) sub chosen
  have grouped : ∀ t ∈ selected, t.Grouped includeReasoning := fun t mem =>
    turns_grouped (by simp) (fun _ => rfl) t (sub.mem mem)
  rw [fetched, decodeMessages_turns fun r mem => complete r (listed.mem mem),
    turns_flatMap grouped]

def allMessages (R : Runtime) (model : Text) (c : Conversation) : List ChatMsg :=
  (turns (modelSupportsReasoningHistory model) [] c.rows).map (Turn.message R)

/-- The turns of a conversation together with what makes both passes agree on them. -/
theorem exists_goodTurns (includeReasoning : Bool) (complete : ∀ r ∈ c.rows, r.Complete R)
    (few : c.rows.length ≤ Conversation.contextWindowRows) :
    ∃ good : List {t : Turn // t.Good R includeReasoning},
      turns includeReasoning [] c.rows = good.map Subtype.val :=
  ⟨(turns includeReasoning [] c.rows).attachWith _ (turns_good complete few),
    (attachWith_map_subtype_val _).symm⟩

theorem window_all (few : c.rows.length ≤ Conversation.contextWindowRows) : c.window = c.rows := by
  rw [Conversation.window, Nat.sub_eq_zero_of_le few, drop_zero]

theorem entry_message_tok :
    (ContextEntry.tok ∘ fun t : {t : Turn // t.Good R includeReasoning} => t.val.entry) =
      ChatMsg.tok ∘ fun t => t.val.message R :=
  funext fun t => (Turn.message_tok t.property.complete).symm

theorem entry_message_isUser :
    (ContextEntry.isUser ∘ fun t : {t : Turn // t.Good R includeReasoning} => t.val.entry) =
      isUser ∘ fun t => t.val.message R :=
  funext fun t => t.val.isUser_message.symm

theorem decode_all (complete : ∀ r ∈ c.rows, r.Complete R) :
    decodeMessages R (modelSupportsReasoningHistory model) none c.rows =
      .ok (allMessages R model c) :=
  decodeMessages_turns complete

theorem allMessages_tokens (model : Text) (bounded : R.Bounded)
    (complete : ∀ r ∈ c.rows, r.Complete R) (few : c.rows.length ≤ Conversation.contextWindowRows) :
    tokens ChatMsg.tok (allMessages R model c) ≤ 1000 * 2 ^ 50 := by
  have thousand : c.rows.length ≤ 1000 := few
  have nothing : pendingTokens none = 0 := rfl
  have nonneg : ∀ r ∈ c.rows, r.NonNegative := by
    intro r mem t counted
    obtain ⟨count,same,positive⟩ := (complete r mem).counted
    rw [same] at counted
    cases counted
    exact positive
  have decoded : decodeMessages R (modelSupportsReasoningHistory model) none c.rows = _ :=
    decode_all complete
  have counted := decodeMessages_tokens bounded nonneg (by omega) decoded
  omega

theorem systemMsg_tokens (system : Option (Text × Nat)) :
    tokens ChatMsg.tok (system.map systemMsg).toList = (system.map Prod.snd).getD 0 := by
  cases system with
  | none => rfl
  | some pair => exact add_zero _

theorem allMessages_layout : Layout (system.map systemMsg).toList (allMessages R model c) := by
  constructor
  · cases system with
    | none => exact .inl rfl
    | some pair => exact .inr ⟨systemMsg pair,rfl,by simp [isSystem, systemMsg]⟩
  · intro m mem
    obtain ⟨t,-,rfl⟩ := mem_map.mp mem
    exact t.isSystem_message

section
variable {good : List {t : Turn // t.Good R (modelSupportsReasoningHistory model)}}

theorem entries_good (few : c.rows.length ≤ Conversation.contextWindowRows)
    (grouped : turns (modelSupportsReasoningHistory model) [] c.rows = good.map Subtype.val) :
    buildContextEntries (modelSupportsReasoningHistory model) [] c.getConversationContextMetadata =
      good.map fun t => t.val.entry := by
  rw [Conversation.getConversationContextMetadata, window_all few]
  refine (buildContextEntries_turns (modelSupportsReasoningHistory model) [] c.rows).trans ?_
  rw [grouped, map_map]
  rfl

theorem messages_good
    (grouped : turns (modelSupportsReasoningHistory model) [] c.rows = good.map Subtype.val) :
    allMessages R model c = good.map fun t => t.val.message R := by
  rw [allMessages, grouped, map_map]
  rfl

theorem selected_ids (ctxBudget systemTokens : Nat) (key : MessageType × Int) :
    (key ∈ (firstUser ContextEntry.isUser (good.map fun t => t.val.entry) ++
        tailWithin ContextEntry.tok ContextEntry.isUser ctxBudget
          systemTokens (R.countTokens truncationText)
          (good.map fun t => t.val.entry)).flatMap ContextEntry.ids) ↔
      key ∈
        ((selection (ChatMsg.tok ∘ fun t => t.val.message R)
          (isUser ∘ fun t => t.val.message R) ctxBudget
        systemTokens (R.countTokens truncationText) good).map Subtype.val).flatMap
          fun t => t.rows.map RawThreadMessage.key := by
  have chosen : ∀ t, t ∈ selection (ChatMsg.tok ∘ fun t => t.val.message R)
      (isUser ∘ fun t => t.val.message R) ctxBudget systemTokens
        (R.countTokens truncationText) good ↔ _ :=
    (withFirst_spec (recent_suffix good)).2
  rw [firstUser_map, tailWithin_map, entry_message_tok, entry_message_isUser, ← map_append,
    flatMap_map, flatMap_map]
  simp only [mem_flatMap, chosen, Turn.entry_ids, tailWithin]

end

theorem build_selected (bounded : R.Bounded) (nonneg : c.InstructionsNonNegative)
    (few : c.rows.length ≤ Conversation.contextWindowRows) (complete : ∀ r ∈ c.rows, r.Complete R)
    (instructed : systemInstruction R c override internal = .ok system) :
    buildPromptWithTokenReserve R c model override internal tokenReserve =
      buildPromptFromChatMessagesWithTokenReserve R ((system.map systemMsg).toList ++
        selectedMessages R (promptTokenBudget model - tokenReserve) (system.map systemMsg).toList
          (allMessages R model c)) model tokenReserve := by
  obtain ⟨good,grouped⟩ := exists_goodTurns (modelSupportsReasoningHistory model) complete few
  have entries := entries_good few grouped
  have messages := messages_good grouped
  have sameTokens : tokens ContextEntry.tok (good.map fun t => t.val.entry) =
      tokens ChatMsg.tok (allMessages R model c) := by
    rw [messages, tokens_map, tokens_map, entry_message_tok]
  have systemSmall := systemInstruction_tokens bounded nonneg instructed
  have messagesSmall := allMessages_tokens model bounded complete few
  have markerSmall := bounded.text truncationText
  have determined : determineNeededMessageIds R c.getConversationContextMetadata model
      ((system.map Prod.snd).getD 0) tokenReserve = _ :=
    determineNeeded_eq entries (by rw [sameTokens]; omega)
  have systemTokens := systemMsg_tokens system
  rw [sameTokens] at determined
  unfold buildPromptWithTokenReserve selectedMessages
  simp only [instructed, bind, Except.bind]
  rw [determined, systemTokens]
  by_cases fits : (system.map Prod.snd).getD 0 + tokens ChatMsg.tok (allMessages R model c) ≤
      promptTokenBudget model - tokenReserve
  · have decoded : decodeMessages R (modelSupportsReasoningHistory model) none
        (c.getMessagesByIds ((good.map fun t => t.val.entry).flatMap ContextEntry.ids)) =
        .ok (allMessages R model c) := by
      refine decode_selected complete (Sublist.refl _) fun key => ?_
      rw [grouped, flatMap_map, flatMap_map]
      simp only [Turn.entry_ids]
    rw [if_pos fits, if_pos fits, decoded]
    simp [withTruncationMsg]
  · have chosen :
      (selection (ChatMsg.tok ∘ fun t => t.val.message R) (isUser ∘ fun t => t.val.message R)
        (promptTokenBudget model - tokenReserve) ((system.map Prod.snd).getD 0)
          (R.countTokens truncationText)
        good).Sublist good := (withFirst_spec (recent_suffix good)).1
    have decoded := decode_selected complete (by rw [grouped]; exact chosen.map Subtype.val)
      (selected_ids (promptTokenBudget model - tokenReserve) ((system.map Prod.snd).getD 0))
    rw [if_neg fits, if_neg fits, decoded, selectedBody, messages,
      systemTokens, selection_map, map_map]
    dsimp only
    rw [withTruncationMsg_body]
    rfl

end

section
variable {R : Runtime} {c : Conversation} {model : Text} {tokenReserve : Nat}
  {override internal : Option Text} {system : Option (Text × Nat)}

theorem Emitted.not_user {includeReasoning : Bool} {m : ChatMsg} {message : Json}
    (emitted : Emitted R includeReasoning m message) (never : NeverUser R m) :
    message.text "role" ≠ some roleUser := by
  obtain ⟨other,plain⟩ := never
  have notUser : m.role ≠ roleUser := of_decide_eq_false other
  by_cases assistant : m.role = roleAssistant
  · rw [(emitted.plain assistant (plain.resolve_left (fun no => no assistant))).role]
    decide
  · rw [emitted.role_of_not_assistant assistant]
    simpa using notUser

theorem apart_builds {a b : List ChatMsg} {out : List Json × Nat}
    (apart : Apart R (fitMessages R (promptTokenBudget model - tokenReserve) a)
      (fitMessages R (promptTokenBudget model - tokenReserve) b))
    (first : buildPromptFromChatMessagesWithTokenReserve R a model tokenReserve = .ok out)
    (second : buildPromptFromChatMessagesWithTokenReserve R b model tokenReserve = .ok out) :
    False := by
  have emitsFirst := forall₂_iff_get.mp (buildPrompt_emits first)
  have emitsSecond := forall₂_iff_get.mp (buildPrompt_emits second)
  have at_index : ∀ {msgs : List ChatMsg} {i : Nat} {m : ChatMsg}, msgs[i]? = some m →
      (msgs.length = out.1.length ∧ ∀ i inMsgs inPrompt,
        Emitted R (modelSupportsReasoningHistory model)
        (msgs.get ⟨i,inMsgs⟩) (out.1.get ⟨i,inPrompt⟩)) →
      ∃ message, out.1[i]? = some message ∧
        Emitted R (modelSupportsReasoningHistory model) m message := by
    intro msgs i m atMsgs ⟨length,emits⟩
    obtain ⟨inMsgs,rfl⟩ := List.getElem?_eq_some_iff.mp atMsgs
    have inPrompt : i < out.1.length := by omega
    exact ⟨_,getElem?_eq_getElem inPrompt,emits i inMsgs inPrompt⟩
  have clash : ∀ {x y : ChatMsg} {message message' : Json} {i : Nat}, out.1[i]? = some message →
      out.1[i]? = some message' → Emitted R (modelSupportsReasoningHistory model) x message →
      Emitted R (modelSupportsReasoningHistory model) y message' →
        isUser x = true → NeverUser R y → False := by
    intro x y message message' i here here' asX asY user never
    rw [here] at here'
    cases here'
    have role : x.role = roleUser := of_decide_eq_true user
    refine asY.not_user never ?_
    rw [asX.role_of_not_assistant (by rw [role]; decide), role]
  rcases apart with lengths | ⟨i,x,y,atIndex,user,never⟩
  · exact lengths (emitsFirst.1.trans emitsSecond.1.symm)
  · rcases atIndex with ⟨inFirst,inSecond⟩ | ⟨inSecond,inFirst⟩
    · obtain ⟨message,here,asX⟩ := at_index inFirst emitsFirst
      obtain ⟨message',here',asY⟩ := at_index inSecond emitsSecond
      exact clash here here' asX asY user never
    · obtain ⟨message,here,asX⟩ := at_index inSecond emitsSecond
      obtain ⟨message',here',asY⟩ := at_index inFirst emitsFirst
      exact clash here here' asX asY user never

theorem markedBody_tokens (selected : List ChatMsg) :
    tokens ChatMsg.tok (markedBody R selected) ≤
      tokens ChatMsg.tok selected + R.countTokens truncationText := by
  have markerTok : (truncationMsg R).tok = R.countTokens truncationText := rfl
  unfold markedBody
  split
  · simp only [tokens_cons, markerTok]
    omega
  · omega

theorem markedBody_others {selected : List ChatMsg} (others : ∀ m ∈ selected, isSystem m = false) :
    ∀ m ∈ markedBody R selected, isSystem m = false := by
  have marker : isSystem (truncationMsg R) = false := by
    simp [isSystem, truncationMsg, show roleAssistant ≠ roleSystem by decide]
  unfold markedBody
  split
  · rename_i first second rest
    intro m mem
    rcases mem_cons.mp mem with rfl | mem
    · exact others m (by simp)
    · rcases mem_cons.mp mem with rfl | mem
      · exact marker
      · exact others m (mem_cons_of_mem first mem)
  · exact others

def selectionAgrees (R : Runtime) (c : Conversation) (model : Text) (system : Option (Text × Nat))
    (tokenReserve : Nat) : Bool :=
  decide (PassesAgree ContextEntry.tok ContextEntry.isUser (promptTokenBudget model - tokenReserve)
    ((system.map Prod.snd).getD 0) (R.countTokens truncationText)
    (buildContextEntries (modelSupportsReasoningHistory model) [] c.getConversationContextMetadata))

theorem selectionAgrees_iff (complete : ∀ r ∈ c.rows, r.Complete R)
    (few : c.rows.length ≤ Conversation.contextWindowRows) :
    selectionAgrees R c model system tokenReserve = true ↔
      PassesAgree ChatMsg.tok isUser (promptTokenBudget model - tokenReserve)
        (tokens ChatMsg.tok (system.map systemMsg).toList) (R.countTokens truncationText)
        (allMessages R model c) := by
  obtain ⟨good,grouped⟩ := exists_goodTurns (modelSupportsReasoningHistory model) complete few
  rw [selectionAgrees, decide_eq_true_iff, entries_good few grouped,
    messages_good grouped, passesAgree_map,
    passesAgree_map, entry_message_tok, entry_message_isUser, systemMsg_tokens]

/-- A build that selects rows first returns what a build from all decoded rows
    returns exactly when the two truncations agree. -/
theorem two_passes_agree_iff (bounded : R.Bounded) (marker : 0 < R.countTokens truncationText)
    (unread : R.parseJson truncationText = none) (nonneg : c.InstructionsNonNegative)
    (few : c.rows.length ≤ Conversation.contextWindowRows) (complete : ∀ r ∈ c.rows, r.Complete R)
    {decoded : List ChatMsg} {out : List Json × Nat}
    (instructed : systemInstruction R c override internal = .ok system)
    (decoding : decodeMessages R (modelSupportsReasoningHistory model) none c.rows = .ok decoded)
    (built : buildPromptWithTokenReserve R c model override
      internal tokenReserve = .ok out) :
    buildPromptFromChatMessagesWithTokenReserve R ((system.map systemMsg).toList ++ decoded)
      model tokenReserve =
      .ok out ↔ selectionAgrees R c model system tokenReserve = true := by
  rw [decode_all complete] at decoding
  cases decoding
  rw [build_selected bounded nonneg few complete instructed] at built
  rw [selectionAgrees_iff complete few]
  have systemSmall := systemInstruction_tokens bounded nonneg instructed
  rw [← systemMsg_tokens] at systemSmall
  have messagesSmall := allMessages_tokens model bounded complete few
  have markerSmall := bounded.text truncationText
  have layout : Layout (system.map systemMsg).toList (allMessages R model c) := allMessages_layout
  generalize (system.map systemMsg).toList = sys at *
  generalize allMessages R model c = body at *
  generalize budget : promptTokenBudget model - tokenReserve = ctxBudget at *
  unfold selectedMessages at built
  by_cases fits : tokens ChatMsg.tok sys + tokens ChatMsg.tok body ≤ ctxBudget
  · rw [if_pos fits] at built
    exact ⟨fun _ => .inl fits,fun _ => built⟩
  · rw [if_neg fits] at built
    have chosen : (selectedBody R ctxBudget sys body).Sublist body :=
      (withFirst_spec (recent_suffix body)).1
    have selectedSmall : tokens ChatMsg.tok (selectedBody R ctxBudget sys body) ≤
      tokens ChatMsg.tok body :=
      tokens_sublist chosen
    have markedSmall : tokens ChatMsg.tok (markedBody R (selectedBody R ctxBudget sys body)) ≤ _ :=
      markedBody_tokens _
    have markedLayout : Layout sys (markedBody R (selectedBody R ctxBudget sys body)) :=
      ⟨layout.system,markedBody_others fun m mem => layout.others m (chosen.mem mem)⟩
    have twice :
      fitMessages R ctxBudget (sys ++ markedBody R (selectedBody R ctxBudget sys body)) = _ :=
      fitMessages_layout markedLayout (by omega)
    have once : fitMessages R ctxBudget (sys ++ body) = _ := fitMessages_layout layout (by omega)
    have compared := refit_agrees_or_apart layout marker unread (by omega) (not_le.mp fits)
    rw [← twice, ← once] at compared
    split at compared
    · rename_i agree
      refine ⟨fun _ => agree,fun _ => ?_⟩
      rw [← built]
      unfold buildPromptFromChatMessagesWithTokenReserve
      rw [budget, compared]
    · rename_i differ
      refine ⟨fun same => ?_,fun agree => absurd agree differ⟩
      rw [← budget] at compared built
      exact (apart_builds compared built same).elim

end

def longerChat : Conversation where
  rows := (longChat 30000).rows ++ [⟨.user,2,sealText "\"again\"",some 1000,none,none⟩,
    ⟨.assistant,2,sealText "sure",some 1000,none,none⟩]
  keys := by simp [longChat, RawThreadMessage.key]
  projectInstruction := none
  defaultInstruction := none

/-- The question is kept alone by one way of building and with the marker by the
    other. -/
theorem selection_drops_marker :
    ∃ decoded selected whole, (longChat 30000).rows.length ≤ Conversation.contextWindowRows ∧
      (∀ r ∈ (longChat 30000).rows, r.Complete budgetRuntime) ∧
      decodeMessages budgetRuntime (modelSupportsReasoningHistory "other")
        none (longChat 30000).rows =
        .ok decoded ∧
      buildPromptWithTokenReserve budgetRuntime (longChat 30000) "other" none none 20000 =
        .ok selected ∧
      buildPromptFromChatMessagesWithTokenReserve budgetRuntime decoded "other" 20000 = .ok whole ∧
      selected.1.length = 1 ∧ selected.2 = 30000 ∧ whole.1.length = 2 ∧ whole.2 = 30010 := by
  have complete : (longChat 30000).rows.all (checkComplete budgetRuntime) = true := by
    decide +kernel
  have decodes : (decodeMessages budgetRuntime (modelSupportsReasoningHistory "other") none
      (longChat 30000).rows).toOption.map (fun decoded =>
        (buildPromptFromChatMessagesWithTokenReserve
        budgetRuntime decoded "other" 20000).toOption.map fun out => (out.1.length,out.2)) =
      some (some (2,30010)) := by decide +kernel
  have builds : (buildPromptWithTokenReserve budgetRuntime (longChat 30000) "other" none none
      20000).toOption.map (fun out => (out.1.length,out.2)) = some (1,30000) := by decide +kernel
  obtain ⟨decoded,decoding,rendering⟩ := map_eq_some_ok decodes
  obtain ⟨whole,built,pair⟩ := map_eq_some_ok rendering
  obtain ⟨selected,builtSelected,pair'⟩ := map_eq_some_ok builds
  obtain ⟨allMessages,allTokens⟩ := Prod.mk.inj pair
  obtain ⟨messages,total⟩ := Prod.mk.inj pair'
  exact ⟨decoded,selected,whole,by decide +kernel,fun r mem =>
    complete_of_check (all_eq_true.mp complete r mem),
    decoding,builtSelected,built,messages,total,allMessages,allTokens⟩

theorem longer_chat_builds_alike :
    ∃ decoded out, decodeMessages budgetRuntime (modelSupportsReasoningHistory "other") none
        longerChat.rows = .ok decoded ∧
      buildPromptWithTokenReserve budgetRuntime longerChat "other" none none 20000 = .ok out ∧
      buildPromptFromChatMessagesWithTokenReserve budgetRuntime decoded "other" 20000 =
        .ok out := by
  have complete : longerChat.rows.all (checkComplete budgetRuntime) = true := by decide +kernel
  have decodes : (decodeMessages budgetRuntime (modelSupportsReasoningHistory "other") none
      longerChat.rows).isOk = true := by decide +kernel
  have builds : (buildPromptWithTokenReserve budgetRuntime longerChat "other" none none
      20000).isOk = true := by decide +kernel
  obtain ⟨decoded,decoding⟩ := exists_ok decodes
  obtain ⟨out,built⟩ := exists_ok builds
  have noInstructions : longerChat.InstructionsNonNegative := by
    intro instruction found
    cases found
  have instructed : systemInstruction budgetRuntime longerChat none none = .ok none := rfl
  have marker : 0 < budgetRuntime.countTokens truncationText := by decide +kernel
  have few : longerChat.rows.length ≤ Conversation.contextWindowRows := by decide +kernel
  have agrees : selectionAgrees budgetRuntime longerChat "other" none 20000 = true := by
    decide +kernel
  have whole := (two_passes_agree_iff budgetRuntime_bounded marker rfl noInstructions few
    (fun r mem => complete_of_check (all_eq_true.mp complete r mem))
      instructed decoding built).mpr agrees
  rw [Option.map_none, Option.toList_none, nil_append] at whole
  exact ⟨decoded,out,decoding,built,whole⟩

end OpenSecret
