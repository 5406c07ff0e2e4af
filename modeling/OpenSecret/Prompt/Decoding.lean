import OpenSecret.Prompt.Roles

/-!
Which messages the decode loop makes of which rows: rows with content other than
reasoning give one message each, in order, and nothing else does.
-/
namespace OpenSecret
open Framing Truncation

def RawThreadMessage.visible (r : RawThreadMessage) : Bool :=
  decide (r.messageType ≠ .reasoning) && r.contentEnc.isSome

def MessageType.role : MessageType → Text
  | .user => roleUser
  | .toolOutput => roleTool
  | _ => roleAssistant

/-- The rows a build decodes: what the metadata pass keeps of the newest rows. -/
def decodedRows (R : Runtime) (c : Conversation) (model : Text)
    (override internal : Option Text) (tokenReserve : Nat) :
    List RawThreadMessage :=
  match systemInstruction R c override internal with
  | .error _ => []
  | .ok system =>
    c.getMessagesByIds (determineNeededMessageIds R c.getConversationContextMetadata model
      ((system.map Prod.snd).getD 0) tokenReserve).1

/-- No text of the assistant among the rows reads as a tool call. -/
def NoCallText (R : Runtime) (rows : List RawThreadMessage) : Prop :=
  ∀ r ∈ rows, r.messageType = .assistant → ∀ enc text, r.contentEnc = some enc →
    decryptText R enc = .ok text → parsedToolCall R text = none

section
variable {R : Runtime} {includeReasoning : Bool} {pending : Option PendingReasoning}

variable {r : RawThreadMessage} {msgs : List ChatMsg} {next : Option PendingReasoning}
  {message : Option ChatMsg} {m : ChatMsg}

theorem decodeMessages_cons {rest : List RawThreadMessage}
    (h : decodeMessages R includeReasoning pending (r :: rest) = .ok msgs) :
    ∃ next message later, decodeRow R includeReasoning pending r = .ok (next,message) ∧
      decodeMessages R includeReasoning next rest = .ok later ∧ msgs = message.toList ++ later := by
  obtain ⟨⟨next,message⟩,row,h⟩ := bind_eq_ok.mp h
  obtain ⟨later,others,h⟩ := bind_eq_ok.mp h
  cases h
  exact ⟨next,message,later,row,others,rfl⟩

def DecodedRow (R : Runtime) (pending : Option PendingReasoning) (r : RawThreadMessage)
    (m : ChatMsg) : Prop :=
  ∃ enc content, r.contentEnc = some enc ∧ decryptText R enc = .ok content ∧
    messageOf R pending r content = some m

theorem messageOf_some (shown : r.messageType ≠ .reasoning) (content : Text) :
    ∃ m, messageOf R pending r content = some m := by
  unfold messageOf
  cases kind : r.messageType with
  | reasoning => exact absurd kind shown
  | _ => exact ⟨_,rfl⟩

theorem decodeRow_visible
    (visible : r.visible = true) (h : decodeRow R includeReasoning pending r = .ok (next,message)) :
    next = none ∧ ∃ m, message = some m ∧ DecodedRow R pending r m := by
  obtain ⟨notReasoning,stored⟩ := Bool.and_eq_true_iff.mp visible
  have shown : r.messageType ≠ .reasoning := of_decide_eq_true notReasoning
  obtain ⟨enc,content⟩ := Option.isSome_iff_exists.mp stored
  rw [decodeRow, if_neg shown, content] at h
  obtain ⟨text,decrypted,pair⟩ := map_eq_ok.mp h
  cases pair
  obtain ⟨m,message⟩ := messageOf_some shown text
  exact ⟨rfl,m,message,enc,text,content,decrypted,message⟩

theorem decodeRow_hidden
    (hidden : r.visible = false) (h : decodeRow R includeReasoning pending r = .ok (next,message)) :
    message = none := by
  unfold decodeRow at h
  split at h
  · obtain ⟨pending,-,pair⟩ := map_eq_ok.mp h
    cases pair
    rfl
  · rename_i shown
    split at h
    · cases h
      rfl
    · rename_i enc content
      simp [RawThreadMessage.visible, shown, content] at hidden

/-- Every message comes from a visible row, with the reasoning pending there. -/
theorem decodeMessages_rows {rows : List RawThreadMessage}
    (h : decodeMessages R includeReasoning pending rows = .ok msgs) :
    List.Forall₂ (fun r m => ∃ pending, DecodedRow R pending r m)
      (rows.filter RawThreadMessage.visible) msgs := by
  induction rows generalizing pending msgs with
  | nil =>
    cases h
    exact .nil
  | cons r rest ih =>
    obtain ⟨next,message,later,row,others,rfl⟩ := decodeMessages_cons h
    by_cases visible : r.visible = true
    · obtain ⟨-,m,rfl,decoded⟩ := decodeRow_visible visible row
      rw [List.filter_cons_of_pos visible]
      exact .cons ⟨pending,decoded⟩ (ih others)
    · rw [List.filter_cons_of_neg visible, decodeRow_hidden (Bool.eq_false_iff.mpr visible) row]
      exact ih others

theorem DecodedRow.role (decoded : DecodedRow R pending r m) :
    m.role = r.messageType.role := by
  obtain ⟨enc,content,-,-,made⟩ := decoded
  unfold messageOf at made
  cases kind : r.messageType <;> rw [kind] at made <;> cases made <;> rfl

theorem DecodedRow.isUser_iff (decoded : DecodedRow R pending r m) :
    isUser m = true ↔ r.messageType = .user := by
  have byType : ∀ kind : MessageType, kind.role = roleUser ↔ kind = .user := by
    intro kind
    cases kind <;> decide
  rw [isUser, decoded.role, decide_eq_true_eq]
  exact byType _

theorem DecodedRow.of_user (decoded : DecodedRow R pending r m) (user : r.messageType = .user) :
    ∃ enc content, r.contentEnc = some enc ∧ decryptText R enc = .ok content ∧
      m = ⟨roleUser,content,none,none,userMessagePromptTokenCount R content r.tokenCount⟩ := by
  obtain ⟨enc,content,stored,decrypted,made⟩ := decoded
  rw [messageOf, user] at made
  cases made
  exact ⟨enc,content,stored,decrypted,rfl⟩

end

theorem forall₂_getLast? {α β : Type} {rel : α → β → Prop} {as : List α} {bs : List β}
    (related : List.Forall₂ rel as bs) :
    (as.getLast? = none ∧ bs.getLast? = none) ∨
      ∃ a b, as.getLast? = some a ∧ bs.getLast? = some b ∧ rel a b := by
  have reversed := List.forall₂_reverse_iff.mpr related
  rw [← List.head?_reverse, ← List.head?_reverse]
  generalize as.reverse = newestFirst at reversed ⊢
  generalize bs.reverse = newestFirst' at reversed ⊢
  cases reversed with
  | nil => exact .inl ⟨rfl,rfl⟩
  | cons first _ => exact .inr ⟨_,_,rfl,rfl,first⟩

end OpenSecret
