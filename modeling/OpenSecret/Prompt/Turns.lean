import OpenSecret.Prompt.Budget
import OpenSecret.Prompt.Refitting

/-!
How rows group into messages. A turn is a row other than reasoning with the
reasoning rows that are attached to it. The metadata pass makes one entry of a
turn and the decode loop one message, and both count the same tokens when every
count and every content is stored.
-/
namespace OpenSecret
open Framing Truncation List

structure Turn where
  reasoning : List RawThreadMessage
  row : RawThreadMessage
  shown : row.messageType ≠ .reasoning
  attached : reasoning = [] ∨ row.messageType = .assistant ∨ row.messageType = .toolCall

namespace Turn

def rows (t : Turn) : List RawThreadMessage := t.reasoning ++ [t.row]

def entry (t : Turn) : ContextEntry :=
  .withReasoning (t.reasoning.map RawThreadMessage.metadata) t.row.metadata

end Turn

/-- The reasoning collected so far goes to the next answer or call of the assistant. -/
def turns (includeReasoning : Bool) (pending : List RawThreadMessage) :
    List RawThreadMessage → List Turn
  | [] => []
  | r :: rest =>
    if reasoning : r.messageType = .reasoning then
      turns includeReasoning (if includeReasoning then pending ++ [r] else pending) rest
    else if answer : includeReasoning = true ∧
      (r.messageType = .assistant ∨ r.messageType = .toolCall) then
      ⟨pending,r,reasoning,.inr answer.2⟩ :: turns includeReasoning [] rest
    else ⟨[],r,reasoning,.inl rfl⟩ :: turns includeReasoning [] rest

section
variable {includeReasoning : Bool} {pending rows : List RawThreadMessage}

theorem metadataTokenCount_lt (m : RawThreadMessageMetadata) : metadataTokenCount m < 2 ^ 64 := by
  unfold metadataTokenCount
  cases m.tokenCount with
  | none => decide
  | some t =>
    simp only [Option.map_some, Option.getD_some, asUsize]
    omega

theorem single_eq_withReasoning (m : RawThreadMessageMetadata) :
    ContextEntry.single m = ContextEntry.withReasoning [] m := by
  have exact : usizeSum [metadataTokenCount m] = metadataTokenCount m := by
    rw [usizeSum_eq (by simpa using metadataTokenCount_lt m), sum_singleton]
  simp only [ContextEntry.single, ContextEntry.withReasoning, nil_append, map_cons, map_nil, exact]

theorem buildContextEntries_turns (includeReasoning : Bool) (pending rows : List RawThreadMessage) :
    buildContextEntries includeReasoning (pending.map RawThreadMessage.metadata)
        (rows.map RawThreadMessage.metadata) =
      (turns includeReasoning pending rows).map Turn.entry := by
  induction rows generalizing pending with
  | nil => rfl
  | cons r rest ih =>
    have grown := ih (pending ++ [r])
    have cleared := ih []
    rw [map_append] at grown
    rw [map_cons]
    unfold buildContextEntries turns
    obtain ⟨kind,id,contentEnc,tokenCount,toolCallId,toolName⟩ := r
    cases includeReasoning <;> cases kind <;>
      simp_all [RawThreadMessage.metadata, single_eq_withReasoning, Turn.entry]

def RawThreadMessage.shown (r : RawThreadMessage) : Bool := r.messageType ≠ .reasoning

theorem turns_row (includeReasoning : Bool) (pending rows : List RawThreadMessage) :
    (turns includeReasoning pending rows).map Turn.row = rows.filter RawThreadMessage.shown := by
  induction rows generalizing pending with
  | nil => rfl
  | cons r rest ih =>
    unfold turns
    split
    · rename_i reasoning
      rw [ih, filter_cons_of_neg (by simp [RawThreadMessage.shown, reasoning])]
    · rename_i shown
      rw [filter_cons_of_pos (by simp [RawThreadMessage.shown, shown])]
      split <;> rw [map_cons, ih]

theorem turns_sublist (includeReasoning : Bool) (pending rows : List RawThreadMessage) :
    ((turns includeReasoning pending rows).flatMap Turn.rows).Sublist (pending ++ rows) := by
  induction rows generalizing pending with
  | nil => exact nil_sublist _
  | cons r rest ih =>
    have later : ((turns includeReasoning [] rest).flatMap Turn.rows).Sublist rest := ih []
    unfold turns
    split
    · cases includeReasoning with
      | true => simpa using ih (pending ++ [r])
      | false =>
        exact (ih pending).trans (List.Sublist.append_left (sublist_cons_self r rest) pending)
    · split
      · rw [flatMap_cons, Turn.rows, append_assoc]
        exact (later.cons_cons r).append_left pending
      · rw [flatMap_cons, Turn.rows]
        exact (later.cons_cons r).trans (sublist_append_right pending (r :: rest))

/-- Reasoning rows only, and only for a model that takes them. -/
def Turn.Grouped (includeReasoning : Bool) (t : Turn) : Prop :=
  (∀ r ∈ t.reasoning, r.messageType = .reasoning) ∧ (includeReasoning = false → t.reasoning = [])

theorem turns_grouped (thoughts : ∀ r ∈ pending, r.messageType = .reasoning)
    (off : includeReasoning = false → pending = []) :
    ∀ t ∈ turns includeReasoning pending rows, t.Grouped includeReasoning := by
  induction rows generalizing pending with
  | nil => simp [turns]
  | cons r rest ih =>
    have later := @ih [] (by simp) fun _ => rfl
    intro t mem
    unfold turns at mem
    split at mem
    · rename_i reasoning
      cases includeReasoning with
      | true =>
        refine ih ?_ nofun t mem
        intro q inPending
        rcases mem_snoc.mp inPending with old | rfl
        · exact thoughts q old
        · rw [reasoning]
      | false => exact ih thoughts off t mem
    · split at mem
      · rcases mem_cons.mp mem with rfl | mem
        · exact ⟨thoughts,off⟩
        · exact later t mem
      · rcases mem_cons.mp mem with rfl | mem
        · exact ⟨by simp,fun _ => rfl⟩
        · exact later t mem

theorem turns_reasoning {thoughts : List RawThreadMessage}
    (kind : ∀ r ∈ thoughts, r.messageType = .reasoning) (pending rest : List RawThreadMessage) :
    turns true pending (thoughts ++ rest) = turns true (pending ++ thoughts) rest := by
  induction thoughts generalizing pending with
  | nil => simp
  | cons r thoughts ih =>
    rw [cons_append, turns, dif_pos (kind r (by simp)), if_pos rfl,
      ih fun q mem => kind q (by simp [mem])]
    simp

theorem turns_turn {t : Turn} (grouped : t.Grouped includeReasoning)
    (rest : List RawThreadMessage) :
    turns includeReasoning [] (t.rows ++ rest) = t :: turns includeReasoning [] rest := by
  obtain ⟨reasoning,row,shown,attached⟩ := t
  obtain ⟨kind,off⟩ := grouped
  cases includeReasoning with
  | true =>
    rw [Turn.rows, append_assoc, turns_reasoning kind, nil_append, singleton_append, turns,
      dif_neg shown]
    split
    · rfl
    · rename_i other
      have none : reasoning = [] := attached.resolve_right fun answer => other ⟨rfl,answer⟩
      subst none
      rfl
  | false =>
    have none : reasoning = [] := off rfl
    subst none
    rw [Turn.rows, nil_append, singleton_append, turns, dif_neg shown, dif_neg (by simp)]

theorem turns_flatMap {ts : List Turn} (grouped : ∀ t ∈ ts, t.Grouped includeReasoning) :
    turns includeReasoning [] (ts.flatMap Turn.rows) = ts := by
  induction ts with
  | nil => rfl
  | cons t ts ih =>
    rw [flatMap_cons, turns_turn (grouped t (by simp)),
      ih fun q mem => grouped q (by simp [mem])]

end

theorem filter_keys {rows picked : List RawThreadMessage} (sub : picked.Sublist rows)
    (distinct : (rows.map RawThreadMessage.key).Nodup) :
    (rows.filter fun r => r.key ∈ picked.map RawThreadMessage.key) = picked := by
  induction sub with
  | slnil => rfl
  | cons r sub ih =>
    obtain ⟨fresh,distinct⟩ := nodup_cons.mp distinct
    rw [filter_cons_of_neg, ih distinct]
    intro inPicked
    exact fresh ((sub.map RawThreadMessage.key).mem (of_decide_eq_true inPicked))
  | cons_cons r sub ih =>
    rename_i picked rest
    obtain ⟨fresh,distinct⟩ := nodup_cons.mp distinct
    have same : rest.filter (fun q => q.key ∈ (r :: picked).map RawThreadMessage.key) =
        rest.filter fun q => q.key ∈ picked.map RawThreadMessage.key := by
      refine filter_congr fun q mem => ?_
      have other : q.key ≠ r.key := fun equal => fresh (equal ▸ mem_map_of_mem mem)
      simp [other]
    rw [filter_cons_of_pos (by simp), same, ih distinct]

section
variable {R : Runtime}

def RawThreadMessage.storedText (R : Runtime) (r : RawThreadMessage) : Text :=
  match r.contentEnc.map (decryptText R) with
  | some (.ok text) => text
  | _ => []

/-- Token count and content are stored, the content decrypts to some text, and an
    image in it does not raise the stored count. -/
structure RawThreadMessage.Complete (R : Runtime) (r : RawThreadMessage) : Prop where
  counted : ∃ t, r.tokenCount = some t ∧ 0 ≤ t.toInt
  readable : ∃ enc, r.contentEnc = some enc ∧ decryptText R enc = .ok (r.storedText R)
  nonempty : r.storedText R ≠ []
  noImage : r.messageType = .user → Text.contains (r.storedText R) "\"input_image\"" = true →
    ((R.parseMessageContent (r.storedText R)).map
      (MessageContentConverter.estimatePromptTokens R)).getD 0 ≤ metadataTokenCount r.metadata

def collectAll (R : Runtime) (rows : List RawThreadMessage) : Option PendingReasoning :=
  rows.foldl (fun pending r => collectReasoning R pending r (r.storedText R)) none

def Turn.message (R : Runtime) (t : Turn) : ChatMsg :=
  (messageOf R (collectAll R t.reasoning) t.row (t.row.storedText R)).getD ⟨[],[],none,none,0⟩

theorem messageOf_other {r : RawThreadMessage} (shown : r.messageType ≠ .reasoning)
    (other : ¬(r.messageType = .assistant ∨ r.messageType = .toolCall))
    (pending : Option PendingReasoning) (content : Text) :
    messageOf R pending r content = messageOf R none r content := by
  unfold messageOf
  cases kind : r.messageType <;> simp_all

theorem collectAll_concat (pending : List RawThreadMessage) (r : RawThreadMessage) :
    collectAll R (pending ++ [r]) =
      collectReasoning R (collectAll R pending) r (r.storedText R) := by
  rw [collectAll, foldl_append]
  rfl

variable {includeReasoning : Bool} {pending rows : List RawThreadMessage}

theorem decodeRow_reasoning {r : RawThreadMessage}
    (complete : r.Complete R) (reasoning : r.messageType = .reasoning) :
    decodeRow R includeReasoning (collectAll R pending) r =
      .ok (collectAll R (if includeReasoning then pending ++ [r] else pending),none) := by
  obtain ⟨enc,stored,decrypted⟩ := complete.readable
  rw [decodeRow, if_pos reasoning]
  cases includeReasoning with
  | true =>
    rw [if_pos rfl, collectAll_concat]
    simp only [decodeReasoning, stored, decrypted, Except.map]
  | false => rfl

theorem decodeRow_shown {pending : Option PendingReasoning} {r : RawThreadMessage}
    (complete : r.Complete R) (shown : r.messageType ≠ .reasoning) :
    decodeRow R includeReasoning pending r = .ok (none,messageOf R pending r (r.storedText R)) := by
  obtain ⟨enc,stored,decrypted⟩ := complete.readable
  rw [decodeRow, if_neg shown]
  simp only [stored, decrypted, Except.map]

/-- A row other than reasoning closes a turn, and its message is that of the turn. -/
theorem turns_shown {r : RawThreadMessage} (shown : r.messageType ≠ .reasoning)
    (off : includeReasoning = false → pending = []) (rest : List RawThreadMessage) :
    ∃ t : Turn, turns includeReasoning pending (r :: rest) = t :: turns includeReasoning [] rest ∧
      t.row = r ∧
      (t.reasoning = pending ∨ t.reasoning = []) ∧
      messageOf R (collectAll R pending) r (r.storedText R) = some (t.message R) := by
  obtain ⟨m,made⟩ : ∃ m, messageOf R (collectAll R pending) r (r.storedText R) = some m :=
    messageOf_some shown _
  rw [turns, dif_neg shown]
  split
  · rename_i answer
    refine ⟨⟨pending,r,shown,.inr answer.2⟩,rfl,rfl,.inl rfl,?_⟩
    rw [Turn.message]
    dsimp only
    rw [made, Option.getD_some]
  · rename_i other
    have same : messageOf R (collectAll R []) r (r.storedText R) = some m := by
      by_cases answer : r.messageType = .assistant ∨ r.messageType = .toolCall
      · rw [← off (by simpa [answer] using other)]
        exact made
      · exact (messageOf_other shown answer (collectAll R pending) _).symm.trans made
    refine ⟨⟨[],r,shown,.inl rfl⟩,rfl,rfl,.inr rfl,?_⟩
    rw [Turn.message]
    dsimp only
    rw [same, made, Option.getD_some]

theorem RawThreadMessage.Complete.count_lt {r : RawThreadMessage} (complete : r.Complete R) :
    metadataTokenCount r.metadata < 2 ^ 31 := by
  obtain ⟨t,counted,nonneg⟩ := complete.counted
  have kept : metadataTokenCount r.metadata = asUsize t := by
    simp [metadataTokenCount, RawThreadMessage.metadata, counted]
  rw [kept]
  exact asUsize_lt nonneg

theorem RawThreadMessage.Complete.rowTokens_eq {r : RawThreadMessage} (complete : r.Complete R)
    (content : Text) :
    rowTokens R r content = metadataTokenCount r.metadata := by
  obtain ⟨t,counted,-⟩ := complete.counted
  simp [rowTokens, metadataTokenCount, RawThreadMessage.metadata, counted]

theorem RawThreadMessage.Complete.userTokens_eq {r : RawThreadMessage} (complete : r.Complete R)
    (user : r.messageType = .user) :
    userMessagePromptTokenCount R (r.storedText R) r.tokenCount =
      metadataTokenCount r.metadata := by
  obtain ⟨t,counted,nonneg⟩ := complete.counted
  have stored : (storedTokenCount r.tokenCount).getD (R.countTokens (r.storedText R)) =
      metadataTokenCount r.metadata := by
    have high : t.toInt < 2 ^ 31 := t.toInt_lt
    simp only [storedTokenCount, counted, Option.bind_some, if_pos nonneg, Option.getD_some,
      metadataTokenCount, RawThreadMessage.metadata, Option.map_some, asUsize]
    rw [Int.emod_eq_of_lt nonneg (by omega)]
  unfold userMessagePromptTokenCount
  dsimp only
  rw [stored]
  split
  · rename_i image
    exact Nat.max_eq_left (complete.noImage user image)
  · rfl

theorem collect_tokens (complete : ∀ r ∈ rows, r.Complete R) (pending : Option PendingReasoning)
    (word : pendingTokens pending < 2 ^ 64) :
    pendingTokens (rows.foldl (fun pending r => collectReasoning R pending r (r.storedText R))
      pending) =
      (pendingTokens pending + tokens (fun r => metadataTokenCount r.metadata) rows) % 2 ^ 64 := by
  induction rows generalizing pending with
  | nil => exact (Nat.mod_eq_of_lt word).symm
  | cons r rest ih =>
    have first := complete r (by simp)
    have count := first.count_lt
    have step : pendingTokens (collectReasoning R pending r (r.storedText R)) =
        (pendingTokens pending + metadataTokenCount r.metadata) % 2 ^ 64 := by
      unfold collectReasoning
      rw [if_neg first.nonempty, first.rowTokens_eq]
      cases pending with
      | none =>
        rw [show pendingTokens none = 0 from rfl, zero_add, Nat.mod_eq_of_lt (by omega)]
        rfl
      | some p => rfl
    rw [foldl_cons, ih (fun q mem => complete q (by simp [mem]))
      _ (by rw [step]; omega), step,
      tokens_cons, Nat.mod_add_mod, add_assoc]

theorem Turn.entry_tok (t : Turn) :
    t.entry.tok = tokens (fun r => metadataTokenCount r.metadata) t.rows % 2 ^ 64 := by
  have listed :
    (t.reasoning.map RawThreadMessage.metadata ++ [t.row.metadata]).map metadataTokenCount =
      t.rows.map fun r => metadataTokenCount r.metadata := by
    simp [Turn.rows, map_append]
  rw [Turn.entry, ContextEntry.withReasoning]
  dsimp only
  rw [listed, usizeSum_mod]
  rfl

theorem Turn.message_tok {t : Turn} (complete : ∀ r ∈ t.rows, r.Complete R) :
    (t.message R).tok = t.entry.tok := by
  have split : tokens (fun r => metadataTokenCount r.metadata) t.rows =
      tokens (fun r => metadataTokenCount r.metadata) t.reasoning +
        metadataTokenCount t.row.metadata := by
    rw [Turn.rows, tokens_append, tokens_cons, tokens_nil, add_zero]
  have row := complete t.row (by simp [Turn.rows])
  have pending : pendingTokens (collectAll R t.reasoning) =
      tokens (fun r => metadataTokenCount r.metadata) t.reasoning % 2 ^ 64 := by
    have none : pendingTokens none = 0 := rfl
    rw [collectAll, collect_tokens (fun r mem => complete r (by simp [Turn.rows, mem]))
      _ (by decide),
      none, zero_add]
  have sum :
    usizeAdd (metadataTokenCount t.row.metadata) (pendingTokens (collectAll R t.reasoning)) =
      tokens (fun r => metadataTokenCount r.metadata) t.rows % 2 ^ 64 := by
    rw [pending, usizeAdd, Nat.add_mod_mod, split, add_comm]
  have alone : ¬(t.row.messageType = .assistant ∨ t.row.messageType = .toolCall) →
      metadataTokenCount t.row.metadata =
        tokens (fun r => metadataTokenCount r.metadata) t.rows % 2 ^ 64 := by
    intro other
    have count := row.count_lt
    rw [split, t.attached.resolve_right other, tokens_nil, zero_add,
      Nat.mod_eq_of_lt (by omega)]
  rw [t.entry_tok, Turn.message, messageOf]
  cases kind : t.row.messageType with
  | user => exact (row.userTokens_eq kind).trans (alone (by simp [kind]))
  | assistant => simpa only [Option.getD_some, row.rowTokens_eq] using sum
  | toolCall => simpa only [Option.getD_some, row.rowTokens_eq] using sum
  | toolOutput => simpa only [Option.getD_some, row.rowTokens_eq] using alone (by simp [kind])
  | reasoning => exact absurd kind t.shown

/-- What the decode loop needs of a turn to agree with the metadata pass. -/
structure Turn.Good (R : Runtime) (includeReasoning : Bool) (t : Turn) : Prop where
  complete : ∀ r ∈ t.rows, r.Complete R
  grouped : t.Grouped includeReasoning
  few : t.rows.length ≤ Conversation.contextWindowRows

theorem Turn.message_role (t : Turn) : (t.message R).role = t.row.messageType.role := by
  rw [Turn.message, messageOf]
  cases kind : t.row.messageType with
  | reasoning => exact absurd kind t.shown
  | _ => rfl

theorem Turn.isUser_message (t : Turn) :
    isUser (t.message R) = decide (t.entry.messageType = .user) := by
  have byType : ∀ kind : MessageType, decide (kind.role = roleUser) = decide (kind = .user) := by
    intro kind
    cases kind <;> decide
  rw [isUser, t.message_role]
  exact byType _

theorem Turn.isSystem_message (t : Turn) : isSystem (t.message R) = false := by
  have byType : ∀ kind : MessageType, decide (kind.role = roleSystem) = false := by
    intro kind
    cases kind <;> decide
  rw [isSystem, t.message_role]
  exact byType _

theorem turns_member {t : Turn} (mem : t ∈ turns includeReasoning [] rows) :
    t.rows.Sublist rows :=
  (sublist_flatten_of_mem (mem_map_of_mem mem)).trans (turns_sublist includeReasoning [] rows)

theorem turns_good (complete : ∀ r ∈ rows, r.Complete R)
    (few : rows.length ≤ Conversation.contextWindowRows) :
    ∀ t ∈ turns includeReasoning [] rows, t.Good R includeReasoning := by
  intro t mem
  have sub := turns_member mem
  exact ⟨fun r inTurn => complete r (sub.mem inTurn),
    turns_grouped (by simp) (fun _ => rfl) t mem,sub.length_le.trans few⟩

end

def checkComplete (R : Runtime) (r : RawThreadMessage) : Bool :=
  (r.tokenCount.any fun t => decide (0 ≤ t.toInt)) &&
    (r.contentEnc.any fun enc => match decryptText R enc with
      | .ok text => decide (text ≠ []) && !Text.contains text "\"input_image\""
      | .error _ => false)

theorem complete_of_check {R : Runtime} {r : RawThreadMessage}
    (checked : checkComplete R r = true) :
    r.Complete R := by
  obtain ⟨counted,content⟩ := Bool.and_eq_true_iff.mp checked
  obtain ⟨t,count,nonneg⟩ := (Option.any_eq_true _ _).mp counted
  obtain ⟨enc,stored,read⟩ := (Option.any_eq_true _ _).mp content
  split at read
  · rename_i text decrypted
    obtain ⟨nonempty,noImage⟩ := Bool.and_eq_true_iff.mp read
    have same : r.storedText R = text := by
      simp [RawThreadMessage.storedText, stored, decrypted]
    refine ⟨⟨t,count,of_decide_eq_true nonneg⟩,⟨enc,stored,?_⟩,?_,fun _ image => ?_⟩
    · rw [same, decrypted]
    · rw [same]
      exact of_decide_eq_true nonempty
    · rw [same] at image
      rw [image] at noImage
      cases noImage
  · cases read

end OpenSecret
