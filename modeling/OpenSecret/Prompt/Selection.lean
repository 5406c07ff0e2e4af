import OpenSecret.Prompt.ContextBuilder

/-!
The rows that the metadata pass selects. Their ids come from the window of the
newest rows, and the ids of a conversation are unique, so the rows fetched for
them are rows of the window.
-/
namespace OpenSecret
open Framing Truncation List

namespace Conversation

theorem window_keys (c : Conversation) :
    c.getConversationContextMetadata.map RawThreadMessageMetadata.key =
      c.window.map RawThreadMessage.key := by
  rw [getConversationContextMetadata, map_map]
  rfl

theorem window_length (c : Conversation) : c.window.length ≤ contextWindowRows := by
  rw [window, length_drop]
  omega

theorem getMessagesByIds_window (c : Conversation) {ids : List (MessageType × Int)}
    (inWindow : ∀ id ∈ ids, id ∈ c.window.map RawThreadMessage.key) :
    c.getMessagesByIds ids = c.window.filter fun r => r.key ∈ ids := by
  have split : c.rows.take (c.rows.length - contextWindowRows) ++ c.window = c.rows :=
    take_append_drop _ _
  have distinct := c.keys
  rw [← split, map_append] at distinct
  have older :
      (c.rows.take (c.rows.length - contextWindowRows)).filter (fun r => r.key ∈ ids) = [] := by
    refine filter_eq_nil_iff.mpr fun r mem selected => ?_
    have later := inWindow r.key (of_decide_eq_true selected)
    exact (nodup_append.mp distinct).2.2 r.key (mem_map_of_mem mem) r.key later rfl
  rw [getMessagesByIds, ← split, filter_append, older, nil_append]

end Conversation

variable {metadata : List RawThreadMessageMetadata} {id : MessageType × Int}
  {R : Runtime} {model : Text}
  {systemTokens tokenReserve : Nat}

theorem buildContextEntries_mem {includeReasoning : Bool} {pending : List RawThreadMessageMetadata}
    {entry : ContextEntry} (listed : entry ∈ buildContextEntries includeReasoning pending metadata)
    (mem : id ∈ entry.ids) :
    id ∈ (pending ++ metadata).map RawThreadMessageMetadata.key := by
  induction metadata generalizing pending with
  | nil => cases listed
  | cons m rest ih =>
    have cleared : entry ∈ buildContextEntries includeReasoning [] rest →
        id ∈ (pending ++ m :: rest).map RawThreadMessageMetadata.key := by
      intro later
      have inRest := ih later
      rw [nil_append] at inRest
      simp [inRest]
    have grouped : entry ∈ ContextEntry.withReasoning pending m ::
        buildContextEntries includeReasoning [] rest →
        id ∈ (pending ++ m :: rest).map RawThreadMessageMetadata.key := by
      intro which
      rcases mem_cons.mp which with rfl | later
      · have here : id ∈ (pending ++ [m]).map RawThreadMessageMetadata.key := mem
        rw [← singleton_append, ← append_assoc, map_append]
        exact mem_append_left _ here
      · exact cleared later
    have alone : entry ∈ ContextEntry.single m :: buildContextEntries includeReasoning [] rest →
        id ∈ (pending ++ m :: rest).map RawThreadMessageMetadata.key := by
      intro which
      rcases mem_cons.mp which with rfl | later
      · have here : id ∈ [m.key] := mem
        simp [mem_singleton.mp here]
      · exact cleared later
    unfold buildContextEntries at listed
    split at listed
    · have inRest := ih listed
      simpa using inRest
    · have inRest := ih listed
      simp only [map_append, map_cons, mem_append, mem_cons] at inRest ⊢
      tauto
    · exact grouped listed
    · exact grouped listed
    · exact alone listed

theorem determineNeeded_all {needed : List (MessageType × Int) × Bool}
    (determined : determineNeededMessageIds R metadata model systemTokens tokenReserve = needed)
    (whole : needed.2 = false) :
    needed.1 = (buildContextEntries (modelSupportsReasoningHistory model) [] metadata).flatMap
      ContextEntry.ids := by
  subst determined
  unfold determineNeededMessageIds at whole ⊢
  dsimp only at whole ⊢
  split
  · rfl
  · rename_i exceeds
    rw [if_neg exceeds] at whole
    cases whole

theorem determineNeeded_mem
    (mem : id ∈ (determineNeededMessageIds R metadata model systemTokens tokenReserve).1) :
    id ∈ metadata.map RawThreadMessageMetadata.key := by
  have fromEntries :
    ∃ entry ∈ buildContextEntries (modelSupportsReasoningHistory model) [] metadata,
      id ∈ entry.ids := by
    unfold determineNeededMessageIds at mem
    dsimp only at mem
    split at mem
    · exact mem_flatMap.mp mem
    · obtain ⟨entry,kept,inEntry⟩ := mem_flatMap.mp mem
      refine ⟨entry,?_,inEntry⟩
      rcases mem_append.mp kept with first | tail
      · exact mem_of_find?_eq_some (Option.mem_toList.mp first)
      · exact ((fromUser_suffix _).trans (recent_suffix _)).mem tail
  obtain ⟨entry,listed,inEntry⟩ := fromEntries
  exact buildContextEntries_mem listed inEntry

theorem selected_rows (R : Runtime) (c : Conversation) (model : Text)
    (systemTokens tokenReserve : Nat) :
    c.getMessagesByIds
        (determineNeededMessageIds R c.getConversationContextMetadata
          model systemTokens tokenReserve).1 =
      c.window.filter fun r => r.key ∈
        (determineNeededMessageIds R c.getConversationContextMetadata
          model systemTokens tokenReserve).1 :=
  c.getMessagesByIds_window fun _ mem => c.window_keys ▸ determineNeeded_mem mem

end OpenSecret
