import OpenSecret.Prompt.ToolPairing

/-!
The ids Kimi models expect. The calls of a prompt are numbered in their order, tool
messages follow the latest call of their id, and nothing else is touched.
-/
open Framing List

namespace Json

variable {key : Text} {value : Json}

theorem update_same {fields : List (Text × Json)} (h : lookup key fields = some value) :
    update key value fields = fields := by
  induction fields with
  | nil => cases h
  | cons field rest ih =>
    obtain ⟨k,v⟩ := field
    simp only [lookup] at h
    simp only [update]
    by_cases here : k = key
    · rw [if_pos here] at h ⊢
      rw [Option.some.inj h]
    · rw [if_neg here] at h ⊢
      rw [ih h]

theorem set_same {message : Json} (h : message.get key = some value) :
    message.set key value = message := by
  cases message with
  | obj fields => exact congrArg Json.obj (update_same h)
  | _ => rfl

/-- A call the normalization numbers: it has a string id and a function name. -/
def numbered (toolCall : Json) : Bool := toolCall.callId.isSome && toolCall.callName.isSome

theorem numbered_iff {toolCall : Json} :
    toolCall.numbered = true ↔ ∃ id name, toolCall.callId = some id ∧
      toolCall.callName = some name := by
  rw [numbered, Bool.and_eq_true, Option.isSome_iff_exists, Option.isSome_iff_exists]
  constructor
  · intro both
    obtain ⟨⟨id,hasId⟩,name,hasName⟩ := both
    exact ⟨id,name,hasId,hasName⟩
  · intro both
    obtain ⟨id,name,hasId,hasName⟩ := both
    exact ⟨⟨id,hasId⟩,name,hasName⟩

def calls (message : Json) : List Json :=
  if message.role = some OpenSecret.roleAssistant
    then (message.toolCalls.bind Json.asArray).getD [] else []

end Json

namespace OpenSecret

def promptCalls (messages : List Json) :
    List Json := messages.flatMap fun m => m.calls.filter Json.numbered

def renamings (before after : List Json) : List (Option Text × Option Text) :=
  ((promptCalls before).map Json.callId).zip ((promptCalls after).map Json.callId)

/-- A call without id or name stays as it is; of another one the id may change. -/
inductive CallRenumbered : Json → Json → Prop
  | malformed {call : Json} (skipped : call.numbered = false) : CallRenumbered call call
  | numbered {call : Json} (taken : call.numbered = true) (new : Text) :
      CallRenumbered call (call.set "id" (.str new))

/-- Only ids of calls and of the tool messages that answer them may change. -/
inductive Renumbered : Json → Json → Prop
  | other {m : Json} (notAssistant : m.role ≠ some roleAssistant)
      (notTool : m.role ≠ some roleTool) :
      Renumbered m m
  | plain {m : Json} (assistant : m.role = some roleAssistant)
      (noCalls : m.toolCalls.bind Json.asArray = none) :
      Renumbered m m
  | calls {m : Json} {calls calls' : List Json} (assistant : m.role = some roleAssistant)
      (array : m.toolCalls.bind Json.asArray = some calls)
      (each : Forall₂ CallRenumbered calls calls') :
      Renumbered m (m.set "tool_calls" (.arr calls'))
  | unmatched {m : Json} (tool : m.role = some roleTool) : Renumbered m m
  | answer {m : Json} {id : Text} (tool : m.role = some roleTool)
      (answers : m.answeredId = some id) (new : Text) :
      Renumbered m (m.set "tool_call_id" (.str new))

section
variable {σ α : Type} {f : σ → α → σ × α}

theorem updateEach_append (s : σ) (items more : List α) :
    updateEach f s (items ++ more) = ((updateEach f (updateEach f s items).1 more).1,
      (updateEach f s items).2 ++ (updateEach f (updateEach f s items).1 more).2) := by
  induction items generalizing s with
  | nil => rfl
  | cons a items ih => simp only [cons_append, updateEach, ih]

theorem updateEach_length (s : σ) (items : List α) :
    (updateEach f s items).2.length = items.length := by
  induction items generalizing s with
  | nil => rfl
  | cons a items ih => rw [updateEach, length_cons, length_cons, ih]

theorem updateEach_again {rel : σ → σ → Prop}
    (step : ∀ s t a, rel s t → rel (f s a).1 (f t (f s a).2).1 ∧ (f t (f s a).2).2 = (f s a).2)
    {s t : σ} (related : rel s t) (items : List α) :
    rel (updateEach f s items).1 (updateEach f t (updateEach f s items).2).1 ∧
      (updateEach f t (updateEach f s items).2).2 = (updateEach f s items).2 := by
  induction items generalizing s t with
  | nil => exact ⟨related,rfl⟩
  | cons a items ih =>
    obtain ⟨next,first⟩ := step s t a related
    obtain ⟨last,later⟩ := ih next
    simp only [updateEach]
    constructor
    · exact last
    · rw [first, later]

end

section
variable {s s' t : KimiIds} {call : Json} {calls calls' more more' : List Json}

theorem kimiToolCall_malformed (skipped : call.numbered = false) :
    kimiToolCall s call = (s,call) := by
  unfold kimiToolCall
  split
  · rename_i name id hasName hasId
    rw [Json.numbered_iff.mpr ⟨id,name,hasId,hasName⟩] at skipped
    cases skipped
  · rfl

theorem kimiToolCall_renumbered (s : KimiIds) (call : Json) :
    CallRenumbered call (kimiToolCall s call).2 := by
  cases taken : call.numbered with
  | false =>
    rw [kimiToolCall_malformed taken]
    exact .malformed taken
  | true =>
    obtain ⟨id,name,hasId,hasName⟩ := Json.numbered_iff.mp taken
    rw [kimiToolCall_numbered hasId hasName]
    exact .numbered taken _

inductive Numbers : KimiIds → List Json → List Json → KimiIds → Prop
  | nil {s : KimiIds} : Numbers s [] [] s
  | cons {s s' : KimiIds} {call : Json} {calls calls' : List Json}
      {id name : Text} (hasId : call.callId = some id)
      (rest : Numbers ⟨s.next + 1,(id,kimiId name s.next) :: s.ids⟩ calls calls' s') :
      Numbers s (call :: calls) (call.set "id" (.str (kimiId name s.next)) :: calls') s'

theorem Numbers.append (first : Numbers s calls calls' t) (later : Numbers t more more' s') :
    Numbers s (calls ++ more) (calls' ++ more') s' := by
  induction first with
  | nil => exact later
  | cons hasId rest ih => exact .cons hasId (ih later)

theorem numbers_calls (s : KimiIds) (calls : List Json) :
    Numbers s (calls.filter Json.numbered)
      ((updateEach kimiToolCall s calls).2.filter Json.numbered)
      (updateEach kimiToolCall s calls).1 := by
  induction calls generalizing s with
  | nil => exact .nil
  | cons call calls ih =>
    simp only [updateEach]
    cases taken : call.numbered with
    | false =>
      rw [kimiToolCall_malformed taken, filter_cons_of_neg (by simp [taken]),
        filter_cons_of_neg (by simp [taken])]
      exact ih s
    | true =>
      obtain ⟨id,name,hasId,hasName⟩ := Json.numbered_iff.mp taken
      have still : (call.set "id" (.str (kimiId name s.next))).numbered = true :=
        Json.numbered_iff.mpr ⟨_,name,callId_set hasId _,(callName_set _).trans hasName⟩
      rw [kimiToolCall_numbered hasId hasName, filter_cons_of_pos taken, filter_cons_of_pos still]
      exact .cons hasId (ih _)

theorem Numbers.length (numbers : Numbers s calls calls' s') : calls'.length = calls.length := by
  induction numbers with
  | nil => rfl
  | cons hasId rest ih => rw [length_cons, length_cons, ih]

theorem Numbers.fresh (numbers : Numbers s calls calls' s') :
    ∀ call ∈ calls', ∃ name i, s.next ≤ i ∧ call.callId = some (kimiId name i) := by
  induction numbers with
  | nil => nofun
  | @cons s s' call calls calls' id name hasId rest ih =>
    intro other mem
    rcases mem_cons.mp mem with rfl | later
    · exact ⟨name,s.next,le_rfl,callId_set hasId _⟩
    · obtain ⟨name',i,above,same⟩ := ih other later
      exact ⟨name',i,Nat.le_of_succ_le above,same⟩

theorem Numbers.nodup (numbers : Numbers s calls calls' s') : (calls'.map Json.callId).Nodup := by
  induction numbers with
  | nil => exact nodup_nil
  | @cons s s' call calls calls' id name hasId rest ih =>
    rw [map_cons]
    apply nodup_cons.mpr
    constructor
    · intro mem
      obtain ⟨other,later,same⟩ := mem_map.mp mem
      obtain ⟨name',i,above,hasOther⟩ := rest.fresh other later
      rw [callId_set hasId, hasOther] at same
      have equal := kimiId_index (Option.some.inj same)
      dsimp only at above
      omega
    · exact ih

/-- The state remembers the original and the new id of each call, the latest first. -/
theorem Numbers.remembered (numbers : Numbers s calls calls' s') :
    s'.ids.map (Prod.map some some) =
      ((calls.map Json.callId).zip (calls'.map Json.callId)).reverse ++
        s.ids.map (Prod.map some some) := by
  induction numbers with
  | nil => rfl
  | cons hasId rest ih =>
    rw [ih, map_cons, map_cons, map_cons, zip_cons_cons, reverse_cons, append_assoc, hasId,
      callId_set hasId]
    rfl

end

section
variable {s t : KimiIds} {m : Json}

theorem calls_assistant (assistant : m.role = some roleAssistant) :
    m.calls = (m.toolCalls.bind Json.asArray).getD [] := if_pos assistant

theorem calls_other (notAssistant : m.role ≠ some roleAssistant) :
    m.calls = [] := if_neg notAssistant

theorem kimiMessage_still_tool {s : KimiIds} {m : Json} (tool : m.role = some roleTool) :
    (kimiMessage s m).2.role = some roleTool := by
  rw [kimiMessage_tool tool]
  cases m.answeredId.bind fun id => s.ids.lookup id with
  | none => exact tool
  | some id => exact (role_set (by decide) _).trans tool

theorem numbers_message (s : KimiIds) (m : Json) :
    Numbers s (m.calls.filter Json.numbered) ((kimiMessage s m).2.calls.filter Json.numbered)
      (kimiMessage s m).1 := by
  by_cases assistant : m.role = some roleAssistant
  · rw [kimiMessage_assistant assistant]
    cases array : m.toolCalls.bind Json.asArray with
    | none =>
      rw [Option.elim_none, calls_assistant assistant, array]
      exact .nil
    | some calls =>
      rw [Option.elim_some, calls_assistant assistant,
        calls_assistant ((role_set (by decide) _).trans assistant),
        toolCalls_set array, array]
      exact numbers_calls s calls
  · rw [calls_other assistant]
    by_cases tool : m.role = some roleTool
    · rw [calls_other (by rw [kimiMessage_still_tool tool]; decide), kimiMessage_tool tool]
      exact .nil
    · rw [kimiMessage_other assistant tool, calls_other assistant]
      exact .nil

theorem numbers_messages (s : KimiIds) (messages : List Json) :
    Numbers s (promptCalls messages) (promptCalls (updateEach kimiMessage s messages).2)
      (updateEach kimiMessage s messages).1 := by
  induction messages generalizing s with
  | nil => exact .nil
  | cons m messages ih => exact (numbers_message s m).append (ih _)

theorem kimiMessage_renumbered (s : KimiIds) (m : Json) : Renumbered m (kimiMessage s m).2 := by
  by_cases assistant : m.role = some roleAssistant
  · rw [kimiMessage_assistant assistant]
    cases array : m.toolCalls.bind Json.asArray with
    | none => exact .plain assistant array
    | some calls =>
      exact .calls assistant array (updateEach_forall₂ kimiToolCall_renumbered s calls)
  · by_cases tool : m.role = some roleTool
    · rw [kimiMessage_tool tool]
      cases answers : m.answeredId with
      | none => exact .unmatched tool
      | some id =>
        rw [Option.bind_some]
        cases s.ids.lookup id with
        | none => exact .unmatched tool
        | some new => exact .answer tool answers new
    · rw [kimiMessage_other assistant tool]
      exact .other assistant tool

/-- A second run counts as the first and renames only ids to themselves. -/
structure Repeats (s t : KimiIds) : Prop where
  next : t.next = s.next
  same : ∀ id new, t.ids.lookup id = some new → new = id

theorem kimiToolCall_again (s t : KimiIds) (call : Json) (repeats : Repeats s t) :
    Repeats (kimiToolCall s call).1 (kimiToolCall t (kimiToolCall s call).2).1 ∧
      (kimiToolCall t (kimiToolCall s call).2).2 = (kimiToolCall s call).2 := by
  cases taken : call.numbered with
  | false =>
    rw [kimiToolCall_malformed taken, kimiToolCall_malformed taken]
    exact ⟨repeats,rfl⟩
  | true =>
    obtain ⟨id,name,hasId,hasName⟩ := Json.numbered_iff.mp taken
    rw [kimiToolCall_numbered hasId hasName,
      kimiToolCall_numbered (callId_set hasId (kimiId name s.next))
      ((callName_set _).trans hasName), repeats.next]
    constructor
    · constructor
      · rfl
      · intro key new found
        rw [lookup_cons] at found
        by_cases here : key = kimiId name s.next
        · rw [here, BEq.rfl] at found
          rw [here, Option.some.inj found]
        · rw [beq_false_of_ne here] at found
          exact repeats.same key new found
    · apply Json.set_same
      obtain ⟨value,found,-⟩ := Option.bind_eq_some_iff.mp hasId
      rw [Json.get_set (Json.isObject_of_get found), if_pos rfl]

theorem kimiMessage_again (s t : KimiIds) (m : Json) (repeats : Repeats s t) :
    Repeats (kimiMessage s m).1 (kimiMessage t (kimiMessage s m).2).1 ∧
      (kimiMessage t (kimiMessage s m).2).2 = (kimiMessage s m).2 := by
  by_cases assistant : m.role = some roleAssistant
  · rw [kimiMessage_assistant assistant]
    cases array : m.toolCalls.bind Json.asArray with
    | none =>
      rw [Option.elim_none, kimiMessage_assistant assistant, array]
      exact ⟨repeats,rfl⟩
    | some calls =>
      obtain ⟨after,same⟩ := updateEach_again kimiToolCall_again repeats calls
      rw [Option.elim_some, kimiMessage_assistant ((role_set (by decide) _).trans assistant),
        toolCalls_set array,
        Option.elim_some]
      constructor
      · exact after
      · rw [same]
        apply Json.set_same
        obtain ⟨value,found,-⟩ := Option.bind_eq_some_iff.mp array
        rw [Json.get_set (Json.isObject_of_get found), if_pos rfl]
  · by_cases tool : m.role = some roleTool
    · have state : (kimiMessage s m).1 = s := by rw [kimiMessage_tool tool]
      rw [state, kimiMessage_tool (kimiMessage_still_tool tool)]
      constructor
      · exact repeats
      · -- an id that is looked up again is found as itself or not at all
        generalize (kimiMessage s m).2 = renamed
        cases answers : renamed.answeredId with
        | none => rfl
        | some id =>
          rw [Option.bind_some]
          cases found : t.ids.lookup id with
          | none => rfl
          | some new =>
            rw [Option.elim_some, repeats.same id new found]
            apply Json.set_same
            obtain ⟨value,present,isText⟩ := Option.bind_eq_some_iff.mp answers
            cases value with
            | str text => rw [present, ← Option.some.inj isText]
            | _ => cases isText
    · rw [kimiMessage_other assistant tool, kimiMessage_other assistant tool]
      exact ⟨repeats,rfl⟩

end

theorem lookup_some (ids : List (Text × Text)) (id : Text) :
    (ids.map (Prod.map some some)).lookup (some id) = (ids.lookup id).map some := by
  induction ids with
  | nil => rfl
  | cons pair ids ih =>
    obtain ⟨old,new⟩ := pair
    rw [map_cons, Prod.map_apply, lookup_cons, lookup_cons]
    by_cases here : id = old
    · rw [here, BEq.rfl, BEq.rfl]
      rfl
    · rw [beq_false_of_ne here, beq_false_of_ne fun same => here (Option.some.inj same), ih]

/-- The normalization gives the calls distinct ids, makes each tool message follow
    the latest call of its id, touches nothing else and is idempotent. -/
theorem kimi_ids_normalized (messages : List Json) :
    ((promptCalls (normalizeToolCallIdsForKimi messages)).map Json.callId).Nodup ∧
    (promptCalls (normalizeToolCallIdsForKimi messages)).length = (promptCalls messages).length ∧
    (∀ before m after id, messages = before ++ m :: after → m.role = some roleTool →
      m.answeredId = some id →
      ∃ m', (normalizeToolCallIdsForKimi messages)[before.length]? = some m' ∧
        m'.answeredId =
          ((renamings before
            ((normalizeToolCallIdsForKimi messages).take before.length)).reverse.lookup
          (some id)).getD (some id)) ∧
    Forall₂ Renumbered messages (normalizeToolCallIdsForKimi messages) ∧
    normalizeToolCallIdsForKimi (normalizeToolCallIdsForKimi messages) =
      normalizeToolCallIdsForKimi messages := by
  have numbers := numbers_messages ⟨0,[]⟩ messages
  refine ⟨numbers.nodup,numbers.length,?_,updateEach_forall₂ kimiMessage_renumbered _ messages,?_⟩
  · intro before m after id split tool answers
    have length := updateEach_length (f := kimiMessage) ⟨0,[]⟩ before
    have remembered := (numbers_messages ⟨0,[]⟩ before).remembered
    rw [map_nil, append_nil] at remembered
    unfold normalizeToolCallIdsForKimi
    rw [split, updateEach_append, ← length]
    refine ⟨(kimiMessage (updateEach kimiMessage ⟨0,[]⟩ before).1 m).2,?_,?_⟩
    · rw [getElem?_append_right le_rfl, Nat.sub_self]
      rfl
    · rw [take_left, renamings, ← remembered, lookup_some, kimiMessage_tool tool,
        answers, Option.bind_some]
      cases List.lookup id (updateEach kimiMessage ⟨0,[]⟩ before).1.ids with
      | none => exact answers
      | some new => exact answeredId_set answers new
  · exact (updateEach_again kimiMessage_again (show Repeats ⟨0,[]⟩ ⟨0,[]⟩ from ⟨rfl,nofun⟩)
      messages).2

def twiceCalled : List Json :=
  let call (name : String) : Json := .obj [("role",.str roleAssistant),("tool_calls",.arr [
    .obj [("id",.str "a"),("function",.obj [("name",.str name.toList)])]])]
  let answer (id : String) : Json :=
    .obj [("role",.str roleTool),("content",.str []),("tool_call_id",.str id.toList)]
  [call "search",answer "a",call "open",answer "a",answer "b"]

theorem twice_called_normalized :
    normalizeToolCallIdsForKimi (normalizeToolCallIdsForKimi twiceCalled) =
      normalizeToolCallIdsForKimi twiceCalled ∧
    (normalizeToolCallIdsForKimi twiceCalled).filterMap Json.answeredId =
      ["functions.search:0".toList,"functions.open:1".toList,"b".toList] := by
  constructor
  · exact (kimi_ids_normalized twiceCalled).2.2.2.2
  · decide +kernel

end OpenSecret
