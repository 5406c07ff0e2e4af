import OpenSecret.Foundation.Bracketing
import OpenSecret.Prompt.TwoPass
import Mathlib.Data.List.Nodup

/-!
Tool messages and the calls they answer. Stored rows, chat messages and prompt
messages are compared by kind: a user message, a tool call, a tool output, or
anything else. Truncation keeps pairs together because every tail starts with a
user message; the window of the newest rows does not.
-/
open Framing List

namespace Json

def role (message : Json) : Option Text := message.text "role"
def toolCalls (message : Json) : Option Json := message.get "tool_calls"
def answeredId (message : Json) : Option Text := message.text "tool_call_id"
def callId (toolCall : Json) : Option Text := toolCall.text "id"
def callName (toolCall : Json) : Option Text := (toolCall.get "function").bind (·.text "name")

def callIds (message : Json) : List Text :=
  ((message.toolCalls.bind Json.asArray).getD []).filterMap callId

end Json

namespace OpenSecret
open Truncation Bracketing

inductive MessageKind where
  | user
  | plain
  | call (id name : Text)
  | output (id : Text)
  deriving DecidableEq

def kindBrackets : Brackets MessageKind Text where
  barrier kind := kind = .user
  opens kind id := ∃ name, kind = .call id name
  closes kind id := kind = .output id
  exclusive := by
    rintro kind id rfl barrier
    cases barrier

def promptBrackets : Brackets Json Text where
  barrier message := message.role = some roleUser
  opens message id := message.role = some roleAssistant ∧ id ∈ message.callIds
  closes message id := message.role = some roleTool ∧ message.answeredId = some id
  exclusive := by
    rintro message id ⟨tool,-⟩ user
    rw [tool] at user
    exact absurd (Option.some.inj user) (by decide)

/-- Every tool message has an assistant message with its call before it and no
    user message in between. -/
def ToolMessagesPaired (prompt : List Json) : Prop := Paired promptBrackets prompt

/-- A stored call without an id gets one when it is decoded. -/
def rowBrackets (R : Runtime) : Brackets RawThreadMessage Uuid where
  barrier r := r.messageType = .user
  opens r id := r.messageType = .toolCall ∧ r.toolCallId.getD (R.newUuid r) = id
  closes r id := r.messageType = .toolOutput ∧ r.toolCallId = some id
  exclusive := by
    rintro r id ⟨output,-⟩ user
    rw [output] at user
    cases user

/-- Every stored output has its stored call before it and no user row in between. -/
def ToolOutputsPaired (R : Runtime) (rows : List RawThreadMessage) :
    Prop := Paired (rowBrackets R) rows

section

def kimiKind (s : KimiIds) : MessageKind → KimiIds × MessageKind
  | .user => (s,.user)
  | .plain => (s,.plain)
  | .call id name => (⟨s.next + 1,(id,kimiId name s.next) :: s.ids⟩,.call (kimiId name s.next) name)
  | .output id => (s,.output ((s.ids.lookup id).getD id))

theorem updateEach_concat {σ α : Type} (f : σ → α → σ × α) (s : σ) (items : List α) (x : α) :
    updateEach f s (items ++ [x]) = ((f (updateEach f s items).1 x).1,
      (updateEach f s items).2 ++ [(f (updateEach f s items).1 x).2]) := by
  induction items generalizing s with
  | nil => rfl
  | cons y items ih => simp only [cons_append, updateEach, ih]

theorem last_field {a b d e : Text} (noColon : ':' ∉ d) (noColon' : ':' ∉ e)
    (same : a ++ ':' :: d = b ++ ':' :: e) : d = e := by
  rcases append_eq_append_iff.mp same with ⟨more,rfl,rest⟩ | ⟨more,rfl,rest⟩
  · cases more with
    | nil => exact (cons.inj rest).2
    | cons c more =>
      obtain ⟨-,rfl⟩ := cons.inj rest
      exact absurd (by simp) noColon
  · cases more with
    | nil => exact (cons.inj rest).2.symm
    | cons c more =>
      obtain ⟨-,rfl⟩ := cons.inj rest
      exact absurd (by simp) noColon'

/-- The number at the end of an id tells the calls apart, whatever their names. -/
theorem kimiId_index {name name' : Text} {i j : Nat} (same : kimiId name i = kimiId name' j) :
    i = j := by
  have digits : ∀ n, ':' ∉ Nat.toDigits 10 n := by
    intro n mem
    exact absurd (Nat.isDigit_of_mem_toDigits (by decide) (by decide) mem) (by decide)
  unfold kimiId at same
  have fields : Nat.toDigits 10 i = Nat.toDigits 10 j := last_field (digits i) (digits j) same
  calc
    i = Nat.ofDigitChars 10 (Nat.toDigits 10 i) 0 := Nat.ofDigitChars_ten_toDigits.symm
    _ = Nat.ofDigitChars 10 (Nat.toDigits 10 j) 0 := by rw [fields]
    _ = j := Nat.ofDigitChars_ten_toDigits

/-- Ids of the database never look like new ones. -/
def PlainId (id : Text) : Prop := 'u' ∉ id

theorem kimiId_not_plain (name : Text) (i : Nat) : ¬PlainId (kimiId name i) := by
  intro plain
  exact plain (mem_append_left _ (mem_append_left _ (by decide)))

def MessageKind.Plain : MessageKind → Prop
  | .call id _ => PlainId id
  | .output id => PlainId id
  | _ => True

structure Renamed (s : KimiIds) (before after : List MessageKind) : Prop where
  known : ∀ id new, s.ids.lookup id = some new →
    (Opened kindBrackets after new ↔ Opened kindBrackets before id)
  unknown : ∀ id, s.ids.lookup id = none → ¬Opened kindBrackets before id
  fresh : ∀ new, Opened kindBrackets after new ∨ (∃ id, s.ids.lookup id = some new) →
    ∃ name i, i < s.next ∧ new = kimiId name i

theorem renamed_nil : Renamed ⟨0,[]⟩ [] [] where
  known := nofun
  unknown := fun id _ opened => not_opened_nil id opened
  fresh := by
    rintro new (opened | ⟨id,found⟩)
    · exact absurd opened (not_opened_nil new)
    · cases found

theorem opened_call (before : List MessageKind) (id name key : Text) :
    Opened kindBrackets (before ++ [.call id name]) key ↔
      key = id ∨ Opened kindBrackets before key := by
  rw [opened_concat]
  simp [kindBrackets, eq_comm]

theorem opened_user (before : List MessageKind) (key : Text) :
    ¬Opened kindBrackets (before ++ [.user]) key := by
  rw [opened_concat]
  simp [kindBrackets]

variable {kind : MessageKind} {s : KimiIds} {before after : List MessageKind}

theorem opened_other (notUser : kind ≠ .user) (notCall : ∀ id name, kind ≠ .call id name)
    (before : List MessageKind) (key : Text) :
    Opened kindBrackets (before ++ [kind]) key ↔ Opened kindBrackets before key := by
  rw [opened_concat]
  simp [kindBrackets, notUser, notCall]

theorem Renamed.other (renamed : Renamed s before after)
    {kind' : MessageKind} (notUser : kind ≠ .user) (notCall : ∀ id name, kind ≠ .call id name)
    (notUser' : kind' ≠ .user) (notCall' : ∀ id name, kind' ≠ .call id name) :
    Renamed s (before ++ [kind]) (after ++ [kind']) where
  known := fun id new found => by
    rw [opened_other notUser notCall, opened_other notUser' notCall']
    exact renamed.known id new found
  unknown := fun id found => by
    rw [opened_other notUser notCall]
    exact renamed.unknown id found
  fresh := fun new which => by
    rw [opened_other notUser' notCall'] at which
    exact renamed.fresh new which

theorem Renamed.step (renamed : Renamed s before after) (kind : MessageKind) :
    Renamed (kimiKind s kind).1 (before ++ [kind]) (after ++ [(kimiKind s kind).2]) := by
  cases kind with
  | user =>
    refine ⟨fun id new _ => ?_,fun id _ => opened_user before id,fun new which => ?_⟩
    · exact ⟨fun opened => absurd opened (opened_user after new),fun opened =>
        absurd opened (opened_user before id)⟩
    · exact renamed.fresh new (.inr (which.resolve_left (opened_user after new)))
  | plain => exact renamed.other nofun nofun nofun nofun
  | output id => exact renamed.other nofun nofun nofun nofun
  | call id name =>
    have lookup : ∀ key, List.lookup key ((id,kimiId name s.next) :: s.ids) =
        if key = id then some (kimiId name s.next) else s.ids.lookup key := by
      intro key
      rw [lookup_cons]
      by_cases same : key = id
      · simp [same]
      · rw [if_neg same, beq_false_of_ne same]
    refine ⟨fun key new found => ?_,fun key missing => ?_,fun new which => ?_⟩
    · dsimp only [kimiKind] at found ⊢
      rw [opened_call, opened_call]
      rw [lookup] at found
      split at found
      · rename_i same
        cases found
        exact ⟨fun _ => .inl same,fun _ => .inl rfl⟩
      · rename_i differs
        obtain ⟨old,i,below,rfl⟩ := renamed.fresh new (.inr ⟨key,found⟩)
        have notNew : kimiId old i ≠ kimiId name s.next := by
          intro same
          have := kimiId_index same
          omega
        rw [or_iff_right notNew, or_iff_right differs]
        exact renamed.known key _ found
    · dsimp only [kimiKind] at missing ⊢
      rw [lookup] at missing
      split at missing
      · cases missing
      · rename_i differs
        rw [opened_call, or_iff_right differs]
        exact renamed.unknown key missing
    · dsimp only [kimiKind] at which ⊢
      rw [opened_call] at which
      simp only [lookup] at which
      have older : (Opened kindBrackets after new ∨ ∃ key, s.ids.lookup key = some new) →
          ∃ name i, i < s.next + 1 ∧ new = kimiId name i := by
        intro known
        obtain ⟨old,i,below,same⟩ := renamed.fresh new known
        exact ⟨old,i,by omega,same⟩
      rcases which with (rfl | opened) | ⟨key,found⟩
      · exact ⟨name,s.next,by omega,rfl⟩
      · exact older (.inl opened)
      · split at found
        · cases found
          exact ⟨name,s.next,by omega,rfl⟩
        · exact older (.inr ⟨key,found⟩)

theorem kimi_paired {kinds : List MessageKind} (plain : ∀ kind ∈ kinds, kind.Plain) :
    Renamed (updateEach kimiKind ⟨0,[]⟩ kinds).1 kinds (updateEach kimiKind ⟨0,[]⟩ kinds).2 ∧
      (Paired kindBrackets (updateEach kimiKind ⟨0,[]⟩ kinds).2 ↔ Paired kindBrackets kinds) := by
  induction kinds using reverseRecOn with
  | nil => exact ⟨renamed_nil,Iff.rfl⟩
  | append_singleton kinds kind ih =>
    obtain ⟨renamed,paired⟩ := ih fun k mem => plain k (by simp [mem])
    rw [updateEach_concat]
    refine ⟨renamed.step kind,?_⟩
    rw [paired_concat, paired_concat, paired]
    refine and_congr_right fun _ => ?_
    cases kind with
    | user => simp [kindBrackets, kimiKind]
    | plain => simp [kindBrackets, kimiKind]
    | call id name => simp [kindBrackets, kimiKind]
    | output id =>
      have isPlain : PlainId id := plain (.output id) (by simp)
      simp only [kindBrackets, kimiKind, MessageKind.output.injEq, forall_eq']
      cases found : List.lookup id (updateEach kimiKind ⟨0,[]⟩ kinds).1.ids with
      | some new => exact renamed.known id new found
      | none =>
        refine ⟨fun opened => ?_,fun opened => absurd opened (renamed.unknown id found)⟩
        obtain ⟨name,i,-,same⟩ := renamed.fresh id (.inl opened)
        exact absurd (same ▸ isPlain) (kimiId_not_plain name i)

end

section
variable {R : Runtime}

inductive JsonKind : Json → MessageKind → Prop
  | user {message : Json} (role : message.role = some roleUser) : JsonKind message .user
  | plain {message : Json} (notUser : message.role ≠ some roleUser)
      (notTool : message.role ≠ some roleTool)
      (noCalls : message.toolCalls = none) : JsonKind message .plain
  | call {message toolCall : Json} {id name : Text} (role : message.role = some roleAssistant)
      (calls : message.toolCalls = some (.arr [toolCall])) (hasId : toolCall.callId = some id)
      (hasName : toolCall.callName = some name) : JsonKind message (.call id name)
  | output {message : Json} {id : Text} (role : message.role = some roleTool)
      (answers : message.answeredId = some id) : JsonKind message (.output id)

theorem roles_distinct :
    roleUser ≠ roleAssistant ∧ roleUser ≠ roleTool ∧ roleAssistant ≠ roleTool := by
  decide

variable {message : Json} {kind : MessageKind} {messages : List Json} {kinds : List MessageKind}

theorem JsonKind.alike (shape : JsonKind message kind) :
    Alike promptBrackets kindBrackets message kind := by
  obtain ⟨userAssistant,userTool,assistantTool⟩ := roles_distinct
  cases shape with
  | user role =>
    constructor <;> simp [promptBrackets, kindBrackets, role, userAssistant, userTool]
  | plain notUser notTool noCalls =>
    constructor <;> simp [promptBrackets, kindBrackets, notUser, notTool, Json.callIds, noCalls]
  | call role calls hasId hasName =>
    constructor
    · simp [promptBrackets, kindBrackets, role, userAssistant.symm]
    · simp [promptBrackets, kindBrackets, role, Json.callIds, calls, Json.asArray, hasId]
    · simp [promptBrackets, kindBrackets, role, assistantTool]
  | output role answers =>
    constructor
    · simp [promptBrackets, kindBrackets, role, userTool.symm]
    · simp [promptBrackets, kindBrackets, role, assistantTool.symm]
    · simp [promptBrackets, kindBrackets, role, answers]

section
variable {message toolCall : Json} {s : KimiIds}

theorem kimiMessage_assistant (assistant : message.role = some roleAssistant) :
    kimiMessage s message = (message.toolCalls.bind Json.asArray).elim (s,message) fun toolCalls =>
      ((updateEach kimiToolCall s toolCalls).1,
        message.set "tool_calls" (.arr (updateEach kimiToolCall s toolCalls).2)) := by
  rw [show kimiMessage s message = _ from if_pos assistant, Json.toolCalls]
  cases (message.get "tool_calls").bind Json.asArray with
  | none => rfl
  | some toolCalls => rfl

theorem kimiMessage_tool (tool : message.role = some roleTool) :
    kimiMessage s message =
      (s,(message.answeredId.bind fun id => s.ids.lookup id).elim message fun id =>
      message.set "tool_call_id" (.str id)) := by
  have notAssistant : message.role ≠ some roleAssistant := by
    rw [tool]
    decide
  rw [show kimiMessage s message = _ from (if_neg notAssistant).trans (if_pos tool),
    Json.answeredId]
  cases (message.text "tool_call_id").bind fun id => s.ids.lookup id with
  | none => rfl
  | some id => rfl

theorem kimiMessage_other (notAssistant : message.role ≠ some roleAssistant)
    (notTool : message.role ≠ some roleTool) : kimiMessage s message = (s,message) :=
  (if_neg notAssistant).trans (if_neg notTool)

variable {id : Text}

theorem kimiToolCall_numbered {name : Text} (hasId : toolCall.callId = some id)
    (hasName : toolCall.callName = some name) :
    kimiToolCall s toolCall = (⟨s.next + 1,(id,kimiId name s.next) :: s.ids⟩,
      toolCall.set "id" (.str (kimiId name s.next))) := by
  unfold Json.callName at hasName
  unfold Json.callId at hasId
  rw [kimiToolCall, hasName, hasId]

theorem text_set {key : Text} (present : message.text key = some id) (new : Text) :
    (message.set key (.str new)).text key = some new := by
  obtain ⟨value,found,-⟩ := Option.bind_eq_some_iff.mp present
  rw [Json.text, Json.get_set (Json.isObject_of_get found), if_pos rfl]
  rfl

theorem callId_set (hasId : toolCall.callId = some id) (new : Text) :
    (toolCall.set "id" (.str new)).callId = some new :=
  text_set hasId new

theorem callName_set (new : Text) :
    (toolCall.set "id" (.str new)).callName = toolCall.callName := by
  rw [Json.callName, Json.get_set_of_ne (by decide)]
  rfl

theorem role_set {key : Text} (differs : key ≠ "role") (value : Json) :
    (message.set key value).role = message.role := by
  rw [Json.role, Json.text, Json.get_set_of_ne differs]
  rfl

theorem toolCalls_set {array : List Json}
    (present : message.toolCalls.bind Json.asArray = some array) (calls : List Json) :
    (message.set "tool_calls" (.arr calls)).toolCalls.bind Json.asArray = some calls := by
  obtain ⟨value,found,-⟩ := Option.bind_eq_some_iff.mp present
  rw [Json.toolCalls, Json.get_set (Json.isObject_of_get found), if_pos rfl]
  rfl

theorem answeredId_set (answers : message.answeredId = some id) (new : Text) :
    (message.set "tool_call_id" (.str new)).answeredId = some new :=
  text_set answers new

end

theorem JsonKind.kimi (shape : JsonKind message kind) (s : KimiIds) :
    (kimiMessage s message).1 = (kimiKind s kind).1 ∧
      JsonKind (kimiMessage s message).2 (kimiKind s kind).2 := by
  obtain ⟨userAssistant,userTool,assistantTool⟩ := roles_distinct
  cases shape with
  | user role =>
    rw [kimiMessage_other (by simp [role, userAssistant]) (by simp [role, userTool])]
    exact ⟨rfl,.user role⟩
  | plain notUser notTool noCalls =>
    have same : kimiMessage s message = (s,message) := by
      by_cases assistant : message.role = some roleAssistant
      · rw [kimiMessage_assistant assistant, noCalls]
        rfl
      · exact kimiMessage_other assistant notTool
    rw [same]
    exact ⟨rfl,.plain notUser notTool noCalls⟩
  | @call toolCall id name role calls hasId hasName =>
    have object : message.isObject = true := Json.isObject_of_get calls
    have one : updateEach kimiToolCall s [toolCall] =
      (⟨s.next + 1,(id,kimiId name s.next) :: s.ids⟩,
        [toolCall.set "id" (.str (kimiId name s.next))]) := by
      simp only [updateEach, kimiToolCall_numbered hasId hasName]
    have array : (some (Json.arr [toolCall])).bind Json.asArray = some [toolCall] := rfl
    rw [kimiMessage_assistant role, calls, array, Option.elim_some, one]
    refine ⟨rfl,@JsonKind.call _ (toolCall.set "id" (.str (kimiId name s.next))) _ _ ?_ ?_ ?_ ?_⟩
    · exact (role_set (by decide) _).trans role
    · rw [Json.toolCalls, Json.get_set object, if_pos rfl]
    · exact callId_set hasId _
    · exact (callName_set _).trans hasName
  | @output id role answers =>
    rw [kimiMessage_tool role, answers, Option.bind_some]
    dsimp only [kimiKind]
    cases found : List.lookup id s.ids with
    | none => exact ⟨rfl,.output role answers⟩
    | some new =>
      exact ⟨rfl,.output ((role_set (by decide) _).trans role) (answeredId_set answers new)⟩

theorem updateEach_kinds (shapes : Forall₂ JsonKind messages kinds) (s : KimiIds) :
    Forall₂ JsonKind (updateEach kimiMessage s messages).2
      (updateEach kimiKind s kinds).2 := by
  induction shapes generalizing s with
  | nil => exact .nil
  | cons shape _ ih =>
    obtain ⟨state,renamed⟩ := shape.kimi s
    refine .cons renamed ?_
    rw [state]
    exact ih _

theorem finalMessages_paired {model : Text}
    (shapes : Forall₂ JsonKind messages kinds) (plain : ∀ kind ∈ kinds, kind.Plain) :
    ToolMessagesPaired (finalMessages model messages) ↔ Paired kindBrackets kinds := by
  unfold finalMessages
  split
  · exact (paired_alike ((updateEach_kinds shapes ⟨0,[]⟩).imp fun _ _ => JsonKind.alike)).trans
      (kimi_paired plain).2
  · exact paired_alike (shapes.imp fun _ _ => JsonKind.alike)

end

section
variable {R : Runtime}

/-- Calls the context builder writes are read back by the renderer as they were. -/
def ReadsBackCalls (R : Runtime) : Prop :=
  ∀ id name arguments, R.parseJson (R.printJson (toolCallJson id name arguments)) =
    some (toolCallJson id name arguments)

def rowKind (R : Runtime) (r : RawThreadMessage) : MessageKind :=
  match r.messageType with
  | .user => .user
  | .toolCall => .call (r.toolCallId.getD (R.newUuid r)).hyphenated (r.toolName.getD "function")
  | .toolOutput => match r.toolCallId with
    | some id => .output id.hyphenated
    | none => .plain
  | _ => .plain

/-- The kind of a chat message. A tool message without an id is never rendered. -/
inductive Shows (R : Runtime) : ChatMsg → MessageKind → Prop
  | user {m : ChatMsg} (role : m.role = roleUser) : Shows R m .user
  | system {m : ChatMsg} (role : m.role = roleSystem) : Shows R m .plain
  | text {m : ChatMsg} (role : m.role = roleAssistant)
      (noCall : parsedToolCall R m.content = none) :
      Shows R m .plain
  | call {m : ChatMsg} {id : Uuid} {name arguments : Text} (role : m.role = roleAssistant)
      (parsed : parsedToolCall R m.content = some (toolCallJson id name arguments)) :
      Shows R m (.call id.hyphenated name)
  | output {m : ChatMsg} {id : Uuid} (role : m.role = roleTool) (answers : m.toolCallId = some id) :
      Shows R m (.output id.hyphenated)
  | unanswered {m : ChatMsg} (role : m.role = roleTool) (answers : m.toolCallId = none) :
      Shows R m .plain

def msgKind (R : Runtime) (m : ChatMsg) : MessageKind :=
  if m.role = roleUser then .user
  else if m.role = roleTool then match m.toolCallId with
    | some id => .output id.hyphenated
    | none => .plain
  else if m.role = roleAssistant then
    match (parsedToolCall R m.content).bind fun parsed => parsed.toolCalls.bind Json.asArray with
    | some (toolCall :: _) => .call (toolCall.callId.getD []) (toolCall.callName.getD [])
    | _ => .plain
  else .plain

variable {m : ChatMsg} {kind : MessageKind} {includeReasoning : Bool}
  {pending : Option PendingReasoning}
  {rows : List RawThreadMessage} {msgs : List ChatMsg}

theorem Shows.kind_eq (shows : Shows R m kind) : msgKind R m = kind := by
  obtain ⟨userAssistant,userTool,assistantTool⟩ := roles_distinct
  unfold msgKind
  cases shows with
  | user role => rw [if_pos role]
  | system role => rw [role, if_neg (by decide), if_neg (by decide), if_neg (by decide)]
  | text role noCall =>
    rw [role, if_neg userAssistant.symm, if_neg assistantTool, if_pos rfl, noCall]
    rfl
  | call role parsed =>
    rw [role, if_neg userAssistant.symm, if_neg assistantTool, if_pos rfl, parsed]
    rfl
  | output role answers => rw [role, if_neg userTool.symm, if_pos rfl, answers]
  | unanswered role answers => rw [role, if_neg userTool.symm, if_pos rfl, answers]

theorem msgKind_user_iff (m : ChatMsg) : kindBrackets.barrier (msgKind R m) ↔ isUser m = true := by
  unfold msgKind isUser kindBrackets
  by_cases user : m.role = roleUser
  · simp [user]
  · simp only [user, if_false, decide_false, Bool.false_eq_true, iff_false]
    split
    · split <;> nofun
    · split
      · split <;> nofun
      · nofun

theorem msgKind_closes {id : Text} (closes : kindBrackets.closes (msgKind R m) id) :
    m.role = roleTool := by
  unfold msgKind kindBrackets at closes
  dsimp only at closes
  split at closes
  · cases closes
  · split at closes
    · assumption
    · split at closes
      · split at closes <;> cases closes
      · cases closes

theorem u_not_mem_hyphenated (id : Uuid) : PlainId id.hyphenated := by
  have digit : ∀ n, Text.hexDigit n ≠ 'u' := by
    intro n same
    have value := Text.hexValue_hexDigit n
    rw [same] at value
    cases value
  intro mem
  have kept : 'u' ∈ id.hyphenated.filter (· ≠ '-') := mem_filter.mpr ⟨mem,by decide⟩
  rw [id.filter_hyphenated, Text.lowerHex] at kept
  obtain ⟨b,-,inPair⟩ := mem_flatMap.mp kept
  simp only [mem_cons, not_mem_nil, or_false] at inPair
  rcases inPair with same | same <;> exact digit _ same.symm

theorem Shows.plain (shows : Shows R m kind) : kind.Plain := by
  cases shows with
  | call => exact u_not_mem_hyphenated _
  | output => exact u_not_mem_hyphenated _
  | _ => trivial

theorem Shows.rendered {message : Json}
    (shows : Shows R m kind) (rendering : renderMessage R includeReasoning m = .ok message) :
    JsonKind message kind := by
  obtain ⟨userAssistant,userTool,assistantTool⟩ := roles_distinct
  have emitted : Emitted R includeReasoning m message := ⟨message,rendering,.refl message⟩
  cases shows with
  | user role =>
    have same : message.role = some m.role :=
      emitted.role_of_not_assistant (by rw [role]; exact userAssistant)
    exact .user (by rw [same, role])
  | system role =>
    have same : message.role = some m.role := emitted.role_of_not_assistant (by rw [role]; decide)
    rw [role] at same
    refine .plain (by rw [same]; decide) (by rw [same]; decide) ?_
    rw [renderMessage, role, if_neg (by decide), if_neg (by decide),
      if_neg (by decide)] at rendering
    cases rendering
    rfl
  | text role noCall =>
    have plain := emitted.plain role noCall
    have same : message.role = some roleAssistant := plain.role
    exact .plain (by rw [same]; decide) (by rw [same]; decide) plain.noCalls
  | @call id name arguments role parsed =>
    have read : assistantMessage R m.content = toolCallJson id name arguments := by
      rw [assistantMessage, parsed, Option.getD_some]
    rw [renderMessage, if_neg (by rw [role]; exact assistantTool), if_pos role, read] at rendering
    have same := Except.ok.inj rendering
    have kept : ∀ {key : Text}, key ≠ "reasoning" → key ≠ "content" →
        message.get key = (toolCallJson id name arguments).get key := by
      intro key notReasoning notContent
      rw [← same, attachReasoning_get notReasoning notContent]
    refine .call ?_ (kept (by decide) (by decide)) rfl rfl
    rw [Json.role, Json.text, kept (by decide) (by decide)]
    rfl
  | @output id role answers =>
    rw [renderMessage, if_pos role, answers] at rendering
    cases rendering
    exact .output rfl rfl
  | unanswered role answers =>
    rw [renderMessage, if_pos role, answers] at rendering
    cases rendering

theorem DecodedRow.shows {r : RawThreadMessage} (reads : ReadsBackCalls R)
    (noCalls : NoCallText R rows) (mem : r ∈ rows) (decoded : DecodedRow R pending r m) :
    Shows R m (rowKind R r) := by
  obtain ⟨enc,content,stored,decrypted,made⟩ := decoded
  unfold messageOf at made
  unfold rowKind
  cases kind : r.messageType with
  | user =>
    rw [kind] at made
    cases made
    exact .user rfl
  | assistant =>
    rw [kind] at made
    cases made
    exact .text rfl (noCalls r mem kind enc content stored decrypted)
  | toolCall =>
    rw [kind] at made
    cases made
    have parsed : parsedToolCall R (R.printJson (storedToolCall R r content)) =
        some (storedToolCall R r content) := by
      rw [parsedToolCall, storedToolCall, reads]
      rfl
    exact .call rfl parsed
  | toolOutput =>
    rw [kind] at made
    cases made
    cases answers : r.toolCallId with
    | some id => exact .output rfl rfl
    | none => exact .unanswered rfl rfl
  | reasoning =>
    rw [kind] at made
    cases made

def Regular (R : Runtime) (m : ChatMsg) : Prop := Shows R m (msgKind R m)

theorem Shows.regular (shows : Shows R m kind) : Regular R m := by
  rw [Regular, shows.kind_eq]
  exact shows

theorem decoded_kinds (reads : ReadsBackCalls R) (noCalls : NoCallText R rows)
    (decoding : decodeMessages R includeReasoning pending rows = .ok msgs) :
    msgs.map (msgKind R) = (rows.filter RawThreadMessage.visible).map (rowKind R) ∧
      ∀ m ∈ msgs, Regular R m := by
  have fromRows := decodeMessages_rows decoding
  have inRows : ∀ r ∈ rows.filter RawThreadMessage.visible, r ∈ rows := fun r => mem_of_mem_filter
  generalize rows.filter RawThreadMessage.visible = shown at fromRows inRows
  clear decoding
  induction fromRows with
  | nil => exact ⟨rfl,by simp⟩
  | @cons r m _ _ decoded _ ih =>
    obtain ⟨pending,decoded⟩ := decoded
    have shows := decoded.shows reads noCalls (inRows r (by simp))
    obtain ⟨kinds,regular⟩ := ih fun q mem => inRows q (by simp [mem])
    refine ⟨by rw [map_cons, map_cons, kinds, shows.kind_eq],?_⟩
    exact forall_mem_cons.mpr ⟨shows.regular,regular⟩

theorem rowKind_alike (R : Runtime) (r : RawThreadMessage) :
    Alike ((rowBrackets R).mapKey Octets.hyphenated) kindBrackets r (rowKind R r) := by
  unfold rowKind
  cases kind : r.messageType with
  | toolOutput =>
    cases answers : r.toolCallId with
    | some id => constructor <;> simp [Brackets.mapKey, rowBrackets, kindBrackets, kind, answers]
    | none => constructor <;> simp [Brackets.mapKey, rowBrackets, kindBrackets, kind, answers]
  | toolCall =>
    constructor
    · simp [Brackets.mapKey, rowBrackets, kindBrackets, kind]
    · intro key
      simp [Brackets.mapKey, rowBrackets, kindBrackets, kind]
    · simp [Brackets.mapKey, rowBrackets, kindBrackets, kind]
  | _ => constructor <;> simp [Brackets.mapKey, rowBrackets, kindBrackets, kind]

theorem rowKinds_paired (R : Runtime) (rows : List RawThreadMessage) :
    Paired kindBrackets (rows.map (rowKind R)) ↔ ToolOutputsPaired R rows := by
  have alike : Forall₂ (Alike ((rowBrackets R).mapKey Octets.hyphenated) kindBrackets) rows
      (rows.map (rowKind R)) := by
    rw [forall₂_map_right_iff]
    exact forall₂_same.mpr fun r _ => rowKind_alike R r
  rw [← paired_alike alike, paired_mapKey fun _ _ => Octets.hyphenated_injective]
  rfl

/-- A build that returns is paired exactly when the kinds of what it kept are. -/
theorem prompt_paired_iff {model : Text} {tokenReserve total : Nat} {prompt : List Json}
    (regular : ∀ m ∈ fitMessages R (promptTokenBudget model - tokenReserve) msgs, Regular R m)
    (built : buildPromptFromChatMessagesWithTokenReserve R msgs model tokenReserve =
      .ok (prompt,total)) :
    ToolMessagesPaired prompt ↔
      Paired kindBrackets
        ((fitMessages R (promptTokenBudget model - tokenReserve) msgs).map (msgKind R)) := by
  obtain ⟨rendered,rendering,rfl,-⟩ := buildPrompt_ok built
  generalize fitMessages R (promptTokenBudget model - tokenReserve) msgs = kept at regular rendering
  clear built
  refine finalMessages_paired ?_ ?_
  · rw [forall₂_map_right_iff]
    induction rendering with
    | nil => exact .nil
    | @cons m message _ _ rendered _ ih =>
      exact .cons ((regular m (by simp)).rendered rendered)
        (ih fun x mem => regular x (by simp [mem]))
  · intro kind mem
    obtain ⟨m,inKept,rfl⟩ := mem_map.mp mem
    exact (regular m inKept).plain

end

section
variable {R : Runtime} {ctxBudget : Nat} {msgs : List ChatMsg}

section
variable {α κ : Type} {B : Brackets α κ} {view : ChatMsg → α} {earlier : List α}

theorem tail_paired {tail : List ChatMsg} (users : ∀ m, isUser m = true → B.barrier (view m))
    (paired : Paired B (earlier ++ msgs.map view)) (suffix : fromUser isUser tail <:+ msgs) :
    Paired B ((fromUser isUser tail).map view) := by
  cases cut : fromUser isUser tail with
  | nil => exact paired_nil
  | cons m rest =>
    obtain ⟨before,split⟩ := suffix
    have user : B.barrier (view m) := users m (fromUser_head cut)
    rw [← split, cut, map_append, map_cons, ← append_assoc] at paired
    exact paired.of_barrier user

theorem closes_nothing {kept : List ChatMsg}
    (tools : ∀ m k, B.closes (view m) k → m.role = roleTool)
    (roles : ∀ m ∈ kept, m.role ≠ roleTool) : Paired B (kept.map view) := by
  refine paired_of_closes_nothing fun x mem k closes => ?_
  obtain ⟨m,inKept,rfl⟩ := mem_map.mp mem
  exact roles m inKept (tools m k closes)

theorem truncateMessages_paired (users : ∀ m, isUser m = true → B.barrier (view m))
    (tools : ∀ m k, B.closes (view m) k → m.role = roleTool)
    (paired : Paired B (earlier ++ msgs.map view)) :
    Paired B ((truncateMessages R ctxBudget msgs).map view) := by
  have tail : Paired B ((keptTail R ctxBudget msgs).map view) :=
    tail_paired users paired (keptTail_suffix R ctxBudget msgs)
  have notTool : ∀ m, isSystem m = true ∨ isUser m = true → m.role ≠ roleTool := by
    rintro m (system | user)
    · rw [show m.role = roleSystem from of_decide_eq_true system]
      decide
    · rw [show m.role = roleUser from of_decide_eq_true user]
      decide
  have head : Paired B ((headMessages false msgs).map view) := by
    rw [headMessages_opening]
    exact closes_nothing tools fun m mem => notTool m (opening_roles msgs m mem)
  rcases truncateMessages_cases R ctxBudget msgs with ⟨-,same⟩ | ⟨-,sys,found,-,-,same⟩ | ⟨-,-,same⟩
  · rw [same, keptMessages, map_append, map_append]
    refine (head.append (closes_nothing tools fun m mem => ?_)).append tail
    split at mem
    · rw [mem_singleton.mp mem]
      exact roles_distinct.2.2
    · cases mem
  · have system : isSystem sys = true := find?_some found
    rw [same, ← singleton_append, map_append]
    refine Paired.append (closes_nothing tools fun m mem => ?_) tail
    rw [mem_singleton.mp mem]
    exact notTool sys (.inl system)
  · rw [same]
    exact tail

end

theorem kinds_truncated_paired {earlier : List MessageKind}
    (paired : Paired kindBrackets (earlier ++ msgs.map (msgKind R))) :
    Paired kindBrackets ((truncateMessages R ctxBudget msgs).map (msgKind R)) :=
  truncateMessages_paired (fun m => (msgKind_user_iff m).mpr) (fun _ _ => msgKind_closes) paired

theorem mem_fitMessages {m : ChatMsg} (mem : m ∈ fitMessages R ctxBudget msgs) :
    m ∈ msgs ∨ m = truncationMsg R := by
  have tail : m ∈ keptTail R ctxBudget msgs → m ∈ msgs := (keptTail_suffix R ctxBudget msgs).mem
  have kept {m : ChatMsg} (mem : m ∈ keptMessages R ctxBudget msgs) :
      m ∈ msgs ∨ m = truncationMsg R := by
    rcases mem_append.mp mem with front | tail
    · rcases mem_append.mp front with head | cut
      · exact .inl ((headMessages_sublist false msgs).mem head)
      · split at cut
        · exact .inr (mem_singleton.mp cut)
        · cases cut
    · exact .inl ((keptTail_suffix R ctxBudget msgs).mem tail)
  unfold fitMessages at mem
  split at mem
  · rcases truncateMessages_cases R ctxBudget
      msgs with ⟨-,same⟩ | ⟨-,sys,found,-,-,same⟩ | ⟨-,-,same⟩ <;>
      rw [same] at mem
    · exact kept mem
    · rcases mem_cons.mp mem with rfl | mem
      · exact kept (mem_of_find?_eq_some found)
      · exact .inl (tail mem)
    · exact .inl (tail mem)
  · exact .inl mem

theorem mem_withTruncationMsg {m : ChatMsg} {hasSystem didTruncate : Bool}
    (mem : m ∈ withTruncationMsg R hasSystem didTruncate msgs) :
    m ∈ msgs ∨ m = truncationMsg R := by
  rcases withTruncationMsg_split R hasSystem didTruncate
    msgs with same | ⟨before,after,-,-,split,-,marked⟩
  · exact .inl (same ▸ mem)
  · simp only [marked, mem_append, mem_cons] at mem
    rw [split, mem_append]
    tauto

end

section
variable {R : Runtime} {c : Conversation} {model : Text} {systemTokens tokenReserve : Nat}

variable {includeReasoning : Bool}

theorem visible_rows {ts : List Turn} (grouped : ∀ t ∈ ts, t.Grouped includeReasoning) :
    (ts.flatMap Turn.rows).filter RawThreadMessage.visible =
      (ts.map Turn.row).filter RawThreadMessage.visible := by
  induction ts with
  | nil => rfl
  | cons t ts ih =>
    have hidden : t.reasoning.filter RawThreadMessage.visible = [] := by
      refine filter_eq_nil_iff.mpr fun r mem => ?_
      simp [RawThreadMessage.visible, (grouped t (by simp)).1 r mem]
    rw [flatMap_cons, Turn.rows, filter_append, filter_append, hidden, nil_append,
      ih fun q mem => grouped q (by simp [mem]), map_cons, ← filter_append, singleton_append]

theorem window_entries (includeReasoning : Bool) (c : Conversation) :
    buildContextEntries includeReasoning [] c.getConversationContextMetadata =
      (turns includeReasoning [] c.window).map Turn.entry :=
  buildContextEntries_turns includeReasoning [] c.window

theorem window_sublist (c : Conversation) : c.window.Sublist c.rows := drop_sublist _ _

variable {needed : List (MessageType × Int) × Bool}

theorem fetched_whole
    (determined : determineNeededMessageIds R c.getConversationContextMetadata
      model systemTokens tokenReserve = needed)
    (whole : needed.2 = false) :
    c.getMessagesByIds needed.1 =
      (turns (modelSupportsReasoningHistory model) [] c.window).flatMap Turn.rows := by
  have ids := determineNeeded_all determined whole
  rw [window_entries, flatMap_map] at ids
  have chosen : ∀ key, key ∈ needed.1 ↔
    key ∈ (turns (modelSupportsReasoningHistory model) [] c.window).flatMap
      fun t => t.rows.map RawThreadMessage.key := by
    intro key
    rw [ids]
    simp only [Turn.entry_ids]
  exact (getMessagesByIds_turns (window_sublist c) (Sublist.refl _) chosen).2

theorem mem_fetched_whole
    (determined : determineNeededMessageIds R c.getConversationContextMetadata
      model systemTokens tokenReserve = needed)
    (whole : needed.2 = false) {r : RawThreadMessage} (mem : r ∈ c.window)
    (shown : r.shown = true) : r ∈ c.getMessagesByIds needed.1 := by
  have inTurns := mem_filter.mpr ⟨mem,shown⟩
  rw [← turns_row (modelSupportsReasoningHistory model) [] c.window] at inTurns
  obtain ⟨t,listed,rfl⟩ := mem_map.mp inTurns
  rw [fetched_whole determined whole]
  exact mem_flatMap.mpr ⟨t,listed,by simp [Turn.rows]⟩

theorem selected_whole
    (determined : determineNeededMessageIds R c.getConversationContextMetadata
      model systemTokens tokenReserve = needed)
    (whole : needed.2 = false) :
    (c.getMessagesByIds needed.1).filter RawThreadMessage.visible =
      c.window.filter RawThreadMessage.visible := by
  have implied : ∀ r, RawThreadMessage.visible r = true → RawThreadMessage.shown r = true :=
    fun r visible =>
    (Bool.and_eq_true_iff.mp visible).1
  rw [fetched_whole determined whole, visible_rows (turns_grouped (by simp) fun _ => rfl),
    turns_row,
    filter_filter]
  refine filter_congr fun r _ => ?_
  cases visible : r.visible with
  | true => rw [implied r visible, Bool.and_self]
  | false => rfl

theorem determineNeeded_cut {metadata : List RawThreadMessageMetadata}
    (determined : determineNeededMessageIds R metadata model systemTokens tokenReserve = needed)
    (cut : needed.2 = true) :
    ∃ available, needed.1 = (firstUser ContextEntry.isUser
        (buildContextEntries (modelSupportsReasoningHistory model) [] metadata) ++
      fromUser ContextEntry.isUser (recent ContextEntry.tok available
        (buildContextEntries (modelSupportsReasoningHistory model) [] metadata))).flatMap
          ContextEntry.ids := by
  subst determined
  unfold determineNeededMessageIds at cut ⊢
  dsimp only at cut ⊢
  split at cut
  · cases cut
  · rename_i exceeds
    rw [if_neg exceeds]
    exact ⟨_,rfl⟩

theorem Turn.isUser_entry {t : Turn} (user : (ContextEntry.isUser ∘ Turn.entry) t = true) :
    t.row.messageType = .user := by
  have kind : t.entry.messageType = t.row.messageType := rfl
  rw [← kind]
  exact of_decide_eq_true user

theorem turns_tail_paired {tail : List Turn} (paired : ToolOutputsPaired R c.rows)
    (suffix : fromUser (ContextEntry.isUser ∘ Turn.entry) tail <:+
      turns includeReasoning [] c.window) :
    ToolOutputsPaired R ((fromUser (ContextEntry.isUser ∘ Turn.entry) tail).map Turn.row) := by
  cases cut : fromUser (ContextEntry.isUser ∘ Turn.entry) tail with
  | nil => exact paired_nil
  | cons t rest =>
    obtain ⟨before,split⟩ := suffix
    have user : t.row.messageType = .user := Turn.isUser_entry (fromUser_head cut)
    have shown : ToolOutputsPaired R (c.rows.filter RawThreadMessage.shown) := by
      refine Paired.filter ?_ paired
      rintro r - id ⟨call,-⟩
      simp [RawThreadMessage.shown, call]
    have rows : c.rows.take (c.rows.length - Conversation.contextWindowRows) ++ c.window = c.rows :=
      take_append_drop _ _
    rw [← rows, filter_append, ← turns_row includeReasoning [] c.window, ← split, cut, map_append,
      map_cons, ← append_assoc] at shown
    exact shown.of_barrier user

/-- Every row shows as what it is: no text as a call, and every call. -/
structure ShownAsStored (R : Runtime) (rows : List RawThreadMessage) : Prop where
  noCalls : NoCallText R rows
  calls : ∀ r ∈ rows, r.messageType = .toolCall → r.contentEnc.isSome = true

theorem selected_cut_paired (paired : ToolOutputsPaired R c.rows)
    (stored : ∀ r ∈ c.getMessagesByIds needed.1, r.messageType = .toolCall →
      r.contentEnc.isSome = true)
    (determined : determineNeededMessageIds R c.getConversationContextMetadata
      model systemTokens tokenReserve = needed)
    (cut : needed.2 = true) :
    ToolOutputsPaired R ((c.getMessagesByIds needed.1).filter RawThreadMessage.visible) := by
  obtain ⟨available,ids⟩ := determineNeeded_cut determined cut
  rw [window_entries, firstUser_map, recent_map, fromUser_map, ← map_append, flatMap_map] at ids
  generalize listed : turns (modelSupportsReasoningHistory model) [] c.window = ts at ids
  generalize cutTail : fromUser (ContextEntry.isUser ∘ Turn.entry)
    (recent (ContextEntry.tok ∘ Turn.entry) available ts) = tail at ids
  have suffix : recent (ContextEntry.tok ∘ Turn.entry) available ts <:+ ts := recent_suffix ts
  obtain ⟨sub,members⟩ := @withFirst_spec Turn (ContextEntry.isUser ∘ Turn.entry) ts _ suffix
  rw [cutTail] at sub members
  have chosen : ∀ key, key ∈ needed.1 ↔
    key ∈ (withFirst (ContextEntry.isUser ∘ Turn.entry) ts tail).flatMap
      fun t => t.rows.map RawThreadMessage.key := by
    intro key
    rw [ids]
    simp only [mem_flatMap, members, Turn.entry_ids]
  have inTurns : (withFirst (ContextEntry.isUser ∘ Turn.entry) ts tail).Sublist
      (turns (modelSupportsReasoningHistory model) [] c.window) := by
    rw [listed]
    exact sub
  obtain ⟨-,fetched⟩ := getMessagesByIds_turns (window_sublist c) inTurns chosen
  have grouped : ∀ t ∈ withFirst (ContextEntry.isUser ∘ Turn.entry) ts tail, t.Grouped _ :=
    fun t mem =>
    turns_grouped (by simp) (fun _ => rfl) t (inTurns.mem mem)
  have inWindow : fromUser (ContextEntry.isUser ∘ Turn.entry)
      (recent (ContextEntry.tok ∘ Turn.entry) available ts) <:+
      turns (modelSupportsReasoningHistory model) [] c.window := by
    rw [listed]
    exact (fromUser_suffix _).trans suffix
  have tailPaired : ToolOutputsPaired R (tail.map Turn.row) := by
    rw [← cutTail]
    exact turns_tail_paired paired inWindow
  have headPaired :
      ToolOutputsPaired R ((firstUser (ContextEntry.isUser ∘ Turn.entry) ts).map Turn.row) := by
    refine paired_of_closes_nothing fun r mem id closes => ?_
    obtain ⟨t,first,rfl⟩ := mem_map.mp mem
    have kind : t.row.messageType = .user :=
      Turn.isUser_entry (find?_some (Option.mem_toList.mp first))
    exact (rowBrackets R).exclusive t.row id closes kind
  rw [fetched] at stored
  rw [fetched, visible_rows grouped]
  refine Paired.filter ?_ ?_
  · rintro r mem id ⟨call,-⟩
    obtain ⟨t,selected,rfl⟩ := mem_map.mp mem
    have content := stored t.row (mem_flatMap.mpr ⟨t,selected,by simp [Turn.rows]⟩) call
    simp [RawThreadMessage.visible, call, content]
  · unfold withFirst
    split
    · exact tailPaired
    · rw [map_append]
      exact headPaired.append tailPaired

/-- A build cuts messages: by their metadata, or once they are decoded. -/
def truncatesPrompt (R : Runtime) (c : Conversation) (model : Text)
    (override internal : Option Text) (tokenReserve : Nat) : Bool :=
  match systemInstruction R c override internal with
  | .error _ => false
  | .ok system =>
    let needed := determineNeededMessageIds R c.getConversationContextMetadata model
      ((system.map Prod.snd).getD 0) tokenReserve
    needed.2 || match decodeMessages R (modelSupportsReasoningHistory model) none
        (c.getMessagesByIds needed.1) with
      | .error _ => false
      | .ok decoded => decide (promptTokenBudget model - tokenReserve <
          totalTokens ((system.map systemMsg).toList ++ decoded))

theorem silent_plain : Silent kindBrackets .plain := by
  simp [Silent, kindBrackets]

theorem systemMsg_regular (system : Option (Text × Nat)) :
    ∀ m ∈ (system.map systemMsg).toList, Regular R m ∧ Silent kindBrackets (msgKind R m) := by
  intro m mem
  cases system with
  | none => cases mem
  | some pair =>
    have shows : Shows R (systemMsg pair) .plain := .system rfl
    rw [mem_singleton.mp mem, shows.kind_eq]
    exact ⟨shows.regular,silent_plain⟩

theorem paired_system (system : Option (Text × Nat)) (earlier : List MessageKind)
    (msgs : List ChatMsg) :
    Paired kindBrackets (earlier ++ ((system.map systemMsg).toList ++ msgs).map (msgKind R)) ↔
      Paired kindBrackets (earlier ++ msgs.map (msgKind R)) := by
  have silent := systemMsg_regular (R := R) system
  cases system with
  | none => rfl
  | some pair => exact paired_silent (silent (systemMsg pair) (by simp)).2 _ _

end

section
variable {R : Runtime} {c : Conversation} {model : Text} {tokenReserve : Nat}
  {override internal : Option Text}

end

def markText (t : Text) : Text := t.flatMap (fun c => ['x',c]) ++ ['.']

def unmarkText : Text → Option (Text × Text)
  | '.' :: rest => some ([],rest)
  | 'x' :: c :: rest => (unmarkText rest).map fun (t,rest) => (c :: t,rest)
  | _ => none

theorem unmarkText_markText (t rest : Text) : unmarkText (markText t ++ rest) = some (t,rest) := by
  induction t with
  | nil => rfl
  | cons c t ih =>
    have step : markText (c :: t) ++ rest = 'x' :: c :: (markText t ++ rest) := by simp [markText]
    rw [step, unmarkText, ih]
    rfl

/-- Prints and reads tool calls and nothing else. -/
def callRuntime : Runtime :=
  sampleRuntime (fun _ => 10)
    (fun text => do
      let (id,text) ← unmarkText text
      let (name,text) ← unmarkText text
      let (arguments,_) ← unmarkText text
      return .obj [("role",.str roleAssistant),("tool_calls",.arr [
        .obj [("id",.str id),("type",.str "function"),
          ("function",.obj [("name",.str name),("arguments",.str arguments)])]])])
    fun message => match message.toolCalls.bind Json.asArray with
      | some [toolCall] =>
        markText (toolCall.callId.getD []) ++ (markText (toolCall.callName.getD []) ++
          markText (((toolCall.get "function").bind (·.text "arguments")).getD []))
      | _ => []

theorem callRuntime_readsBack : ReadsBackCalls callRuntime := by
  intro id name arguments
  have printed : callRuntime.printJson (toolCallJson id name arguments) =
      markText id.hyphenated ++ (markText name ++ (markText arguments ++ [])) := by
    rw [append_nil]
    rfl
  rw [printed]
  simp only [callRuntime, sampleRuntime, unmarkText_markText, bind, Option.bind, pure]
  rfl

def callRow : RawThreadMessage :=
  ⟨.toolCall,1,sealText "query",some 20,some (sampleUuid 1),some "web_search".toList⟩

def outputRow :
    RawThreadMessage := ⟨.toolOutput,1,sealText "results",some 20,some (sampleUuid 1),none⟩

def thoughtRow (n : Nat) : RawThreadMessage := ⟨.reasoning,n,none,none,none,none⟩

theorem call_and_output_paired : ToolOutputsPaired callRuntime [callRow,outputRow] := by
  refine (paired_concat [callRow] outputRow).mpr ⟨?_,?_⟩
  · refine paired_of_closes_nothing fun r mem id closes => ?_
    rw [mem_singleton.mp mem] at closes
    cases closes.1
  · rintro id ⟨-,answers⟩
    refine ⟨[],callRow,[],rfl,⟨rfl,?_⟩,nofun⟩
    cases answers
    rfl

theorem cut_keys {ns : List Nat} (distinct : ns.Nodup) :
    (([callRow,outputRow] ++ ns.map thoughtRow).map RawThreadMessage.key).Nodup := by
  have thoughts : (ns.map fun n : Nat => (MessageType.reasoning,(n : Int))).Nodup := by
    refine List.Nodup.map ?_ distinct
    intro a b same
    exact Int.ofNat.inj (congrArg Prod.snd same)
  have keys : ([callRow,outputRow] ++ ns.map thoughtRow).map RawThreadMessage.key =
      (.toolCall,1) :: (.toolOutput,1) :: ns.map fun n : Nat =>
        (MessageType.reasoning,(n : Int)) := by
    rw [map_append, map_map]
    rfl
  rw [keys]
  simp [thoughts]

/-- A thousand rows after a call: its output, and reasoning. -/
def cutHistory : Conversation where
  rows := [callRow,outputRow] ++ (List.range 999).map thoughtRow
  keys := cut_keys nodup_range
  projectInstruction := none
  defaultInstruction := none

theorem not_paired_alone {message : Json} {id : Text} (closes : promptBrackets.closes message id) :
    ¬ToolMessagesPaired [message] := by
  intro paired
  exact not_opened_nil id (paired [] message [] id rfl closes)

def shortHistory : Conversation where
  rows := [callRow,outputRow]
  keys := by decide
  projectInstruction := none
  defaultInstruction := none

end OpenSecret
