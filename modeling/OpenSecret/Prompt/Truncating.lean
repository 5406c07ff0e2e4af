import OpenSecret.Prompt.ToolPairing

/-!
What truncation keeps of a list of prompt messages. It joins the opening of the
list, a marker and a recent end that starts with a user message. Sums are machine
words and may wrap; nothing here assumes that they do not, unless it says so.
-/
namespace OpenSecret
open Framing Truncation Bracketing List

section
variable {R : Runtime} {ctxBudget : Nat} {msgs before after : List ChatMsg} {u : ChatMsg}

theorem recent_reaches (R : Runtime) (ctxBudget : Nat) (split : msgs = before ++ u :: after) :
    EndsFit ChatMsg.tok (tailRoom R ctxBudget msgs) (u :: after) ∧
        u :: after <:+ recent ChatMsg.tok (tailRoom R ctxBudget msgs) msgs ∨
      ¬ EndsFit ChatMsg.tok (tailRoom R ctxBudget msgs) (u :: after) ∧
        recent ChatMsg.tok (tailRoom R ctxBudget msgs) msgs <:+ after := by
  have reaches := suffix_recent_iff ChatMsg.tok (tailRoom R ctxBudget msgs) before
    (cons_ne_nil u after)
  rw [← split] at reaches
  have ending : recent ChatMsg.tok (tailRoom R ctxBudget msgs) msgs <:+ msgs := recent_suffix msgs
  by_cases fits : EndsFit ChatMsg.tok (tailRoom R ctxBudget msgs) (u :: after)
  · exact .inl ⟨fits,reaches.mpr fits⟩
  · right
    constructor
    · exact fits
    · rcases suffix_or_suffix_of_suffix ending ⟨before,split.symm⟩ with shorter | longer
      · rcases suffix_cons_iff.mp shorter with same | inside
        · exact absurd (reaches.mp (by rw [same])) fits
        · exact inside
      · exact absurd (reaches.mp longer) fits

theorem keptTail_last_user (R : Runtime) (ctxBudget : Nat) (split : msgs = before ++ u :: after)
    (user : isUser u = true) (last : ∀ m ∈ after, isUser m = false) :
    EndsFit ChatMsg.tok (tailRoom R ctxBudget msgs) (u :: after) ∧ u ∈ keptTail R ctxBudget msgs ∨
      ¬ EndsFit ChatMsg.tok (tailRoom R ctxBudget msgs) (u :: after) ∧
        keptTail R ctxBudget msgs = [] := by
  rw [keptTail_eq]
  rcases recent_reaches R ctxBudget split with ⟨fits,front,same⟩ | ⟨tight,inside⟩
  · left
    constructor
    · exact fits
    · apply mem_fromUser _ user
      rw [← same]
      simp
  · right
    constructor
    · exact tight
    · apply fromUser_eq_nil.mpr
      intro m mem
      exact last m (inside.mem mem)

theorem keptTail_first_user (R : Runtime) (ctxBudget : Nat)
    (here : FirstUserAt msgs before u after) :
    EndsFit ChatMsg.tok (tailRoom R ctxBudget msgs) (u :: after) ∧
      keptTail R ctxBudget msgs = u :: after ∨
      ¬ EndsFit ChatMsg.tok (tailRoom R ctxBudget msgs) (u :: after) ∧
        keptTail R ctxBudget msgs <:+ after := by
  rw [keptTail_eq]
  rcases recent_reaches R ctxBudget here.split with ⟨fits,front,same⟩ | ⟨tight,inside⟩
  · left
    constructor
    · exact fits
    · have whole : front ++ u :: after <:+ before ++ u :: after := by
        rw [same, ← here.split]
        exact recent_suffix msgs
      have earlier : front <:+ before := suffix_append_inj_of_length_eq rfl |>.mp whole |>.1
      rw [← same]
      exact fromUser_split (fun b mem => here.none b (earlier.mem mem)) here.user
  · right
    constructor
    · exact tight
    · exact (fromUser_suffix _).trans inside

theorem opening_split (here : FirstUserAt msgs before u after) :
    chatOpening msgs = (before.find? isSystem).toList ++ [u] := by
  have first : (msgs.find? isUser).toList = [u] := here.first
  rw [chatOpening, first, here.split,
    takeWhile_append_of_pos fun b mem => by simp [here.none b mem],
    takeWhile_cons_of_neg (by simp [here.user]), append_nil]

theorem marker_ne_user (R : Runtime) (user : isUser u = true) : truncationMsg R ≠ u := by
  rintro rfl
  have other : isUser (truncationMsg R) = false := decide_eq_false roles_distinct.1.symm
  rw [other] at user
  cases user

end

section
variable {R : Runtime} {ctxBudget : Nat} {msgs before after : List ChatMsg} {u : ChatMsg}

/-- The opening ends with a user message, so it leaves out what follows the last one. -/
theorem opening_shorter (split : msgs = before ++ u :: after) (user : isUser u = true)
    (last : ∀ m ∈ after, isUser m = false) (more : after ≠ []) :
    (chatOpening msgs).length < msgs.length := by
  apply Nat.lt_of_le_of_ne (opening_sublist msgs).length_le
  intro length
  have all : chatOpening msgs = msgs := (opening_sublist msgs).eq_of_length length
  cases found : msgs.find? isUser with
  | none =>
    have other := find?_eq_none.mp found u (by rw [split]; simp)
    exact other user
  | some f =>
    obtain ⟨older,newest,rfl⟩ := eq_nil_or_concat' after |>.resolve_left more
    have ends : msgs.getLast? = some f := by
      rw [← all, chatOpening, found]
      exact getLast?_concat
    have same : msgs.getLast? = some newest := by
      rw [split, ← cons_append, ← append_assoc]
      exact getLast?_concat
    rw [same] at ends
    cases ends
    have isFirst := find?_some found
    rw [last f (by simp)] at isFirst
    cases isFirst

theorem mem_truncate_of_tail (inTail : u ∈ keptTail R ctxBudget msgs) :
    u ∈ truncateMessages R ctxBudget msgs := by
  rcases truncateMessages_cases R ctxBudget msgs with ⟨-,same⟩ | ⟨-,sys,-,-,-,same⟩ | ⟨-,-,same⟩
  · rw [same]
    exact mem_append_right _ inTail
  · rw [same]
    exact mem_cons_of_mem sys inTail
  · rw [same]
    exact inTail

theorem user_mem_opening_iff (user : isUser u = true) :
    u ∈ chatOpening msgs ↔ msgs.find? isUser = some u := by
  rw [chatOpening, mem_append, Option.mem_toList, Option.mem_toList]
  constructor
  · intro mem
    rcases mem with system | found
    · have other := isUser_of_isSystem (find?_some system)
      rw [user] at other
      cases other
    · exact found
  · intro found
    exact .inr found

theorem mem_truncate_no_tail (user : isUser u = true) (noTail : keptTail R ctxBudget msgs = [])
    (shorter : (chatOpening msgs).length < msgs.length) :
    u ∈ truncateMessages R ctxBudget msgs ↔
      msgs.find? isUser = some u ∧ totalTokens (chatOpening msgs ++ [truncationMsg R]) ≤
        ctxBudget := by
  have kept : keptMessages R ctxBudget msgs = chatOpening msgs ++ [truncationMsg R] := by
    rw [keptMessages, noTail, headMessages_opening, length_nil,
      add_zero, if_pos shorter, append_nil]
  rcases truncateMessages_cases R ctxBudget msgs with ⟨fits,
    same⟩ | ⟨exceeds,sys,found,-,-,same⟩ | ⟨exceeds,-,same⟩
  · rw [kept] at fits same
    rw [same, mem_append, mem_singleton, or_iff_left (marker_ne_user R user).symm,
      user_mem_opening_iff user, and_iff_left fits]
  · rw [kept] at exceeds
    rw [same, noTail, mem_singleton]
    constructor
    · rintro rfl
      have other := isUser_of_isSystem (find?_some found)
      rw [user] at other
      cases other
    · intro both
      omega
  · rw [kept] at exceeds
    rw [same, noTail]
    constructor
    · intro mem
      cases mem
    · intro both
      omega

end

def tenRuntime : Runtime :=
  sampleRuntime (fun _ => 10)
    (fun text => if text = "call" then
      some (.obj [("tool_calls",.arr [.obj [("id",.str (sampleUuid 1).hyphenated)]])]) else none)
    (fun _ => [])

def chat (role : Text) (content : String) (tok : Nat) :
    ChatMsg := ⟨role,content.toList,none,none,tok⟩

/-- The most recent user message survives truncation if and only if everything
    fits, or it fits with all that follows it behind the opening and the marker, or
    it is the first user message and the opening with the marker fits. -/
theorem last_user_kept_iff (R : Runtime) (ctxBudget : Nat) (before after : List ChatMsg)
    (u : ChatMsg) (user : isUser u = true) (last : ∀ m ∈ after, isUser m = false) :
    u ∈ fitMessages R ctxBudget (before ++ u :: after) ↔
      totalTokens (before ++ u :: after) ≤ ctxBudget ∨
      EndsFit ChatMsg.tok (tailRoom R ctxBudget (before ++ u :: after)) (u :: after) ∨
      ((before ++ u :: after).find? isUser = some u ∧
        totalTokens (chatOpening (before ++ u :: after) ++ [truncationMsg R]) ≤ ctxBudget) := by
  generalize split : before ++ u :: after = msgs
  have mem : u ∈ msgs := by
    rw [← split]
    simp
  unfold fitMessages
  by_cases whole : totalTokens msgs > ctxBudget
  · rw [if_pos whole, or_iff_right (not_le.mpr whole)]
    rcases keptTail_last_user R ctxBudget split.symm user last with
      ⟨fits,inTail⟩ | ⟨tight,noTail⟩
    · constructor
      · intro _
        exact .inl fits
      · intro _
        exact mem_truncate_of_tail inTail
    · rw [or_iff_right tight]
      apply mem_truncate_no_tail user noTail
      apply opening_shorter split.symm user last
      rintro rfl
      exact tight (endsFit_single u)
  · rw [if_neg whole]
    constructor
    · intro _
      exact .inl (Nat.le_of_not_lt whole)
    · intro _
      exact mem

/-- A long answer behind it costs the last question its place. -/
theorem long_answer_loses_question :
    (chat roleUser "later" 1).tok ≤ 50 ∧
    chat roleUser "later" 1 ∉ fitMessages tenRuntime 50
      [chat roleUser "earlier" 1,chat roleUser "later" 1,chat roleAssistant "long" 60] := by
  decide +kernel

theorem short_answer_keeps_question :
    chat roleUser "later" 1 ∈ fitMessages tenRuntime 50
      [chat roleUser "earlier" 30,chat roleAssistant "old" 40,
        chat roleUser "later" 1,chat roleAssistant "short" 5] := by
  apply (last_user_kept_iff tenRuntime 50 [chat roleUser "earlier" 30,chat roleAssistant "old" 40]
    [chat roleAssistant "short" 5] (chat roleUser "later" 1) (by decide +kernel) ?_).mpr
  · right
    left
    apply (endsFit_iff (by decide +kernel)).mpr
    right
    decide +kernel
  · intro m mem
    rw [mem_singleton.mp mem]
    decide +kernel

/-- The messages in their order, none twice, and at most one marker among them. -/
def DropsOnly (R : Runtime) (msgs kept : List ChatMsg) : Prop :=
  kept.Sublist msgs ∨ ∃ a b, kept = a ++ truncationMsg R :: b ∧ (a ++ b).Sublist msgs

/-- The opening, the marker if anything else is left out, and all messages from the
    first user message on. -/
def overlapped (R : Runtime) (msgs fromFirst : List ChatMsg) : List ChatMsg :=
  chatOpening msgs ++ (if (chatOpening msgs).length + fromFirst.length < msgs.length
    then [truncationMsg R] else []) ++
    fromFirst

/-- The recent end does not reach back to the first user message, or what comes of
    that does not fit. -/
def NoOverlap (R : Runtime) (ctxBudget : Nat) (msgs : List ChatMsg) : Prop :=
  ∀ before u after, msgs = before ++ u :: after → (∀ b ∈ before, isUser b = false) →
    isUser u = true →
    totalTokens msgs ≤ ctxBudget ∨ ¬ EndsFit ChatMsg.tok (tailRoom R ctxBudget msgs) (u :: after) ∨
      ctxBudget < totalTokens (overlapped R msgs (u :: after))

section
variable {R : Runtime} {ctxBudget : Nat} {msgs before after : List ChatMsg} {u : ChatMsg}

theorem dropsOnly_count {kept : List ChatMsg} (distinct : msgs.Nodup)
    (drops : DropsOnly R msgs kept) (user : isUser u = true) : kept.count u ≤ 1 := by
  rcases drops with sub | ⟨a,b,rfl,sub⟩
  · exact nodup_iff_count_le_one.mp (distinct.sublist sub) u
  · have once := nodup_iff_count_le_one.mp (distinct.sublist sub) u
    rw [count_append, count_cons_of_ne (marker_ne_user R user), ← count_append]
    exact once

theorem overlapped_count (here : FirstUserAt msgs before u after) :
    2 ≤ (overlapped R msgs (u :: after)).count u := by
  rw [overlapped, opening_split here, count_append, count_append, count_append,
    count_singleton_self, count_cons_self]
  omega

theorem dropsOnly_tail (R : Runtime) (ctxBudget : Nat) (msgs : List ChatMsg) :
    DropsOnly R msgs (keptTail R ctxBudget msgs) :=
  .inl (keptTail_suffix R ctxBudget msgs).sublist

theorem keptTail_no_user (others : ∀ m ∈ msgs, isUser m = false) :
    keptTail R ctxBudget msgs = [] := by
  rw [keptTail_eq]
  apply fromUser_eq_nil.mpr
  intro m mem
  exact others m ((recent_suffix msgs).mem mem)

variable {sys : ChatMsg} {tail : List ChatMsg}

/-- The system message stands before the first user message and so before the tail. -/
theorem dropsOnly_system (found : (keptMessages R ctxBudget msgs).find? isSystem = some sys)
    (system : (headMessages false msgs).any isSystem = true) :
    DropsOnly R msgs (sys :: keptTail R ctxBudget msgs) := by
  left
  have inHead := system_in_opening found system
  rcases firstUser_cases msgs with none | ⟨before,u,after,here⟩
  · rw [keptTail_no_user none]
    exact singleton_sublist.mpr ((opening_sublist msgs).mem (mem_of_find?_eq_some inHead))
  · have early : sys ∈ before := by
      rw [opening_split here] at inHead
      rcases mem_snoc.mp (mem_of_find?_eq_some inHead) with there | rfl
      · exact mem_of_find?_eq_some (Option.mem_toList.mp there)
      · have other := isUser_of_isSystem (find?_some inHead)
        rw [here.user] at other
        cases other
    have tail : (keptTail R ctxBudget msgs).Sublist (u :: after) := by
      rcases keptTail_first_user R ctxBudget here with ⟨-,same⟩ | ⟨-,behind⟩
      · rw [same]
      · exact behind.sublist.cons u
    have joined : ([sys] ++ keptTail R ctxBudget msgs).Sublist (before ++ u :: after) :=
      (singleton_sublist.mpr early).append tail
    rw [← here.split] at joined
    exact joined

/-- The opening and a tail behind the first user message do not overlap. -/
theorem opening_tail_sublist (here : FirstUserAt msgs before u after) (behind : tail <:+ after) :
    (chatOpening msgs ++ tail).Sublist msgs := by
  rw [opening_split here, here.split, append_assoc, singleton_append]
  apply List.Sublist.append
  · cases found : before.find? isSystem with
    | none => exact nil_sublist before
    | some sys => exact singleton_sublist.mpr (mem_of_find?_eq_some found)
  · exact behind.sublist.cons_cons u

theorem dropsOnly_joined (sub : (chatOpening msgs ++ tail).Sublist msgs) (condition : Prop)
    [Decidable condition] :
    DropsOnly R msgs (chatOpening msgs ++ (if condition then [truncationMsg R] else []) ++
      tail) := by
  split
  · right
    refine ⟨chatOpening msgs,tail,?_,sub⟩
    rw [append_assoc, singleton_append]
  · left
    rw [append_nil]
    exact sub

/-- Head and tail together, unless the tail goes back to the first user message. -/
theorem dropsOnly_kept (apart : NoOverlap R ctxBudget msgs) (exceeds : ctxBudget < totalTokens msgs)
    (fits : totalTokens (keptMessages R ctxBudget msgs) ≤ ctxBudget) :
    DropsOnly R msgs (keptMessages R ctxBudget msgs) := by
  rw [keptMessages, headMessages_opening]
  rcases firstUser_cases msgs with none | ⟨before,u,after,here⟩
  · apply dropsOnly_joined
    rw [keptTail_no_user none, append_nil]
    exact opening_sublist msgs
  · rcases keptTail_first_user R ctxBudget here with ⟨ends,same⟩ | ⟨-,behind⟩
    · rcases apart before u after here.split here.none here.user with whole | tight | tooLong
      · omega
      · exact absurd ends tight
      · rw [keptMessages, headMessages_opening, same] at fits
        rw [overlapped] at tooLong
        omega
    · apply dropsOnly_joined
      exact opening_tail_sublist here behind

end

/-- For messages with distinct contents: truncation only drops, up to one marker,
    if and only if it does not join the opening with an end that holds the first
    user message once more. -/
theorem truncation_only_drops_iff (R : Runtime) (ctxBudget : Nat) (msgs : List ChatMsg)
    (distinct : (msgs.map ChatMsg.content).Nodup) :
    DropsOnly R msgs (fitMessages R ctxBudget msgs) ↔ NoOverlap R ctxBudget msgs := by
  unfold fitMessages
  by_cases whole : totalTokens msgs > ctxBudget
  · rw [if_pos whole]
    constructor
    · intro drops before u after split first user
      have here : FirstUserAt msgs before u after := ⟨split,first,user⟩
      by_cases ends : EndsFit ChatMsg.tok (tailRoom R ctxBudget msgs) (u :: after)
      · right
        right
        apply Nat.lt_of_not_le
        intro fits
        have tail : keptTail R ctxBudget msgs = u :: after := by
          rcases keptTail_first_user R ctxBudget here with ⟨-,same⟩ | ⟨tight,-⟩
          · exact same
          · exact absurd ends tight
        have kept : keptMessages R ctxBudget msgs = overlapped R msgs (u :: after) := by
          rw [keptMessages, headMessages_opening, tail, overlapped]
        have result : truncateMessages R ctxBudget msgs = overlapped R msgs (u :: after) := by
          rcases truncateMessages_cases R ctxBudget msgs with ⟨-,same⟩ | ⟨exceeds,-⟩ | ⟨exceeds,-⟩
          · rw [same, kept]
          · rw [kept] at exceeds
            omega
          · rw [kept] at exceeds
            omega
        rw [result] at drops
        have once := dropsOnly_count (List.Nodup.of_map _ distinct) drops user
        have twice := overlapped_count (R := R) here
        omega
      · exact .inr (.inl ends)
    · intro apart
      rcases truncateMessages_cases R ctxBudget
        msgs with ⟨fits,same⟩ | ⟨-,sys,found,system,-,same⟩ | ⟨-,-,same⟩
      · rw [same]
        exact dropsOnly_kept apart whole fits
      · rw [same]
        exact dropsOnly_system found system
      · rw [same]
        exact dropsOnly_tail R ctxBudget msgs
  · rw [if_neg whole]
    constructor
    · intro _ before u after _ _ _
      exact .inl (Nat.le_of_not_lt whole)
    · intro _
      exact .inl (Sublist.refl msgs)

/-- An assistant message stands first; the question behind it is kept twice. -/
def greetedChat : List ChatMsg :=
  [chat roleAssistant "greeting" 100,chat roleUser "question" 5,chat roleAssistant "answer" 5]

theorem greeted_question_repeated :
    (greetedChat.map ChatMsg.content).Nodup ∧
    fitMessages tenRuntime 50 greetedChat =
      [chat roleUser "question" 5,chat roleUser "question" 5,chat roleAssistant "answer" 5] ∧
    ¬ DropsOnly tenRuntime greetedChat (fitMessages tenRuntime 50 greetedChat) := by
  have result : fitMessages tenRuntime 50 greetedChat =
      [chat roleUser "question" 5,chat roleUser "question" 5,
        chat roleAssistant "answer" 5] := by decide +kernel
  refine ⟨by decide +kernel,result,?_⟩
  rw [result]
  intro drops
  have once :=
    dropsOnly_count (u := chat roleUser "question" 5) (by decide +kernel : greetedChat.Nodup) drops
    (by decide +kernel)
  have twice : List.count (chat roleUser "question" 5)
      [chat roleUser "question" 5,chat roleUser "question" 5,chat roleAssistant "answer" 5] =
        2 := by decide +kernel
  omega

def answeredChat : List ChatMsg :=
  [chat roleUser "first" 5,chat roleAssistant "long" 100,chat roleUser "question" 5,
    chat roleAssistant "answer" 5]

theorem answered_chat_only_drops :
    DropsOnly tenRuntime answeredChat (fitMessages tenRuntime 50 answeredChat) := by
  apply (truncation_only_drops_iff tenRuntime 50 answeredChat (by decide +kernel)).mpr
  intro before u after split first user
  right
  left
  intro ends
  cases before with
  | nil =>
    obtain ⟨rfl,rfl⟩ := cons.inj split
    rcases (endsFit_iff (by decide +kernel)).mp ends with single | fits
    · revert single
      decide +kernel
    · revert fits
      decide +kernel
  | cons b before =>
    have other := first b mem_cons_self
    rw [← (cons.inj split).1] at other
    revert other
    decide +kernel

/-- For every list and every budget: the total after truncation is within the budget
    unless the last message is a user message above it, and then that message is all
    that is left, given that the sums of the truncation do not wrap. -/
theorem truncation_within_budget (R : Runtime) (ctxBudget : Nat) (msgs : List ChatMsg) :
    (totalTokens (fitMessages R ctxBudget msgs) ≤ ctxBudget ∨
      ∃ last, msgs.getLast? = some last ∧ isUser last = true ∧ ctxBudget < last.tok) ∧
    ∀ last, msgs.getLast? = some last → isUser last = true → ctxBudget < last.tok →
      2 * tokens ChatMsg.tok msgs + R.countTokens truncationText < 2 ^ 64 →
      fitMessages R ctxBudget msgs = [last] := by
  constructor
  · by_cases fits : totalTokens (fitMessages R ctxBudget msgs) ≤ ctxBudget
    · exact .inl fits
    · exact .inr (fitMessages_exceeds (Nat.lt_of_not_le fits))
  · intro last isLast user exceeds small
    exact fitMessages_only_last isLast user exceeds small

theorem long_question_alone :
    fitMessages tenRuntime 50 [chat roleSystem "rules" 5,chat roleUser "first" 5,
      chat roleUser "long" 60] =
      [chat roleUser "long" 60] := by
  apply (truncation_within_budget tenRuntime 50
    [chat roleSystem "rules" 5,chat roleUser "first" 5,chat roleUser "long" 60]).2
  · rfl
  · decide +kernel
  · decide +kernel
  · decide +kernel

/-- A tool message answers the call with its id; an assistant message carries the
    calls its content reads as. -/
def chatBrackets (R : Runtime) : Brackets ChatMsg (Option Uuid) where
  barrier m := isUser m = true
  opens m key := m.role = roleAssistant ∧ ∃ id parsed, key = some id ∧
    parsedToolCall R m.content = some parsed ∧
    id.hyphenated ∈ parsed.callIds
  closes m key := m.role = roleTool ∧ m.toolCallId = key
  exclusive := by
    intro m key closes user
    have role : m.role = roleUser := of_decide_eq_true user
    rw [closes.1] at role
    exact roles_distinct.2.1 role.symm

/-- Each tool message has an assistant message with its call before it and no user
    message in between. -/
def ToolTurnsWhole (R : Runtime) (msgs : List ChatMsg) : Prop := Paired (chatBrackets R) msgs

theorem truncation_keeps_tool_turns (R : Runtime) (ctxBudget : Nat) (msgs : List ChatMsg)
    (whole : ToolTurnsWhole R msgs) : ToolTurnsWhole R (fitMessages R ctxBudget msgs) := by
  unfold fitMessages
  split
  · have mapped : Paired (chatBrackets R) ([] ++ msgs.map id) := by
      rw [map_id, nil_append]
      exact whole
    have kept : Paired (chatBrackets R) ((truncateMessages R ctxBudget msgs).map id) := by
      apply truncateMessages_paired _ _ mapped
      · intro m user
        exact user
      · intro m key closes
        exact closes.1
    rw [map_id] at kept
    exact kept
  · exact whole

def searchTurn : List ChatMsg :=
  [chat roleUser "first" 5,chat roleAssistant "long" 100,chat roleUser "search" 5,
    chat roleAssistant "call" 5,
    ⟨roleTool,"results",none,some (sampleUuid 1),5⟩]

theorem tool_turn_survives :
    ToolTurnsWhole tenRuntime (fitMessages tenRuntime 50 searchTurn) ∧
    (fitMessages tenRuntime 50 searchTurn).map ChatMsg.role =
      [roleUser,roleAssistant,roleUser,roleAssistant,roleTool] := by
  constructor
  · apply truncation_keeps_tool_turns
    apply (paired_concat [chat roleUser "first" 5,chat roleAssistant "long" 100,
      chat roleUser "search" 5,
      chat roleAssistant "call" 5] _).mpr
    constructor
    · apply paired_of_closes_nothing
      have noTool :
        ∀ m ∈ [chat roleUser "first" 5,chat roleAssistant "long" 100,chat roleUser "search" 5,
          chat roleAssistant "call" 5], m.role ≠ roleTool := by decide +kernel
      intro m mem key closes
      exact noTool m mem closes.1
    · intro key closes
      apply (opened_concat [chat roleUser "first" 5,chat roleAssistant "long" 100,
        chat roleUser "search" 5] _ key).mpr
      left
      exact ⟨rfl,sampleUuid 1,_,closes.2.symm,rfl,mem_singleton.mpr rfl⟩
  · decide +kernel

/-- A list that has been truncated is not truncated any further. -/
theorem truncation_idempotent (R : Runtime) (ctxBudget : Nat) (msgs : List ChatMsg)
    (small : 2 * tokens ChatMsg.tok msgs + R.countTokens truncationText < 2 ^ 64) :
    fitMessages R ctxBudget (fitMessages R ctxBudget msgs) = fitMessages R ctxBudget msgs := by
  by_cases high : ctxBudget < totalTokens (fitMessages R ctxBudget msgs)
  · -- all that is left is a user message that is too long
    obtain ⟨last,isLast,user,exceeds⟩ := fitMessages_exceeds high
    have inMsgs : last.tok ≤ tokens ChatMsg.tok msgs := tok_le_tokens (mem_of_getLast? isLast)
    rw [fitMessages_only_last isLast user exceeds small]
    exact fitMessages_only_last rfl user exceeds (by simp only [tokens_cons, tokens_nil]; omega)
  · exact if_neg high

theorem greeted_chat_stays :
    fitMessages tenRuntime 50 (fitMessages tenRuntime 50 greetedChat) =
      fitMessages tenRuntime 50 greetedChat :=
  truncation_idempotent tenRuntime 50 greetedChat (by decide)

end OpenSecret
