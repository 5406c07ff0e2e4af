import OpenSecret.Prompt.ContextBuilder

/-!
Truncation of a decoded message list. The result exceeds the budget in one case
only: the last message is a user message that exceeds it on its own. Sums wrap on
the machine; the bound assumed here keeps every sum of the truncation exact.
-/
namespace OpenSecret
open Framing Truncation List

theorem isUser_of_isSystem {m : ChatMsg} (system : isSystem m = true) : isUser m = false := by
  have role : m.role = roleSystem := of_decide_eq_true system
  simp [isUser, role, show roleSystem ≠ roleUser by decide]

/-- The first system message, if it stands before the first user message, and the
    first user message. -/
def chatOpening (msgs : List ChatMsg) : List ChatMsg :=
  ((msgs.takeWhile fun m => !isUser m).find? isSystem).toList ++ (msgs.find? isUser).toList

def tailRoom (R : Runtime) (ctxBudget : Nat) (msgs : List ChatMsg) : Nat :=
  ctxBudget - usizeAdd (totalTokens (chatOpening msgs)) (R.countTokens truncationText)

theorem headMessages_system (msgs : List ChatMsg) :
    headMessages true msgs = (msgs.find? isUser).toList := by
  induction msgs with
  | nil => rfl
  | cons m rest ih =>
    rw [headMessages, Bool.not_true, Bool.and_false, if_neg Bool.false_ne_true, ih]
    by_cases user : isUser m = true
    · rw [if_pos user, find?_cons_of_pos user]
      rfl
    · rw [if_neg user, find?_cons_of_neg user]

theorem headMessages_opening (msgs : List ChatMsg) :
    headMessages false msgs = chatOpening msgs := by
  induction msgs with
  | nil => rfl
  | cons m rest ih =>
    rw [headMessages, Bool.not_false, Bool.and_true]
    by_cases system : isSystem m = true
    · have other : isUser m = false := isUser_of_isSystem system
      rw [if_pos system, headMessages_system, chatOpening, takeWhile_cons_of_pos (by simp [other]),
        find?_cons_of_pos system, find?_cons_of_neg (by simp [other])]
      rfl
    · rw [if_neg system]
      by_cases user : isUser m = true
      · rw [if_pos user, chatOpening, takeWhile_cons_of_neg (by simp [user]),
          find?_cons_of_pos user]
        rfl
      · rw [if_neg user, ih, chatOpening, chatOpening, takeWhile_cons_of_pos (by simp [user]),
          find?_cons_of_neg system, find?_cons_of_neg user]

theorem headMessages_sublist (hasSystem : Bool) (msgs : List ChatMsg) :
    (headMessages hasSystem msgs).Sublist msgs := by
  induction msgs generalizing hasSystem with
  | nil => exact .slnil
  | cons m rest ih =>
    unfold headMessages
    split
    · exact (ih true).cons_cons m
    · split
      · exact (nil_sublist rest).cons_cons m
      · exact (ih hasSystem).cons m

theorem opening_sublist (msgs : List ChatMsg) : (chatOpening msgs).Sublist msgs := by
  rw [← headMessages_opening]
  exact headMessages_sublist false msgs

theorem opening_roles (msgs : List ChatMsg) :
    ∀ m ∈ chatOpening msgs, isSystem m = true ∨ isUser m = true := by
  intro m mem
  rcases mem_append.mp mem with system | user
  · exact .inl (find?_some (Option.mem_toList.mp system))
  · exact .inr (find?_some (Option.mem_toList.mp user))

theorem totalTokens_eq {msgs : List ChatMsg} (small : tokens ChatMsg.tok msgs < 2 ^ 64) :
    totalTokens msgs = tokens ChatMsg.tok msgs :=
  usizeSum_eq small

theorem totalTokens_mod (msgs : List ChatMsg) :
    totalTokens msgs = tokens ChatMsg.tok msgs % 2 ^ 64 :=
  usizeSum_mod _

theorem totalTokens_singleton {m : ChatMsg} (small : m.tok < 2 ^ 64) : totalTokens [m] = m.tok := by
  rw [totalTokens_mod, tokens_cons, tokens_nil, add_zero, Nat.mod_eq_of_lt small]

theorem totalTokens_cons (m : ChatMsg) (rest : List ChatMsg) :
    totalTokens (m :: rest) = usizeAdd m.tok (totalTokens rest) := by
  rw [totalTokens_mod, totalTokens_mod, tokens_cons, usizeAdd, Nat.add_mod_mod]

theorem withTruncationMsg_split (R : Runtime) (hasSystem didTruncate : Bool) (msgs : List ChatMsg) :
    withTruncationMsg R hasSystem didTruncate msgs = msgs ∨
      ∃ before after, didTruncate = true ∧ after ≠ [] ∧ msgs = before ++ after ∧
        before.length = (if hasSystem then 2 else 1) ∧
        withTruncationMsg R hasSystem didTruncate msgs = before ++ truncationMsg R :: after := by
  unfold withTruncationMsg
  dsimp only
  by_cases cut : (didTruncate && decide ((if hasSystem then 2 else 1) < msgs.length)) = true
  · rw [if_pos cut]
    obtain ⟨truncated,inside⟩ := Bool.and_eq_true_iff.mp cut
    have inside := of_decide_eq_true inside
    refine .inr ?_
    cases hasSystem with
    | false =>
      match msgs with
      | a :: b :: rest => exact ⟨[a],b :: rest,truncated,by simp,rfl,rfl,rfl⟩
      | [a] => simp at inside
      | [] => simp at inside
    | true =>
      match msgs with
      | a :: b :: c :: rest => exact ⟨[a,b],c :: rest,truncated,by simp,rfl,rfl,rfl⟩
      | [a,b] => simp at inside
      | [a] => simp at inside
      | [] => simp at inside
  · rw [if_neg cut]
    exact .inl rfl

section
variable {R : Runtime} {ctxBudget : Nat} {msgs : List ChatMsg}

theorem keptTail_suffix (R : Runtime) (ctxBudget : Nat) (msgs : List ChatMsg) :
    keptTail R ctxBudget msgs <:+ msgs :=
  (fromUser_suffix _).trans (recent_suffix _)

theorem keptTail_eq (R : Runtime) (ctxBudget : Nat) (msgs : List ChatMsg) :
    keptTail R ctxBudget msgs =
      fromUser isUser (recent ChatMsg.tok (tailRoom R ctxBudget msgs) msgs) := by
  unfold keptTail tailRoom
  rw [headMessages_opening]

def keptMessages (R : Runtime) (ctxBudget : Nat) (msgs : List ChatMsg) : List ChatMsg :=
  headMessages false msgs ++
    (if (headMessages false msgs).length + (keptTail R ctxBudget msgs).length < msgs.length then
      [truncationMsg R] else []) ++ keptTail R ctxBudget msgs

theorem keptMessages_tokens (R : Runtime) (ctxBudget : Nat) (msgs : List ChatMsg) :
    tokens ChatMsg.tok (keptMessages R ctxBudget msgs) ≤
        2 * tokens ChatMsg.tok msgs + R.countTokens truncationText ∧
      tokens ChatMsg.tok (keptTail R ctxBudget msgs) ≤
        tokens ChatMsg.tok (keptMessages R ctxBudget msgs) := by
  have head : tokens ChatMsg.tok (headMessages false msgs) ≤ tokens ChatMsg.tok msgs :=
    tokens_sublist (headMessages_sublist false msgs)
  have tail : tokens ChatMsg.tok (keptTail R ctxBudget msgs) ≤ tokens ChatMsg.tok msgs :=
    tokens_sublist (keptTail_suffix R ctxBudget msgs).sublist
  have marker : (truncationMsg R).tok = R.countTokens truncationText := rfl
  unfold keptMessages
  split <;> simp only [tokens_append, tokens_cons, tokens_nil, marker] <;> omega

/-- What truncation returns: head and tail, the system message and the tail, or
    the tail alone, the first of these that fits. -/
theorem truncateMessages_cases (R : Runtime) (ctxBudget : Nat) (msgs : List ChatMsg) :
    (totalTokens (keptMessages R ctxBudget msgs) ≤ ctxBudget ∧
        truncateMessages R ctxBudget msgs = keptMessages R ctxBudget msgs) ∨
      (ctxBudget < totalTokens (keptMessages R ctxBudget msgs) ∧
        ∃ sys, (keptMessages R ctxBudget msgs).find? isSystem = some sys ∧
          (headMessages false msgs).any isSystem = true ∧
          usizeAdd sys.tok (totalTokens (keptTail R ctxBudget msgs)) ≤ ctxBudget ∧
          truncateMessages R ctxBudget msgs = sys :: keptTail R ctxBudget msgs) ∨
      (ctxBudget < totalTokens (keptMessages R ctxBudget msgs) ∧
        (∀ sys, (headMessages false msgs).any isSystem = true →
          (keptMessages R ctxBudget msgs).find? isSystem = some sys →
            ctxBudget < usizeAdd sys.tok (totalTokens (keptTail R ctxBudget msgs))) ∧
        truncateMessages R ctxBudget msgs = keptTail R ctxBudget msgs) := by
  by_cases exceeds : totalTokens (keptMessages R ctxBudget msgs) > ctxBudget
  · rw [show truncateMessages R ctxBudget msgs = _ from if_pos exceeds]
    refine .inr ?_
    split
    · rename_i sys system found
      by_cases fits : usizeAdd sys.tok (totalTokens (keptTail R ctxBudget msgs)) ≤ ctxBudget
      · rw [if_pos fits]
        exact .inl ⟨exceeds,sys,found,system,fits,rfl⟩
      · rw [if_neg fits]
        refine .inr ⟨exceeds,fun other _ found' => ?_,rfl⟩
        cases found.symm.trans found'
        omega
    · rename_i noSystem
      exact .inr ⟨exceeds,fun sys system found => absurd found (noSystem sys system),rfl⟩
  · exact .inl ⟨by omega,if_neg exceeds⟩

theorem fitMessages_tokens (R : Runtime) (ctxBudget : Nat) (msgs : List ChatMsg) :
    tokens ChatMsg.tok (fitMessages R ctxBudget msgs) ≤
      3 * tokens ChatMsg.tok msgs + R.countTokens truncationText := by
  obtain ⟨keptSmall,tailInKept⟩ := keptMessages_tokens R ctxBudget msgs
  have tailSmall : tokens ChatMsg.tok (keptTail R ctxBudget msgs) ≤ tokens ChatMsg.tok msgs :=
    tokens_sublist (keptTail_suffix R ctxBudget msgs).sublist
  unfold fitMessages
  split
  · rcases truncateMessages_cases R ctxBudget
      msgs with ⟨-,same⟩ | ⟨-,sys,found,-,-,same⟩ | ⟨-,-,same⟩
    · rw [same]
      omega
    · have sysInKept : sys.tok ≤ tokens ChatMsg.tok (keptMessages R ctxBudget msgs) :=
        tok_le_tokens (mem_of_find?_eq_some found)
      rw [same, tokens_cons]
      omega
    · rw [same]
      omega
  · omega

variable {sys last : ChatMsg}

theorem system_in_opening (found : (keptMessages R ctxBudget msgs).find? isSystem = some sys)
    (system : (headMessages false msgs).any isSystem = true) :
    (chatOpening msgs).find? isSystem = some sys := by
  rw [headMessages_opening] at system
  rw [keptMessages, headMessages_opening, append_assoc, find?_append] at found
  cases here : (chatOpening msgs).find? isSystem with
  | none =>
    obtain ⟨m,mem,isSys⟩ := any_eq_true.mp system
    exact absurd isSys (find?_eq_none.mp here m mem)
  | some other =>
    rw [here, Option.some_or] at found
    exact found

theorem keptTail_several (several : 2 ≤ (keptTail R ctxBudget msgs).length) :
    totalTokens (keptTail R ctxBudget msgs) ≤ ctxBudget := by
  rw [keptTail_eq] at several ⊢
  have inside : fromUser isUser (recent ChatMsg.tok (tailRoom R ctxBudget msgs) msgs) <:+ _ :=
    fromUser_suffix _
  have ending : recent ChatMsg.tok (tailRoom R ctxBudget msgs) msgs <:+ msgs := recent_suffix msgs
  obtain ⟨before,split⟩ := ending
  have nonempty : recent ChatMsg.tok (tailRoom R ctxBudget msgs) msgs ≠ [] := by
    intro none
    rw [none] at several
    cases several
  have ends := (suffix_recent_iff ChatMsg.tok (tailRoom R ctxBudget msgs) before
    nonempty).mp (by rw [split])
  have fits : totalTokens (fromUser isUser (recent ChatMsg.tok (tailRoom R ctxBudget msgs) msgs)) ≤
      tailRoom R ctxBudget msgs := ends _ inside several
  unfold tailRoom at fits ⊢
  omega

/-- Above the budget there is a single message left, the last one, from the user. -/
theorem keptTail_exceeds (exceeds : ctxBudget < totalTokens (keptTail R ctxBudget msgs)) :
    ∃ last, msgs.getLast? = some last ∧ isUser last = true ∧ ctxBudget < last.tok := by
  cases cut : keptTail R ctxBudget msgs with
  | nil =>
    rw [cut] at exceeds
    exact absurd exceeds (Nat.not_lt_zero ctxBudget)
  | cons last rest =>
    cases rest with
    | cons second rest =>
      have several : 2 ≤ (keptTail R ctxBudget msgs).length := by
        rw [cut]
        exact Nat.le_add_left 2 rest.length
      have fits := keptTail_several several
      omega
    | nil =>
      refine ⟨last,?_,?_,?_⟩
      · obtain ⟨older,same⟩ := keptTail_suffix R ctxBudget msgs
        rw [← same, cut]
        exact getLast?_concat
      · rw [keptTail_eq] at cut
        exact fromUser_head cut
      · have one : totalTokens [last] ≤ last.tok := by
          rw [totalTokens_mod, tokens_cons, tokens_nil, add_zero]
          exact Nat.mod_le last.tok (2 ^ 64)
        rw [cut] at exceeds
        omega

theorem fitMessages_exceeds (exceeds : ctxBudget < totalTokens (fitMessages R ctxBudget msgs)) :
    ∃ last, msgs.getLast? = some last ∧ isUser last = true ∧ ctxBudget < last.tok := by
  unfold fitMessages at exceeds
  split at exceeds
  · rcases truncateMessages_cases R ctxBudget
      msgs with ⟨fits,same⟩ | ⟨-,sys,-,-,fits,same⟩ | ⟨-,-,same⟩
    · rw [same] at exceeds
      omega
    · rw [same, totalTokens_cons] at exceeds
      omega
    · rw [same] at exceeds
      exact keptTail_exceeds exceeds
  · omega

theorem keptTail_only_last (isLast : msgs.getLast? = some last) (user : isUser last = true)
    (exceeds : ctxBudget < last.tok) (small : tokens ChatMsg.tok msgs < 2 ^ 64) :
    keptTail R ctxBudget msgs = [last] := by
  have single : recent ChatMsg.tok (tailRoom R ctxBudget msgs) msgs = [last] := by
    apply recent_single isLast
    apply Nat.lt_of_not_le
    intro several
    have fits := recent_fits small several
    have inRecent : last ∈ recent ChatMsg.tok (tailRoom R ctxBudget msgs) msgs :=
      mem_of_getLast? ((recent_getLast? msgs).trans isLast)
    have one : ChatMsg.tok last ≤ _ := tok_le_tokens inRecent
    unfold tailRoom at fits one
    omega
  rw [keptTail_eq, single]
  exact fromUser_of_head rfl user

theorem fitMessages_only_last (isLast : msgs.getLast? = some last) (user : isUser last = true)
    (exceeds : ctxBudget < last.tok)
    (small : 2 * tokens ChatMsg.tok msgs + R.countTokens truncationText < 2 ^ 64) :
    fitMessages R ctxBudget msgs = [last] := by
  have tail := keptTail_only_last (R := R) isLast user exceeds (by omega)
  have inMsgs : last.tok ≤ tokens ChatMsg.tok msgs := tok_le_tokens (mem_of_getLast? isLast)
  have total := totalTokens_eq (show tokens ChatMsg.tok msgs < 2 ^ 64 by omega)
  obtain ⟨keptSmall,tailInKept⟩ := keptMessages_tokens R ctxBudget msgs
  have keptTotal :=
    totalTokens_eq (show tokens ChatMsg.tok (keptMessages R ctxBudget msgs) < 2 ^ 64 by omega)
  rw [tail, tokens_cons, tokens_nil, add_zero] at tailInKept
  rw [fitMessages, if_pos (by omega)]
  rcases truncateMessages_cases R ctxBudget msgs with ⟨fits,
    same⟩ | ⟨-,sys,found,system,fits,same⟩ | ⟨-,-,same⟩
  · omega
  · -- the system message is one of the list, so the sum does not wrap
    have inList : sys ∈ msgs :=
      (opening_sublist msgs).mem (mem_of_find?_eq_some (system_in_opening found system))
    have sysTok : sys.tok ≤ tokens ChatMsg.tok msgs := tok_le_tokens inList
    rw [tail, totalTokens_singleton (by omega), usizeAdd_eq (by omega)] at fits
    omega
  · rw [same, tail]

theorem fitMessages_over_iff
    (small : 2 * tokens ChatMsg.tok msgs + R.countTokens truncationText < 2 ^ 64) :
    ctxBudget < totalTokens (fitMessages R ctxBudget msgs) ↔
      ∃ last, msgs.getLast? = some last ∧ isUser last = true ∧ ctxBudget < last.tok := by
  constructor
  · exact fitMessages_exceeds
  · rintro ⟨last,isLast,user,exceeds⟩
    have inMsgs : last.tok ≤ tokens ChatMsg.tok msgs := tok_le_tokens (mem_of_getLast? isLast)
    rw [fitMessages_only_last isLast user exceeds small, totalTokens_singleton (by omega)]
    exact exceeds

end

end OpenSecret
