import OpenSecret.Prompt.Fitting
import Mathlib.Data.List.TakeWhile

/-!
Truncating what was already selected. The metadata pass keeps the first user
message and a tail, the marker goes in between, and the result is truncated once
more. Here that is compared with a single truncation of the whole list, message
by message; sums are exact throughout.
-/
namespace OpenSecret
open Framing Truncation List

section
variable {α β : Type} (tok : α → Nat) (isUser : α → Bool)
  (ctxBudget systemTokens markerTokens : Nat)

def tailWithin (items : List α) : List α :=
  fromUser isUser (recent tok
    (ctxBudget - (systemTokens + tokens tok (firstUser isUser items) + markerTokens)) items)

def beforeUser (items : List α) : Nat := (items.takeWhile fun m => !isUser m).length

/-- The first user message and the tail, each once. -/
def withFirst (items tail : List α) : List α :=
  if beforeUser isUser items + tail.length = items.length then tail
    else firstUser isUser items ++ tail

def selection (items : List α) : List α :=
  withFirst isUser items (tailWithin tok isUser ctxBudget systemTokens markerTokens items)

/-- When two truncations keep what one keeps: everything fits; there is no user
    message and the marker does not fit either; the tail lies behind the first
    user message; or that message is the whole tail and cannot be kept twice. -/
def PassesAgree (items : List α) : Prop :=
  let before := beforeUser isUser items
  let tail := (tailWithin tok isUser ctxBudget systemTokens markerTokens items).length
  systemTokens + tokens tok items ≤ ctxBudget ∨
    (before = items.length ∧ (items.length = 0 ∨ ctxBudget < systemTokens + markerTokens)) ∨
    (0 < tail ∧ before + tail < items.length) ∨
    (tail = 1 ∧ before + 1 = items.length ∧ ctxBudget < systemTokens +
      2 * tokens tok (firstUser isUser items) + if 2 ≤ before then markerTokens else 0)

instance (items : List α) :
    Decidable (PassesAgree tok isUser ctxBudget systemTokens markerTokens items) := by
  unfold PassesAgree
  infer_instance

variable {tok isUser ctxBudget systemTokens markerTokens}

section
variable (f : α → β) (tok' : β → Nat) (isUser' : β → Bool) (items : List α)

theorem tokens_map : tokens tok' (items.map f) = tokens (tok' ∘ f) items := by
  rw [tokens, tokens, map_map]

theorem tailWithin_map :
    tailWithin tok' isUser' ctxBudget systemTokens markerTokens (items.map f) =
      (tailWithin (tok' ∘ f) (isUser' ∘ f) ctxBudget systemTokens markerTokens items).map f := by
  rw [tailWithin, firstUser_map, tokens_map, recent_map, fromUser_map, tailWithin]

theorem beforeUser_map : beforeUser isUser' (items.map f) = beforeUser (isUser' ∘ f) items := by
  rw [beforeUser, takeWhile_map, length_map, beforeUser]
  rfl

theorem selection_map :
    selection tok' isUser' ctxBudget systemTokens markerTokens (items.map f) =
      (selection (tok' ∘ f) (isUser' ∘ f) ctxBudget systemTokens markerTokens items).map f := by
  unfold selection withFirst
  simp only [tailWithin_map, firstUser_map, beforeUser_map, length_map]
  split
  · rfl
  · rw [map_append]

theorem passesAgree_map :
    PassesAgree tok' isUser' ctxBudget systemTokens markerTokens (items.map f) ↔
      PassesAgree (tok' ∘ f) (isUser' ∘ f) ctxBudget systemTokens markerTokens items := by
  simp only [PassesAgree, beforeUser_map, tailWithin_map, firstUser_map, tokens_map, length_map]

end

variable {items before after : List α}

theorem beforeUser_none (none : ∀ m ∈ items, isUser m = false) :
    beforeUser isUser items = items.length := by
  rw [beforeUser, takeWhile_eq_self_iff.mpr fun m mem => by simp [none m mem]]

theorem beforeUser_split {m : α} (none : ∀ b ∈ before, isUser b = false)
    (user : isUser m = true) : beforeUser isUser (before ++ m :: after) = before.length := by
  rw [beforeUser, takeWhile_append_of_pos fun b mem => by simp [none b mem],
    takeWhile_cons_of_neg (by simp [user]), append_nil]

theorem firstUser_none (none : ∀ m ∈ items, isUser m = false) : firstUser isUser items = [] := by
  rw [firstUser, find?_eq_none.mpr fun m mem => by simp [none m mem]]
  rfl

theorem tailWithin_none (none : ∀ m ∈ items, isUser m = false) :
    tailWithin tok isUser ctxBudget systemTokens markerTokens items = [] :=
  fromUser_eq_nil.mpr fun m mem => none m ((recent_suffix _).mem mem)

theorem tailWithin_split {m : α} (split : items = before ++ m :: after)
    (none : ∀ b ∈ before, isUser b = false) (user : isUser m = true) :
    tailWithin tok isUser ctxBudget systemTokens markerTokens items = m :: after ∨
      tailWithin tok isUser ctxBudget systemTokens markerTokens items <:+ after := by
  refine fromUser_of_suffix none user ?_
  rw [← split]
  exact recent_suffix items

theorem withFirst_spec {isUser : α → Bool} {items recentEnd : List α}
    (suffix : recentEnd <:+ items) :
    (withFirst isUser items (fromUser isUser recentEnd)).Sublist items ∧
      ∀ m, m ∈ withFirst isUser items (fromUser isUser recentEnd) ↔
        m ∈ firstUser isUser items ++ fromUser isUser recentEnd := by
  unfold withFirst
  rcases split_at_user _ items with none | ⟨before,m,after,split,none,user⟩
  · have noTail : fromUser isUser recentEnd = [] :=
      fromUser_eq_nil.mpr fun m mem => none m (suffix.mem mem)
    rw [noTail, firstUser_none none]
    simp
  · have inItems : (m :: after).Sublist items := by
      rw [split]
      exact sublist_append_right before (m :: after)
    have length : items.length = before.length + (after.length + 1) := by
      rw [split, length_append, length_cons]
    have first : firstUser isUser items = [m] := by rw [split, firstUser_split none user]
    have position : beforeUser isUser items = before.length := by
      rw [split, beforeUser_split none user]
    rw [first, position]
    rcases fromUser_of_suffix none user (split ▸ suffix) with reaches | behind
    · rw [reaches, length_cons, if_pos length.symm]
      exact ⟨inItems,fun x => by simp⟩
    · have shorter := behind.length_le
      rw [if_neg (by omega)]
      exact ⟨(behind.sublist.cons_cons m).trans inItems,fun x => Iff.rfl⟩

end

/-- At most one system message, and it comes first. -/
structure Layout (sys body : List ChatMsg) : Prop where
  system : sys = [] ∨ ∃ s, sys = [s] ∧ isSystem s = true
  others : ∀ m ∈ body, isSystem m = false

section
variable {R : Runtime} {ctxBudget : Nat} {sys body : List ChatMsg}

theorem headMessages_layout (layout : Layout sys body) :
    headMessages false (sys ++ body) = sys ++ firstUser isUser body := by
  rcases layout.system with rfl | ⟨s,rfl,system⟩
  · have none : (body.takeWhile fun m => !isUser m).find? isSystem = none := by
      apply find?_eq_none.mpr
      intro m mem
      simp [layout.others m ((takeWhile_sublist _).mem mem)]
    rw [nil_append, headMessages_opening, chatOpening, none]
    rfl
  · rw [singleton_append, headMessages, system, Bool.not_false, Bool.true_and, if_pos rfl,
      headMessages_system]
    rfl

theorem keptTail_layout (layout : Layout sys body)
    (small : tokens ChatMsg.tok sys + tokens ChatMsg.tok body +
      R.countTokens truncationText < 2 ^ 64) :
    keptTail R ctxBudget (sys ++ body) =
      tailWithin ChatMsg.tok isUser ctxBudget (tokens ChatMsg.tok sys)
        (R.countTokens truncationText) body := by
  have firstSmall : tokens ChatMsg.tok (firstUser isUser body) ≤ tokens ChatMsg.tok body := by
    refine tokens_sublist ?_
    rw [firstUser, ← headMessages_system]
    exact headMessages_sublist true body
  have head : totalTokens (sys ++ firstUser isUser body) =
      tokens ChatMsg.tok sys + tokens ChatMsg.tok (firstUser isUser body) := by
    rw [totalTokens_eq (by rw [tokens_append]; omega), tokens_append]
  rw [keptTail, headMessages_layout layout, head, usizeAdd_eq (by omega), tailWithin]
  rcases layout.system with rfl | ⟨s,rfl,system⟩
  · rfl
  · exact fromUser_recent_cons (isUser_of_isSystem system) body

variable (R ctxBudget sys body)

def bodyTail : List ChatMsg :=
  tailWithin ChatMsg.tok isUser ctxBudget (tokens ChatMsg.tok sys)
    (R.countTokens truncationText) body

def bodyKept : List ChatMsg :=
  firstUser isUser body ++
    (if (firstUser isUser body).length + (bodyTail R ctxBudget sys body).length < body.length then
      [truncationMsg R] else []) ++ bodyTail R ctxBudget sys body

def fitBody : List ChatMsg :=
  let tail := bodyTail R ctxBudget sys body
  if tokens ChatMsg.tok sys + tokens ChatMsg.tok body ≤ ctxBudget then sys ++ body
  else if tokens ChatMsg.tok sys + tokens ChatMsg.tok (bodyKept R ctxBudget sys body) ≤
    ctxBudget then
    sys ++ bodyKept R ctxBudget sys body
  else if tokens ChatMsg.tok sys + tokens ChatMsg.tok tail ≤ ctxBudget then sys ++ tail
  else tail

variable {R ctxBudget sys body}

theorem bodyKept_others (layout : Layout sys body) :
    ∀ m ∈ bodyKept R ctxBudget sys body, isSystem m = false := by
  have marker : isSystem (truncationMsg R) = false := by
    simp [isSystem, truncationMsg, show roleAssistant ≠ roleSystem by decide]
  intro m mem
  rcases mem_append.mp mem with front | tail
  · rcases mem_append.mp front with first | cut
    · exact layout.others m (mem_of_find?_eq_some (Option.mem_toList.mp first))
    · split at cut
      · rw [mem_singleton.mp cut, marker]
      · cases cut
  · exact layout.others m (((fromUser_suffix _).trans (recent_suffix _)).mem tail)

theorem fitMessages_layout (layout : Layout sys body)
    (small : 2 * (tokens ChatMsg.tok sys + tokens ChatMsg.tok body) +
      R.countTokens truncationText < 2 ^ 64) :
    fitMessages R ctxBudget (sys ++ body) = fitBody R ctxBudget sys body := by
  have whole :=
    totalTokens_eq (show tokens ChatMsg.tok (sys ++ body) < 2 ^ 64 by rw [tokens_append]; omega)
  have tailEq : keptTail R ctxBudget (sys ++ body) = bodyTail R ctxBudget sys body :=
    keptTail_layout layout (by omega)
  have keptEq : keptMessages R ctxBudget (sys ++ body) = sys ++ bodyKept R ctxBudget sys body := by
    have shift : (sys ++ firstUser isUser body).length + (bodyTail R ctxBudget sys body).length <
        (sys ++ body).length ↔
        (firstUser isUser body).length + (bodyTail R ctxBudget sys body).length < body.length := by
      simp only [length_append]
      omega
    rw [keptMessages, headMessages_layout layout, tailEq, bodyKept]
    simp only [shift, append_assoc]
  obtain ⟨keptBound,tailBound⟩ := keptMessages_tokens R ctxBudget (sys ++ body)
  rw [tailEq, keptEq] at tailBound
  rw [keptEq, tokens_append, tokens_append] at keptBound
  rw [tokens_append] at tailBound whole
  have keptTotal :=
    totalTokens_eq (show tokens ChatMsg.tok (sys ++ bodyKept R ctxBudget sys body) < 2 ^ 64 by
    rw [tokens_append]; omega)
  have tailTotal :=
    totalTokens_eq (show tokens ChatMsg.tok (bodyTail R ctxBudget sys body) < 2 ^ 64 by omega)
  rw [tokens_append] at keptTotal
  have cases := truncateMessages_cases R ctxBudget (sys ++ body)
  rw [tailEq, keptEq, keptTotal, tailTotal, headMessages_layout layout] at cases
  unfold fitMessages fitBody
  dsimp only
  rw [whole]
  by_cases fits : tokens ChatMsg.tok sys + tokens ChatMsg.tok body ≤ ctxBudget
  · rw [if_neg (by omega), if_pos fits]
  · rw [if_pos (by omega), if_neg fits]
    rcases layout.system with rfl | ⟨s,rfl,system⟩
    · -- without a system message the tail is all that is left
      have noSystem : ([] ++ bodyKept R ctxBudget [] body).find? isSystem = none :=
        find?_eq_none.mpr fun m mem => by simp [bodyKept_others layout m mem]
      rcases cases with ⟨fits,same⟩ | ⟨-,s,found,-⟩ | ⟨exceeds,-,same⟩
      · rw [if_pos fits, same]
      · rw [noSystem] at found
        cases found
      · rw [if_neg (by omega), same]
        simp
    · have found : ([s] ++ bodyKept R ctxBudget [s] body).find? isSystem = some s :=
        find?_cons_of_pos system
      have head : ([s] ++ firstUser isUser body).any isSystem = true := by simp [system]
      have tokS : tokens ChatMsg.tok [s] = s.tok := by rw [tokens_cons, tokens_nil, add_zero]
      rw [tokS] at cases keptBound tailBound small ⊢
      have exactSum : usizeAdd s.tok (tokens ChatMsg.tok (bodyTail R ctxBudget [s] body)) =
          s.tok + tokens ChatMsg.tok (bodyTail R ctxBudget [s] body) := by
        refine usizeAdd_eq ?_
        have tailSmall : tokens ChatMsg.tok (bodyTail R ctxBudget [s] body) ≤
          tokens ChatMsg.tok body :=
          tokens_sublist ((fromUser_suffix _).trans (recent_suffix _)).sublist
        omega
      rcases cases with ⟨fits,same⟩ | ⟨exceeds,s',found',-,fits,same⟩ | ⟨exceeds,none,same⟩
      · rw [if_pos fits, same]
      · rw [found] at found'
        cases found'
        rw [exactSum] at fits
        rw [if_neg (by omega), if_pos fits, same]
        rfl
      · have tailOver := none s head found
        rw [exactSum] at tailOver
        rw [if_neg (by omega), if_neg (by omega), same]

end

section
variable {R : Runtime} {ctxBudget : Nat} {sys body before after : List ChatMsg} {m : ChatMsg}

/-- What the metadata pass selects of a list that does not fit. -/
def selectedBody (R : Runtime) (ctxBudget : Nat) (sys body : List ChatMsg) : List ChatMsg :=
  selection ChatMsg.tok isUser ctxBudget (tokens ChatMsg.tok sys)
    (R.countTokens truncationText) body

def markedBody (R : Runtime) : List ChatMsg → List ChatMsg
  | first :: second :: rest => first :: truncationMsg R :: second :: rest
  | short => short

/-- Rendering never gives this message the role of a user. -/
def NeverUser (R : Runtime) (m : ChatMsg) : Prop :=
  isUser m = false ∧ (m.role ≠ roleAssistant ∨ parsedToolCall R m.content = none)

/-- Lists that no rendering can make equal. -/
def Apart (R : Runtime) (a b : List ChatMsg) : Prop :=
  a.length ≠ b.length ∨ ∃ (i : Nat) (x y : ChatMsg),
    ((a[i]? = some x ∧ b[i]? = some y) ∨ (b[i]? = some x ∧ a[i]? = some y)) ∧
    isUser x = true ∧ NeverUser R y

@[simp] theorem truncationMsg_tok : (truncationMsg R).tok = R.countTokens truncationText := rfl

theorem neverUser_system (system : isSystem m = true) : NeverUser R m := by
  have role : m.role = roleSystem := of_decide_eq_true system
  exact ⟨isUser_of_isSystem system,.inl (by rw [role]; decide)⟩

theorem neverUser_marker (unread : R.parseJson truncationText = none) :
    NeverUser R (truncationMsg R) := by
  refine ⟨?_,.inr ?_⟩
  · simp [isUser, truncationMsg, show roleAssistant ≠ roleUser by decide]
  · simp [parsedToolCall, truncationMsg, unread]

theorem bodyTail_none (none : ∀ m ∈ body, isUser m = false) : bodyTail R ctxBudget sys body = [] :=
  tailWithin_none none

theorem fitBody_whole (fits : tokens ChatMsg.tok sys + tokens ChatMsg.tok body ≤ ctxBudget) :
    fitBody R ctxBudget sys body = sys ++ body :=
  if_pos fits

theorem fitBody_over (exceeds : ctxBudget < tokens ChatMsg.tok sys + tokens ChatMsg.tok body) :
    fitBody R ctxBudget sys body =
      if tokens ChatMsg.tok sys + tokens ChatMsg.tok (bodyKept R ctxBudget sys body) ≤
        ctxBudget then
        sys ++ bodyKept R ctxBudget sys body
      else if tokens ChatMsg.tok sys + tokens ChatMsg.tok (bodyTail R ctxBudget sys body) ≤
        ctxBudget then
        sys ++ bodyTail R ctxBudget sys body
      else bodyTail R ctxBudget sys body :=
  if_neg (not_le.mpr exceeds)

theorem fitBody_nil :
    fitBody R ctxBudget sys [] = if tokens ChatMsg.tok sys ≤ ctxBudget then sys else [] := by
  have tail : bodyTail R ctxBudget sys [] = [] := bodyTail_none (by simp)
  have kept : bodyKept R ctxBudget sys [] = [] := by simp [bodyKept, tail, firstUser]
  unfold fitBody
  simp only [tail, kept, tokens_nil, add_zero, append_nil]
  split <;> simp_all

theorem firstUser_cons (user : isUser m = true) (rest : List ChatMsg) :
    firstUser isUser (m :: rest) = [m] :=
  firstUser_split (fun _ none => absurd none not_mem_nil) user

theorem fitBody_single (user : isUser m = true) :
    fitBody R ctxBudget sys [m] =
      if tokens ChatMsg.tok sys + m.tok ≤ ctxBudget then sys ++ [m] else [m] := by
  have tail : bodyTail R ctxBudget sys [m] = [m] := by
    rw [bodyTail, tailWithin]
    exact fromUser_of_head rfl user
  have kept : bodyKept R ctxBudget sys [m] = [m,m] := by simp [bodyKept, tail, firstUser_cons user]
  unfold fitBody
  simp only [tail, kept, tokens_cons, tokens_nil, add_zero]
  split
  · rfl
  · rw [if_neg (by omega)]

theorem refit_none (none : ∀ m ∈ body, isUser m = false)
    (exceeds : ctxBudget < tokens ChatMsg.tok sys + tokens ChatMsg.tok body) :
    if body.length = 0 ∨ ctxBudget < tokens ChatMsg.tok sys + R.countTokens truncationText then
      fitBody R ctxBudget sys [] = fitBody R ctxBudget sys body
    else Apart R (fitBody R ctxBudget sys []) (fitBody R ctxBudget sys body) := by
  have tail : bodyTail R ctxBudget sys body = [] := bodyTail_none none
  cases body with
  | nil => simp
  | cons m rest =>
    have kept : bodyKept R ctxBudget sys (m :: rest) = [truncationMsg R] := by
      simp [bodyKept, tail, firstUser_none none]
    rw [fitBody_over exceeds, kept, tail, fitBody_nil]
    simp only [tokens_cons, tokens_nil, truncationMsg_tok, add_zero, append_nil]
    split
    · rename_i tight
      rw [if_neg (not_le.mpr (tight.resolve_left (by simp)))]
    · rename_i room
      rw [not_or] at room
      rw [if_pos (show tokens ChatMsg.tok sys ≤ ctxBudget by omega), if_pos (not_lt.mp room.2)]
      exact .inl (by simp)

variable {rest tail : List ChatMsg}

theorem bodyTail_fits (small : tokens ChatMsg.tok body < 2 ^ 64)
    (cut : bodyTail R ctxBudget sys body = tail) (several : 2 ≤ tail.length) :
    tokens ChatMsg.tok tail ≤ ctxBudget -
      (tokens ChatMsg.tok sys + tokens ChatMsg.tok (firstUser isUser body) +
        R.countTokens truncationText) := by
  subst cut
  have suffix : bodyTail R ctxBudget sys body <:+ recent ChatMsg.tok _ body := fromUser_suffix _
  exact (tokens_sublist suffix.sublist).trans (recent_fits small (several.trans suffix.length_le))

/-- A list that starts with a user message and the marker keeps what follows the
    marker as its recent end, if that fits and the marker does not. -/
theorem recent_marked {available : Nat}
    (small : m.tok + R.countTokens truncationText + tokens ChatMsg.tok rest < 2 ^ 64)
    (nonempty : rest ≠ []) (fits : 2 ≤ rest.length → tokens ChatMsg.tok rest ≤ available)
    (stop : available < R.countTokens truncationText + tokens ChatMsg.tok rest) :
    recent ChatMsg.tok available (m :: truncationMsg R :: rest) = rest := by
  have cut : recent ChatMsg.tok available ([m,truncationMsg R] ++ rest) = rest := by
    refine recent_eq ?_ nonempty fits ?_
    · simp only [tokens_append, tokens_cons, tokens_nil, truncationMsg_tok]
      omega
    · intro earlier last split
      have isMarker : last = truncationMsg R := by simpa using (congrArg List.getLast? split).symm
      rwa [isMarker, truncationMsg_tok]
  exact cut

structure FirstUserAt (body before : List ChatMsg) (m : ChatMsg) (after : List ChatMsg) : Prop where
  split : body = before ++ m :: after
  none : ∀ b ∈ before, isUser b = false
  user : isUser m = true

namespace FirstUserAt
variable (here : FirstUserAt body before m after)
include here

theorem first : firstUser isUser body = [m] := by
  rw [here.split, firstUser_split here.none here.user]

theorem position : beforeUser isUser body = before.length := by
  rw [here.split, beforeUser_split here.none here.user]

theorem length : body.length = before.length + (after.length + 1) := by
  rw [here.split, length_append, length_cons]

theorem tokens :
    tokens ChatMsg.tok body = tokens ChatMsg.tok before + (m.tok + tokens ChatMsg.tok after) := by
  rw [here.split, tokens_append, tokens_cons]

theorem kept (tail : bodyTail R ctxBudget sys body = m :: after) :
    bodyKept R ctxBudget sys body = m :: (if 2 ≤ before.length then [truncationMsg R] else []) ++
      m :: after := by
  have length := here.length
  have cut : [m].length + (m :: after).length < body.length ↔ 2 ≤ before.length := by
    rw [length_singleton, length_cons]
    omega
  rw [bodyKept, here.first, tail]
  simp only [cut, singleton_append]

end FirstUserAt

theorem firstUser_cases (body : List ChatMsg) :
    (∀ m ∈ body, isUser m = false) ∨ ∃ before m after, FirstUserAt body before m after := by
  rcases split_at_user isUser body with none | ⟨before,m,after,split,none,user⟩
  · exact .inl none
  · exact .inr ⟨before,m,after,split,none,user⟩

theorem marked_tokens (rest : List ChatMsg) : tokens ChatMsg.tok (m :: truncationMsg R :: rest) =
    m.tok + (R.countTokens truncationText + tokens ChatMsg.tok rest) := by
  rw [tokens_cons, tokens_cons, truncationMsg_tok]

/-- Truncated again, a list with the marker keeps the marker if it keeps the first message. -/
theorem marked_kept (user : isUser m = true) (shorter : tail.length ≤ rest.length)
    (again : bodyTail R ctxBudget sys (m :: truncationMsg R :: rest) = tail) :
    bodyKept R ctxBudget sys (m :: truncationMsg R :: rest) = m :: truncationMsg R :: tail := by
  rw [bodyKept, again, firstUser_cons user, if_pos (by simp only [length_cons, length_nil]; omega)]
  rfl

section
variable (here : FirstUserAt body before m after)
  (exceeds : ctxBudget < tokens ChatMsg.tok sys + tokens ChatMsg.tok body)
include here exceeds

theorem refit_behind (marker : 0 < R.countTokens truncationText)
    (small : tokens ChatMsg.tok body + R.countTokens truncationText < 2 ^ 64)
    (tailEq : bodyTail R ctxBudget sys body = tail) (behind : tail <:+ after)
    (nonempty : tail ≠ []) :
    fitBody R ctxBudget sys (m :: truncationMsg R :: tail) = fitBody R ctxBudget sys body := by
  have tailFits : 2 ≤ tail.length → _ := bodyTail_fits (by omega) tailEq
  rw [here.first, tokens_cons, tokens_nil, add_zero] at tailFits
  have bodyTokens := here.tokens
  have bodyLength := here.length
  have tailTokens : tokens ChatMsg.tok tail ≤ tokens ChatMsg.tok after :=
    tokens_sublist behind.sublist
  have tailLength := behind.length_le
  -- the tail is everything behind the first user message, or the marker is put in
  have kept : (tokens ChatMsg.tok tail + m.tok = tokens ChatMsg.tok body ∧
    bodyKept R ctxBudget sys body = m :: tail) ∨
      bodyKept R ctxBudget sys body = m :: truncationMsg R :: tail := by
    unfold bodyKept
    rw [here.first, tailEq]
    by_cases cutSome : [m].length + tail.length < body.length
    · rw [if_pos cutSome]
      exact .inr rfl
    · rw [if_neg cutSome]
      rw [length_singleton] at cutSome
      have all : tail = after := behind.eq_of_length (by omega)
      rw [length_eq_zero_iff.mp (show before.length = 0 by omega), tokens_nil] at bodyTokens
      exact .inl ⟨by rw [all]; omega,rfl⟩
  by_cases fits :
    tokens ChatMsg.tok sys + tokens ChatMsg.tok (m :: truncationMsg R :: tail) ≤ ctxBudget
  · have withMarker : bodyKept R ctxBudget sys body = m :: truncationMsg R :: tail := by
      rw [marked_tokens] at fits
      exact kept.resolve_left fun all => by omega
    rw [fitBody_whole fits, fitBody_over exceeds, withMarker, if_pos fits]
  · have keptOver : ¬ tokens ChatMsg.tok sys + tokens ChatMsg.tok (bodyKept R ctxBudget sys body) ≤
        ctxBudget := by
      rcases kept with ⟨all,same⟩ | same
      · rw [same, tokens_cons]
        omega
      · rwa [same]
    have again : bodyTail R ctxBudget sys (m :: truncationMsg R :: tail) = tail := by
      obtain ⟨u,rest,cut⟩ := exists_cons_of_ne_nil nonempty
      have startsWithUser : isUser u = true := fromUser_head (tailEq.trans cut)
      rw [marked_tokens] at fits
      rw [bodyTail, tailWithin, firstUser_cons here.user, tokens_cons, tokens_nil, add_zero,
        recent_marked (by omega) nonempty tailFits (by omega)]
      exact fromUser_of_head cut startsWithUser
    rw [fitBody_over (not_le.mp fits), marked_kept here.user le_rfl again,
      again, if_neg fits,
      fitBody_over exceeds, if_neg keptOver, tailEq]

/-- No user message in the recent end: one truncation loses the first user
    message or shows the marker, two keep that message alone. -/
theorem refit_no_tail (layout : Layout sys body) (noTail : bodyTail R ctxBudget sys body = []) :
    Apart R (fitBody R ctxBudget sys [m]) (fitBody R ctxBudget sys body) := by
  have several : 1 < body.length := by
    by_contra single
    have length := here.length
    have alone : body = [m] := by
      rw [here.split, length_eq_zero_iff.mp (show before.length = 0 by omega),
        length_eq_zero_iff.mp (show after.length = 0 by omega)]
      rfl
    rw [alone, bodyTail, tailWithin] at noTail
    exact cons_ne_nil m [] (Eq.trans (Eq.symm (fromUser_of_head rfl here.user)) noTail)
  have kept : bodyKept R ctxBudget sys body = [m,truncationMsg R] := by
    rw [bodyKept, here.first, noTail, if_pos (by simpa using several)]
    rfl
  rw [fitBody_over exceeds, kept, noTail, marked_tokens, fitBody_single here.user]
  simp only [tokens_nil, add_zero, append_nil]
  by_cases room : tokens ChatMsg.tok sys + m.tok ≤ ctxBudget
  · rw [if_pos room]
    refine .inl ?_
    split <;> simp
    split <;> simp
  · rw [if_neg room, if_neg (by omega)]
    rcases layout.system with rfl | ⟨s,rfl,system⟩
    · exact .inl (by split <;> simp)
    · split
      · exact .inr ⟨0,m,s,.inl ⟨rfl,rfl⟩,here.user,neverUser_system system⟩
      · exact .inl (by simp)

/-- The first user message is the last message: one truncation keeps it twice if
    it can. -/
theorem refit_single (last : after = []) (tail : bodyTail R ctxBudget sys body = [m]) :
    if ctxBudget < tokens ChatMsg.tok sys + 2 * m.tok +
        (if 2 ≤ before.length then R.countTokens truncationText else 0) then
      fitBody R ctxBudget sys [m] = fitBody R ctxBudget sys body
    else Apart R (fitBody R ctxBudget sys [m]) (fitBody R ctxBudget sys body) := by
  subst last
  have kept := here.kept tail
  have keptTokens : tokens ChatMsg.tok (bodyKept R ctxBudget sys body) =
      2 * m.tok + (if 2 ≤ before.length then R.countTokens truncationText else 0) := by
    rw [kept]
    split <;> simp <;> omega
  rw [fitBody_over exceeds, fitBody_single here.user, keptTokens,
    tail, tokens_cons, tokens_nil, add_zero]
  by_cases tight : ctxBudget < tokens ChatMsg.tok sys + 2 * m.tok +
      (if 2 ≤ before.length then R.countTokens truncationText else 0)
  · rw [if_pos tight, if_neg (show ¬ tokens ChatMsg.tok sys + (2 * m.tok + _) ≤ ctxBudget by omega)]
  · rw [if_neg tight, if_pos (show tokens ChatMsg.tok sys + m.tok ≤ ctxBudget by omega),
      if_pos (by omega), kept]
    exact .inl (by simp)

/-- The recent end reaches back to the first user message and beyond it: one
    truncation keeps that message twice. -/
theorem refit_from (marker : 0 < R.countTokens truncationText)
    (unread : R.parseJson truncationText = none)
    (small : tokens ChatMsg.tok body + R.countTokens truncationText < 2 ^ 64)
    (tail : bodyTail R ctxBudget sys body = m :: after) (nonempty : after ≠ []) :
    Apart R (fitBody R ctxBudget sys (m :: truncationMsg R :: after))
      (fitBody R ctxBudget sys body) := by
  have bodyTokens := here.tokens
  have some_after := length_pos_iff.mpr nonempty
  have tailFits := bodyTail_fits (by omega) tail (by rw [length_cons]; omega)
  rw [here.first, tokens_cons, tokens_cons, tokens_nil, Nat.add_zero] at tailFits
  have kept := here.kept tail
  have keptTokens : tokens ChatMsg.tok (bodyKept R ctxBudget sys body) ≤
      m.tok + R.countTokens truncationText + (m.tok + tokens ChatMsg.tok after) := by
    rw [kept]
    split <;> simp
    omega
  have keptLength : after.length + 2 ≤ (bodyKept R ctxBudget sys body).length := by
    rw [kept]
    simp only [cons_append, length_cons, length_append]
    omega
  have markedTokens := marked_tokens (R := R) (m := m) after
  by_cases fits :
    tokens ChatMsg.tok sys + tokens ChatMsg.tok (m :: truncationMsg R :: after) ≤ ctxBudget
  · rw [fitBody_whole fits, fitBody_over exceeds, if_pos (by omega), kept]
    by_cases cut : 2 ≤ before.length
    · rw [if_pos cut]
      exact .inl (by simp)
    · -- the marker stands where the other list has the user message again
      rw [if_neg cut]
      exact .inr ⟨sys.length + 1,m,truncationMsg R,.inr ⟨by simp,by simp⟩,
        here.user,neverUser_marker unread⟩
  · -- only messages without tokens are taken when nothing is left for them
    have zero : m.tok = 0 ∧ tokens ChatMsg.tok after = 0 ∧
        ctxBudget < tokens ChatMsg.tok sys + R.countTokens truncationText := by omega
    obtain ⟨noTok,noTokens,tight⟩ := zero
    have again : bodyTail R ctxBudget sys (m :: truncationMsg R :: after) =
        fromUser isUser after := by
      rw [bodyTail, tailWithin, firstUser_cons here.user, tokens_cons, tokens_nil, Nat.add_zero,
        recent_marked (by omega) nonempty (fun _ => by omega) (by omega)]
    have suffix : fromUser isUser after <:+ after := fromUser_suffix after
    have shorter := suffix.length_le
    have freeTail : tokens ChatMsg.tok (fromUser isUser after) ≤ tokens ChatMsg.tok after :=
      tokens_sublist suffix.sublist
    have noTailTokens : tokens ChatMsg.tok (fromUser isUser after) = 0 := by omega
    refine .inl ?_
    rw [fitBody_over (Nat.not_le.mp fits), marked_kept here.user shorter again,
      again, marked_tokens,
      if_neg (by omega), noTailTokens, fitBody_over exceeds,
      tail, tokens_cons, noTok, noTokens, Nat.add_zero]
    by_cases room : tokens ChatMsg.tok sys ≤ ctxBudget
    · simp only [if_pos room]
      split <;> simp only [length_append, length_cons] <;> omega
    · rw [if_neg room, if_neg (by omega), if_neg room, length_cons]
      omega

end

/-- Two truncations against one: the same messages, or lists that render
    differently. -/
theorem refit_agrees_or_apart (layout : Layout sys body) (marker : 0 < R.countTokens truncationText)
    (unread : R.parseJson truncationText = none)
    (small : tokens ChatMsg.tok body + R.countTokens truncationText < 2 ^ 64)
    (exceeds : ctxBudget < tokens ChatMsg.tok sys + tokens ChatMsg.tok body) :
    if PassesAgree ChatMsg.tok isUser ctxBudget (tokens ChatMsg.tok sys)
      (R.countTokens truncationText) body then
      fitBody R ctxBudget sys (markedBody R (selectedBody R ctxBudget sys body)) =
        fitBody R ctxBudget sys body
    else Apart R (fitBody R ctxBudget sys (markedBody R (selectedBody R ctxBudget sys body)))
      (fitBody R ctxBudget sys body) := by
  have agree : PassesAgree ChatMsg.tok isUser ctxBudget (tokens ChatMsg.tok sys)
      (R.countTokens truncationText) body ↔
      (beforeUser isUser body = body.length ∧
        (body.length = 0 ∨ ctxBudget < tokens ChatMsg.tok sys + R.countTokens truncationText)) ∨
      (0 < (bodyTail R ctxBudget sys body).length ∧
        beforeUser isUser body + (bodyTail R ctxBudget sys body).length < body.length) ∨
      ((bodyTail R ctxBudget sys body).length = 1 ∧ beforeUser isUser body + 1 = body.length ∧
        ctxBudget < tokens ChatMsg.tok sys + 2 * tokens ChatMsg.tok (firstUser isUser body) +
          if 2 ≤ beforeUser isUser body then R.countTokens truncationText else 0) :=
    or_iff_right (not_le.mpr exceeds)
  have selected : selectedBody R ctxBudget sys body =
      if beforeUser isUser body + (bodyTail R ctxBudget sys body).length = body.length then
        bodyTail R ctxBudget sys body
      else firstUser isUser body ++ bodyTail R ctxBudget sys body := rfl
  simp only [agree]
  rw [selected]
  rcases firstUser_cases body with none | ⟨before,m,after,here⟩
  · have tail : bodyTail R ctxBudget sys body = [] := bodyTail_none none
    have short : markedBody R [] = [] := rfl
    rw [tail, beforeUser_none none, length_nil, if_pos (add_zero _), short]
    have result : if _ then _ else Apart R _ _ := refit_none (R := R) none exceeds
    simpa using result
  · have length := here.length
    rw [here.position, here.first, tokens_cons, tokens_nil, add_zero]
    rcases tailWithin_split here.split here.none here.user with reaches | behind
    · have tail : bodyTail R ctxBudget sys body = m :: after := reaches
      rw [tail, length_cons, if_pos length.symm]
      cases after with
      | nil =>
        have short : markedBody R [m] = [m] := rfl
        have result := refit_single here exceeds rfl tail
        rw [short]
        simpa [length] using result
      | cons second rest =>
        rw [if_neg (by rw [length, length_cons]; omega)]
        exact refit_from here exceeds marker unread small tail (cons_ne_nil second rest)
    · have behind : bodyTail R ctxBudget sys body <:+ after := behind
      have tailLength := behind.length_le
      rw [if_neg (show ¬before.length + (bodyTail R ctxBudget sys body).length =
        body.length by omega)]
      cases tail : bodyTail R ctxBudget sys body with
      | nil =>
        rw [if_neg (by rw [length, length_nil]; omega)]
        exact refit_no_tail here exceeds layout tail
      | cons u rest =>
        rw [tail] at behind tailLength
        rw [if_pos (by rw [length]; simp only [length_cons] at tailLength ⊢; omega)]
        exact refit_behind here exceeds marker small tail behind (cons_ne_nil u rest)

end

end OpenSecret
