import OpenSecret.Prompt.Turns

/-!
Which reasoning rows the decode loop attaches to which message. The loop is run
beside a record of the rows whose texts are pending; the record only follows what
the loop's own step has done, and leaving it out gives the loop back.
-/
namespace OpenSecret
open Framing Truncation List

section
variable (R : Runtime)

/-- The rows whose texts are pending behind a step: none once nothing is pending,
    one more when the step has added to the text. -/
def pendingSources (sources : List RawThreadMessage) (before after : Option PendingReasoning)
    (r : RawThreadMessage) : List RawThreadMessage :=
  if after = none then []
  else if after.map PendingReasoning.content = before.map PendingReasoning.content then sources
  else sources ++ [r]

/-- The decode loop with the rows each message has its reasoning from. -/
def decodeWithSources (includeReasoning : Bool) (pending : Option PendingReasoning)
    (sources : List RawThreadMessage) :
    List RawThreadMessage → Except ApiError (List (ChatMsg × List RawThreadMessage))
  | [] => .ok []
  | r :: rest => do
    let step ← decodeRow R includeReasoning pending r
    let later ← decodeWithSources includeReasoning step.1
      (pendingSources sources pending step.1 r) rest
    return step.2.toList.map (fun m => (m,if m.reasoning = none then [] else sources)) ++ later

theorem decodeWithSources_messages (includeReasoning : Bool) (pending : Option PendingReasoning)
    (sources rows : List RawThreadMessage) :
    (decodeWithSources R includeReasoning pending sources rows).map (List.map Prod.fst) =
      decodeMessages R includeReasoning pending rows := by
  induction rows generalizing pending sources with
  | nil => rfl
  | cons r rest ih =>
    unfold decodeWithSources decodeMessages
    cases decodeRow R includeReasoning pending r with
    | error e => rfl
    | ok step =>
      have later := ih step.1 (pendingSources sources pending step.1 r)
      simp only [bind, Except.bind]
      rw [← later]
      cases decodeWithSources R includeReasoning step.1
        (pendingSources sources pending step.1 r) rest with
      | error e => rfl
      | ok traced =>
        simp only [Except.map, pure, Except.pure, map_append, map_map]
        congr 2
        exact map_id _

end

section
variable {R : Runtime} {includeReasoning : Bool} {pending rows : List RawThreadMessage}

def joinedTexts (R : Runtime) (rows : List RawThreadMessage) : Option Text :=
  if rows = [] then none else some (rows.flatMap (RawThreadMessage.storedText R))

theorem collectAll_content (complete : ∀ r ∈ rows, r.Complete R) :
    (collectAll R rows).map PendingReasoning.content = joinedTexts R rows := by
  induction rows using reverseRecOn with
  | nil => rfl
  | append_singleton earlier r ih =>
    have before := ih fun q mem => complete q (by simp [mem])
    have text := (complete r (by simp)).nonempty
    rw [collectAll_concat, joinedTexts, if_neg (by simp), flatMap_append, flatMap_singleton]
    unfold collectReasoning
    rw [if_neg text]
    rcases eq_or_ne earlier [] with rfl | some
    · rfl
    · rw [joinedTexts, if_neg some] at before
      obtain ⟨p,collected,content⟩ := Option.map_eq_some_iff.mp before
      rw [collected, ← content]
      rfl

theorem collectAll_none (complete : ∀ r ∈ rows, r.Complete R) :
    collectAll R rows = none ↔ rows = [] := by
  rw [← Option.map_eq_none_iff, collectAll_content complete, joinedTexts]
  constructor
  · intro none
    by_contra some
    rw [if_neg some] at none
    cases none
  · intro empty
    exact if_pos empty

theorem Turn.message_reasoning {t : Turn} (complete : ∀ r ∈ t.rows, r.Complete R) :
    (t.message R).reasoning = joinedTexts R t.reasoning := by
  rw [← collectAll_content fun r mem => complete r (by simp [Turn.rows, mem])]
  have alone : ¬(t.row.messageType = .assistant ∨ t.row.messageType = .toolCall) →
      none = (collectAll R t.reasoning).map PendingReasoning.content := by
    intro other
    rw [t.attached.resolve_right other]
    rfl
  rw [Turn.message, messageOf]
  cases kind : t.row.messageType with
  | user => exact alone (by simp [kind])
  | assistant => rfl
  | toolCall => rfl
  | toolOutput => exact alone (by simp [kind])
  | reasoning => exact absurd kind t.shown

theorem pendingSources_reasoning {r : RawThreadMessage}
    (complete : ∀ q ∈ pending ++ [r], q.Complete R)
    (off : includeReasoning = false → pending = []) :
    pendingSources pending (collectAll R pending)
        (collectAll R (if includeReasoning then pending ++ [r] else pending)) r =
      if includeReasoning then pending ++ [r] else pending := by
  cases includeReasoning with
  | true =>
    have text := (complete r (by simp)).nonempty
    have before : (collectAll R pending).map PendingReasoning.content = joinedTexts R pending :=
      collectAll_content fun q mem => complete q (mem_append_left [r] mem)
    have after := collectAll_content complete
    rw [if_pos rfl, pendingSources, if_neg, if_neg]
    · rw [before, after, joinedTexts, joinedTexts, if_neg (by simp),
        flatMap_append, flatMap_singleton]
      intro same
      split at same
      · cases same
      · exact text (append_right_eq_self.mp (Option.some.inj same))
    · rw [collectAll_none complete]
      simp
  | false =>
    rw [off rfl]
    rfl

/-- The sources of each message are the reasoning rows of its turn. -/
theorem decodeWithSources_turns (pendingComplete : ∀ r ∈ pending, r.Complete R)
    (complete : ∀ r ∈ rows, r.Complete R) (off : includeReasoning = false → pending = []) :
    decodeWithSources R includeReasoning (collectAll R pending) pending rows =
      .ok ((turns includeReasoning pending rows).map fun t => (t.message R,t.reasoning)) := by
  induction rows generalizing pending with
  | nil => rfl
  | cons r rest ih =>
    obtain ⟨first,completeRest⟩ := forall_mem_cons.mp complete
    have both : ∀ q ∈ pending ++ [r], q.Complete R :=
      forall_mem_append.mpr ⟨pendingComplete,forall_mem_singleton.mpr first⟩
    unfold decodeWithSources
    by_cases reasoning : r.messageType = .reasoning
    · rw [decodeRow_reasoning first reasoning, turns, dif_pos reasoning]
      simp only [bind, Except.bind]
      rw [pendingSources_reasoning both off, ih _ completeRest]
      · rfl
      · intro none
        rw [if_neg (by simp [none]), off none]
      · cases includeReasoning with
        | true => exact both
        | false => exact pendingComplete
    · obtain ⟨t,grouped,row,taken,made⟩ := turns_shown (R := R) reasoning off rest
      have ofTurn : ∀ q ∈ t.rows, q.Complete R := by
        refine forall_mem_append.mpr ⟨?_,forall_mem_singleton.mpr (row ▸ first)⟩
        rcases taken with all | empty
        · exact all ▸ pendingComplete
        · simp [empty]
      have sources : (if (t.message R).reasoning = none then [] else pending) = t.reasoning := by
        rw [Turn.message_reasoning ofTurn, joinedTexts]
        by_cases empty : t.reasoning = []
        · rw [if_pos empty, if_pos rfl, empty]
        · rw [if_neg empty, if_neg (by simp)]
          exact (taken.resolve_right empty).symm
      have restart : decodeWithSources R includeReasoning none [] rest = _ :=
        @ih [] (by simp) completeRest fun _ => rfl
      rw [decodeRow_shown first reasoning, made, grouped]
      simp only [bind, Except.bind]
      rw [show pendingSources pending (collectAll R pending) none r = [] from rfl, restart]
      simp only [pure, Except.pure, Option.toList_some, map_cons,
        map_nil, singleton_append, sources]

theorem decodeMessages_turns (complete : ∀ r ∈ rows, r.Complete R) :
    decodeMessages R includeReasoning none rows =
      .ok ((turns includeReasoning [] rows).map (Turn.message R)) := by
  have traced : decodeWithSources R includeReasoning none [] rows = _ :=
    @decodeWithSources_turns R includeReasoning [] rows (by simp) complete fun _ => rfl
  rw [← decodeWithSources_messages R includeReasoning none [] rows, traced, Except.map, map_map]
  rfl

end

def messageRows (traced : List (ChatMsg × List RawThreadMessage)) (rows : List RawThreadMessage) :
    List (List RawThreadMessage) :=
  List.zipWith (fun decoded r => decoded.2 ++ [r]) traced (rows.filter RawThreadMessage.shown)

/-- Both loops group the rows in the same way: each row that becomes a message closes
    one entry, the other rows of the entry are those the message has its reasoning
    from, and both count the same tokens. -/
theorem reasoning_grouping_agrees (R : Runtime) (includeReasoning : Bool)
    (rows : List RawThreadMessage) (complete : ∀ r ∈ rows, r.Complete R) :
    let entries := buildContextEntries includeReasoning [] (rows.map RawThreadMessage.metadata)
    ∃ traced, decodeWithSources R includeReasoning none [] rows = .ok traced ∧
      decodeMessages R includeReasoning none rows = .ok (traced.map Prod.fst) ∧
      traced.length = (rows.filter RawThreadMessage.shown).length ∧
      entries.map ContextEntry.messageType =
        (rows.filter RawThreadMessage.shown).map RawThreadMessage.messageType ∧
      entries.map ContextEntry.ids = (messageRows traced rows).map (List.map RawThreadMessage.key) ∧
      (messageRows traced rows).flatten.Sublist rows ∧
      entries.map ContextEntry.tok = traced.map (fun decoded => decoded.1.tok) ∧
      ∀ decoded ∈ traced, (∀ r ∈ decoded.2, r.messageType = .reasoning) ∧
        decoded.1.reasoning = joinedTexts R decoded.2 := by
  intro entries
  have grouped : entries = (turns includeReasoning [] rows).map Turn.entry :=
    buildContextEntries_turns includeReasoning [] rows
  have shown := turns_row includeReasoning [] rows
  have ofTurn : ∀ t ∈ turns includeReasoning [] rows, ∀ r ∈ t.rows, r.Complete R :=
    fun t mem r inTurn => complete r ((turns_member mem).mem inTurn)
  have decoded : decodeWithSources R includeReasoning (collectAll R []) [] rows = _ :=
    decodeWithSources_turns (by simp) complete fun _ => rfl
  have groups :
    messageRows ((turns includeReasoning [] rows).map fun t => (t.message R,t.reasoning)) rows =
      (turns includeReasoning [] rows).map Turn.rows := by
    rw [messageRows, ← shown, zipWith_map, zipWith_self]
    rfl
  refine ⟨_,decoded,?_,?_,?_,?_,?_,?_,?_⟩
  · rw [decodeMessages_turns complete, map_map]
    rfl
  · rw [← shown, length_map, length_map]
  · rw [grouped, ← shown, map_map, map_map]
    rfl
  · rw [groups, grouped, map_map, map_map]
    apply map_congr_left
    intro t _
    rw [Function.comp_apply, Function.comp_apply, Turn.rows, map_append]
    simp only [Turn.entry, ContextEntry.withReasoning, map_append, map_map]
    rfl
  · rw [groups]
    exact turns_sublist includeReasoning [] rows
  · rw [grouped, map_map, map_map]
    apply map_congr_left
    intro t mem
    exact (Turn.message_tok (ofTurn t mem)).symm
  · intro made mem
    obtain ⟨t,inTurns,rfl⟩ := mem_map.mp mem
    constructor
    · exact (turns_grouped (by simp) (fun _ => rfl) t inTurns).1
    · exact Turn.message_reasoning (ofTurn t inTurns)

/-- Reasoning in front of a question, of an answer and behind everything. -/
def thoughtfulRows : List RawThreadMessage :=
  [⟨.reasoning,1,sealText "early",some 7,none,none⟩,⟨.user,1,sealText "\"why\"",some 2,none,none⟩,
    ⟨.reasoning,2,sealText "because",some 5,none,none⟩,
    ⟨.reasoning,3,sealText " of it",some 3,none,none⟩,
    ⟨.assistant,1,sealText "so",some 1,none,none⟩,⟨.reasoning,4,sealText "late",some 4,none,none⟩]

theorem thoughts_attached :
    ∃ traced, decodeWithSources budgetRuntime true none [] thoughtfulRows = .ok traced ∧
      traced.map (fun decoded => decoded.1.tok) = [2,9] := by
  have complete : thoughtfulRows.all (checkComplete budgetRuntime) = true := by decide +kernel
  obtain ⟨traced,decoded,-,-,-,-,-,tokens,-⟩ :=
    reasoning_grouping_agrees budgetRuntime true thoughtfulRows
    fun r mem => complete_of_check (all_eq_true.mp complete r mem)
  refine ⟨traced,decoded,?_⟩
  rw [← tokens]
  decide +kernel

end OpenSecret
