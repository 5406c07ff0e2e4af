import OpenSecret.Responses.Ledger
import OpenSecret.Responses.StorageLogic

/-!
When every database call is answered, the rows, the pending items and the clock
of the storage task reflect the ledger after every message it can be sent.
-/
namespace OpenSecret.Responses
open Framing Keyed
open List hiding get modify set

section
variable {α : Type} {key : Uuid} {default : α} {change : α → α} {entries : List (Uuid × α)}

theorem upsert_absent (absent : ∀ p ∈ entries, p.1 ≠ key) :
    upsert key default change entries = entries ++ [(key,change default)] := by
  induction entries with
  | nil => rfl
  | cons p rest ih =>
    rw [upsert, if_neg (absent p mem_cons_self),
      ih fun q mem => absent q (mem_cons_of_mem _ mem)]
    rfl

theorem upsert_present (distinct : (entries.map Prod.fst).Nodup)
    (present : ∃ p ∈ entries, p.1 = key) :
    upsert key default change entries = amend Prod.fst key (fun p => (p.1,change p.2)) entries := by
  induction entries with
  | nil => obtain ⟨p,mem,-⟩ := present; cases mem
  | cons p rest ih =>
    obtain ⟨unique,distinct⟩ := nodup_cons.mp distinct
    by_cases here : p.1 = key
    · have elsewhere : ∀ q ∈ rest, q.1 ≠ key := fun q mem same =>
        unique (mem_map.mpr ⟨q,mem,same.trans here.symm⟩)
      have tail : amend Prod.fst key (fun p : Uuid × α => (p.1,change p.2)) rest = rest :=
        amend_absent elsewhere
      rw [upsert, if_pos here, amend, map_cons, if_pos here]
      exact congrArg _ tail.symm
    · rw [upsert, if_neg here, amend, map_cons, if_neg here]
      refine congrArg _ (ih distinct ?_)
      obtain ⟨q,mem,same⟩ := present
      rcases mem_cons.mp mem with rfl | later
      · exact absurd same here
      · exact ⟨q,later,same⟩

theorem find_absent (absent : ∀ p ∈ entries, p.1 ≠ key) : find key entries = none := by
  rw [find, find?_eq_none.mpr fun p mem => by simpa using absent p mem]
  rfl

theorem find_present (distinct : (entries.map Prod.fst).Nodup) {value : α}
    (mem : (key,value) ∈ entries) :
    find key entries = some value := by
  obtain ⟨found,here⟩ : ∃ p, entries.find? (·.1 = key) = some p :=
    Option.isSome_iff_exists.mp (find?_isSome.mpr ⟨_,mem,by simp⟩)
  have same : found.1 = key := by simpa using find?_some here
  have equal := inj_on_of_nodup_map distinct (mem_of_find?_eq_some here) mem same
  rw [find, here, equal]
  rfl

theorem without_map {β : Type} {entries : List β} {name : β → Uuid} {f : β → Uuid × α}
    (named : ∀ b, (f b).1 = name b) :
    without key (entries.map f) = (entries.filter (name · ≠ key)).map f := by
  rw [without, filter_map]
  refine congrArg _ (filter_congr fun b _ => ?_)
  simp only [Function.comp, named]

end

structure MessageRow (env : StorageEnv) (e : Entry) (row : AssistantMessage) : Prop where
  uuid : row.uuid = e.itemId
  response : row.responseId = some env.responseId
  createdAt : row.createdAt = e.createdAt
  status : row.status = e.status
  content : e.status ≠ .inProgress → env.Holds row.contentEnc e.text

structure ReasoningRow (env : StorageEnv) (e : Entry) (row : ReasoningItem) : Prop where
  uuid : row.uuid = e.itemId
  response : row.responseId = some env.responseId
  createdAt : row.createdAt = e.createdAt
  status : row.status = e.status
  content : e.status ≠ .inProgress → env.Holds row.contentEnc e.text

structure CallRow (env : StorageEnv) (e : Entry) (row : ToolCall) : Prop where
  uuid : row.uuid = e.itemId
  user : row.userId = env.userId
  createdAt : row.createdAt = e.createdAt

structure OutputRow (e : Entry) (row : ToolOutput) : Prop where
  uuid : row.uuid = e.itemId
  createdAt : row.createdAt = e.createdAt

def Tables.uses (t : Tables) (i : Uuid) : Prop :=
  (∃ row ∈ t.assistantMessages, row.uuid = i) ∨ (∃ row ∈ t.reasoningItems, row.uuid = i) ∨
    (∃ row ∈ t.toolCalls, row.uuid = i) ∨ ∃ row ∈ t.toolOutputs, row.uuid = i

/-- The rows written since `before` stand for the ledger. -/
structure Recorded (env : StorageEnv) (before : Tables) (l : Ledger) (t : Tables) : Prop where
  ids : l.ids.Nodup
  fresh : ∀ i ∈ l.ids, ¬ before.uses i
  messages : Backs (MessageRow env) before.assistantMessages t.assistantMessages (l.ofKind .message)
  reasoning : Backs (ReasoningRow env) before.reasoningItems t.reasoningItems (l.ofKind .reasoning)
  calls : Backs (CallRow env) before.toolCalls t.toolCalls (l.ofKind .toolCall)
  outputs : Backs OutputRow before.toolOutputs t.toolOutputs (l.ofKind .toolOutput)

/-- The rows, the pending items and the clock of the task agree with the ledger. -/
structure Reflects (env : StorageEnv) (before : Tables) (first : Int)
    (l : Ledger) (s : StorageTask) : Prop where
  recorded : Recorded env before l s.tables
  clock : s.nextItemCreatedAt = first + l.length
  pendingMessages : s.pendingMessages = (l.pending .message).map Entry.pendingMessage
  pendingReasoning : s.pendingReasoning = (l.pending .reasoning).map Entry.pendingReasoning

def RowOf : EntryKind → Type
  | .message => AssistantMessage
  | .reasoning => ReasoningItem
  | .toolCall => ToolCall
  | .toolOutput => ToolOutput

def Tables.rows (t : Tables) : (kind : EntryKind) → List (RowOf kind)
  | .message => t.assistantMessages
  | .reasoning => t.reasoningItems
  | .toolCall => t.toolCalls
  | .toolOutput => t.toolOutputs

def rowId : (kind : EntryKind) → RowOf kind → Uuid
  | .message => AssistantMessage.uuid
  | .reasoning => ReasoningItem.uuid
  | .toolCall => ToolCall.uuid
  | .toolOutput => ToolOutput.uuid

def Stands (env : StorageEnv) : (kind : EntryKind) → Entry → RowOf kind → Prop
  | .message => MessageRow env
  | .reasoning => ReasoningRow env
  | .toolCall => CallRow env
  | .toolOutput => OutputRow

namespace Recorded
variable {env : StorageEnv} {before t t' : Tables} {l : Ledger}
  {itemId : Uuid} {first : Int} {kind : EntryKind}
  {status : ItemStatus} {e : Entry} {row : RowOf kind}

theorem stands_id (stands : Stands env kind e row) : rowId kind row = e.itemId := by
  cases kind with
  | message => exact MessageRow.uuid stands
  | reasoning => exact ReasoningRow.uuid stands
  | toolCall => exact CallRow.uuid stands
  | toolOutput => exact OutputRow.uuid stands

theorem uses_row (mem : row ∈ before.rows kind) : before.uses (rowId kind row) := by
  cases kind with
  | message => exact .inl ⟨row,mem,rfl⟩
  | reasoning => exact .inr (.inl ⟨row,mem,rfl⟩)
  | toolCall => exact .inr (.inr (.inl ⟨row,mem,rfl⟩))
  | toolOutput => exact .inr (.inr (.inr ⟨row,mem,rfl⟩))

theorem of_backs (ids : l.ids.Nodup) (fresh : ∀ i ∈ l.ids, ¬ before.uses i)
    (backs : ∀ kind, Backs (Stands env kind) (before.rows kind) (t.rows kind) (l.ofKind kind)) :
    Recorded env before l t :=
  ⟨ids,fresh,backs .message,backs .reasoning,backs .toolCall,backs .toolOutput⟩

variable (recorded : Recorded env before l t)
include recorded

theorem backs (kind : EntryKind) :
    Backs (Stands env kind) (before.rows kind) (t.rows kind) (l.ofKind kind) := by
  cases kind with
  | message => exact recorded.messages
  | reasoning => exact recorded.reasoning
  | toolCall => exact recorded.calls
  | toolOutput => exact recorded.outputs

theorem no_row (kind : EntryKind) (new : itemId ∉ l.ids)
    (unused : ¬ before.uses itemId) : ¬ (t.rows kind).any (rowId kind · = itemId) = true := by
  intro used
  obtain ⟨row,mem,same⟩ := any_eq_true.mp used
  have foreign : ∀ row ∈ before.rows kind, rowId kind row ≠ itemId :=
    fun row old same => unused (same ▸ uses_row old)
  exact backs_absent (fun _ _ stands => stands_id stands) (recorded.backs kind)
    foreign (Ledger.absent_ofKind new)
    row mem (of_decide_eq_true same)

theorem has_row (here : ∃ e ∈ l, e.kind = kind ∧ e.itemId = itemId) :
    ∃ e, e.itemId = itemId ∧ ∃ row ∈ t.rows kind, Stands env kind e row := by
  obtain ⟨e,mem,same⟩ := Ledger.mem_ofKind here
  exact ⟨e,same,backs_entry (recorded.backs kind) mem⟩

theorem any_row (here : ∃ e ∈ l, e.kind = kind ∧ e.itemId = itemId) :
    (t.rows kind).any (rowId kind · = itemId) = true := by
  obtain ⟨e,same,row,mem,stands⟩ := recorded.has_row here
  exact any_eq_true.mpr ⟨row,mem,decide_eq_true ((stands_id stands).trans same)⟩

/-- A change of texts alone, while the item is pending, is not seen in the rows. -/
theorem extend (here : l.isPending kind itemId)
    (delta : Text) :
    Recorded env before (l.extend itemId delta) t := by
  obtain ⟨known,found,-,rfl,pending⟩ := here
  refine of_backs (by rw [Ledger.ids_extend]; exact recorded.ids)
    (by rw [Ledger.ids_extend]; exact recorded.fresh) fun k => ?_
  have kept : Backs (Stands env k) (before.rows k) (amend (rowId k) known.itemId id (t.rows k))
      (amend Entry.itemId known.itemId (fun e => { e with text := e.text ++ delta })
        (l.ofKind k)) := by
    refine backs_amend (fun _ _ stands => stands_id stands) (fun _ old same => ?_) ?_
      (recorded.backs k)
    · exact recorded.fresh _ (mem_map.mpr ⟨known,found,rfl⟩) (same ▸ uses_row old)
    · intro a inKind row stands same
      obtain rfl : a = known :=
        inj_on_of_nodup_map recorded.ids (mem_of_mem_filter inKind) found same
      cases k with
      | message =>
        exact { (stands : MessageRow env a row) with
          content := fun settled => absurd pending settled }
      | reasoning =>
        exact { (stands : ReasoningRow env a row) with
          content := fun settled => absurd pending settled }
      | toolCall => exact { (stands : CallRow env a row) with }
      | toolOutput => exact { (stands : OutputRow a row) with }
  rw [amend_id] at kept
  rw [Ledger.extend, Ledger.ofKind_amend (by exact fun _ => rfl)]
  exact kept

theorem start (new : itemId ∉ l.ids)
    (unused : ¬ before.uses itemId)
    (stands : Stands env kind ⟨kind,itemId,first + l.length,[],status⟩ row)
    (own : t'.rows kind = t.rows kind ++ [row]) (rest : ∀ k, kind ≠ k → t'.rows k = t.rows k) :
    Recorded env before (l.start kind itemId status first) t' := by
  refine of_backs ?_ ?_ fun k => ?_
  · rw [Ledger.ids_start]
    refine nodup_append.mpr ⟨recorded.ids,nodup_singleton _,?_⟩
    rintro a known _ single rfl
    exact new (mem_singleton.mp single ▸ known)
  · intro i mem
    rw [Ledger.ids_start] at mem
    rcases mem_append.mp mem with known | single
    · exact recorded.fresh i known
    · rwa [mem_singleton.mp single]
  · by_cases same : kind = k
    · subst same
      rw [own]
      exact Ledger.backs_start (recorded.backs kind) stands
    · rw [rest k same]
      exact Ledger.backs_start_other same (recorded.backs k)

theorem settle {update : RowOf kind → RowOf kind} (mem : e ∈ l) (isKind : e.kind = kind)
    (settles : ∀ row, Stands env kind e row → Stands env kind { e with status } (update row))
    (own : t'.rows kind = amend (rowId kind) e.itemId update (t.rows kind))
    (rest : ∀ k, kind ≠ k → t'.rows k = t.rows k) :
    Recorded env before (l.settle status e.itemId) t' := by
  refine of_backs (by rw [Ledger.ids_settle]; exact recorded.ids)
    (by rw [Ledger.ids_settle]; exact recorded.fresh)
    fun k => ?_
  by_cases same : kind = k
  · subst same
    rw [own, Ledger.settle, Ledger.ofKind_amend (by exact fun _ => rfl)]
    refine backs_amend (fun _ _ stands => stands_id stands) (fun row old same => ?_)
      ?_ (recorded.backs kind)
    · exact recorded.fresh _ (mem_map.mpr ⟨e,mem,rfl⟩) (same ▸ uses_row old)
    · intro a inKind row stands same
      obtain rfl : a = e := inj_on_of_nodup_map recorded.ids (mem_of_mem_filter inKind) mem same
      exact settles row stands
  · rw [rest k same]
    exact Ledger.backs_settle_other recorded.ids ⟨e,mem,isKind,rfl⟩ same (recorded.backs k)

end Recorded

abbrev Follows (env : StorageEnv) (before : Tables) (first : Int) (l : Ledger) (stop : Bool)
    (s : StorageTask) : Prop :=
  stop = false ∧ Reflects env before first l s

/-- Nothing but the tables and the counters differs. -/
structure StorageTask.SameMemory (s s' : StorageTask) : Prop where
  messages : s'.pendingMessages = s.pendingMessages
  reasoning : s'.pendingReasoning = s.pendingReasoning
  clock : s'.nextItemCreatedAt = s.nextItemCreatedAt

abbrev Leaves (env : StorageEnv) (before : Tables) (s : StorageTask)
    (l : Ledger) (s' : StorageTask) : Prop :=
  Recorded env before l s'.tables ∧ s.SameMemory s'

section
variable {env : StorageEnv} {before t' : Tables} {first : Int}
  {l : Ledger} {s : StorageTask} {itemId : Uuid}
  {kind : EntryKind} {status : ItemStatus} {e : Entry} {name : Text}
  {arguments : Json} {callId : Uuid} {output delta : Text}

section
variable (sound : env.Sound) (recorded : Recorded env before l s.tables)
include sound recorded

theorem settles_yields {statement : Option Bytes → Statement Unit} (kind : EntryKind)
    (update : Option Bytes → RowOf kind → RowOf kind) (mem : e ∈ l) (isKind : e.kind = kind)
    (settles : ∀ stored row, env.Holds stored e.text → Stands env kind e row →
      Stands env kind { e with status } (update stored row))
    (runs : (s.tables.rows kind).any (rowId kind · = e.itemId) = true → ∀ stored, ∃ tables,
      statement stored s.tables = .ok ((),tables) ∧
        tables.rows kind = amend (rowId kind) e.itemId (update stored) (s.tables.rows kind) ∧
        ∀ k, kind ≠ k → tables.rows k = s.tables.rows k) :
    Yields (discard do
        let sealed ← contentEnc env e.text
        databaseCall env (statement sealed)) s fun _ =>
          Leaves env before s (l.settle status e.itemId) := by
  refine yields_discard (yields_bind (contentEnc_yields sound.seals e.text) ?_)
  rintro stored _ ⟨holds,n,rfl⟩
  obtain ⟨tables,succeeds,own,rest⟩ := runs (recorded.any_row ⟨e,mem,isKind,rfl⟩) stored
  obtain ⟨result,_,ran,-,rfl⟩ :=
    databaseCall_yields (s := { s with sealings := n }) sound (statement stored) succeeds
  exact ⟨result,_,ran,recorded.settle mem isKind (fun row => settles stored row holds) own rest,
    rfl,rfl,rfl⟩

theorem finalizeAssistantMessage_yields (mem : e ∈ l) (isMessage : e.kind = .message)
    (status : ItemStatus) (finishReason : Option Text) :
    Yields (discard (finalizeAssistantMessage env e.itemId e.text status finishReason)) s
      fun _ => Leaves env before s (l.settle status e.itemId) := by
  refine settles_yields sound recorded .message (fun contentEnc (m : AssistantMessage) =>
    { m with contentEnc, completionTokens := clampTokenCount env e.text, status, finishReason })
    mem isMessage (fun stored row holds old => ?_) fun here stored => ?_
  · exact { (old : MessageRow env e row) with status := rfl, content := fun _ => holds }
  · refine ⟨_,if_pos here,rfl,?_⟩
    rintro ⟨⟩ other <;> first | rfl | exact absurd rfl other

theorem finalizeReasoningItem_yields (mem : e ∈ l) (isReasoning : e.kind = .reasoning)
    (status : ItemStatus) :
    Yields (discard (finalizeReasoningItem env e.itemId e.text status)) s
      fun _ => Leaves env before s (l.settle status e.itemId) := by
  refine settles_yields sound recorded .reasoning (fun contentEnc (m : ReasoningItem) =>
    { m with contentEnc, reasoningTokens := clampTokenCount env e.text, status })
    mem isReasoning (fun stored row holds old => ?_) fun here stored => ?_
  · exact { (old : ReasoningRow env e row) with status := rfl, content := fun _ => holds }
  · refine ⟨_,if_pos here,rfl,?_⟩
    rintro ⟨⟩ other <;> first | rfl | exact absurd rfl other

theorem createIfMissing_finds (mem : e ∈ l) (isMessage : e.kind = .message) (createdAt : Int) :
    Yields (discard (createAssistantMessageIfMissing env e.itemId createdAt)) s fun _ s' =>
      s'.tables = s.tables ∧ s.SameMemory s' := by
  have present := recorded.any_row ⟨e,mem,isMessage,rfl⟩
  obtain ⟨known,here⟩ : ∃ known, s.tables.assistantMessages.find? (·.uuid = e.itemId) =
    some known :=
    Option.isSome_iff_exists.mp (find?_isSome.mpr (any_eq_true.mp present))
  refine yields_discard (yields_bind (databaseCall_yields sound _ rfl) ?_)
  rintro _ _ ⟨rfl,rfl⟩
  rw [here]
  exact yields_pure ⟨rfl,rfl,rfl,rfl⟩

section
variable (new : itemId ∉ l.ids) (unused : ¬ before.uses itemId)
include new unused

theorem adds_yields {statement : Statement Unit} (kind : EntryKind) (status : ItemStatus)
    (row : RowOf kind) (stands : Stands env kind ⟨kind,itemId,first + l.length,[],status⟩ row)
    (adds : ¬ (s.tables.rows kind).any (rowId kind · = itemId) = true →
      ∃ tables, statement s.tables = .ok ((),tables) ∧ tables.rows kind =
      s.tables.rows kind ++ [row] ∧ ∀ k, kind ≠ k → tables.rows k = s.tables.rows k) :
    Yields (databaseCall env statement) s fun result s' => result = .ok () ∧
      Leaves env before s (l.start kind itemId status first) s' := by
  obtain ⟨tables,succeeds,own,rest⟩ := adds (recorded.no_row kind new unused)
  obtain ⟨result,_,ran,answer,rfl⟩ := databaseCall_yields sound statement succeeds
  exact ⟨result,_,ran,answer,recorded.start new unused stands own rest,rfl,rfl,rfl⟩

theorem createIfMissing_creates :
    Yields (discard (createAssistantMessageIfMissing env itemId (first + l.length))) s
      fun _ => Leaves env before s (l.start .message itemId .inProgress first) := by
  have missing : s.tables.assistantMessages.find? (·.uuid = itemId) = none :=
    find?_eq_none.mpr fun row found same =>
      recorded.no_row .message new unused (any_eq_true.mpr ⟨row,found,same⟩)
  refine yields_discard (yields_bind (databaseCall_yields sound _ rfl) ?_)
  rintro _ _ ⟨rfl,rfl⟩
  rw [missing]
  change Yields (databaseCall env (Tables.createAssistantMessage _)) _ _
  refine yields_mono (adds_yields (s := { s with calls := s.calls + 1 })
    sound recorded new unused .message .inProgress _
    ⟨rfl,rfl,rfl,rfl,fun settled => absurd rfl settled⟩ fun absent => ⟨_,if_neg absent,rfl,?_⟩) ?_
  · rintro ⟨⟩ other <;> first | rfl | exact absurd rfl other
  · rintro result s' ⟨-,created,memory⟩
    exact ⟨created,{ memory with }⟩

theorem createReasoningItem_yields :
    Yields (discard (createReasoningItem env itemId (first + l.length))) s
      fun _ => Leaves env before s (l.start .reasoning itemId .inProgress first) := by
  refine yields_discard (yields_mono (adds_yields sound recorded new unused .reasoning .inProgress _
    ⟨rfl,rfl,rfl,rfl,fun settled => absurd rfl settled⟩ fun absent => ⟨_,if_neg absent,rfl,?_⟩)
      fun _ _ => And.right)
  rintro ⟨⟩ other <;> first | rfl | exact absurd rfl other

theorem persistToolCall_yields :
    Yields (persistToolCall env itemId name arguments (first + l.length)) s fun result s' =>
      result = .ok () ∧
      Leaves env before s (l.start .toolCall itemId .completed first) s' := by
  refine yields_bind (encrypted_yields sound.seals _) ?_
  rintro sealed _ ⟨-,rfl⟩
  refine yields_mono (adds_yields (s := { s with sealings := s.sealings + 1 })
    sound recorded new unused .toolCall
    .completed _ ⟨rfl,rfl,rfl⟩ fun absent => ⟨_,if_neg absent,rfl,?_⟩) ?_
  · rintro ⟨⟩ other <;> first | rfl | exact absurd rfl other
  · rintro result s' ⟨answer,created,memory⟩
    exact ⟨answer,created,{ memory with }⟩

theorem persistToolOutput_yields (called : ∃ e ∈ l, e.kind = .toolCall ∧ e.itemId = callId) :
    Yields (persistToolOutput env itemId callId output (first + l.length)) s
      fun _ => Leaves env before s (l.start .toolOutput itemId .completed first) := by
  obtain ⟨e,rfl,row,found,stands⟩ := recorded.has_row called
  have standing : CallRow env e row := stands
  obtain ⟨call,here⟩ : ∃ call,
    s.tables.toolCalls.find? (fun c => c.uuid = e.itemId ∧ c.userId = env.userId) = some call :=
    Option.isSome_iff_exists.mp
      (find?_isSome.mpr ⟨row,found,decide_eq_true ⟨standing.uuid,standing.user⟩⟩)
  have looked : Tables.getToolCallByUuid e.itemId env.userId s.tables = .ok (call,s.tables) := by
    rw [Tables.getToolCallByUuid, here]
  refine yields_bind (databaseCall_yields sound _ looked) ?_
  rintro _ _ ⟨rfl,rfl⟩
  refine yields_bind (encrypted_yields sound.seals _) ?_
  rintro sealed _ ⟨-,rfl⟩
  refine yields_mono (adds_yields (s := { s with calls := s.calls + 1, sealings := s.sealings + 1 })
    sound recorded
    new unused .toolOutput .completed _ ⟨rfl,rfl⟩ fun absent => ⟨_,if_neg absent,rfl,?_⟩) ?_
  · rintro ⟨⟩ other <;> first | rfl | exact absurd rfl other
  · rintro result s' ⟨-,created,memory⟩
    exact ⟨created,{ memory with }⟩

end

end

/-- A new item takes the next timestamp; nothing else in memory depends on it. -/
theorem clock_start (reflects : Reflects env before first l s) :
    s.nextItemCreatedAt + 1 = first + ((l.start kind itemId status first).length : Nat) := by
  simp [Ledger.start, reflects.clock, Int.add_assoc]

section
variable {α : Type} {view : Entry → Uuid × α}

theorem pending_absent (named : ∀ e, (view e).1 = e.itemId) (new : itemId ∉ l.ids) :
    ∀ p ∈ (l.pending kind).map view, p.1 ≠ itemId := by
  rintro p mem rfl
  obtain ⟨e,found,rfl⟩ := mem_map.mp mem
  exact new (mem_map.mpr ⟨e,mem_of_mem_filter found,(named e).symm⟩)

theorem pending_keys (named : ∀ e, (view e).1 = e.itemId) (distinct : l.ids.Nodup) :
    (((l.pending kind).map view).map Prod.fst).Nodup := by
  rw [map_map, show Prod.fst ∘ view = Entry.itemId from funext named]
  exact Ledger.pending_ids distinct

theorem find_pending (named : ∀ e, (view e).1 = e.itemId) (distinct : l.ids.Nodup)
    (pending : e ∈ l.pending kind) :
    find e.itemId ((l.pending kind).map view) = some (view e).2 := by
  refine find_present (pending_keys named distinct) ?_
  rw [← named e]
  exact mem_map_of_mem pending

theorem upsert_pending {delta : Text} {default : α} {change : α → α}
    (named : ∀ e, (view e).1 = e.itemId)
    (changes : ∀ e, ((view e).1,change (view e).2) = view { e with text := e.text ++ delta })
    (distinct : l.ids.Nodup)
    (here : l.isPending kind itemId) :
    upsert itemId default change ((l.pending kind).map view) =
      ((l.extend itemId delta).pending kind).map view := by
  obtain ⟨e,mem,rfl⟩ := Ledger.mem_pending here
  rw [upsert_present (pending_keys named distinct) ⟨_,mem_map_of_mem mem,named e⟩,
    Ledger.pending_extend]
  exact amend_map named changes

end

section
variable (reflects : Reflects env before first l s)
include reflects

theorem reflects_completed {s' : StorageTask}
    (recorded : Recorded env before (l.start kind itemId .completed first) s'.tables)
    (memory : StorageTask.SameMemory { s with nextItemCreatedAt := s.nextItemCreatedAt + 1 } s') :
    Reflects env before first (l.start kind itemId .completed first) s' where
  recorded := recorded
  clock := memory.clock.trans (clock_start reflects)
  pendingMessages := (memory.messages.trans reflects.pendingMessages).trans
    (congrArg _ (Ledger.pending_start_other (.inr (by decide))).symm)
  pendingReasoning := (memory.reasoning.trans reflects.pendingReasoning).trans
    (congrArg _ (Ledger.pending_start_other (.inr (by decide))).symm)

theorem allocated : allocateCreatedAt s =
    some (first + l.length,{ s with nextItemCreatedAt := s.nextItemCreatedAt + 1 }) := by
  rw [← reflects.clock]
  rfl

theorem messageStarted_reflects (sound : env.Sound)
    (new : itemId ∉ l.ids) (unused : ¬ before.uses itemId) :
    Yields (onStorageMessage env (.messageStarted itemId)) s
      (Follows env before first (l.start .message itemId .inProgress first)) := by
  have absent : ∀ p ∈ s.pendingMessages, p.1 ≠ itemId := by
    rw [reflects.pendingMessages]
    exact pending_absent (fun _ => rfl) new
  have started : startedAt itemId s = some (first + l.length,{ s with
      nextItemCreatedAt := first + l.length + 1
      pendingMessages := s.pendingMessages ++ [(itemId,⟨[],some (first + l.length)⟩)] }) := by
    simp only [startedAt, bind, StateT.bind, get, getThe, MonadStateOf.get, StateT.get, pure,
      Option.bind_some, find_absent absent, Option.bind_none, allocateCreatedAt, modify, modifyGet,
      MonadStateOf.modifyGet, StateT.modifyGet, StorageTask.changePending,
      upsert_absent absent, reflects.clock]
    rfl
  refine yields_step started ?_
  refine yields_bind (createIfMissing_creates sound reflects.recorded new unused) ?_
  rintro _ s' ⟨recorded,memory⟩
  refine yields_pure ⟨rfl,recorded,?_,?_,?_⟩
  · refine memory.clock.trans ?_
    rw [← clock_start reflects, reflects.clock]
  · rw [memory.messages, reflects.pendingMessages, Ledger.pending_start_same, map_append]
    rfl
  · exact (memory.reasoning.trans reflects.pendingReasoning).trans
      (congrArg _ (Ledger.pending_start_other (.inl (by decide))).symm)

theorem contentDelta_reflects (here : l.isPending .message itemId) :
    Yields (onStorageMessage env (.contentDelta itemId delta)) s
      (Follows env before first (l.extend itemId delta)) := by
  have distinct := reflects.recorded.ids
  refine yields_step rfl (yields_pure ⟨rfl,reflects.recorded.extend here delta,?_,?_,?_⟩)
  · exact reflects.clock.trans (by rw [Ledger.extend, length_amend])
  · dsimp only [StorageTask.changePending]
    rw [reflects.pendingMessages]
    exact upsert_pending (fun _ => rfl) (fun _ => rfl) distinct here
  · exact reflects.pendingReasoning.trans
      (congrArg _ (Ledger.pending_extend_other distinct here nofun))

theorem reasoningDelta_reflects (here : l.isPending .reasoning itemId) :
    Yields (onStorageMessage env (.reasoningDelta itemId delta)) s
      (Follows env before first (l.extend itemId delta)) := by
  have distinct := reflects.recorded.ids
  refine yields_step rfl (yields_pure ⟨rfl,reflects.recorded.extend here delta,?_,?_,?_⟩)
  · exact reflects.clock.trans (by rw [Ledger.extend, length_amend])
  · exact reflects.pendingMessages.trans
      (congrArg _ (Ledger.pending_extend_other distinct here nofun))
  · dsimp only [StorageTask.changeReasoning]
    rw [reflects.pendingReasoning]
    exact upsert_pending (fun _ => rfl) (fun _ => rfl) distinct here

theorem messageDone_reflects {finishReason : Text} (sound : env.Sound)
    (here : l.isPending .message itemId) :
    Yields (onStorageMessage env (.messageDone itemId finishReason)) s
      (Follows env before first (l.settle .completed itemId)) := by
  have distinct := reflects.recorded.ids
  obtain ⟨e,pending,rfl⟩ := Ledger.mem_pending here
  obtain ⟨mem,isMessage⟩ := Ledger.of_pending pending
  have found : find e.itemId s.pendingMessages = some ⟨e.text,some e.createdAt⟩ := by
    rw [reflects.pendingMessages]
    exact find_pending (fun _ => rfl) distinct pending
  have taken : takePending e.itemId s = some ((e.createdAt,e.text),
      { s with pendingMessages := without e.itemId s.pendingMessages }) := by
    simp only [takePending, bind, StateT.bind, get, getThe, MonadStateOf.get, StateT.get, pure,
      Option.bind_some, found, Option.getD_some, set]
    rfl
  refine yields_step taken ?_
  refine yields_bind (createIfMissing_finds (s :=
    { s with pendingMessages := without e.itemId s.pendingMessages })
    sound reflects.recorded mem isMessage e.createdAt) ?_
  rintro _ s₁ ⟨sameTables,memory₁⟩
  have recorded : Recorded env before l s₁.tables := by rw [sameTables]; exact reflects.recorded
  refine yields_bind (finalizeAssistantMessage_yields sound recorded
    mem isMessage .completed (some finishReason)) ?_
  rintro _ s₂ ⟨settled,memory₂⟩
  refine yields_pure ⟨rfl,settled,?_,?_,?_⟩
  · rw [memory₂.clock, memory₁.clock, Ledger.settle, length_amend]
    exact reflects.clock
  · rw [memory₂.messages, memory₁.messages, Ledger.pending_settle (by decide)]
    exact (congrArg (without e.itemId) reflects.pendingMessages).trans (without_map fun _ => rfl)
  · rw [memory₂.reasoning, memory₁.reasoning]
    exact reflects.pendingReasoning.trans
      (congrArg _ (Ledger.pending_settle_other distinct here (by decide) (by decide)))

theorem reasoningStarted_reflects (sound : env.Sound)
    (new : itemId ∉ l.ids) (unused : ¬ before.uses itemId) :
    Yields (onStorageMessage env (.reasoningStarted itemId)) s
      (Follows env before first (l.start .reasoning itemId .inProgress first)) := by
  have absent : ∀ p ∈ s.pendingReasoning, p.1 ≠ itemId := by
    rw [reflects.pendingReasoning]
    exact pending_absent (fun _ => rfl) new
  have allocated : allocateCreatedAt (s.changeReasoning itemId id) = some (first + l.length,
      { s.changeReasoning itemId id with nextItemCreatedAt := s.nextItemCreatedAt + 1 }) := by
    rw [← reflects.clock]
    rfl
  refine yields_step rfl (yields_step allocated ?_)
  refine yields_bind (createReasoningItem_yields sound reflects.recorded new unused) ?_
  rintro _ s' ⟨recorded,memory⟩
  refine yields_pure ⟨rfl,recorded,?_,?_,?_⟩
  · exact memory.clock.trans (clock_start reflects)
  · exact (memory.messages.trans reflects.pendingMessages).trans
      (congrArg _ (Ledger.pending_start_other (.inl (by decide))).symm)
  · refine memory.reasoning.trans ((upsert_absent absent).trans ?_)
    rw [reflects.pendingReasoning, Ledger.pending_start_same, map_append]
    rfl

theorem reasoningDone_reflects (sound : env.Sound)
    (here : l.isPending .reasoning itemId) :
    Yields (onStorageMessage env (.reasoningDone itemId)) s
      (Follows env before first (l.settle .completed itemId)) := by
  have distinct := reflects.recorded.ids
  obtain ⟨e,pending,rfl⟩ := Ledger.mem_pending here
  obtain ⟨mem,isReasoning⟩ := Ledger.of_pending pending
  have found : find e.itemId s.pendingReasoning = some e.text := by
    rw [reflects.pendingReasoning]
    exact find_pending (fun _ => rfl) distinct pending
  refine yields_step rfl (yields_step rfl ?_)
  rw [found, Option.getD_some]
  refine yields_bind (finalizeReasoningItem_yields (s :=
    { s with pendingReasoning := without e.itemId s.pendingReasoning })
    sound reflects.recorded mem isReasoning .completed) ?_
  rintro _ s' ⟨settled,memory⟩
  refine yields_pure ⟨rfl,settled,?_,?_,?_⟩
  · rw [memory.clock, Ledger.settle, length_amend]
    exact reflects.clock
  · rw [memory.messages]
    exact reflects.pendingMessages.trans
      (congrArg _ (Ledger.pending_settle_other distinct here (by decide) (by decide)))
  · rw [memory.reasoning, Ledger.pending_settle (by decide)]
    exact (congrArg (without e.itemId) reflects.pendingReasoning).trans (without_map fun _ => rfl)

theorem toolCall_reflects (sound : env.Sound) (new : itemId ∉ l.ids)
    (unused : ¬ before.uses itemId) :
    Yields (onStorageMessage env (.toolCall itemId name arguments)) s
      (Follows env before first (l.start .toolCall itemId .completed first)) := by
  refine yields_step (allocated reflects)
    (yields_bind (persistToolCall_yields sound reflects.recorded new unused) ?_)
  rintro _ s' ⟨rfl,recorded,memory⟩
  exact yields_pure ⟨rfl,reflects_completed reflects recorded memory⟩

theorem toolOutput_reflects (sound : env.Sound) (new : itemId ∉ l.ids)
    (unused : ¬ before.uses itemId) (called : ∃ e ∈ l, e.kind = .toolCall ∧ e.itemId = callId) :
    Yields (onStorageMessage env (.toolOutput itemId callId output)) s
      (Follows env before first (l.start .toolOutput itemId .completed first)) := by
  refine yields_step (allocated reflects)
    (yields_bind (persistToolOutput_yields sound reflects.recorded new unused called) ?_)
  rintro _ s' ⟨recorded,memory⟩
  exact yields_step rfl (yields_pure ⟨rfl,{ reflects_completed reflects recorded memory with }⟩)

end

theorem onStorageMessage_reflects {m : StorageMessage} (sound : env.Sound)
    (reflects : Reflects env before first l s) (allowed : l.Allows m)
    (unused : ∀ opened ∈ m.opens, ¬ before.uses opened.2) (goesOn : m.isTerminal = false) :
    Yields (onStorageMessage env m) s
      (Follows env before first (l.after first m)) := by
  cases m with
  | messageStarted i => exact messageStarted_reflects reflects sound allowed (unused _ rfl)
  | contentDelta i delta => exact contentDelta_reflects reflects allowed
  | messageDone i reason => exact messageDone_reflects reflects sound allowed
  | reasoningStarted i => exact reasoningStarted_reflects reflects sound allowed (unused _ rfl)
  | reasoningDelta i delta => exact reasoningDelta_reflects reflects allowed
  | reasoningDone i => exact reasoningDone_reflects reflects sound allowed
  | usage prompt completion => exact yields_pure ⟨rfl,reflects⟩
  | toolCall i name arguments => exact toolCall_reflects reflects sound allowed (unused _ rfl)
  | toolOutput i callId output =>
    exact toolOutput_reflects reflects sound allowed.1 (unused _ rfl) allowed.2
  | responseDone reason => cases goesOn
  | error message => cases goesOn
  | cancelled => cases goesOn

end

end OpenSecret.Responses
