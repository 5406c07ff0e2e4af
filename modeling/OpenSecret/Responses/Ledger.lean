import OpenSecret.Responses.Storage
import OpenSecret.Foundation.Keyed

/-!
What the storage task is for: a ledger of the items of a response, in the order
they started, each with its text so far.
-/
namespace OpenSecret.Responses
open Framing Keyed List

inductive EntryKind where
  | message
  | reasoning
  | toolCall
  | toolOutput
  deriving DecidableEq, Repr

structure Entry where
  kind : EntryKind
  itemId : Uuid
  createdAt : Int
  text : Text
  status : ItemStatus
  deriving DecidableEq

abbrev Ledger := List Entry

namespace Ledger

def ids (l : Ledger) : List Uuid := l.map Entry.itemId

def ofKind (kind : EntryKind) (l : Ledger) : Ledger := l.filter (·.kind = kind)

def pending (kind : EntryKind) (l : Ledger) :
    Ledger := l.filter fun e => e.kind = kind ∧ e.status = .inProgress

def start (kind : EntryKind) (itemId : Uuid) (status : ItemStatus) (first : Int) (l : Ledger) :
    Ledger :=
  l ++ [⟨kind,itemId,first + l.length,[],status⟩]

def extend (itemId : Uuid) (delta : Text) (l : Ledger) : Ledger :=
  amend Entry.itemId itemId (fun e => { e with text := e.text ++ delta }) l

def settle (status : ItemStatus) (itemId : Uuid) (l : Ledger) : Ledger :=
  amend Entry.itemId itemId (fun e => { e with status }) l

/-- The `n`-th item of the response is stamped `first + n`. -/
def after (first : Int) (l : Ledger) : StorageMessage → Ledger
  | .messageStarted itemId => l.start .message itemId .inProgress first
  | .reasoningStarted itemId => l.start .reasoning itemId .inProgress first
  | .toolCall toolCallId _ _ => l.start .toolCall toolCallId .completed first
  | .toolOutput toolOutputId _ _ => l.start .toolOutput toolOutputId .completed first
  | .contentDelta itemId delta | .reasoningDelta itemId delta => l.extend itemId delta
  | .messageDone itemId _ | .reasoningDone itemId => l.settle .completed itemId
  | .usage _ _ | .responseDone _ | .error _ | .cancelled => l

def isPending (l : Ledger) (kind : EntryKind) (itemId : Uuid) : Prop :=
  ∃ e ∈ l, e.kind = kind ∧ e.itemId = itemId ∧ e.status = .inProgress

/-- What may be said next: new items are new, and only pending items go on. -/
def Allows (l : Ledger) : StorageMessage → Prop
  | .messageStarted itemId | .reasoningStarted itemId | .toolCall itemId _ _ => itemId ∉ l.ids
  | .contentDelta itemId _ | .messageDone itemId _ => l.isPending .message itemId
  | .reasoningDelta itemId _ | .reasoningDone itemId => l.isPending .reasoning itemId
  | .toolOutput toolOutputId toolCallId _ =>
    toolOutputId ∉ l.ids ∧ ∃ e ∈ l, e.kind = .toolCall ∧ e.itemId = toolCallId
  | .usage _ _ | .responseDone _ | .error _ | .cancelled => True

end Ledger

def StorageMessage.opens : StorageMessage → Option (EntryKind × Uuid)
  | .messageStarted itemId => some (.message,itemId)
  | .reasoningStarted itemId => some (.reasoning,itemId)
  | .toolCall toolCallId _ _ => some (.toolCall,toolCallId)
  | .toolOutput toolOutputId _ _ => some (.toolOutput,toolOutputId)
  | _ => none

namespace Entry

def pendingMessage (e : Entry) :
    Uuid × PendingAssistantMessage := (e.itemId,⟨e.text,some e.createdAt⟩)

def pendingReasoning (e : Entry) : Uuid × Text := (e.itemId,e.text)

/-- The item an entry stands for, and the item with its timestamp. -/
def item (e : Entry) : EntryKind × Uuid := (e.kind,e.itemId)

def stamp (e : Entry) : (EntryKind × Uuid) × Int := (e.item,e.createdAt)

def SameItem (e f : Entry) : Prop := f = { e with status := f.status }

theorem SameItem.text {e f : Entry} (same : e.SameItem f) : f.text = e.text := by
  rw [same]

theorem SameItem.itemId {e f : Entry} (same : e.SameItem f) : f.itemId = e.itemId := by
  rw [same]

end Entry

namespace Ledger
variable {l : Ledger} {kind k : EntryKind} {itemId : Uuid} {status : ItemStatus}
  {first : Int} {delta : Text}

theorem ids_start : (l.start kind itemId status first).ids = l.ids ++ [itemId] := by
  simp [ids, start]

theorem ids_extend : (l.extend itemId delta).ids = l.ids := map_amend fun _ => rfl

theorem ids_settle : (l.settle status itemId).ids = l.ids := map_amend fun _ => rfl

section
variable {ρ : Type} {R : Entry → ρ → Prop} {before now : List ρ}

theorem backs_start {row : ρ} (backs : Backs R before now (l.ofKind kind))
    (holds : R ⟨kind,itemId,first + l.length,[],status⟩ row) :
    Backs R before (now ++ [row]) ((l.start kind itemId status first).ofKind kind) := by
  have new : (l.start kind itemId status first).ofKind kind =
      l.ofKind kind ++ [⟨kind,itemId,first + l.length,[],status⟩] := by
    simp [ofKind, start, filter_append]
  rw [new]
  exact backs_append backs holds

theorem backs_start_other (other : kind ≠ k) (backs : Backs R before now (l.ofKind k)) :
    Backs R before now ((l.start kind itemId status first).ofKind k) := by
  rwa [ofKind, start, filter_append, filter_cons_of_neg (by simpa using other), filter_nil,
    append_nil]

end

theorem pending_start_same : (l.start kind itemId .inProgress first).pending kind =
    l.pending kind ++ [⟨kind,itemId,first + l.length,[],.inProgress⟩] := by
  simp [pending, start, filter_append]

theorem pending_start_other (other : kind ≠ k ∨ status ≠ .inProgress) :
    (l.start kind itemId status first).pending k = l.pending k := by
  rw [pending, start, filter_append]
  have out : ([⟨kind,itemId,first + l.length,[],status⟩] : Ledger).filter
      (fun e => e.kind = k ∧ e.status = .inProgress) = [] := by
    refine filter_eq_nil_iff.mpr fun e mem => ?_
    rw [mem_singleton.mp mem, decide_eq_true_eq, not_and_or]
    exact other
  rw [out, append_nil]
  rfl

variable {change : Entry → Entry} {items : List Entry} {f : Entry} {messages : List StorageMessage}

theorem ofKind_amend (keeps : ∀ e, (change e).kind = e.kind) :
    ofKind k (amend Entry.itemId itemId change l) = amend Entry.itemId itemId change (l.ofKind k) :=
  filter_amend fun e _ _ => by rw [keeps]

theorem pending_extend : (l.extend itemId delta).pending k =
    amend Entry.itemId itemId (fun e => { e with text := e.text ++ delta }) (l.pending k) :=
  filter_amend fun _ _ _ => rfl

theorem pending_settle (settled : status ≠ .inProgress) :
    (l.settle status itemId).pending k = (l.pending k).filter (·.itemId ≠ itemId) := by
  rw [pending, pending, settle, amend, filter_map, filter_filter]
  have same : ∀ e ∈ l, ((fun e : Entry => decide (e.kind = k ∧ e.status = .inProgress)) ∘
      fun e => if e.itemId = itemId then { e with status } else e) e =
      (decide (e.itemId ≠ itemId) && decide (e.kind = k ∧ e.status = .inProgress)) := by
    intro e _
    by_cases here : e.itemId = itemId <;> simp [here, settled]
  rw [filter_congr same]
  refine (map_congr_left fun e mem => ?_).trans (map_id _)
  have away := (mem_filter.mp mem).2
  rw [Bool.and_eq_true, decide_eq_true_eq] at away
  exact if_neg away.1

theorem kind_of_id (distinct : l.ids.Nodup) (here : ∃ e ∈ l, e.kind = kind ∧ e.itemId = itemId)
    {e : Entry} (mem : e ∈ l) (same : e.itemId = itemId) : e.kind = kind := by
  obtain ⟨known,found,rfl,rfl⟩ := here
  rw [inj_on_of_nodup_map distinct mem found same]

theorem backs_settle_other {ρ : Type} {R : Entry → ρ → Prop} {before now : List ρ}
    (distinct : l.ids.Nodup) (here : ∃ e ∈ l, e.kind = kind ∧ e.itemId = itemId) (other : kind ≠ k)
    (backs : Backs R before now (l.ofKind k)) :
    Backs R before now ((l.settle status itemId).ofKind k) := by
  have untouched : (l.settle status itemId).ofKind k = l.ofKind k := by
    rw [settle, ofKind_amend]
    · refine amend_absent fun e mem same => ?_
      obtain ⟨found,isKind⟩ := mem_filter.mp mem
      exact other ((kind_of_id distinct here found same).symm.trans (by simpa using isKind))
    · exact fun _ => rfl
  rwa [untouched]

theorem absent_ofKind (new : itemId ∉ l.ids) : ∀ e ∈ l.ofKind k, e.itemId ≠ itemId := by
  intro e mem same
  exact new (mem_map.mpr ⟨e,mem_of_mem_filter mem,same⟩)

theorem mem_ofKind (here : ∃ e ∈ l, e.kind = kind ∧ e.itemId = itemId) :
    ∃ e ∈ l.ofKind kind, e.itemId = itemId := by
  obtain ⟨e,mem,isKind,same⟩ := here
  exact ⟨e,mem_filter.mpr ⟨mem,by simpa using isKind⟩,same⟩

theorem pending_other (distinct : l.ids.Nodup) (here : ∃ e ∈ l, e.kind = kind ∧ e.itemId = itemId)
    (other : kind ≠ k) : ∀ e ∈ l.pending k, e.itemId ≠ itemId := by
  intro e mem same
  obtain ⟨found,isKind⟩ := mem_filter.mp mem
  have isOther : e.kind = k := by
    rw [decide_eq_true_eq] at isKind
    exact isKind.1
  exact other ((kind_of_id distinct here found same).symm.trans isOther)

theorem isPending_some (here : l.isPending kind itemId) :
    ∃ e ∈ l, e.kind = kind ∧ e.itemId = itemId := by
  obtain ⟨e,mem,isKind,same,-⟩ := here
  exact ⟨e,mem,isKind,same⟩

theorem pending_extend_other (distinct : l.ids.Nodup) (here : l.isPending kind itemId)
    (other : kind ≠ k) :
    l.pending k = (l.extend itemId delta).pending k := by
  rw [pending_extend, amend_absent (pending_other distinct (isPending_some here) other)]

theorem pending_settle_other (distinct : l.ids.Nodup) (here : l.isPending kind itemId)
    (other : kind ≠ k) (settled : status ≠ .inProgress) :
    l.pending k = (l.settle status itemId).pending k := by
  rw [pending_settle settled, filter_eq_self.mpr]
  intro e found
  simpa using pending_other distinct (isPending_some here) other e found

theorem pending_ids (distinct : l.ids.Nodup) : ((l.pending k).map Entry.itemId).Nodup :=
  distinct.sublist (filter_sublist.map _)

theorem mem_pending (here : l.isPending kind itemId) : ∃ e ∈ l.pending kind, e.itemId = itemId := by
  obtain ⟨e,mem,isKind,same,unsettled⟩ := here
  exact ⟨e,mem_filter.mpr ⟨mem,by simpa using ⟨isKind,unsettled⟩⟩,same⟩

theorem of_pending {e : Entry} (pending : e ∈ l.pending kind) : e ∈ l ∧ e.kind = kind := by
  obtain ⟨mem,holds⟩ := mem_filter.mp pending
  rw [decide_eq_true_eq] at holds
  exact ⟨mem,holds.1⟩

def giveUp (items : List Entry) (l : Ledger) : Ledger :=
  items.foldl (fun l e => l.settle .incomplete e.itemId) l

/-- The ledger once the task is over: what was pending is incomplete. -/
def close (l : Ledger) : Ledger := (l.giveUp (l.pending .message)).giveUp (l.pending .reasoning)

theorem mem_giveUp {e : Entry} (mem : e ∈ l) (away : ∀ a ∈ items, a.itemId ≠ e.itemId) :
    e ∈ l.giveUp items := by
  induction items generalizing l with
  | nil => exact mem
  | cons a rest ih =>
    exact ih (mem_amend_of_ne mem fun same => away a mem_cons_self same.symm)
      fun b later => away b (mem_cons_of_mem _ later)

theorem of_giveUp (mem : f ∈ l.giveUp items) :
    ∃ e ∈ l, e.SameItem f ∧
      (f.status = .incomplete ∨ f = e ∧ ∀ a ∈ items, a.itemId ≠ e.itemId) := by
  induction items generalizing l with
  | nil => exact ⟨f,mem,rfl,.inr ⟨rfl,nofun⟩⟩
  | cons a rest ih =>
    obtain ⟨e,settled,same,outcome⟩ := ih mem
    rcases mem_amend settled with ⟨old,known,-,rfl⟩ | ⟨known,elsewhere⟩
    · refine ⟨old,known,same,.inl ?_⟩
      rcases outcome with incomplete | ⟨rfl,-⟩
      · exact incomplete
      · rfl
    · refine ⟨e,known,same,outcome.imp_right fun ⟨kept,away⟩ => ⟨kept,fun b later => ?_⟩⟩
      rcases mem_cons.mp later with rfl | later
      · exact Ne.symm elsewhere
      · exact away b later

theorem of_close (mem : f ∈ l.close) :
    ∃ e ∈ l, e.SameItem f ∧ (f.kind = .message ∨ f.kind = .reasoning → f.status ≠ .inProgress) := by
  obtain ⟨d,between,same,outcome⟩ := of_giveUp mem
  obtain ⟨e,known,same',outcome'⟩ := of_giveUp between
  refine ⟨e,known,?_,fun isItem unsettled => ?_⟩
  · rw [Entry.SameItem] at same' ⊢
    rw [same, same']
  · rcases outcome with incomplete | ⟨rfl,noReasoning⟩
    · rw [incomplete] at unsettled
      cases unsettled
    rcases outcome' with incomplete | ⟨rfl,noMessage⟩
    · rw [incomplete] at unsettled
      cases unsettled
    have pending : ∀ k, f.kind = k → f ∈ l.pending k := fun k isKind =>
      mem_filter.mpr ⟨known,decide_eq_true ⟨isKind,unsettled⟩⟩
    rcases isItem with isMessage | isReasoning
    · exact noMessage f (pending .message isMessage) rfl
    · exact noReasoning f (pending .reasoning isReasoning) rfl

theorem stamps_giveUp : (l.giveUp items).map Entry.stamp = l.map Entry.stamp := by
  induction items generalizing l with
  | nil => rfl
  | cons a rest ih => exact ih.trans (map_amend fun _ => rfl)

theorem stamps_close :
    l.close.map Entry.stamp = l.map Entry.stamp := stamps_giveUp.trans stamps_giveUp

theorem items_after {m : StorageMessage} :
    (l.after first m).map Entry.item = l.map Entry.item ++ m.opens.toList := by
  have extended : ∀ i delta, (l.extend i delta).map Entry.item = l.map Entry.item :=
    fun _ _ => map_amend fun _ => rfl
  have settled : ∀ i status, (l.settle status i).map Entry.item = l.map Entry.item :=
    fun _ _ => map_amend fun _ => rfl
  cases m <;> first
    | exact map_append
    | exact (extended _ _).trans (append_nil _).symm
    | exact (settled _ _).trans (append_nil _).symm
    | exact (append_nil _).symm

theorem items_messages :
    (messages.foldl (after first) l).map Entry.item =
      l.map Entry.item ++ messages.filterMap StorageMessage.opens := by
  induction messages generalizing l with
  | nil => exact (append_nil _).symm
  | cons m rest ih =>
    rw [foldl_cons, ih, items_after, append_assoc]
    refine congrArg _ ?_
    cases opened : m.opens with
    | none => rw [filterMap_cons_none opened]; rfl
    | some item => rw [filterMap_cons_some opened]; rfl

/-- The timestamps so far increase, and the next one lies beyond them. -/
def Stamped (first : Int) (l : Ledger) : Prop :=
  (l.map Entry.createdAt).Pairwise (· < ·) ∧ ∀ e ∈ l, e.createdAt < first + l.length

theorem stamped_start (stamped : l.Stamped first) :
    (l.start kind itemId status first).Stamped first := by
  obtain ⟨increasing,bounded⟩ := stamped
  refine ⟨?_,fun e mem => ?_⟩
  · rw [start, map_append, pairwise_append]
    refine ⟨increasing,pairwise_singleton _ _,?_⟩
    rintro a mem b here
    obtain ⟨e,known,rfl⟩ := mem_map.mp mem
    rw [mem_singleton.mp here]
    exact bounded e known
  · rw [start, length_append, length_singleton]
    rcases mem_snoc.mp mem with old | rfl
    · have := bounded e old
      omega
    · dsimp only
      omega

theorem stamped_amend (keeps : ∀ e, (change e).createdAt = e.createdAt)
    (stamped : l.Stamped first) : Stamped first (amend Entry.itemId itemId change l) := by
  refine ⟨by rw [map_amend keeps]; exact stamped.1,fun e mem => ?_⟩
  rw [length_amend]
  rcases mem_amend mem with ⟨old,known,-,rfl⟩ | ⟨known,-⟩
  · rw [keeps]
    exact stamped.2 old known
  · exact stamped.2 e known

theorem stamped_messages (stamped : l.Stamped first) :
    Stamped first (messages.foldl (after first) l) := by
  induction messages generalizing l with
  | nil => exact stamped
  | cons m rest ih =>
    refine ih ?_
    cases m <;> first
      | exact stamped_start stamped
      | exact stamped_amend (fun _ => rfl) stamped
      | exact stamped

end Ledger

end OpenSecret.Responses
