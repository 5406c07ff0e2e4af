import OpenSecret.Foundation.Keyed
import OpenSecret.Responses.Client
import Mathlib.Data.List.Nodup
import Mathlib.Data.List.Induction

/-!
What a client is told over a whole stream. The records of the event loop, the index
map and the events agree: an item keeps the place it was announced at, and what is
said at its end is what was said along the way.
-/
namespace OpenSecret.Responses
open Framing Keyed
open List hiding get

def StorageMessage.startedId : StorageMessage → Option Uuid
  | .messageStarted id | .reasoningStarted id | .toolCall id _ _ | .toolOutput id _ _ => some id
  | _ => none

def StorageMessage.delta : StorageMessage → Option (OutputType × Uuid × Text)
  | .contentDelta id delta => some (.message,id,delta)
  | .reasoningDelta id delta => some (.reasoning,id,delta)
  | _ => none

def StorageMessage.done : StorageMessage → Option (OutputType × Uuid)
  | .messageDone id _ => some (.message,id)
  | .reasoningDone id => some (.reasoning,id)
  | _ => none

/-- The messages the loop takes: all up to the first one that ends it. -/
def received : List StorageMessage → List StorageMessage
  | [] => []
  | m :: rest => if m.isTerminal then [m] else m :: received rest

/-- No item is continued once it was said to be done. -/
def NoLateDelta (messages : List StorageMessage) : Prop :=
  messages.Pairwise fun earlier later => ∀ kind id, earlier.done = some (kind,id) →
    ∀ kind' delta, later.delta ≠ some (kind',id,delta)

namespace ResponseEvent

def number : ResponseEvent → Option Int32
  | .created n | .inProgress n | .outputItemAdded n _ _ | .contentPartAdded n _ _
  | .outputTextDelta n _ _ _
  | .outputTextDone n _ _ _ | .reasoningTextDelta n _ _ _ | .reasoningTextDone n _ _ _
  | .contentPartDone n _ _ _
  | .outputItemDone n _ _ | .completed n _ _ | .toolCallCreated n _ _ _ _
  | .toolOutputCreated n _ _ _ _ => some n
  | .cancelled | .error _ => none

def place : ResponseEvent → Option (Uuid × Int32)
  | .outputItemAdded _ index item | .outputItemDone _ index item => some (item.id,index)
  | .contentPartAdded _ id index | .outputTextDelta _ id index _ | .outputTextDone _ id index _
  | .reasoningTextDelta _ id index _ | .reasoningTextDone _ id index _
  | .contentPartDone _ id index _
  | .toolCallCreated _ index id _ _ | .toolOutputCreated _ index id _ _ => some (id,index)
  | _ => none

def added : ResponseEvent → Option (Uuid × Int32)
  | .outputItemAdded _ index item => some (item.id,index)
  | _ => none

def delta : ResponseEvent → Option (OutputType × Uuid × Text)
  | .outputTextDelta _ id _ delta => some (.message,id,delta)
  | .reasoningTextDelta _ id _ delta => some (.reasoning,id,delta)
  | _ => none

def doneText : ResponseEvent → Option (OutputType × Uuid × Text)
  | .outputTextDone _ id _ text | .contentPartDone _ id _ text => some (.message,id,text)
  | .reasoningTextDone _ id _ text => some (.reasoning,id,text)
  | .outputItemDone _ _ item =>
    match item.outputType, item.content with
    | .message, some [text] => some (.message,item.id,text)
    | _, _ => none
  | _ => none

def output : ResponseEvent → Option (List OutputItem)
  | .completed _ output _ => some output
  | _ => none

end ResponseEvent

def ClientStream.events (s : ClientStream) : List ResponseEvent := s.emitted.map Emission.event

def streamedText (kind : OutputType) (id : Uuid) (events : List ResponseEvent) : Text :=
  events.flatMap fun e => match e.delta with
    | some (k,i,delta) => if k = kind ∧ i = id then delta else []
    | none => []

/-- The loop takes messages as long as it runs. -/
def ClientStream.follow (env : ClientEnv) (s : ClientStream) : List StorageMessage → ClientStream
  | [] => s
  | m :: rest => if s.status = .running then ClientStream.follow env (s.receive env m) rest else s

namespace StreamOutputItemRecord

def id : StreamOutputItemRecord → Uuid
  | .message id _ | .reasoning id _ | .toolCall id _ _ _ | .toolOutput id _ _ => id

def textOf (kind : OutputType) : StreamOutputItemRecord → Option Text
  | .message _ text => if kind = .message then some text else none
  | .reasoning _ text => if kind = .reasoning then some text else none
  | _ => none

def append (delta : Text) : StreamOutputItemRecord → StreamOutputItemRecord
  | .message id text => .message id (text ++ delta)
  | .reasoning id text => .reasoning id (text ++ delta)
  | other => other

theorem id_append (delta : Text) (r : StreamOutputItemRecord) : (r.append delta).id = r.id := by
  cases r <;> rfl

theorem textOf_append {kind : OutputType} {delta text : Text} {r : StreamOutputItemRecord}
    (h : r.textOf kind = some text) (kind' : OutputType) :
    ((r.append delta).textOf kind').getD [] = (r.textOf kind').getD [] ++ if kind' = kind
      then delta else [] := by
  cases r <;> cases kind <;> cases kind' <;> simp_all [textOf, append]

end StreamOutputItemRecord

section
variable (env : ClientEnv)

def StorageMessage.record (printJson : Json → Text) : StorageMessage → Option StreamOutputItemRecord
  | .messageStarted id => some (.message id [])
  | .reasoningStarted id => some (.reasoning id [])
  | .toolCall id name arguments => some (.toolCall id id name (printJson arguments))
  | .toolOutput id callId output => some (.toolOutput id callId output)
  | _ => none

def startEvents : StorageMessage → Int32 → List (Int32 → ResponseEvent)
  | .messageStarted id, index =>
    [(.outputItemAdded · index (.newMessage id)),(.contentPartAdded · id index)]
  | .reasoningStarted id, index => [(.outputItemAdded · index (.newReasoning id .inProgress))]
  | .toolCall id name arguments, index =>
    [(.outputItemAdded · index (.newToolCall id id .inProgress name (env.printJson arguments))),
      (.toolCallCreated · index id name arguments),
      (.outputItemDone · index (.newToolCall id id .completed name (env.printJson arguments)))]
  | .toolOutput id callId output, index =>
    [(.outputItemAdded · index (.newToolOutput id callId .inProgress output)),
      (.toolOutputCreated · index id callId output),
      (.outputItemDone · index (.newToolOutput id callId .completed output))]
  | _, _ => []

def deltaEvents : OutputType → Uuid → Int32 → Text → List (Int32 → ResponseEvent)
  | .message, id, index, delta => [(.outputTextDelta · id index delta)]
  | .reasoning, id, index, delta => [(.reasoningTextDelta · id index delta)]
  | _, _, _, _ => []

def doneEvents : OutputType → Uuid → Int32 → Text → List (Int32 → ResponseEvent)
  | .message, id, index, text =>
    [(.outputTextDone · id index text),(.contentPartDone · id index text),
      (.outputItemDone · index (.completedMessage id text))]
  | .reasoning, id, index, text =>
    [(.reasoningTextDone · id index text),(.outputItemDone · index (.newReasoning id .completed))]
  | _, _, _, _ => []

def ClientResponseState.textOf (kind : OutputType) (s : ClientResponseState) (id : Uuid) :
    Option Text :=
  (s.record id).bind fun place => place.2.textOf kind

/-- All that a message which does not end the response can do to the records, with
    the events that follow from it. -/
inductive ClientReply (s : ClientResponseState) : StorageMessage →
    ClientResponseState → List (Int32 → ResponseEvent) → Prop
  | starts {m : StorageMessage} {record : StreamOutputItemRecord}
      (started : m.record env.printJson = some record) :
      ClientReply s m (s.push record.id record).2 (startEvents env m (Int32.ofNat s.items.length))
  | continues {m : StorageMessage} {kind : OutputType} {id : Uuid} {delta text : Text} {i : Nat}
      {record : StreamOutputItemRecord} (more : m.delta = some (kind,id,delta))
      (found : s.record id = some (i,record))
      (has : record.textOf kind = some text) :
      ClientReply s m { s with items := s.items.set i (record.append delta) }
        (deltaEvents kind id (Int32.ofNat i) delta)
  | closes {m : StorageMessage} {kind : OutputType} {id : Uuid}
      {i : Nat} (done : m.done = some (kind,id))
      (found : s.index id = some i) :
      ClientReply s m s (doneEvents kind id (Int32.ofNat i) ((s.textOf kind id).getD []))
  | nothing {m : StorageMessage} (starts : m.startedId = none) : ClientReply s m s []

def numberFrom (n : Int32) : List (Int32 → ResponseEvent) → List ResponseEvent
  | [] => []
  | event :: rest => event n :: numberFrom (n + 1) rest

end

section
variable {env : ClientEnv} {s : ClientStream}

theorem emit_sealed (sealed : ∀ n, env.seals n = true) {event : Int32 → ResponseEvent}
    (numbered : ∀ n, (event n).isUnnumbered = false) (s : ClientStream) :
    emit env event s = ((),{ s with
      emitted := s.emitted ++ [⟨event s.sequenceNumber,true⟩], sequenceNumber :=
        s.sequenceNumber + 1 }) := by
  change ((),_) = _
  simp only [sealed, numbered, Bool.not_false, Bool.and_self, if_true]

def emitAll (env : ClientEnv) (events : List (Int32 → ResponseEvent)) (s : ClientStream) :
    ClientStream :=
  events.foldl (fun s event => (emit env event s).2) s

theorem emitAll_sealed (sealed : ∀ n, env.seals n = true) {events : List (Int32 → ResponseEvent)}
    (numbered : ∀ event ∈ events, ∀ n, (event n).isUnnumbered = false) (s : ClientStream) :
    (emitAll env events s).state = s.state ∧
      (emitAll env events s).events = s.events ++ numberFrom s.sequenceNumber events ∧
      (emitAll env events s).sequenceNumber = s.sequenceNumber + Int32.ofNat events.length := by
  induction events generalizing s with
  | nil =>
    refine ⟨rfl,(append_nil _).symm,?_⟩
    exact (Int32.add_zero _).symm
  | cons event rest ih =>
    obtain ⟨state,told,next⟩ := ih (fun e mem => numbered e (mem_cons_of_mem event mem))
      (emit env event s).2
    rw [emit_sealed sealed (numbered event mem_cons_self)] at state told next
    rw [emitAll, foldl_cons, ← emitAll, emit_sealed sealed (numbered event mem_cons_self)]
    refine ⟨state,?_,?_⟩
    · rw [told]
      simp only [ClientStream.events, map_append, map_cons, map_nil, append_assoc,
        singleton_append, numberFrom]
    · rw [next, length_cons, Int32.ofNat_add, Int32.add_assoc, Int32.add_comm 1]
      rfl

theorem texts_eq (s : ClientResponseState) (id : Uuid) :
    s.messageText id = s.textOf .message id ∧ s.reasoningText id = s.textOf .reasoning id := by
  unfold ClientResponseState.messageText ClientResponseState.reasoningText
    ClientResponseState.textOf
  rcases s.record id with _ | ⟨i,record⟩
  · exact ⟨rfl,rfl⟩
  · cases record <;> exact ⟨rfl,rfl⟩

theorem receive_reply (env : ClientEnv) (s : ClientStream) {m : StorageMessage}
    (plain : m.isTerminal = false) :
    ∃ state events, ClientReply env s.state m state events ∧
      ∃ used completion, s.receive env m = emitAll env events
        { s with state, totalPromptTokensUsed := used, totalCompletionTokens := completion } := by
  cases m with
  | messageStarted _ | reasoningStarted _ | toolCall _ _ _ | toolOutput _ _ _ =>
    exact ⟨_,_,.starts rfl,_,_,rfl⟩
  | usage used completion => exact ⟨_,_,.nothing rfl,_,_,rfl⟩
  | contentDelta id delta | reasoningDelta id delta =>
    rcases found : s.state.record id with _ | ⟨i,record⟩
    · refine ⟨_,_,.nothing rfl,s.totalPromptTokensUsed,s.totalCompletionTokens,?_⟩
      simp only [ClientStream.receive, onClientMessage, bind, StateT.bind, appended,
        ClientResponseState.appendMessageDelta, ClientResponseState.appendReasoningDelta, found]
      rfl
    -- only a record of the message's own kind is continued
    · cases record <;> first
        | refine ⟨_,_,.continues rfl found rfl,s.totalPromptTokensUsed,s.totalCompletionTokens,?_⟩
          simp only [ClientStream.receive, onClientMessage, bind, StateT.bind, appended,
            ClientResponseState.appendMessageDelta, ClientResponseState.appendReasoningDelta, found]
          rfl
        | refine ⟨_,_,.nothing rfl,s.totalPromptTokensUsed,s.totalCompletionTokens,?_⟩
          simp only [ClientStream.receive, onClientMessage, bind, StateT.bind, appended,
            ClientResponseState.appendMessageDelta, ClientResponseState.appendReasoningDelta, found]
          rfl
  | messageDone id _ | reasoningDone id =>
    obtain ⟨message,reasoning⟩ := texts_eq s.state id
    cases found : s.state.index id with
    | none =>
      refine ⟨_,_,.nothing rfl,s.totalPromptTokensUsed,s.totalCompletionTokens,?_⟩
      simp only [ClientStream.receive, onClientMessage, bind,
        StateT.bind, get, getThe, MonadStateOf.get, StateT.get,
        pure, ClientResponseState.messageOutputIndex, ClientResponseState.reasoningOutputIndex,
        found, Option.map_none]
      rfl
    | some i =>
      refine ⟨_,_,.closes rfl found,s.totalPromptTokensUsed,s.totalCompletionTokens,?_⟩
      simp only [ClientStream.receive, onClientMessage, bind,
        StateT.bind, get, getThe, MonadStateOf.get, StateT.get,
        pure, ClientResponseState.messageOutputIndex, ClientResponseState.reasoningOutputIndex,
        found, Option.map_some,
        message, reasoning]
      rfl
  | responseDone _ | error _ | cancelled => cases plain

end

section
variable {s : ClientResponseState} {id : Uuid} {i : Nat} {record : StreamOutputItemRecord}
  {items : List StreamOutputItemRecord} {kind : OutputType} {text delta : Text}

/-- The index map lists the items with their places, the latest first. -/
structure Indexed (s : ClientResponseState) : Prop where
  indices : s.indices = (s.items.map StreamOutputItemRecord.id).zipIdx.reverse
  distinct : (s.items.map StreamOutputItemRecord.id).Nodup

theorem Indexed.index_iff (indexed : Indexed s) :
    s.index id = some i ↔ (s.items.map StreamOutputItemRecord.id)[i]? = some id := by
  have listed : ∀ p, p ∈ s.indices ↔ (s.items.map StreamOutputItemRecord.id)[p.2]? = some p.1 := by
    intro p
    rw [indexed.indices, mem_reverse, mem_zipIdx_iff_getElem?]
  unfold ClientResponseState.index
  constructor
  · intro found
    obtain ⟨p,first,rfl⟩ := Option.map_eq_some_iff.mp found
    have same : p.1 = id := by simpa using find?_some first
    rw [← same]
    exact (listed p).mp (mem_of_find?_eq_some first)
  · intro stored
    have mem : (id,i) ∈ s.indices := (listed (id,i)).mpr stored
    cases first : s.indices.find? (fun p => decide (p.1 = id)) with
    | none => exact absurd (decide_eq_true rfl) (find?_eq_none.mp first _ mem)
    | some p =>
      have same : p.1 = id := by simpa using find?_some first
      have other := (listed p).mp (mem_of_find?_eq_some first)
      rw [same, ← stored] at other
      have inside : p.2 < (s.items.map StreamOutputItemRecord.id).length :=
        (List.getElem?_eq_some_iff.mp (other.trans stored)).1
      rw [Option.map_some, (getElem?_inj inside indexed.distinct).mp other]

theorem Indexed.record_iff (indexed : Indexed s) :
    s.record id = some (i,record) ↔ s.items[i]? = some record ∧ record.id = id := by
  unfold ClientResponseState.record
  constructor
  · intro found
    obtain ⟨j,index,found⟩ := Option.bind_eq_some_iff.mp found
    obtain ⟨r,stored,same⟩ := Option.bind_eq_some_iff.mp found
    cases same
    have own := indexed.index_iff.mp index
    rw [getElem?_map, stored, Option.map_some] at own
    exact ⟨stored,Option.some.inj own⟩
  · intro both
    obtain ⟨stored,rfl⟩ := both
    have index : s.index record.id = some i := by
      rw [indexed.index_iff, getElem?_map, stored, Option.map_some]
    simp only [index, stored, bind, Option.bind, pure]

def textAt (items : List StreamOutputItemRecord) (kind : OutputType) (id : Uuid) : Text :=
  ((items.find? fun r => r.id = id).bind (StreamOutputItemRecord.textOf kind)).getD []

theorem Indexed.textOf_eq (indexed : Indexed s) (kind : OutputType) (id : Uuid) :
    (s.textOf kind id).getD [] = textAt s.items kind id := by
  unfold ClientResponseState.textOf textAt
  cases found : s.items.find? (fun r => decide (r.id = id)) with
  | some record =>
    obtain ⟨i,stored⟩ := mem_iff_getElem?.mp (mem_of_find?_eq_some found)
    have same : record.id = id := by simpa using find?_some found
    rw [indexed.record_iff.mpr ⟨stored,same⟩]
    rfl
  | none =>
    cases known : s.record id with
    | none => rfl
    | some place =>
      obtain ⟨stored,same⟩ := indexed.record_iff.mp known
      exact absurd (decide_eq_true same) (find?_eq_none.mp found _ (mem_of_getElem? stored))

theorem Indexed.push (indexed : Indexed s)
    (fresh : record.id ∉ s.items.map StreamOutputItemRecord.id) :
    Indexed (s.push record.id record).2 where
  indices := by
    have place : (s.push record.id record).2.indices =
      (record.id,s.items.length) :: s.indices := rfl
    have items : (s.push record.id record).2.items = s.items ++ [record] := rfl
    rw [place, items, indexed.indices, map_append, zipIdx_append, reverse_append]
    simp
  distinct := by
    have items : (s.push record.id record).2.items = s.items ++ [record] := rfl
    rw [items, map_append]
    exact nodup_append.mpr ⟨indexed.distinct,by simp,by
      intro a mem b single same
      rw [map_singleton, mem_singleton] at single
      rw [same, single] at mem
      exact fresh mem⟩

theorem ids_amend (id : Uuid) (delta : Text) :
    (amend StreamOutputItemRecord.id id (StreamOutputItemRecord.append delta) items).map
      StreamOutputItemRecord.id =
      items.map StreamOutputItemRecord.id :=
  map_amend (StreamOutputItemRecord.id_append delta)

theorem textAt_push (silent : ∀ kind, (record.textOf kind).getD [] = []) (kind : OutputType)
    (id : Uuid) :
    textAt (items ++ [record]) kind id = textAt items kind id := by
  unfold textAt
  rw [find?_append]
  cases items.find? (fun r => decide (r.id = id)) with
  | some other => rfl
  | none =>
    rw [Option.none_or]
    by_cases same : record.id = id
    · rw [find?_cons_of_pos (by simpa using same), Option.bind_some, silent]
      rfl
    · rw [find?_cons_of_neg (by simpa using same)]
      rfl

theorem textAt_amend (mem : record ∈ items)
    (distinct : (items.map StreamOutputItemRecord.id).Nodup) (has : record.textOf kind = some text)
    (kind' : OutputType) (id' : Uuid) :
    textAt (amend StreamOutputItemRecord.id record.id (StreamOutputItemRecord.append delta) items)
      kind' id' =
      textAt items kind' id' ++ if kind = kind' ∧ record.id = id' then delta else [] := by
  unfold textAt amend
  rw [find?_map]
  have same : ((fun r : StreamOutputItemRecord => decide (r.id = id')) ∘ fun r =>
      if r.id = record.id then StreamOutputItemRecord.append delta r else r) =
        fun r => decide (r.id = id') := by
    funext r
    rw [Function.comp_apply]
    split
    · rw [r.id_append]
    · rfl
  rw [same]
  cases found : items.find? (fun r => decide (r.id = id')) with
  | none =>
    have other : record.id ≠ id' := by
      intro here
      exact find?_eq_none.mp found record mem (decide_eq_true here)
    rw [if_neg (fun both => other both.2)]
    rfl
  | some r =>
    have own : r.id = id' := by simpa using find?_some found
    rw [Option.map_some, Option.bind_some, Option.bind_some]
    by_cases here : record.id = id'
    · have equal : r = record :=
        inj_on_of_nodup_map distinct (mem_of_find?_eq_some found) mem (own.trans here.symm)
      rw [equal, if_pos rfl, StreamOutputItemRecord.textOf_append has]
      by_cases alike : kind = kind'
      · rw [if_pos alike.symm, if_pos ⟨alike,here⟩]
      · rw [if_neg (Ne.symm alike), if_neg (fun both => alike both.1)]
    · have apart : r.id ≠ record.id := by
        rw [own]
        exact Ne.symm here
      rw [if_neg apart, if_neg (fun both => here both.2), append_nil]

end

section
variable {kind : OutputType} {id : Uuid} {delta text : Text}
  {n index : Int32} {events more : List ResponseEvent}
  {replies : List (Int32 → ResponseEvent)}

theorem streamedText_silent (silent : ∀ e ∈ more, e.delta = none) (kind : OutputType) (id : Uuid) :
    streamedText kind id more = [] := by
  apply flatMap_eq_nil_iff.mpr
  intro e mem
  rw [silent e mem]

theorem numberFrom_number (numbered : ∀ event ∈ replies, ∀ n, (event n).number = some n) (k : Nat) :
    (numberFrom (Int32.ofNat k) replies).filterMap ResponseEvent.number =
      (List.range' k replies.length).map Int32.ofNat := by
  induction replies generalizing k with
  | nil => rfl
  | cons event rest ih =>
    have next : Int32.ofNat k + 1 = Int32.ofNat (k + 1) := by rw [Int32.ofNat_add]; rfl
    rw [numberFrom, filterMap_cons_some (numbered event mem_cons_self _), next,
      ih (fun e mem => numbered e (mem_cons_of_mem event mem)), length_cons, range'_succ,
      map_cons]

theorem isUnnumbered_of_number {e : ResponseEvent} (h : e.number = some n) :
    e.isUnnumbered = false := by
  cases e <;> first | rfl | cases h

end

section
variable {env : ClientEnv} {s state : ClientResponseState} {m : StorageMessage}
  {record : StreamOutputItemRecord}
  {replies : List (Int32 → ResponseEvent)}

theorem ClientReply.numbered (reply : ClientReply env s m state replies) :
    ∀ event ∈ replies, ∀ n, (event n).number = some n := by
  cases reply with
  | starts started => cases m <;> simp [startEvents, ResponseEvent.number]
  | @continues kind => cases kind <;> simp [deltaEvents, ResponseEvent.number]
  | @closes kind => cases kind <;> simp [doneEvents, ResponseEvent.number]
  | nothing none => exact forall_mem_nil _

theorem record_started {printJson : Json → Text} (started : m.record printJson = some record) :
    m.startedId = some record.id ∧ ∀ kind, (record.textOf kind).getD [] = [] := by
  cases m with
  | messageStarted id | reasoningStarted id =>
    cases started
    refine ⟨rfl,fun kind => ?_⟩
    cases kind <;> rfl
  | toolCall id name arguments | toolOutput id callId output =>
    cases started
    exact ⟨rfl,fun kind => rfl⟩
  | _ => cases started

theorem startEvents_spec (started : m.record env.printJson = some record) (n index : Int32) :
    (numberFrom n (startEvents env m index)).filterMap ResponseEvent.added = [(record.id,index)] ∧
      ∀ e ∈ numberFrom n (startEvents env m index),
        (∀ p, e.place = some p → p = (record.id,index)) ∧ e.delta = none ∧ e.doneText = none := by
  cases m with
  | messageStarted id | reasoningStarted id | toolCall id name arguments
  | toolOutput id callId output =>
    cases started
    refine ⟨rfl,?_⟩
    simp only [startEvents, numberFrom, forall_mem_cons]
    simp [ResponseEvent.place, ResponseEvent.delta, ResponseEvent.doneText, OutputItem.newMessage,
      OutputItem.newReasoning, OutputItem.newToolCall, OutputItem.newToolOutput,
      StreamOutputItemRecord.id]
  | _ => cases started

variable {kind : OutputType} {id : Uuid}

theorem deltaEvents_spec {delta : Text} (more : m.delta = some (kind,id,delta)) (n index : Int32) :
    (numberFrom n (deltaEvents kind id index delta)).filterMap ResponseEvent.added = [] ∧
      (∀ kind' id', streamedText kind' id' (numberFrom n (deltaEvents kind id index delta)) =
        if kind = kind' ∧ id = id' then delta else []) ∧
      ∀ e ∈ numberFrom n (deltaEvents kind id index delta),
        (∀ p, e.place = some p → p = (id,index)) ∧ e.doneText = none := by
  cases m with
  | contentDelta own text | reasoningDelta own text =>
    cases more
    refine ⟨rfl,fun kind' id' => append_nil _,?_⟩
    intro e mem
    rw [mem_singleton.mp mem]
    refine ⟨fun p place => (Option.some.inj place).symm,rfl⟩
  | _ => cases more

theorem doneEvents_spec (done : m.done = some (kind,id)) (n index : Int32) (text : Text) :
    (numberFrom n (doneEvents kind id index text)).filterMap ResponseEvent.added = [] ∧
      ∀ e ∈ numberFrom n (doneEvents kind id index text), (∀ p, e.place = some p → p = (id,index)) ∧
        e.delta = none ∧
        ∀ closed, e.doneText = some closed → closed = (kind,id,text) := by
  cases m with
  | messageDone own reason | reasoningDone own =>
    cases done
    refine ⟨rfl,?_⟩
    simp only [doneEvents, numberFrom, forall_mem_cons]
    simp [ResponseEvent.place, ResponseEvent.delta, ResponseEvent.doneText,
      OutputItem.completedMessage,
      OutputItem.newMessage, OutputItem.newReasoning, eq_comm]
  | _ => cases done

end

structure View (seen : List StorageMessage) (state : ClientResponseState)
    (events : List ResponseEvent)
    (next : Int32) : Prop where
  indexed : Indexed state
  order : state.items.map StreamOutputItemRecord.id = seen.filterMap StorageMessage.startedId
  added : events.filterMap ResponseEvent.added =
    (state.items.map StreamOutputItemRecord.id).zipIdx.map fun p => (p.1,Int32.ofNat p.2)
  places : ∀ e ∈ events, ∀ p, e.place = some p → ∃ i, state.index p.1 = some i ∧ p.2 = Int32.ofNat i
  texts : ∀ kind id, streamedText kind id events = textAt state.items kind id
  closed : ∀ e ∈ events, ∀ kind id text, e.doneText = some (kind,id,text) →
    text = streamedText kind id events ∧ ∃ m ∈ seen, m.done = some (kind,id)
  numbers : events.filterMap ResponseEvent.number =
    (List.range (events.filterMap ResponseEvent.number).length).map Int32.ofNat
  next : next = Int32.ofNat (events.filterMap ResponseEvent.number).length

section
variable {env : ClientEnv} {seen : List StorageMessage} {s state : ClientResponseState}
  {events : List ResponseEvent}
  {next : Int32} {m : StorageMessage} {replies : List (Int32 → ResponseEvent)}

/-- Items that are started are put behind the others; what is told of an item is added to
    its text, and nothing is told of an item that is done. -/
theorem View.extend (view : View seen s events next) {taken : List StorageMessage}
    {more : List ResponseEvent} {n : Nat} (indexed : Indexed state)
    (grown : state.items.map StreamOutputItemRecord.id =
      s.items.map StreamOutputItemRecord.id ++ taken.filterMap StorageMessage.startedId)
    (added : more.filterMap ResponseEvent.added =
      ((taken.filterMap StorageMessage.startedId).zipIdx s.items.length).map fun p =>
      (p.1,Int32.ofNat p.2))
    (places : ∀ e ∈ more, ∀ p, e.place = some p → ∃ i, state.index p.1 = some i ∧
      p.2 = Int32.ofNat i)
    (texts : ∀ kind id, textAt state.items kind id =
      textAt s.items kind id ++ streamedText kind id more)
    (onTime : ∀ m ∈ seen, ∀ kind id, m.done = some (kind,id) → streamedText kind id more = [])
    (closed : ∀ e ∈ more, ∀ kind id text, e.doneText = some (kind,id,text) →
      text = textAt state.items kind id ∧ ∃ m ∈ taken, m.done = some (kind,id))
    (numbers : more.filterMap ResponseEvent.number =
      (List.range' (events.filterMap ResponseEvent.number).length n).map Int32.ofNat) :
    View (seen ++ taken) state (events ++ more) (next + Int32.ofNat n) := by
  have told : ∀ kind id, streamedText kind id (events ++ more) = textAt state.items kind id := by
    intro kind id
    rw [streamedText, flatMap_append, texts, ← view.texts]
    rfl
  have count : ((events ++ more).filterMap ResponseEvent.number).length =
      (events.filterMap ResponseEvent.number).length + n := by
    rw [filterMap_append, numbers, length_append, length_map, length_range']
  refine ⟨indexed,?_,?_,?_,told,?_,?_,?_⟩
  · rw [grown, view.order, filterMap_append]
  · rw [grown, filterMap_append, view.added, added, zipIdx_append, map_append, length_map,
      zero_add]
  · intro e mem p place
    rcases mem_append.mp mem with old | new
    · obtain ⟨i,index,same⟩ := view.places e old p place
      have stored := view.indexed.index_iff.mp index
      refine ⟨i,indexed.index_iff.mpr ?_,same⟩
      rw [grown, getElem?_append_left (List.getElem?_eq_some_iff.mp stored).1, stored]
    · exact places e new p place
  · intro e mem kind id text done
    rw [told]
    rcases mem_append.mp mem with old | new
    · obtain ⟨said,m,inSeen,ended⟩ := view.closed e old kind id text done
      rw [texts, onTime m inSeen kind id ended, append_nil, ← view.texts]
      exact ⟨said,m,mem_append_left taken inSeen,ended⟩
    · obtain ⟨said,m,inTaken,ended⟩ := closed e new kind id text done
      exact ⟨said,m,mem_append_right seen inTaken,ended⟩
  · rw [count, filterMap_append, numbers, range_add, map_append, ← view.numbers,
      range'_eq_map_range]
  · rw [count, Int32.ofNat_add, ← view.next]

theorem View.numbered (view : View seen s events next) (reply : ClientReply env s m state replies) :
    (numberFrom next replies).filterMap ResponseEvent.number =
      (List.range' (events.filterMap ResponseEvent.number).length replies.length).map
        Int32.ofNat := by
  rw [view.next]
  exact numberFrom_number reply.numbered _

variable {record : StreamOutputItemRecord} {kind : OutputType} {id : Uuid}

theorem View.starts (view : View seen s events next)
    (started : m.record env.printJson = some record)
    (fresh : ∀ id ∈ m.startedId, id ∉ seen.filterMap StorageMessage.startedId) :
    View (seen ++ [m]) (s.push record.id record).2
      (events ++ numberFrom next (startEvents env m (Int32.ofNat s.items.length)))
      (next + Int32.ofNat (startEvents env m (Int32.ofNat s.items.length)).length) := by
  obtain ⟨startedId,silent⟩ := record_started started
  obtain ⟨added,each⟩ := startEvents_spec started next (Int32.ofNat s.items.length)
  have taken : [m].filterMap StorageMessage.startedId = [record.id] := filterMap_cons_some startedId
  have ids : (s.push record.id record).2.items.map StreamOutputItemRecord.id =
      s.items.map StreamOutputItemRecord.id ++ [record.id] := map_append
  have indexed : Indexed (s.push record.id record).2 := by
    apply view.indexed.push
    rw [view.order]
    exact fresh record.id startedId
  have silence := streamedText_silent fun e mem => (each e mem).2.1
  refine view.extend indexed ?_ ?_ ?_ ?_ (fun _ _ kind id _ => silence kind id)
    ?_ (view.numbered (.starts started))
  · rw [ids, taken]
  · rw [added, taken]
    rfl
  · intro e mem p place
    rw [(each e mem).1 p place]
    refine ⟨s.items.length,indexed.index_iff.mpr ?_,rfl⟩
    rw [ids, getElem?_append_right (by simp)]
    simp
  · intro kind id
    rw [silence, append_nil]
    exact textAt_push silent kind id
  · intro e mem kind id text done
    rw [(each e mem).2.2] at done
    cases done

theorem startedId_of_delta {text : OutputType × Uuid × Text} (more : m.delta = some text) :
    m.startedId = none := by
  cases m <;> first | rfl | cases more

theorem startedId_of_done {closed : OutputType × Uuid} (done : m.done = some closed) :
    m.startedId = none := by
  cases m <;> first | rfl | cases done

theorem View.continues (view : View seen s events next) (env : ClientEnv) {delta text : Text}
    {i : Nat} (more : m.delta = some (kind,id,delta)) (found : s.record id = some (i,record))
    (has : record.textOf kind = some text)
    (onTime : ∀ m' ∈ seen, ∀ kind' id', m'.done = some (kind',id') →
      ∀ k d, m.delta ≠ some (k,id',d)) :
    View (seen ++ [m]) { s with items := s.items.set i (record.append delta) }
      (events ++ numberFrom next (deltaEvents kind id (Int32.ofNat i) delta))
      (next + Int32.ofNat (deltaEvents kind id (Int32.ofNat i) delta).length) := by
  have numbers := view.numbered (ClientReply.continues more found has : ClientReply env s m _ _)
  obtain ⟨stored,rfl⟩ := view.indexed.record_iff.mp found
  obtain ⟨added,told,each⟩ := deltaEvents_spec more next (Int32.ofNat i)
  have taken : [m].filterMap StorageMessage.startedId = [] :=
    filterMap_cons_none (startedId_of_delta more)
  have amended : s.items.set i (record.append delta) =
      amend StreamOutputItemRecord.id record.id (StreamOutputItemRecord.append delta) s.items :=
    set_eq_amend view.indexed.distinct stored
  have ids : (s.items.set i (record.append delta)).map StreamOutputItemRecord.id =
      s.items.map StreamOutputItemRecord.id := by
    rw [amended, ids_amend]
  have indexed : Indexed { s with items := s.items.set i (record.append delta) } := by
    constructor
    · rw [ids]
      exact view.indexed.indices
    · rw [ids]
      exact view.indexed.distinct
  refine view.extend indexed ?_ ?_ ?_ ?_ ?_ ?_ numbers
  · rw [ids, taken, append_nil]
  · rw [added, taken]
    rfl
  · intro e mem p place
    rw [(each e mem).1 p place]
    refine ⟨i,indexed.index_iff.mpr ?_,rfl⟩
    rw [ids, getElem?_map, stored, Option.map_some]
  · intro kind' id'
    rw [told, amended, textAt_amend (mem_of_getElem? stored) view.indexed.distinct has]
  · intro m' inSeen kind' id' closed
    rw [told, if_neg]
    rintro ⟨-,rfl⟩
    exact onTime m' inSeen kind' record.id closed kind delta more
  · intro e mem kind' id' closing done
    rw [(each e mem).2] at done
    cases done

theorem View.closes (view : View seen s events next) (env : ClientEnv) {i : Nat}
    (done : m.done = some (kind,id)) (found : s.index id = some i) :
    View (seen ++ [m]) s
      (events ++ numberFrom next (doneEvents kind id (Int32.ofNat i) ((s.textOf kind id).getD [])))
      (next +
        Int32.ofNat (doneEvents kind id (Int32.ofNat i) ((s.textOf kind id).getD [])).length) := by
  obtain ⟨added,each⟩ := doneEvents_spec done next (Int32.ofNat i) ((s.textOf kind id).getD [])
  have taken : [m].filterMap StorageMessage.startedId = [] :=
    filterMap_cons_none (startedId_of_done done)
  have silence := streamedText_silent fun e mem => (each e mem).2.1
  refine view.extend view.indexed ?_ ?_ ?_ ?_ (fun _ _ kind id _ => silence kind id) ?_
    (view.numbered (ClientReply.closes done found : ClientReply env s m _ _))
  · rw [taken, append_nil]
  · rw [added, taken]
    rfl
  · intro e mem p place
    rw [(each e mem).1 p place]
    exact ⟨i,found,rfl⟩
  · intro kind' id'
    rw [silence, append_nil]
  · intro e mem kind' id' text closing
    cases (each e mem).2.2 _ closing
    exact ⟨view.indexed.textOf_eq kind id,m,mem_cons_self,done⟩

structure General (e : ResponseEvent) : Prop where
  added : e.added = none
  place : e.place = none
  delta : e.delta = none
  doneText : e.doneText = none

theorem View.general (view : View seen s events next) {taken : List StorageMessage}
    {more : List ResponseEvent} {n : Nat} (starts : taken.filterMap StorageMessage.startedId = [])
    (general : ∀ e ∈ more, General e)
    (numbers : more.filterMap ResponseEvent.number =
      (List.range' (events.filterMap ResponseEvent.number).length n).map Int32.ofNat) :
    View (seen ++ taken) s (events ++ more) (next + Int32.ofNat n) := by
  have silence := streamedText_silent fun e mem => (general e mem).delta
  refine view.extend view.indexed ?_ ?_ ?_ ?_ (fun _ _ kind id _ => silence kind id) ?_ numbers
  · rw [starts, append_nil]
  · rw [starts, filterMap_eq_nil_iff.mpr fun e mem => (general e mem).added]
    rfl
  · intro e mem p place
    rw [(general e mem).place] at place
    cases place
  · intro kind id
    rw [silence, append_nil]
  · intro e mem kind id text closing
    rw [(general e mem).doneText] at closing
    cases closing

theorem View.reply (view : View seen s events next) (reply : ClientReply env s m state replies)
    (fresh : ∀ id ∈ m.startedId, id ∉ seen.filterMap StorageMessage.startedId)
    (onTime : ∀ m' ∈ seen, ∀ kind' id', m'.done = some (kind',id') →
      ∀ k d, m.delta ≠ some (k,id',d)) :
    View (seen ++ [m]) state (events ++ numberFrom next replies)
      (next + Int32.ofNat replies.length) := by
  cases reply with
  | starts started => exact view.starts started fresh
  | continues more found has => exact view.continues env more found has onTime
  | closes done found => exact view.closes env done found
  | nothing none => exact view.general (filterMap_cons_none none) (forall_mem_nil _) rfl

end

section
variable {env : ClientEnv} {s : ClientStream} {m : StorageMessage}

theorem receive_terminal (sealed : ∀ n, env.seals n = true) {k : Nat}
    (next : s.sequenceNumber = Int32.ofNat k) (terminal : m.isTerminal = true) :
    ∃ e n, (s.receive env m).state = s.state ∧ (s.receive env m).events = s.events ++ [e] ∧
      (s.receive env m).sequenceNumber = s.sequenceNumber + Int32.ofNat n ∧ General e ∧
      [e].filterMap ResponseEvent.number = (List.range' k n).map Int32.ofNat ∧
      ∀ output, e.output = some output → output = s.state.buildOutputItems := by
  cases m with
  | responseDone reason =>
    refine ⟨_,1,rfl,map_append,if_pos ?_,⟨rfl,rfl,rfl,rfl⟩,congrArg (fun n => [n]) next,
      fun output same => (Option.some.inj same).symm⟩
    rw [sealed]
    rfl
  | error message | cancelled =>
    refine ⟨_,0,rfl,map_append,(if_neg ?_).trans (Int32.add_zero _).symm,
      ⟨rfl,rfl,rfl,rfl⟩,rfl,nofun⟩
    simp [ResponseEvent.isUnnumbered]
  | _ => cases terminal

theorem follow_ended (ended : s.status = .ended) (messages : List StorageMessage) :
    s.follow env messages = s := by
  cases messages with
  | nil => rfl
  | cons m rest =>
    rw [ClientStream.follow, if_neg]
    rw [ended]
    decide

theorem output_none (quiet : s.terminals = 0) : ∀ e ∈ s.events, e.output = none := by
  intro e mem
  obtain ⟨emission,emitted,rfl⟩ := mem_map.mp mem
  have plain := countP_eq_zero.mp quiet emission emitted
  cases known : emission.event with
  | completed n output usage =>
    rw [known] at plain
    exact absurd rfl plain
  | _ => rfl

theorem follow_view (sealed : ∀ n, env.seals n = true) {seen messages : List StorageMessage}
    (view : View seen s.state s.events s.sequenceNumber) (running : s.status = .running)
    (none : s.terminals = 0)
    (distinct : ((seen ++ messages).filterMap StorageMessage.startedId).Nodup)
    (noLate : NoLateDelta (seen ++ messages)) :
    View (seen ++ received messages) (s.follow env messages).state (s.follow env messages).events
        (s.follow env messages).sequenceNumber ∧
      ∀ e ∈ (s.follow env messages).events, ∀ output, e.output = some output →
        output = (s.follow env messages).state.buildOutputItems := by
  induction messages generalizing seen s with
  | nil =>
    constructor
    · rw [received, append_nil]
      exact view
    · intro e mem output known
      rw [output_none none e mem] at known
      cases known
  | cons m rest ih =>
    rw [ClientStream.follow, if_pos running]
    by_cases terminal : m.isTerminal = true
    · obtain ⟨e,n,state,events,next,general,number,known⟩ :=
        receive_terminal sealed view.next terminal
      have starts : m.startedId = Option.none := by
        cases m <;> first | rfl | cases terminal
      rw [follow_ended (s.receive_ends env terminal).2, received,
        if_pos terminal, state, events, next]
      constructor
      · exact view.general (filterMap_cons_none starts) (by simpa using general) number
      · intro e' mem output same
        rcases mem_snoc.mp mem with old | rfl
        · rw [output_none none e' old] at same
          cases same
        · exact known output same
    · have plain : m.isTerminal = false := by simpa using terminal
      have next : seen ++ m :: rest = (seen ++ [m]) ++ rest := by simp
      obtain ⟨terminals,status⟩ := s.receive_goesOn env plain
      obtain ⟨state,replies,reply,used,completion,same⟩ := receive_reply env s plain
      have numbered : ∀ event ∈ replies, ∀ n, (event n).isUnnumbered = false := by
        intro event mem n
        exact isUnnumbered_of_number (reply.numbered event mem n)
      obtain ⟨after,told,count⟩ := emitAll_sealed sealed numbered
        { s with state, totalPromptTokensUsed := used, totalCompletionTokens := completion }
      rw [← same] at after told count
      rw [received, if_neg terminal]
      have onTime := (pairwise_append.mp noLate).2.2
      rw [next] at distinct noLate
      have kept : View (seen ++ [m]) (s.receive env m).state (s.receive env m).events
          (s.receive env m).sequenceNumber := by
        rw [after, told, count]
        apply view.reply reply
        · intro id started inSeen
          rw [filterMap_append, filterMap_append] at distinct
          have apart := (nodup_append.mp (nodup_append.mp distinct).1).2.2
          exact apart id inSeen id (mem_filterMap.mpr ⟨m,mem_cons_self,started⟩) rfl
        · intro m' inSeen
          exact onTime m' inSeen m mem_cons_self
      have later := ih kept (status.trans running) (terminals.trans none) distinct noLate
      rw [append_assoc] at later
      exact later

theorem start_view (sealed : ∀ n, env.seals n = true) :
    View [] (ClientStream.start env).state (ClientStream.start env).events
      (ClientStream.start env).sequenceNumber ∧
      (ClientStream.start env).status = .running ∧ (ClientStream.start env).terminals = 0 := by
  have numbered : ∀ event ∈ [ResponseEvent.created,ResponseEvent.inProgress],
      ∀ n, (event n).isUnnumbered = false := by
    simp [ResponseEvent.isUnnumbered]
  obtain ⟨state,told,count⟩ := emitAll_sealed sealed numbered ⟨{},0,0,0,[],.running⟩
  have start : ClientStream.start env =
      emitAll env [ResponseEvent.created,ResponseEvent.inProgress] ⟨{},0,0,0,[],.running⟩ := rfl
  have empty : View [] {} [] 0 :=
    ⟨⟨rfl,nodup_nil⟩,rfl,rfl,forall_mem_nil _,fun _ _ => rfl,forall_mem_nil _,rfl,rfl⟩
  refine ⟨?_,rfl,rfl⟩
  rw [start, state, told, count]
  exact empty.general rfl
    (forall_mem_cons.mpr ⟨⟨rfl,rfl,rfl,rfl⟩,forall_mem_singleton.mpr ⟨rfl,rfl,rfl,rfl⟩⟩) rfl

end

theorem textAt_of_mem {items : List StreamOutputItemRecord} {record : StreamOutputItemRecord}
    {kind : OutputType} {text : Text} (distinct : (items.map StreamOutputItemRecord.id).Nodup)
    (mem : record ∈ items) (has : record.textOf kind = some text) :
    textAt items kind record.id = text := by
  unfold textAt
  cases found : items.find? (fun r => decide (r.id = record.id)) with
  | none => exact absurd (decide_eq_true rfl) (find?_eq_none.mp found record mem)
  | some r =>
    have own : r.id = record.id := by simpa using find?_some found
    rw [inj_on_of_nodup_map distinct (mem_of_find?_eq_some found) mem own, Option.bind_some, has]
    rfl

/-- The final event has the text of each message and no text of reasoning. -/
theorem View.output {seen : List StorageMessage} {state : ClientResponseState}
    {events : List ResponseEvent} {next : Int32} (view : View seen state events next) :
    state.buildOutputItems.map OutputItem.id = state.items.map StreamOutputItemRecord.id ∧
      ∀ item ∈ state.buildOutputItems,
        (item.outputType = .message → item.content = some [streamedText .message item.id events]) ∧
        (item.outputType = .reasoning → item.content = some []) := by
  unfold ClientResponseState.buildOutputItems
  constructor
  · rw [map_map]
    apply map_congr_left
    intro record _
    cases record <;> rfl
  · intro item mem
    obtain ⟨record,stored,rfl⟩ := mem_map.mp mem
    cases record with
    | message id text =>
      refine ⟨fun _ => ?_,nofun⟩
      have said : textAt state.items .message (StreamOutputItemRecord.message id text).id = text :=
        textAt_of_mem view.indexed.distinct stored rfl
      rw [view.texts]
      exact congrArg (fun text => some [text]) said.symm
    | reasoning id text => exact ⟨nofun,fun _ => rfl⟩
    | toolCall id callId name arguments => exact ⟨nofun,nofun⟩
    | toolOutput id callId output => exact ⟨nofun,nofun⟩

/-- The stream of a session whose key stays there, for messages that start each item
    once and do not continue one that is done: the index map gives the places of the
    items, items are announced at 0, 1, 2, ... in the order of their starts and keep
    that place, each is closed with what was said of it, the final event repeats the
    text of the messages, and the numbers have no gap. -/
theorem client_view_consistent (env : ClientEnv) (sealed : ∀ n, env.seals n = true)
    (messages : List StorageMessage)
    (distinct : (messages.filterMap StorageMessage.startedId).Nodup)
    (noLate : NoLateDelta messages) :
    let s := (ClientStream.start env).follow env messages
    (∀ id i, s.state.index id = some i ↔ (s.state.items.map StreamOutputItemRecord.id)[i]? =
      some id) ∧
    s.state.items.map StreamOutputItemRecord.id =
      (received messages).filterMap StorageMessage.startedId ∧
    s.events.filterMap ResponseEvent.added =
      (s.state.items.map StreamOutputItemRecord.id).zipIdx.map (fun p => (p.1,Int32.ofNat p.2)) ∧
    (∀ e ∈ s.events, ∀ p, e.place = some p → ∃ i, s.state.index p.1 = some i ∧
      p.2 = Int32.ofNat i) ∧
    (∀ e ∈ s.events, ∀ kind id text, e.doneText = some (kind,id,text) →
      text = streamedText kind id s.events) ∧
    (∀ e ∈ s.events, ∀ output, e.output = some output →
      output.map OutputItem.id = s.state.items.map StreamOutputItemRecord.id ∧ ∀ item ∈ output,
        (item.outputType = .message → item.content =
        some [streamedText .message item.id s.events]) ∧
        (item.outputType = .reasoning → item.content = some [])) ∧
    s.events.filterMap ResponseEvent.number =
      (List.range (s.events.filterMap ResponseEvent.number).length).map Int32.ofNat := by
  intro s
  obtain ⟨view,running,none⟩ := start_view sealed
  obtain ⟨view,completed⟩ := follow_view sealed view running none distinct noLate
  refine ⟨fun id i => view.indexed.index_iff,view.order,view.added,view.places,?_,?_,view.numbers⟩
  · intro e mem kind id text closing
    exact (view.closed e mem kind id text closing).1
  · intro e mem output known
    rw [completed e mem output known]
    exact view.output

def thoughtfulStream : List StorageMessage :=
  [.reasoningStarted (numberedId 1),.reasoningDelta (numberedId 1) "why",
    .reasoningDone (numberedId 1),
    .messageStarted (numberedId 2),.contentDelta (numberedId 2) "be",
    .contentDelta (numberedId 2) "cause",.messageDone (numberedId 2) "stop",
    .responseDone "stop"]

theorem thoughtful_noLate : NoLateDelta thoughtfulStream := by
  have apart : numberedId 2 ≠ numberedId 1 := by decide +kernel
  simp [NoLateDelta, thoughtfulStream, StorageMessage.done, StorageMessage.delta, apart]

/-- The reasoning is closed with its text, and the final event has no text for it. -/
theorem reasoning_text_not_repeated :
    let s := (ClientStream.start plainClient).follow plainClient thoughtfulStream
    (thoughtfulStream.filterMap StorageMessage.startedId).Nodup ∧ NoLateDelta thoughtfulStream ∧
    (OutputType.reasoning,numberedId 1,"why".toList) ∈ s.events.filterMap ResponseEvent.doneText ∧
    (s.events.filterMap ResponseEvent.output).map (List.map fun item => (item.id,item.content)) =
      [[(numberedId 1,some []),(numberedId 2,some ["because".toList])]] :=
  ⟨by decide +kernel,thoughtful_noLate,by decide +kernel,by decide +kernel⟩

theorem thoughtful_stream_consistent :
    let s := (ClientStream.start plainClient).follow plainClient thoughtfulStream
    s.events.filterMap ResponseEvent.number =
      (List.range (s.events.filterMap ResponseEvent.number).length).map Int32.ofNat := by
  have consistent :=
    client_view_consistent plainClient (fun _ => rfl) thoughtfulStream (by decide +kernel)
    thoughtful_noLate
  exact consistent.2.2.2.2.2.2

end OpenSecret.Responses
