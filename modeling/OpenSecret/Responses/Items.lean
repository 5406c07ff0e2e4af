import OpenSecret.Responses.Protocol

/-!
The items of one assistant turn as the storage task hears of them. Every item
has one start, then its deltas, then at most one end; the protocol of the
orchestrator is traced back to the messages themselves.
-/
namespace OpenSecret.Responses
open Framing Effects List

inductive ItemKind where
  | message
  | reasoning
  deriving DecidableEq, Repr

inductive ItemEvent where
  | started
  | delta (text : Text)
  | done
  deriving DecidableEq

namespace StorageMessage

def item : StorageMessage → Option (ItemKind × Uuid × ItemEvent)
  | .messageStarted itemId => some (.message,itemId,.started)
  | .contentDelta itemId delta => some (.message,itemId,.delta delta)
  | .messageDone itemId _ => some (.message,itemId,.done)
  | .reasoningStarted itemId => some (.reasoning,itemId,.started)
  | .reasoningDelta itemId delta => some (.reasoning,itemId,.delta delta)
  | .reasoningDone itemId => some (.reasoning,itemId,.done)
  | _ => none

def eventOf (itemId : Uuid) (m : StorageMessage) : Option ItemEvent :=
  (m.item.filter (·.2.1 = itemId)).map (·.2.2)

def starts (kind : ItemKind) (m : StorageMessage) : Option Uuid :=
  (m.item.filter fun i => i.1 = kind ∧ i.2.2 = .started).map (·.2.1)

end StorageMessage

def history (itemId : Uuid) (messages : List StorageMessage) : List ItemEvent :=
  messages.filterMap (·.eventOf itemId)

def startedItems (kind : ItemKind) (messages : List StorageMessage) : List Uuid :=
  messages.filterMap (·.starts kind)

def sent (exchanges : Exchanges Effect Reply) : List StorageMessage :=
  exchanges.filterMap fun
    | ⟨.sendStorage message,true⟩ => some message
    | _ => none

def drawn (exchanges : Exchanges Effect Reply) : List Uuid :=
  exchanges.filterMap fun
    | ⟨.newUuid,itemId⟩ => some itemId
    | _ => none

def running (deltas : List Text) : List ItemEvent := .started :: deltas.map .delta

/-- Unmentioned, started with some deltas, or ended after them. -/
def WellFormedHistory (events : List ItemEvent) : Prop :=
  events = [] ∨ ∃ deltas, events = running deltas ∨ events = running deltas ++ [.done]

structure WellFormedTurn (messages : List StorageMessage) : Prop where
  items : ∀ itemId, WellFormedHistory (history itemId messages)
  oneMessage : (startedItems .message messages).length ≤ 1
  oneReasoning : (startedItems .reasoning messages).length ≤ 1

def AllDone (messages : List StorageMessage) : Prop :=
  ∀ itemId, history itemId messages ≠ [] → ∃ deltas, history itemId messages =
    running deltas ++ [.done]

def Progress.phase (g : Progress) : ItemKind → ItemPhase
  | .message => g.message
  | .reasoning => g.reasoning

section
variable {g : Progress} {m : StorageMessage} {messages : List StorageMessage}
  {kind : ItemKind} {itemId : Uuid}

theorem history_append (itemId : Uuid) (messages others : List StorageMessage) :
    history itemId (messages ++ others) = history itemId messages ++ history itemId others :=
  filterMap_append

theorem startedItems_append (kind : ItemKind) (messages others : List StorageMessage) :
    startedItems kind (messages ++ others) = startedItems kind messages ++
      startedItems kind others :=
  filterMap_append

variable {event : ItemEvent} {exchanges : Exchanges Effect Reply}

theorem history_item (about : m.item = some (kind,itemId,event)) (i : Uuid) :
    history i [m] = if itemId = i then [event] else [] := by
  by_cases same : itemId = i <;> simp [history, StorageMessage.eventOf, about, same]

theorem startedItems_item (about : m.item = some (kind,itemId,event)) (k : ItemKind) :
    startedItems k [m] = if kind = k ∧ event = .started then [itemId] else [] := by
  by_cases same : kind = k ∧ event = .started
  · simp [startedItems, StorageMessage.starts, about, same]
  · rw [if_neg same]
    simpa [startedItems, StorageMessage.starts, about] using same

def PhaseTracks (messages : List StorageMessage) (kind : ItemKind) : ItemPhase → Prop
  | .unopened => startedItems kind messages = []
  | .opened itemId =>
    startedItems kind messages = [itemId] ∧ ∃ deltas, history itemId messages = running deltas
  | .closed itemId => startedItems kind messages = [itemId] ∧
      ∃ deltas, history itemId messages = running deltas ++ [.done]

structure Tracks (g : Progress) (messages : List StorageMessage) : Prop where
  phase : ∀ kind, PhaseTracks messages kind (g.phase kind)
  mentioned : ∀ i, history i messages ≠ [] → ∃ kind, i ∈ startedItems kind messages
  known : ∀ kind i, i ∈ startedItems kind messages → i ∈ g.started
  apart : ∀ kind other i, i ∈ startedItems kind messages → i ∈ startedItems other messages →
    kind = other

theorem tracks_nothing (message : g.message = .unopened) (reasoning : g.reasoning = .unopened) :
    Tracks g [] where
  phase kind := by cases kind <;> simp [Progress.phase, message,
    reasoning, PhaseTracks, startedItems]
  mentioned i some := absurd rfl some
  known := nofun
  apart := nofun

def ItemPhase.after (phase : ItemPhase) (itemId : Uuid) : ItemEvent → ItemPhase
  | .started => .opened itemId
  | .delta _ => phase
  | .done => .closed itemId

theorem allows_item (about : m.item = some (kind,itemId,event)) (allowed : g.allows m) :
    if event = .started then g.phase kind = .unopened ∧ g.unused itemId
      else g.phase kind = .opened itemId := by
  cases m <;> cases about <;> exact allowed

theorem advance_item (about : m.item = some (kind,itemId,event)) :
    (g.advance m).phase kind = (g.phase kind).after itemId event ∧
      (∀ k, k ≠ kind → (g.advance m).phase k = g.phase k) ∧
      (g.advance m).started = if event = .started then itemId :: g.started else g.started := by
  cases m <;> cases about <;> refine ⟨rfl,?_,rfl⟩ <;> rintro (_ | _) other <;>
    first | rfl | exact absurd rfl other

theorem advance_other (none : m.item = none) :
    (∀ k, (g.advance m).phase k = g.phase k) ∧ g.started ⊆ (g.advance m).started := by
  cases m <;> cases none <;> refine ⟨by rintro (_ | _) <;> rfl,fun i mem => ?_⟩ <;>
    first | exact mem | exact mem_cons_of_mem _ mem

theorem phaseTracks_other {k : ItemKind} {phase : ItemPhase}
    (fresh : ∀ i ∈ startedItems k messages, history i [m] = [])
    (unstarted : startedItems k [m] = []) (tracks : PhaseTracks messages k phase) :
    PhaseTracks (messages ++ [m]) k phase := by
  have started : startedItems k (messages ++ [m]) = startedItems k messages := by
    rw [startedItems_append, unstarted, append_nil]
  have same : ∀ i, startedItems k messages = [i] →
      history i (messages ++ [m]) = history i messages := by
    intro i only
    rw [history_append, fresh i (by simp [only]), append_nil]
  cases phase with
  | unopened => exact started.trans tracks
  | opened i => exact ⟨started.trans tracks.1,by rw [same i tracks.1]; exact tracks.2⟩
  | closed i => exact ⟨started.trans tracks.1,by rw [same i tracks.1]; exact tracks.2⟩

theorem tracks_other (none : m.item = none) (tracks : Tracks g messages) :
    Tracks (g.advance m) (messages ++ [m]) := by
  obtain ⟨samePhase,moreStarted⟩ := advance_other (g := g) none
  have silent : ∀ i, history i [m] = [] := fun i => by simp [history, StorageMessage.eventOf, none]
  have unstarted : ∀ k, startedItems k [m] = [] :=
    fun k => by simp [startedItems, StorageMessage.starts, none]
  have sameItems : ∀ k, startedItems k (messages ++ [m]) = startedItems k messages := fun k => by
    rw [startedItems_append, unstarted, append_nil]
  refine ⟨fun k => ?_,fun i some => ?_,fun k i mem => ?_,fun k other i => ?_⟩
  · rw [samePhase]
    exact phaseTracks_other (fun i _ => silent i) (unstarted k) (tracks.phase k)
  · rw [history_append, silent, append_nil] at some
    obtain ⟨k,mem⟩ := tracks.mentioned i some
    exact ⟨k,by rwa [sameItems]⟩
  · rw [sameItems] at mem
    exact moreStarted (tracks.known k i mem)
  · rw [sameItems, sameItems]
    exact tracks.apart k other i

theorem tracks_started (about : m.item = some (kind,itemId,.started))
    (unopened : g.phase kind = .unopened) (unused : g.unused itemId) (tracks : Tracks g messages) :
    Tracks (g.advance m) (messages ++ [m]) := by
  obtain ⟨phaseHere,phaseOther,started⟩ := advance_item (g := g) about
  have new : ∀ k i, i ∈ startedItems k messages → i ≠ itemId := fun k i mem same =>
    unused.2 (same ▸ tracks.known k i mem)
  have none : startedItems kind messages = [] := by
    have here := tracks.phase kind
    rwa [unopened] at here
  have silent : history itemId messages = [] := by
    by_contra some
    obtain ⟨k,mem⟩ := tracks.mentioned itemId some
    exact new k itemId mem rfl
  have mem : ∀ k i, i ∈ startedItems k (messages ++ [m]) →
      i ∈ startedItems k messages ∨ k = kind ∧ i = itemId := by
    intro k i
    rw [startedItems_append, startedItems_item about, mem_append]
    rintro (old | fresh)
    · exact .inl old
    · split at fresh
      · rename_i here
        exact .inr ⟨here.1.symm,mem_singleton.mp fresh⟩
      · cases fresh
  have here : itemId ∈ startedItems kind (messages ++ [m]) := by
    simp [startedItems_append, startedItems_item about]
  refine ⟨fun k => ?_,fun i some => ?_,fun k i found => ?_,fun k other i found again => ?_⟩
  · by_cases same : k = kind
    · subst same
      rw [phaseHere]
      refine ⟨by rw [startedItems_append, none, startedItems_item about]; simp,[],?_⟩
      rw [history_append, silent, history_item about, if_pos rfl]
      rfl
    · rw [phaseOther k same]
      refine phaseTracks_other (fun i old => ?_) ?_ (tracks.phase k)
      · rw [history_item about, if_neg (Ne.symm (new k i old))]
      · rw [startedItems_item about, if_neg fun both => same both.1.symm]
  · by_cases same : itemId = i
    · exact ⟨kind,same ▸ here⟩
    · rw [history_append, history_item about, if_neg same, append_nil] at some
      obtain ⟨k,old⟩ := tracks.mentioned i some
      exact ⟨k,by rw [startedItems_append]; exact mem_append_left _ old⟩
  · rw [started, if_pos rfl]
    rcases mem k i found with old | ⟨-,rfl⟩
    · exact mem_cons_of_mem _ (tracks.known k i old)
    · exact mem_cons_self
  · rcases mem k i found with old | ⟨rfl,rfl⟩ <;> rcases mem
      other i again with old' | ⟨rfl,same⟩
    · exact tracks.apart k other i old old'
    · exact absurd same (new k i old)
    · exact absurd rfl (new other i old')
    · rfl

theorem tracks_continued (about : m.item = some (kind,itemId,event)) (going : event ≠ .started)
    (opened : g.phase kind = .opened itemId) (tracks : Tracks g messages) :
    Tracks (g.advance m) (messages ++ [m]) := by
  obtain ⟨phaseHere,phaseOther,started⟩ := advance_item (g := g) about
  rw [if_neg going] at started
  have current := tracks.phase kind
  rw [opened] at current
  obtain ⟨only,deltas,past⟩ := current
  have sameItems : ∀ k, startedItems k (messages ++ [m]) = startedItems k messages := fun k => by
    rw [startedItems_append, startedItems_item about, if_neg fun both => going both.2, append_nil]
  refine ⟨fun k => ?_,fun i some => ?_,fun k i found => ?_,fun k other i => ?_⟩
  · by_cases same : k = kind
    · subst same
      have extended : history itemId (messages ++ [m]) = running deltas ++ [event] := by
        rw [history_append, past, history_item about, if_pos rfl]
      rw [phaseHere, opened]
      cases event with
      | started => exact absurd rfl going
      | delta text =>
        refine ⟨by rw [sameItems, only],deltas ++ [text],?_⟩
        rw [extended, running, running, map_append]
        rfl
      | done => exact ⟨by rw [sameItems, only],deltas,extended⟩
    · rw [phaseOther k same]
      refine phaseTracks_other (fun i found => ?_) ?_ (tracks.phase k)
      · have differs : itemId ≠ i := by
          rintro rfl
          exact same (tracks.apart k kind itemId found (by simp [only]))
        rw [history_item about, if_neg differs]
      · rw [startedItems_item about, if_neg fun both => going both.2]
  · by_cases same : itemId = i
    · exact ⟨kind,by rw [sameItems, only, same]; exact mem_singleton.mpr rfl⟩
    · rw [history_append, history_item about, if_neg same, append_nil] at some
      obtain ⟨k,old⟩ := tracks.mentioned i some
      exact ⟨k,by rwa [sameItems]⟩
  · rw [sameItems] at found
    rw [started]
    exact tracks.known k i found
  · rw [sameItems, sameItems]
    exact tracks.apart k other i

theorem tracks_message (allowed : g.allows m) (tracks : Tracks g messages) :
    Tracks (g.advance m) (messages ++ [m]) := by
  cases about : m.item with
  | none => exact tracks_other about tracks
  | some item =>
    obtain ⟨kind,itemId,event⟩ := item
    have before := allows_item about allowed
    split at before
    · rename_i start
      exact tracks_started (start ▸ about) before.1 before.2 tracks
    · rename_i going
      exact tracks_continued about going before tracks

theorem tracks_wellFormed (tracks : Tracks g messages) : WellFormedTurn messages := by
  have atMostOne : ∀ kind, (startedItems kind messages).length ≤ 1 := by
    intro kind
    have here := tracks.phase kind
    cases phase : g.phase kind with
    | unopened => rw [phase] at here; simp [show startedItems kind messages = [] from here]
    | opened i => rw [phase] at here; simp [here.1]
    | closed i => rw [phase] at here; simp [here.1]
  refine ⟨fun i => ?_,atMostOne .message,atMostOne .reasoning⟩
  by_cases some : history i messages = []
  · exact .inl some
  obtain ⟨kind,found⟩ := tracks.mentioned i some
  have here := tracks.phase kind
  cases phase : g.phase kind with
  | unopened =>
    rw [phase] at here
    rw [show startedItems kind messages = [] from here] at found
    cases found
  | opened j =>
    rw [phase] at here
    obtain ⟨only,deltas,past⟩ := here
    rw [only, mem_singleton] at found
    exact .inr ⟨deltas,.inl (found ▸ past)⟩
  | closed j =>
    rw [phase] at here
    obtain ⟨only,deltas,past⟩ := here
    rw [only, mem_singleton] at found
    exact .inr ⟨deltas,.inr (found ▸ past)⟩

theorem tracks_quiet (tracks : Tracks g messages) (quiet : g.Quiet) : AllDone messages := by
  intro i some
  obtain ⟨kind,found⟩ := tracks.mentioned i some
  have notOpened : ∀ j, g.phase kind ≠ .opened j := by
    cases kind with
    | message => exact quiet.1
    | reasoning => exact quiet.2
  have here := tracks.phase kind
  cases phase : g.phase kind with
  | unopened =>
    rw [phase] at here
    rw [show startedItems kind messages = [] from here] at found
    cases found
  | opened j => exact absurd phase (notOpened j)
  | closed j =>
    rw [phase] at here
    obtain ⟨only,deltas,past⟩ := here
    rw [only, mem_singleton] at found
    exact ⟨deltas,found ▸ past⟩

theorem tracks_exchange {e : Effect} {r : Reply e} (permitted : streaming.permits g e)
    (tracks : Tracks g messages) : Tracks (streaming.record g e r) (messages ++ sent [⟨e,r⟩]) := by
  have idle : ∀ g' : Progress, g'.message = g.message → g'.reasoning = g.reasoning →
    g'.started = g.started →
      Tracks g' (messages ++ []) := by
    intro g' sameMessage sameReasoning sameStarted
    rw [append_nil]
    refine ⟨fun kind => ?_,tracks.mentioned,fun kind i found =>
      sameStarted ▸ tracks.known kind i found,tracks.apart⟩
    have same : g'.phase kind = g.phase kind := by
      cases kind with
      | message => exact sameMessage
      | reasoning => exact sameReasoning
    rw [same]
    exact tracks.phase kind
  cases e with
  | newUuid => exact idle _ rfl rfl rfl
  | sendStorage m =>
    cases r with
    | true => exact tracks_message permitted.1.2.1 tracks
    | false => exact idle _ rfl rfl rfl
  | trySendClient m => exact idle _ rfl rfl rfl
  | _ => exact absurd permitted.2 id

theorem tracks_exchanges (permitted : streaming.Permitted g exchanges)
    (tracks : Tracks g messages) :
    Tracks (streaming.after g exchanges) (messages ++ sent exchanges) := by
  induction exchanges generalizing g messages with
  | nil =>
    rw [show sent [] = [] from rfl, append_nil]
    exact tracks
  | cons exchange rest ih =>
    have step := ih permitted.2 (tracks_exchange permitted.1 tracks)
    have split : sent (exchange :: rest) = sent [exchange] ++ sent rest :=
      filterMap_append (l := [exchange])
    rw [split, ← append_assoc]
    exact step

theorem honoured_of_distinct {C : Contract Effect Reply Progress}
    (replies : C.replies = Progress.replies) (record : C.record = Progress.record)
    (distinct : (drawn exchanges).Nodup) (fresh : ∀ i ∈ drawn exchanges, i ∉ g.issued) :
    C.Honoured g exchanges := by
  induction exchanges generalizing g with
  | nil => trivial
  | cons exchange rest ih =>
    obtain ⟨e,r⟩ := exchange
    have goesOn : (drawn rest).Nodup → (∀ i ∈ drawn rest, i ∉ (g.record e r).issued) →
        C.Honoured (C.record g e r) rest := fun distinct fresh => by
      rw [record]
      exact ih distinct fresh
    unfold Contract.Honoured
    rw [replies]
    cases e with
    | newUuid =>
      obtain ⟨once,distinct⟩ := nodup_cons.mp (show (r :: drawn rest).Nodup from distinct)
      refine ⟨fresh r mem_cons_self,goesOn distinct ?_⟩
      intro i mem issued
      rcases mem_cons.mp issued with rfl | old
      · exact once mem
      · exact fresh i (mem_cons_of_mem _ mem) old
    | sendStorage m =>
      refine ⟨trivial,goesOn distinct ?_⟩
      have same : (g.record (.sendStorage m) r).issued = g.issued := by
        cases r <;> cases m <;> rfl
      rw [same]
      exact fresh
    | outOfTurns => cases r
    | _ => exact ⟨trivial,goesOn distinct fresh⟩

/-- In every run of a turn, finished or not, each item starts once before its
    deltas and ends at most once after them, and there is at most one message
    and one reasoning item. A turn that finished has ended every item, and it
    asks for a tool only when tools are enabled. -/
theorem assistant_turn_wellFormed (parseJson : Text → Option Json) (prompt : List Json)
    (toolsEnabled : Bool) (nextMessageId : Option Uuid) {exchanges : Exchanges Effect Reply}
    {rest : Task Effect Reply (Outcome ApiError (AssistantTurnOutcome × Option Uuid))}
    (run : Reaches (streamOneAssistantTurn parseJson prompt toolsEnabled nextMessageId).run
      exchanges rest)
    (distinct : (nextMessageId.toList ++ drawn exchanges).Nodup) :
    WellFormedTurn (sent exchanges) ∧
      ∀ outcome unused, rest = .done (.ok (outcome,unused)) →
        AllDone (sent exchanges) ∧ ∀ call, outcome = .toolCall call → toolsEnabled = true := by
  obtain ⟨-,distinctDrawn,fresh⟩ := nodup_append.mp distinct
  -- the ghost state a turn on its own starts from, once it has asked for its completion
  let start : Progress := ⟨nextMessageId.toList,[],.unopened,.unopened,.idle,false,false,false⟩
  have started : InTurn toolsEnabled { nextMessageId } start :=
    { ended := rfl
      told := rfl
      tool := rfl
      started := nil_subset _
      unused := fun i reserved => ⟨Option.mem_toList.mpr reserved,not_mem_nil⟩
      speaking := nofun
      silent := fun _ => .inl rfl
      reasoning := rfl
      calls := fun some => absurd rfl some
      enabled := nofun }
  have finish : ∀ (later : Exchanges Effect Reply) (chunks : List CompletionChunk),
      sent exchanges = sent later → drawn exchanges = drawn later →
      Reaches (streamChunks parseJson toolsEnabled { nextMessageId } chunks).run later rest →
      WellFormedTurn (sent exchanges) ∧ ∀ outcome unused, rest = .done (.ok (outcome,unused)) →
        AllDone (sent exchanges) ∧ ∀ call, outcome = .toolCall call → toolsEnabled = true := by
    intro later chunks sameSent sameDrawn run
    rw [sameDrawn] at distinctDrawn fresh
    have honoured : streaming.Honoured start later :=
      honoured_of_distinct rfl rfl distinctDrawn fun i found issued => fresh i issued i found rfl
    obtain ⟨permitted,ends⟩ :=
      streaming.reaches_permitted run (streamChunks_spec parseJson chunks started) honoured
    have tracks := tracks_exchanges permitted (tracks_nothing rfl rfl)
    rw [sameSent]
    refine ⟨tracks_wellFormed tracks,?_⟩
    rintro outcome unused rfl
    cases outcome with
    | final => exact ⟨tracks_quiet tracks ends.1,nofun⟩
    | toolCall call => exact ⟨tracks_quiet tracks ends.2.quiet,fun _ _ => ends.1⟩
  have silent : WellFormedTurn [] := tracks_wellFormed (tracks_nothing (g := start) rfl rfl)
  cases run with
  | here => exact ⟨silent,nofun⟩
  | @asked _ _ completion later _ run =>
    cases completion with
    | ok chunks => exact finish later chunks rfl rfl run
    | error e =>
      cases run with
      | here => exact ⟨silent,nofun⟩

end

/-- A plain environment: ids in order, the completions given, every send and tool successful. -/
def plainAnswers (state : Nat × List (List CompletionChunk)) :
    (e : Effect) → Option (Reply e × Nat × List (List CompletionChunk))
  | .newUuid => some (numberedId state.1,state.1 + 1,state.2)
  | .getChatCompletion _ _ =>
    match state.2 with
    | chunks :: later => some (.ok chunks,state.1,later)
    | [] => none
  | .sendStorage _ | .trySendClient _ | .sendClient _ => some (true,state)
  | .executeTool _ _ => some ("found",state)
  | .awaitToolAck _ => some (.received true,state)
  | .rebuildPrompt => some (.ok [],state)
  | .awaitCancellation | .outOfTurns => none

def deltaChunk (fields : List (Text × Json)) : CompletionChunk :=
  .streamChunk (.obj [("choices",.arr [.obj [("delta",.obj fields)]])])

def toolTurnChunks : List CompletionChunk :=
  [deltaChunk [("reasoning",.str "plan")],deltaChunk [("content",.str "Looking")],
    deltaChunk [("tool_calls",.arr [.obj [("function",.obj
      [("name",.str "web_search"),("arguments",.str "{}")])]])],.done]

def toolTurn :
    Exchanges Effect Reply × Task Effect Reply
      (Outcome ApiError (AssistantTurnOutcome × Option Uuid)) :=
  (streamOneAssistantTurn (fun _ => none) [] true (some (numberedId 0))).run.serve
    plainAnswers (1,[toolTurnChunks])

theorem tool_turn_ends_every_item :
    (sent toolTurn.1).length = 6 ∧ WellFormedTurn (sent toolTurn.1) ∧
      AllDone (sent toolTurn.1) := by
  have checked := assistant_turn_wellFormed (fun _ => none) [] true (some (numberedId 0))
    (reaches_serve plainAnswers _ (1,[toolTurnChunks])) (by decide +kernel)
  exact ⟨by decide +kernel,checked.1,(checked.2 _ _ rfl).1⟩

end OpenSecret.Responses
