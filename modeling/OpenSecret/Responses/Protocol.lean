import OpenSecret.Responses.Orchestrator

/-!
The protocol the orchestrator keeps towards the storage task and the client.
A ghost record follows the items of the current turn, the tool call in flight
and the terminal message; the orchestrator is verified against it once, and
everything downstream rests on what the protocol allows.
-/
namespace OpenSecret.Responses
open Framing Effects List

inductive ItemPhase where
  | unopened
  | opened (itemId : Uuid)
  | closed (itemId : Uuid)
  deriving DecidableEq

inductive ToolPhase where
  | idle
  | called (toolCallId : Uuid)
  | answered (toolCallId : Uuid)
  | refused
  deriving DecidableEq

/-- `issued` are the ids drawn so far, `started` those that name an item. The
    flags: storage was handed a terminal message, the client was offered one,
    and the storage channel was found closed. -/
structure Progress where
  issued : List Uuid
  started : List Uuid
  message : ItemPhase
  reasoning : ItemPhase
  tool : ToolPhase
  ended : Bool
  told : Bool
  closed : Bool

namespace Progress

def unused (g : Progress) (itemId : Uuid) : Prop := itemId ∈ g.issued ∧ itemId ∉ g.started

def Quiet (g : Progress) : Prop := (∀ i, g.message ≠ .opened i) ∧ ∀ i, g.reasoning ≠ .opened i

def allows (g : Progress) : StorageMessage → Prop
  | .messageStarted itemId => g.message = .unopened ∧ g.unused itemId
  | .contentDelta itemId _ | .messageDone itemId _ => g.message = .opened itemId
  | .reasoningStarted itemId => g.reasoning = .unopened ∧ g.unused itemId
  | .reasoningDelta itemId _ | .reasoningDone itemId => g.reasoning = .opened itemId
  | .usage _ _ | .error _ => True
  | .responseDone _ => g.Quiet
  | .cancelled => False
  | .toolCall toolCallId _ _ => g.tool = .idle ∧ g.Quiet ∧ g.unused toolCallId
  | .toolOutput toolOutputId toolCallId _ =>
    g.tool = .called toolCallId ∧ g.Quiet ∧ g.unused toolOutputId

def advance (g : Progress) : StorageMessage → Progress
  | .messageStarted itemId => { g with message := .opened itemId, started := itemId :: g.started }
  | .messageDone itemId _ => { g with message := .closed itemId }
  | .reasoningStarted itemId =>
    { g with reasoning := .opened itemId, started := itemId :: g.started }
  | .reasoningDone itemId => { g with reasoning := .closed itemId }
  | .toolCall toolCallId _ _ =>
    { g with tool := .called toolCallId, started := toolCallId :: g.started }
  | .toolOutput toolOutputId toolCallId _ =>
    { g with tool := .answered toolCallId, started := toolOutputId :: g.started }
  | .responseDone _ | .error _ | .cancelled => { g with ended := true }
  | .contentDelta _ _ | .reasoningDelta _ _ | .usage _ _ => g

def tell (g : Progress) (message : StorageMessage) : Progress :=
  { g with told := g.told || message.isTerminal }

/-- Handed to storage, then offered to the client. -/
def relay (g : Progress) (message : StorageMessage) : Progress := (g.advance message).tell message

theorem relay_told {g : Progress} {m : StorageMessage} (told : g.told = false)
    (goesOn : m.isTerminal = false) :
    (g.relay m).told = false := by
  cases m <;> first | exact Bool.or_eq_false_iff.mpr ⟨told,rfl⟩ | cases goesOn

/-- Once the client was offered a terminal message nothing more is asked for,
    unless the storage channel was found closed. -/
def permits (g : Progress) (e : Effect) : Prop :=
  (g.told = false ∨ g.closed = true) ∧
  match e with
  | .newUuid | .trySendClient _ => True
  | .getChatCompletion _ _ => g.tool = .idle ∧ g.Quiet ∧ g.ended = false
  | .sendStorage message => g.allows message ∧ g.ended = false
  | .sendClient _ => g.closed = true
  | .executeTool _ _ => ∃ toolCallId, g.tool = .called toolCallId
  | .awaitToolAck toolCallId => g.tool = .answered toolCallId
  | .rebuildPrompt => g.tool = .idle
  | .awaitCancellation | .outOfTurns => False

/-- The one thing assumed of the environment: an id is never drawn twice. -/
def replies (g : Progress) : (e : Effect) → Reply e → Prop
  | .newUuid, itemId => itemId ∉ g.issued
  | _, _ => True

def record (g : Progress) : (e : Effect) → Reply e → Progress
  | .newUuid, itemId => { g with issued := itemId :: g.issued }
  | .getChatCompletion _ _, _ => { g with message := .unopened, reasoning := .unopened }
  | .sendStorage message, sent => if sent then g.advance message else { g with closed := true }
  | .trySendClient message, _ => g.tell message
  | .sendClient message, _ => g.tell message
  | .awaitToolAck _, wait => { g with tool := if wait = .received true then .idle else .refused }
  | .executeTool _ _, _ | .rebuildPrompt, _ | .awaitCancellation, _ => g

end Progress

def orchestration :
    Contract Effect Reply Progress := ⟨Progress.permits,Progress.replies,Progress.record⟩

def Effect.OfTurn : Effect → Prop
  | .newUuid | .trySendClient _ => True
  | .sendStorage message => message.isTool = false
  | _ => False

def streaming : Contract Effect Reply Progress := orchestration.restrict Effect.OfTurn

/-- After a failure the error can still be reported. -/
def Failed (e : Fault ApiError) (g : Progress) : Prop :=
  e ≠ .panicked ∧ g.ended = false ∧ (g.told = false ∨ g.closed = true)

section
variable {g : Progress}

variable {α : Type} {m : StorageMessage}

theorem internalError_spec (C : Contract Effect Reply Progress) {post : α → Progress → Prop}
    (ended : g.ended = false) (told : g.told = false ∨ g.closed = true) :
    C.Ensures internalError post Failed g :=
  C.ensures_throw ⟨nofun,ended,told⟩

theorem orThrow_spec (C : Contract Effect Reply Progress) {x : Except ApiError α}
    (ended : g.ended = false) (told : g.told = false) :
    C.Ensures (orThrow x) (fun _ g' => g' = g) Failed g := by
  cases x with
  | ok a => exact C.ensures_pure rfl
  | error e => exact C.ensures_throw ⟨nofun,ended,.inl told⟩

theorem sendStorageMessage_spec (allowed : g.allows m) (ofTurn : m.isTool = false)
    (ended : g.ended = false) (told : g.told = false) :
    streaming.Ensures (sendStorageMessage m) (fun _ g' => g' = g.relay m) Failed g := by
  refine streaming.ensures_ask ⟨⟨.inl told,allowed,ended⟩,ofTurn⟩ ?_
  intro sent _
  have untold : (g.advance m).told = false := by cases m <;> exact told
  cases sent with
  | true =>
    exact streaming.ensures_ask ⟨⟨.inl untold,trivial⟩,trivial⟩ fun _ _ =>
      streaming.ensures_pure rfl
  | false => exact internalError_spec _ ended (.inr rfl)

def ReasoningState.Shows : ReasoningState → ItemPhase → Prop
  | .notStarted, phase => phase = .unopened
  | .active itemId, phase => phase = .opened itemId
  | .done, phase => ∃ itemId, phase = .closed itemId

theorem ReasoningState.Shows.not_opened {r : ReasoningState} {phase : ItemPhase}
    (shows : r.Shows phase) (inactive : ∀ i, r ≠ .active i) (i : Uuid) : phase ≠ .opened i := by
  rintro rfl
  cases r with
  | notStarted => cases shows
  | active j => exact inactive j rfl
  | done => obtain ⟨j,same⟩ := shows; cases same

/-- How the variables of a turn describe the items of the turn. -/
structure InTurn (toolsEnabled : Bool) (t : Turn) (g : Progress) : Prop where
  ended : g.ended = false
  told : g.told = false
  tool : g.tool = .idle
  started : g.started ⊆ g.issued
  unused : ∀ itemId ∈ t.nextMessageId, g.unused itemId
  speaking : ∀ itemId, t.currentMessageId = some itemId →
    g.message = .opened itemId ∧ t.sawToolCalls = false
  silent : t.currentMessageId = none →
    g.message = .unopened ∨ t.sawToolCalls = true ∧ ∃ itemId, g.message = .closed itemId
  reasoning : t.reasoning.Shows g.reasoning
  calls : t.streamedToolCalls ≠ [] → t.sawToolCalls = true
  enabled : t.sawToolCalls = true → toolsEnabled = true

variable {toolsEnabled : Bool} {t : Turn} {itemId : Uuid}

namespace InTurn
variable (inTurn : InTurn toolsEnabled t g)
include inTurn

theorem issue : InTurn toolsEnabled t { g with issued := itemId :: g.issued } :=
  { inTurn with
    started := fun _ mem => mem_cons_of_mem _ (inTurn.started mem)
    unused := fun i h => ⟨mem_cons_of_mem _ (inTurn.unused i h).1,(inTurn.unused i h).2⟩ }

theorem startReasoning (drawn : itemId ∈ g.issued) (spare : ∀ i ∈ t.nextMessageId, i ≠ itemId) :
    InTurn toolsEnabled { t with reasoning := .active itemId }
      (g.relay (.reasoningStarted itemId)) :=
  { inTurn with
    told := Progress.relay_told inTurn.told rfl
    started := cons_subset.mpr ⟨drawn,inTurn.started⟩
    unused := fun i h =>
      ⟨(inTurn.unused i h).1,not_mem_cons_of_ne_of_not_mem (spare i h) (inTurn.unused i h).2⟩
    reasoning := rfl }

theorem finishReasoning :
    InTurn toolsEnabled { t with reasoning := .done } (g.relay (.reasoningDone itemId)) :=
  { inTurn with
    told := Progress.relay_told inTurn.told rfl
    reasoning := ⟨itemId,rfl⟩ }

theorem finishMessage (enabled : toolsEnabled = true) :
    InTurn toolsEnabled { t with currentMessageId := none, sawToolCalls := true }
      (g.relay (.messageDone itemId finishedByToolCalls)) :=
  { inTurn with
    told := Progress.relay_told inTurn.told rfl
    speaking := nofun
    silent := fun _ => .inr ⟨rfl,itemId,rfl⟩
    calls := fun _ => rfl
    enabled := fun _ => enabled }

theorem startMessage (noCalls : t.sawToolCalls = false) (drawn : itemId ∈ g.issued) :
    InTurn toolsEnabled { t with currentMessageId := some itemId, nextMessageId := none }
      (g.relay (.messageStarted itemId)) :=
  { inTurn with
    told := Progress.relay_told inTurn.told rfl
    started := cons_subset.mpr ⟨drawn,inTurn.started⟩
    unused := nofun
    speaking := by rintro i ⟨⟩; exact ⟨rfl,noCalls⟩
    silent := nofun }

theorem relays {m : StorageMessage} (still : g.advance m = g)
    (goesOn : m.isTerminal = false) : InTurn toolsEnabled t (g.relay m) := by
  have same : g.relay m = g := by
    rw [Progress.relay, still, Progress.tell, goesOn, Bool.or_false]
  rwa [same]

end InTurn

/-- Closing the reasoning item keeps the invariant of any turn that has the same one. -/
theorem closeReasoningIfActive_spec (toolsEnabled : Bool) (ended : g.ended = false)
    (told : g.told = false) (shows : t.reasoning.Shows g.reasoning) :
    streaming.Ensures (closeReasoningIfActive t)
      (fun t' g' => ∃ r, t' = { t with reasoning := r } ∧ (∀ i, r ≠ .active i) ∧
        ∀ u : Turn, u.reasoning = t.reasoning → InTurn toolsEnabled u g →
          InTurn toolsEnabled { u with reasoning := r } g') Failed g := by
  unfold closeReasoningIfActive
  split
  · rename_i itemId active
    rw [active] at shows
    refine streaming.ensures_bind (sendStorageMessage_spec shows rfl ended told) ?_
    rintro _ g' rfl
    exact streaming.ensures_pure ⟨.done,rfl,nofun,fun u _ inTurn => inTurn.finishReasoning⟩
  · rename_i inactive
    refine streaming.ensures_pure ⟨t.reasoning,rfl,inactive,?_⟩
    intro u same inTurn
    rwa [← same]

/-- Between two turns: no item is open and no tool call is in flight. -/
structure Between (nextMessageId : Option Uuid) (g : Progress) : Prop where
  ended : g.ended = false
  told : g.told = false
  tool : g.tool = .idle
  quiet : g.Quiet
  started : g.started ⊆ g.issued
  unused : ∀ itemId ∈ nextMessageId, g.unused itemId

/-- What a turn leaves behind: a tool call to execute, or a told client. -/
def TurnEnds (toolsEnabled : Bool) (result : AssistantTurnOutcome × Option Uuid) (g : Progress) :
    Prop :=
  match result.1 with
  | .final => g.Quiet ∧ g.told = true
  | .toolCall _ => toolsEnabled = true ∧ Between result.2 g

section
variable (inTurn : InTurn toolsEnabled t g)
include inTurn

theorem nextAssistantMessageId_spec :
    streaming.Ensures (nextAssistantMessageId t.nextMessageId)
      (fun i g' => InTurn toolsEnabled t g' ∧ g'.unused i) Failed g := by
  cases reserved : t.nextMessageId with
  | some i => exact streaming.ensures_pure ⟨inTurn,inTurn.unused i reserved⟩
  | none =>
    refine streaming.ensures_perform ⟨⟨.inl inTurn.told,trivial⟩,trivial⟩ ?_
    intro i fresh
    exact ⟨inTurn.issue,mem_cons_self,fun used => fresh (inTurn.started used)⟩

theorem ensureMessageStarted_spec (noCalls : t.sawToolCalls = false) :
    streaming.Ensures (ensureMessageStarted t)
      (fun result g' => InTurn toolsEnabled result.2 g' ∧
        result.2.currentMessageId = some result.1 ∧
        result.2.reasoning = t.reasoning) Failed g := by
  unfold ensureMessageStarted
  split
  · rename_i i current
    exact streaming.ensures_pure ⟨inTurn,current,rfl⟩
  · rename_i absent
    refine streaming.ensures_bind (nextAssistantMessageId_spec inTurn) ?_
    rintro i g₁ ⟨inTurn₁,unused⟩
    have unopened : g₁.message = .unopened := by
      rcases inTurn₁.silent absent with unopened | ⟨saw,_⟩
      · exact unopened
      · rw [noCalls] at saw; cases saw
    refine streaming.ensures_bind
      (sendStorageMessage_spec ⟨unopened,unused⟩ rfl inTurn₁.ended inTurn₁.told) ?_
    rintro _ g₂ rfl
    exact streaming.ensures_pure ⟨inTurn₁.startMessage noCalls unused.1,rfl,rfl⟩

theorem onReasoning_spec (delta : Option Json) :
    streaming.Ensures (onReasoning delta t) (InTurn toolsEnabled) Failed g := by
  unfold onReasoning
  split
  · exact streaming.ensures_pure inTurn
  rename_i text _
  have shows := inTurn.reasoning
  split
  · exact streaming.ensures_pure inTurn
  · rename_i notStarted
    rw [notStarted] at shows
    refine streaming.ensures_ask ⟨⟨.inl inTurn.told,trivial⟩,trivial⟩ ?_
    intro i fresh
    have unused : ({ g with issued := i :: g.issued } : Progress).unused i :=
      ⟨mem_cons_self,fun used => fresh (inTurn.started used)⟩
    refine streaming.ensures_bind
      (sendStorageMessage_spec ⟨shows,unused⟩ rfl inTurn.ended inTurn.told) ?_
    rintro _ g₁ rfl
    have started := inTurn.issue.startReasoning unused.1 fun j reserved same =>
      fresh (same ▸ (inTurn.unused j reserved).1)
    refine streaming.ensures_bind (sendStorageMessage_spec rfl rfl started.ended started.told) ?_
    rintro _ g₂ rfl
    exact streaming.ensures_pure (started.relays rfl rfl)
  · rename_i i active
    rw [active] at shows
    refine streaming.ensures_bind (sendStorageMessage_spec shows rfl inTurn.ended inTurn.told) ?_
    rintro _ g₁ rfl
    exact streaming.ensures_pure (inTurn.relays rfl rfl)

theorem closeMessage_spec (enabled : toolsEnabled = true) :
    streaming.Ensures (closeMessage t)
      (fun t' g' => t' = { t with currentMessageId := none } ∧ InTurn toolsEnabled
        { t with currentMessageId := none, sawToolCalls := true } g') Failed g := by
  unfold closeMessage
  split
  · rename_i i current
    have allowed := (inTurn.speaking i current).1
    refine streaming.ensures_bind (sendStorageMessage_spec allowed rfl inTurn.ended inTurn.told) ?_
    rintro _ g₁ rfl
    exact streaming.ensures_pure ⟨rfl,inTurn.finishMessage enabled⟩
  · rename_i absent
    have quiet := inTurn.silent absent
    refine streaming.ensures_pure ⟨by rw [← absent],{ inTurn with
      speaking := nofun
      silent := fun _ => quiet.imp_right fun closed => ⟨rfl,closed.2⟩
      calls := fun _ => rfl
      enabled := fun _ => enabled }⟩

theorem onToolCalls_spec (delta : Option Json) :
    streaming.Ensures (onToolCalls toolsEnabled delta t) (InTurn toolsEnabled) Failed g := by
  unfold onToolCalls
  split
  · exact streaming.ensures_pure inTurn
  split
  · rename_i entries _ enabled
    refine streaming.ensures_bind (closeMessage_spec inTurn enabled) ?_
    rintro _ g₁ ⟨rfl,inTurn₁⟩
    refine streaming.ensures_bind
      (closeReasoningIfActive_spec toolsEnabled inTurn₁.ended inTurn₁.told inTurn₁.reasoning) ?_
    rintro _ g₂ ⟨r,rfl,_,keeps⟩
    have kept := keeps { t with currentMessageId := none, sawToolCalls := true } rfl inTurn₁
    exact streaming.ensures_pure { kept with calls := fun _ => rfl }
  · exact streaming.ensures_pure inTurn

theorem onContent_spec (delta : Option Json) :
    streaming.Ensures (onContent delta t) (InTurn toolsEnabled) Failed g := by
  unfold onContent
  split
  · exact streaming.ensures_pure inTurn
  rename_i content _
  split
  · exact streaming.ensures_pure inTurn
  · rename_i noCalls
    refine streaming.ensures_bind
      (closeReasoningIfActive_spec toolsEnabled inTurn.ended inTurn.told inTurn.reasoning) ?_
    rintro _ g₁ ⟨r,rfl,_,keeps⟩
    refine streaming.ensures_bind
      (ensureMessageStarted_spec (keeps t rfl inTurn) (Bool.eq_false_iff.mpr noCalls)) ?_
    rintro ⟨i,t₂⟩ g₂ ⟨inTurn₂,current,_⟩
    have allowed := (inTurn₂.speaking i current).1
    refine streaming.ensures_bind
      (sendStorageMessage_spec allowed rfl inTurn₂.ended inTurn₂.told) ?_
    rintro _ g₃ rfl
    exact streaming.ensures_pure (inTurn₂.relays rfl rfl)

theorem noteFinishReason_inTurn (choice : Option Json) :
    InTurn toolsEnabled (noteFinishReason choice t) g := by
  unfold noteFinishReason
  split
  · split
    · exact inTurn
    · exact { inTurn with }
  · exact inTurn

theorem onStreamChunk_spec (json : Json) :
    streaming.Ensures (onStreamChunk toolsEnabled json t) (InTurn toolsEnabled) Failed g := by
  refine streaming.ensures_bind (onReasoning_spec (noteFinishReason_inTurn inTurn _) _) ?_
  intro t₁ g₁ inTurn₁
  refine streaming.ensures_bind (onToolCalls_spec inTurn₁ _) ?_
  intro t₂ g₂ inTurn₂
  exact onContent_spec inTurn₂ _

theorem onDone_spec (parseJson : Text → Option Json) :
    streaming.Ensures (onDone parseJson toolsEnabled t) (TurnEnds toolsEnabled) Failed g := by
  refine streaming.ensures_bind
    (closeReasoningIfActive_spec toolsEnabled inTurn.ended inTurn.told inTurn.reasoning) ?_
  rintro _ g₁ ⟨r,rfl,inactive,keeps⟩
  have kept := keeps t rfl inTurn
  have noReasoning := kept.reasoning.not_opened inactive
  dsimp only
  split
  · split
    · rename_i call finalized
      have saw : t.sawToolCalls = true := by
        refine inTurn.calls fun empty => ?_
        rw [empty] at finalized
        cases finalized
      have noMessage : ∀ i, g₁.message ≠ .opened i := by
        intro i opened
        cases current : t.currentMessageId with
        | some j =>
          have unseen := (kept.speaking j current).2
          rw [saw] at unseen
          cases unseen
        | none =>
          rcases kept.silent current with unopened | ⟨-,j,closed⟩
          · rw [opened] at unopened; cases unopened
          · rw [opened] at closed; cases closed
      exact streaming.ensures_pure ⟨inTurn.enabled saw,
        { kept with quiet := ⟨noMessage,noReasoning⟩ }⟩
    · exact internalError_spec _ kept.ended (.inl kept.told)
  · rename_i unfinished
    have noCalls : t.sawToolCalls = false := by
      cases saw : t.sawToolCalls with
      | false => rfl
      | true => exact absurd (by simp [assistantTurnFinishedWithToolCall, saw]) unfinished
    refine streaming.ensures_bind (ensureMessageStarted_spec kept noCalls) ?_
    rintro ⟨i,t₂⟩ g₂ ⟨inTurn₂,current,sameReasoning⟩
    have allowed := (inTurn₂.speaking i current).1
    refine streaming.ensures_bind
      (sendStorageMessage_spec allowed rfl inTurn₂.ended inTurn₂.told) ?_
    rintro _ g₃ rfl
    have quiet :
        (g₂.relay
          (.messageDone i (finalAssistantFinishReason toolsEnabled t₂.finishReason))).Quiet := by
      have shows := inTurn₂.reasoning
      rw [sameReasoning] at shows
      exact ⟨nofun,shows.not_opened inactive⟩
    refine streaming.ensures_bind
      (sendStorageMessage_spec quiet rfl inTurn₂.ended (Progress.relay_told inTurn₂.told rfl)) ?_
    rintro _ g₄ rfl
    exact streaming.ensures_pure ⟨quiet,Bool.or_true _⟩

end

theorem streamChunks_spec (parseJson : Text → Option Json) (chunks : List CompletionChunk)
    (inTurn : InTurn toolsEnabled t g) :
    streaming.Ensures (streamChunks parseJson toolsEnabled t chunks)
      (TurnEnds toolsEnabled) Failed g := by
  induction chunks generalizing t g with
  | nil => exact internalError_spec _ inTurn.ended (.inl inTurn.told)
  | cons chunk rest ih =>
    cases chunk with
    | streamChunk json =>
      refine streaming.ensures_bind (onStreamChunk_spec inTurn json) ?_
      intro t₁ g₁ inTurn₁
      exact ih inTurn₁
    | usage usage =>
      refine streaming.ensures_bind
        (sendStorageMessage_spec trivial rfl inTurn.ended inTurn.told) ?_
      rintro _ g₁ rfl
      exact ih (inTurn.relays rfl rfl)
    | done => exact onDone_spec inTurn parseJson
    | error message => exact internalError_spec _ inTurn.ended (.inl inTurn.told)
    | fullResponse json => exact internalError_spec _ inTurn.ended (.inl inTurn.told)

variable {nextMessageId : Option Uuid}

theorem streamOneAssistantTurn_spec (parseJson : Text → Option Json) (prompt : List Json)
    (toolsEnabled : Bool) (between : Between nextMessageId g) :
    orchestration.Ensures (streamOneAssistantTurn parseJson prompt toolsEnabled nextMessageId)
      (TurnEnds toolsEnabled) Failed g := by
  refine orchestration.ensures_ask ⟨.inl between.told,between.tool,between.quiet,between.ended⟩ ?_
  intro completion _
  refine orchestration.ensures_bind (orThrow_spec _ between.ended between.told) ?_
  rintro chunks g₁ rfl
  exact orchestration.meets_of_restrict <| streamChunks_spec parseJson chunks
    { ended := between.ended
      told := between.told
      tool := between.tool
      started := between.started
      unused := between.unused
      speaking := nofun
      silent := fun _ => .inl rfl
      reasoning := rfl
      calls := fun some => absurd rfl some
      enabled := nofun }

theorem enqueueToolMessage_spec (allowed : g.allows m) (ended : g.ended = false)
    (told : g.told = false) :
    orchestration.Ensures (enqueueToolMessage m) (fun _ g' => g' = g.relay m) Failed g := by
  refine orchestration.ensures_ask ⟨.inl told,allowed,ended⟩ ?_
  intro sent _
  have untold : (g.advance m).told = false := by cases m <;> exact told
  cases sent with
  | true =>
    exact orchestration.ensures_ask ⟨.inl untold,trivial⟩ fun _ _ => orchestration.ensures_pure rfl
  | false =>
    refine orchestration.ensures_ask ⟨.inr rfl,rfl⟩ ?_
    intro _ _
    exact internalError_spec _ ended (.inr rfl)

theorem executeToolCallAndWait_spec (provider : WebSearchProvider) (call : ModelToolCall)
    (between : Between nextMessageId g) :
    orchestration.Ensures (executeToolCallAndWait provider call)
      (fun _ g' => Between nextMessageId g') Failed g := by
  refine orchestration.ensures_ask ⟨.inl between.told,trivial⟩ ?_
  intro callId freshCall
  refine orchestration.ensures_ask ⟨.inl between.told,trivial⟩ ?_
  intro outputId freshOutput
  have unusedCall : callId ∉ g.started := fun used => freshCall (between.started used)
  have unusedOutput : outputId ∉ callId :: g.started := fun used =>
    freshOutput (cons_subset_cons callId between.started used)
  refine orchestration.ensures_bind (enqueueToolMessage_spec
    ⟨between.tool,between.quiet,mem_cons_of_mem _ mem_cons_self,unusedCall⟩
    between.ended between.told) ?_
  rintro _ g₁ rfl
  have untold := Bool.or_eq_false_iff.mpr ⟨between.told,rfl⟩
  refine orchestration.ensures_ask ⟨.inl untold,callId,rfl⟩ ?_
  intro output _
  refine orchestration.ensures_bind (enqueueToolMessage_spec
    ⟨rfl,between.quiet,mem_cons_self,unusedOutput⟩ between.ended untold) ?_
  rintro _ g₂ rfl
  have untold := Bool.or_eq_false_iff.mpr ⟨untold,rfl⟩
  refine orchestration.ensures_ask ⟨.inl untold,rfl⟩ ?_
  intro wait _
  unfold acknowledged
  split
  · refine orchestration.ensures_pure
      { ended := between.ended
        told := untold
        tool := rfl
        quiet := between.quiet
        started := cons_subset.mpr ⟨mem_cons_self,cons_subset.mpr
          ⟨mem_cons_of_mem _ mem_cons_self,
            fun _ used => mem_cons_of_mem _ (mem_cons_of_mem _ (between.started used))⟩⟩
        unused := ?_ }
    intro i reserved
    obtain ⟨issued,unused⟩ := between.unused i reserved
    have notCall : i ≠ callId := fun same => freshCall (same ▸ issued)
    have notOutput : i ≠ outputId := fun same => freshOutput (same ▸ mem_cons_of_mem _ issued)
    exact ⟨mem_cons_of_mem _ (mem_cons_of_mem _ issued),
      not_mem_cons_of_ne_of_not_mem notOutput (not_mem_cons_of_ne_of_not_mem notCall unused)⟩
  · exact internalError_spec _ between.ended (.inl untold)

/-- Every tool call was asked for while tools were enabled, so the loop stops
    within its turns and never runs a tool without a provider. -/
theorem assistantLoop_spec (parseJson : Text → Option Json) (provider : Option WebSearchProvider)
    (turns : Nat) {l : Loop} (between : Between l.nextMessageId g)
    (enabled : l.toolsEnabled = true → provider.isSome = true ∧
      l.toolTurnCount < maxWebSearchToolTurns)
    (bounded : l.toolTurnCount ≤ maxWebSearchToolTurns)
    (enough : maxWebSearchToolTurns < turns + l.toolTurnCount) :
    orchestration.Ensures (assistantLoop parseJson provider turns l)
      (fun _ g' => g'.told = true) Failed g := by
  induction turns generalizing l g with
  | zero => omega
  | succ turns ih =>
    refine orchestration.ensures_bind
      (streamOneAssistantTurn_spec parseJson l.prompt l.toolsEnabled between) ?_
    rintro ⟨outcome,next⟩ g₁ ends
    cases outcome with
    | final => exact orchestration.ensures_pure ends.2
    | toolCall call =>
      obtain ⟨toolsOn,between₁⟩ := ends
      obtain ⟨provided,room⟩ := enabled toolsOn
      obtain ⟨known,rfl⟩ := Option.isSome_iff_exists.mp provided
      have expected :
        orchestration.Ensures (expectProvider (some known)) (fun _ g' => g' = g₁) Failed g₁ :=
        orchestration.ensures_pure rfl
      refine orchestration.ensures_bind expected ?_
      rintro provider g₂ rfl
      refine orchestration.ensures_bind (executeToolCallAndWait_spec provider call between₁) ?_
      intro _ g₃ between₃
      refine orchestration.ensures_ask ⟨.inl between₃.told,between₃.tool⟩ ?_
      intro rebuilt _
      refine orchestration.ensures_bind (orThrow_spec _ between₃.ended between₃.told) ?_
      rintro prompt g₄ rfl
      refine ih between₃ ?_ (by simp only; omega) (by simp only; omega)
      intro stillOn
      simpa using stillOn

theorem reportFailure_spec {result : Outcome ApiError Unit}
    (ends : Settles (fun _ g' => g'.told = true) Failed result g) :
    orchestration.Ensures (reportFailure result) (fun _ g' => g'.told = true)
      (fun e g' => e ≠ .panicked ∧ g'.told = true) g := by
  cases result with
  | ok done => exact orchestration.ensures_pure ends
  | error e =>
    cases e with
    | panicked => exact absurd rfl ends.1
    | error e =>
      obtain ⟨-,ended,told⟩ := ends
      refine orchestration.ensures_ask ⟨told,trivial,ended⟩ ?_
      intro sent _
      refine orchestration.ensures_ask ⟨?_,trivial⟩ ?_
      · cases sent with
        | true => exact told
        | false => exact .inr rfl
      · intro _ _
        exact orchestration.ensures_throw ⟨nofun,Bool.or_true _⟩

def Progress.initial (assistantMessageId : Uuid) : Progress :=
  ⟨[assistantMessageId],[],.unopened,.unopened,.idle,false,false,false⟩

theorem setupCompletionProcessor_spec (parseJson : Text → Option Json)
    (provider : Option WebSearchProvider) (prompt : List Json) (assistantMessageId : Uuid) :
    orchestration.Ensures (setupCompletionProcessor parseJson provider prompt assistantMessageId)
      (fun _ g => g.told = true) (fun e g => e ≠ .panicked ∧ g.told = true)
      (.initial assistantMessageId) := by
  have between : Between (some assistantMessageId) (.initial assistantMessageId) :=
    { ended := rfl
      told := rfl
      tool := rfl
      quiet := ⟨nofun,nofun⟩
      started := nil_subset _
      unused := by rintro i ⟨⟩; exact ⟨mem_cons_self,not_mem_nil⟩ }
  refine orchestration.ensures_attempt
    (assistantLoop_spec parseJson provider (maxWebSearchToolTurns + 1)
    between (fun enabled => ⟨enabled,Nat.zero_lt_succ _⟩) (Nat.zero_le _) (Nat.lt_succ_self _)) ?_
  intro result g ends
  exact reportFailure_spec ends

end

end OpenSecret.Responses
