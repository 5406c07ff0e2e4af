import OpenSecret.Responses.Items

/-!
How often the assistant and tool loop goes round. The model provider may ask
for tools whenever it likes; a turn started without tools never reports a call,
and the loop stops offering tools at the limit.
-/
namespace OpenSecret.Responses
open Framing Effects List

namespace Effect

def isTurn : Effect → Bool
  | .getChatCompletion _ _ => true
  | _ => false

def isTool : Effect → Bool
  | .executeTool _ _ => true
  | _ => false

def withoutTools : Effect → Bool
  | .getChatCompletion _ toolsEnabled => !toolsEnabled
  | _ => false

def Relays : Effect → Prop
  | .newUuid | .sendStorage _ | .trySendClient _ => True
  | _ => False

end Effect

structure Tally where
  turns : Nat
  tools : Nat
  withoutTools : Bool

def Tally.of (log : List Effect) : Tally :=
  ⟨log.countP Effect.isTurn,log.countP Effect.isTool,log.any Effect.withoutTools⟩

def metered (provider : Option WebSearchProvider) : Contract Effect Reply Tally where
  permits g
    | .getChatCompletion _ _ => g.turns ≤ g.tools
    | .executeTool _ used =>
      provider = some used ∧ g.tools < maxWebSearchToolTurns ∧ g.withoutTools = false
    | .awaitCancellation | .outOfTurns => False
    | _ => True
  replies _ _ _ := True
  record g e _ := match e with
    | .getChatCompletion _ toolsEnabled => ⟨g.turns + 1,g.tools,g.withoutTools || !toolsEnabled⟩
    | .executeTool _ _ => { g with tools := g.tools + 1 }
    | _ => g

structure Limited (provider : Option WebSearchProvider) (log : List Effect) : Prop where
  tools : log.countP Effect.isTool ≤ maxWebSearchToolTurns
  turns : log.countP Effect.isTurn ≤ log.countP Effect.isTool + 1
  provided : ∀ call used, .executeTool call used ∈ log → provider = some used
  disabled : log.Pairwise fun earlier later => earlier.withoutTools = true → later.isTool = false
  enough : .outOfTurns ∉ log

theorem limited_request {provider : Option WebSearchProvider} {log : List Effect} {e : Effect}
    (limited : Limited provider log) (permitted : (metered provider).permits (.of log) e) :
    Limited provider (log ++ [e]) := by
  obtain ⟨tools,turns,provided,disabled,enough⟩ := limited
  have noTool : e.isTool = true → (Tally.of log).tools < maxWebSearchToolTurns ∧
      ∀ x ∈ log, x.withoutTools = false := by
    intro tool
    cases e <;> cases tool
    exact ⟨permitted.2.1,by simpa [Tally.of] using permitted.2.2⟩
  have inTurn : e.isTurn = true → (Tally.of log).turns ≤ (Tally.of log).tools := by
    intro turn
    cases e <;> cases turn
    exact permitted
  simp only [Tally.of] at noTool inTurn
  constructor
  · rw [countP_append, countP_singleton]
    split
    · have := (noTool ‹_›).1; omega
    · omega
  · simp only [countP_append, countP_singleton]
    split
    · have := inTurn ‹_›; omega
    · omega
  · intro call used mem
    rcases mem_snoc.mp mem with old | rfl
    · exact provided call used old
    · exact permitted.1
  · refine pairwise_append.mpr ⟨disabled,pairwise_singleton _ _,?_⟩
    intro earlier before later last off
    rw [mem_singleton.mp last]
    cases tool : e.isTool with
    | false => rfl
    | true => rw [(noTool tool).2 earlier before] at off; cases off
  · intro mem
    rcases mem_snoc.mp mem with old | rfl
    · exact enough old
    · exact permitted

theorem record_of (provider : Option WebSearchProvider) (log : List Effect) (e : Effect)
    (r : Reply e) :
    (metered provider).record (.of log) e r = .of (log ++ [e]) := by
  cases e <;> simp [metered, Tally.of, Effect.isTurn, Effect.isTool, Effect.withoutTools]

section

/-- The loop fails, but the task does not panic. -/
def Fails (e : Fault ApiError) : Prop := e ≠ .panicked

def relaying : Contract Effect Reply Unit := Contract.only Effect.Relays

def Relaying {α : Type} (x : Orchestrated α) (post : α → Prop) : Prop :=
  relaying.Ensures x (fun a _ => post a) (fun e _ => Fails e) ()

variable {α : Type} {x : Orchestrated α} {post : α → Prop}

theorem relaying_bind {β : Type} {f : α → Orchestrated β} {mid : α → Prop}
    {post : β → Prop} (first : Relaying x mid) (rest : ∀ a, mid a → Relaying (f a) post) :
    Relaying (x >>= f) post :=
  relaying.ensures_bind first fun a _ holds => rest a holds

theorem relaying_pure {a : α} (holds : post a) :
    Relaying (pure a) post :=
  holds

theorem relaying_internalError : Relaying internalError post :=
  relaying.ensures_throw (show Fails _ from nofun)

theorem relaying_sendStorageMessage (m : StorageMessage) :
    Relaying (sendStorageMessage m) fun _ => True := by
  refine relaying.ensures_ask trivial ?_
  intro sent _
  cases sent with
  | true => exact relaying.ensures_ask trivial fun _ _ => relaying_pure trivial
  | false => exact relaying_internalError

variable {toolsEnabled : Bool} {t : Turn}

def Turn.Heeds (toolsEnabled : Bool) (t : Turn) :
    Prop := t.sawToolCalls = true → toolsEnabled = true

/-- A turn reports a tool call only if it was started with tools enabled. -/
def CallsIfEnabled (toolsEnabled : Bool) (result : AssistantTurnOutcome × Option Uuid) : Prop :=
  ∀ call, result.1 = .toolCall call → toolsEnabled = true

section
variable (heeds : t.Heeds toolsEnabled)
include heeds

theorem relaying_closeReasoningIfActive :
    Relaying (closeReasoningIfActive t) (Turn.Heeds toolsEnabled) := by
  unfold closeReasoningIfActive
  split
  · exact relaying_bind (relaying_sendStorageMessage _) fun _ _ => relaying_pure heeds
  · exact relaying_pure heeds

theorem relaying_ensureMessageStarted :
    Relaying (ensureMessageStarted t) fun started => started.2.Heeds toolsEnabled := by
  have drawn : Relaying (nextAssistantMessageId t.nextMessageId) fun _ => True := by
    cases t.nextMessageId with
    | some itemId => exact relaying_pure trivial
    | none => exact relaying.ensures_perform trivial fun _ _ => trivial
  unfold ensureMessageStarted
  split
  · exact relaying_pure heeds
  · refine relaying_bind drawn fun _ _ => ?_
    exact relaying_bind (relaying_sendStorageMessage _) fun _ _ => relaying_pure heeds

theorem relaying_onReasoning (delta : Option Json) :
    Relaying (onReasoning delta t) (Turn.Heeds toolsEnabled) := by
  unfold onReasoning
  split
  · exact relaying_pure heeds
  split
  · exact relaying_pure heeds
  · refine relaying.ensures_ask trivial fun _ _ => ?_
    refine relaying_bind (relaying_sendStorageMessage _) fun _ _ => ?_
    exact relaying_bind (relaying_sendStorageMessage _) fun _ _ => relaying_pure heeds
  · exact relaying_bind (relaying_sendStorageMessage _) fun _ _ => relaying_pure heeds

theorem relaying_closeMessage :
    Relaying (closeMessage t) (Turn.Heeds toolsEnabled) := by
  unfold closeMessage
  split
  · exact relaying_bind (relaying_sendStorageMessage _) fun _ _ => relaying_pure heeds
  · exact relaying_pure heeds

theorem relaying_onToolCalls (delta : Option Json) :
    Relaying (onToolCalls toolsEnabled delta t) (Turn.Heeds toolsEnabled) := by
  unfold onToolCalls
  split
  · exact relaying_pure heeds
  split
  · rename_i enabled
    refine relaying_bind (relaying_closeMessage heeds) fun t₁ heeds₁ => ?_
    exact relaying_bind (relaying_closeReasoningIfActive heeds₁) fun _ _ =>
      relaying_pure fun _ => enabled
  · exact relaying_pure heeds

theorem relaying_onContent (delta : Option Json) :
    Relaying (onContent delta t) (Turn.Heeds toolsEnabled) := by
  unfold onContent
  split
  · exact relaying_pure heeds
  split
  · exact relaying_pure heeds
  · refine relaying_bind (relaying_closeReasoningIfActive heeds) fun t₁ heeds₁ => ?_
    refine relaying_bind (relaying_ensureMessageStarted heeds₁) fun started heeds₂ => ?_
    exact relaying_bind (relaying_sendStorageMessage _) fun _ _ => relaying_pure heeds₂

theorem relaying_onStreamChunk (json : Json) :
    Relaying (onStreamChunk toolsEnabled json t) (Turn.Heeds toolsEnabled) := by
  have noted : ∀ choice, (noteFinishReason choice t).Heeds toolsEnabled := by
    intro choice
    unfold noteFinishReason
    split
    · split <;> exact heeds
    · exact heeds
  refine relaying_bind (relaying_onReasoning (noted _) _) fun t₁ heeds₁ => ?_
  refine relaying_bind (relaying_onToolCalls heeds₁ _) fun t₂ heeds₂ => ?_
  exact relaying_onContent heeds₂ _

theorem relaying_onDone (parseJson : Text → Option Json) :
    Relaying (onDone parseJson toolsEnabled t) (CallsIfEnabled toolsEnabled) := by
  refine relaying_bind (relaying_closeReasoningIfActive heeds) fun t₁ heeds₁ => ?_
  dsimp only
  split
  · rename_i finished
    have enabled : toolsEnabled = true := by
      rcases Bool.or_eq_true_iff.mp finished with saw | reason
      · exact heeds₁ saw
      · exact (Bool.and_eq_true_iff.mp reason).1
    split
    · exact relaying_pure fun _ _ => enabled
    · exact relaying_internalError
  · refine relaying_bind (relaying_ensureMessageStarted heeds₁) fun started _ => ?_
    refine relaying_bind (relaying_sendStorageMessage _) fun _ _ => ?_
    refine relaying_bind (relaying_sendStorageMessage _) fun _ _ => ?_
    exact relaying_pure nofun

end

theorem relaying_streamChunks (parseJson : Text → Option Json) (chunks : List CompletionChunk)
    (heeds : t.Heeds toolsEnabled) :
    Relaying (streamChunks parseJson toolsEnabled t chunks) (CallsIfEnabled toolsEnabled) := by
  induction chunks generalizing t with
  | nil => exact relaying_internalError
  | cons chunk rest ih =>
    cases chunk with
    | streamChunk json =>
      exact relaying_bind (relaying_onStreamChunk heeds json) fun t₁ heeds₁ => ih heeds₁
    | usage usage => exact relaying_bind (relaying_sendStorageMessage _) fun _ _ => ih heeds
    | done => exact relaying_onDone heeds parseJson
    | error message => exact relaying_internalError
    | fullResponse json => exact relaying_internalError

variable {provider : Option WebSearchProvider} {g : Tally}

theorem metered_relaying (relays : Relaying x post) :
    (metered provider).Ensures x (fun a g' => post a ∧ g' = g) (fun e _ => Fails e) g := by
  have settled :
    relaying.Meets (fun result _ => Settles (fun a _ => post a) (fun e _ => Fails e) result ())
      x.run () := relays
  refine (metered provider).meets_mono ?_ ((metered provider).meets_of_only ?_ ?_ settled)
  · rintro (e | a) g' ⟨holds,same⟩
    · exact holds
    · exact ⟨holds,same⟩
  · intro e relays
    cases e <;> trivial
  · intro e r relays
    cases e <;> first | rfl | exact relays.elim

theorem streamOneAssistantTurn_metered (parseJson : Text → Option Json) (prompt : List Json)
    (nextMessageId : Option Uuid) (room : g.turns ≤ g.tools) :
    (metered provider).Ensures (streamOneAssistantTurn parseJson prompt toolsEnabled nextMessageId)
      (fun result g' => CallsIfEnabled toolsEnabled result ∧
        g' = ⟨g.turns + 1,g.tools,g.withoutTools || !toolsEnabled⟩) (fun e _ => Fails e) g := by
  refine (metered provider).ensures_ask room ?_
  intro completion _
  cases completion with
  | ok chunks => exact metered_relaying (relaying_streamChunks parseJson chunks nofun)
  | error e => exact (metered provider).ensures_throw (show Fails _ from nofun)

theorem enqueueToolMessage_metered (m : StorageMessage) :
    (metered provider).Ensures (enqueueToolMessage m) (fun _ g' => g' = g)
      (fun e _ => Fails e) g := by
  refine (metered provider).ensures_ask trivial ?_
  intro sent _
  cases sent with
  | true =>
    exact (metered provider).ensures_ask trivial fun _ _ => (metered provider).ensures_pure rfl
  | false =>
    refine (metered provider).ensures_ask trivial fun _ _ => ?_
    exact (metered provider).ensures_throw (show Fails _ from nofun)

theorem executeToolCallAndWait_metered {used : WebSearchProvider} (call : ModelToolCall)
    (provided : provider = some used) (room : g.tools < maxWebSearchToolTurns)
    (enabled : g.withoutTools = false) :
    (metered provider).Ensures (executeToolCallAndWait used call)
      (fun _ g' => g' = { g with tools := g.tools + 1 }) (fun e _ => Fails e) g := by
  refine (metered provider).ensures_ask trivial fun callId _ => ?_
  refine (metered provider).ensures_ask trivial fun outputId _ => ?_
  refine (metered provider).ensures_bind (enqueueToolMessage_metered _) ?_
  rintro _ _ rfl
  refine (metered provider).ensures_ask ⟨provided,room,enabled⟩ fun output _ => ?_
  refine (metered provider).ensures_bind (enqueueToolMessage_metered _) ?_
  rintro _ _ rfl
  refine (metered provider).ensures_ask trivial fun wait _ => ?_
  unfold acknowledged
  split
  · exact (metered provider).ensures_pure rfl
  · exact (metered provider).ensures_throw (show Fails _ from nofun)

/-- The loop goes round only after a tool call, so every turn before this one
    executed a tool, with tools enabled. -/
theorem assistantLoop_metered (parseJson : Text → Option Json) (turns : Nat) {l : Loop}
    (enabled : l.toolsEnabled = true → provider.isSome = true ∧
      l.toolTurnCount < maxWebSearchToolTurns)
    (enough : maxWebSearchToolTurns < turns + l.toolTurnCount)
    (bounded : l.toolTurnCount ≤ maxWebSearchToolTurns) :
    (metered provider).Ensures (assistantLoop parseJson provider turns l) (fun _ _ => True)
      (fun e _ => Fails e) ⟨l.toolTurnCount,l.toolTurnCount,false⟩ := by
  induction turns generalizing l with
  | zero => omega
  | succ turns ih =>
    refine (metered provider).ensures_bind (streamOneAssistantTurn_metered parseJson _ _ le_rfl) ?_
    rintro ⟨outcome,next⟩ _ ⟨called,rfl⟩
    cases outcome with
    | final => exact (metered provider).ensures_pure trivial
    | toolCall call =>
      have toolsOn := called call rfl
      obtain ⟨provided,room⟩ := enabled toolsOn
      obtain ⟨used,rfl⟩ := Option.isSome_iff_exists.mp provided
      rw [toolsOn]
      have expected : (metered (some used)).Ensures (expectProvider (some used))
          (fun found g' => found = used ∧ g' = ⟨l.toolTurnCount + 1,l.toolTurnCount,false⟩)
            (fun e _ => Fails e)
          ⟨l.toolTurnCount + 1,l.toolTurnCount,false⟩ :=
        (metered (some used)).ensures_pure ⟨rfl,rfl⟩
      refine (metered (some used)).ensures_bind expected ?_
      rintro found _ ⟨same,rfl⟩
      rw [same]
      refine (metered (some used)).ensures_bind
        (executeToolCallAndWait_metered call rfl room rfl) ?_
      rintro _ _ rfl
      refine (metered (some used)).ensures_ask trivial fun rebuilt _ => ?_
      cases rebuilt with
      | error e => exact (metered (some used)).ensures_throw (show Fails _ from nofun)
      | ok prompt =>
        refine ih ?_ (by simp only; omega) (by simp only; omega)
        intro stillOn
        simpa using stillOn

variable (provider) in
theorem setupCompletionProcessor_metered (parseJson : Text → Option Json) (prompt : List Json)
    (assistantMessageId : Uuid) :
    (metered provider).Ensures
      (setupCompletionProcessor parseJson provider prompt assistantMessageId)
      (fun _ _ => True) (fun e _ => Fails e) (.of []) := by
  refine (metered provider).ensures_attempt
    (assistantLoop_metered parseJson (maxWebSearchToolTurns + 1)
    (fun enabled => ⟨enabled,Nat.zero_lt_succ _⟩) (Nat.lt_succ_self _) (Nat.zero_le _)) ?_
  rintro (failure | done) g ends
  · cases failure with
    | panicked => exact absurd rfl ends
    | error e =>
      refine (metered provider).ensures_ask trivial fun _ _ => ?_
      refine (metered provider).ensures_ask trivial fun _ _ => ?_
      exact (metered provider).ensures_throw (show Fails _ from nofun)
  · exact (metered provider).ensures_pure trivial

end

/-- Whatever the model provider, the tools and the channels answer, and however
    far the run has come. -/
theorem tool_loop_bounded (parseJson : Text → Option Json) (provider : Option WebSearchProvider)
    (prompt : List Json) (assistantMessageId : Uuid) {exchanges : Exchanges Effect Reply}
    {rest : Task Effect Reply (Outcome ApiError Unit)}
    (run : Reaches (setupCompletionProcessor parseJson provider prompt assistantMessageId).run
      exchanges rest) :
    (requested exchanges rest).countP Effect.isTool ≤ maxWebSearchToolTurns ∧
    (requested exchanges rest).countP Effect.isTurn ≤ maxWebSearchToolTurns + 1 ∧
    .outOfTurns ∉ requested exchanges rest ∧
    (∀ call used, .executeTool call used ∈ requested exchanges rest → provider = some used) ∧
    rest ≠ .done (.error .panicked) ∧
    (requested exchanges rest).Pairwise fun earlier later =>
      earlier.withoutTools = true → later.isTool = false := by
  have meets := setupCompletionProcessor_metered provider parseJson prompt assistantMessageId
  have start : Limited provider [] := ⟨Nat.zero_le _,Nat.zero_le _,nofun,.nil,nofun⟩
  have limited : Limited provider (requested exchanges rest) :=
    (metered provider).requests_invariant (record_of provider) (fun _ _ => limited_request)
      (fun _ _ _ => trivial) run start meets
  have turns := limited.turns
  have tools := limited.tools
  refine ⟨tools,by omega,limited.enough,limited.provided,?_,limited.disabled⟩
  rintro rfl
  have honoured := (metered provider).honoured_of_any (fun _ _ _ => trivial) (.of []) exchanges
  exact ((metered provider).reaches_permitted run meets honoured).2 rfl

def insistentResponse : Exchanges Effect Reply × Task Effect Reply (Outcome ApiError Unit) :=
  (setupCompletionProcessor (fun _ => none) (some .brave) [] (numberedId 0)).run.serve plainAnswers
    (1,replicate 40 toolTurnChunks)

theorem insistent_response_is_stopped :
    (requested insistentResponse.1 insistentResponse.2).countP Effect.isTool = 30 ∧
    (requested insistentResponse.1 insistentResponse.2).countP Effect.isTurn ≤ 31 ∧
    (requested insistentResponse.1 insistentResponse.2).any Effect.withoutTools = true ∧
    (requested insistentResponse.1 insistentResponse.2).Pairwise fun earlier later =>
      earlier.withoutTools = true → later.isTool = false := by
  obtain ⟨-,turns,-,-,-,disabled⟩ :=
    tool_loop_bounded (fun _ => none) (some .brave) [] (numberedId 0)
    (reaches_serve plainAnswers _ (1,replicate 40 toolTurnChunks))
  exact ⟨by decide +kernel,turns,by decide +kernel,disabled⟩

end OpenSecret.Responses
