import OpenSecret.Responses.Pipeline
import OpenSecret.Responses.Items
import OpenSecret.Responses.StorageLogic

/-!
The acknowledgement of a tool call. The acknowledgement channel carries no ids,
yet the orchestrator only ever takes the answer to its own call: between two
calls neither channel holds anything about a tool, and after a failure no
further answer is awaited.
-/
namespace OpenSecret.Responses
open Framing Effects Traces List

def Tables.holdsTool (t : Tables) (toolCallId toolOutputId : Uuid) : Prop :=
  ∃ call ∈ t.toolCalls, call.uuid = toolCallId ∧
    ∃ output ∈ t.toolOutputs, output.uuid = toolOutputId ∧ output.toolCallFk = call.id

section
variable {α β : Type} {env : StorageEnv} {s s' : StorageTask}

variable {x : Storing α} {f : α → Storing β} {statement : Statement α} {i : Uuid} {t t' : Tables}
  {callId : Uuid} {output : Text} {returns : Bool}

theorem bind_eq_some {b : β} (ran : (x >>= f) s = some (b,s')) :
    ∃ a t, x s = some (a,t) ∧ f a t = some (b,s') := by
  obtain ⟨⟨a,t⟩,first,rest⟩ :=
    Option.bind_eq_some_iff.mp (show (x s).bind (fun r => f r.1 r.2) = some (b,s') from ran)
  exact ⟨a,t,first,rest⟩

theorem databaseCall_spec {result : Except ResponsesError α}
    (ran : databaseCall env statement s = some (result,s')) :
    s'.acks = s.acks ∧ (s'.tables = s.tables ∨ ∃ a, statement s.tables = .ok (a,s'.tables)) ∧
      ∀ a, result = .ok a → statement s.tables = .ok (a,s'.tables) := by
  unfold databaseCall at ran
  split at ran <;> cases ran
  · exact ⟨rfl,.inl rfl,nofun⟩
  · exact ⟨rfl,.inl rfl,nofun⟩
  · rename_i a tables _ succeeds
    exact ⟨rfl,.inr ⟨a,succeeds⟩,fun _ same => by cases same; exact succeeds⟩
  · rename_i a tables _ succeeds
    exact ⟨rfl,.inr ⟨a,succeeds⟩,nofun⟩

theorem getToolCallByUuid_ok {userId : Uuid} {call : ToolCall}
    (found : Tables.getToolCallByUuid i userId t = .ok (call,t')) :
    t' = t ∧ call ∈ t.toolCalls ∧ call.uuid = i := by
  unfold Tables.getToolCallByUuid at found
  split at found
  · rename_i here
    simp only [Except.ok.injEq, Prod.mk.injEq] at found
    obtain ⟨rfl,rfl⟩ := found
    have named := find?_some here
    rw [decide_eq_true_eq] at named
    exact ⟨rfl,mem_of_find?_eq_some here,named.1⟩
  · cases found

theorem createToolOutput_ok {new : ToolOutput}
    (wrote : Tables.createToolOutput new t = .ok ((),t')) :
    t'.toolCalls = t.toolCalls ∧ t'.toolOutputs = t.toolOutputs ++ [new] := by
  unfold Tables.createToolOutput at wrote
  split at wrote
  · cases wrote
  · simp only [Except.ok.injEq, Prod.mk.injEq, true_and] at wrote
    rw [← wrote]
    exact ⟨rfl,rfl⟩

theorem persistToolOutput_spec {createdAt : Int} {result : Except ResponsesError Unit}
    (ran : persistToolOutput env i callId output createdAt s = some (result,s')) :
    s'.acks = s.acks ∧ (result = .ok () → s'.tables.holdsTool callId i) := by
  obtain ⟨found,t,looked,ran⟩ := bind_eq_some ran
  obtain ⟨acks,-,read⟩ := databaseCall_spec looked
  cases found with
  | error e =>
    cases ran
    exact ⟨acks,nofun⟩
  | ok call =>
    obtain ⟨sealed,u,sealing,ran⟩ := bind_eq_some ran
    obtain ⟨acks',calls',-⟩ := ((steady_encrypted _).ran sealing).2 trivial
    obtain ⟨acks'',-,wrote⟩ := databaseCall_spec ran
    refine ⟨acks''.trans (acks'.trans acks),fun succeeded => ?_⟩
    obtain ⟨same,mem,named⟩ := getToolCallByUuid_ok (read call rfl)
    obtain ⟨calls'',outputs⟩ := createToolOutput_ok (wrote () succeeded)
    rw [calls', same] at calls''
    exact ⟨call,calls'' ▸ mem,named,_,outputs ▸ mem_append_right _ mem_cons_self,rfl,rfl⟩

/-- A call is acknowledged only when it could not be persisted. -/
theorem toolCall_acknowledges {name : Text} {arguments : Json}
    (ran : onStorageMessage env (.toolCall i name arguments) s = some (returns,s')) :
    s'.acks = s.acks ∨ s'.acks = s.acks ++ [⟨i,false⟩] := by
  obtain ⟨_,_,⟨⟩,ran⟩ := bind_eq_some ran
  obtain ⟨result,t,persisted,ran⟩ := bind_eq_some ran
  obtain ⟨_,_,sealing,wrote⟩ := bind_eq_some persisted
  have acks : t.acks = s.acks :=
    (databaseCall_spec wrote).1.trans (((steady_encrypted _).ran sealing).2 trivial).acks
  cases result with
  | ok _ =>
    cases ran
    exact .inl acks
  | error e =>
    obtain ⟨_,_,⟨⟩,⟨⟩⟩ := bind_eq_some ran
    exact .inr (congrArg (· ++ _) acks)

/-- An output is always acknowledged, as persisted only with both of its rows there. -/
theorem toolOutput_acknowledges
    (ran : onStorageMessage env (.toolOutput i callId output) s = some (returns,s')) :
    ∃ persisted, s'.acks = s.acks ++ [⟨callId,persisted⟩] ∧
      (persisted = true → s'.tables.holdsTool callId i) := by
  obtain ⟨_,_,⟨⟩,ran⟩ := bind_eq_some ran
  obtain ⟨result,t,persisted,ran⟩ := bind_eq_some ran
  obtain ⟨acks,rows⟩ := persistToolOutput_spec persisted
  obtain ⟨_,_,⟨⟩,⟨⟩⟩ := bind_eq_some ran
  refine ⟨result.isOk,congrArg (· ++ _) acks,fun succeeded => rows ?_⟩
  cases result with
  | ok _ => rfl
  | error e => cases succeeded

theorem onStorageMessage_acks {m : StorageMessage}
    (ran : onStorageMessage env m s = some (returns,s')) :
    s'.acks.length ≤ s.acks.length + 1 := by
  have plain (tool : m.isTool = false) : s'.acks.length ≤ s.acks.length + 1 := by
    rw [(((onStorageMessage_steady m).ran ran).2 tool).acks]
    exact Nat.le_succ _
  cases m with
  | toolCall c name arguments =>
    rcases toolCall_acknowledges ran with same | more
    · rw [same]
      exact Nat.le_succ _
    · rw [more, length_append, length_singleton]
  | toolOutput o c output =>
    obtain ⟨_,more,-⟩ := toolOutput_acknowledges ran
    rw [more, length_append, length_singleton]
  | _ => exact plain rfl

end

def taken (trace : List (Pipeline × Move)) : List StorageMessage :=
  trace.filterMap fun
    | (p,.orchestrator _) =>
      match p.orchestrator with
      | .ask (.sendStorage message) _ => if p.storing then some message else none
      | _ => none
    | _ => none

/-- Where a tool call stands: what of it waits in the storage channel and what in
    the acknowledgement channel. -/
inductive ToolLink (tables : Tables) (heard : List StorageMessage) :
    ToolPhase → List StorageMessage → List ToolAck → Prop where
  | idle : ToolLink tables heard .idle [] []
  | calling (c : Uuid) (name : Text) (arguments : Json) :
      ToolLink tables heard (.called c) [.toolCall c name arguments] []
  | called {c : Uuid} {acks : List ToolAck} (none : acks = [] ∨ acks = [⟨c,false⟩]) :
      ToolLink tables heard (.called c) [] acks
  | queued {o c : Uuid} {output : Text} (name : Text) (arguments : Json)
      (sent : .toolOutput o c output ∈ heard) :
      ToolLink tables heard (.answered c) [.toolCall c name arguments,.toolOutput o c output] []
  | answering {o c : Uuid} {output : Text} {acks : List ToolAck}
      (sent : .toolOutput o c output ∈ heard)
      (none : acks = [] ∨ acks = [⟨c,false⟩]) :
      ToolLink tables heard (.answered c) [.toolOutput o c output] acks
  | answered {o c : Uuid} {output : Text} (sent : .toolOutput o c output ∈ heard)
      (rows : tables.holdsTool c o) :
      ToolLink tables heard (.answered c) [] [⟨c,true⟩]
  | failed {c : Uuid} {rest : List ToolAck} (few : rest.length ≤ 1) :
      ToolLink tables heard (.answered c) [] (⟨c,false⟩ :: rest)
  | refused {pending : List StorageMessage} {acks : List ToolAck}
      (few : pending.length + acks.length ≤ 2) :
      ToolLink tables heard .refused pending acks

namespace ToolLink
variable {tables tables' : Tables} {heard heard' pending : List StorageMessage}
  {phase : ToolPhase} {acks : List ToolAck}

theorem grow (link : ToolLink tables heard phase pending acks) (more : heard ⊆ heard')
    (calls : tables'.toolCalls = tables.toolCalls)
    (outputs : tables'.toolOutputs = tables.toolOutputs) :
    ToolLink tables' heard' phase pending acks := by
  cases link with
  | idle => exact .idle
  | calling c name arguments => exact .calling c name arguments
  | called none => exact .called none
  | queued name arguments sent => exact .queued name arguments (more sent)
  | answering sent none => exact .answering (more sent) none
  | answered sent rows =>
    refine .answered (more sent) ?_
    rw [Tables.holdsTool, calls, outputs]
    exact rows
  | failed few => exact .failed few
  | refused few => exact .refused few

/-- A call and its output have at most one acknowledgement each. -/
theorem few (link : ToolLink tables heard phase pending acks) :
    pending.length + acks.length ≤ 2 := by
  cases link with
  | called none => rcases none with rfl | rfl <;> simp
  | answering sent none => rcases none with rfl | rfl <;> simp
  | failed few => simpa using few
  | refused few => exact few
  | _ => simp

variable {c : Uuid}

theorem called_stored {name : Text} {arguments : Json} {more : List ToolAck}
    (link : ToolLink tables heard phase (.toolCall c name arguments :: pending) acks)
    (acked : more = [] ∨ more = [⟨c,false⟩]) :
    ToolLink tables' heard phase pending (acks ++ more) := by
  cases link with
  | calling => exact .called acked
  | queued name arguments sent => exact .answering sent acked
  | refused few =>
    refine .refused ?_
    rcases acked with rfl | rfl <;> simp at few ⊢ <;> omega

theorem output_stored {o : Uuid} {output : Text} {persisted : Bool}
    (link : ToolLink tables heard phase (.toolOutput o c output :: pending) acks)
    (rows : persisted = true → tables'.holdsTool c o) :
    ToolLink tables' heard phase pending (acks ++ [⟨c,persisted⟩]) := by
  cases link with
  | answering sent none =>
    rcases none with rfl | rfl
    · cases persisted with
      | true => exact .answered sent (rows rfl)
      | false => exact .failed (Nat.zero_le 1)
    · exact .failed (Nat.le_refl 1)
  | refused few =>
    refine .refused ?_
    simp at few ⊢
    omega

theorem sent {g : Progress} {m : StorageMessage} (link : ToolLink tables heard g.tool pending acks)
    (allowed : g.allows m) (here : m ∈ heard) :
    ToolLink tables heard (g.advance m).tool (pending ++ [m].filter StorageMessage.isTool)
      acks := by
  have quiet : m.isTool = false → (g.advance m).tool = g.tool →
      ToolLink tables heard (g.advance m).tool (pending ++ [m].filter StorageMessage.isTool)
        acks := by
    intro plain same
    rw [same, filter_cons_of_neg (by simp [plain]), filter_nil, append_nil]
    exact link
  cases m with
  | toolCall c name arguments =>
    have idle : g.tool = .idle := allowed.1
    rw [idle] at link
    cases link
    exact .calling c name arguments
  | toolOutput o c output =>
    have called : g.tool = .called c := allowed.1
    rw [called] at link
    cases link with
    | calling _ name arguments => exact .queued name arguments here
    | called none => exact .answering here none
  | _ => exact quiet rfl rfl

/-- A positive acknowledgement is the one for this call, and the last one there is. -/
theorem acknowledged {ack : ToolAck} {rest : List ToolAck}
    (link : ToolLink tables heard (.answered c) pending (ack :: rest))
    (persisted : ack.persisted = true) :
    ack.toolCallId = c ∧ rest = [] ∧ pending = [] ∧ ∃ o output, .toolOutput o c output ∈ heard ∧
      tables.holdsTool c o := by
  cases link with
  | answered sent rows => exact ⟨rfl,rfl,rfl,_,_,sent,rows⟩
  | failed few => cases persisted
  | answering sent none =>
    rcases none with none | one
    · cases none
    · cases one
      cases persisted

end ToolLink

def listening : Contract Effect Reply Unit where
  permits _ e := e = .awaitCancellation ∨ e = .sendStorage .cancelled ∨ e = .sendClient .cancelled
  replies _ _ _ := True
  record _ _ _ := ()

section
variable {env : StorageEnv} {clientEnv : ClientEnv} {trace : List (Pipeline × Move)}
  {p q : Pipeline} {g : Progress}

structure Acknowledging (trace : List (Pipeline × Move)) (p : Pipeline) (g : Progress) : Prop where
  meets : orchestration.Meets (Settles (fun _ g => g.told = true) fun e g => e ≠ .panicked ∧
    g.told = true)
    p.orchestrator g
  listens : listening.Meets (fun _ _ => True) p.listener ()
  issued : g.issued = p.issued
  acked : p.storage.acks = []
  link : ToolLink p.storage.tables (taken trace) g.tool
    (p.storageQueue.filter StorageMessage.isTool) p.ackQueue

theorem taken_grows (x : Pipeline × Move) : taken trace ⊆ taken (trace ++ [x]) := by
  rw [taken, taken, filterMap_append]
  exact subset_append_left _ _

theorem Acknowledging.storage (acknowledging : Acknowledging trace p g)
    (moved : p.step env clientEnv .storage = some q) :
    Acknowledging (trace ++ [(p,.storage)]) q g := by
  have grown := acknowledging.link.grow (taken_grows (p,.storage)) rfl rfl
  have few := grown.few
  obtain ⟨-,⟨waits,-⟩ | ⟨m,rest,returns,s,queued,ran,rfl⟩ | ⟨-,-,s,ran,rfl⟩ | ⟨-,-,rfl⟩⟩ :=
    Pipeline.storage_step moved
  · exact absurd acknowledging.acked waits
  · rw [queued] at grown few
    have room : p.ackQueue.length + s.acks.length ≤ toolAckBuffer := by
      have one := onStorageMessage_acks ran
      rw [acknowledging.acked, length_nil] at one
      unfold toolAckBuffer
      omega
    rw [@Pipeline.stored_of_room { p with storageQueue := rest } _ _ room]
    refine { acknowledging with acked := rfl, link := ?_ }
    cases tool : m.isTool with
    | false =>
      obtain ⟨acks,calls,outputs⟩ := ((onStorageMessage_steady m).ran ran).2 tool
      rw [filter_cons_of_neg (by simp [tool])] at grown
      rw [acknowledging.acked] at acks
      change ToolLink s.tables _ _ _ (p.ackQueue ++ s.acks)
      rw [acks, append_nil]
      exact grown.grow (List.Subset.refl _) calls outputs
    | true =>
      rw [filter_cons_of_pos tool] at grown
      cases m with
      | toolCall c name arguments =>
        refine grown.called_stored ?_
        rcases toolCall_acknowledges ran with same | more
        · exact .inl (same.trans acknowledging.acked)
        · exact .inr (by rw [more, acknowledging.acked]; rfl)
      | toolOutput o c output =>
        obtain ⟨persisted,acks,rows⟩ := toolOutput_acknowledges ran
        rw [acknowledging.acked] at acks
        change ToolLink s.tables _ _ _ (p.ackQueue ++ s.acks)
        rw [acks]
        exact grown.output_stored rows
      | _ => cases tool
  · obtain ⟨acks,calls,outputs⟩ := (onChannelClosed_steady.ran ran).2 trivial
    rw [acknowledging.acked] at acks
    rw [Pipeline.stored_of_room
      (by rw [acks]; exact le_trans (Nat.le_add_left _ _) (few.trans (by decide)))]
    refine { acknowledging with acked := rfl, link := ?_ }
    change ToolLink s.tables _ _ _ (p.ackQueue ++ s.acks)
    rw [acks, append_nil]
    exact grown.grow (List.Subset.refl _) calls outputs
  · exact { acknowledging with link := grown }

variable {choice : Choice}

theorem Acknowledging.listener (acknowledging : Acknowledging trace p g)
    (moved : p.step env clientEnv (.listener choice) = some q) :
    Acknowledging (trace ++ [(p,.listener choice)]) q g := by
  have grown := acknowledging.link.grow (taken_grows (p,.listener choice)) rfl rfl
  obtain ⟨e,next,r,p',asks,replied,rfl⟩ := Pipeline.listener_step moved
  have listens := acknowledging.listens
  rw [asks] at listens
  obtain ⟨rfl | rfl | rfl,goesOn⟩ := listens
  · cases replied
    exact { acknowledging with listens := goesOn _ trivial, link := grown }
  · dsimp only [Pipeline.respond] at replied
    split at replied
    · cases replied
      exact { acknowledging with listens := goesOn _ trivial, link := grown }
    · split at replied <;> cases replied
      refine { acknowledging with listens := goesOn _ trivial, link := ?_ }
      change ToolLink _ _ _ ((p.storageQueue ++ [StorageMessage.cancelled]).filter _) _
      rw [filter_append, filter_cons_of_neg (by decide), filter_nil, append_nil]
      exact grown
  · dsimp only [Pipeline.respond] at replied
    split at replied
    · cases replied
      exact { acknowledging with listens := goesOn _ trivial, link := grown }
    · split at replied <;> cases replied
      exact { acknowledging with listens := goesOn _ trivial, link := grown }

theorem Acknowledging.orchestrator (acknowledging : Acknowledging trace p g)
    (moved : p.step env clientEnv (.orchestrator choice) = some q) :
    ∃ g', Acknowledging (trace ++ [(p,.orchestrator choice)]) q g' := by
  have grown := acknowledging.link.grow (taken_grows (p,.orchestrator choice)) rfl rfl
  obtain ⟨e,next,r,p',asks,replied,rfl⟩ := Pipeline.orchestrator_step moved
  have meets := acknowledging.meets
  rw [asks] at meets
  obtain ⟨⟨-,permitted⟩,goesOn⟩ := meets
  cases e with
  | newUuid =>
    dsimp only [Pipeline.respond] at replied
    split at replied
    · cases replied
    rename_i unused
    cases replied
    rw [← acknowledging.issued] at unused
    exact ⟨_,{ acknowledging with
      meets := goesOn choice.uuid unused, issued :=
        congrArg _ acknowledging.issued, link := grown }⟩
  | getChatCompletion _ _ | executeTool _ _ | rebuildPrompt =>
    cases replied
    exact ⟨_,{ acknowledging with meets := goesOn _ trivial, link := grown }⟩
  | sendStorage m =>
    dsimp only [Pipeline.respond] at replied
    split at replied
    · cases replied
      exact ⟨_,{ acknowledging with meets := goesOn false trivial, link := grown }⟩
    · rename_i storing
      split at replied <;> cases replied
      have here : m ∈ taken (trace ++ [(p,.orchestrator choice)]) := by
        rw [taken, filterMap_append]
        refine mem_append_right _ ?_
        simp [asks, storing]
      refine ⟨_,{ acknowledging with meets := goesOn true trivial, issued := ?_, link := ?_ }⟩
      · cases m <;> exact acknowledging.issued
      · change ToolLink _ _ _ ((p.storageQueue ++ [m]).filter _) _
        rw [filter_append]
        exact grown.sent permitted.1 here
  | trySendClient m =>
    dsimp only [Pipeline.respond] at replied
    split at replied <;> cases replied <;>
      exact ⟨_,{ acknowledging with meets := goesOn _ trivial, link := grown }⟩
  | sendClient m =>
    dsimp only [Pipeline.respond] at replied
    split at replied
    · cases replied
      exact ⟨_,{ acknowledging with meets := goesOn _ trivial, link := grown }⟩
    · split at replied <;> cases replied
      exact ⟨_,{ acknowledging with meets := goesOn _ trivial, link := grown }⟩
  | awaitToolAck c =>
    dsimp only [Pipeline.respond] at replied
    split at replied
    · rename_i ack rest queue
      cases replied
      refine ⟨_,{ acknowledging with meets := goesOn _ trivial, link := ?_ }⟩
      have waited : g.tool = .answered c := permitted
      rw [waited, queue] at grown
      cases persisted : ack.persisted with
      | true =>
        obtain ⟨-,rfl,none,-⟩ := grown.acknowledged persisted
        change ToolLink _ _ .idle (p.storageQueue.filter _) []
        rw [none]
        exact .idle
      | false =>
        have few := grown.few
        exact .refused (le_trans (Nat.add_le_add_left (Nat.le_succ _) _) few)
    · rename_i none
      cases replied
      refine ⟨_,{ acknowledging with meets := goesOn _ trivial, link := ?_ }⟩
      have few := grown.few
      cases p.storing <;> exact .refused few
  | awaitCancellation => exact permitted.elim
  | outOfTurns => exact permitted.elim

theorem acknowledging_run {parseJson : Text → Option Json} {provider : Option WebSearchProvider}
    {prompt : List Json} {assistantMessageId : Uuid} {tables : Tables} {firstItemCreatedAt : Int}
    (run : Plays (Pipeline.step env clientEnv)
      (.start clientEnv parseJson provider prompt assistantMessageId
      tables firstItemCreatedAt) trace p) :
    ∃ g, Acknowledging trace p g := by
  refine plays_invariant (fun trace p => ∃ g, Acknowledging trace p g) ?_ ?_ run
  · refine ⟨.initial assistantMessageId,?_,?_,rfl,rfl,.idle⟩
    · exact setupCompletionProcessor_spec parseJson provider prompt assistantMessageId
    · exact ⟨.inl rfl,fun _ _ => ⟨.inr (.inl rfl),fun _ _ => ⟨.inr (.inr rfl),fun _ _ => trivial⟩⟩⟩
  · rintro trace p m q ⟨g,acknowledging⟩ moved
    have grown := acknowledging.link.grow (taken_grows (p,m)) rfl rfl
    cases m with
    | orchestrator choice => exact acknowledging.orchestrator moved
    | listener choice => exact ⟨g,acknowledging.listener moved⟩
    | storage => exact ⟨g,acknowledging.storage moved⟩
    | client =>
      obtain ⟨-,_,_,-,rfl⟩ := Pipeline.client_step moved
      exact ⟨g,{ acknowledging with link := grown }⟩
    | disconnect =>
      dsimp only [Pipeline.step] at moved
      split at moved <;> cases moved
      exact ⟨g,{ acknowledging with link := grown }⟩

end

def Pipeline.awaits (p : Pipeline) : Option Uuid :=
  match p.orchestrator with
  | .ask (.awaitToolAck toolCallId) _ => some toolCallId
  | _ => none

/-- The wait of a call is its last step: it succeeds when the acknowledgement does. -/
theorem executeToolCallAndWait_succeeds {provider : WebSearchProvider} {call : ModelToolCall}
    {exchanges : Exchanges Effect Reply}
    (run : Reaches (executeToolCallAndWait provider call).run exchanges (.done (.ok ()))) :
    ∃ toolCallId earlier, exchanges = ⟨.newUuid,toolCallId⟩ ::
      earlier ++ [⟨.awaitToolAck toolCallId,.received true⟩] := by
  -- a message that storage does not take makes the call fail
  have refused : ∀ {later : Exchanges Effect Reply},
      Reaches (.ask (.sendClient storageFailureMessage) fun _ =>
        .done (.error (.error .internalServerError)))
        later (.done (.ok () : Outcome ApiError Unit)) → False := by
    intro _ run
    cases run with
    | asked run => cases run
  cases run with
  | @asked _ _ toolCallId _ _ run =>
  cases run with
  | @asked _ _ toolOutputId _ _ run =>
  cases run with
  | @asked _ _ sent _ _ run =>
  cases sent with
  | false => exact (refused run).elim
  | true =>
  cases run with
  | asked run =>
  cases run with
  | asked run =>
  cases run with
  | @asked _ _ sent _ _ run =>
  cases sent with
  | false => exact (refused run).elim
  | true =>
  cases run with
  | asked run =>
  cases run with
  | @asked _ _ wait _ _ run =>
  cases wait with
  | received persisted =>
    cases persisted with
    | true =>
      cases run
      exact ⟨toolCallId,[_,_,_,_,_,_],rfl⟩
    | false => cases run
  | dropped => cases run
  | timedOut => cases run

/-- In every run of the pipeline, with any failures of the database, any number of
    tool turns, a cancellation or a lost client: a tool call succeeds only by a
    positive acknowledgement, that acknowledgement was sent for this very call,
    and the rows of the call and of its output are there. -/
theorem acknowledged_call_is_persisted (env : StorageEnv) (clientEnv : ClientEnv)
    (parseJson : Text → Option Json) (provider : Option WebSearchProvider) (prompt : List Json)
    (assistantMessageId : Uuid) (tables : Tables) (firstItemCreatedAt : Int) :
    (∀ provided call exchanges,
      Reaches (executeToolCallAndWait provided call).run exchanges (.done (.ok ())) →
      ∃ toolCallId earlier, exchanges =
        ⟨.newUuid,toolCallId⟩ :: earlier ++ [⟨.awaitToolAck toolCallId,.received true⟩]) ∧
    ∀ trace p choice after toolCallId, Plays (Pipeline.step env clientEnv)
        (.start clientEnv parseJson provider prompt assistantMessageId
          tables firstItemCreatedAt) trace p →
      p.awaits = some toolCallId →
      p.respond choice (.awaitToolAck toolCallId) = some (.received true,after) →
      p.ackQueue = [⟨toolCallId,true⟩] ∧
        ∃ toolOutputId output, .toolOutput toolOutputId toolCallId output ∈ taken trace ∧
          p.storage.tables.holdsTool toolCallId toolOutputId := by
  refine ⟨fun _ _ _ run => executeToolCallAndWait_succeeds run,
    fun trace p choice after c run awaits replied => ?_⟩
  obtain ⟨g,acknowledging⟩ := acknowledging_run run
  have waited : g.tool = .answered c := by
    have meets := acknowledging.meets
    unfold Pipeline.awaits at awaits
    split at awaits
    · rename_i asks
      cases awaits
      rw [asks] at meets
      exact meets.1.2
    · cases awaits
  have link := acknowledging.link
  rw [waited] at link
  dsimp only [Pipeline.respond] at replied
  split at replied
  · rename_i ack rest queue
    rw [queue] at link
    obtain ⟨reply,-⟩ := Prod.mk.inj (Option.some.inj replied)
    have persisted : ack.persisted = true := AckWait.received.inj reply
    obtain ⟨same,rfl,-,rows⟩ := link.acknowledged persisted
    refine ⟨?_,rows⟩
    rw [queue, ← same, ← persisted]
  · obtain ⟨reply,-⟩ := Prod.mk.inj (Option.some.inj replied)
    cases storing : p.storing <;> rw [storing] at reply <;> cases reply

/-- One search: the turn that asks for it, the call, its output, and storage catching up. -/
def searchMoves : List Move :=
  (List.range 21).map
    (fun n => .orchestrator ⟨numberedId (n + 1),.ok toolTurnChunks,"found",.ok []⟩) ++
    replicate 8 .storage

def searchRun : List (Pipeline × Move) × Pipeline :=
  play (Pipeline.step plainStorage plainClient) searchMoves
    (.start plainClient (fun _ => none) (some .brave) [] (numberedId 0) emptyTables 0)

theorem search_is_persisted :
    searchRun.2.awaits = some (numberedId 15) ∧
      ∃ toolOutputId output, .toolOutput toolOutputId (numberedId 15) output ∈ taken searchRun.1 ∧
        searchRun.2.storage.tables.holdsTool (numberedId 15) toolOutputId := by
  have run : Plays (Pipeline.step plainStorage plainClient)
      (.start plainClient (fun _ => none) (some .brave) [] (numberedId 0) emptyTables 0)
        searchRun.1 searchRun.2 :=
    plays_play _ searchMoves _
  have awaits : searchRun.2.awaits = some (numberedId 15) := by decide +kernel
  have queue : searchRun.2.ackQueue = [⟨numberedId 15,true⟩] := by decide +kernel
  have replied :
    searchRun.2.respond ⟨numberedId 0,.ok [],[],.ok []⟩ (.awaitToolAck (numberedId 15)) =
      some (.received true,{ searchRun.2 with ackQueue := [] }) := by
    rw [Pipeline.respond, queue]
  have persisted :=
    acknowledged_call_is_persisted plainStorage plainClient (fun _ => none) (some .brave) []
    (numberedId 0) emptyTables 0
  exact ⟨awaits,(persisted.2 _ _ _ _ _ run awaits replied).2⟩

/-- In every interleaving, until the orchestrator or the listener is done: there is room
    on the acknowledgement channel, and the orchestrator can move, or the channel it
    sends on is full and the reader of that channel can move. -/
theorem orchestrator_never_stuck {env : StorageEnv} {clientEnv : ClientEnv}
    {parseJson : Text → Option Json} {provider : Option WebSearchProvider} {prompt : List Json}
    {assistantMessageId : Uuid} {tables : Tables} {firstItemCreatedAt : Int}
    {trace : List (Pipeline × Move)} {p : Pipeline}
    (run : Plays (Pipeline.step env clientEnv)
      (.start clientEnv parseJson provider prompt assistantMessageId
      tables firstItemCreatedAt) trace p)
    (running : p.selected = false) (choice : Choice) (fresh : choice.uuid ∉ p.issued) :
    p.ackQueue.length < toolAckBuffer ∧
    ((p.step env clientEnv (.orchestrator choice)).isSome ∨
      storageChannelBuffer ≤ p.storageQueue.length ∧ (p.step env clientEnv .storage).isSome ∨
      clientChannelBuffer ≤ p.clientQueue.length ∧ (p.step env clientEnv .client).isSome) := by
  obtain ⟨g,acknowledging⟩ := acknowledging_run run
  have meets := acknowledging.meets
  have few := acknowledging.link.few
  refine ⟨lt_of_le_of_lt (le_trans (Nat.le_add_left _ _) few) (by decide),?_⟩
  cases asks : p.orchestrator with
  | done result => simp [Pipeline.selected, asks] at running
  | ask e next =>
    rw [asks] at meets
    cases replied : p.respond choice e with
    | some reply => exact .inl (by simp [Pipeline.step, Pipeline.advance, running, asks, replied])
    | none =>
      cases e with
      | sendStorage m =>
        have full : p.storing = true ∧ storageChannelBuffer ≤ p.storageQueue.length := by
          grind [Pipeline.respond]
        obtain ⟨m,rest,queue⟩ := exists_cons_of_length_pos (lt_of_lt_of_le (by decide) full.2)
        refine .inr (.inl ⟨full.2,?_⟩)
        cases ran : onStorageMessage env m p.storage <;>
          simp [Pipeline.step, Pipeline.storageStep, full.1, acknowledging.acked, queue, ran]
      | sendClient m =>
        have full : p.client.status = .running ∧ clientChannelBuffer ≤ p.clientQueue.length := by
          grind [Pipeline.respond]
        obtain ⟨_,_,queue⟩ := exists_cons_of_length_pos (lt_of_lt_of_le (by decide) full.2)
        exact .inr (.inr ⟨full.2,by simp [Pipeline.step, Pipeline.clientStep, full.1, queue]⟩)
      | awaitCancellation | outOfTurns => exact meets.1.2.elim
      | _ => grind [Pipeline.respond]

/-- The search waits for the acknowledgement that storage has sent. -/
theorem search_goes_on :
    searchRun.2.awaits = some (numberedId 15) ∧ searchRun.2.ackQueue.length < toolAckBuffer ∧
      (searchRun.2.step plainStorage plainClient
        (.orchestrator ⟨numberedId 99,.ok [],[],.ok []⟩)).isSome := by
  have run : Plays (Pipeline.step plainStorage plainClient)
      (.start plainClient (fun _ => none) (some .brave) [] (numberedId 0) emptyTables 0)
        searchRun.1 searchRun.2 :=
    plays_play _ searchMoves _
  have short : searchRun.2.storageQueue.length < storageChannelBuffer ∧
      searchRun.2.clientQueue.length < clientChannelBuffer := by decide +kernel
  have fresh : numberedId 99 ∉ searchRun.2.issued := by decide +kernel
  obtain ⟨room,moves | ⟨full,-⟩ | ⟨full,-⟩⟩ := orchestrator_never_stuck run (by decide +kernel)
    ⟨numberedId 99,.ok [],[],.ok []⟩ fresh
  · exact ⟨by decide +kernel,room,moves⟩
  · exact absurd short.1 (not_lt.mpr full)
  · exact absurd short.2 (not_lt.mpr full)

end OpenSecret.Responses
