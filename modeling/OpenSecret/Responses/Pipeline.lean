import OpenSecret.Responses.Client
import OpenSecret.Responses.Orchestrator
import OpenSecret.Foundation.Traces

/-!
The tasks that serve one response and the channels between them. The
orchestrator and the listener for cancellations are the two branches of one
`select!`: they take turns until one of them is done, and the other is dropped.
The storage task reads a bounded channel on which a send waits, the client loop
a bounded channel on which most messages are only tried. The moves of the tasks
interleave freely.
-/
namespace OpenSecret.Responses
open Framing Effects

def storageChannelBuffer : Nat := 1024

def clientChannelBuffer : Nat := 1024

def toolAckBuffer : Nat := 8

/-- `storing` is false once the storage task has returned or panicked. A queue
    whose receiver is gone stays as it is. -/
structure Pipeline where
  orchestrator : Task Effect Reply (Outcome ApiError Unit)
  listener : Task Effect Reply (Outcome ApiError Unit)
  issued : List Uuid
  storageQueue : List StorageMessage
  storing : Bool
  storage : StorageTask
  ackQueue : List ToolAck
  clientQueue : List StorageMessage
  client : ClientStream

structure Choice where
  uuid : Uuid
  completion : Except ApiError (List CompletionChunk)
  toolOutput : Text
  prompt : Except ApiError (List Json)

inductive Move where
  | orchestrator (choice : Choice)
  | listener (choice : Choice)
  | storage
  | client
  | disconnect

namespace Pipeline

/-- The reply to an effect, or nothing while the task has to wait. Ids are never
    drawn twice. A wait for an acknowledgement looks at the channel before it
    looks at the clock. -/
def respond (p : Pipeline) (choice : Choice) : (e : Effect) → Option (Reply e × Pipeline)
  | .newUuid =>
    if choice.uuid ∈ p.issued then none
      else some (choice.uuid,{ p with issued := choice.uuid :: p.issued })
  | .getChatCompletion _ _ => some (choice.completion,p)
  | .sendStorage message =>
    if p.storing = false then some (false,p)
    else if p.storageQueue.length < storageChannelBuffer then
      some (true,{ p with storageQueue := p.storageQueue ++ [message] })
    else none
  | .trySendClient message =>
    if p.client.status = .running ∧ p.clientQueue.length < clientChannelBuffer then
      some (true,{ p with clientQueue := p.clientQueue ++ [message] })
    else some (false,p)
  | .sendClient message =>
    if p.client.status ≠ .running then some (false,p)
    else if p.clientQueue.length < clientChannelBuffer then
      some (true,{ p with clientQueue := p.clientQueue ++ [message] })
    else none
  | .executeTool _ _ => some (choice.toolOutput,p)
  | .awaitToolAck _ =>
    match p.ackQueue with
    | ack :: rest => some (.received ack.persisted,{ p with ackQueue := rest })
    | [] => some (if p.storing then .timedOut else .dropped,p)
  | .rebuildPrompt => some (choice.prompt,p)
  | .awaitCancellation => some ((),p)
  | .outOfTurns => none

def advance (p : Pipeline) (choice : Choice) :
    Task Effect Reply (Outcome ApiError Unit) →
      Option (Task Effect Reply (Outcome ApiError Unit) × Pipeline)
  | .done _ => none
  | .ask e next =>
    match p.respond choice e with
    | some (r,p) => some (next r,p)
    | none => none

def selected (p : Pipeline) : Bool :=
  match p.orchestrator, p.listener with
  | .ask _ _, .ask _ _ => false
  | _, _ => true

/-- The acknowledgements of the task go on their channel while it has room, and the
    task waits with the others. Nothing waits for a receiver that is gone. -/
def stored (p : Pipeline) (storing : Bool) (s : StorageTask) : Pipeline :=
  let room := if p.selected then s.acks.length else toolAckBuffer - p.ackQueue.length
  { p with storing, storage := { s with acks := s.acks.drop room }, ackQueue :=
    p.ackQueue ++ s.acks.take room }

/-- The storage task sends what it waits with, takes one message, or finds that every
    sender is gone. -/
def storageStep (env : StorageEnv) (p : Pipeline) : Option Pipeline :=
  if p.storing = false then none
  else if p.storage.acks ≠ [] then
    if p.selected ∨ p.ackQueue.length < toolAckBuffer then some (p.stored true p.storage) else none
  else match p.storageQueue with
  | message :: rest =>
    match onStorageMessage env message p.storage with
    | some (returns,s) => some ({ p with storageQueue := rest }.stored (!returns) s)
    | none => some { p with storing := false }
  | [] =>
    if p.selected ∧ p.client.status ≠ .running then
      match onChannelClosed env p.storage with
      | some (_,s) => some (p.stored false s)
      | none => some { p with storing := false }
    else none

/-- The stream holds a sender of its own channel, so the loop never sees it closed. -/
def clientStep (clientEnv : ClientEnv) (p : Pipeline) : Option Pipeline :=
  if p.client.status ≠ .running then none
  else match p.clientQueue with
  | message :: rest =>
    some { p with clientQueue := rest, client := p.client.receive clientEnv message }
  | [] => none

def step (env : StorageEnv) (clientEnv : ClientEnv) (p : Pipeline) : Move → Option Pipeline
  | .orchestrator choice =>
    if p.selected then none
    else match p.advance choice p.orchestrator with
    | some (next,p) => some { p with orchestrator := next }
    | none => none
  | .listener choice =>
    if p.selected then none
    else match p.advance choice p.listener with
    | some (next,p) => some { p with listener := next }
    | none => none
  | .storage => p.storageStep env
  | .client => p.clientStep clientEnv
  | .disconnect =>
    if p.client.status = .running then some { p with client :=
      { p.client with status := .disconnected } } else none

def start (clientEnv : ClientEnv) (parseJson : Text → Option Json)
    (provider : Option WebSearchProvider) (prompt : List Json) (assistantMessageId : Uuid)
    (tables : Tables) (firstItemCreatedAt : Int) : Pipeline where
  orchestrator := (setupCompletionProcessor parseJson provider prompt assistantMessageId).run
  listener := waitForResponseCancellation.run
  issued := [assistantMessageId]
  storageQueue := []
  storing := true
  storage := .start tables firstItemCreatedAt
  ackQueue := []
  clientQueue := []
  client := .start clientEnv

section
variable {env : StorageEnv} {clientEnv : ClientEnv} {p q : Pipeline} {choice : Choice}

theorem branch_step {t : Task Effect Reply (Outcome ApiError Unit)}
    (put : Task Effect Reply (Outcome ApiError Unit) → Pipeline → Pipeline)
    (moved : (if p.selected then none else match p.advance choice t with
      | some (next,p) => some (put next p)
      | none => none) = some q) :
    ∃ e next r p', t = .ask e next ∧ p.respond choice e = some (r,p') ∧ q = put (next r) p' := by
  split at moved
  · cases moved
  cases t with
  | done a => cases moved
  | ask e next =>
    dsimp only [advance] at moved
    cases replied : p.respond choice e with
    | none => rw [replied] at moved; cases moved
    | some reply => rw [replied] at moved; cases moved; exact ⟨e,next,_,_,rfl,replied,rfl⟩

theorem orchestrator_step (moved : p.step env clientEnv (.orchestrator choice) = some q) :
    ∃ e next r p', p.orchestrator = .ask e next ∧ p.respond choice e = some (r,p') ∧
      q = { p' with orchestrator := next r } :=
  branch_step (fun t p => { p with orchestrator := t }) moved

theorem listener_step (moved : p.step env clientEnv (.listener choice) = some q) :
    ∃ e next r p', p.listener = .ask e next ∧ p.respond choice e = some (r,p') ∧
      q = { p' with listener := next r } :=
  branch_step (fun t p => { p with listener := t }) moved

theorem stored_of_room {storing : Bool} {s : StorageTask}
    (room : p.ackQueue.length + s.acks.length ≤ toolAckBuffer) :
    p.stored storing s = { p with storing, storage := { s with acks := [] }, ackQueue :=
      p.ackQueue ++ s.acks } := by
  have fits : s.acks.length ≤ if p.selected then s.acks.length
      else toolAckBuffer - p.ackQueue.length := by
    split
    · exact le_rfl
    · omega
  simp only [stored, List.drop_eq_nil_of_le fits, List.take_of_length_le fits]

theorem storage_step (moved : p.step env clientEnv .storage = some q) :
    p.storing = true ∧
    ((p.storage.acks ≠ [] ∧ q = p.stored true p.storage) ∨
      (∃ m rest returns s, p.storageQueue = m :: rest ∧
        onStorageMessage env m p.storage = some (returns,s) ∧
        q = { p with storageQueue := rest }.stored (!returns) s) ∨
      (p.storageQueue = [] ∧ p.selected = true ∧ ∃ s, onChannelClosed env p.storage = some ((),s) ∧
        q = p.stored false s) ∨
      ((p.storageQueue = [] → p.selected = true) ∧
        (∀ m rest, p.storageQueue = m :: rest → onStorageMessage env m p.storage = none) ∧
          q = { p with storing := false })) := by
  dsimp only [step, storageStep] at moved
  split at moved
  · cases moved
  rename_i storing
  refine ⟨by simpa using storing,?_⟩
  split at moved
  · rename_i waits
    split at moved <;> cases moved
    exact .inl ⟨waits,rfl⟩
  refine .inr ?_
  split at moved
  · rename_i m rest queued
    split at moved
    · rename_i returns s ran
      cases moved
      exact .inl ⟨m,rest,returns,s,queued,ran,rfl⟩
    · rename_i panicked
      cases moved
      refine .inr (.inr ⟨fun none => ?_,fun _ _ same => ?_,rfl⟩)
      · rw [queued] at none
        cases none
      · rw [queued] at same
        cases same
        exact panicked
  · rename_i queued
    split at moved
    · rename_i closed
      split at moved
      · rename_i s ran
        cases moved
        exact .inr (.inl ⟨queued,closed.1,s,ran,rfl⟩)
      · cases moved
        refine .inr (.inr ⟨fun _ => closed.1,fun _ _ same => ?_,rfl⟩)
        rw [queued] at same
        cases same
    · cases moved

theorem client_step (moved : p.step env clientEnv .client = some q) :
    p.client.status = .running ∧ ∃ m rest, p.clientQueue = m :: rest ∧
      q = { p with clientQueue := rest, client := p.client.receive clientEnv m } := by
  dsimp only [step, clientStep] at moved
  split at moved
  · cases moved
  rename_i running
  split at moved
  · rename_i m rest queued
    cases moved
    exact ⟨by simpa using running,m,rest,queued,rfl⟩
  · cases moved

end

end Pipeline

end OpenSecret.Responses
