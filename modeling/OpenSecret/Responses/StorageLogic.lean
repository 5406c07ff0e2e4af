import OpenSecret.Responses.Storage

/-!
Reasoning about the storage task: a step yields when it ends without a panic.
Under a cipher that always seals, every message and the end of the channel are
worked off, whatever the database calls answer.
-/
namespace OpenSecret.Responses
open Framing

/-- The cipher seals whatever it is given, so the task never panics. -/
def StorageEnv.Seals (env : StorageEnv) : Prop :=
  ∀ nonce bytes, ∃ ciphertext,
    env.runtime.primitives.aesGcmEncrypt env.runtime.userKey nonce bytes [] = some ciphertext

/-- Besides, every database call is answered. -/
structure StorageEnv.Sound (env : StorageEnv) : Prop where
  answered : ∀ n, env.fates n = .answered
  seals : env.Seals

/-- The stored content of an item: null when empty, otherwise sealed under the user's key. -/
def StorageEnv.Holds (env : StorageEnv) (stored : Option Bytes) (text : Text) : Prop :=
  match stored with
  | none => text = []
  | some sealed => text ≠ [] ∧
      ∃ nonce, encryptWithKey env.runtime.primitives env.runtime.userKey nonce (utf8 text) =
        .ok sealed

section
variable {α β : Type} {env : StorageEnv} {s : StorageTask}

/-- The step ends without a panic, and `post` holds afterwards. -/
def Yields (x : Storing α) (s : StorageTask) (post : α → StorageTask → Prop) : Prop :=
  ∃ a s', x s = some (a,s') ∧ post a s'

variable {x : Storing α} {f : α → Storing β} {mid : α → StorageTask → Prop}
  {post : β → StorageTask → Prop}
  {a : α}

theorem yields_bind (first : Yields x s mid)
    (rest : ∀ a s', mid a s' → Yields (f a) s' post) : Yields (x >>= f) s post := by
  obtain ⟨a,s',ran,holds⟩ := first
  obtain ⟨b,s'',ranRest,holdsRest⟩ := rest a s' holds
  refine ⟨b,s'',?_,holdsRest⟩
  rw [← ranRest]
  change x s >>= (fun p => f p.1 p.2) = _
  rw [ran]
  rfl

theorem yields_mono {post : α → StorageTask → Prop} (ran : Yields x s mid)
    (weaker : ∀ a s', mid a s' → post a s') : Yields x s post := by
  obtain ⟨a,s',ran,holds⟩ := ran
  exact ⟨a,s',ran,weaker a s' holds⟩

theorem yields_step {s' : StorageTask} (ran : x s = some (a,s')) (rest : Yields (f a) s' post) :
    Yields (x >>= f) s post := by
  have reached : Yields x s fun b t => b = a ∧ t = s' := ⟨a,s',ran,rfl,rfl⟩
  refine yields_bind reached ?_
  rintro _ _ ⟨rfl,rfl⟩
  exact rest

theorem yields_pure {post : α → StorageTask → Prop} (holds : post a s) :
    Yields (pure a : Storing α) s post :=
  ⟨a,s,rfl,holds⟩

theorem yields_discard {post : StorageTask → Prop} (ran : Yields x s fun _ s' => post s') :
    Yields (discard x) s fun _ s' => post s' :=
  yields_bind ran fun _ _ holds => yields_pure holds

theorem databaseCall_yields (sound : env.Sound) (statement : Statement α) {tables : Tables}
    (succeeds : statement s.tables = .ok (a,tables)) :
    Yields (databaseCall env statement) s fun r s' =>
      r = .ok a ∧ s' = { s with tables, calls := s.calls + 1 } := by
  refine ⟨.ok a,_,?_,rfl,rfl⟩
  simp only [databaseCall, sound.answered, succeeds]

theorem encrypted_yields (seals : env.Seals) (bytes : Bytes) :
    Yields (encrypted env bytes) s fun sealed s' =>
      (∃ nonce, encryptWithKey env.runtime.primitives env.runtime.userKey nonce bytes =
        .ok sealed) ∧
        s' = { s with sealings := s.sealings + 1 } := by
  obtain ⟨ciphertext,ran⟩ := seals (env.nonces s.sealings) bytes
  have sealed :
    encryptWithKey env.runtime.primitives env.runtime.userKey (env.nonces s.sealings) bytes =
      .ok ((env.nonces s.sealings).bytes ++ ciphertext) := by
    simp only [encryptWithKey, ran]
  refine ⟨_,_,?_,⟨_,sealed⟩,rfl⟩
  simp only [encrypted, sealed]

theorem contentEnc_yields (seals : env.Seals) (content : Text) :
    Yields (contentEnc env content) s fun stored s' =>
      env.Holds stored content ∧ ∃ n, s' = { s with sealings := n } := by
  unfold contentEnc
  split
  · rename_i empty
    exact yields_pure ⟨empty,s.sealings,rfl⟩
  · rename_i some
    refine yields_bind (encrypted_yields seals _) ?_
    rintro sealed _ ⟨opens,rfl⟩
    exact yields_pure ⟨⟨some,opens⟩,_,rfl⟩

structure SameTools (s s' : StorageTask) : Prop where
  acks : s'.acks = s.acks
  calls : s'.tables.toolCalls = s.tables.toolCalls
  outputs : s'.tables.toolOutputs = s.tables.toolOutputs

/-- Unless the cipher fails the step ends, with a result that satisfies `post`; if it is
    `plain`, it has nothing to do with tools. -/
def Steady (env : StorageEnv) (plain : Prop) (x : Storing α) (post : α → Prop) : Prop :=
  ∀ s, match x s with
    | some (a,s') => post a ∧ (plain → SameTools s s')
    | none => ¬ env.Seals

section
variable {plain : Prop} {P : α → Prop} {Q : β → Prop} {statement : Statement α}

theorem steady_step {value : StorageTask → α} {after : StorageTask → StorageTask}
    (ran : ∀ s, x s = some (value s,after s)) (holds : ∀ s, P (value s))
    (keeps : plain → ∀ s, SameTools s (after s)) : Steady env plain x P := by
  intro s
  rw [ran]
  exact ⟨holds s,fun plain => keeps plain s⟩

theorem steady_pure (holds : P a) : Steady env plain (pure a : Storing α) P :=
  steady_step (fun _ => rfl) (fun _ => holds) fun _ _ => ⟨rfl,rfl,rfl⟩

theorem steady_bind (ran : Steady env plain x P) (rest : ∀ a, Steady env plain (f a) Q) :
    Steady env plain (x >>= f) Q := by
  intro s
  have here := ran s
  change match (x s).bind fun p => f p.1 p.2 with | some (b,t) => _ | none => _
  cases reached : x s with
  | none =>
    rw [reached] at here
    exact here
  | some p =>
    have there := rest p.1 p.2
    rw [reached] at here
    rw [Option.bind_some]
    split at there
    · refine ⟨there.1,fun plain => ?_⟩
      obtain ⟨acks,calls,outputs⟩ := here.2 plain
      obtain ⟨acks',calls',outputs'⟩ := there.2 plain
      exact ⟨acks'.trans acks,calls'.trans calls,outputs'.trans outputs⟩
    · exact there

theorem steady_update {after : StorageTask → StorageTask} {next : StorageTask → Storing β}
    (keeps : ∀ s, SameTools s (after s)) (rest : ∀ s, Steady env plain (next s) Q) :
    Steady env plain (do let s ← get; set (after s); next s) Q := by
  intro s
  have there := rest s (after s)
  change match next s (after s) with | some (b,t) => _ | none => _
  split at there
  · refine ⟨there.1,fun plain => ?_⟩
    obtain ⟨acks,calls,outputs⟩ := keeps s
    obtain ⟨acks',calls',outputs'⟩ := there.2 plain
    exact ⟨acks'.trans acks,calls'.trans calls,outputs'.trans outputs⟩
  · exact there

theorem steady_discard {next : Storing β} (ran : Steady env plain x P)
    (rest : Steady env plain next Q) :
    Steady env plain (discard x >>= fun _ => next) Q :=
  steady_bind (steady_bind ran fun _ => steady_pure (P := fun _ => True) trivial) fun _ => rest

theorem steady_databaseCall (keeps : plain → ∀ t a t', statement t = .ok (a,t') →
      t'.toolCalls = t.toolCalls ∧ t'.toolOutputs = t.toolOutputs) :
    Steady env plain (databaseCall env statement) fun _ => True := by
  intro s
  unfold databaseCall
  split
  · rename_i a s' ran
    refine ⟨trivial,fun plain => ?_⟩
    split at ran <;> cases ran
    · exact ⟨rfl,rfl,rfl⟩
    · exact ⟨rfl,rfl,rfl⟩
    · rename_i succeeds
      obtain ⟨calls,outputs⟩ := keeps plain _ _ _ succeeds
      exact ⟨rfl,calls,outputs⟩
    · rename_i succeeds
      obtain ⟨calls,outputs⟩ := keeps plain _ _ _ succeeds
      exact ⟨rfl,calls,outputs⟩
  · rename_i ran
    split at ran <;> cases ran

theorem steady_encrypted (bytes : Bytes) :
    Steady env plain (encrypted env bytes) fun _ => True := by
  intro s
  split
  · rename_i ran
    unfold encrypted at ran
    split at ran <;> cases ran
    exact ⟨trivial,fun _ => ⟨rfl,rfl,rfl⟩⟩
  · rename_i ran
    intro seals
    obtain ⟨_,_,sealed,-⟩ := encrypted_yields (s := s) seals bytes
    cases ran.symm.trans sealed

theorem steady_contentEnc (content : Text) :
    Steady env plain (contentEnc env content) fun _ => True := by
  unfold contentEnc
  split
  · exact steady_pure trivial
  · exact steady_bind (steady_encrypted _) fun _ => steady_pure trivial

theorem steady_createIfMissing (i : Uuid) (createdAt : Int) :
    Steady env plain (createAssistantMessageIfMissing env i createdAt) fun _ => True := by
  refine steady_bind (steady_databaseCall ?_) ?_
  · rintro - t _ _ ⟨⟩
    exact ⟨rfl,rfl⟩
  · rintro (e | _ | row)
    · exact steady_pure trivial
    · refine steady_databaseCall fun _ t a t' succeeds => ?_
      unfold Tables.createAssistantMessage at succeeds
      split at succeeds <;> cases succeeds
      exact ⟨rfl,rfl⟩
    · exact steady_pure trivial

theorem steady_finalizeAssistantMessage (i : Uuid) (content : Text) (status : ItemStatus)
    (reason : Option Text) :
    Steady env plain (finalizeAssistantMessage env i content status reason) fun _ => True := by
  refine steady_bind (steady_contentEnc _) fun _ => steady_databaseCall fun _ t a t' succeeds => ?_
  unfold Tables.updateAssistantMessage at succeeds
  split at succeeds <;> cases succeeds
  exact ⟨rfl,rfl⟩

theorem steady_finalizeReasoningItem (i : Uuid) (content : Text) (status : ItemStatus) :
    Steady env plain (finalizeReasoningItem env i content status) fun _ => True := by
  refine steady_bind (steady_contentEnc _) fun _ => steady_databaseCall fun _ t a t' succeeds => ?_
  unfold Tables.updateReasoningItem at succeeds
  split at succeeds <;> cases succeeds
  exact ⟨rfl,rfl⟩

theorem steady_createReasoningItem (i : Uuid) (createdAt : Int) :
    Steady env plain (createReasoningItem env i createdAt) fun _ => True := by
  refine steady_databaseCall fun _ t a t' succeeds => ?_
  unfold Tables.createReasoningItem at succeeds
  split at succeeds <;> cases succeeds
  exact ⟨rfl,rfl⟩

theorem steady_forM {ι : Type} {f : ι → Storing Unit}
    (each : ∀ i, Steady env plain (f i) fun _ => True) (items : List ι) :
    Steady env plain (items.forM f) fun _ => True := by
  induction items with
  | nil => exact steady_pure trivial
  | cons i rest ih => exact steady_bind (each i) fun _ => ih

theorem steady_markPendingItemsIncomplete (reason : Option Text) :
    Steady env plain (markPendingItemsIncomplete env reason) fun _ => True := by
  refine steady_update (fun _ => ⟨rfl,rfl,rfl⟩) fun s =>
    steady_bind (steady_forM (fun p => ?_) _) fun _ => steady_forM (fun p => ?_) _
  · exact steady_bind (steady_finalizeAssistantMessage _ _ _ _) fun _ => steady_pure trivial
  · exact steady_bind (steady_finalizeReasoningItem _ _ _) fun _ => steady_pure trivial

theorem steady_updateTerminalResponseStatus (status : ResponseStatus) :
    Steady env plain (updateTerminalResponseStatus env status) fun _ => True := by
  refine steady_bind (steady_databaseCall ?_) fun _ => steady_pure trivial
  rintro - t _ _ ⟨⟩
  exact ⟨rfl,rfl⟩

theorem steady_allocateCreatedAt : Steady env plain allocateCreatedAt fun _ => True :=
  steady_step (fun _ => rfl) (fun _ => trivial) fun _ _ => ⟨rfl,rfl,rfl⟩

theorem steady_startedAt (i : Uuid) : Steady env plain (startedAt i) fun _ => True := by
  have get : Steady env plain (get : Storing StorageTask) fun _ => True :=
    steady_step (fun _ => rfl) (fun _ => trivial) fun _ _ => ⟨rfl,rfl,rfl⟩
  refine steady_bind get fun s => ?_
  split
  · exact steady_pure trivial
  · refine steady_bind steady_allocateCreatedAt fun _ =>
      steady_bind (P := fun _ => True) ?_ fun _ => steady_pure trivial
    exact steady_step (fun _ => rfl) (fun _ => trivial) fun _ _ => ⟨rfl,rfl,rfl⟩

theorem steady_takePending (i : Uuid) : Steady env plain (takePending i) fun _ => True := by
  refine steady_update (fun _ => ⟨rfl,rfl,rfl⟩) fun s => ?_
  split
  · exact steady_pure trivial
  · exact steady_bind steady_allocateCreatedAt fun _ => steady_pure trivial

/-- The task returns on the terminal messages and goes on after the others; only messages
    about tools touch the rows of tools and the acknowledgements. -/
theorem onStorageMessage_steady (m : StorageMessage) :
    Steady env (m.isTool = false) (onStorageMessage env m) (· = m.isTerminal) := by
  have change {p : Prop} {g : StorageTask → StorageTask} (keeps : p → ∀ s, SameTools s (g s)) :
      Steady env p (modify g : Storing Unit) fun _ => True :=
        steady_step (fun _ => rfl) (fun _ => trivial) keeps
  cases m with
  | messageStarted i =>
    exact steady_bind (steady_startedAt i) fun _ =>
      steady_discard (steady_createIfMissing _ _) (steady_pure rfl)
  | contentDelta i delta | reasoningDelta i delta =>
    exact steady_bind (change fun _ _ => ⟨rfl,rfl,rfl⟩) fun _ => steady_pure rfl
  | messageDone i reason =>
    exact steady_bind (steady_takePending i) fun _ => steady_discard (steady_createIfMissing _ _)
      (steady_discard (steady_finalizeAssistantMessage _ _ _ _) (steady_pure rfl))
  | reasoningStarted i =>
    exact steady_bind (change fun _ _ => ⟨rfl,rfl,rfl⟩) fun _ =>
      steady_bind steady_allocateCreatedAt fun _ =>
      steady_discard (steady_createReasoningItem _ _) (steady_pure rfl)
  | reasoningDone i =>
    exact steady_update (fun _ => ⟨rfl,rfl,rfl⟩) fun s =>
      steady_discard (steady_finalizeReasoningItem _ _ _) (steady_pure rfl)
  | usage _ _ => exact steady_pure rfl
  | responseDone _ =>
    exact steady_bind (steady_markPendingItemsIncomplete _) fun _ =>
      steady_bind (steady_updateTerminalResponseStatus _) fun _ => steady_pure rfl
  | error _ | cancelled =>
    exact steady_bind (steady_updateTerminalResponseStatus _) fun _ =>
      steady_bind (steady_markPendingItemsIncomplete _) fun _ => steady_pure rfl
  | toolCall i name arguments =>
    refine steady_bind steady_allocateCreatedAt fun _ =>
      steady_bind (steady_bind (steady_encrypted _)
      fun _ => steady_databaseCall nofun) ?_
    rintro (e | _)
    · exact steady_bind (change nofun) fun _ => steady_pure rfl
    · exact steady_pure rfl
  | toolOutput i callId output =>
    refine steady_bind steady_allocateCreatedAt fun _ => steady_bind (P := fun _ => True)
      (steady_bind (steady_databaseCall nofun) ?_) fun _ => steady_bind (change nofun) fun _ =>
        steady_pure rfl
    rintro (e | call)
    · exact steady_pure trivial
    · exact steady_bind (steady_encrypted _) fun _ => steady_databaseCall nofun

theorem onChannelClosed_steady : Steady env True (onChannelClosed env) fun _ => True :=
  steady_bind (steady_updateTerminalResponseStatus _) fun _ => steady_markPendingItemsIncomplete _

theorem Steady.ran {s' : StorageTask} (steady : Steady env plain x P) (ran : x s = some (a,s')) :
    P a ∧ (plain → SameTools s s') := by
  have here := steady s
  rw [ran] at here
  exact here

theorem onStorageMessage_returns (seals : env.Seals) (m : StorageMessage) :
    Yields (onStorageMessage env m) s fun returns _ => returns = m.isTerminal := by
  cases ran : onStorageMessage env m s with
  | none =>
    have steady : Steady env _ _ _ := onStorageMessage_steady m
    have panics := steady s
    rw [ran] at panics
    exact absurd seals panics
  | some p => exact ⟨p.1,p.2,ran,((onStorageMessage_steady m).ran ran).1⟩

end

end

/-- A database that answers every call, under a cipher that shows what it seals. -/
def plainStorage : StorageEnv where
  runtime :=
    { primitives := transparentPrimitives
      userKey := .filled 32 1
      countTokens := List.length
      fromUtf8Lossy := fun _ => []
      parseJson := fun _ => none
      printJson := fun _ => []
      parseMessageContent := fun _ => none
      newUuid := fun _ => numberedId 0 }
  nonces _ := sampleNonce
  fates _ := .answered
  conversationId := 1
  responseId := 1
  userId := numberedId 100

def emptyTables : Tables := ⟨[],[],[],[],[],0⟩

theorem plainStorage_sound : plainStorage.Sound where
  answered _ := rfl
  seals _ _ := ⟨_,rfl⟩

end OpenSecret.Responses
