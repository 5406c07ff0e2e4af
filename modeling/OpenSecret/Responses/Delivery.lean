import OpenSecret.Responses.Pipeline
import OpenSecret.Responses.Items
import OpenSecret.Responses.StorageLogic

/-!
Whether the client hears of the end of its response. The orchestrator offers
the client exactly one terminal message, but it does not wait for room in the
client's channel: the offer is lost when the channel is full.
-/
namespace OpenSecret.Responses
open Framing Effects Traces List

def Effect.offersTerminal : Effect → Bool
  | .trySendClient message => message.isTerminal
  | _ => false

def Pipeline.offersTerminal (p : Pipeline) : Bool :=
  match p.orchestrator with
  | .ask e _ => e.offersTerminal
  | .done _ => false

def Pipeline.finished (p : Pipeline) : Bool :=
  match p.orchestrator with
  | .ask _ _ => false
  | .done _ => true

/-- Whenever a terminal message was offered, the client's channel had room for it. -/
def RoomForTerminal (trace : List (Pipeline × Move)) : Prop :=
  ∀ p choice, (p,.orchestrator choice) ∈ trace → p.offersTerminal = true →
    p.clientQueue.length < clientChannelBuffer

def Move.disturbs : Move → Bool
  | .listener _ | .disconnect => true
  | .orchestrator _ | .storage | .client => false

/-- Nobody cancelled the response and the client stayed connected. -/
def Undisturbed (trace : List (Pipeline × Move)) : Prop := ∀ x ∈ trace, x.2.disturbs = false

section
variable {env : StorageEnv} {clientEnv : ClientEnv} {trace : List (Pipeline × Move)}
  {p q : Pipeline} {g : Progress}

structure Waiting (p : Pipeline) : Prop where
  running : p.client.status = .running
  none : p.client.terminals = 0
  queued : ∀ m ∈ p.clientQueue, m.isTerminal = false

/-- The loop has ended with its one terminal event, or will when it comes to it. -/
def Delivered (p : Pipeline) : Prop :=
  p.client.status = .ended ∧ p.client.terminals = 1 ∨
    p.client.status = .running ∧ p.client.terminals = 0 ∧ ∃ m ∈ p.clientQueue, m.isTerminal = true

structure Delivering (trace : List (Pipeline × Move)) (p : Pipeline) (g : Progress) : Prop where
  meets : orchestration.Meets (Settles (fun _ g => g.told = true) fun e g => e ≠ .panicked ∧
    g.told = true)
    p.orchestrator g
  listens : p.listener = waitForResponseCancellation.run
  issued : g.issued = p.issued
  heard : g.closed = false
  ready : ∀ e next, p.orchestrator = .ask e next → g.ended = false →
    p.storing = true ∧ ∀ m ∈ p.storageQueue, m.isTerminal = false
  untold : g.told = false → RoomForTerminal trace ∧ Waiting p
  told : g.told = true → RoomForTerminal trace ∧ Delivered p ∨ ¬ RoomForTerminal trace ∧ Waiting p

variable {m : Move} {choice : Choice}

theorem room_grows (quiet : ∀ choice, m = .orchestrator choice → p.offersTerminal = false) :
    RoomForTerminal (trace ++ [(p,m)]) ↔ RoomForTerminal trace := by
  refine ⟨fun room q choice mem => room q choice (mem_append_left _ mem),
    fun room q choice mem offers => ?_⟩
  rcases mem_append.mp mem with old | new
  · exact room q choice old offers
  · cases mem_singleton.mp new
    rw [quiet choice rfl] at offers
    cases offers

theorem room_offered (offers : p.offersTerminal = true) :
    RoomForTerminal (trace ++ [(p,.orchestrator choice)]) ↔
      RoomForTerminal trace ∧ p.clientQueue.length < clientChannelBuffer := by
  refine ⟨fun room => ⟨fun q choice mem => room q choice (mem_append_left _ mem),
    room p choice (mem_append_right _ (mem_singleton.mpr rfl)) offers⟩,?_⟩
  rintro ⟨room,here⟩ q choice' mem offers'
  rcases mem_append.mp mem with old | new
  · exact room q choice' old offers'
  · cases mem_singleton.mp new
    exact here

theorem Waiting.queue {m : StorageMessage} (waiting : Waiting p) (plain : m.isTerminal = false)
    (sameClient : q.client = p.client) (queue : q.clientQueue = p.clientQueue ++ [m]) :
    Waiting q where
  running := sameClient ▸ waiting.running
  none := sameClient ▸ waiting.none
  queued m' mem := by
    rw [queue] at mem
    rcases mem_snoc.mp mem with old | rfl
    · exact waiting.queued m' old
    · exact plain

/-- The orchestrator's moves that offer nothing terminal, for whatever ghost state they lead to. -/
theorem Delivering.quiet {g' : Progress} (delivering : Delivering trace p g) (told : g.told = false)
    (silent : p.offersTerminal = false)
    (meets : orchestration.Meets (Settles (fun _ g => g.told = true) fun e g => e ≠ .panicked ∧
      g.told = true) q.orchestrator g')
    (listens : q.listener = p.listener) (issued : g'.issued = q.issued) (heard : g'.closed = false)
    (ready : g'.ended = false → q.storing = true ∧ ∀ m ∈ q.storageQueue, m.isTerminal = false)
    (untold : g'.told = false) (waiting : Waiting p → Waiting q) :
    Delivering (trace ++ [(p,.orchestrator choice)]) q g' where
  meets := meets
  listens := listens.trans delivering.listens
  issued := issued
  heard := heard
  ready _ _ _ := ready
  untold _ := by
    obtain ⟨room,waits⟩ := delivering.untold told
    exact ⟨(room_grows fun _ _ => silent).mpr room,waiting waits⟩
  told now := by
    rw [untold] at now
    cases now

theorem Delivering.orchestrator (delivering : Delivering trace p g)
    (moved : p.step env clientEnv (.orchestrator choice) = some q) :
    ∃ g', Delivering (trace ++ [(p,.orchestrator choice)]) q g' := by
  obtain ⟨e,next,r,p',asks,replied,rfl⟩ := Pipeline.orchestrator_step moved
  have meets := delivering.meets
  rw [asks] at meets
  obtain ⟨⟨open_,permitted⟩,goesOn⟩ := meets
  have told : g.told = false :=
    open_.resolve_right (by rw [delivering.heard]; exact Bool.false_ne_true)
  have ready := delivering.ready e next asks
  have offers : p.offersTerminal = e.offersTerminal := by rw [Pipeline.offersTerminal, asks]
  cases e with
  | newUuid =>
    dsimp only [Pipeline.respond] at replied
    split at replied
    · cases replied
    rename_i unused
    cases replied
    refine ⟨_,delivering.quiet told offers (goesOn choice.uuid ?_) rfl ?_ delivering.heard
      ready told fun waits => { waits with }⟩
    · rw [← delivering.issued] at unused
      exact unused
    · exact congrArg _ delivering.issued
  | getChatCompletion _ _ | executeTool _ _ | rebuildPrompt =>
    cases replied
    exact ⟨_,delivering.quiet told offers (goesOn _ trivial) rfl delivering.issued
      delivering.heard ready told fun waits => { waits with }⟩
  | sendStorage m =>
    obtain ⟨storing,plain⟩ := ready permitted.2
    dsimp only [Pipeline.respond] at replied
    rw [if_neg (by simp [storing])] at replied
    split at replied
    · cases replied
      refine ⟨_,delivering.quiet told offers (goesOn true trivial) rfl ?_ ?_ ?_ ?_
        fun waits => { waits with }⟩
      · cases m <;> exact delivering.issued
      · cases m <;> exact delivering.heard
      · intro open_
        refine ⟨storing,fun m' mem => ?_⟩
        rcases mem_append.mp mem with old | new
        · exact plain m' old
        · rw [mem_singleton.mp new]
          cases m <;> first | rfl | cases open_
      · cases m <;> exact told
    · cases replied
  | trySendClient m =>
    obtain ⟨room,waits⟩ := delivering.untold told
    cases terminal : m.isTerminal with
    | false =>
      have untold : (g.tell m).told = false := by
        rw [Progress.tell, told, terminal]
        rfl
      dsimp only [Pipeline.respond] at replied
      split at replied
      · cases replied
        exact ⟨_,delivering.quiet told (offers.trans terminal)
          (goesOn true trivial) rfl delivering.issued delivering.heard
          ready untold fun waits => waits.queue terminal rfl rfl⟩
      · cases replied
        exact ⟨_,delivering.quiet told (offers.trans terminal)
          (goesOn false trivial) rfl delivering.issued delivering.heard
          ready untold fun waits => { waits with }⟩
    | true =>
      have fitting : RoomForTerminal (trace ++ [(p,.orchestrator choice)]) ↔
          RoomForTerminal trace ∧ p.clientQueue.length < clientChannelBuffer :=
            room_offered (offers.trans terminal)
      have now : (g.tell m).told = true := by
        rw [Progress.tell, told, terminal]
        rfl
      dsimp only [Pipeline.respond] at replied
      split at replied
      · rename_i fits
        cases replied
        refine ⟨_,⟨goesOn true trivial,delivering.listens,delivering.issued,
          delivering.heard,fun _ _ _ => ready,fun untold => ?_,
          fun _ => .inl ⟨fitting.mpr ⟨room,fits.2⟩,
          .inr ⟨fits.1,waits.none,m,mem_append_right _ mem_cons_self,terminal⟩⟩⟩⟩
        rw [show (orchestration.record g (.trySendClient m) true).told = true from now] at untold
        cases untold
      · rename_i full
        cases replied
        refine ⟨_,⟨goesOn false trivial,delivering.listens,delivering.issued,
          delivering.heard,fun _ _ _ => ready,fun untold => ?_,
          fun _ => .inr ⟨fun fits => full ⟨waits.running,(fitting.mp fits).2⟩,{ waits with }⟩⟩⟩
        rw [show (orchestration.record g (.trySendClient m) false).told = true from now] at untold
        cases untold
  | sendClient m =>
    rw [delivering.heard] at permitted
    cases permitted
  | awaitToolAck c =>
    dsimp only [Pipeline.respond] at replied
    split at replied <;> cases replied <;>
      exact ⟨_,delivering.quiet told offers (goesOn _ trivial) rfl delivering.issued
        delivering.heard ready told fun waits => { waits with }⟩
  | awaitCancellation => exact permitted.elim
  | outOfTurns => exact permitted.elim

theorem room_other (other : ∀ choice, m ≠ .orchestrator choice) :
    RoomForTerminal (trace ++ [(p,m)]) ↔ RoomForTerminal trace :=
  room_grows fun choice same => absurd same (other choice)

theorem Delivering.elsewhere (delivering : Delivering trace p g)
    (other : ∀ choice, m ≠ .orchestrator choice) (orchestrator : q.orchestrator = p.orchestrator)
    (listens : q.listener = p.listener) (issued : q.issued = p.issued)
    (client : q.client = p.client) (clientQueue : q.clientQueue = p.clientQueue)
    (ready : ∀ e next, p.orchestrator = .ask e next → g.ended = false →
      q.storing = true ∧ ∀ m ∈ q.storageQueue, m.isTerminal = false) :
    Delivering (trace ++ [(p,m)]) q g := by
  have waits : Waiting p → Waiting q := fun waits =>
    ⟨client ▸ waits.running,client ▸ waits.none,clientQueue ▸ waits.queued⟩
  have delivered : Delivered p → Delivered q := fun delivered => by
    rw [Delivered, client, clientQueue]
    exact delivered
  refine ⟨orchestrator ▸ delivering.meets,listens.trans delivering.listens,
    delivering.issued.trans issued.symm,delivering.heard,
    fun e next asks => ready e next (orchestrator ▸ asks),fun untold => ?_,fun told => ?_⟩
  · rw [room_other other]
    exact (delivering.untold untold).imp_right waits
  · rw [room_other other]
    exact (delivering.told told).imp (And.imp_right delivered) (And.imp_right waits)

theorem Delivering.selected (delivering : Delivering trace p g) (selected : p.selected = true)
    (e : Effect) (next : Reply e → Task Effect Reply (Outcome ApiError Unit)) :
    p.orchestrator ≠ .ask e next := by
  intro asks
  rw [Pipeline.selected, asks, delivering.listens] at selected
  cases selected

theorem Delivering.storage (seals : env.Seals) (delivering : Delivering trace p g)
    (moved : p.step env clientEnv .storage = some q) :
    Delivering (trace ++ [(p,.storage)]) q g := by
  obtain ⟨storing,⟨-,rfl⟩ | taken | ⟨-,selected,s,-,rfl⟩ | ⟨idle,panics,rfl⟩⟩ :=
    Pipeline.storage_step moved
  · exact delivering.elsewhere nofun rfl rfl rfl rfl rfl fun e next asks open_ =>
      ⟨rfl,(delivering.ready e next asks open_).2⟩
  · obtain ⟨m,rest,returns,s,queued,ran,rfl⟩ := taken
    refine delivering.elsewhere nofun rfl rfl rfl rfl rfl fun e next asks open_ => ?_
    obtain ⟨-,plain⟩ := delivering.ready e next asks open_
    rw [queued] at plain
    obtain ⟨result,s',ran',terminal⟩ := onStorageMessage_returns (s := p.storage) seals m
    rw [ran] at ran'
    cases ran'
    rw [plain m mem_cons_self] at terminal
    exact ⟨congrArg not terminal,fun m' mem => plain m' (mem_cons_of_mem _ mem)⟩
  · exact delivering.elsewhere nofun rfl rfl rfl rfl rfl fun e next asks =>
      absurd asks (delivering.selected selected e next)
  · refine delivering.elsewhere nofun rfl rfl rfl rfl rfl fun e next asks _ => ?_
    cases queued : p.storageQueue with
    | nil => exact absurd asks (delivering.selected (idle queued) e next)
    | cons m rest =>
      obtain ⟨_,_,ran,-⟩ := onStorageMessage_returns (s := p.storage) seals m
      rw [panics m rest queued] at ran
      cases ran

theorem Delivering.client (delivering : Delivering trace p g)
    (moved : p.step env clientEnv .client = some q) :
    Delivering (trace ++ [(p,.client)]) q g := by
  obtain ⟨running,m,rest,queued,rfl⟩ := Pipeline.client_step moved
  have waits : Waiting p →
      Waiting { p with clientQueue := rest, client := p.client.receive clientEnv m } := by
    intro waits
    have plain := waits.queued
    rw [queued] at plain
    obtain ⟨count,status⟩ := p.client.receive_goesOn clientEnv (plain m mem_cons_self)
    exact ⟨status.trans waits.running,count.trans waits.none,
      fun m' mem => plain m' (mem_cons_of_mem _ mem)⟩
  have delivered : Delivered p →
      Delivered { p with clientQueue := rest, client := p.client.receive clientEnv m } := by
    rintro (⟨ended,-⟩ | ⟨-,none,last,mem,terminal⟩)
    · rw [running] at ended
      cases ended
    cases here : m.isTerminal with
    | true =>
      obtain ⟨count,status⟩ := p.client.receive_ends clientEnv here
      exact .inl ⟨status,by rw [count, none]⟩
    | false =>
      obtain ⟨count,status⟩ := p.client.receive_goesOn clientEnv here
      rw [queued] at mem
      rcases mem_cons.mp mem with rfl | later
      · rw [here] at terminal
        cases terminal
      · exact .inr ⟨status.trans running,count.trans none,last,later,terminal⟩
  refine ⟨delivering.meets,delivering.listens,delivering.issued,delivering.heard,
    delivering.ready,fun untold => ?_,fun told => ?_⟩
  · rw [room_other (m := .client) nofun]
    exact (delivering.untold untold).imp_right waits
  · rw [room_other (m := .client) nofun]
    exact (delivering.told told).imp (And.imp_right delivered) (And.imp_right waits)

theorem delivering_start (clientEnv : ClientEnv) (parseJson : Text → Option Json)
    (provider : Option WebSearchProvider) (prompt : List Json) (assistantMessageId : Uuid)
    (tables : Tables) (firstItemCreatedAt : Int) :
    Delivering [] (.start clientEnv parseJson provider prompt
      assistantMessageId tables firstItemCreatedAt)
      (.initial assistantMessageId) where
  meets := setupCompletionProcessor_spec parseJson provider prompt assistantMessageId
  listens := rfl
  issued := rfl
  heard := rfl
  ready _ _ _ _ := ⟨rfl,nofun⟩
  untold _ := ⟨fun _ _ mem => absurd mem not_mem_nil,rfl,rfl,nofun⟩
  told := nofun

theorem delivering_run (seals : env.Seals) {parseJson : Text → Option Json}
    {provider : Option WebSearchProvider} {prompt : List Json} {assistantMessageId : Uuid}
    {tables : Tables} {firstItemCreatedAt : Int}
    (run : Plays (Pipeline.step env clientEnv)
      (.start clientEnv parseJson provider prompt assistantMessageId
      tables firstItemCreatedAt) trace p)
    (undisturbed : Undisturbed trace) : ∃ g, Delivering trace p g := by
  refine plays_invariant (fun trace p => Undisturbed trace →
    ∃ g, Delivering trace p g) ?_ ?_ run undisturbed
  · exact fun _ =>
      ⟨_,delivering_start clientEnv parseJson provider prompt
        assistantMessageId tables firstItemCreatedAt⟩
  · intro trace p m q before moved undisturbed
    obtain ⟨g,delivering⟩ := before fun x mem => undisturbed x (mem_append_left _ mem)
    have quiet := undisturbed (p,m) (mem_append_right _ mem_cons_self)
    cases m with
    | orchestrator choice => exact delivering.orchestrator moved
    | storage => exact ⟨g,delivering.storage seals moved⟩
    | client => exact ⟨g,delivering.client moved⟩
    | listener choice => cases quiet
    | disconnect => cases quiet

/-- In a run that nobody cancels, whatever the database answers: once the
    orchestrator is done and the client loop has emptied its queue, the loop has
    ended with exactly one terminal event if and only if there was room in the
    client's channel when the terminal message was offered. -/
theorem client_ends_iff_room (seals : env.Seals) (parseJson : Text → Option Json)
    (provider : Option WebSearchProvider)
    (prompt : List Json) (assistantMessageId : Uuid) (tables : Tables) (firstItemCreatedAt : Int)
    (run : Plays (Pipeline.step env clientEnv)
      (.start clientEnv parseJson provider prompt assistantMessageId
        tables firstItemCreatedAt) trace p)
    (undisturbed : Undisturbed trace) (finished : p.finished = true)
    (drained : p.clientQueue = []) :
    p.client.status = .ended ∧ p.client.terminals = 1 ↔ RoomForTerminal trace := by
  obtain ⟨g,delivering⟩ := delivering_run seals run undisturbed
  have told : g.told = true := by
    have meets := delivering.meets
    cases result : p.orchestrator with
    | ask e next =>
      rw [Pipeline.finished, result] at finished
      cases finished
    | done outcome =>
      rw [result] at meets
      cases outcome with
      | ok _ => exact meets
      | error _ => exact meets.2
  rcases delivering.told told with ⟨room,⟨ended,one⟩ | ⟨-,-,m,mem,-⟩⟩ | ⟨full,waits⟩
  · exact ⟨fun _ => room,fun _ => ⟨ended,one⟩⟩
  · rw [drained] at mem
    cases mem
  · refine ⟨fun ⟨ended,_⟩ => ?_,fun room => absurd room full⟩
    rw [waits.running] at ended
    cases ended

end

def answering (chunks : List CompletionChunk) : Choice := ⟨numberedId 1,.ok chunks,[],.ok []⟩

def wordChunk : CompletionChunk := deltaChunk [("content",.str "a")]

def attentiveMoves : List Move :=
  .orchestrator (answering [wordChunk,.done]) ::
    (replicate 4 [.orchestrator (answering []),.orchestrator (answering []),
      .storage,.client]).flatten

def attentiveRun : List (Pipeline × Move) × Pipeline :=
  play (Pipeline.step plainStorage plainClient) attentiveMoves
    (.start plainClient (fun _ => none) none [] (numberedId 0) emptyTables 0)

theorem attentive_reader_hears_end :
    attentiveRun.2.client.status = .ended ∧ attentiveRun.2.client.terminals = 1 ∧
      RoomForTerminal attentiveRun.1 := by
  have run : Plays (Pipeline.step plainStorage plainClient)
      (.start plainClient (fun _ => none) none [] (numberedId 0) emptyTables 0)
        attentiveRun.1 attentiveRun.2 :=
    plays_play _ attentiveMoves _
  have quiet : attentiveMoves.all (!·.disturbs) = true := by decide +kernel
  have undisturbed : Undisturbed attentiveRun.1 := fun x mem => by
    simpa using all_eq_true.mp quiet x.2 (play_moves mem)
  have finished : attentiveRun.2.finished = true := by decide +kernel
  have drained : attentiveRun.2.clientQueue = [] := by decide +kernel
  have ended : attentiveRun.2.client.status = .ended := by decide +kernel
  have one : attentiveRun.2.client.terminals = 1 := by decide +kernel
  have room :=
    (client_ends_iff_room plainStorage_sound.seals (fun _ => none)
      none [] (numberedId 0) emptyTables 0
    run undisturbed finished drained).mp ⟨ended,one⟩
  exact ⟨ended,one,room⟩

/-- The client reads nothing until the response is done. An answer of 1023 words fills
    its channel, and the storage task falls behind by no more than its own channel holds. -/
def lateMoves : List Move :=
  .orchestrator (answering (replicate 1023 wordChunk ++ [.done])) ::
    (replicate 1000 (.orchestrator (answering [])) ++ replicate 100 .storage ++
      replicate 1052 (.orchestrator (answering [])) ++ replicate 1024 .client)

def lateRun : List (Pipeline × Move) × Pipeline :=
  play (Pipeline.step plainStorage plainClient) lateMoves
    (.start plainClient (fun _ => none) none [] (numberedId 0) emptyTables 0)

/-- A client that reads too late: its queue is full when the response is done,
    the terminal message is lost, and the loop waits for ever. -/
theorem late_reader_hears_no_end :
    ∃ trace p, Plays (Pipeline.step plainStorage plainClient)
        (.start plainClient (fun _ => none) none [] (numberedId 0) emptyTables 0) trace p ∧
      Undisturbed trace ∧ p.finished = true ∧ p.clientQueue = [] ∧
      ¬ (p.client.status = .ended ∧ p.client.terminals = 1) := by
  have quiet : lateMoves.all (!·.disturbs) = true := by decide +kernel
  have undisturbed : Undisturbed lateRun.1 := fun x mem => by
    simpa using all_eq_true.mp quiet x.2 (play_moves mem)
  have late : lateRun.2.finished = true ∧ lateRun.2.clientQueue.isEmpty = true ∧
      lateRun.2.client.status = .running := by
    decide +kernel
  refine ⟨lateRun.1,lateRun.2,plays_play _ lateMoves _,undisturbed,
    late.1,List.isEmpty_iff.mp late.2.1,?_⟩
  rintro ⟨ended,-⟩
  rw [late.2.2] at ended
  cases ended

end OpenSecret.Responses
