import OpenSecret.Responses.Recording
import OpenSecret.Responses.Items

/-!
Whatever ends the storage task leaves no item in progress, and the messages the
orchestrator sends keep to the ledger: so every row holds the text of its own
deltas, and the timestamps follow the order in which the items started.
-/
namespace OpenSecret.Responses
open Framing Effects Keyed List

section
variable {env : StorageEnv} {before : Tables} {first : Int} {l : Ledger}
  {s : StorageTask} {itemId : Uuid}

variable {α : Type}

theorem giveUp_yields {kind : EntryKind} {view : Entry → α} {finalize : α → Storing Unit}
    {items : List Entry}
    (finalizes : ∀ {l : Ledger} {s : StorageTask} {e : Entry}, Recorded env before l s.tables →
      e ∈ l → e.kind = kind → Yields (finalize (view e)) s fun _ s' =>
      Recorded env before (l.settle .incomplete e.itemId) s'.tables ∧ s.SameMemory s')
    (recorded : Recorded env before l s.tables) (distinct : (items.map Entry.itemId).Nodup)
    (known : ∀ e ∈ items, e ∈ l ∧ e.kind = kind) :
    Yields ((items.map view).forM finalize) s fun _ s' =>
      Recorded env before (l.giveUp items) s'.tables := by
  induction items generalizing l s with
  | nil => exact yields_pure recorded
  | cons e rest ih =>
    obtain ⟨once,distinct⟩ := nodup_cons.mp distinct
    obtain ⟨mem,isKind⟩ := known e mem_cons_self
    refine yields_bind (finalizes recorded mem isKind) ?_
    rintro _ s' ⟨settled,-⟩
    refine ih settled distinct fun a later => ?_
    obtain ⟨there,sameKind⟩ := known a (mem_cons_of_mem _ later)
    exact ⟨mem_amend_of_ne there fun same => once (mem_map.mpr ⟨a,later,same⟩),sameKind⟩

theorem markPendingItemsIncomplete_yields (sound : env.Sound)
    (reflects : Reflects env before first l s) (finishReason : Option Text) :
    Yields (markPendingItemsIncomplete env finishReason) s fun _ s' =>
      Recorded env before l.close s'.tables := by
  have distinct := reflects.recorded.ids
  refine yields_step rfl (yields_step rfl ?_)
  rw [reflects.pendingMessages, reflects.pendingReasoning]
  refine yields_bind (giveUp_yields (fun recorded mem isMessage =>
    finalizeAssistantMessage_yields sound recorded mem isMessage .incomplete finishReason)
      reflects.recorded
    (Ledger.pending_ids distinct) fun e mem => Ledger.of_pending mem) ?_
  intro _ s' recorded
  refine giveUp_yields (fun recorded mem isReasoning =>
    finalizeReasoningItem_yields sound recorded mem isReasoning .incomplete) recorded
    (Ledger.pending_ids distinct) fun e mem => ?_
  obtain ⟨known,isReasoning⟩ := Ledger.of_pending mem
  refine ⟨Ledger.mem_giveUp known fun a pending same => ?_,isReasoning⟩
  obtain ⟨there,isMessage⟩ := Ledger.of_pending pending
  rw [inj_on_of_nodup_map distinct there known same, isReasoning] at isMessage
  cases isMessage

theorem updateTerminalResponseStatus_yields (sound : env.Sound) (status : ResponseStatus)
    (recorded : Recorded env before l s.tables) :
    Yields (updateTerminalResponseStatus env status) s fun _ s' =>
      Recorded env before l s'.tables ∧ s.SameMemory s' := by
  refine yields_bind (databaseCall_yields sound _ rfl) ?_
  rintro _ _ ⟨-,rfl⟩
  exact yields_pure ⟨{ recorded with },rfl,rfl,rfl⟩

theorem Reflects.transport {s' : StorageTask} (reflects : Reflects env before first l s)
    (recorded : Recorded env before l s'.tables) (same : s.SameMemory s') :
    Reflects env before first l s' where
  recorded := recorded
  clock := same.clock.trans reflects.clock
  pendingMessages := same.messages.trans reflects.pendingMessages
  pendingReasoning := same.reasoning.trans reflects.pendingReasoning

/-- A failed or cancelled response first takes its status, then gives up what is pending. -/
theorem abandon_closes {next : Storing α} {post : α → StorageTask → Prop} (sound : env.Sound)
    (reflects : Reflects env before first l s) (status : ResponseStatus)
    (finishReason : Option Text)
    (goesOn : ∀ s', Recorded env before l.close s'.tables → Yields next s' post) :
    Yields (do
        updateTerminalResponseStatus env status
        markPendingItemsIncomplete env finishReason
        next) s post := by
  refine yields_bind (updateTerminalResponseStatus_yields sound status reflects.recorded) ?_
  rintro _ s' ⟨recorded,same⟩
  exact yields_bind (markPendingItemsIncomplete_yields sound
    (reflects.transport recorded same) finishReason)
    fun _ s'' closed => goesOn s'' closed

theorem terminal_closes {m : StorageMessage} (sound : env.Sound)
    (reflects : Reflects env before first l s) (terminal : m.isTerminal = true) :
    Yields (onStorageMessage env m) s fun stop s' => stop = true ∧
      Recorded env before l.close s'.tables := by
  cases m with
  | responseDone reason =>
    refine yields_bind (markPendingItemsIncomplete_yields sound reflects none) ?_
    intro _ s' closed
    refine yields_bind (updateTerminalResponseStatus_yields sound .completed closed) ?_
    rintro _ s'' ⟨recorded,-⟩
    exact yields_pure ⟨rfl,recorded⟩
  | error message =>
    exact abandon_closes sound reflects .failed none fun _ closed => yields_pure ⟨rfl,closed⟩
  | cancelled =>
    exact abandon_closes sound reflects .cancelled (some finishReasonCancelled)
      fun _ closed => yields_pure ⟨rfl,closed⟩
  | _ => cases terminal

/-- The messages keep to the ledger, open unused ids, and stop at a terminal one. -/
def AllowedFrom (before : Tables) (first : Int) : Ledger → List StorageMessage → Prop
  | _, [] => True
  | l, m :: rest => l.Allows m ∧ (∀ opened ∈ m.opens, ¬ before.uses opened.2) ∧
      (m.isTerminal = true → rest = []) ∧ AllowedFrom before first (l.after first m) rest

/-- Whatever comes after the messages, the task ends with a closed ledger. -/
theorem storageTask_closes {messages : List StorageMessage} {ending : List StorageMessage}
    (sound : env.Sound) (allowed : AllowedFrom before first l messages)
    (ends : ∀ m ∈ ending, m.isTerminal = true) (reflects : Reflects env before first l s) :
    Yields (storageTask env (messages ++ ending)) s fun _ s' =>
      Recorded env before (messages.foldl (Ledger.after first) l).close s'.tables := by
  induction messages generalizing l s with
  | nil =>
    cases ending with
    | nil =>
      refine yields_bind (updateTerminalResponseStatus_yields sound .failed reflects.recorded) ?_
      rintro _ s' ⟨recorded,same⟩
      exact markPendingItemsIncomplete_yields sound (reflects.transport recorded same) none
    | cons m rest =>
      refine yields_bind (terminal_closes sound reflects (ends m mem_cons_self)) ?_
      rintro _ s' ⟨rfl,closed⟩
      exact yields_pure closed
  | cons m rest ih =>
    obtain ⟨here,unused,last,later⟩ := allowed
    cases terminal : m.isTerminal with
    | true =>
      have same : l.after first m = l := by cases m <;> first | rfl | cases terminal
      rw [last terminal, foldl_cons, foldl_nil, same]
      refine yields_bind (terminal_closes sound reflects terminal) ?_
      rintro _ s' ⟨rfl,closed⟩
      exact yields_pure closed
    | false =>
      refine yields_bind (onStorageMessage_reflects sound reflects here unused terminal) ?_
      rintro _ s' ⟨rfl,reflects'⟩
      exact ih later reflects'

theorem reflects_start (env : StorageEnv) (before : Tables) (first : Int) :
    Reflects env before first [] (.start before first) where
  recorded :=
    { ids := nodup_nil
      fresh := nofun
      messages := backs_nil _
      reasoning := backs_nil _
      calls := backs_nil _
      outputs := backs_nil _ }
  clock := (Int.add_zero first).symm
  pendingMessages := rfl
  pendingReasoning := rfl

end

def ItemEvent.text : ItemEvent → Text
  | .delta text => text
  | .started | .done => []

def spoken (itemId : Uuid) (messages : List StorageMessage) : Text :=
  (history itemId messages).flatMap ItemEvent.text

section
variable {first : Int} {l : Ledger} {m : StorageMessage} {messages : List StorageMessage}
  {itemId : Uuid}

theorem spoken_append (itemId : Uuid) (messages others : List StorageMessage) :
    spoken itemId (messages ++ others) = spoken itemId messages ++ spoken itemId others := by
  rw [spoken, history_append, flatMap_append]
  rfl

variable {kind : ItemKind} {status : ItemStatus}

theorem spoken_item {event : ItemEvent} (about : m.item = some (kind,itemId,event)) (i : Uuid) :
    spoken i [m] = if itemId = i then event.text else [] := by
  rw [spoken, history_item about]
  split
  · exact append_nil _
  · rfl

/-- Each entry holds what was said under its id, and nothing was said under other ids. -/
structure Verbatim (l : Ledger) (messages : List StorageMessage) : Prop where
  texts : ∀ e ∈ l, e.text = spoken e.itemId messages
  silent : ∀ i, i ∉ l.ids → spoken i messages = []

theorem spoken_quiet (quiet : ∀ kind i text, m.item ≠ some (kind,i,.delta text)) (i : Uuid) :
    spoken i (messages ++ [m]) = spoken i messages := by
  rw [spoken_append]
  cases about : m.item with
  | none => simp [spoken, history, StorageMessage.eventOf, about]
  | some item =>
    obtain ⟨kind,itemId,event⟩ := item
    rw [spoken_item about]
    cases event with
    | delta text => exact absurd about (quiet kind itemId text)
    | started | done => rw [ItemEvent.text, ite_self, append_nil]

theorem verbatim_start {kind : EntryKind} (verbatim : Verbatim l messages)
    (new : itemId ∉ l.ids) (quiet : ∀ kind i text, m.item ≠ some (kind,i,.delta text)) :
    Verbatim (l.start kind itemId status first) (messages ++ [m]) where
  texts e mem := by
    rw [spoken_quiet quiet]
    rcases mem_snoc.mp mem with old | rfl
    · exact verbatim.texts e old
    · exact (verbatim.silent itemId new).symm
  silent i outside := by
    rw [Ledger.ids_start, mem_append, not_or] at outside
    rw [spoken_quiet quiet]
    exact verbatim.silent i outside.1

theorem verbatim_settle (verbatim : Verbatim l messages)
    (quiet : ∀ kind i text, m.item ≠ some (kind,i,.delta text)) :
    Verbatim (l.settle status itemId) (messages ++ [m]) where
  texts e mem := by
    rw [spoken_quiet quiet]
    rcases mem_amend mem with ⟨old,known,-,rfl⟩ | ⟨known,-⟩
    · exact verbatim.texts old known
    · exact verbatim.texts e known
  silent i outside := by
    rw [Ledger.ids_settle] at outside
    rw [spoken_quiet quiet]
    exact verbatim.silent i outside

theorem verbatim_extend {delta : Text} (verbatim : Verbatim l messages)
    (known : itemId ∈ l.ids) (about : m.item = some (kind,itemId,.delta delta)) :
    Verbatim (l.extend itemId delta) (messages ++ [m]) where
  texts e mem := by
    rw [spoken_append, spoken_item about]
    rcases mem_amend mem with ⟨old,there,here,rfl⟩ | ⟨there,elsewhere⟩
    · rw [if_pos here.symm]
      exact congrArg (· ++ delta) (verbatim.texts old there)
    · rw [if_neg (Ne.symm elsewhere), append_nil]
      exact verbatim.texts e there
  silent i outside := by
    rw [Ledger.ids_extend] at outside
    have differs : itemId ≠ i := fun same => outside (same ▸ known)
    rw [spoken_append, spoken_item about, if_neg differs, append_nil]
    exact verbatim.silent i outside

theorem verbatim_message (allowed : l.Allows m) (verbatim : Verbatim l messages) :
    Verbatim (l.after first m) (messages ++ [m]) := by
  have known : ∀ kind i, l.isPending kind i → i ∈ l.ids := by
    rintro kind i ⟨e,mem,-,rfl,-⟩
    exact mem_map.mpr ⟨e,mem,rfl⟩
  have unchanged : (∀ kind i text, m.item ≠ some (kind,i,.delta text)) →
    Verbatim l (messages ++ [m]) :=
    fun quiet => ⟨fun e mem => (verbatim.texts e mem).trans (spoken_quiet quiet _).symm,
      fun i outside => (spoken_quiet quiet i).trans (verbatim.silent i outside)⟩
  cases m with
  | messageStarted i | reasoningStarted i | toolCall i _ _ =>
    exact verbatim_start verbatim allowed nofun
  | toolOutput i _ _ => exact verbatim_start verbatim allowed.1 nofun
  | contentDelta i delta | reasoningDelta i delta =>
    exact verbatim_extend verbatim (known _ i allowed) rfl
  | messageDone i _ | reasoningDone i => exact verbatim_settle verbatim nofun
  | usage _ _ | responseDone _ | error _ | cancelled => exact unchanged nofun

theorem verbatim_messages {before : Tables} {later : List StorageMessage}
    (allowed : AllowedFrom before first l later) (verbatim : Verbatim l messages) :
    Verbatim (later.foldl (Ledger.after first) l) (messages ++ later) := by
  induction later generalizing l messages with
  | nil => rwa [append_nil]
  | cons m rest ih =>
    rw [append_cons]
    exact ih allowed.2.2.2 (verbatim_message allowed.1 verbatim)

end

section
variable {before : Tables} {first : Int} {g : Progress} {l : Ledger}
  {m : StorageMessage} {itemId : Uuid}

theorem allowedFrom_take {messages more : List StorageMessage}
    (allowed : AllowedFrom before first l (messages ++ more)) :
    AllowedFrom before first l messages := by
  induction messages generalizing l with
  | nil => trivial
  | cons m rest ih =>
    obtain ⟨here,unused,last,later⟩ := allowed
    exact ⟨here,unused,fun terminal => (append_eq_nil_iff.mp (last terminal)).1,ih later⟩

namespace Ledger
variable {kind k : EntryKind} {status : ItemStatus} {i : Uuid}

theorem isPending_start (here : l.isPending k i) :
    (l.start kind itemId status first).isPending k i := by
  obtain ⟨e,mem,holds⟩ := here
  exact ⟨e,mem_append_left _ mem,holds⟩

theorem isPending_started : (l.start kind itemId .inProgress first).isPending kind itemId :=
  ⟨_,mem_append_right _ (mem_singleton.mpr rfl),rfl,rfl,rfl⟩

theorem isPending_extend {delta : Text} (here : l.isPending k i) :
    (l.extend itemId delta).isPending k i := by
  obtain ⟨e,mem,holds⟩ := here
  by_cases same : e.itemId = itemId
  · exact ⟨_,mem_amend_of mem same,holds⟩
  · exact ⟨e,mem_amend_of_ne mem same,holds⟩

theorem isPending_settle (here : l.isPending k i) (other : i ≠ itemId) :
    (l.settle status itemId).isPending k i := by
  obtain ⟨e,mem,isKind,rfl,unsettled⟩ := here
  exact ⟨e,mem_amend_of_ne mem other,isKind,rfl,unsettled⟩

theorem isPending_apart (distinct : l.ids.Nodup) (here : l.isPending kind itemId)
    (there : l.isPending k i) (other : kind ≠ k) : i ≠ itemId := by
  rintro rfl
  obtain ⟨e,mem,isKind,same,-⟩ := there
  exact other ((kind_of_id distinct (isPending_some here) mem same).symm.trans isKind)

theorem item_amend {change : Entry → Entry}
    (keeps : ∀ e, (change e).kind = e.kind ∧ (change e).itemId = e.itemId)
    (here : ∃ e ∈ l, e.kind = k ∧ e.itemId = i) :
    ∃ e ∈ amend Entry.itemId itemId change l, e.kind = k ∧ e.itemId = i := by
  obtain ⟨e,mem,isKind,same⟩ := here
  by_cases changed : e.itemId = itemId
  · exact ⟨_,mem_amend_of mem changed,(keeps e).1.trans isKind,(keeps e).2.trans same⟩
  · exact ⟨e,mem_amend_of_ne mem changed,isKind,same⟩

end Ledger

/-- The ledger knows every item the orchestrator has open. -/
structure Keeps (before : Tables) (g : Progress) (l : Ledger) : Prop where
  ids : l.ids.Nodup
  started : ∀ i ∈ l.ids, i ∈ g.started
  issued : ∀ i ∈ g.issued, ¬ before.uses i
  message : ∀ i, g.message = .opened i → l.isPending .message i
  reasoning : ∀ i, g.reasoning = .opened i → l.isPending .reasoning i
  tool : ∀ i, g.tool = .called i → ∃ e ∈ l, e.kind = .toolCall ∧ e.itemId = i

namespace Keeps
variable (keeps : Keeps before g l)
include keeps

theorem allowed (allowed : g.allows m) :
    l.Allows m ∧ ∀ opened ∈ m.opens, ¬ before.uses opened.2 := by
  have new : ∀ i, g.unused i → i ∉ l.ids := fun i unused known => unused.2 (keeps.started i known)
  have fresh : ∀ i, g.unused i → ¬ before.uses i := fun i unused => keeps.issued i unused.1
  cases m with
  | messageStarted i => exact ⟨new i allowed.2,by rintro _ ⟨⟩; exact fresh i allowed.2⟩
  | reasoningStarted i => exact ⟨new i allowed.2,by rintro _ ⟨⟩; exact fresh i allowed.2⟩
  | toolCall i _ _ => exact ⟨new i allowed.2.2,by rintro _ ⟨⟩; exact fresh i allowed.2.2⟩
  | toolOutput i callId _ =>
    exact ⟨⟨new i allowed.2.2,keeps.tool callId allowed.1⟩,
      by rintro _ ⟨⟩; exact fresh i allowed.2.2⟩
  | contentDelta i _ | messageDone i _ => exact ⟨keeps.message i allowed,nofun⟩
  | reasoningDelta i _ | reasoningDone i => exact ⟨keeps.reasoning i allowed,nofun⟩
  | usage _ _ | responseDone _ | error _ | cancelled => exact ⟨trivial,nofun⟩

/-- A new entry: what was open stays open, whatever the phases say of the new item. -/
theorem start {kind : EntryKind} {status : ItemStatus} {g' : Progress}
    (unused : g.unused itemId) (started : g'.started = itemId :: g.started)
    (issued : g'.issued = g.issued)
    (message : ∀ i, g'.message = .opened i → g.message = .opened i ∨
      i = itemId ∧ kind = .message ∧ status = .inProgress)
    (reasoning : ∀ i, g'.reasoning = .opened i → g.reasoning = .opened i ∨
      i = itemId ∧ kind = .reasoning ∧ status = .inProgress)
    (tool : ∀ i, g'.tool = .called i → g.tool = .called i ∨ i = itemId ∧ kind = .toolCall) :
    Keeps before g' (l.start kind itemId status first) where
  ids := by
    rw [Ledger.ids_start]
    refine nodup_append.mpr ⟨keeps.ids,nodup_singleton _,?_⟩
    rintro i known j here rfl
    exact unused.2 (mem_singleton.mp here ▸ keeps.started i known)
  started i mem := by
    rw [Ledger.ids_start] at mem
    rw [started]
    rcases mem_append.mp mem with old | new
    · exact mem_cons_of_mem _ (keeps.started i old)
    · exact mem_cons.mpr (.inl (mem_singleton.mp new))
  issued i mem := keeps.issued i (issued ▸ mem)
  message i opened := by
    rcases message i opened with old | ⟨rfl,rfl,rfl⟩
    · exact Ledger.isPending_start (keeps.message i old)
    · exact Ledger.isPending_started
  reasoning i opened := by
    rcases reasoning i opened with old | ⟨rfl,rfl,rfl⟩
    · exact Ledger.isPending_start (keeps.reasoning i old)
    · exact Ledger.isPending_started
  tool i called := by
    rcases tool i called with old | ⟨rfl,rfl⟩
    · obtain ⟨e,mem,holds⟩ := keeps.tool i old
      exact ⟨e,mem_append_left _ mem,holds⟩
    · exact ⟨_,mem_append_right _ (mem_singleton.mpr rfl),rfl,rfl⟩

theorem extend {delta : Text} : Keeps before g (l.extend itemId delta) where
  ids := by rw [Ledger.ids_extend]; exact keeps.ids
  started i mem := keeps.started i (by rwa [Ledger.ids_extend] at mem)
  issued := keeps.issued
  message i opened := Ledger.isPending_extend (keeps.message i opened)
  reasoning i opened := Ledger.isPending_extend (keeps.reasoning i opened)
  tool i called := Ledger.item_amend (fun _ => ⟨rfl,rfl⟩) (keeps.tool i called)

theorem messageDone (opened : g.message = .opened itemId) :
    Keeps before { g with message := .closed itemId } (l.settle .completed itemId) where
  ids := by rw [Ledger.ids_settle]; exact keeps.ids
  started i mem := keeps.started i (by rwa [Ledger.ids_settle] at mem)
  issued := keeps.issued
  message := nofun
  reasoning i other := Ledger.isPending_settle (keeps.reasoning i other)
    (Ledger.isPending_apart keeps.ids (keeps.message itemId opened) (keeps.reasoning i other) nofun)
  tool i called := Ledger.item_amend (fun _ => ⟨rfl,rfl⟩) (keeps.tool i called)

theorem reasoningDone (opened : g.reasoning = .opened itemId) :
    Keeps before { g with reasoning := .closed itemId } (l.settle .completed itemId) where
  ids := by rw [Ledger.ids_settle]; exact keeps.ids
  started i mem := keeps.started i (by rwa [Ledger.ids_settle] at mem)
  issued := keeps.issued
  message i other := Ledger.isPending_settle (keeps.message i other)
    (Ledger.isPending_apart keeps.ids (keeps.reasoning itemId opened) (keeps.message i other) nofun)
  reasoning := nofun
  tool i called := Ledger.item_amend (fun _ => ⟨rfl,rfl⟩) (keeps.tool i called)

theorem advance (allowed : g.allows m) :
    Keeps before (g.advance m) (l.after first m) := by
  cases m with
  | messageStarted i =>
    exact keeps.start allowed.2 rfl rfl (fun j opened =>
      .inr ⟨(ItemPhase.opened.inj opened).symm,rfl,rfl⟩)
      (fun j opened => .inl opened) fun j called => .inl called
  | reasoningStarted i =>
    exact keeps.start allowed.2 rfl rfl (fun j opened => .inl opened)
      (fun j opened => .inr ⟨(ItemPhase.opened.inj opened).symm,rfl,rfl⟩) fun j called =>
        .inl called
  | toolCall i _ _ =>
    exact keeps.start allowed.2.2 rfl rfl (fun j opened => .inl opened)
      (fun j opened => .inl opened)
      fun j called => .inr ⟨(ToolPhase.called.inj called).symm,rfl⟩
  | toolOutput i _ _ =>
    exact keeps.start allowed.2.2 rfl rfl (fun j opened => .inl opened)
      (fun j opened => .inl opened) nofun
  | contentDelta i _ | reasoningDelta i _ => exact keeps.extend
  | messageDone i _ => exact keeps.messageDone allowed
  | reasoningDone i => exact keeps.reasoningDone allowed
  | usage _ _ => exact keeps
  | responseDone _ | error _ | cancelled => exact { keeps with }

/-- Messages apart, an exchange leaves the ledger alone and opens nothing. -/
theorem exchange {e : Effect} {r : Reply e} (permitted : orchestration.permits g e)
    (fresh : ∀ i ∈ drawn [⟨e,r⟩], ¬ before.uses i) :
    Keeps before (orchestration.record g e r) ((sent [⟨e,r⟩]).foldl (Ledger.after first) l) := by
  cases e with
  | newUuid =>
    exact { keeps with
      issued := fun i mem => by
        rcases mem_cons.mp mem with rfl | old
        · exact fresh i mem_cons_self
        · exact keeps.issued i old }
  | getChatCompletion _ _ => exact { keeps with message := nofun, reasoning := nofun }
  | sendStorage m =>
    cases r with
    | true => exact keeps.advance permitted.2.1
    | false => exact { keeps with }
  | awaitToolAck c =>
    refine { keeps with tool := fun i called => ?_ }
    dsimp only [orchestration, Progress.record] at called
    split at called <;> cases called
  | trySendClient _ | sendClient _ => exact { keeps with }
  | executeTool _ _ | rebuildPrompt | awaitCancellation => exact keeps
  | outOfTurns => cases r

end Keeps

theorem drawn_cons (exchange : (e : Effect) × Reply e) (rest : Exchanges Effect Reply) :
    drawn (exchange :: rest) = drawn [exchange] ++ drawn rest :=
  filterMap_append (l := [exchange])

variable {exchanges : Exchanges Effect Reply}

theorem sent_ended (permitted : orchestration.Permitted g exchanges)
    (ended : g.ended = true) : sent exchanges = [] := by
  induction exchanges generalizing g with
  | nil => rfl
  | cons exchange rest ih =>
    obtain ⟨e,r⟩ := exchange
    cases e with
    | sendStorage m =>
      have open_ : g.ended = false := permitted.1.2.2
      rw [ended] at open_
      cases open_
    | outOfTurns => cases r
    | _ => exact ih permitted.2 ended

theorem sent_allowed (permitted : orchestration.Permitted g exchanges)
    (keeps : Keeps before g l) (fresh : ∀ i ∈ drawn exchanges, ¬ before.uses i) :
    AllowedFrom before first l (sent exchanges) := by
  induction exchanges generalizing g l with
  | nil => trivial
  | cons exchange rest ih =>
    obtain ⟨e,r⟩ := exchange
    rw [drawn_cons] at fresh
    have keeps' :
      Keeps before (orchestration.record g e r) ((sent [⟨e,r⟩]).foldl (Ledger.after first) l) :=
      keeps.exchange permitted.1 fun i mem => fresh i (mem_append_left _ mem)
    have later := ih permitted.2 keeps' fun i mem => fresh i (mem_append_right _ mem)
    cases e with
    | sendStorage m =>
      cases r with
      | true =>
        obtain ⟨here,unused⟩ := keeps.allowed permitted.1.2.1
        refine ⟨here,unused,fun terminal => sent_ended permitted.2 ?_,later⟩
        cases m <;> first | rfl | cases terminal
      | false => exact later
    | outOfTurns => cases r
    | _ => exact later

end

def Tables.createdAt (t : Tables) : EntryKind × Uuid → Option Int
  | (.message,i) => (t.assistantMessages.find? (·.uuid = i)).map (·.createdAt)
  | (.reasoning,i) => (t.reasoningItems.find? (·.uuid = i)).map (·.createdAt)
  | (.toolCall,i) => (t.toolCalls.find? (·.uuid = i)).map (·.createdAt)
  | (.toolOutput,i) => (t.toolOutputs.find? (·.uuid = i)).map (·.createdAt)

def Tables.untouched (t : Tables) (responseId : Int) : Prop :=
  (∀ row ∈ t.assistantMessages, row.responseId ≠ some responseId) ∧
    ∀ row ∈ t.reasoningItems, row.responseId ≠ some responseId

section
variable {env : StorageEnv} {before t : Tables} {first : Int} {l : Ledger}

variable {e : Entry}

theorem Recorded.createdAt (recorded : Recorded env before l t) (mem : e ∈ l) :
    t.createdAt e.item = some e.createdAt := by
  have unused : ¬ before.uses e.itemId := recorded.fresh _ (mem_map.mpr ⟨e,mem,rfl⟩)
  have distinct : ∀ k, ((l.ofKind k).map Entry.itemId).Nodup := fun k =>
    recorded.ids.sublist (filter_sublist.map _)
  have ofKind : e ∈ l.ofKind e.kind := mem_filter.mpr ⟨mem,decide_eq_true rfl⟩
  rw [Entry.item]
  cases kind : e.kind with
  | message =>
    exact backs_find (fun _ _ row => row.uuid) (fun _ _ row => row.createdAt)
      (distinct .message) recorded.messages
      (kind ▸ ofKind) fun row old same => unused (.inl ⟨row,old,same⟩)
  | reasoning =>
    exact backs_find (fun _ _ row => row.uuid) (fun _ _ row => row.createdAt)
      (distinct .reasoning) recorded.reasoning
      (kind ▸ ofKind) fun row old same => unused (.inr (.inl ⟨row,old,same⟩))
  | toolCall =>
    exact backs_find (fun _ _ row => row.uuid) (fun _ _ row => row.createdAt)
      (distinct .toolCall) recorded.calls
      (kind ▸ ofKind) fun row old same => unused (.inr (.inr (.inl ⟨row,old,same⟩)))
  | toolOutput =>
    exact backs_find (fun _ _ row => row.uuid) (fun _ _ row => row.createdAt)
      (distinct .toolOutput) recorded.outputs
      (kind ▸ ofKind) fun row old same => unused (.inr (.inr (.inr ⟨row,old,same⟩)))

theorem close_settled {messages : List StorageMessage} (verbatim : Verbatim l messages)
    {k : EntryKind} (isItem : k = .message ∨ k = .reasoning) (mem : e ∈ l.close.ofKind k) :
    e.status ≠ .inProgress ∧ e.text = spoken e.itemId messages := by
  obtain ⟨closed,isKind⟩ := mem_filter.mp mem
  obtain ⟨old,known,same,settled⟩ := Ledger.of_close closed
  have kind : e.kind = k := of_decide_eq_true isKind
  refine ⟨settled (kind ▸ isItem),?_⟩
  rw [same.text, same.itemId]
  exact verbatim.texts old known

/-- Whatever the orchestrator has sent when the storage task is stopped, by a
    terminal message or by the end of the channel: no item of the response stays
    in progress, each row holds the deltas of its item in order, and the
    timestamps increase in the order in which the items started. -/
theorem storage_task_durable (parseJson : Text → Option Json) (provider : Option WebSearchProvider)
    (prompt : List Json) (assistantMessageId : Uuid) (env : StorageEnv) (before : Tables)
    (first : Int) {exchanges : Exchanges Effect Reply}
    {rest : Task Effect Reply (Outcome ApiError Unit)} {messages ending : List StorageMessage}
    (run : Reaches (setupCompletionProcessor parseJson provider prompt assistantMessageId).run
      exchanges rest)
    (distinct : (assistantMessageId :: drawn exchanges).Nodup)
    (unused : ∀ i ∈ assistantMessageId :: drawn exchanges, ¬ before.uses i)
    (untouched : before.untouched env.responseId) (sound : env.Sound)
    (cut : messages <+: sent exchanges)
    (ends : ending = [] ∨ ∃ m, m.isTerminal = true ∧ ending = [m]) :
    ∃ final, storageTask env (messages ++ ending) (.start before first) = some ((),final) ∧
      (∀ row ∈ final.tables.assistantMessages, row.responseId = some env.responseId →
        row.status ≠ .inProgress ∧ env.Holds row.contentEnc (spoken row.uuid messages)) ∧
      (∀ row ∈ final.tables.reasoningItems, row.responseId = some env.responseId →
        row.status ≠ .inProgress ∧ env.Holds row.contentEnc (spoken row.uuid messages)) ∧
      ∃ stamps : List Int, (messages.filterMap StorageMessage.opens).map final.tables.createdAt =
        stamps.map some ∧
        stamps.Pairwise (· < ·) := by
  obtain ⟨once,distinct⟩ := nodup_cons.mp distinct
  have honoured : orchestration.Honoured (.initial assistantMessageId) exchanges :=
    honoured_of_distinct rfl rfl distinct fun i mem issued =>
      once (mem_singleton.mp issued ▸ mem)
  obtain ⟨permitted,-⟩ := orchestration.reaches_permitted run
    (setupCompletionProcessor_spec parseJson provider prompt assistantMessageId) honoured
  have keeps : Keeps before (.initial assistantMessageId) [] :=
    { ids := nodup_nil
      started := nofun
      issued := fun i mem => unused i (mem_singleton.mp mem ▸ mem_cons_self)
      message := nofun
      reasoning := nofun
      tool := nofun }
  obtain ⟨more,whole⟩ := cut
  have allowed : AllowedFrom before first [] messages := by
    have all : AllowedFrom before first [] (sent exchanges) :=
      sent_allowed permitted keeps fun i mem => unused i (mem_cons_of_mem _ mem)
    rw [← whole] at all
    exact allowedFrom_take all
  have terminal : ∀ m ∈ ending, m.isTerminal = true := by
    rcases ends with rfl | ⟨m,terminal,rfl⟩
    · exact nofun
    · exact fun _ mem => mem_singleton.mp mem ▸ terminal
  obtain ⟨_,final,ran,recorded⟩ :=
    storageTask_closes sound allowed terminal (reflects_start env before first)
  have verbatim : Verbatim (messages.foldl (Ledger.after first) []) messages :=
    verbatim_messages allowed (⟨nofun,fun _ _ => rfl⟩ : Verbatim [] [])
  refine ⟨final,ran,fun row stored ours => ?_,fun row stored ours => ?_,?_⟩
  · rcases backs_row recorded.messages stored with old | ⟨e,mem,stands⟩
    · exact absurd ours (untouched.1 row old)
    obtain ⟨settled,text⟩ := close_settled verbatim (.inl rfl) mem
    rw [stands.status, stands.uuid, ← text]
    exact ⟨settled,stands.content settled⟩
  · rcases backs_row recorded.reasoning stored with old | ⟨e,mem,stands⟩
    · exact absurd ours (untouched.2 row old)
    obtain ⟨settled,text⟩ := close_settled verbatim (.inr rfl) mem
    rw [stands.status, stands.uuid, ← text]
    exact ⟨settled,stands.content settled⟩
  · have stamped : Ledger.Stamped first (messages.foldl (Ledger.after first) []) :=
      Ledger.stamped_messages ⟨.nil,nofun⟩
    refine ⟨(messages.foldl (Ledger.after first) []).map Entry.createdAt,?_,stamped.1⟩
    have opened : (messages.foldl (Ledger.after first) []).map Entry.item =
      messages.filterMap StorageMessage.opens :=
      Ledger.items_messages
    -- closing keeps the stamps, so what the tables hold for the closed ledger holds for the open
    -- one
    have items : ∀ ledger : Ledger, ledger.map Entry.item = (ledger.map Entry.stamp).map Prod.fst :=
      fun ledger => by
      rw [map_map]; rfl
    have stamps : ∀ ledger : Ledger, ledger.map Entry.createdAt =
      (ledger.map Entry.stamp).map Prod.snd := fun ledger => by
      rw [map_map]; rfl
    rw [← opened, items, stamps, ← Ledger.stamps_close, ← items, ← stamps, map_map, map_map]
    exact map_congr_left fun e mem => recorded.createdAt mem

end

/-- A turn that calls the tool, then a turn that answers. -/
def searchedTurns : List (List CompletionChunk) :=
  [toolTurnChunks,[deltaChunk [("content",.str "Found")],.done]]

def searchedResponse : Exchanges Effect Reply × Task Effect Reply (Outcome ApiError Unit) :=
  (setupCompletionProcessor (fun _ => none) (some .brave) [] (numberedId 0)).run.serve
    plainAnswers (1,searchedTurns)

/-- Cancelled in the middle of the answer, with five items started. -/
theorem cancelled_response_is_settled :
    (((sent searchedResponse.1).take 10).filterMap StorageMessage.opens).length = 5 ∧
    ∃ final, storageTask plainStorage ((sent searchedResponse.1).take 10 ++ [.cancelled])
      (.start emptyTables 7) =
        some ((),final) ∧
      (∀ row ∈ final.tables.assistantMessages, row.responseId = some 1 → row.status ≠ .inProgress) ∧
      ∃ stamps : List Int, (((sent searchedResponse.1).take 10).filterMap StorageMessage.opens).map
        final.tables.createdAt = stamps.map some ∧ stamps.Pairwise (· < ·) := by
  obtain ⟨final,ran,settled,-,stamps⟩ :=
    storage_task_durable (fun _ => none) (some .brave) [] (numberedId 0)
    plainStorage emptyTables 7 (reaches_serve plainAnswers _ (1,searchedTurns)) (by decide +kernel)
    (fun _ _ => by rintro (⟨_,⟨⟩,_⟩ | ⟨_,⟨⟩,_⟩ | ⟨_,⟨⟩,_⟩ | ⟨_,⟨⟩,_⟩)) ⟨nofun,nofun⟩
    plainStorage_sound ( take_prefix 10 _) (.inr ⟨.cancelled,rfl,rfl⟩)
  exact ⟨by decide +kernel,final,ran,fun row stored ours => (settled row stored ours).1,stamps⟩

end OpenSecret.Responses
