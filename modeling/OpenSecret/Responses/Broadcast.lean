import OpenSecret.Responses.TerminalStatus

/-!
Whether a cancellation reaches the loop it is meant for. The client knows the id
of a response once `response.created` is sent, but the listener subscribes only
when the orchestrator has been spawned and runs; a broadcast in between has no
receiver. From the subscription on none is lost.
-/
namespace OpenSecret.Responses
open Interleaving

/-- `response.created` has been sent and the loop has not ended. A stream that was
    abandoned before its orchestrator was spawned has no loop. -/
def Phase.unfinished : Phase → Bool
  | .created => true
  | .inProgress => true
  | .spawned => true
  | .listening _ => true
  | _ => false

def Phase.subscribed : Phase → Bool
  | .listening _ => true
  | _ => false

/-- The client knows the id and the listener does not listen yet. -/
def Phase.early : Phase → Bool
  | .created => true
  | .inProgress => true
  | .spawned => true
  | _ => false

theorem early_eq (phase : Phase) : phase.early = (phase.unfinished && !phase.subscribed) := by
  cases phase <;> rfl

/-- The loop has ended, or its listener has yet to read the broadcast that stops it. -/
def ToldToStop (id : Uuid) (w : ResponseWorld) : Prop :=
  match w.streams id with
  | some (.listening pending) => id ∈ pending
  | some .stopped => True
  | some .finished => True
  | _ => False

def Broadcast.Received (b : Broadcast) :
    Prop := ∃ phase, b.phase = some phase ∧ phase.subscribed = true

def Informed (w : ResponseWorld) : Prop := ∀ b ∈ w.broadcasts, b.Received → ToldToStop b.id w

section
variable {w v : ResponseWorld} {id : Uuid}

theorem told_send (other : Uuid) (told : ToldToStop id w) : ToldToStop id (w.send other) := by
  unfold ToldToStop ResponseWorld.send at *
  cases phase : w.streams id with
  | none =>
    rw [phase] at told
    exact False.elim told
  | some phase' =>
    rw [phase] at told
    cases phase' <;> simp_all [Phase.receive]

theorem send_delivered (w : ResponseWorld) (id : Uuid) (delivered : Informed w) :
    Informed (w.send id) := by
  intro b mem received
  rcases List.mem_append.mp mem with old | new
  · exact told_send id (delivered b old received)
  · rw [List.mem_singleton.mp new] at received ⊢
    obtain ⟨phase,here,subscribed⟩ := received
    have here : w.streams id = some phase := here
    cases phase <;> simp_all [ToldToStop, ResponseWorld.send, Phase.receive, Phase.subscribed]

/-- A listener reads in order: it stops at its own id and never skips it. -/
theorem moves_told {phase next : Phase} (here : w.streams id = some phase)
    (moved : Phase.Moves id phase next) (told : ToldToStop id w) :
    ToldToStop id { w with streams := Function.update w.streams id (some next) } := by
  simp only [ToldToStop, here, Function.update_self] at told ⊢
  cases moved with
  | create => exact told
  | progress => exact told
  | spawn => exact told
  | subscribe => exact told.elim
  | stop => trivial
  | skip unrelated => exact (List.mem_cons.mp told).resolve_left (Ne.symm unrelated)
  | finish => trivial
  | abandon early => rcases early with rfl | rfl | rfl <;> exact told

theorem update_told {other : Uuid} {next : Option Phase} (different : id ≠ other)
    (told : ToldToStop id w) :
    ToldToStop id { w with streams := Function.update w.streams other next } := by
  simpa only [ToldToStop, Function.update_of_ne different] using told

theorem elsewhere_delivered (elsewhere : Elsewhere w v) (delivered : Informed w) : Informed v := by
  cases elsewhere with
  | rows => exact delivered
  | @opens id new =>
    intro b mem received
    have told := delivered b mem received
    by_cases same : b.id = id
    · simp [ToldToStop, same, new] at told
    · exact update_told same told
  | @moves id phase next here moved =>
    intro b mem received
    have told := delivered b mem received
    by_cases same : b.id = id
    · subst same
      exact moves_told here moved told
    · exact update_told same told

theorem writers_deliver : statusWriters.Confined fun w v => Informed w → Informed v where
  handled
    | .terminal responseId ending fate =>
      confined_bind.mpr ⟨confined_transact fun _ => .inr id,fun _ _ => trivial⟩
    | .cancel id user fates => by
      refine confined_bind.mpr ⟨within_cancelResponse (fun fate => ?_) ?_ ?_,fun _ _ => trivial⟩
      · exact within_mapError.mpr (confined_transact fun _ => .inr fun before => before)
      · exact within_mapError.mpr (confined_transact fun _ => .inr fun before => before)
      · exact confined_bind.mpr ⟨confined_transact fun w => .inr (send_delivered w id),
          fun _ _ => trivial⟩
  interference _ _ h := elsewhere_delivered h

end

/-- In every interleaving: a broadcast that finds the listener subscribed is never
    lost. The loop has ended, or the broadcast still waits to be read. -/
theorem received_broadcast_stops_loop {start : ResponseWorld} (fresh : start.broadcasts = [])
    {c : Config ResponseWorld StatusRequest StatusReply} (run : Run statusWriters ⟨start,[]⟩ c)
    {b : Broadcast} (sent : b ∈ c.shared.broadcasts) (received : b.Received) :
    ToldToStop b.id c.shared := by
  have informed : Informed c.shared := by
    refine run_keeps Informed writers_deliver (fun _ none => absurd none List.not_mem_nil)
      (fun _ _ kept => kept) run ?_
    rw [Informed, fresh]
    exact nofun
  exact informed b sent received

/-- In every interleaving: each cancellation broadcast for a response whose creation
    has been announced and whose loop has not ended finds its listener subscribed,
    and the loop is told to stop, if and only if no broadcast falls between the
    announcement and the subscription. -/
theorem cancellation_reaches_loop_iff {start : ResponseWorld} (fresh : start.broadcasts = [])
    {c : Config ResponseWorld StatusRequest StatusReply} (run : Run statusWriters ⟨start,[]⟩ c) :
    (∀ b ∈ c.shared.broadcasts, ∀ phase, b.phase = some phase → phase.unfinished = true →
      phase.subscribed = true ∧ ToldToStop b.id c.shared) ↔
    ∀ b ∈ c.shared.broadcasts, ∀ phase, b.phase = some phase → phase.early = false := by
  constructor
  · intro reaches b mem phase here
    have heard := reaches b mem phase here
    rw [early_eq]
    cases unfinished : phase.unfinished with
    | false => rfl
    | true => rw [(heard unfinished).1]; rfl
  · intro late b mem phase here unfinished
    have subscribed : phase.subscribed = true := by
      have notEarly := late b mem phase here
      rw [early_eq, unfinished] at notEarly
      simpa using notEarly
    exact ⟨subscribed,received_broadcast_stops_loop fresh run mem ⟨phase,here,subscribed⟩⟩

def ResponseWorld.at (w : ResponseWorld) (phase : Phase) : ResponseWorld :=
  { w with streams := Function.update w.streams (sampleId 1) (some phase) }

def cancelledIn (w : ResponseWorld) : Config ResponseWorld StatusRequest StatusReply :=
  Config.play statusWriters ⟨w,[]⟩
    [.arrive (.cancel (sampleId 1) (sampleId 9) fun _ => .answered),
      .advance 0,.advance 0,.advance 0]

theorem cancelledIn_run (w : ResponseWorld) : Run statusWriters ⟨w,[]⟩ (cancelledIn w) :=
  run_play (fun _ _ => trivial) _

theorem stream_step {c : Config ResponseWorld StatusRequest StatusReply} {phase next : Phase}
    (here : c.shared.streams (sampleId 1) = some phase)
    (moved : Phase.Moves (sampleId 1) phase next) :
    Step statusWriters c ⟨c.shared.at next,c.threads⟩ :=
  .interfere (.moves here moved)

/-- The cancel request comes between `response.created` and the subscription. It
    succeeds, and the loop starts all the same with nothing to stop it. -/
theorem cancellation_lost : ∃ c : Config ResponseWorld StatusRequest StatusReply,
    Run statusWriters ⟨oneResponse,[]⟩ c ∧
    c.shared.tables.responses.map Response.status = [.cancelled] ∧
    c.shared.broadcasts = [⟨sampleId 1,some .created⟩] ∧
    c.shared.streams (sampleId 1) = some (.listening []) := by
  have opened : Run statusWriters ⟨oneResponse,[]⟩ ⟨(oneResponse.at .opened).at .created,[]⟩ :=
    .tail (.single (.interfere (.opens rfl))) (.interfere (.moves rfl .create))
  have cancelled := opened.trans (cancelledIn_run _)
  have announced := cancelled.tail (stream_step rfl .progress)
  have spawned := announced.tail (stream_step rfl .spawn)
  exact ⟨_,spawned.tail (stream_step rfl .subscribe),rfl,rfl,rfl⟩

/-- After the subscription the broadcast waits to be read. -/
theorem cancellation_received :
    (cancelledIn (oneResponse.at (.listening []))).shared.broadcasts =
      [⟨sampleId 1,some (.listening [])⟩] ∧
    ∀ b ∈ (cancelledIn (oneResponse.at (.listening []))).shared.broadcasts, ∀ phase,
      b.phase = some phase → phase.unfinished = true → phase.subscribed = true ∧
        ToldToStop b.id (cancelledIn (oneResponse.at (.listening []))).shared := by
  have sent : (cancelledIn (oneResponse.at (.listening []))).shared.broadcasts =
    [⟨sampleId 1,some (.listening [])⟩] := rfl
  refine ⟨sent,(cancellation_reaches_loop_iff rfl (cancelledIn_run _)).mpr
    fun b mem phase here => ?_⟩
  rw [sent, List.mem_singleton] at mem
  rw [mem] at here
  cases here
  rfl

end OpenSecret.Responses
