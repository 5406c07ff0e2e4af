import OpenSecret.Responses.Cancellation

/-!
A response ends once. Every write goes from an active status to a final one, so
a final status stays, and of the writers that race for a response one at most is
told that it has won.
-/
namespace OpenSecret.Responses
open Interleaving List

/-- Serial ids: unique, and below the next one. -/
structure Numbered (w : ResponseWorld) : Prop where
  unique : (w.tables.responses.map Response.id).Nodup
  below : ∀ r ∈ w.tables.responses, r.id < w.serial

def HasStatus (id : Int) (status : ResponseStatus) (w : ResponseWorld) : Prop :=
  id < w.serial ∧ ∀ r ∈ w.tables.responses, r.id = id → r.status = status

def Ended (id : Int) (w : ResponseWorld) : Prop :=
  id < w.serial ∧ ∀ r ∈ w.tables.responses, r.id = id → r.status.active = false

/-- A row stays as it is or goes from an active status to a final one. -/
def Response.Ends (r r' : Response) : Prop :=
  r' = r ∨ r.status.active = true ∧ ∃ status, status.active = false ∧ r' = { r with status }

def Ends (w v : ResponseWorld) : Prop :=
  v.serial = w.serial ∧ ∃ f : Response → Response,
    v.tables.responses = w.tables.responses.map f ∧ ∀ r : Response, r.Ends (f r)

section
variable {w v : ResponseWorld} {id : Int} {status : ResponseStatus}

variable {r : Response}

theorem ends_id {r' : Response} (ends : r.Ends r') : r'.id = r.id := by
  rcases ends with rfl | ⟨_,_,_,rfl⟩ <;> rfl

theorem ends_numbered (ends : Ends w v) (numbered : Numbered w) : Numbered v := by
  obtain ⟨serial,f,rows,ends⟩ := ends
  have ids : v.tables.responses.map Response.id = w.tables.responses.map Response.id := by
    rw [rows, map_map]
    exact map_congr_left fun r _ => ends_id (ends r)
  refine ⟨ids ▸ numbered.unique,fun r mem => ?_⟩
  rw [rows] at mem
  obtain ⟨old,there,rfl⟩ := mem_map.mp mem
  rw [serial, ends_id (ends old)]
  exact numbered.below old there

theorem ends_hasStatus (final : status.active = false) (ends : Ends w v)
    (has : HasStatus id status w) :
    HasStatus id status v := by
  obtain ⟨serial,f,rows,ends⟩ := ends
  refine ⟨serial ▸ has.1,fun r mem same => ?_⟩
  rw [rows] at mem
  obtain ⟨old,there,rfl⟩ := mem_map.mp mem
  have before := has.2 old there ((ends_id (ends old)).symm.trans same)
  rcases ends old with kept | ⟨active,_⟩
  · rw [kept]
    exact before
  · rw [before, final] at active
    cases active

theorem ends_ended (ends : Ends w v) (ended : Ended id w) : Ended id v := by
  obtain ⟨serial,f,rows,ends⟩ := ends
  refine ⟨serial ▸ ended.1,fun r mem same => ?_⟩
  rw [rows] at mem
  obtain ⟨old,there,rfl⟩ := mem_map.mp mem
  rcases ends old with kept | ⟨_,status,final,kept⟩
  · rw [kept] at same ⊢
    exact ended.2 old there same
  · rw [kept]
    exact final

theorem elsewhere_rows {fact : Response → Prop} (elsewhere : Elsewhere w v)
    (before : id < w.serial ∧ ∀ r ∈ w.tables.responses, r.id = id → fact r) :
    id < v.serial ∧ ∀ r ∈ v.tables.responses, r.id = id → fact r := by
  cases elsewhere with
  | rows later unique known =>
    refine ⟨by have := before.1; simp only; omega,fun r mem same => ?_⟩
    rcases known r mem with old | ⟨fresh,_⟩
    · exact before.2 r old same
    · have := before.1
      omega
  | opens => exact before
  | moves => exact before

theorem elsewhere_numbered (elsewhere : Elsewhere w v) (numbered : Numbered w) : Numbered v := by
  cases elsewhere with
  | rows later unique known =>
    refine ⟨unique,fun r mem => ?_⟩
    rcases known r mem with old | ⟨_,below⟩
    · have := numbered.below r old
      simp only
      omega
    · exact below
  | opens => exact ⟨numbered.unique,numbered.below⟩
  | moves => exact ⟨numbered.unique,numbered.below⟩

theorem ended_of_row (numbered : Numbered w) (ends : Ends w v)
    (mem : r ∈ w.tables.responses) (same : r.id = id) (active : r.status.active = true)
    (ended : { r with status } ∈ v.tables.responses) (final : status.active = false) :
    ¬ Ended id w ∧ Ended id v := by
  have after := ends_numbered ends numbered
  refine ⟨fun before => ?_,by simpa [same] using after.below _ ended,fun other there alike => ?_⟩
  · rw [before.2 r mem same] at active
    cases active
  · rw [inj_on_of_nodup_map after.unique there ended (alike.trans same.symm)]
    exact final

end

section
variable {w : ResponseWorld} {α : Type} {fate : CallFate} {statement : Statement α}

/-- A statement that does not fail ends rows at most. -/
def Statement.Ending (statement : Statement α) : Prop :=
  ∀ t a t', statement t = .ok (a,t') → ∃ f : Response → Response,
    t'.responses = t.responses.map f ∧ ∀ r : Response, r.Ends (f r)

theorem call_ends (fate : CallFate) (ending : statement.Ending) (w : ResponseWorld) :
    { w with tables := (fate.answer statement w.tables).2 } = w ∨
      Ends w { w with tables := (fate.answer statement w.tables).2 } := by
  rcases answer_ran fate statement w.tables with same | ⟨a,ran⟩
  · left
    rw [same]
  · exact .inr ⟨rfl,ending _ _ _ ran⟩

@[simp] theorem within_callDatabase (ending : statement.Ending) :
    Within Ends (callDatabase fate statement) :=
  confined_transact fun w => call_ends fate ending w

theorem getResponse_ending (uuid userId : Uuid) :
    (Tables.getResponseByUuidAndUser uuid userId).Ending := by
  intro t a t' ran
  cases ran
  exact ⟨id,(map_id _).symm,fun _ => .inl rfl⟩

theorem cancel_ending (uuid userId : Uuid) : (Tables.cancelByUuidAndUser uuid userId).Ending := by
  intro t a t' ran
  cases ran
  refine ⟨_,rfl,fun r => ?_⟩
  split
  · rename_i hit
    exact .inr ⟨(of_decide_eq_true hit).2.2,.cancelled,rfl,rfl⟩
  · exact .inl rfl

theorem update_ending (responseId : Int) (ending : Ending) :
    (Tables.updateStatusIfCurrent responseId .inProgress ending.status).Ending := by
  intro t a t' ran
  cases ran
  refine ⟨_,rfl,fun r => ?_⟩
  split
  · rename_i hit
    refine .inr ⟨by rw [(of_decide_eq_true hit).2]; rfl,ending.status,?_,rfl⟩
    cases ending <;> rfl
  · exact .inl rfl

end

section
variable {id : Int} {uuid user : Uuid}

variable {α : Type} {fate : CallFate} {statement : Statement α} {w : ResponseWorld}

theorem within_queryResponse (ending : statement.Ending) :
    Within Ends (queryResponse fate statement) :=
  within_mapError.mpr (within_callDatabase ending)

theorem within_broadcast {ε : Type} : Within Ends (broadcast uuid : ResponseAction ε Unit) :=
  confined_bind.mpr ⟨confined_transact fun _ => .inr ⟨rfl,_,(map_id _).symm,fun _ => .inl rfl⟩,
    fun _ _ => trivial⟩

theorem writers_confined : statusWriters.Confined fun w v => Ends w v ∨ Elsewhere w v where
  handled
    | .terminal responseId ending fate => by
      refine confined_bind.mpr ⟨?_,fun _ _ => trivial⟩
      refine confined_transact fun w => ?_
      exact (call_ends fate (update_ending responseId ending) w).imp_right .inl
    | .cancel uuid user fates => by
      refine confined_bind.mpr ⟨?_,fun _ _ => trivial⟩
      refine confined_mono (fun _ _ => .inl)
        (within_cancelResponse (fun fate => ?_) ?_ within_broadcast)
      · exact within_queryResponse (getResponse_ending uuid user)
      · exact within_queryResponse (cancel_ending uuid user)
  interference _ _ h := .inr h

/-- The writer has returned, and was told that it ended this response. -/
def Wins (id : Int) : StatusRequest → StatusReply → Prop
  | .terminal responseId _ _, reply => responseId = id ∧ reply = .updated (.ok true)
  | .cancel _ _ _, reply => ∃ response, reply = .cancelled (.ok response) ∧ response.id = id

theorem ends_stays (w v : ResponseWorld) (ends : Ends w v) : StaysTaken Numbered (Ended id) w v :=
  fun _ => ends_ended ends

theorem call_stays (ending : statement.Ending) (ended : Ended id w) :
    Ended id { w with tables := (fate.answer statement w.tables).2 } := by
  rcases call_ends fate ending w with same | ends
  · rw [same]
    exact ended
  · exact ends_ended ends ended

theorem update_takes {ending : Ending} (numbered : Numbered w)
    (told : (fate.answer (Tables.updateStatusIfCurrent id .inProgress ending.status) w.tables).1 =
      .ok true) :
    ¬ Ended id w ∧ Ended id { w with
      tables :=
        (fate.answer (Tables.updateStatusIfCurrent id .inProgress ending.status) w.tables).2 } := by
  have ran := answer_ok told
  have parts := Prod.mk.inj (Except.ok.inj ran)
  obtain ⟨r,mem,hit⟩ := any_eq_true.mp parts.1
  obtain ⟨named,active⟩ := of_decide_eq_true hit
  have ends := update_ending id ending _ _ _ ran
  refine @ended_of_row w _ id ending.status r numbered ⟨rfl,ends⟩ mem named
    (by rw [active]; rfl) ?_ ?_
  · show _ ∈ (fate.answer _ w.tables).2.responses
    rw [← parts.2]
    exact mem_map.mpr ⟨r,mem,if_pos hit⟩
  · cases ending <;> rfl

theorem cancel_takes {response : Response} (numbered : Numbered w) (named : response.id = id)
    (told : (fate.answer (Tables.cancelByUuidAndUser uuid user) w.tables).1 = .ok (some response)) :
    ¬ Ended id w ∧
      Ended id { w with tables :=
        (fate.answer (Tables.cancelByUuidAndUser uuid user) w.tables).2 } := by
  have ran := answer_ok told
  have parts := Prod.mk.inj (Except.ok.inj ran)
  obtain ⟨r,there,rfl⟩ := Option.map_eq_some_iff.mp parts.1
  have mem := mem_of_find?_eq_some there
  have hit := find?_some there
  have ends := cancel_ending uuid user _ _ _ ran
  refine @ended_of_row w _ id .cancelled r numbered ⟨rfl,ends⟩ mem named
    (of_decide_eq_true hit).2.2 ?_ rfl
  show _ ∈ (fate.answer _ w.tables).2.responses
  rw [← parts.2]
  exact mem_map.mpr ⟨r,mem,if_pos hit⟩

theorem cancelResponse_contends (id : Int) (uuid user : Uuid) (fates : Nat → CallFate) :
    Contends Numbered (Ended id) (fun response => response.id = id)
      (cancelResponse uuid user fates) := by
  have stays : ∀ {α : Type} {x : ResponseAction ApiError α}, Within Ends x →
      Within (StaysTaken Numbered (Ended id)) x :=
    fun within => confined_mono ends_stays within
  have asks : ∀ fate, Within (StaysTaken Numbered (Ended id))
      (queryResponse fate (Tables.getResponseByUuidAndUser uuid user)) :=
    fun _ => stays (within_queryResponse (getResponse_ending uuid user))
  refine contends_bind (asks _) fun found _ => ?_
  cases found with
  | none => exact contends_throw
  | some response =>
    dsimp only
    split
    · refine contends_transact fun w numbered =>
        ⟨call_stays (cancel_ending uuid user),fun found told => ?_⟩
      cases found with
      | none =>
        left
        refine contends_bind (asks _) fun again _ => ?_
        cases again <;> exact contends_throw
      | some cancelled =>
        by_cases named : cancelled.id = id
        · refine .inr ⟨?_,cancel_takes numbered named told⟩
          exact within_bind.mpr ⟨stays within_broadcast,fun _ _ => within_pure⟩
        · left
          refine contends_bind (stays within_broadcast) fun _ _ => ?_
          rintro ⟨a,same,wins⟩
          cases same
          exact named wins
    · exact contends_throw

theorem writers_compete (id : Int) (request : StatusRequest) :
    (statusWriters.handle request).Competes Numbered (Ended id) (Wins id request) := by
  cases request with
  | terminal responseId ending fate =>
    intro w numbered
    refine ⟨call_stays (update_ending responseId ending),?_⟩
    by_cases wins : Wins id (.terminal responseId ending fate) (.updated
        (fate.answer (Tables.updateStatusIfCurrent responseId .inProgress ending.status)
          w.tables).1)
    · obtain ⟨rfl,told⟩ := wins
      exact .inr ⟨trivial,update_takes numbered (StatusReply.updated.inj told)⟩
    · exact .inl wins
  | cancel uuid user fates =>
    refine competes_map ?_
    have contends := cancelResponse_contends id uuid user fates
    simpa [Contends, Wins] using contends

end

/-- From any tables, with any number of writers and in every interleaving: a final
    status never changes, and two writers that were told they ended the same
    response are one. -/
theorem terminal_status_set_once {start : ResponseWorld} (numbered : Numbered start)
    {c d : Config ResponseWorld StatusRequest StatusReply}
    (reached : Run statusWriters ⟨start,[]⟩ c) (later : Run statusWriters c d) :
    (∀ r ∈ c.shared.tables.responses, r.status.active = false →
      ∀ r' ∈ d.shared.tables.responses, r'.id = r.id → r'.status = r.status) ∧
    ∀ (id : Int) (i j : Nat) (first second : StatusRequest) (told heard : StatusReply),
      d.threads[i]? = some (first,.done told) → d.threads[j]? = some (second,.done heard) →
      Wins id first told → Wins id second heard → i = j := by
  have none :
    ∀ thread ∈ (⟨start,[]⟩ : Config ResponseWorld StatusRequest StatusReply).threads, False :=
    fun _ mem => absurd mem not_mem_nil
  have keeps : statusWriters.Confined fun w v => Numbered w → Numbered v :=
    writers_confined.mono fun _ _ moved => moved.elim ends_numbered elsewhere_numbered
  have good : Numbered c.shared :=
    run_keeps Numbered keeps (fun thread mem => (none thread mem).elim)
      (fun _ _ kept => kept) reached
      numbered
  refine ⟨fun r mem final r' mem' same => ?_,
    fun id i j first second told heard here there => ?_⟩
  · have before : HasStatus r.id r.status c.shared := by
      refine ⟨good.below r mem,fun other there alike => ?_⟩
      rw [inj_on_of_nodup_map good.unique there mem alike]
    have threads : c.Confined fun w v => Ends w v ∨ Elsewhere w v :=
      run_confined writers_confined (fun thread mem => (none thread mem).elim) reached
    have after : HasStatus r.id r.status d.shared :=
      run_keeps (HasStatus r.id r.status) writers_confined threads
        (fun _ _ moved has => moved.elim (ends_hasStatus final · has) (elsewhere_rows · has))
          later before
    exact after.2 r' mem' same
  · obtain ⟨winner,contest⟩ :=
      run_contest keeps (fun _ _ h _ => elsewhere_rows h) (writers_compete id)
      numbered (reached.trans later)
    exact claims_unique contest here there

def sampleId (n : UInt8) : Uuid := .filled 16 n

def oneResponse : ResponseWorld :=
  ⟨⟨[⟨1,sampleId 1,sampleId 9,.inProgress⟩],[],[],[],[],0⟩,2,fun _ => none,[]⟩

/-- Two cancel requests have looked, then the storage task and both of them write. -/
def race : Config ResponseWorld StatusRequest StatusReply :=
  Config.play statusWriters ⟨oneResponse,[]⟩
    [.arrive (.cancel (sampleId 1) (sampleId 9) fun _ => .answered),
      .arrive (.cancel (sampleId 1) (sampleId 9) fun _ => .answered),
      .arrive (.terminal 1 .responseDone .answered),
      .advance 0,.advance 1,.advance 1,.advance 2,.advance 0,.advance 0,.advance 1]

theorem race_has_one_winner :
    (∃ request reply, race.threads[1]? = some (request,.done reply) ∧ Wins 1 request reply) ∧
    (race.shared.tables.responses.map Response.status = [.cancelled]) ∧
    ∀ j request reply, race.threads[j]? = some (request,.done reply) →
      Wins 1 request reply → j = 1 := by
  have numbered : Numbered oneResponse := ⟨by decide,by decide⟩
  have reached : Run statusWriters ⟨oneResponse,[]⟩ race := run_play (fun _ _ => trivial) _
  have won : ∃ request reply, race.threads[1]? = some (request,.done reply) ∧
    Wins 1 request reply :=
    ⟨_,_,rfl,_,rfl,rfl⟩
  refine ⟨won,rfl,fun j request reply here wins => ?_⟩
  obtain ⟨winner,told,there,first⟩ := won
  exact (terminal_status_set_once numbered .refl reached).2 1
    j 1 request winner reply told here there wins
    first

end OpenSecret.Responses
