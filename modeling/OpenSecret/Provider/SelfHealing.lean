import OpenSecret.Provider.Gate

/-!
The shared client heals itself: discoveries run one at a time, and a slot without a
client always has an initialization on its way, except while a refresh that has just
emptied the slot is about to start one.
-/
namespace OpenSecret.Provider
open TaskPools Traces
variable {s : SecureTinfoilTransport} {reply : Reply} {t u : Task}
  {e : TaskEffect} {w w' : World} {m : Move Reply}
  {trace : List (World × Move Reply)}

namespace Task

def discovers : Task → Bool
  | .send _ => false
  | .initializer _ phase => phase = .discovering
  | .refresh _ phase => phase = .discovering

/-- The refresh has emptied the slot, and its call of `start_background_initialization`
    has not yet tried to claim the initialization. -/
@[simp] def handsOver : Task → Bool
  | .refresh _ .unlockEmptied => true
  | .refresh _ .dropGate => true
  | .refresh _ (.starting .check) => true
  | .refresh _ (.starting .claim) => true
  | _ => false

def isReturned : Task → Bool
  | .initializer _ .returned => true
  | _ => false

/-- An initialization gives its claim back when there is a client, and has none left
    once it stops. -/
@[simp] def Fits (s : SecureTinfoilTransport) : Task → Prop
  | .initializer _ .releaseSeen | .initializer _ .releasing => s.client.isSome = true
  | .initializer active .unlockSlot | .initializer active .unlockGate
  | .initializer active .dropClaim
  | .initializer active .returned => active = false
  | _ => True

end Task

theorem discovers_holdsGate (discovers : t.discovers = true) : t.holdsGate = true := by
  cases t with
  | send phase => cases discovers
  | initializer active phase | refresh failed phase =>
    cases of_decide_eq_true discovers
    rfl

theorem fits_unless_gate (fits : t.Fits s) (calm : t.holdsGate = false)
    (s' : SecureTinfoilTransport) : t.Fits s' := by
  revert fits
  fun_cases Task.Fits s t <;> simp_all

theorem fits_same {s' : SecureTinfoilTransport} (fits : t.Fits s) (same : s'.client = s.client) :
    t.Fits s' := by
  revert fits
  fun_cases Task.Fits s t <;> simp_all

theorem steps_fit (stepped : Steps s t e) (fits : t.Fits s) :
    e.task.Fits e.shared ∧ ∀ u ∈ e.spawned, u.Fits e.shared := by
  cases stepped with
  | sendStarts started | refreshStarts started => cases started <;> simp
  | sees present =>
    have some := congrArg Option.isSome present
    simpa [SecureTinfoilTransport.snapshot] using some
  | installs => simp [SecureTinfoilTransport.install]
  | _ => simp_all

/-- A step of a refresh that hands over leaves it handing over, or there is a claim or a
    client. -/
theorem steps_hand_over (stepped : Steps s t e) (hands : t.handsOver = true) :
    e.task.handsOver = true ∨ e.shared.initializationStarted = true ∨
      e.shared.client.isSome = true := by
  cases stepped with
  | sendStarts started => cases started <;> simp at hands
  | refreshStarts started =>
    cases started with
    | seen present =>
      have some := congrArg Option.isSome present
      simp_all [SecureTinfoilTransport.snapshot]
    | _ => simp_all
  | _ => simp_all

theorem steps_release (stepped : Steps s t e) (fits : t.Fits s)
    (started : s.initializationStarted = true) (released : e.shared.initializationStarted = false) :
    s.client.isSome = true := by
  cases stepped with
  | sendStarts started | refreshStarts started => cases started <;> simp_all
  | _ => simp_all

structure Healthy (w : World) : Prop where
  gate : w.tasks.countP Task.holdsGate = w.shared.refreshGate.toNat
  claim : w.tasks.countP Task.ownsClaim = w.shared.initializationStarted.toNat
  fits : ∀ t ∈ w.tasks, t.Fits w.shared
  handed : w.shared.client = none → w.shared.initializationStarted = false →
    ∃ t ∈ w.tasks, t.handsOver = true

theorem one_gate (healthy : w.tasks.countP Task.holdsGate = w.shared.refreshGate.toNat) :
    w.tasks.countP Task.holdsGate ≤ 1 := by
  rw [healthy]
  exact Bool.toNat_le w.shared.refreshGate

theorem fits_step (healthy : Healthy w) (moved : step transport w m = some w') :
    ∀ t ∈ w'.tasks, t.Fits w'.shared := by
  refine forall_step healthy.fits moved trivial ?_
  intro before t after reply e shape advanced
  have stepped := advance_steps advanced
  refine ⟨steps_fit stepped,?_⟩
  intro u mem fits
  have one := one_gate healthy.gate
  rw [shape] at one
  rcases slot_cases stepped with ⟨same,_⟩ | ⟨holds,_⟩ | ⟨failed,rfl,_⟩
  · exact fits_same fits same
  · exact fits_unless_gate fits (others_lack one holds mem) _
  · exact fits_unless_gate fits (others_lack one rfl mem) _

theorem handed_step (healthy : Healthy w) (moved : step transport w m = some w')
    (empty : w'.shared.client = none) (idle : w'.shared.initializationStarted = false) :
    ∃ t ∈ w'.tasks, t.handsOver = true := by
  rcases step_cases moved with rfl | ⟨before,t,after,reply,e,shape,advanced,rfl⟩
  · obtain ⟨u,mem,hands⟩ := healthy.handed empty idle
    exact ⟨u,List.mem_append_left _ mem,hands⟩
  have stepped := advance_steps advanced
  have mover : e.task ∈ before ++ e.task :: after ++ e.spawned :=
    mem_tasks.mpr (.inr (.inl rfl))
  by_cases hands : t.handsOver = true
  · rcases steps_hand_over stepped hands with still | started | present
    · exact ⟨e.task,mover,still⟩
    · simp_all
    · simp_all
  rcases slot_cases stepped with ⟨same,_⟩ | ⟨_,installed⟩ | ⟨failed,_,rfl⟩
  · have fits := healthy.fits t (by simp [shape])
    have absent : w.shared.client = none := same ▸ empty
    have notStarted : w.shared.initializationStarted = false := by
      by_contra started
      have present := steps_release stepped fits (by simpa using started) idle
      rw [absent] at present
      cases present
    obtain ⟨u,mem,other⟩ := healthy.handed absent notStarted
    rw [shape] at mem
    -- the task that moved does not hand over, so it is another one
    have different : u ≠ t := by
      rintro rfl
      exact hands other
    exact ⟨u,mem_tasks.mpr (.inl (others_of_ne mem different)),other⟩
  · simp [installed, SecureTinfoilTransport.install] at empty
  · exact ⟨_,mover,rfl⟩

theorem run_healthy (run : Plays (step transport) constructed trace w) : Healthy w := by
  refine plays_invariant (fun _ w => Healthy w) ?_ ?_ run
  · exact ⟨rfl,rfl,by simp [constructed],nofun⟩
  · intro _ w m w' healthy moved
    exact ⟨tally_step gate_conserved healthy.gate moved,
      tally_step claim_conserved healthy.claim moved,
      fits_step healthy moved,handed_step healthy moved⟩

theorem new_constructs (caller : Option Starting → Task) :
    advanceStarting unstarted .check caller = some ⟨unstarted,caller (some .claim),[],[]⟩ ∧
      advanceStarting unstarted .claim caller =
        some ⟨constructed.shared,caller (some .spawn),[],[]⟩ ∧
      advanceStarting constructed.shared .spawn caller =
        some ⟨constructed.shared,caller none,constructed.tasks,[]⟩ :=
  ⟨rfl,rfl,rfl⟩

theorem transport_heals (run : Plays (step transport) constructed trace w) :
    w.tasks.countP Task.discovers ≤ 1 ∧
      (w.shared.client = none → (∀ t ∈ w.tasks, t.handsOver = false) →
        w.shared.initializationStarted = true ∧ ∃ t ∈ w.tasks, t.ownsClaim = true ∧
          t.isReturned = false) := by
  have healthy := run_healthy run
  constructor
  · calc
      w.tasks.countP Task.discovers ≤ w.tasks.countP Task.holdsGate :=
        List.countP_mono_left fun _ _ => discovers_holdsGate
      _ ≤ 1 := one_gate healthy.gate
  · intro empty settled
    have started : w.shared.initializationStarted = true := by
      by_contra idle
      obtain ⟨t,mem,hands⟩ := healthy.handed empty (by simpa using idle)
      rw [settled t mem] at hands
      cases hands
    have owned : 0 < w.tasks.countP Task.ownsClaim := by
      rw [healthy.claim, started]
      exact Nat.one_pos
    obtain ⟨t,mem,owns⟩ := List.countP_pos_iff.mp owned
    refine ⟨started,t,mem,owns,?_⟩
    have fits := healthy.fits t mem
    fun_cases Task.isReturned t
    · cases owns.symm.trans fits
    · rfl

/-- The first client comes up, a request cannot connect to it, and its refresh fails. -/
def failedRefresh : List (Move Reply) :=
  List.replicate 8 (.advance 0 .succeeds) ++ .arrive :: List.replicate 3 (.advance 1 .fails) ++
    List.replicate 9 (.advance 2 .fails)

theorem failed_refresh_heals :
    (play (step transport) failedRefresh constructed).2.shared.client = none ∧
    (∀ t ∈ (play (step transport) failedRefresh constructed).2.tasks, t.handsOver = false) ∧
    (play (step transport) failedRefresh constructed).2.shared.initializationStarted = true := by
  have empty : (play (step transport) failedRefresh constructed).2.shared.client = none := by
    decide +kernel
  have settled : ∀ t ∈ (play (step transport) failedRefresh constructed).2.tasks,
      t.handsOver = false := by
    decide +kernel
  exact ⟨empty,settled,
    ((transport_heals (plays_play _ failedRefresh constructed)).2 empty settled).1⟩

end OpenSecret.Provider
