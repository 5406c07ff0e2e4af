import OpenSecret.Provider.Transport

/-!
What one step of a task can do to the shared client, listed once, and who holds what:
the gate and the initialization claim each have at most one holder, and only the
holder of the gate changes the client.
-/
namespace OpenSecret.Provider
open TaskPools Traces

/-- The steps of `start_background_initialization` inside a task. -/
inductive Starts (s : SecureTinfoilTransport) (call : Starting → Task)
    (back : Task) : Starting → TaskEffect → Prop where
  | seen {taken} (present : s.snapshot = some taken) :
      Starts s call back .check ⟨s,back,[],[.took taken]⟩
  | missing (absent : s.client = none) : Starts s call back .check ⟨s,call .claim,[],[]⟩
  | claimedBefore (started : s.initializationStarted = true) :
      Starts s call back .claim ⟨s,back,[],[]⟩
  | claims (idle : s.initializationStarted = false) :
      Starts s call back .claim ⟨{ s with initializationStarted := true },call .spawn,[],[]⟩
  | spawns : Starts s call back .spawn ⟨s,back,[.initializer true .lockGate],[]⟩

inductive Steps (s : SecureTinfoilTransport) : Task → TaskEffect → Prop where
  | sendStarts {phase e} (started : Starts s (.send ∘ .starting) (.send .taking) phase e) :
      Steps s (.send (.starting phase)) e
  | takes {taken} (present : s.snapshot = some taken) :
      Steps s (.send .taking) ⟨s,.send (.executing taken),[],[.took taken]⟩
  | unavailable : Steps s (.send .taking) ⟨s,.send .finished,[],[]⟩
  | reports {taken} :
      Steps s (.send (.executing taken)) ⟨s,.send .finished,[.refresh taken .tryGate],[]⟩
  | answered {taken} : Steps s (.send (.executing taken)) ⟨s,.send .finished,[],[]⟩
  | locks {active} (free : s.refreshGate = false) :
      Steps s (.initializer active .lockGate)
        ⟨{ s with refreshGate := true },.initializer active .checkSlot,[],[]⟩
  | sees {taken active} (present : s.snapshot = some taken) :
      Steps s (.initializer active .checkSlot) ⟨s,.initializer active .releaseSeen,[],[.took taken]⟩
  | discovers {active} (absent : s.client = none) :
      Steps s (.initializer active .checkSlot) ⟨s,.initializer active .discovering,[],[]⟩
  | releasesSeen {active} : Steps s (.initializer active .releaseSeen)
      ⟨s.release active,.initializer false .unlockGate,[],[]⟩
  | discovered {active} :
      Steps s (.initializer active .discovering) ⟨s,.initializer active .installing,[],[]⟩
  | undiscovered {active} :
      Steps s (.initializer active .discovering) ⟨s,.initializer active .unlockFailed,[],[]⟩
  | installs {active} :
      Steps s (.initializer active .installing) ⟨s.install,.initializer active .releasing,[],[]⟩
  | releases {active} : Steps s (.initializer active .releasing)
      ⟨s.release active,.initializer false .unlockSlot,[],[]⟩
  | unlocksSlot {active} :
      Steps s (.initializer active .unlockSlot)
        ⟨{ s with slotLocked := false },.initializer active .unlockGate,[],[]⟩
  | unlocksGate {active} :
      Steps s (.initializer active .unlockGate)
        ⟨{ s with refreshGate := false },.initializer active .dropClaim,[],[]⟩
  | unlocksFailed {active} :
      Steps s (.initializer active .unlockFailed)
        ⟨{ s with refreshGate := false },.initializer active .sleeping,[],[]⟩
  | wakes {active} : Steps s (.initializer active .sleeping) ⟨s,.initializer active .lockGate,[],[]⟩
  | dropsClaim {active} :
      Steps s (.initializer active .dropClaim) ⟨s.release active,.initializer false .returned,[],[]⟩
  | gateTaken {failed} :
      Steps s (.refresh failed .tryGate) ⟨s,.refresh failed (.returned none),[],[]⟩
  | takesGate {failed} (free : s.refreshGate = false) :
      Steps s (.refresh failed .tryGate) ⟨{ s with refreshGate := true },
        .refresh failed .decide,[],[]⟩
  | replaced {failed} (other : s.client ≠ some failed.client) :
      Steps s (.refresh failed .decide) ⟨s,.refresh failed .useCurrent,[],[]⟩
  | outdated {failed} (same : s.client = some failed.client)
      (later : failed.refreshAttempt ≠ s.refreshAttempt) :
      Steps s (.refresh failed .decide) ⟨s,.refresh failed (.unlockGate none),[],[]⟩
  | refreshes {failed} (same : s.client = some failed.client)
      (current : failed.refreshAttempt = s.refreshAttempt) :
      Steps s (.refresh failed .decide) ⟨s,.refresh failed .discovering,
        [],[.refreshing failed.client]⟩
  | usesCurrent {failed} : Steps s (.refresh failed .useCurrent)
      ⟨s,.refresh failed (.unlockGate s.snapshot),[],s.snapshot.toList.map .took⟩
  | rediscovers {failed} (found : Bool) :
      Steps s (.refresh failed .discovering) ⟨s,.refresh failed (.writing found),[],[]⟩
  | replaces {failed} : Steps s (.refresh failed (.writing true))
      ⟨s.install,.refresh failed (.unlockSlot s.install.snapshot),
        [],s.install.snapshot.toList.map .took⟩
  | empties {failed} :
      Steps s (.refresh failed (.writing false)) ⟨s.empty,.refresh failed .unlockEmptied,[],[]⟩
  | unlocksEmptied {failed} :
      Steps s (.refresh failed .unlockEmptied)
        ⟨{ s with slotLocked := false },.refresh failed .dropGate,[],[]⟩
  | dropsGate {failed} :
      Steps s (.refresh failed .dropGate) ⟨{ s with refreshGate := false },
        .refresh failed (.starting .check),[],[]⟩
  | refreshStarts {phase e failed} (started : Starts s (.refresh failed ∘ .starting)
      (.refresh failed (.returned none)) phase e) :
      Steps s (.refresh failed (.starting phase)) e
  | unlocksReplaced {failed result} : Steps s (.refresh failed (.unlockSlot result))
      ⟨{ s with slotLocked := false },.refresh failed (.unlockGate result),[],[]⟩
  | returns {failed result} : Steps s (.refresh failed (.unlockGate result))
      ⟨{ s with refreshGate := false },.refresh failed (.returned result),[],[]⟩

variable {s : SecureTinfoilTransport} {reply : Reply} {t u : Task} {e : TaskEffect} {active : Bool}
  {failed : SecureClientSnapshot}

theorem starting_starts {phase : Starting} {resume : Option Starting → Task}
    {call : Starting → Task} {back : Task} (again : ∀ phase, resume (some phase) = call phase)
    (ended : resume none = back) (advanced : advanceStarting s phase resume = some e) :
    Starts s call back phase e := by
  subst ended
  revert advanced
  fun_cases advanceStarting
  all_goals intro advanced
  all_goals cases advanced
  · exact .seen ‹_›
  · rw [again]
    exact .missing (by simpa [SecureTinfoilTransport.snapshot] using ‹s.snapshot = none›)
  · exact .claimedBefore ‹_›
  · rw [again]
    exact .claims (by simpa using ‹¬ s.initializationStarted = true›)
  · exact .spawns

theorem send_steps {phase : Sending} (advanced : advanceSend s reply phase = some e) :
    Steps s (.send phase) e := by
  revert advanced
  fun_cases advanceSend
  · intro advanced
    exact .sendStarts (starting_starts (fun _ => rfl) rfl advanced)
  all_goals
    intro advanced
    cases advanced
  · exact .takes ‹_›
  · exact .unavailable
  · exact .reports
  · exact .answered

theorem initialize_steps {phase : Initializing}
    (advanced : advanceInitialize s reply active phase = some e) :
    Steps s (.initializer active phase) e := by
  revert advanced
  fun_cases advanceInitialize
  all_goals
    intro advanced
    cases advanced
  · exact .locks (by simpa using ‹¬ s.refreshGate = true›)
  · exact .sees ‹_›
  · exact .discovers (by simpa [SecureTinfoilTransport.snapshot] using ‹s.snapshot = none›)
  all_goals constructor

variable {previous current : Nat} {same : Bool}

theorem refreshDecision_useCurrent :
    refreshDecision previous current same = .useCurrent ↔ same = false := by
  fun_cases refreshDecision <;> simp_all

theorem refreshDecision_refresh :
    refreshDecision previous current same = .refresh ↔ same = true ∧ previous = current := by
  fun_cases refreshDecision <;> simp_all

theorem refreshDecision_failed :
    refreshDecision previous current same = .previousAttemptFailed ↔
      same = true ∧ previous ≠ current := by
  fun_cases refreshDecision <;> simp_all

theorem refresh_steps {phase : Refreshing}
    (advanced : advanceRefresh s reply failed phase = some e) :
    Steps s (.refresh failed phase) e := by
  revert advanced
  fun_cases advanceRefresh
  case case15 =>
    intro advanced
    exact .refreshStarts (starting_starts (fun _ => rfl) rfl advanced)
  all_goals
    intro advanced
    cases advanced
  case case2 free => exact .takesGate (by simpa using free)
  case case4 other => exact .replaced (by simpa using refreshDecision_useCurrent.mp other)
  case case5 decision =>
    obtain ⟨same,later⟩ := refreshDecision_failed.mp decision
    exact .outdated (by simpa using same) later
  case case6 decision =>
    obtain ⟨same,current⟩ := refreshDecision_refresh.mp decision
    exact .refreshes (by simpa using same) current
  case case12 discovered _ failing =>
    cases Bool.not_eq_true discovered ▸ failing
    exact .empties
  all_goals constructor

theorem advance_steps (advanced : t.advance s reply = some e) : Steps s t e := by
  cases t with
  | send phase => exact send_steps advanced
  | initializer active phase => exact initialize_steps advanced
  | refresh failed phase => exact refresh_steps advanced

@[simp] def Initializing.holdsGate : Initializing → Bool
  | .checkSlot | .releaseSeen | .discovering | .installing | .releasing | .unlockSlot | .unlockGate
  | .unlockFailed => true
  | .lockGate | .sleeping | .dropClaim | .returned => false

@[simp] def Refreshing.holdsGate : Refreshing → Bool
  | .decide | .useCurrent | .discovering | .writing _ | .unlockEmptied | .dropGate | .unlockSlot _
  | .unlockGate _ => true
  | .tryGate | .starting _ | .returned _ => false

namespace Task

@[simp] def holdsGate : Task → Bool
  | .send _ => false
  | .initializer _ phase => phase.holdsGate
  | .refresh _ phase => phase.holdsGate

/-- A claim belongs to the call that made it until it is handed to the spawned task. -/
@[simp] def ownsClaim : Task → Bool
  | .send (.starting .spawn) => true
  | .send _ => false
  | .initializer active _ => active
  | .refresh _ (.starting .spawn) => true
  | .refresh _ _ => false

end Task

@[simp] theorem release_client : (s.release active).client = s.client := by
  cases active <;> rfl

@[simp] theorem release_refreshAttempt : (s.release active).refreshAttempt = s.refreshAttempt := by
  cases active <;> rfl

@[simp] theorem release_nextClient : (s.release active).nextClient = s.nextClient := by
  cases active <;> rfl

@[simp] theorem release_refreshGate : (s.release active).refreshGate = s.refreshGate := by
  cases active <;> rfl

@[simp] theorem release_initializationStarted :
    (s.release active).initializationStarted = (s.initializationStarted && !active) := by
  cases active <;> simp [SecureTinfoilTransport.release]

@[simp] theorem install_refreshGate : s.install.refreshGate = s.refreshGate := rfl

@[simp] theorem install_initializationStarted :
    s.install.initializationStarted = s.initializationStarted := rfl

@[simp] theorem empty_refreshGate : s.empty.refreshGate = s.refreshGate := rfl

@[simp] theorem empty_initializationStarted :
    s.empty.initializationStarted = s.initializationStarted := rfl

theorem gate_conserved : Conserves transport Task.holdsGate (·.refreshGate) := by
  refine ⟨rfl,?_⟩
  intro s reply t e advanced held
  cases advance_steps advanced with
  | sendStarts started | refreshStarts started => cases started <;> simp
  | _ => simp_all

theorem claim_conserved : Conserves transport Task.ownsClaim (·.initializationStarted) := by
  refine ⟨rfl,?_⟩
  intro s reply t e advanced held
  cases advance_steps advanced with
  | sendStarts started | refreshStarts started => cases started <;> simp_all
  | @releasesSeen active | @releases active | @dropsClaim active => cases active <;> simp_all
  | _ => simp_all

/-- The client and its attempt number stay, unless the holder of the gate installs a
    client or a refresh empties the slot. -/
theorem slot_cases (stepped : Steps s t e) :
    e.shared.client = s.client ∧ e.shared.refreshAttempt = s.refreshAttempt ∧
      e.shared.nextClient = s.nextClient ∨
      t.holdsGate = true ∧ e.shared = s.install ∨
      ∃ failed, t = .refresh failed (.writing false) ∧
        e = ⟨s.empty,.refresh failed .unlockEmptied,[],[]⟩ := by
  cases stepped with
  | sendStarts started | refreshStarts started => cases started <;> simp
  | _ => simp

end OpenSecret.Provider
