import OpenSecret.Provider.SelfHealing

/-!
One refresh for each failed client. A client that was replaced or dropped never comes
back, so its attempt number is settled while it is current; a refresh of the current
client keeps the gate until that client is gone, so nobody else refreshes it.
-/
namespace OpenSecret.Provider
open TaskPools Traces List
variable {s : SecureTinfoilTransport} {t u : Task} {e : TaskEffect}
  {w w' : World} {m : Move Reply} {c : Nat}
  {taken : SecureClientSnapshot} {trace : List (World × Move Reply)}

def SecureTinfoilTransport.Fresh (s : SecureTinfoilTransport) : Prop :=
  ∀ c, s.client = some c → c < s.nextClient

theorem snapshot_eq_some :
    s.snapshot = some taken ↔ s.client = some taken.client ∧
      s.refreshAttempt = taken.refreshAttempt := by
  cases taken
  simp [SecureTinfoilTransport.snapshot]

@[simp] theorem install_snapshot : s.install.snapshot = some ⟨s.nextClient,s.nextAttempt⟩ := rfl

theorem steps_fresh (stepped : Steps s t e) (fresh : s.Fresh) :
    e.shared.Fresh ∧ s.nextClient ≤ e.shared.nextClient := by
  rcases slot_cases stepped with ⟨client,_,next⟩ | ⟨_,installed⟩ | ⟨failed,_,rfl⟩
  · constructor
    · intro c current
      rw [next]
      exact fresh c (client ▸ current)
    · exact Nat.le_of_eq next.symm
  · rw [installed]
    constructor
    · intro c current
      cases current
      exact Nat.lt_succ_self s.nextClient
    · exact Nat.le_succ s.nextClient
  · exact ⟨nofun,Nat.le_refl s.nextClient⟩

theorem steps_current (stepped : Steps s t e) (earlier : c < s.nextClient)
    (current : e.shared.client = some c) :
    s.client = some c ∧ e.shared.refreshAttempt = s.refreshAttempt := by
  rcases slot_cases stepped with ⟨client,attempt,_⟩ | ⟨_,installed⟩ | ⟨failed,_,rfl⟩
  · exact ⟨client ▸ current,attempt⟩
  · rw [installed] at current
    cases current
    exact absurd earlier (Nat.lt_irrefl s.nextClient)
  · cases current

theorem took_current (stepped : Steps s t e) (took : .took taken ∈ e.events) :
    e.shared.snapshot = some taken := by
  cases stepped with
  | sendStarts started | refreshStarts started => cases started <;> simp_all
  | _ => simp_all

theorem refreshing_starts (stepped : Steps s t e) (logged : .refreshing c ∈ e.events) :
    ∃ failed, t = .refresh failed .decide ∧ failed.client = c ∧ s.client = some c ∧
      e = ⟨s,.refresh failed .discovering,[],[.refreshing c]⟩ := by
  cases stepped with
  | sendStarts started | refreshStarts started => cases started <;> simp_all
  | _ => simp_all

structure Snapshots (w : World) : Prop where
  fresh : w.shared.Fresh
  known : ∀ a, .took a ∈ w.log → a.client < w.shared.nextClient
  current : ∀ a, .took a ∈ w.log → w.shared.client = some a.client →
    a.refreshAttempt = w.shared.refreshAttempt
  agree : ∀ a b, .took a ∈ w.log → .took b ∈ w.log → a.client = b.client →
    a.refreshAttempt = b.refreshAttempt

theorem snapshots_step (snapshots : Snapshots w) (moved : step transport w m = some w') :
    Snapshots w' := by
  rcases step_cases moved with rfl | ⟨before,t,after,reply,e,_,advanced,rfl⟩
  · exact ⟨snapshots.fresh,snapshots.known,snapshots.current,snapshots.agree⟩
  have stepped := advance_steps advanced
  obtain ⟨fresh,grows⟩ := steps_fresh stepped snapshots.fresh
  have current : ∀ a, .took a ∈ w.log ++ e.events → e.shared.client = some a.client →
      a.refreshAttempt = e.shared.refreshAttempt := by
    intro a logged now
    rcases mem_append.mp logged with old | new
    · obtain ⟨before,attempt⟩ := steps_current stepped (snapshots.known a old) now
      exact (snapshots.current a old before).trans attempt.symm
    · exact (snapshot_eq_some.mp (took_current stepped new)).2.symm
  refine ⟨fresh,?_,current,?_⟩
  · intro a logged
    rcases mem_append.mp logged with old | new
    · exact Nat.lt_of_lt_of_le (snapshots.known a old) grows
    · exact fresh a.client (snapshot_eq_some.mp (took_current stepped new)).1
  · intro a b loggedA loggedB same
    -- a snapshot taken in this step is one of the current client
    have agrees : e.shared.client = some a.client → a.refreshAttempt = b.refreshAttempt := by
      intro now
      exact (current a loggedA now).trans (current b loggedB (same ▸ now)).symm
    rcases mem_append.mp loggedA with oldA | newA
    · rcases mem_append.mp loggedB with oldB | newB
      · exact snapshots.agree a b oldA oldB same
      · exact agrees (same ▸ (snapshot_eq_some.mp (took_current stepped newB)).1)
    · exact agrees (snapshot_eq_some.mp (took_current stepped newA)).1

/-- What a refresh brings back differs from the client it was called for. -/
@[simp] def Refreshing.Differs (s : SecureTinfoilTransport) (client : Nat) : Refreshing → Prop
  | .useCurrent => s.client ≠ some client
  | .unlockSlot result | .unlockGate result | .returned result =>
    ∀ snapshot, result = some snapshot → snapshot.client ≠ client
  | _ => True

namespace Task

@[simp] def Reports (s : SecureTinfoilTransport) : Task → Prop
  | .send (.executing attempt) => attempt.client < s.nextClient
  | .refresh failed phase => failed.client < s.nextClient ∧ phase.Differs s failed.client
  | _ => True

@[simp] def refreshes (c : Nat) : Task → Bool
  | .refresh failed .discovering => failed.client = c
  | .refresh failed (.writing _) => failed.client = c
  | _ => false

end Task

theorem refreshes_holdsGate (refreshes : t.refreshes c = true) : t.holdsGate = true := by
  revert refreshes
  fun_cases Task.refreshes c t <;> simp

theorem steps_report (stepped : Steps s t e) (fresh : s.Fresh) (reports : t.Reports s) :
    e.task.Reports e.shared ∧ ∀ u ∈ e.spawned, u.Reports e.shared := by
  cases stepped with
  | sendStarts started | refreshStarts started => cases started <;> simp_all
  | takes present => simpa using fresh _ (snapshot_eq_some.mp present).1
  | usesCurrent =>
    obtain ⟨known,differs⟩ := reports
    refine ⟨⟨known,?_⟩,nofun⟩
    intro snapshot brought same
    exact differs (same ▸ (snapshot_eq_some.mp brought).1)
  | replaces =>
    obtain ⟨known,_⟩ := reports
    refine ⟨⟨Nat.lt_succ_of_lt known,?_⟩,nofun⟩
    intro snapshot brought
    cases brought
    exact Nat.ne_of_gt known
  | empties => exact ⟨⟨reports.1,trivial⟩,nofun⟩
  | _ => simp_all

theorem reports_kept {s' : SecureTinfoilTransport} (reports : t.Reports s)
    (grows : s.nextClient ≤ s'.nextClient) (calm : s'.client = s.client ∨ t.holdsGate = false) :
    t.Reports s' := by
  revert reports
  fun_cases Task.Reports s t with
  | case1 attempt =>
    intro known
    exact Nat.lt_of_lt_of_le known grows
  | case2 failed phase =>
    rintro ⟨known,differs⟩
    refine ⟨Nat.lt_of_lt_of_le known grows,?_⟩
    revert differs
    fun_cases Refreshing.Differs s failed.client phase <;> simp_all
  | case3 => simp_all

theorem steps_refreshing (stepped : Steps s t e) (earlier : c < s.nextClient)
    (refreshes : t.refreshes c = true) (current : e.shared.client = some c) :
    e.task.refreshes c = true := by
  cases stepped with
  | sendStarts started | refreshStarts started => cases started <;> simp at refreshes
  | replaces =>
    cases current
    exact absurd earlier (Nat.lt_irrefl s.nextClient)
  | empties => cases current
  | _ => simp_all

structure Refreshes (w : World) : Prop where
  gate : w.tasks.countP Task.holdsGate = w.shared.refreshGate.toNat
  reports : ∀ t ∈ w.tasks, t.Reports w.shared
  known : ∀ c, .refreshing c ∈ w.log → c < w.shared.nextClient
  busy : ∀ c, .refreshing c ∈ w.log → w.shared.client = some c → ∃ t ∈ w.tasks, t.refreshes c = true
  once : ∀ c, w.log.count (.refreshing c) ≤ 1

theorem reports_step (refreshes : Refreshes w) (fresh : w.shared.Fresh)
    (moved : step transport w m = some w') :
    ∀ t ∈ w'.tasks, t.Reports w'.shared := by
  refine forall_step refreshes.reports moved trivial ?_
  intro before t after reply e shape advanced
  have stepped := advance_steps advanced
  refine ⟨steps_report stepped fresh,?_⟩
  intro u mem reports
  have one := one_gate refreshes.gate
  rw [shape] at one
  apply reports_kept reports (steps_fresh stepped fresh).2
  rcases slot_cases stepped with ⟨same,_⟩ | ⟨holds,_⟩ | ⟨failed,rfl,_⟩
  · exact .inl same
  · exact .inr (others_lack one holds mem)
  · exact .inr (others_lack one rfl mem)

/-- A task that decides to refresh holds the gate, so the client was not refreshed before. -/
theorem decides_first (refreshes : Refreshes w) {before after : List Task}
    {failed : SecureClientSnapshot} (shape : w.tasks = before ++ .refresh failed .decide :: after)
    (current : w.shared.client = some failed.client) :
    .refreshing failed.client ∉ w.log := by
  intro logged
  obtain ⟨u,mem,busy⟩ := refreshes.busy failed.client logged current
  have one := one_gate refreshes.gate
  rw [shape] at mem one
  have other : u ≠ .refresh failed .decide := by
    rintro rfl
    cases busy
  have lacks := others_lack one rfl (others_of_ne mem other)
  rw [refreshes_holdsGate busy] at lacks
  cases lacks

theorem refreshes_step (refreshes : Refreshes w) (fresh : w.shared.Fresh)
    (moved : step transport w m = some w') :
    Refreshes w' := by
  have reports := reports_step refreshes fresh moved
  have gate := tally_step gate_conserved refreshes.gate moved
  rcases step_cases moved with rfl | ⟨before,t,after,reply,e,shape,advanced,rfl⟩
  · refine ⟨gate,reports,refreshes.known,?_,refreshes.once⟩
    intro c logged current
    obtain ⟨u,mem,busy⟩ := refreshes.busy c logged current
    exact ⟨u,mem_append_left _ mem,busy⟩
  have stepped := advance_steps advanced
  have mover : e.task ∈ before ++ e.task :: after ++ e.spawned :=
    mem_tasks.mpr (.inr (.inl rfl))
  refine ⟨gate,reports,?_,?_,?_⟩
  · intro c logged
    rcases mem_append.mp logged with old | new
    · exact Nat.lt_of_lt_of_le (refreshes.known c old) (steps_fresh stepped fresh).2
    · obtain ⟨failed,_,_,current,rfl⟩ := refreshing_starts stepped new
      exact fresh c current
  · intro c logged current
    rcases mem_append.mp logged with old | new
    · have earlier := refreshes.known c old
      obtain ⟨u,mem,busy⟩ := refreshes.busy c old (steps_current stepped earlier current).1
      rw [shape] at mem
      by_cases same : u = t
      · subst same
        exact ⟨e.task,mover,steps_refreshing stepped earlier busy current⟩
      · exact ⟨u,mem_tasks.mpr (.inl (others_of_ne mem same)),busy⟩
    · obtain ⟨failed,_,rfl,_,rfl⟩ := refreshing_starts stepped new
      exact ⟨_,mover,by simp⟩
  · intro c
    rw [count_append]
    by_cases new : .refreshing c ∈ e.events
    · obtain ⟨failed,rfl,rfl,current,rfl⟩ := refreshing_starts stepped new
      rw [count_eq_zero_of_not_mem (decides_first refreshes shape current)]
      simp
    · rw [count_eq_zero_of_not_mem new]
      exact refreshes.once c

theorem run_refreshes (run : Plays (step transport) constructed trace w) :
    Snapshots w ∧ Refreshes w := by
  refine plays_invariant (fun _ w => Snapshots w ∧ Refreshes w) ?_ ?_ run
  · exact ⟨⟨nofun,nofun,nofun,nofun⟩,rfl,by simp [constructed],nofun,nofun,by simp [constructed]⟩
  · rintro _ w m w' ⟨snapshots,refreshes⟩ moved
    exact ⟨snapshots_step snapshots moved,refreshes_step refreshes snapshots.fresh moved⟩

theorem one_refresh_per_client (run : Plays (step transport) constructed trace w) :
    (∀ c, w.log.count (.refreshing c) ≤ 1) ∧
      (∀ failed snapshot, .refresh failed (.returned (some snapshot)) ∈ w.tasks →
        snapshot.client ≠ failed.client) ∧
      ∀ a b, .took a ∈ w.log → .took b ∈ w.log → a.client = b.client →
        a.refreshAttempt = b.refreshAttempt := by
  obtain ⟨snapshots,refreshes⟩ := run_refreshes run
  refine ⟨refreshes.once,?_,snapshots.agree⟩
  intro failed snapshot returned
  exact (refreshes.reports _ returned).2 snapshot rfl

/-- Two requests report the first client; one of them replaces it, the other one uses the
    replacement. -/
def twoReports : List (Move Reply) :=
  replicate 8 (.advance 0 .succeeds) ++ [.arrive,.arrive] ++
    replicate 3 (.advance 1 .fails) ++
    replicate 3 (.advance 2 .fails) ++ replicate 6 (.advance 3 .succeeds) ++
      replicate 4 (.advance 4 .fails)

theorem two_reports_one_refresh :
    .refreshing 0 ∈ (play (step transport) twoReports constructed).2.log ∧
    .refresh ⟨0,1⟩ (.returned (some ⟨1,2⟩)) ∈
      (play (step transport) twoReports constructed).2.tasks ∧
    (play (step transport) twoReports constructed).2.log.count (.refreshing 0) ≤ 1 ∧
    SecureClientSnapshot.client ⟨1,2⟩ ≠ SecureClientSnapshot.client ⟨0,1⟩ := by
  have logged : .refreshing 0 ∈ (play (step transport) twoReports constructed).2.log := by
    decide +kernel
  have returned : .refresh ⟨0,1⟩ (.returned (some ⟨1,2⟩)) ∈
      (play (step transport) twoReports constructed).2.tasks := by
    decide +kernel
  obtain ⟨once,differs,_⟩ := one_refresh_per_client (plays_play _ twoReports constructed)
  exact ⟨logged,returned,once 0,differs _ _ returned⟩

end OpenSecret.Provider
