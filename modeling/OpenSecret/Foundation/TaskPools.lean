import OpenSecret.Foundation.Traces

/-!
Tasks over one shared state, run in every interleaving: each step advances one task,
which may spawn others and leaves events in a log; new tasks may arrive at any time.
A quantity that every step conserves between the tasks and the shared state is
counted right in every run.
-/
namespace TaskPools
open Traces List

variable {σ τ ε χ : Type}

structure Effect (σ τ ε : Type) where
  shared : σ
  task : τ
  spawned : List τ
  events : List ε

structure World (σ τ ε : Type) where
  shared : σ
  tasks : List τ
  log : List ε

/-- A step of a task may depend on a choice of its surroundings. -/
structure System (σ τ ε χ : Type) where
  advance : σ → χ → τ → Option (Effect σ τ ε)
  arrival : τ

inductive Move (χ : Type) where
  | arrive
  | advance (i : Nat) (choice : χ)

def step (S : System σ τ ε χ) (w : World σ τ ε) : Move χ → Option (World σ τ ε)
  | .arrive => some { w with tasks := w.tasks ++ [S.arrival] }
  | .advance i choice => do
    let t ← w.tasks[i]?
    let e ← S.advance w.shared choice t
    return ⟨e.shared,w.tasks.set i e.task ++ e.spawned,w.log ++ e.events⟩

variable {S : System σ τ ε χ} {w w' : World σ τ ε} {m : Move χ} {before after : List τ} {t u : τ}
  {e : Effect σ τ ε} {p : τ → Bool}

theorem step_cases (moved : step S w m = some w') :
    w' = ⟨w.shared,w.tasks ++ [S.arrival],w.log⟩ ∨
      ∃ before t after choice e, w.tasks = before ++ t :: after ∧
        S.advance w.shared choice t = some e ∧
        w' = ⟨e.shared,before ++ e.task :: after ++ e.spawned,w.log ++ e.events⟩ := by
  cases m with
  | arrive =>
    cases moved
    exact .inl rfl
  | advance i choice =>
    obtain ⟨t,here,moved⟩ := Option.bind_eq_some_iff.mp moved
    obtain ⟨e,advanced,moved⟩ := Option.bind_eq_some_iff.mp moved
    cases moved
    obtain ⟨low,rfl⟩ := List.getElem?_eq_some_iff.mp here
    refine .inr ⟨w.tasks.take i,_,w.tasks.drop (i + 1),choice,e,?_,advanced,?_⟩
    · rw [getElem_cons_drop, take_append_drop]
    · rw [set_eq_take_append_cons_drop, if_pos low]

theorem mem_tasks {spawned : List τ} : u ∈ before ++ t :: after ++ spawned ↔
    u ∈ before ++ after ∨ u = t ∨ u ∈ spawned := by
  simp only [mem_append, mem_cons]
  constructor
  · rintro ((inBefore | here | inAfter) | new)
    · exact .inl (.inl inBefore)
    · exact .inr (.inl here)
    · exact .inl (.inr inAfter)
    · exact .inr (.inr new)
  · rintro ((inBefore | inAfter) | here | new)
    · exact .inl (.inl inBefore)
    · exact .inl (.inr (.inr inAfter))
    · exact .inl (.inr (.inl here))
    · exact .inr new

theorem mem_others (mem : u ∈ before ++ after) : u ∈ before ++ t :: after := by
  rcases mem_append.mp mem with inBefore | inAfter
  · exact mem_append_left _ inBefore
  · exact mem_append_right _ (mem_cons_of_mem t inAfter)

theorem others_of_ne (mem : u ∈ before ++ t :: after) (other : u ≠ t) : u ∈ before ++ after := by
  simp only [mem_append, mem_cons] at mem ⊢
  rcases mem with inBefore | same | inAfter
  · exact .inl inBefore
  · exact absurd same other
  · exact .inr inAfter

theorem others_lack (one : (before ++ t :: after).countP p ≤ 1) (has : p t = true)
    (mem : u ∈ before ++ after) : p u = false := by
  rw [countP_append, countP_cons, if_pos has] at one
  have none : (before ++ after).countP p = 0 := by
    rw [countP_append]
    omega
  exact Bool.not_eq_true _ ▸ countP_eq_zero.mp none u mem

/-- A fact about every task: a step establishes it for the task that moved and for those
    it spawned, and does not disturb it for the others. -/
theorem forall_step {P : σ → τ → Prop} (holds : ∀ t ∈ w.tasks, P w.shared t)
    (moved : step S w m = some w') (arrives : P w.shared S.arrival)
    (keeps : ∀ before t after choice e, w.tasks = before ++ t :: after →
      S.advance w.shared choice t = some e →
      (P w.shared t → P e.shared e.task ∧ ∀ u ∈ e.spawned, P e.shared u) ∧
      ∀ u ∈ before ++ after, P w.shared u → P e.shared u) :
    ∀ t ∈ w'.tasks, P w'.shared t := by
  intro u mem
  rcases step_cases moved with rfl | ⟨before,t,after,choice,e,shape,advanced,rfl⟩
  · rcases mem_append.mp mem with old | new
    · exact holds u old
    · cases mem_singleton.mp new
      exact arrives
  · obtain ⟨own,other⟩ := keeps before t after choice e shape advanced
    rw [shape] at holds
    obtain ⟨mover,born⟩ := own (holds t (by simp))
    rcases mem_tasks.mp mem with inOthers | rfl | new
    · exact other u inOthers (holds u (mem_others inOthers))
    · exact mover
    · exact born u new

/-- Each step keeps the number of tasks with `p` in step with the shared state. -/
structure Conserves (S : System σ τ ε χ) (p : τ → Bool) (held : σ → Bool) : Prop where
  arrival : p S.arrival = false
  advance : ∀ s choice t e, S.advance s choice t = some e → (p t = true → held s = true) →
    (p e.task).toNat + e.spawned.countP p + (held s).toNat = (p t).toNat + (held e.shared).toNat

theorem tally_step {held : σ → Bool} (conserves : Conserves S p held)
    (tally : w.tasks.countP p = (held w.shared).toNat) (moved : step S w m = some w') :
    w'.tasks.countP p = (held w'.shared).toNat := by
  rcases step_cases moved with rfl | ⟨before,t,after,choice,e,shape,advanced,rfl⟩
  · dsimp only
    rw [countP_append, countP_singleton, conserves.arrival]
    exact tally
  · have unit : ∀ t, (if p t = true then 1 else 0) = (p t).toNat := by
      intro t
      cases p t <;> rfl
    rw [shape, countP_append, countP_cons, unit] at tally
    have law := conserves.advance w.shared choice t e advanced (by
      intro has
      rw [has] at tally
      cases free : held w.shared with
      | true => rfl
      | false =>
        rw [free] at tally
        simp at tally)
    dsimp only
    rw [countP_append, countP_append, countP_cons, unit]
    omega

end TaskPools
