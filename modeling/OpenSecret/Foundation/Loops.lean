import Mathlib.Data.List.Basic

/-!
Loops that may fail. The body goes on, ends with a result, or fails; a measure that
falls whenever it goes on makes the loop a total function.
-/
namespace Loops

variable {ε σ α : Type}

inductive Next (σ α : Type) where
  | more (s : σ)
  | done (a : α)

def Falls (body : σ → Except ε (Next σ α)) (measure : σ → Nat) : Prop :=
  ∀ s t, body s = .ok (.more t) → measure t < measure s

def loop (body : σ → Except ε (Next σ α)) (measure : σ → Nat) (falls : Falls body measure) (s : σ) :
    Except ε α :=
  match _next : body s with
  | .error e => .error e
  | .ok (.done a) => .ok a
  | .ok (.more t) => loop body measure falls t
termination_by measure s
decreasing_by exact falls s t _next

variable {body : σ → Except ε (Next σ α)} {measure : σ → Nat} {falls : Falls body measure}
  {s t : σ} {a : α} {e : ε}

theorem loop_done (ends : body s = .ok (.done a)) : loop body measure falls s = .ok a := by
  unfold loop
  split <;> rename_i next <;> cases ends.symm.trans next
  rfl

theorem loop_more (goes : body s = .ok (.more t)) :
    loop body measure falls s = loop body measure falls t := by
  conv_lhs => unfold loop
  split <;> rename_i next <;> cases goes.symm.trans next
  rfl

theorem loop_fails (stops : body s = .error e) : loop body measure falls s = .error e := by
  unfold loop
  split <;> rename_i next <;> cases stops.symm.trans next
  rfl

/-- What holds where the body ends or fails, and one round before where it holds,
    holds of the whole loop. -/
theorem loop_rule {holds : σ → Except ε α → Prop}
    (done : ∀ s a, body s = .ok (.done a) → holds s (.ok a))
    (fails : ∀ s e, body s = .error e → holds s (.error e))
    (more : ∀ s t r, body s = .ok (.more t) → holds t r → holds s r) (s : σ) :
    holds s (loop body measure falls s) := by
  induction level : measure s using Nat.strongRecOn generalizing s with
  | ind n ih =>
    cases next : body s with
    | error e =>
      rw [loop_fails next]
      exact fails s e next
    | ok step =>
      cases step with
      | done a =>
        rw [loop_done next]
        exact done s a next
      | more t =>
        rw [loop_more next]
        exact more s t _ next (ih (measure t) (level ▸ falls s t next) t rfl)

end Loops
