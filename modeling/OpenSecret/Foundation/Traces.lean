import Mathlib.Data.List.Basic

/-!
Runs of a system whose every move is a partial function of the state. A trace
keeps each move together with the state it was made in.
-/
namespace Traces
open List

variable {σ μ : Type} {step : σ → μ → Option σ} {start s t : σ} {trace : List (σ × μ)}

inductive Plays (step : σ → μ → Option σ) (start : σ) : List (σ × μ) → σ → Prop where
  | start : Plays step start [] start
  | move {trace : List (σ × μ)} {s t : σ} {m : μ} (before : Plays step start trace s)
      (moved : step s m = some t) : Plays step start (trace ++ [(s,m)]) t

theorem plays_invariant (invariant : List (σ × μ) → σ → Prop) (first : invariant [] start)
    (keeps : ∀ trace s m t, invariant trace s → step s m = some t → invariant (trace ++ [(s,m)]) t)
    (run : Plays step start trace s) : invariant trace s := by
  induction run with
  | start => exact first
  | move _ moved ih => exact keeps _ _ _ _ ih moved

theorem plays_append {later : List (σ × μ)} (run : Plays step start trace s)
    (rest : Plays step s later t) :
    Plays step start (trace ++ later) t := by
  induction rest with
  | start => rwa [append_nil]
  | move _ moved ih =>
    rw [← append_assoc]
    exact .move ih moved

theorem plays_take {history : List (σ × μ)} {i : Nat} {m : μ} (run : Plays step start history s)
    (here : history[i]? = some (t,m)) : Plays step start (history.take i) t := by
  induction run with
  | start => cases here
  | @move earlier s u m' before moved ih =>
    rcases Nat.lt_trichotomy i earlier.length with low | rfl | high
    · rw [getElem?_append_left low] at here
      rw [take_append_of_le_length (Nat.le_of_lt low)]
      exact ih here
    · rw [getElem?_concat_length] at here
      cases here
      rwa [take_left]
    · rw [getElem?_eq_none (by simp; omega)] at here
      cases here

def play (step : σ → μ → Option σ) : List μ → σ → List (σ × μ) × σ
  | [], s => ([],s)
  | m :: rest, s =>
    match step s m with
    | none => ([],s)
    | some t => ((s,m) :: (play step rest t).1,(play step rest t).2)

theorem plays_play (step : σ → μ → Option σ) (moves : List μ) (s : σ) :
    Plays step s (play step moves s).1 (play step moves s).2 := by
  induction moves generalizing s with
  | nil => exact .start
  | cons m rest ih =>
    unfold play
    split
    · exact .start
    · rename_i t moved
      exact plays_append (.move .start moved) (ih t)

theorem play_moves {moves : List μ} {x : σ × μ} (mem : x ∈ (play step moves s).1) :
    x.2 ∈ moves := by
  induction moves generalizing s with
  | nil => cases mem
  | cons m rest ih =>
    unfold play at mem
    split at mem
    · cases mem
    · rcases mem_cons.mp mem with rfl | later
      · exact mem_cons_self
      · exact mem_cons_of_mem _ (ih later)

section
variable {move : σ → μ → σ → Prop}

/-- The states of a run whose moves are a relation, newest first. -/
inductive Timeline (move : σ → μ → σ → Prop) (start : σ) : List σ → Prop where
  | start : Timeline move start [start]
  | step {older : List σ} {s t : σ} {m : μ} (before : Timeline move start (s :: older))
      (moved : move s m t) : Timeline move start (t :: s :: older)

theorem timeline_invariant (invariant : List σ → Prop) (first : invariant [start])
    (keeps : ∀ older s m t, invariant (s :: older) → move s m t → invariant (t :: s :: older))
    {states : List σ} (run : Timeline move start states) : invariant states := by
  induction run with
  | start => exact first
  | step _ moved ih => exact keeps _ _ _ _ ih moved

end

section
variable {ε : Type} {history : List ε} {e : ε} {i : Nat} {kind : ε → Prop}

theorem of_getElem?_concat {other : ε} (here : (history ++ [e])[i]? = some other) :
    history[i]? = some other ∨ i = history.length ∧ other = e := by
  rcases Nat.lt_trichotomy i history.length with low | rfl | high
  · rw [getElem?_append_left low] at here
    exact .inl here
  · rw [getElem?_concat_length] at here
    exact .inr ⟨rfl,(Option.some.inj here).symm⟩
  · rw [getElem?_eq_none (by simp; omega)] at here
    cases here

theorem getElem?_of_initial {later : List ε} (grown : history <+: later)
    (here : history[i]? = some e) : later[i]? = some e := by
  obtain ⟨rest,rfl⟩ := grown
  rw [getElem?_append_left (List.getElem?_eq_some_iff.mp here).1]
  exact here

def Since (history : List ε) (i : Nat) (kind : ε → Prop) : Prop :=
  ∀ j e, i < j → history[j]? = some e → kind e

theorem since_concat (since : Since history i kind) (last : kind e) :
    Since (history ++ [e]) i kind := by
  intro j other later here
  rcases of_getElem?_concat here with old | ⟨_,rfl⟩
  · exact since j other later old
  · exact last

theorem since_of_concat (before : i < history.length) (since : Since (history ++ [e]) i kind) :
    Since history i kind ∧ kind e := by
  refine ⟨fun j other later here => since j other later ?_,since history.length e before ?_⟩
  · exact (getElem?_append_left (List.getElem?_eq_some_iff.mp here).1).trans here
  · exact getElem?_concat_length

def Between (history : List ε) (i p : Nat) (kind : ε → Prop) : Prop :=
  ∀ j e, i < j → j < p → history[j]? = some e → kind e

theorem clock_le {time : ε → Nat} {p : Nat} {d : ε} (clock : (history.map time).Pairwise (· ≤ ·))
    (sooner : i < p) (first : history[i]? = some e) (second : history[p]? = some d) :
    time e ≤ time d := by
  obtain ⟨low,rfl⟩ := List.getElem?_eq_some_iff.mp first
  obtain ⟨high,rfl⟩ := List.getElem?_eq_some_iff.mp second
  have ordered :=
    pairwise_iff_getElem.mp clock i p (by simpa using low) (by simpa using high) sooner
  simpa using ordered

theorem since_take {p : Nat} : Since (history.take p) i kind ↔ Between history i p kind := by
  constructor
  · intro since j e later sooner here
    exact since j e later (by rw [getElem?_take_of_lt sooner, here])
  · intro between j e later here
    rcases Nat.lt_or_ge j p with sooner | beyond
    · rw [getElem?_take_of_lt sooner] at here
      exact between j e later sooner here
    · rw [getElem?_eq_none (by simp; omega)] at here
      cases here

end

end Traces
