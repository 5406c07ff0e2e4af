import OpenSecret.Foundation.Confinement
import OpenSecret.Foundation.Traces

/-!
A prize that several threads compete for. A thread can claim it only by a step
that takes it while it is free; once taken it stays so. Then at most one thread
of a run returns with a claim.
-/
namespace Interleaving
open Traces (of_getElem?_concat)

variable {σ α β ε ι : Type}

def StaysTaken (inv taken : σ → Prop) (s t : σ) : Prop := inv s → taken s → taken t

/-- The program returns no claim, unless one of its steps takes the prize; after
    that step it may return anything. -/
def Prog.Competes (inv taken : σ → Prop) (claim : α → Prop) : Prog σ α → Prop
  | .done a => ¬ claim a
  | .step effect next => ∀ s, inv s → (taken s → taken (effect s)) ∧
    ((next s).Competes inv taken claim ∨
      (next s).Confined (StaysTaken inv taken) ∧ ¬ taken s ∧ taken (effect s))

section
variable {inv taken : σ → Prop} {claim : α → Prop}

variable {p : Prog σ β} {f : β → ExceptT ε (Prog σ) α}

theorem competes_bind {f : β → Prog σ α} (first : p.Confined (StaysTaken inv taken))
    (rest : ∀ b, p.Yields b → (f b).Competes inv taken claim) :
    Prog.Competes inv taken claim (p >>= f) := by
  induction p with
  | done b => exact rest b rfl
  | step effect next ih =>
    intro s good
    refine ⟨fun held => ?_,.inl (ih s (first.2 s) fun b later => rest b ⟨s,later⟩)⟩
    rcases first.1 s with same | kept
    · rw [same]
      exact held
    · exact kept good held

theorem competes_map {f : β → α} (competes : p.Competes inv taken fun b => claim (f b)) :
    Prog.Competes inv taken claim (p >>= fun b => pure (f b)) := by
  induction p with
  | done b => exact competes
  | step effect next ih =>
    intro s good
    obtain ⟨kept,still | ⟨confined,free,now⟩⟩ := competes s good
    · exact ⟨kept,.inl (ih s still)⟩
    · exact ⟨kept,.inr ⟨confined_bind.mpr ⟨confined,fun _ _ => trivial⟩,free,now⟩⟩

def Contends (inv taken : σ → Prop) (claim : α → Prop) (x : ExceptT ε (Prog σ) α) : Prop :=
  x.run.Competes inv taken fun r => ∃ a, r = .ok a ∧ claim a

theorem contends_throw {e : ε} : Contends inv taken claim (throw e : ExceptT ε (Prog σ) α) :=
  fun ⟨_,same,_⟩ => nomatch same

theorem contends_bind {x : ExceptT ε (Prog σ) β} (first : Within (StaysTaken inv taken) x)
    (rest : ∀ b, x.run.Yields (.ok b) → Contends inv taken claim (f b)) :
    Contends inv taken claim (x >>= f) := by
  refine competes_bind first fun r yields => ?_
  cases r with
  | ok b => exact rest b yields
  | error e => exact contends_throw

theorem contends_transact {ε' : Type} {run : σ → Except ε' β × σ} {rename : ε' → ε}
    (moves : ∀ s, inv s → (taken s → taken (run s).2) ∧ ∀ b, (run s).1 = .ok b →
      Contends inv taken claim (f b) ∨
        Within (StaysTaken inv taken) (f b) ∧ ¬ taken s ∧ taken (run s).2) :
    Contends inv taken claim (mapError rename (ExceptT.mk (transact run)) >>= f) := by
  intro s good
  obtain ⟨kept,outcome⟩ := moves s good
  refine ⟨kept,?_⟩
  show Prog.Competes inv taken _ (ExceptT.bindCont f ((run s).1.mapError rename)) ∨
    Prog.Confined (StaysTaken inv taken) (ExceptT.bindCont f ((run s).1.mapError rename)) ∧
      ¬ taken s ∧ taken (run s).2
  cases result : (run s).1 with
  | error e => exact .inl contends_throw
  | ok b => exact outcome b result

end

/-- The thread at position `winner`, if any, has taken the prize; the others are
    still competing for it. -/
def Contest (inv taken : σ → Prop) (claim : ι → α → Prop) (winner : Option Nat)
    (c : Config σ ι α) : Prop :=
  (∀ i, winner = some i → i < c.threads.length ∧ taken c.shared) ∧
    ∀ i thread, c.threads[i]? = some thread →
      (winner = some i ∧ thread.2.Confined (StaysTaken inv taken)) ∨
        (winner ≠ some i ∧ thread.2.Competes inv taken (claim thread.1))

section
variable {inv taken : σ → Prop} {claim : ι → α → Prop} {S : System σ ι α} {c d : Config σ ι α}
  {winner : Option Nat}

variable {request : ι} {before after : List (ι × Prog σ α)}

theorem contest_arrive (competes : (S.handle request).Competes inv taken (claim request))
    (contest : Contest inv taken claim winner c) :
    Contest inv taken claim winner ⟨c.shared,c.threads ++ [(request,S.handle request)]⟩ := by
  refine ⟨fun i won => ?_,fun i thread here => ?_⟩
  · have bound := contest.1 i won
    exact ⟨by simp; omega,bound.2⟩
  · rcases of_getElem?_concat here with old | ⟨rfl,rfl⟩
    · exact contest.2 i thread old
    · refine .inr ⟨fun won => ?_,competes⟩
      have bound := (contest.1 _ won).1
      omega

theorem contest_replace {s t : σ} {old new : ι × Prog σ α}
    {winner' : Option Nat} (contest : Contest inv taken claim winner ⟨s,before ++ old :: after⟩)
    (others : ∀ i, i ≠ before.length → (winner' = some i ↔ winner = some i))
    (prize : ∀ i, winner' = some i → i < (before ++ old :: after).length ∧ taken t)
    (here : (winner' = some before.length ∧ new.2.Confined (StaysTaken inv taken)) ∨
      (winner' ≠ some before.length ∧ new.2.Competes inv taken (claim new.1))) :
    Contest inv taken claim winner' ⟨t,before ++ new :: after⟩ := by
  refine ⟨fun i won => ?_,fun i thread at_ => ?_⟩
  · have bound := prize i won
    simpa using bound
  · by_cases place : i = before.length
    · subst place
      rw [List.getElem?_append_right (Nat.le_refl _), Nat.sub_self] at at_
      cases at_
      exact here
    · rw [getElem?_other_position place old] at at_
      have kept := contest.2 i thread at_
      rwa [Ne, others i place]

theorem contest_advance {s : σ} {effect : σ → σ} {next : σ → Prog σ α} (good : inv s)
    (contest : Contest inv taken claim winner ⟨s,before ++ (request,.step effect next) :: after⟩) :
    ∃ winner', Contest inv taken claim winner' ⟨effect s,before ++ (request,next s) :: after⟩ := by
  rcases contest.2 before.length (request,.step effect next) (by simp) with
    ⟨won,confined⟩ | ⟨lost,competes⟩
  · refine ⟨winner,contest_replace contest (fun _ _ => Iff.rfl)
      (fun i same => ?_) (.inl ⟨won,confined.2 s⟩)⟩
    obtain ⟨bound,held⟩ := contest.1 i same
    refine ⟨bound,?_⟩
    rcases confined.1 s with unchanged | kept
    · rw [unchanged]
      exact held
    · exact kept good held
  · obtain ⟨kept,still | ⟨after',free,now⟩⟩ := competes s good
    · refine ⟨winner,contest_replace contest (fun _ _ => Iff.rfl)
        (fun i same => ?_) (.inr ⟨lost,still⟩)⟩
      obtain ⟨bound,held⟩ := contest.1 i same
      exact ⟨bound,kept held⟩
    · have nobody : ∀ i, winner ≠ some i := fun i won => free (contest.1 i won).2
      refine ⟨some before.length,contest_replace contest (fun i elsewhere => ?_) (fun i won => ?_)
        (.inl ⟨rfl,after'⟩)⟩
      · exact iff_of_false (fun won => elsewhere (Option.some.inj won).symm) (nobody i)
      · rw [← Option.some.inj won]
        exact ⟨by simp,now⟩

theorem run_contest (keeps : S.Confined fun s t => inv s → inv t)
    (interference : ∀ s t, S.interferes s t → StaysTaken inv taken s t)
    (handlers : ∀ request, (S.handle request).Competes inv taken (claim request))
    {start : σ} (first : inv start) (run : Run S ⟨start,[]⟩ c) :
    ∃ winner, Contest inv taken claim winner c := by
  induction run with
  | refl => exact ⟨none,nofun,nofun⟩
  | @tail c d reached step ih =>
    obtain ⟨winner,contest⟩ := ih
    have good : inv c.shared :=
      run_keeps inv keeps (fun _ none => absurd none List.not_mem_nil)
        (fun _ _ kept => kept) reached first
    cases step with
    | arrive => exact ⟨winner,contest_arrive (handlers _) contest⟩
    | advance => exact contest_advance good contest
    | interfere h =>
      refine ⟨winner,fun i won => ?_,contest.2⟩
      obtain ⟨bound,held⟩ := contest.1 i won
      exact ⟨bound,interference _ _ h good held⟩

theorem claims_unique (contest : Contest inv taken claim winner c) {i j : Nat} {other : ι} {a b : α}
    (here : c.threads[i]? = some (request,.done a)) (there : c.threads[j]? = some (other,.done b))
    (first : claim request a) (second : claim other b) :
    i = j := by
  rcases contest.2 i _ here with ⟨won,_⟩ | ⟨_,competes⟩
  · rcases contest.2 j _ there with ⟨again,_⟩ | ⟨_,competes⟩
    · exact Option.some.inj (won.symm.trans again)
    · exact absurd second competes
  · exact absurd first competes

end

end Interleaving
