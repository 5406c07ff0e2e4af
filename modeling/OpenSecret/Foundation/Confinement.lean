import OpenSecret.Foundation.Interleaving

/-!
What the atomic steps of a program can do, whoever runs in between. A program
is confined to a relation when each of its steps stays within it or changes
nothing; an invariant of the relation is then one of the whole system.
-/
namespace Interleaving
open List

variable {σ α β ε ε' ι : Type} {R : σ → σ → Prop}

def Prog.Confined (R : σ → σ → Prop) : Prog σ α → Prop
  | .done _ => True
  | .step effect next => (∀ s, effect s = s ∨ R s (effect s)) ∧ ∀ s, (next s).Confined R

def Prog.Yields : Prog σ α → α → Prop
  | .done b, a => b = a
  | .step _ next, a => ∃ s, (next s).Yields a

variable {p : Prog σ α} {R' : σ → σ → Prop}

theorem confined_bind {f : α → Prog σ β} :
    Prog.Confined R (p >>= f) ↔ p.Confined R ∧ ∀ a, p.Yields a → (f a).Confined R := by
  induction p with
  | done a => exact ⟨fun rest => ⟨trivial,fun b same => same ▸ rest⟩,fun h => h.2 a rfl⟩
  | step effect next ih =>
    constructor
    · intro confined
      refine ⟨⟨confined.1,fun s => ((ih s).mp (confined.2 s)).1⟩,fun a yields => ?_⟩
      obtain ⟨s,later⟩ := yields
      exact ((ih s).mp (confined.2 s)).2 a later
    · intro parts
      exact ⟨parts.1.1,fun s => (ih s).mpr ⟨parts.1.2 s,fun a later => parts.2 a ⟨s,later⟩⟩⟩

theorem confined_mono (weaker : ∀ s t, R s t → R' s t) (confined : p.Confined R) :
    p.Confined R' := by
  induction p with
  | done a => trivial
  | step effect next ih =>
    exact ⟨fun s => (confined.1 s).imp_right (weaker s _),fun s => ih s (confined.2 s)⟩

theorem confined_transact {run : σ → α × σ} (moves : ∀ s, (run s).2 = s ∨ R s (run s).2) :
    Prog.Confined R (transact run) :=
  ⟨moves,fun _ => trivial⟩

def Within (R : σ → σ → Prop) (x : ExceptT ε (Prog σ) α) : Prop := Prog.Confined R x.run

section
variable {x : ExceptT ε (Prog σ) α}

@[simp] theorem within_pure {a : α} : Within R (pure a : ExceptT ε (Prog σ) α) := trivial

@[simp] theorem within_throw {e : ε} : Within R (throw e : ExceptT ε (Prog σ) α) := trivial

@[simp] theorem within_settle {r : Except ε α} :
    Within R (settle r : ExceptT ε (Prog σ) α) := trivial

@[simp] theorem within_bind {f : α → ExceptT ε (Prog σ) β} :
    Within R (x >>= f) ↔ Within R x ∧ ∀ a, x.run.Yields (.ok a) → Within R (f a) := by
  refine confined_bind.trans (and_congr_right fun _ =>
    ⟨fun rest a => rest (.ok a),fun rest r => ?_⟩)
  cases r with
  | ok a => exact rest a
  | error e => exact fun _ => trivial

@[simp] theorem within_map {f : α → β} : Within R (f <$> x) ↔ Within R x := by
  refine confined_bind.trans (and_iff_left fun r _ => ?_)
  cases r <;> trivial

@[simp] theorem within_mapError {f : ε → ε'} : Within R (mapError f x) ↔ Within R x :=
  confined_bind.trans (and_iff_left fun _ _ => trivial)

@[simp] theorem within_inspect {view : σ → α} : Within R (inspect view : ExceptT ε (Prog σ) α) :=
  confined_bind.mpr ⟨confined_transact fun _ => .inl rfl,fun _ _ => trivial⟩

@[simp] theorem within_ite {condition : Prop} [Decidable condition] {y : ExceptT ε (Prog σ) α} :
    Within R (if condition then x else y) ↔
      (condition → Within R x) ∧ (¬ condition → Within R y) := by
  split <;> simp [*]

theorem within_attempt {run : σ → Except ε (α × σ)} (moves : ∀ s a t, run s = .ok (a,t) → R s t) :
    Within R (attempt run) := by
  refine confined_transact fun s => ?_
  cases result : run s with
  | ok pair => exact .inr (moves s pair.1 pair.2 result)
  | error e => exact .inl rfl

end

structure System.Confined (S : System σ ι α) (R : σ → σ → Prop) : Prop where
  handled : ∀ request, (S.handle request).Confined R
  interference : ∀ s t, S.interferes s t → R s t

theorem System.Confined.mono {S : System σ ι α} (weaker : ∀ s t, R s t → R' s t)
    (confined : S.Confined R) : S.Confined R' :=
  ⟨fun request => confined_mono weaker (confined.handled request),
    fun s t h => weaker s t (confined.interference s t h)⟩

def Config.Confined (R : σ → σ → Prop) (c : Config σ ι α) : Prop :=
  ∀ thread ∈ c.threads, thread.2.Confined R

section
variable {S : System σ ι α} {c d : Config σ ι α}

theorem step_within (system : S.Confined R) (threads : c.Confined R) (step : Step S c d) :
    d.shared = c.shared ∨ R c.shared d.shared := by
  cases step with
  | arrive h => exact .inl rfl
  | @advance s before after request effect next =>
    exact (threads (request,.step effect next) (by simp)).1 s
  | interfere h => exact .inr (system.interference _ _ h)

theorem step_confined (system : S.Confined R) (threads : c.Confined R) (step : Step S c d) :
    d.Confined R := by
  intro thread mem
  rcases step_threads step mem with old | ⟨request,-,rfl⟩ | ⟨request,effect,next,moved,-,rfl⟩
  · exact threads thread old
  · exact system.handled request
  · exact (threads _ moved).2 c.shared

theorem run_confined (system : S.Confined R) (threads : c.Confined R) (run : Run S c d) :
    d.Confined R := by
  induction run with
  | refl => exact threads
  | tail _ step ih => exact step_confined system ih step

theorem run_keeps (invariant : σ → Prop) (system : S.Confined R) (threads : c.Confined R)
    (keeps : ∀ s t, R s t → invariant s → invariant t) (run : Run S c d)
    (before : invariant c.shared) : invariant d.shared := by
  induction run with
  | refl => exact before
  | tail reached step ih =>
    rcases step_within system (run_confined system threads reached) step with same | moved
    · rw [same]
      exact ih
    · exact keeps _ _ moved ih

end

/-- Whatever steps of `R` come in between, the program returns with `post`, and
    steps of `R` after it do not change that. -/
def Prog.Against (R : σ → σ → Prop) (post : α → σ → Prop) : Prog σ α → σ → Prop
  | .done a, s => ∀ t, Relation.ReflTransGen R s t → post a t
  | .step effect next, s => ∀ t, Relation.ReflTransGen R s t → (next t).Against R post (effect t)

section
variable {post : α → σ → Prop} {S : System σ ι α}

variable {p : Prog σ α} {s : σ} {f : α → ExceptT ε (Prog σ) β}

theorem against_later {t : σ} (against : p.Against R post s)
    (later : Relation.ReflTransGen R s t) : p.Against R post t := by
  cases p with
  | done a => exact fun u last => against u (later.trans last)
  | step effect next => exact fun u last => against u (later.trans last)

theorem against_bind {mid : α → σ → Prop} {post : β → σ → Prop} {f : α → Prog σ β}
    (first : p.Against R mid s) (rest : ∀ a t, mid a t → (f a).Against R post t) :
    Prog.Against R post (p >>= f) s := by
  induction p generalizing s with
  | done a => exact rest a s (first s .refl)
  | step effect next ih => exact fun t later => ih t (first t later)

theorem against_settle {r : Except ε α} {post : Except ε β → σ → Prop}
    (failed : ∀ e, r = .error e → Prog.Against R post (.done (.error e)) s)
    (rest : ∀ a, r = .ok a → Prog.Against R post (f a).run s) :
    Prog.Against R post (settle r >>= f).run s := by
  cases r with
  | error e => exact failed e rfl
  | ok a => exact rest a rfl

theorem against_call {run : σ → Except ε' α × σ} {rename : ε' → ε} {post : Except ε β → σ → Prop}
    (failed : ∀ t e, Relation.ReflTransGen R s t → (run t).1 = .error e →
      Prog.Against R post (.done (.error (rename e))) (run t).2)
    (rest : ∀ t a, Relation.ReflTransGen R s t → (run t).1 = .ok a →
      Prog.Against R post (f a).run (run t).2) :
    Prog.Against R post (mapError rename (ExceptT.mk (transact run)) >>= f).run s := by
  intro t later
  show Prog.Against R post (ExceptT.bindCont f ((run t).1.mapError rename)) (run t).2
  cases result : (run t).1 with
  | error e => exact failed t e later result
  | ok a => exact rest t a later result

theorem run_lead (others : ∀ s request, S.admits s request → (S.handle request).Confined R)
    (interference : ∀ s t, S.interferes s t → R s t) {request : ι} {c : Config σ ι α}
    (against : p.Against R post s) (run : Run S ⟨s,[(request,p)]⟩ c) :
    ∃ p' rest, c.threads = (request,p') :: rest ∧ p'.Against R post c.shared ∧
      ∀ thread ∈ rest, thread.2.Confined R := by
  induction run with
  | refl => exact ⟨p,[],rfl,against,fun _ mem => absurd mem not_mem_nil⟩
  | tail _ step ih =>
    obtain ⟨p',rest,threads,lead,confined⟩ := ih
    cases step with
    | @arrive s old new admitted =>
      have threads : old = (request,p') :: rest := threads
      subst threads
      refine ⟨p',rest ++ [(new,S.handle new)],rfl,lead,?_⟩
      intro thread mem
      rcases mem_append.mp mem with known | added
      · exact confined thread known
      · rw [mem_singleton.mp added]
        exact others s new admitted
    | @advance s before after moved effect next =>
      cases before with
      | nil =>
        cases threads
        exact ⟨next s,rest,rfl,lead s .refl,confined⟩
      | cons head before =>
        obtain ⟨rfl,same⟩ := cons.inj threads
        have here : (moved,Prog.step effect next) ∈ rest := by
          rw [← same]
          simp
        have own := confined _ here
        refine ⟨p',before ++ (moved,next s) :: after,rfl,?_,?_⟩
        · rcases own.1 s with unchanged | within
          · rw [unchanged]
            exact lead
          · exact against_later lead (.single within)
        · intro thread mem
          rcases mem_append.mp mem with known | later
          · exact confined thread (same ▸ mem_append_left _ known)
          · rcases mem_cons.mp later with rfl | known
            · exact own.2 s
            · exact confined thread (same ▸ mem_append_right _ (mem_cons_of_mem _ known))
    | interfere h =>
      exact ⟨p',rest,threads,against_later lead (.single (interference _ _ h)),confined⟩

end

/-- A schedule: requests come in and threads are let run for one step. -/
inductive Move (ι : Type) where
  | arrive (request : ι)
  | advance (thread : Nat)

def Prog.result? : Prog σ α → Option α
  | .done a => some a
  | .step _ _ => none

/-- A thread that is not there or has finished does not move. -/
def Config.advance (c : Config σ ι α) (i : Nat) : Config σ ι α :=
  match c.threads[i]? with
  | some (request,.step effect next) =>
    ⟨effect c.shared,c.threads.set i (request,next c.shared)⟩
  | _ => c

def Config.running (c : Config σ ι α) (i : Nat) : Bool :=
  match c.threads[i]? with
  | some (_,.step _ _) => true
  | _ => false

def Config.move (S : System σ ι α) (c : Config σ ι α) : Move ι → Config σ ι α
  | .arrive request => ⟨c.shared,c.threads ++ [(request,S.handle request)]⟩
  | .advance i => c.advance i

def Config.play (S : System σ ι α) (c : Config σ ι α) (moves : List (Move ι)) : Config σ ι α :=
  moves.foldl (Config.move S) c

section
variable {S : System σ ι α} {c : Config σ ι α}

theorem step_advance {i : Nat} (running : c.running i = true) : Step S c (c.advance i) := by
  obtain ⟨s,threads⟩ := c
  simp only [Config.running] at running
  simp only [Config.advance]
  split at running
  · rename_i request effect next found
    obtain ⟨bound,same⟩ := List.getElem?_eq_some_iff.mp found
    obtain ⟨before,after,rfl,rfl⟩ : ∃ before after,
        threads = before ++ (request,.step effect next) :: after ∧ i = before.length := by
      refine ⟨threads.take i,threads.drop (i + 1),?_,by simp; omega⟩
      rw [← same, getElem_cons_drop, take_append_drop]
    rw [set_append_right _ _ (Nat.le_refl _), Nat.sub_self, set_cons_zero]
    exact Step.advance
  · cases running

theorem advance_of_not_running {i : Nat} (waits : ¬ c.running i = true) : c.advance i = c := by
  simp only [Config.running] at waits
  simp only [Config.advance]
  split
  · rename_i request effect next found
    rw [found] at waits
    exact absurd rfl waits
  · rfl

theorem run_play_admitted (moves : List (Move ι))
    (admitted : ∀ request, Move.arrive request ∈ moves → ∀ s, S.admits s request) :
    Run S c (c.play S moves) := by
  induction moves generalizing c with
  | nil => exact .refl
  | cons move rest ih =>
    apply Relation.ReflTransGen.trans _ (ih fun request mem =>
      admitted request (mem_cons_of_mem _ mem))
    cases move with
    | arrive request => exact .single (Step.arrive (admitted request mem_cons_self c.shared))
    | advance i =>
      by_cases running : c.running i = true
      · exact .single (step_advance running)
      · rw [Config.move, advance_of_not_running running]

theorem run_play (admitted : ∀ s request, S.admits s request) (moves : List (Move ι)) :
    Run S c (c.play S moves) :=
  run_play_admitted moves fun request _ s => admitted s request

end

end Interleaving
