import Mathlib.Logic.Relation

/-!
Handlers over one shared state, cut at their atomic steps and run in every
interleaving. A discipline states what all atomic steps keep; a handler is
proved against the discipline alone, never against another handler.
Randomness and client choices are part of a request, so handlers are functions.
-/
namespace Interleaving
open List

inductive Prog (σ α : Type) where
  | done (result : α)
  | step (effect : σ → σ) (next : σ → Prog σ α)

variable {σ α β γ ε ι : Type}

def Prog.bind : Prog σ α → (α → Prog σ β) → Prog σ β
  | .done a, f => f a
  | .step effect next, f => .step effect (fun s => (next s).bind f)

instance : Monad (Prog σ) where
  pure := .done
  bind := .bind

/-- One database transaction: it sees the state alone and commits alone. -/
def transact (run : σ → α × σ) : Prog σ α :=
  .step (fun s => (run s).2) (fun s => .done (run s).1)

def observe (view : σ → α) : Prog σ α := transact (fun s => (view s,s))

/-- A transaction that can be refused: on an error nothing is written. -/
def attempt (run : σ → Except ε (α × σ)) : ExceptT ε (Prog σ) α :=
  ExceptT.mk (transact fun s =>
    match run s with
    | .ok (a,t) => (.ok a,t)
    | .error e => (.error e,s))

def inspect (view : σ → α) : ExceptT ε (Prog σ) α := ExceptT.lift (observe view)

def settle (x : Except ε α) : ExceptT ε (Prog σ) α := ExceptT.mk (pure x)

def mapError {ε' : Type} (f : ε → ε') (x : ExceptT ε (Prog σ) α) : ExceptT ε' (Prog σ) α :=
  ExceptT.mk (x.run >>= fun r => pure (r.mapError f))

/-- What every step of the system keeps: `invariant` is true of every state,
    `frame` is how a state may change over any number of steps. -/
structure Discipline (σ : Type) where
  invariant : σ → Prop
  frame : σ → σ → Prop
  frame_refl : ∀ s, frame s s
  frame_trans : ∀ {s t u}, frame s t → frame t u → frame s u

namespace Discipline
variable (D : Discipline σ)

def Rely (s t : σ) : Prop := D.invariant s → D.invariant t ∧ D.frame s t

def Holds (fact : σ → Prop) (s : σ) : Prop := D.invariant s ∧ fact s

def Stable (fact : σ → Prop) : Prop := ∀ s t, D.frame s t → fact s → fact t

theorem rely_refl (s : σ) : D.Rely s s := fun inv => ⟨inv,D.frame_refl s⟩

theorem rely_trans {s t u : σ} (st : D.Rely s t) (tu : D.Rely t u) : D.Rely s u := by
  intro inv
  obtain ⟨invT,first⟩ := st inv
  obtain ⟨invU,second⟩ := tu invT
  exact ⟨invU,D.frame_trans first second⟩

theorem holds_rely {fact : σ → Prop} {s t : σ} (stable : D.Stable fact)
    (holds : D.Holds fact s) (rely : D.Rely s t) : D.Holds fact t := by
  obtain ⟨inv,frame⟩ := rely holds.1
  exact ⟨inv,stable s t frame holds.2⟩

/-- From `s`, whatever the other handlers do in between, every step of the
    program respects the discipline and its result satisfies `post`. -/
def Safe (post : α → σ → Prop) : Prog σ α → σ → Prop
  | .done a, s => D.Holds (post a) s
  | .step effect next, s => ∀ t, D.Rely s t → D.Rely t (effect t) ∧ Safe post (next t) (effect t)

def Triple (pre : σ → Prop) (p : Prog σ α) (post : α → σ → Prop) : Prop :=
  ∀ s, D.Holds pre s → D.Safe post p s

variable {p : Prog σ α} {other mid : α → σ → Prop} {f : α → Prog σ β} {x : ExceptT ε (Prog σ) α}
  {pre : σ → Prop}

theorem safe_rely {post : α → σ → Prop} (stable : ∀ a, D.Stable (post a))
    {s t : σ} (safe : D.Safe post p s) (rely : D.Rely s t) : D.Safe post p t := by
  cases p with
  | done a => exact D.holds_rely (stable a) safe rely
  | step effect next => exact fun u tu => safe u (D.rely_trans rely tu)

theorem safe_mono {post : α → σ → Prop} (imp : ∀ a s, D.invariant s → post a s → other a s) {s : σ}
    (safe : D.Safe post p s) : D.Safe other p s := by
  induction p generalizing s with
  | done a => exact ⟨safe.1,imp a s safe.1 safe.2⟩
  | step effect next ih => exact fun t rely => ⟨(safe t rely).1,ih t (safe t rely).2⟩

theorem safe_bind {post : β → σ → Prop} (rest : ∀ a, D.Triple (mid a) (f a) post) {s : σ}
    (safe : D.Safe mid p s) : D.Safe post (p.bind f) s := by
  induction p generalizing s with
  | done a => exact rest a s safe
  | step effect next ih => exact fun t rely => ⟨(safe t rely).1,ih t (safe t rely).2⟩

theorem triple_bind {post : β → σ → Prop} (first : D.Triple pre p mid)
    (rest : ∀ a, D.Triple (mid a) (f a) post) : D.Triple pre (p >>= f) post :=
  fun s holds => D.safe_bind rest (first s holds)

theorem triple_pure {a : α} {post : α → σ → Prop}
    (imp : ∀ s, D.invariant s → pre s → post a s) : D.Triple pre (pure a) post :=
  fun s holds => ⟨holds.1,imp s holds.1 holds.2⟩

/-- The only rule that looks at a state change: the transaction must keep the
    invariant and respect the frame. -/
theorem triple_transact {run : σ → α × σ} {post : α → σ → Prop} (stable : D.Stable pre)
    (keeps : ∀ s, D.invariant s → pre s →
      D.invariant (run s).2 ∧ D.frame s (run s).2 ∧ post (run s).1 (run s).2) :
    D.Triple pre (transact run) post := by
  intro s holds t rely
  have here := D.holds_rely stable holds rely
  obtain ⟨inv,frame,after⟩ := keeps t here.1 here.2
  exact ⟨fun _ => ⟨inv,frame⟩,inv,after⟩

/-- A handler that can fail keeps the discipline on every path; `post` speaks
    of its successful results only. -/
def Ensures (pre : σ → Prop) (x : ExceptT ε (Prog σ) α) (post : α → σ → Prop) : Prop :=
  D.Triple pre x.run (fun r s => ∀ a, r = .ok a → post a s)

variable {post : α → σ → Prop}

theorem ensures_bind {post : β → σ → Prop} {f : α → ExceptT ε (Prog σ) β}
    (first : D.Ensures pre x mid) (rest : ∀ a, D.Ensures (mid a) (f a) post) :
    D.Ensures pre (x >>= f) post := by
  refine D.triple_bind first ?_
  intro r
  cases r with
  | ok a => exact fun s holds => rest a s ⟨holds.1,holds.2 a rfl⟩
  | error e =>
    refine D.triple_pure (fun s _ _ b same => ?_)
    cases same

theorem ensures_pure {a : α} (imp : ∀ s, D.invariant s → pre s → post a s) :
    D.Ensures pre (pure a : ExceptT ε (Prog σ) α) post := by
  refine D.triple_pure (fun s inv h b same => ?_)
  cases same
  exact imp s inv h

theorem ensures_map {f : α → β} {post : β → σ → Prop}
    (h : D.Ensures pre x (fun a => post (f a))) : D.Ensures pre (f <$> x) post := by
  refine D.triple_bind h ?_
  intro r
  cases r with
  | ok a =>
    refine D.triple_pure (fun s _ all b same => ?_)
    cases same
    exact all a rfl
  | error e =>
    refine D.triple_pure (fun s _ _ b same => ?_)
    cases same

theorem ensures_throw {e : ε} : D.Ensures pre (throw e : ExceptT ε (Prog σ) α) post := by
  refine D.triple_pure (fun s _ _ b same => ?_)
  cases same

theorem ensures_settle {x : Except ε α}
    (imp : ∀ s a, D.invariant s → pre s → x = .ok a → post a s) :
    D.Ensures pre (settle x : ExceptT ε (Prog σ) α) post :=
  D.triple_pure (fun s inv h a same => imp s a inv h same)

theorem ensures_mapError {ε' : Type} {f : ε → ε'} (h : D.Ensures pre x post) :
    D.Ensures pre (mapError f x) post := by
  refine D.triple_bind h ?_
  intro r
  refine D.triple_pure (fun s _ all a same => ?_)
  cases r with
  | ok b => cases same; exact all _ rfl
  | error e => cases same

theorem ensures_strengthen {strong : σ → Prop}
    (imp : ∀ s, D.invariant s → strong s → pre s) (h : D.Ensures pre x post) :
    D.Ensures strong x post :=
  fun s holds => h s ⟨holds.1,imp s holds.1 holds.2⟩

theorem ensures_weaken (imp : ∀ a s, D.invariant s → post a s → other a s)
    (h : D.Ensures pre x post) :
    D.Ensures pre x other :=
  fun s holds => D.safe_mono (fun _ t inv all a same => imp a t inv (all a same)) (h s holds)

theorem ensures_attempt {run : σ → Except ε (α × σ)} (stable : D.Stable pre)
    (keeps : ∀ s a t, D.invariant s → pre s → run s = .ok (a,t) →
      D.invariant t ∧ D.frame s t ∧ post a t) :
    D.Ensures pre (attempt run) post := by
  refine D.triple_transact stable (fun s inv h => ?_)
  cases result : run s with
  | ok pair =>
    obtain ⟨inv',frame,after⟩ := keeps s pair.1 pair.2 inv h result
    refine ⟨inv',frame,fun a same => ?_⟩
    cases same
    exact after
  | error e =>
    refine ⟨inv,D.frame_refl s,fun a same => ?_⟩
    cases same

theorem ensures_inspect {view : σ → α} (stable : D.Stable pre)
    (sees : ∀ s, D.invariant s → pre s → post (view s) s) :
    D.Ensures pre (inspect view : ExceptT ε (Prog σ) α) post := by
  have read : D.Triple pre (observe view) post :=
    D.triple_transact stable (fun s inv h => ⟨inv,D.frame_refl s,sees s inv h⟩)
  refine D.triple_bind read ?_
  intro a
  refine D.triple_pure (fun s _ h b same => ?_)
  cases same
  exact h

end Discipline

/-- Requests of type `ι` arrive at any time, each served by its own handler.
    `interferes` is whatever changes the state without being a handler. -/
structure System (σ ι α : Type) where
  handle : ι → Prog σ α
  admits : σ → ι → Prop
  interferes : σ → σ → Prop

structure Config (σ ι α : Type) where
  shared : σ
  threads : List (ι × Prog σ α)

/-- A request is appended, so a thread keeps its position for the whole run. -/
inductive Step (S : System σ ι α) : Config σ ι α → Config σ ι α → Prop where
  | arrive {s : σ} {threads : List (ι × Prog σ α)} {request : ι} (h : S.admits s request) :
      Step S ⟨s,threads⟩ ⟨s,threads ++ [(request,S.handle request)]⟩
  | advance {s : σ} {before after : List (ι × Prog σ α)} {request : ι} {effect : σ → σ}
      {next : σ → Prog σ α} :
      Step S ⟨s,before ++ (request,.step effect next) :: after⟩
        ⟨effect s,before ++ (request,next s) :: after⟩
  | interfere {s t : σ} {threads : List (ι × Prog σ α)} (h : S.interferes s t) :
      Step S ⟨s,threads⟩ ⟨t,threads⟩

def Run (S : System σ ι α) : Config σ ι α → Config σ ι α → Prop :=
  Relation.ReflTransGen (Step S)

structure Served (D : Discipline σ) (S : System σ ι α) (post : ι → α → σ → Prop) : Prop where
  stable : ∀ request a, D.Stable (post request a)
  handled : ∀ request s, S.admits s request → D.invariant s →
    D.Safe (post request) (S.handle request) s
  interference : ∀ s t, S.interferes s t → D.Rely s t

def Ready (D : Discipline σ) (post : ι → α → σ → Prop) (c : Config σ ι α) : Prop :=
  D.invariant c.shared ∧
    ∀ thread ∈ c.threads, D.Safe (post thread.1) thread.2 c.shared

variable {D : Discipline σ} {S : System σ ι α} {post : ι → α → σ → Prop}

variable {c d : Config σ ι α} {request : ι}

theorem step_threads (step : Step S c d) {thread : ι × Prog σ α} (mem : thread ∈ d.threads) :
    thread ∈ c.threads ∨
      (∃ request, S.admits c.shared request ∧ thread = (request,S.handle request)) ∨
      ∃ request effect next, (request,.step effect next) ∈ c.threads ∧ d.shared = effect c.shared ∧
        thread = (request,next c.shared) := by
  cases step with
  | @arrive s old request admitted =>
    rcases mem_append.mp mem with known | new
    · exact .inl known
    · exact .inr (.inl ⟨request,admitted,mem_singleton.mp new⟩)
  | @advance s before after request effect next =>
    rcases mem_append.mp mem with known | later
    · exact .inl (mem_append_left _ known)
    · rcases mem_cons.mp later with moved | known
      · exact .inr (.inr ⟨request,effect,next,by simp,rfl,moved⟩)
      · exact .inl (mem_append_right _ (mem_cons_of_mem _ known))
  | interfere h => exact .inl mem

theorem step_rely (served : Served D S post) (ready : Ready D post c)
    (step : Step S c d) : D.Rely c.shared d.shared := by
  cases step with
  | arrive h => exact D.rely_refl _
  | @advance s before after request effect next =>
    exact (ready.2 (request,.step effect next) (by simp) s (D.rely_refl s)).1
  | interfere h => exact served.interference _ _ h

theorem step_ready (served : Served D S post) (ready : Ready D post c) (step : Step S c d) :
    Ready D post d := by
  have rely := step_rely served ready step
  have kept : ∀ thread ∈ c.threads, D.Safe (post thread.1) thread.2 d.shared :=
    fun thread mem => D.safe_rely (served.stable thread.1) (ready.2 thread mem) rely
  refine ⟨(rely ready.1).1,fun thread mem => ?_⟩
  rcases step_threads step mem with old | ⟨request,admitted,
    rfl⟩ | ⟨request,effect,next,moved,after,rfl⟩
  · exact kept thread old
  · exact D.safe_rely (served.stable request) (served.handled request _ admitted ready.1) rely
  · rw [after]
    exact (ready.2 _ moved c.shared (D.rely_refl _)).2

theorem run_ready (served : Served D S post) (ready : Ready D post c) (run : Run S c d) :
    Ready D post d := by
  induction run with
  | refl => exact ready
  | tail _ step ih => exact step_ready served ih step

theorem run_rely (served : Served D S post) (ready : Ready D post c)
    (run : Run S c d) : D.Rely c.shared d.shared := by
  induction run with
  | refl => exact D.rely_refl _
  | tail before step ih =>
    exact D.rely_trans ih (step_rely served (run_ready served ready before) step)

theorem finished_post (ready : Ready D post c) {result : α}
    (mem : (request,Prog.done result) ∈ c.threads) : D.Holds (post request result) c.shared :=
  ready.2 _ mem

theorem getElem?_other_position {before after : List γ} {x : γ} {i : Nat}
    (elsewhere : i ≠ before.length) (y : γ) :
    (before ++ x :: after)[i]? = (before ++ y :: after)[i]? := by
  rcases Nat.lt_or_ge i before.length with low | high
  · simp [getElem?_append_left low]
  · obtain ⟨k,rfl⟩ : ∃ k, i = before.length + (k + 1) := ⟨i - before.length - 1,by omega⟩
    simp [getElem?_append_right]

/-- A request that arrives after `c` may be promised more than one that is
    already running: everything stable that `c` has established. -/
theorem later_threads_safe (served : Served D S post) {later : ι → α → σ → Prop}
    (stable : ∀ request a, D.Stable (later request a))
    (ready : Ready D post c)
    (handled : ∀ request s, D.invariant s → D.frame c.shared s → S.admits s request →
      D.Safe (later request) (S.handle request) s)
    (run : Run S c d) :
    ∀ i thread, c.threads.length ≤ i → d.threads[i]? = some thread →
      D.Safe (later thread.1) thread.2 d.shared := by
  induction run with
  | refl =>
    intro i thread late found
    rw [getElem?_eq_none late] at found
    cases found
  | @tail d e before step ih =>
    have rely := step_rely served (run_ready served ready before) step
    intro i thread late found
    cases step with
    | @arrive s threads request h =>
      by_cases old : i < threads.length
      · rw [getElem?_append_left old] at found
        exact ih i thread late found
      · have last : i = threads.length := by
          have bound := (List.getElem?_eq_some_iff.mp found).1
          simp only [length_append, length_singleton] at bound
          omega
        rw [last, getElem?_concat_length] at found
        cases found
        obtain ⟨inv,frame⟩ := run_rely served ready before ready.1
        exact handled request s inv frame h
    | @advance s pre rest request effect next =>
      by_cases here : i = pre.length
      · subst here
        rw [getElem?_append_right (Nat.le_refl _), Nat.sub_self] at found
        cases found
        exact (ih pre.length (request,.step effect next) late (by simp) s (D.rely_refl s)).2
      · rw [getElem?_other_position here (request,Prog.step effect next)] at found
        exact D.safe_rely (stable thread.1) (ih i thread late found) rely
    | interfere h => exact D.safe_rely (stable thread.1) (ih i thread late found) rely

def Prog.finish : Prog σ α → σ → α × σ
  | .done a, s => (a,s)
  | .step effect next, s => (next s).finish (effect s)

theorem finish_bind (p : Prog σ α) (f : α → Prog σ β) (s : σ) :
    (p >>= f).finish s = (f (p.finish s).1).finish (p.finish s).2 := by
  induction p generalizing s with
  | done a => rfl
  | step effect next ih => exact ih s (effect s)

theorem finish_run_bind (x : ExceptT ε (Prog σ) α) (f : α → ExceptT ε (Prog σ) β) (s : σ) :
    (x >>= f).run.finish s = match x.run.finish s with
      | (.ok a,t) => (f a).run.finish t
      | (.error e,t) => (.error e,t) := by
  rw [ExceptT.run_bind, finish_bind]
  rcases x.run.finish s with ⟨_ | _,t⟩ <;> rfl

@[simp] theorem finish_inspect_bind (view : σ → α) (f : α → ExceptT ε (Prog σ) β) (s : σ) :
    (inspect view >>= f).run.finish s = (f (view s)).run.finish s :=
  finish_run_bind _ _ _

theorem run_finish_from (before : List (ι × Prog σ α)) (p : Prog σ α) (s : σ) :
    Run S ⟨s,before ++ [(request,p)]⟩
      ⟨(p.finish s).2,before ++ [(request,.done (p.finish s).1)]⟩ := by
  induction p generalizing s with
  | done a => exact .refl
  | step effect next ih => exact .head Step.advance (ih s (effect s))

theorem run_finish {s : σ} {threads : List (ι × Prog σ α)} (admitted : S.admits s request) :
    Run S ⟨s,threads⟩ ⟨((S.handle request).finish s).2,
      threads ++ [(request,.done ((S.handle request).finish s).1)]⟩ :=
  .head (Step.arrive admitted) (run_finish_from threads (S.handle request) s)

end Interleaving
