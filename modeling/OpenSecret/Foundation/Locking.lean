import OpenSecret.Foundation.Confinement

/-!
Programs that hold one lock from their first step to their last, while other
threads go on changing the state in the few ways that need no lock. A program is
proved against those outside steps alone; the lock keeps the other programs away.
-/
namespace Locking
open Interleaving (Prog observe transact)
open Relation (ReflTransGen)

variable {σ ι α β : Type}

structure Locked (σ ι α : Type) where
  serve : ι → Prog σ α
  outside : σ → σ → Prop

structure Config (σ ι α : Type) where
  shared : σ
  holder : Option (Prog σ α)

inductive Step (L : Locked σ ι α) : Config σ ι α → Config σ ι α → Prop where
  | lock {s : σ} (request : ι) : Step L ⟨s,none⟩ ⟨s,some (L.serve request)⟩
  | advance {s : σ} {effect : σ → σ} {next : σ → Prog σ α} :
      Step L ⟨s,some (.step effect next)⟩ ⟨effect s,some (next s)⟩
  | unlock {s : σ} {result : α} : Step L ⟨s,some (.done result)⟩ ⟨s,none⟩
  | outside {s t : σ} {holder : Option (Prog σ α)} (h : L.outside s t) :
      Step L ⟨s,holder⟩ ⟨t,holder⟩

def Run (L : Locked σ ι α) : Config σ ι α → Config σ ι α → Prop := ReflTransGen (Step L)

structure Regime (outside : σ → σ → Prop) where
  invariant : σ → Prop
  keeps : ∀ {s t}, outside s t → invariant s → invariant t

namespace Regime

variable {outside : σ → σ → Prop} (R : Regime outside)

def Stable (fact : σ → Prop) : Prop := ∀ s t, R.invariant s → outside s t → fact s → fact t

/-- From `s` every step of the program keeps the invariant, whatever happens
    outside the lock in between, and its result satisfies `post`. -/
def Safe (post : α → σ → Prop) : Prog σ α → σ → Prop
  | .done a, s => R.invariant s ∧ post a s
  | .step effect next, s =>
    ∀ t, ReflTransGen outside s t → R.invariant (effect t) ∧ Safe post (next t) (effect t)

def Triple (pre : σ → Prop) (p : Prog σ α) (post : α → σ → Prop) : Prop :=
  ∀ s, R.invariant s → pre s → R.Safe post p s

variable {R} {s t : σ} {pre : σ → Prop} {post : α → σ → Prop}

theorem outside_keeps {fact : σ → Prop} (stable : R.Stable fact) (quiet : ReflTransGen outside s t)
    (inv : R.invariant s) (holds : fact s) : R.invariant t ∧ fact t := by
  induction quiet with
  | refl => exact ⟨inv,holds⟩
  | tail _ step ih => exact ⟨R.keeps step ih.1,stable _ _ ih.1 step ih.2⟩

variable {mid : α → σ → Prop} {f : α → Prog σ β} {p : Prog σ α} {other : α → σ → Prop}

theorem safe_bind {post : β → σ → Prop} (rest : ∀ a, R.Triple (mid a) (f a) post)
    (safe : R.Safe mid p s) :
    R.Safe post (p.bind f) s := by
  induction p generalizing s with
  | done a => exact rest a s safe.1 safe.2
  | step effect next ih => exact fun t quiet => ⟨(safe t quiet).1,ih t (safe t quiet).2⟩

theorem triple_bind {post : β → σ → Prop} (first : R.Triple pre p mid)
    (rest : ∀ a, R.Triple (mid a) (f a) post) :
    R.Triple pre (p >>= f) post :=
  fun s inv holds => safe_bind rest (first s inv holds)

theorem triple_pure {a : α} (imp : ∀ s, R.invariant s → pre s → post a s) :
    R.Triple pre (pure a) post :=
  fun s inv holds => ⟨inv,imp s inv holds⟩

theorem triple_transact {run : σ → α × σ} (stable : R.Stable pre)
    (keeps : ∀ s, R.invariant s → pre s → R.invariant (run s).2 ∧ post (run s).1 (run s).2) :
    R.Triple pre (transact run) post := by
  intro s inv holds t quiet
  obtain ⟨inv',here⟩ := outside_keeps stable quiet inv holds
  have after := keeps t inv' here
  exact ⟨after.1,after⟩

theorem triple_observe {view : σ → α} (stable : R.Stable pre)
    (sees : ∀ s, R.invariant s → pre s → post (view s) s) : R.Triple pre (observe view) post :=
  triple_transact stable fun s inv holds => ⟨inv,sees s inv holds⟩

theorem triple_strengthen {strong : σ → Prop} (imp : ∀ s, R.invariant s → strong s → pre s)
    (triple : R.Triple pre p post) : R.Triple strong p post :=
  fun s inv holds => triple s inv (imp s inv holds)

theorem safe_mono (weaker : ∀ a t, post a t → other a t) (safe : R.Safe post p s) :
    R.Safe other p s := by
  induction p generalizing s with
  | done a => exact ⟨safe.1,weaker a s safe.2⟩
  | step effect next ih => exact fun t quiet => ⟨(safe t quiet).1,ih t (safe t quiet).2⟩

def Keeps (R : Regime outside) (p : Prog σ α) : Prop := R.Triple (fun _ => True) p (fun _ _ => True)

theorem keeps_map {f : α → β} (keeps : R.Keeps p) : R.Keeps (f <$> p) :=
  triple_bind keeps fun _ => triple_pure fun _ _ _ => trivial

theorem keeps_of_confined (confined : p.Confined fun s t => R.invariant s → R.invariant t) :
    R.Keeps p := by
  intro s inv _
  induction p generalizing s with
  | done a => exact ⟨inv,trivial⟩
  | step effect next ih =>
    intro t quiet
    have always : R.Stable fun _ => True := fun _ _ _ _ _ => trivial
    have here : R.invariant t := (outside_keeps always quiet inv trivial).1
    have kept : R.invariant (effect t) := by
      rcases confined.1 t with same | keeps
      · rwa [same]
      · exact keeps here
    exact ⟨kept,ih t (confined.2 t) _ kept⟩

theorem safe_outside (safe : R.Safe (fun _ _ => True) p s) (step : outside s t) :
    R.Safe (fun _ _ => True) p t := by
  cases p with
  | done a => exact ⟨R.keeps step safe.1,trivial⟩
  | step effect next => exact fun u quiet => safe u (.head step quiet)

end Regime

/-- The program runs under the lock from `s` to its result in `t`; outside steps
    come before each of its own. -/
inductive Section (outside : σ → σ → Prop) : Prog σ α → σ → α → σ → Prop where
  | done {a : α} {s : σ} : Section outside (.done a) s a s
  | advance {effect : σ → σ} {next : σ → Prog σ α} {s t u : σ} {a : α}
      (quiet : ReflTransGen outside s t) (rest : Section outside (next t) (effect t) a u) :
      Section outside (.step effect next) s a u

section
variable {outside : σ → σ → Prop} {p : Prog σ α} {s t : σ} {a : α}

theorem section_mono {other : σ → σ → Prop} (weaker : ∀ {s t}, outside s t → other s t)
    (ran : Section outside p s a t) : Section other p s a t := by
  induction ran with
  | done => exact .done
  | advance quiet _ ih => exact .advance (ReflTransGen.mono (fun _ _ => weaker) _ _ quiet) ih

variable {R : Regime outside} {post : α → σ → Prop}

theorem section_post (safe : R.Safe post p s) (ran : Section outside p s a t) :
    R.invariant t ∧ post a t := by
  induction ran with
  | done => exact safe
  | advance quiet _ ih => exact ih (safe _ quiet).2

/-- A fact that every step of the program and every outside step keeps, as long
    as the invariant holds. -/
theorem section_keeps {fact : σ → Prop}
    (confined : p.Confined fun s t => R.invariant s → fact s → fact t)
    (stable : R.Stable fact) (inv : R.invariant s) (safe : R.Safe post p s)
    (ran : Section outside p s a t) (before : fact s) : fact t := by
  induction ran with
  | done => exact before
  | @advance effect next s u v a quiet rest ih =>
    obtain ⟨inv',here⟩ := Regime.outside_keeps stable quiet inv before
    refine ih (confined.2 u) (safe u quiet).1 (safe u quiet).2 ?_
    rcases confined.1 u with same | moved
    · rw [same]
      exact here
    · exact moved inv' here

theorem section_within {rel : σ → σ → Prop} (refl : ∀ s, rel s s)
    (trans : ∀ {s t u}, rel s t → rel t u → rel s u) (quiet : ∀ {s t}, outside s t → rel s t)
    (confined : p.Confined rel) (ran : Section outside p s a t) : rel s t := by
  induction ran with
  | done => exact refl _
  | @advance effect next s u v a dropped rest ih =>
    have before : rel s u := by
      clear ih rest
      induction dropped with
      | refl => exact refl _
      | tail _ step ih => exact trans ih (quiet step)
    refine trans before (trans ?_ (ih (confined.2 u)))
    rcases confined.1 u with same | moved
    · rw [same]
      exact refl u
    · exact moved

end

/-- Every step the program can take from `s`, whatever happens outside the lock in
    between, is one that `rel` allows. -/
def EachStep (outside rel : σ → σ → Prop) : Prog σ α → σ → Prop
  | .done _, _ => True
  | .step effect next, s =>
    ∀ t, ReflTransGen outside s t → rel t (effect t) ∧ EachStep outside rel (next t) (effect t)

section
variable {outside rel : σ → σ → Prop} {p : Prog σ α} {s : σ}

theorem eachStep_bind {R : Regime outside} {mid : α → σ → Prop} {f : α → Prog σ β}
    (safe : R.Safe mid p s) (first : EachStep outside rel p s)
    (rest : ∀ a t, R.invariant t → mid a t → EachStep outside rel (f a) t) :
    EachStep outside rel (p >>= f) s := by
  induction p generalizing s with
  | done a => exact rest a s safe.1 safe.2
  | step effect next ih =>
    intro t quiet
    exact ⟨(first t quiet).1,ih t (safe t quiet).2 (first t quiet).2⟩

theorem eachStep_of_confined (refl : ∀ s, rel s s) (confined : p.Confined rel) :
    EachStep outside rel p s := by
  induction p generalizing s with
  | done a => trivial
  | step effect next ih =>
    intro t _
    refine ⟨?_,ih t (confined.2 t)⟩
    rcases confined.1 t with same | moved
    · rw [same]
      exact refl t
    · exact moved

theorem eachStep_reaching {reach : σ → σ → Prop} (confined : p.Confined reach)
    (trans : ∀ {s t u}, reach s t → reach t u → reach s u)
    (quiet : ∀ {s t}, outside s t → reach s t) (each : EachStep outside rel p s) {start : σ}
    (since : reach start s) :
    EachStep outside (fun t u => rel t u ∧ reach start t) p s := by
  induction p generalizing s with
  | done a => trivial
  | step effect next ih =>
    intro t silent
    have here : reach start t := by
      clear each
      induction silent with
      | refl => exact since
      | tail _ step ih => exact trans ih (quiet step)
    refine ⟨⟨(each t silent).1,here⟩,ih t (confined.2 t) (each t silent).2 ?_⟩
    rcases confined.1 t with same | moved
    · rw [same]
      exact here
    · exact trans here moved

theorem eachStep_mono {weaker : σ → σ → Prop} (mono : ∀ s t, rel s t → weaker s t)
    (each : EachStep outside rel p s) : EachStep outside weaker p s := by
  induction p generalizing s with
  | done a => trivial
  | step effect next ih => exact fun t quiet => ⟨mono _ _ (each t quiet).1,ih t (each t quiet).2⟩

end

variable {L : Locked σ ι α}

def Ready (R : Regime L.outside) (c : Config σ ι α) : Prop :=
  R.invariant c.shared ∧ ∀ p, c.holder = some p → R.Safe (fun _ _ => True) p c.shared

variable {R : Regime L.outside} {c : Config σ ι α}

theorem step_ready (serves : ∀ request, R.Keeps (L.serve request))
    {d : Config σ ι α} (step : Step L c d) (ready : Ready R c) : Ready R d := by
  obtain ⟨inv,holder⟩ := ready
  cases step with
  | lock request =>
    refine ⟨inv,fun p held => ?_⟩
    cases held
    exact serves request _ inv trivial
  | advance =>
    obtain ⟨kept,rest⟩ := holder _ rfl _ .refl
    refine ⟨kept,fun p held => ?_⟩
    cases held
    exact rest
  | unlock => exact ⟨inv,nofun⟩
  | outside h => exact ⟨R.keeps h inv,fun p held => Regime.safe_outside (holder p held) h⟩

theorem run_invariant (serves : ∀ request, R.Keeps (L.serve request))
    {start : σ} (first : R.invariant start) (run : Run L ⟨start,none⟩ c) :
    R.invariant c.shared := by
  suffices ready : Ready R c from ready.1
  induction run with
  | refl => exact ⟨first,nofun⟩
  | tail _ step ih => exact step_ready serves step ih

def alone : Prog σ α → σ → α × σ
  | .done a, s => (a,s)
  | .step effect next, s => alone (next s) (effect s)

theorem section_alone {outside : σ → σ → Prop} (p : Prog σ α) (s : σ) :
    Section outside p s (alone p s).1 (alone p s).2 := by
  induction p generalizing s with
  | done a => exact .done
  | step effect next ih => exact .advance .refl (ih s (effect s))

theorem run_alone (p : Prog σ α) (s : σ) : Run L ⟨s,some p⟩ ⟨(alone p s).2,none⟩ := by
  induction p generalizing s with
  | done a => exact .single .unlock
  | step effect next ih => exact .head .advance (ih s (effect s))

theorem run_request (request : ι) (s : σ) : Run L ⟨s,none⟩ ⟨(alone (L.serve request) s).2,none⟩ :=
  .head (.lock request) (run_alone _ s)

def inTurn (L : Locked σ ι α) (requests : List ι) (s : σ) : σ :=
  requests.foldl (fun s request => (alone (L.serve request) s).2) s

theorem run_inTurn (requests : List ι) (s : σ) : Run L ⟨s,none⟩ ⟨inTurn L requests s,none⟩ := by
  induction requests generalizing s with
  | nil => exact .refl
  | cons request rest ih => exact (run_request request s).trans (ih _)

end Locking
