/-!
Tasks that ask their environment for one effect at a time. A contract follows a
task with a ghost value: it says which effects may be asked for, what may be
replied, and how the ghost value moves on. A task is proved against a contract
alone; whatever serves the effects is proved to keep the replies.
-/
namespace Effects

inductive Task (E : Type) (R : E → Type) (α : Type) where
  | done (result : α)
  | ask (effect : E) (next : R effect → Task E R α)

variable {E : Type} {R : E → Type} {α β γ ε : Type}

def Task.bind : Task E R α → (α → Task E R β) → Task E R β
  | .done a, f => f a
  | .ask e next, f => .ask e (fun r => (next r).bind f)

instance : Monad (Task E R) where
  pure := .done
  bind := .bind

def perform (e : E) : ExceptT ε (Task E R) (R e) := ExceptT.lift (.ask e .done)

def attempt {ε' : Type} (x : ExceptT ε (Task E R) α) : ExceptT ε' (Task E R) (Except ε α) :=
  ExceptT.mk (x.run >>= fun result => pure (.ok result))

abbrev Exchanges (E : Type) (R : E → Type) := List ((e : E) × R e)

inductive Reaches : Task E R α → Exchanges E R → Task E R α → Prop where
  | here (t : Task E R α) : Reaches t [] t
  | asked {e : E} {next : R e → Task E R α} {r : R e} {rest : Exchanges E R} {t : Task E R α}
      (later : Reaches (next r) rest t) : Reaches (.ask e next) (⟨e,r⟩ :: rest) t

/-- One run of a task: an environment that answers by its own state, or stops answering. -/
def Task.serve {σ : Type} (answer : σ → (e : E) → Option (R e × σ)) :
    Task E R α → σ → Exchanges E R × Task E R α
  | .done a, _ => ([],.done a)
  | .ask e next, s =>
    match answer s e with
    | none => ([],.ask e next)
    | some (r,s') =>
      let served := (next r).serve answer s'
      (⟨e,r⟩ :: served.1,served.2)

theorem reaches_serve {σ : Type} (answer : σ → (e : E) → Option (R e × σ))
    (t : Task E R α) (s : σ) :
    Reaches t (t.serve answer s).1 (t.serve answer s).2 := by
  induction t generalizing s with
  | done a => exact .here _
  | ask e next ih =>
    unfold Task.serve
    split
    · exact .here _
    · exact .asked (ih _ _)

def requested (exchanges : Exchanges E R) : Task E R α → List E
  | .done _ => exchanges.map Sigma.fst
  | .ask e _ => exchanges.map Sigma.fst ++ [e]

def Settles (post : α → γ → Prop) (fails : ε → γ → Prop) : Except ε α → γ → Prop
  | .ok a, g => post a g
  | .error e, g => fails e g

structure Contract (E : Type) (R : E → Type) (γ : Type) where
  permits : γ → E → Prop
  replies : γ → (e : E) → R e → Prop
  record : γ → (e : E) → R e → γ

namespace Contract
variable (C : Contract E R γ)

/-- Every effect the task asks for is permitted, and its result satisfies `post`. -/
def Meets (post : α → γ → Prop) : Task E R α → γ → Prop
  | .done a, g => post a g
  | .ask e next, g => C.permits g e ∧ ∀ r, C.replies g e r → Meets post (next r) (C.record g e r)

variable {t : Task E R α} {p : E → Prop} {t' : Task E R α} {exchanges : Exchanges E R} {g : γ}

theorem meets_mono {post other : α → γ → Prop} (imp : ∀ a g, post a g → other a g)
    (meets : C.Meets post t g) : C.Meets other t g := by
  induction t generalizing g with
  | done a => exact imp a g meets
  | ask e next ih => exact ⟨meets.1,fun r replied => ih r (meets.2 r replied)⟩

theorem meets_bind {f : α → Task E R β} {mid : α → γ → Prop} {post : β → γ → Prop}
    (rest : ∀ a g, mid a g → C.Meets post (f a) g) (meets : C.Meets mid t g) :
    C.Meets post (t >>= f) g := by
  induction t generalizing g with
  | done a => exact rest a g meets
  | ask e next ih => exact ⟨meets.1,fun r replied => ih r (meets.2 r replied)⟩

def restrict (p : E → Prop) : Contract E R γ := { C with permits := fun g e => C.permits g e ∧ p e }

theorem meets_of_restrict {post : α → γ → Prop} (meets : (C.restrict p).Meets post t g) :
    C.Meets post t g := by
  induction t generalizing g with
  | done a => exact meets
  | ask e next ih => exact ⟨meets.1.1,fun r replied => ih r (meets.2 r replied)⟩

def only (p : E → Prop) : Contract E R Unit := ⟨fun _ e => p e,fun _ _ _ => True,fun _ _ _ => ()⟩

theorem meets_of_only {post : α → Prop} (permitted : ∀ e, p e → C.permits g e)
    (unrecorded : ∀ e r, p e → C.record g e r = g)
    (meets : (only p).Meets (fun a _ => post a) t ()) :
    C.Meets (fun a g' => post a ∧ g' = g) t g := by
  induction t with
  | done a => exact ⟨meets,rfl⟩
  | ask e next ih =>
    refine ⟨permitted e meets.1,fun r _ => ?_⟩
    rw [unrecorded e r meets.1]
    exact ih r (meets.2 r trivial)

/-- The same for a task that can fail; `fails` speaks of its errors. -/
def Ensures (x : ExceptT ε (Task E R) α) (post : α → γ → Prop) (fails : ε → γ → Prop) (g : γ) :
    Prop :=
  C.Meets (Settles post fails) x.run g

variable {x : ExceptT ε (Task E R) α} {f : α → ExceptT ε (Task E R) β}
  {mid other : α → γ → Prop} {post : β → γ → Prop} {fails : ε → γ → Prop}

theorem ensures_bind (first : C.Ensures x mid fails g)
    (rest : ∀ a g', mid a g' → C.Ensures (f a) post fails g') :
    C.Ensures (x >>= f) post fails g := by
  refine C.meets_bind ?_ first
  intro result g' reached
  cases result with
  | ok a => exact rest a g' reached
  | error e => exact reached

theorem ensures_pure {a : α} (holds : mid a g) :
    C.Ensures (pure a : ExceptT ε (Task E R) α) mid fails g :=
  holds

theorem ensures_throw {e : ε} (holds : fails e g) :
    C.Ensures (throw e : ExceptT ε (Task E R) α) mid fails g :=
  holds

theorem ensures_perform {e : E} {after : R e → γ → Prop} (permitted : C.permits g e)
    (next : ∀ r, C.replies g e r → after r (C.record g e r)) :
    C.Ensures (perform e : ExceptT ε (Task E R) (R e)) after fails g :=
  ⟨permitted,next⟩

theorem ensures_ask {e : E} {k : R e → ExceptT ε (Task E R) α} (permitted : C.permits g e)
    (next : ∀ r, C.replies g e r → C.Ensures (k r) mid fails (C.record g e r)) :
    C.Ensures (perform e >>= k) mid fails g := by
  have asked : C.Ensures (perform e) (fun r g' => C.Ensures (k r) mid fails g') fails g :=
    C.ensures_perform permitted next
  exact C.ensures_bind asked fun _ _ holds => holds

theorem ensures_attempt {ε' : Type} {failing : ε' → γ → Prop}
    {k : Except ε α → ExceptT ε' (Task E R) β} (first : C.Ensures x mid fails g)
    (next : ∀ result g', Settles mid fails result g' → C.Ensures (k result) post failing g') :
    C.Ensures (attempt x >>= k) post failing g := by
  have attempted : C.Ensures (attempt x) (Settles mid fails) failing g :=
    C.meets_bind (fun _ _ holds => holds) first
  exact C.ensures_bind attempted next

def Honoured : γ → Exchanges E R → Prop
  | _, [] => True
  | g, ⟨e,r⟩ :: rest => C.replies g e r ∧ Honoured (C.record g e r) rest

def Permitted : γ → Exchanges E R → Prop
  | _, [] => True
  | g, ⟨e,r⟩ :: rest => C.permits g e ∧ Permitted (C.record g e r) rest

def after (g : γ) (exchanges : Exchanges E R) : γ :=
  exchanges.foldl (fun g exchange => C.record g exchange.1 exchange.2) g

theorem honoured_of_any (answered : ∀ g e r, C.replies g e r) (g : γ) (exchanges : Exchanges E R) :
    C.Honoured g exchanges := by
  induction exchanges generalizing g with
  | nil => trivial
  | cons exchange rest ih => exact ⟨answered g _ _,ih _⟩

theorem reaches_permitted {post : α → γ → Prop} (run : Reaches t exchanges t')
    (meets : C.Meets post t g) (honoured : C.Honoured g exchanges) :
    C.Permitted g exchanges ∧ C.Meets post t' (C.after g exchanges) := by
  induction run generalizing g with
  | here t => exact ⟨trivial,meets⟩
  | asked later ih =>
    obtain ⟨permitted,goesOn⟩ := ih (meets.2 _ honoured.1) honoured.2
    exact ⟨⟨meets.1,permitted⟩,goesOn⟩

/-- A property of the requests so far that every permitted request keeps, for a
    ghost value computed from them, holds of the requests of every run. -/
theorem requests_invariant (C : Contract E R γ) {tally : List E → γ} {holds : List E → Prop}
    (records : ∀ log e r, C.record (tally log) e r = tally (log ++ [e]))
    (keeps : ∀ log e, holds log → C.permits (tally log) e → holds (log ++ [e]))
    (answered : ∀ g e r, C.replies g e r) {post : α → γ → Prop} (run : Reaches t exchanges t')
    {log : List E} (start : holds log) (meets : C.Meets post t (tally log)) :
    holds (log ++ requested exchanges t') := by
  induction run generalizing log with
  | here t =>
    cases t with
    | done a => simpa [requested] using start
    | ask e next => exact keeps log e start meets.1
  | @asked e next r rest t later ih =>
    have goesOn := meets.2 r (answered _ e r)
    rw [records] at goesOn
    have held := ih (keeps log e start meets.1) goesOn
    cases t <;> simpa [requested] using held

end Contract

end Effects
