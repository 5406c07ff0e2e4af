import OpenSecret.Credentials.Journal
import OpenSecret.Foundation.Confinement
import OpenSecret.Platform.Store

/-!
Password reset of platform users. The lookup of a request, the change of the
password and the mark that closes the request are three database calls, and
each of them can fail. Next to the tables stands a history, oldest event first,
of what was done under which request; no handler reads it.
-/
namespace OpenSecret
open Framing Interleaving List

inductive ResetEvent where
  | changed (id : Nat)
  | marked (id : Nat)
  deriving DecidableEq

structure ResetWorld where
  db : ResetTables
  history : List ResetEvent

/-- A call that fails was refused, or done and its answer lost. -/
inductive Outage where
  | refused
  | lost
  deriving DecidableEq

abbrev ResetAction (α : Type) := ExceptT (Fault Error) (Prog ResetWorld) α

def databaseCall {α : Type} (outage : Option Outage) (e : Error)
    (run : ResetWorld → α × ResetWorld) :
    ResetAction α :=
  ExceptT.mk (transact fun w =>
    match outage with
    | none => (.ok (run w).1,(run w).2)
    | some .refused => (.error (.error e),w)
    | some .lost => (.error (.error e),(run w).2))

def databaseFailure : Error := .databaseError .queryError

structure ResetDraws where
  clock : Nat → Int
  nonce : Nonce
  salt : Bytes
  codeBytes : Octets 8
  outage : Nat → Option Outage

def findUser (lower : Text → Text) (email : Text) (w : ResetWorld) :
    Option PlatformUser × ResetWorld :=
  (w.db.getByEmail lower email,w)

def findRequest (user : Uuid) (code : Bytes) (now : Int) (w : ResetWorld) :
    Option PlatformPasswordResetRequest × ResetWorld :=
  (w.db.getByUserIdAndCode user code now,w)

/-- Without a row of that user nothing changes. -/
def updatePlatformUserPassword (user : PlatformUser) (encrypted : Bytes)
    (request : PlatformPasswordResetRequest) (w : ResetWorld) : Unit × ResetWorld :=
  ((),⟨w.db.updatePassword user encrypted,
    if w.db.users.any (·.id = user.id) then w.history ++ [.changed request.id] else w.history⟩)

def markPlatformPasswordResetAsComplete (request : PlatformPasswordResetRequest)
    (w : ResetWorld) : Unit × ResetWorld :=
  ((),⟨w.db.markAsReset request,w.history ++ [.marked request.id]⟩)

def insertResetRequest (user : Uuid) (hashedSecret : Text) (code : Bytes) (expirationTime : Int)
    (w : ResetWorld) : Unit × ResetWorld :=
  ((),⟨w.db.insertRequest user hashedSecret code expirationTime,w.history⟩)

section
variable (S : AppState) (encryptKeyDeterministic : AeadKey → Bytes → Bytes)

def confirmPlatformPasswordReset (email alphanumericCode plaintextSecret newPassword : Text)
    (draws : ResetDraws) : ResetAction Unit := do
  let some user ← databaseCall (draws.outage 0) .userNotFound (findUser S.citextLower email)
    | throw (.error .userNotFound)
  let key ← settle (secretKey S)
  let code := encryptKeyDeterministic key (utf8 alphanumericCode)
  let some request ← databaseCall (draws.outage 1) databaseFailure
      (findRequest user.uuid code (draws.clock 0))
    | throw (.error .invalidPasswordResetRequest)
  if draws.clock 1 > request.expirationTime then
    throw (.error .passwordResetExpired)
  else if S.generateResetHash plaintextSecret = request.hashedSecret then do
    let encrypted ← settle ((encryptWithKey S.primitives key draws.nonce
      (utf8 (S.generateHash newPassword draws.salt))).mapErr Error.encryption)
    databaseCall (draws.outage 2) databaseFailure
      (updatePlatformUserPassword user encrypted request)
    databaseCall (draws.outage 3) databaseFailure (markPlatformPasswordResetAsComplete request)
  else
    throw (.error .invalidPasswordResetSecret)

/-- A failed lookup of the user is logged and looks like success. -/
def createPlatformPasswordResetRequest (email hashedSecret : Text) (draws : ResetDraws) :
    ResetAction Unit := do
  let found ← tryCatch
    (databaseCall (draws.outage 0) databaseFailure (findUser S.citextLower email))
    (fun _ => pure none)
  match found with
  | none => pure ()
  | some user =>
    if user.passwordEnc.isSome then do
      let key ← settle (secretKey S)
      let code := encryptKeyDeterministic key (utf8 (generateAlphanumericCode draws.codeBytes))
      databaseCall (draws.outage 1) databaseFailure
        (insertResetRequest user.uuid hashedSecret code (draws.clock 0 + 24 * 3600))

inductive ResetRequest where
  | confirm (email alphanumericCode plaintextSecret newPassword : Text) (draws : ResetDraws)
  | create (email hashedSecret : Text) (draws : ResetDraws)

/-- Everything else may rewrite the users and delete requests with their user. -/
def platformResets : System ResetWorld ResetRequest (Outcome Error Unit) where
  handle
    | .confirm email code secret new draws =>
      (confirmPlatformPasswordReset S encryptKeyDeterministic email code secret new draws).run
    | .create email secret draws =>
      (createPlatformPasswordResetRequest S encryptKeyDeterministic email secret draws).run
  admits _ _ := True
  interferes w w' := w'.history = w.history ∧ w'.db.resetSeq = w.db.resetSeq ∧
    w'.db.resetRequests.Sublist w.db.resetRequests

end

abbrev ResetCall := Prog ResetWorld (Outcome Error Unit)

abbrev ResetConfig := Config ResetWorld ResetRequest (Outcome Error Unit)

section
variable (id : Nat)

def ResetEvent.changes : ResetEvent → Bool
  | .changed other => other = id
  | .marked _ => false

def ResetEvent.uses : ResetEvent → Bool
  | .changed other => other = id
  | .marked other => other = id

def ResetWorld.changes (w : ResetWorld) : Nat := w.history.countP (ResetEvent.changes id)

/-- The changes of the password under the request, and its marks. -/
def ResetWorld.uses (w : ResetWorld) : List ResetEvent := w.history.filter (ResetEvent.uses id)

/-- The next step of the call can change the password under the request or mark it:
    the call has looked the request up and has not marked it yet. -/
def Pending : ResetCall → Prop
  | .done _ => False
  | .step effect _ => ∃ w, (effect w).uses id ≠ w.uses id

def ResetRequest.Completes : ResetRequest → Prop
  | .confirm _ _ _ _ draws => draws.outage 2 ≠ some .lost ∧ draws.outage 3 ≠ some .refused
  | .create _ _ _ => True

/-- Of the calls under way at most one has found the request and not marked it,
    and that one does not fail in between. -/
structure Serial (c : ResetConfig) : Prop where
  alone : c.threads.Pairwise fun a b => ¬(Pending id a.2 ∧ Pending id b.2)
  completes : ∀ thread ∈ c.threads, Pending id thread.2 → thread.1.Completes

def SerialRun (S : AppState) (siv : AeadKey → Bytes → Bytes) : ResetConfig → ResetConfig → Prop :=
  Relation.ReflTransGen fun c d => Step (platformResets S siv) c d ∧ Serial id d

def Below (w : ResetWorld) : Prop := ∀ r ∈ w.db.resetRequests, r.id < w.db.resetSeq

def Open (w : ResetWorld) : Prop := ∃ r ∈ w.db.resetRequests, r.id = id ∧ r.isReset = false

/-- No lookup finds the request any more. -/
def Closed (w : ResetWorld) : Prop := id < w.db.resetSeq ∧ ¬Open id w

structure Kept (w w' : ResetWorld) : Prop where
  below : Below w → Below w'
  seq : w.db.resetSeq ≤ w'.db.resetSeq
  closed : Closed id w → Closed id w'

structure Still (w w' : ResetWorld) : Prop extends Kept id w w' where
  uses : w'.uses id = w.uses id

/-- The call does nothing under the request before a lookup that finds it open;
    `armed` is what it is after such a lookup. -/
def Idle {α : Type} (armed : Prog ResetWorld α → Prop) : Prog ResetWorld α → Prop
  | .done _ => True
  | .step effect next => ∀ w, Still id w (effect w) ∧
      (Idle armed (next w) ∨ Open id w ∧ armed (next w))

/-- The password may have been changed; the next step is the mark. -/
def Marking : ResetCall → Prop
  | .done _ => False
  | .step effect next => Pending id (.step effect next) ∧ ∀ w, Kept id w (effect w) ∧
      (effect w).changes id = w.changes id ∧
      (id < w.db.resetSeq → Closed id (effect w)) ∧ ∃ a, next w = .done a

/-- The next step is the update of the password. -/
def Armed (request : ResetRequest) : ResetCall → Prop
  | .done _ => False
  | .step effect next => Pending id (.step effect next) ∧ (request.Completes → ∀ w,
      Kept id w (effect w) ∧ (effect w).changes id ≤ w.changes id + 1 ∧ Marking id (next w))

def Known (w : ResetWorld) (thread : ResetRequest × ResetCall) : Prop :=
  Idle id (Armed id thread.1) thread.2 ∨
    id < w.db.resetSeq ∧ (Armed id thread.1 thread.2 ∨ Marking id thread.2)

/-- After the change either the request is closed, or the call that changed the
    password is the only one that is past its lookup, and marks the request next. -/
structure Once (c : ResetConfig) : Prop where
  below : Below c.shared
  serial : Serial id c
  known : ∀ thread ∈ c.threads, Known id c.shared thread
  once : c.shared.changes id = 0 ∨ c.shared.changes id = 1 ∧
    (Closed id c.shared ∧ (∀ thread ∈ c.threads, Idle id (Armed id thread.1) thread.2) ∨
      ∃ thread ∈ c.threads, Marking id thread.2)

end

section
variable {id : Nat} {w w' : ResetWorld} {request : PlatformPasswordResetRequest}

theorem still_refl (w : ResetWorld) : Still id w w :=
  ⟨⟨fun below => below,le_rfl,fun shut => shut⟩,rfl⟩

theorem changes_eq_uses (w : ResetWorld) :
    w.changes id = (w.uses id).countP (ResetEvent.changes id) := by
  rw [ResetWorld.changes, ResetWorld.uses, countP_filter]
  congr 1
  funext event
  cases event <;> simp [ResetEvent.changes, ResetEvent.uses]

theorem Still.changes (still : Still id w w') : w'.changes id = w.changes id := by
  rw [changes_eq_uses, changes_eq_uses, still.uses]

theorem kept_of_rows (seq : w'.db.resetSeq = w.db.resetSeq)
    (rows : ∀ r ∈ w'.db.resetRequests, ∃ old ∈ w.db.resetRequests,
      r.id = old.id ∧ (r.isReset = false → old.isReset = false)) : Kept id w w' := by
  refine ⟨fun below r mem => ?_,le_of_eq seq.symm,fun shut => ⟨seq ▸ shut.1,?_⟩⟩
  · obtain ⟨old,known,same,-⟩ := rows r mem
    rw [same, seq]
    exact below old known
  · rintro ⟨r,mem,same,unmarked⟩
    obtain ⟨old,known,sameId,was⟩ := rows r mem
    exact shut.2 ⟨old,known,sameId.symm.trans same,was unmarked⟩

theorem update_kept (user : PlatformUser) (encrypted : Bytes) :
    Kept id w (updatePlatformUserPassword user encrypted request w).2 :=
  kept_of_rows rfl fun r mem => ⟨r,mem,rfl,fun unmarked => unmarked⟩

theorem mark_rows {r : PlatformPasswordResetRequest}
    (mem : r ∈ (markPlatformPasswordResetAsComplete request w).2.db.resetRequests) :
    ∃ old ∈ w.db.resetRequests, r.id = old.id ∧
      (r.isReset = false → old.isReset = false ∧ old.id ≠ request.id) := by
  obtain ⟨old,known,rfl⟩ := mem_map.mp mem
  refine ⟨old,known,?_⟩
  split
  · exact ⟨rfl,nofun⟩
  · exact ⟨rfl,fun unmarked => ⟨unmarked,by assumption⟩⟩

theorem mark_kept : Kept id w (markPlatformPasswordResetAsComplete request w).2 := by
  refine kept_of_rows rfl fun r mem => ?_
  obtain ⟨old,known,same,was⟩ := mark_rows mem
  exact ⟨old,known,same,fun unmarked => (was unmarked).1⟩

theorem mark_closes (same : request.id = id) (known : id < w.db.resetSeq) :
    Closed id (markPlatformPasswordResetAsComplete request w).2 := by
  refine ⟨known,?_⟩
  rintro ⟨r,mem,sameId,unmarked⟩
  obtain ⟨old,-,oldId,was⟩ := mark_rows mem
  exact (was unmarked).2 (oldId.symm.trans (sameId.trans same.symm))

theorem insert_kept (user : Uuid) (hashedSecret : Text) (code : Bytes) (expirationTime : Int) :
    Kept id w (insertResetRequest user hashedSecret code expirationTime w).2 := by
  refine ⟨fun below r mem => ?_,Nat.le_succ _,fun shut => ⟨Nat.lt_succ_of_lt shut.1,?_⟩⟩
  · rcases mem_snoc.mp mem with old | rfl
    · exact Nat.lt_succ_of_lt (below r old)
    · exact Nat.lt_succ_self _
  · rintro ⟨r,mem,same,unmarked⟩
    rcases mem_snoc.mp mem with old | rfl
    · exact shut.2 ⟨r,old,same,unmarked⟩
    · exact absurd same.symm (ne_of_lt shut.1)

theorem update_still (other : request.id ≠ id) (user : PlatformUser) (encrypted : Bytes) :
    Still id w (updatePlatformUserPassword user encrypted request w).2 := by
  refine ⟨update_kept user encrypted,?_⟩
  unfold updatePlatformUserPassword ResetWorld.uses
  split
  · simp [ResetEvent.uses, other]
  · rfl

theorem mark_still (other : request.id ≠ id) :
    Still id w (markPlatformPasswordResetAsComplete request w).2 := by
  refine ⟨mark_kept,?_⟩
  simp [markPlatformPasswordResetAsComplete, ResetWorld.uses, ResetEvent.uses, other]

end

section
variable {α β : Type} {id : Nat} {armed : Prog ResetWorld β → Prop}
  {outage : Option Outage} {e : Error}

theorem idle_bind {x : ResetAction α} {f : α → ResetAction β}
    {armed : Prog ResetWorld (Outcome Error β) → Prop} (first : Idle id (fun _ => False) x.run)
    (rest : ∀ a, Idle id armed (f a).run) : Idle id armed (x >>= f).run := by
  have go : ∀ p : Prog ResetWorld (Outcome Error α), Idle id (fun _ => False) p →
      Idle id armed (p.bind (ExceptT.bindCont fun a => f a)) := by
    intro p idle
    induction p with
    | done r =>
      cases r with
      | ok a => exact rest a
      | error e => trivial
    | step effect next ih =>
      intro w
      obtain ⟨still,quiet | ⟨-,never⟩⟩ := idle w
      · exact ⟨still,.inl (ih w quiet)⟩
      · cases never
  exact go x.run first

theorem idle_call {run : ResetWorld → α × ResetWorld}
    {armed : Prog ResetWorld (Outcome Error α) → Prop} (still : ∀ w, Still id w (run w).2) :
    Idle id armed (databaseCall outage e run).run := by
  intro w
  rcases outage with _ | _ | _
  · exact ⟨still w,.inl trivial⟩
  · exact ⟨still_refl w,.inl trivial⟩
  · exact ⟨still w,.inl trivial⟩

theorem mark_marking {request : PlatformPasswordResetRequest} (same : request.id = id)
    (reached : outage ≠ some .refused) :
    Marking id (databaseCall outage e (markPlatformPasswordResetAsComplete request)).run := by
  have pending : ∃ w, (markPlatformPasswordResetAsComplete request w).2.uses id ≠ w.uses id := by
    refine ⟨⟨⟨[],[],0⟩,[]⟩,?_⟩
    simp [markPlatformPasswordResetAsComplete, ResetWorld.uses, ResetEvent.uses, same]
  have unchanged (w : ResetWorld) :
      (markPlatformPasswordResetAsComplete request w).2.changes id = w.changes id := by
    simp [markPlatformPasswordResetAsComplete, ResetWorld.changes, ResetEvent.changes]
  rcases outage with _ | _ | _
  · exact ⟨pending,fun w => ⟨mark_kept,unchanged w,mark_closes same,_,rfl⟩⟩
  · exact absurd rfl reached
  · exact ⟨pending,fun w => ⟨mark_kept,unchanged w,mark_closes same,_,rfl⟩⟩

theorem found_idle_or_armed (email code secret new : Text) (draws : ResetDraws)
    (user : PlatformUser) (encrypted : Bytes) (request : PlatformPasswordResetRequest) :
    let rest : ResetAction Unit := do
      databaseCall (draws.outage 2) databaseFailure
        (updatePlatformUserPassword user encrypted request)
      databaseCall (draws.outage 3) databaseFailure (markPlatformPasswordResetAsComplete request)
    (∀ armed, Idle id armed rest.run) ∨
      request.id = id ∧ Armed id (.confirm email code secret new draws) rest.run := by
  intro rest
  by_cases other : request.id ≠ id
  · exact .inl fun armed =>
      idle_bind (idle_call fun w => update_still other user encrypted) fun _ =>
      idle_call fun w => mark_still other
  have same : request.id = id := not_not.mp other
  have pending :
      ∃ w, (updatePlatformUserPassword user encrypted request w).2.uses id ≠ w.uses id := by
    refine ⟨⟨⟨[user],[],0⟩,[]⟩,?_⟩
    simp [updatePlatformUserPassword, ResetWorld.uses, ResetEvent.uses, same]
  have changes (w : ResetWorld) :
      (updatePlatformUserPassword user encrypted request w).2.changes id ≤ w.changes id + 1 := by
    unfold updatePlatformUserPassword
    split
    · simp [ResetWorld.changes, ResetEvent.changes, same]
    · exact Nat.le_succ _
  unfold rest
  cases fails : draws.outage 2 with
  | none =>
    exact .inr ⟨same,pending,fun completes w => ⟨update_kept user encrypted,changes w,
      mark_marking same completes.2⟩⟩
  | some kind =>
    cases kind with
    | refused => exact .inl fun armed w => ⟨still_refl w,.inl trivial⟩
    | lost => exact .inr ⟨same,pending,fun completes => absurd fails completes.1⟩

variable {S : AppState} {siv : AeadKey → Bytes → Bytes}

/-- A lookup finds the request only while it is open. -/
theorem idle_lookup {run : ResetWorld → α × ResetWorld} {f : α → ResetAction β}
    {armed : Prog ResetWorld (Outcome Error β) → Prop} (reads : ∀ w, (run w).2 = w)
    (rest : ∀ w, Idle id armed (f (run w).1).run ∨ Open id w ∧ armed (f (run w).1).run) :
    Idle id armed (databaseCall outage e run >>= f).run := by
  intro w
  have still : Still id w (run w).2 := by
    rw [reads]
    exact still_refl w
  rcases outage with _ | _ | _
  · exact ⟨still,rest w⟩
  · exact ⟨still_refl w,.inl trivial⟩
  · exact ⟨still,.inl trivial⟩

theorem confirm_idle (email code secret new : Text) (draws : ResetDraws) :
    Idle id (Armed id (.confirm email code secret new draws))
      (confirmPlatformPasswordReset S siv email code secret new draws).run := by
  refine idle_bind (idle_call still_refl) fun user => ?_
  cases user with
  | none => trivial
  | some user =>
    refine idle_bind trivial fun key => idle_lookup (fun _ => rfl) fun w => ?_
    unfold findRequest
    cases found : w.db.getByUserIdAndCode user.uuid (siv key (utf8 code)) (draws.clock 0) with
    | none => exact .inl trivial
    | some request =>
      dsimp only
      split
      · exact .inl trivial
      split
      · cases (encryptWithKey S.primitives key draws.nonce
            (utf8 (S.generateHash new draws.salt))).mapErr Error.encryption with
        | error e => exact .inl trivial
        | ok encrypted =>
          refine (found_idle_or_armed email code secret new draws user encrypted request).imp
            (fun idle => idle _) fun armed =>
              ⟨⟨request,mem_of_find?_eq_some found,armed.1,?_⟩,armed.2⟩
          have fits := find?_some found
          simp only [Bool.and_eq_true, Bool.not_eq_true'] at fits
          exact fits.1.2
      · exact .inl trivial

theorem create_idle (email secret : Text) (draws : ResetDraws)
    (armed : ResetCall → Prop) :
    Idle id armed (createPlatformPasswordResetRequest S siv email secret draws).run := by
  have found : Idle id (fun _ => False) (tryCatch (databaseCall (draws.outage 0) databaseFailure
      (findUser S.citextLower email)) (fun _ => pure none)).run := by
    intro w
    rcases draws.outage 0 with _ | _ | _ <;> exact ⟨still_refl w,.inl trivial⟩
  refine idle_bind found fun user => ?_
  cases user with
  | none => trivial
  | some user =>
    dsimp only
    split
    · refine idle_bind trivial fun key => idle_call fun w => ?_
      exact ⟨insert_kept _ _ _ _,rfl⟩
    · trivial

theorem handle_idle (request : ResetRequest) :
    Idle id (Armed id request) ((platformResets S siv).handle request) := by
  cases request with
  | confirm email code secret new draws => exact confirm_idle email code secret new draws
  | create email secret draws => exact create_idle email secret draws _

end

section
variable {id : Nat} {p : ResetCall}

theorem not_pending_of_idle {armed : ResetCall → Prop}
    (idle : Idle id armed p) : ¬Pending id p := by
  cases p with
  | done a => exact fun pending => pending
  | step effect next =>
    rintro ⟨w,uses⟩
    exact uses (idle w).1.uses

theorem Marking.pending (marking : Marking id p) : Pending id p := by
  cases p with
  | done a => exact marking
  | step effect next => exact marking.1

theorem Armed.pending {request : ResetRequest} (armed : Armed id request p) : Pending id p := by
  cases p with
  | done a => exact armed
  | step effect next => exact armed.1

variable {before after : List (ResetRequest × ResetCall)}
  {thread other : ResetRequest × ResetCall} {w : ResetWorld}

theorem Serial.others (serial : Serial id ⟨w,before ++ thread :: after⟩)
    (pending : Pending id thread.2) (elsewhere : other ∈ before ∨ other ∈ after) :
    ¬Pending id other.2 := by
  obtain ⟨-,later,earlier⟩ := pairwise_append.mp serial.alone
  rcases elsewhere with mem | mem
  · exact fun too => earlier other mem thread (by simp) ⟨too,pending⟩
  · exact fun too => (pairwise_cons.mp later).1 other mem ⟨pending,too⟩

theorem Known.kept {w' : ResetWorld} (known : Known id w thread) (kept : Kept id w w') :
    Known id w' thread :=
  known.imp_right fun past => ⟨lt_of_lt_of_le past.1 kept.seq,past.2⟩

theorem Known.idle (known : Known id w thread) (not : ¬Pending id thread.2) :
    Idle id (Armed id thread.1) thread.2 :=
  known.resolve_right fun past => not (past.2.elim Armed.pending Marking.pending)

variable {S : AppState} {siv : AeadKey → Bytes → Bytes}
  {c d : ResetConfig}

theorem forall_middle {γ : Type} {before after : List γ} {y : γ} {p : γ → Prop} :
    (∀ x ∈ before ++ y :: after, p x) ↔ p y ∧ ∀ x, x ∈ before ∨ x ∈ after → p x := by
  simp only [forall_mem_append, forall_mem_cons, or_imp, forall_and]
  tauto

theorem marking_elsewhere (not : ¬Marking id thread.2)
    (marker : ∃ t ∈ before ++ thread :: after, Marking id t.2) :
    ∃ t, (t ∈ before ∨ t ∈ after) ∧ Marking id t.2 := by
  by_contra none
  have all : ∀ t ∈ before ++ thread :: after, ¬Marking id t.2 :=
    forall_middle.mpr ⟨not,fun t elsewhere marking => none ⟨t,elsewhere,marking⟩⟩
  obtain ⟨t,mem,marking⟩ := marker
  exact all t mem marking

section
variable {request : ResetRequest} {effect : ResetWorld → ResetWorld} {next : ResetWorld → ResetCall}
  (once : Once id ⟨w,before ++ (request,.step effect next) :: after⟩)
  (serial : Serial id ⟨effect w,before ++ (request,next w) :: after⟩)
include once serial

/-- The mark: no other call is past its lookup, and none gets there any more. -/
theorem Once.mark (seq : id < w.db.resetSeq) (marking : Marking id (.step effect next)) :
    Once id ⟨effect w,before ++ (request,next w) :: after⟩ := by
  obtain ⟨below,was,all,once⟩ := once
  obtain ⟨kept,same,closes,a,finished⟩ := marking.2 w
  have idle : ∀ thread ∈ before ++ (request,next w) :: after,
      Idle id (Armed id thread.1) thread.2 := by
    refine forall_middle.mpr ⟨?_,fun thread elsewhere => ?_⟩
    · rw [finished]
      trivial
    · exact ((forall_middle.mp all).2 thread elsewhere).idle (was.others marking.1 elsewhere)
  refine ⟨kept.below below,serial,fun thread mem => .inl (idle thread mem),?_⟩
  rw [same]
  exact once.imp_right fun one => ⟨one.1,.inl ⟨closes seq,idle⟩⟩

/-- Nothing happens under the request, which the call may have found open. -/
theorem Once.look (idle : Idle id (Armed id request) (.step effect next)) :
    Once id ⟨effect w,before ++ (request,next w) :: after⟩ := by
  obtain ⟨below,-,all,once⟩ := once
  obtain ⟨still,new⟩ := idle w
  refine ⟨still.below below,serial,forall_middle.mpr ⟨?_,fun thread elsewhere => ?_⟩,?_⟩
  · refine new.imp_right fun found => ⟨?_,.inl found.2⟩
    obtain ⟨r,row,same,-⟩ := found.1
    exact lt_of_lt_of_le (same ▸ below r row) still.seq
  · exact ((forall_middle.mp all).2 thread elsewhere).kept still.toKept
  · rw [still.changes]
    refine once.imp_right fun one => ⟨one.1,one.2.imp (fun shut => ?_) fun marker => ?_⟩
    · refine ⟨still.closed shut.1,forall_middle.mpr ⟨?_,(forall_middle.mp shut.2).2⟩⟩
      exact new.resolve_right fun found => shut.1.2 found.1
    · obtain ⟨thread,elsewhere,marking⟩ :=
        marking_elsewhere (mt Marking.pending (not_pending_of_idle idle)) marker
      exact ⟨thread,by simp; tauto,marking⟩

/-- The update: it is the first, and its call marks next. -/
theorem Once.change (seq : id < w.db.resetSeq) (armed : Armed id request (.step effect next)) :
    Once id ⟨effect w,before ++ (request,next w) :: after⟩ := by
  obtain ⟨below,was,all,once⟩ := once
  obtain ⟨kept,count,marks⟩ := armed.2 (was.completes (request,_) (by simp) armed.1) w
  have not : ¬Marking id (.step effect next) := fun marking => by
    obtain ⟨-,-,-,a,finished⟩ := marking.2 w
    rw [finished] at marks
    exact marks
  refine ⟨kept.below below,serial,forall_middle.mpr ⟨?_,fun thread elsewhere => ?_⟩,?_⟩
  · exact .inr ⟨lt_of_lt_of_le seq kept.seq,.inr marks⟩
  · exact ((forall_middle.mp all).2 thread elsewhere).kept kept
  · have first : w.changes id = 0 := by
      refine once.resolve_right ?_
      rintro ⟨-,⟨-,idle⟩ | marker⟩
      · exact not_pending_of_idle (forall_middle.mp idle).1 armed.1
      · obtain ⟨thread,elsewhere,marking⟩ := marking_elsewhere not marker
        exact was.others armed.1 elsewhere marking.pending
    rw [first] at count
    rcases Nat.eq_zero_or_pos ((effect w).changes id) with none | some
    · exact .inl none
    · exact .inr ⟨le_antisymm count some,.inr ⟨(request,next w),by simp,marks⟩⟩

theorem Once.advance : Once id ⟨effect w,before ++ (request,next w) :: after⟩ := by
  rcases (forall_middle.mp once.known).1 with idle | ⟨seq,armed | marking⟩
  · exact once.look serial idle
  · exact once.change serial seq armed
  · exact once.mark serial seq marking

end

theorem Once.step (once : Once id c) (step : Step (platformResets S siv) c d)
    (serial : Serial id d) : Once id d := by
  cases step with
  | @arrive w threads request _ =>
    have idle : Idle id (Armed id request) ((platformResets S siv).handle request) :=
      handle_idle request
    refine ⟨once.below,serial,?_,?_⟩
    · exact forall_mem_append.mpr ⟨once.known,forall_mem_singleton.mpr (.inl idle)⟩
    · refine once.once.imp_right fun one => ⟨one.1,one.2.imp (fun shut => ?_) fun marker => ?_⟩
      · exact ⟨shut.1,forall_mem_append.mpr ⟨shut.2,forall_mem_singleton.mpr idle⟩⟩
      · obtain ⟨thread,old,marking⟩ := marker
        exact ⟨thread,mem_append_left _ old,marking⟩
  | advance => exact once.advance serial
  | @interfere w w' threads change =>
    obtain ⟨history,seq,rows⟩ := change
    have kept : Kept id w w' := kept_of_rows seq fun r mem =>
      ⟨r,rows.mem mem,rfl,fun open_ => open_⟩
    have unchanged : w'.changes id = w.changes id := congrArg (countP _) history
    refine ⟨kept.below once.below,serial,fun thread mem => (once.known thread mem).kept kept,?_⟩
    rw [unchanged]
    exact once.once.imp_right fun one =>
      ⟨one.1,one.2.imp_left fun shut => ⟨kept.closed shut.1,shut.2⟩⟩

end

/-- A request changes the password at most once in every run in which no call
    looks it up between the lookup and the mark of another, and none fails between
    its update and its mark. -/
theorem platform_reset_single_use (S : AppState) (siv : AeadKey → Bytes → Bytes)
    {start : ResetTables} (below : ∀ r ∈ start.resetRequests, r.id < start.resetSeq) {id : Nat}
    {c : ResetConfig} (run : SerialRun id S siv ⟨⟨start,[]⟩,[]⟩ c) :
    c.shared.changes id ≤ 1 := by
  have once : Once id c := by
    induction run with
    | refl => exact ⟨below,⟨.nil,by simp⟩,by simp,.inl rfl⟩
    | tail _ step ih => exact ih.step step.1 step.2
  rcases once.once with none | ⟨one,-⟩ <;> omega

def sampleResetTables : ResetTables :=
  ⟨[⟨0,sampleUuid 7,"a@b.c",some [1]⟩],
    [⟨0,sampleUuid 7,"secret",utf8 "CODE",100,false⟩],1⟩

def sampleConfirmation (newPassword : Text) (outage : Nat → Option Outage) : ResetRequest :=
  .confirm "a@b.c" "CODE" "secret" newPassword
    ⟨fun _ => 0,sampleNonce,[],.filled 8 0,outage⟩

def playResets (moves : List (Move ResetRequest)) : ResetConfig :=
  Config.play (platformResets transparentState fun _ bytes => bytes)
    ⟨⟨sampleResetTables,[]⟩,[]⟩ moves

theorem playResets_run (moves : List (Move ResetRequest)) :
    Run (platformResets transparentState fun _ bytes => bytes) ⟨⟨sampleResetTables,[]⟩,[]⟩
      (playResets moves) :=
  run_play (fun _ _ => trivial) moves

/-- Both calls look the request up before either marks it. -/
def overlapping : List (Move ResetRequest) :=
  [.arrive (sampleConfirmation "first" fun _ => none),
    .arrive (sampleConfirmation "second" fun _ => none),
    .advance 0,.advance 0,.advance 1,.advance 1,.advance 0,.advance 0,.advance 1,.advance 1]

/-- The calls follow each other, but the mark of the first is refused. -/
def unmarked : List (Move ResetRequest) :=
  [.arrive (sampleConfirmation "first" fun n => if n = 3 then some .refused else none),
    .advance 0,.advance 0,.advance 0,.advance 0,
    .arrive (sampleConfirmation "second" fun _ => none),
    .advance 1,.advance 1,.advance 1,.advance 1]

theorem platform_reset_used_twice :
    (∃ c, Run (platformResets transparentState fun _ bytes => bytes) ⟨⟨sampleResetTables,[]⟩,[]⟩ c ∧
      c.threads.map (·.2.result?) = [some (.ok ()),some (.ok ())] ∧
      c.shared.changes 0 = 2) ∧
    ∃ c, Run (platformResets transparentState fun _ bytes => bytes) ⟨⟨sampleResetTables,[]⟩,[]⟩ c ∧
      c.threads.map (·.2.result?) = [some (.error (.error databaseFailure)),some (.ok ())] ∧
      c.shared.changes 0 = 2 :=
  ⟨⟨playResets overlapping,playResets_run _,by decide +kernel,by decide +kernel⟩,
    playResets unmarked,playResets_run _,by decide +kernel,by decide +kernel⟩

section
variable {S : AppState} {siv : AeadKey → Bytes → Bytes} {id : Nat} {request : ResetRequest}
  {before : List (ResetRequest × ResetCall)}

theorem serial_last (finished : ∀ thread ∈ before, ¬Pending id thread.2)
    (completes : request.Completes) (w : ResetWorld) (p : ResetCall) :
    Serial id ⟨w,before ++ [(request,p)]⟩ where
  alone := by
    refine pairwise_append.mpr ⟨?_,by simp,fun a mem b _ both => finished a mem both.1⟩
    exact pairwise_of_forall_mem_list fun a mem b _ both => finished a mem both.1
  completes := by
    refine forall_mem_append.mpr ⟨fun thread old pending => absurd pending (finished thread old),?_⟩
    exact forall_mem_singleton.mpr fun _ => completes

theorem serial_finish_from (finished : ∀ thread ∈ before, ¬Pending id thread.2)
    (completes : request.Completes) (p : ResetCall) (w : ResetWorld) :
    SerialRun id S siv ⟨w,before ++ [(request,p)]⟩
      ⟨(p.finish w).2,before ++ [(request,.done (p.finish w).1)]⟩ := by
  induction p generalizing w with
  | done a => exact .refl
  | step effect next ih =>
    exact .head ⟨Step.advance,serial_last finished completes _ _⟩ (ih w (effect w))

def oneByOne (S : AppState) (siv : AeadKey → Bytes → Bytes) :
    List ResetRequest → ResetConfig → ResetConfig
  | [], c => c
  | request :: rest, c => oneByOne S siv rest
      ⟨(((platformResets S siv).handle request).finish c.shared).2,
        c.threads ++ [(request,.done (((platformResets S siv).handle request).finish c.shared).1)]⟩

theorem oneByOne_serial {requests : List ResetRequest} (completes : ∀ r ∈ requests, r.Completes)
    {c : ResetConfig} (finished : ∀ thread ∈ c.threads, ¬Pending id thread.2) :
    SerialRun id S siv c (oneByOne S siv requests c) := by
  induction requests generalizing c with
  | nil => exact .refl
  | cons request rest ih =>
    obtain ⟨first,others⟩ := forall_mem_cons.mp completes
    refine .head ⟨Step.arrive trivial,serial_last finished first _ _⟩
      ((serial_finish_from finished first _ _).trans (ih others ?_))
    exact forall_mem_append.mpr ⟨finished,forall_mem_singleton.mpr fun pending => pending⟩

end

/-- A wrong secret, a call whose mark is done but not answered, and one that comes too late. -/
def sampleConfirmations : List ResetRequest :=
  [.confirm "a@b.c" "CODE" "guess" "first"
      ⟨fun _ => 0,sampleNonce,[],.filled 8 0,fun _ => none⟩,
    sampleConfirmation "second" fun n => if n = 3 then some .lost else none,
    sampleConfirmation "third" fun _ => none]

theorem serial_confirmations_change_once :
    ∃ c, SerialRun 0 transparentState (fun _ bytes => bytes) ⟨⟨sampleResetTables,[]⟩,[]⟩ c ∧
      c.threads.map (·.2.result?) = [some (.error (.error .invalidPasswordResetSecret)),
        some (.error (.error databaseFailure)),
        some (.error (.error .invalidPasswordResetRequest))] ∧
      0 < c.shared.changes 0 ∧ c.shared.changes 0 ≤ 1 := by
  have completes : ∀ r ∈ sampleConfirmations, r.Completes := by
    simp [sampleConfirmations, sampleConfirmation, ResetRequest.Completes]
  have run : SerialRun 0 transparentState (fun _ bytes => bytes) ⟨⟨sampleResetTables,[]⟩,[]⟩ _ :=
    oneByOne_serial completes (by simp)
  exact ⟨_,run,by decide +kernel,by decide +kernel,
    platform_reset_single_use transparentState (fun _ bytes => bytes) (by decide) run⟩

end OpenSecret
