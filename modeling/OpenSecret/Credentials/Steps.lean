import OpenSecret.Credentials.Handlers
import OpenSecret.Foundation.Confinement

/-!
Which steps of the handlers stay within a relation. Most of them touch neither
the accounts nor the reset requests, so a relation that allows such steps is
left with the few transactions that do.
-/
namespace OpenSecret
open Framing Interleaving

/-- The relation allows every step that leaves accounts and reset requests alone. -/
class Lenient (R : World → World → Prop) : Prop where
  quiet : ∀ {w w' : World}, w'.db.users = w.db.users →
    w'.db.resetRequests = w.db.resetRequests → w'.db.resetSeq = w.db.resetSeq → R w w'

variable {S : AppState} {α ε ε' : Type} {R : World → World → Prop}

variable {e : ε}

@[simp] theorem within_fail : Within R (fail e : Action ε α) := trivial

@[simp] theorem within_query {view : Database → α} : Within R (query view : Action ε α) :=
  within_inspect

@[simp] theorem within_orFail {value : Option α} : Within R (orFail e value) := by
  cases value <;> trivial

@[simp] theorem within_require {condition : Bool} : Within R (require condition e) := by
  cases condition <;> trivial

@[simp] theorem within_onError {f : ε → ε'} {x : Action ε α} :
    Within R (onError f x) ↔ Within R x :=
  within_mapError

@[simp] theorem within_checked {x : Except ε α} : Within R (checked x) := trivial

@[simp] theorem within_ignoreError {x : Action ε Unit} :
    Within R (ignoreError x : Action ε' Unit) ↔ Within R x := by
  refine confined_bind.trans (and_iff_left fun r _ => ?_)
  rcases r with (_ | _) | _ <;> trivial

section

variable {a : α}

@[simp] theorem yields_query {view : Database → α} :
    (query view : Action ε α).run.Yields (.ok a) ↔ ∃ w : World, view w.db = a := by
  refine exists_congr fun w => ?_
  change (Except.ok (view w.db) : Except (Fault ε) α) = .ok a ↔ _
  simp

@[simp] theorem yields_orFail {e : ε} {value : Option α} :
    (orFail e value).run.Yields (.ok a) ↔ value = some a := by
  cases value with
  | none => exact iff_of_false nofun nofun
  | some b =>
    change (Except.ok b : Except (Fault ε) α) = .ok a ↔ _
    simp

@[simp] theorem yields_require {condition : Bool} {e : ε} {a : Unit} :
    (require condition e).run.Yields (.ok a) ↔ condition = true := by
  cases condition with
  | false => exact iff_of_false nofun nofun
  | true => exact iff_of_true rfl rfl

@[simp] theorem yields_settle {x : Except (Fault ε) α} :
    (settle x : Action ε α).run.Yields (.ok a) ↔ x = .ok a := Iff.rfl

@[simp] theorem yields_checked {x : Except ε α} :
    (checked x).run.Yields (.ok a) ↔ x = .ok a := by
  cases x with
  | error e => exact iff_of_false nofun nofun
  | ok b =>
    change (Except.ok b : Except (Fault ε) α) = .ok a ↔ _
    simp

end

@[simp] theorem within_verifySeedWrap {user : User} {context : AuthContext} :
    Within R (verifySeedWrapForAuthContext S user context) := by
  simp [verifySeedWrapForAuthContext, readSeed]

section
variable [Lenient R]

@[simp] theorem within_note {event : Event} : Within R (note event : Action ε Unit) := by
  refine within_attempt fun w a w' noted => ?_
  cases noted
  exact Lenient.quiet rfl rfl rfl

variable {connection : UserOAuthConnection} {who : AuthenticatedUser}
  {draws : Draws} {projectId : Int32}

@[simp] theorem within_updateUserOauthConnection :
    Within R (write (·.updateUserOauthConnection connection) : Action ε Unit) := by
  refine within_attempt fun w _ w' written => ?_
  cases written
  exact Lenient.quiet rfl rfl rfl

@[simp] theorem within_issueTokens :
    Within R (issueTokens S who draws) := by
  simp [issueTokens, issueToken, signToken]

@[simp] theorem within_authenticateUser {email : Option Text} {id : Option Uuid} {password : Text} :
    Within R (authenticateUser S email id password projectId) := by
  have found : Within R (findLoginUser S email id projectId) := by
    unfold findLoginUser
    split <;> simp
  refine within_bind.mpr ⟨found,fun user _ => ?_⟩
  split <;> simp

@[simp] theorem within_loginInternal {creds : LoginCredentials} :
    Within R (loginInternal S creds draws) := by
  have found : ∀ project, Within R (checkLoginUser S creds project) := by
    intro project
    unfold checkLoginUser
    split <;> simp
  simp [loginInternal, found]

omit [Lenient R] in
@[simp] theorem within_validateJwt {authorization : Option Text} {now : Int} :
    Within R (validateJwt S authorization now) := by
  simp [validateJwt]

@[simp] theorem within_authenticatedOauthUser {user : User} {provider providerUserId : Text} :
    Within R (authenticatedOauthUser S user provider providerUserId) := by
  simp [authenticatedOauthUser]

@[simp] theorem within_signInWithConnection {assertion : ProviderAssertion} :
    Within R (signInWithConnection S connection assertion projectId draws) := by
  simp [signInWithConnection, updateProviderConnection]

@[simp] theorem within_oauthCallbackResponse :
    Within R (oauthCallbackResponse S who draws) := by
  simp [oauthCallbackResponse]

end

end OpenSecret
