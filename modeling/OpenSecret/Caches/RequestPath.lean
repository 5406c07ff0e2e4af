import OpenSecret.Caches.IdleExpiry
import OpenSecret.Credentials.Tokens
import OpenSecret.Foundation.Traces
import Mathlib.Data.List.Perm.Subperm

/-!
The path of an encrypted request through `decrypt_request`, its handler and the
encryption of what the handler sends, beside other requests, key exchanges and
maintenance. A request keeps its lease until it ends or is abandoned.
-/
namespace OpenSecret.LeaseAware
open Framing
open Interleaving (Prog)
open Locking (Section)
open Traces (Timeline)

structure SessionState where
  sessionKey : AeadKey
  deriving DecidableEq

abbrev SessionLease := CacheLease Uuid SessionState

/-- base64, the JSON of the encrypted body and ChaCha20-Poly1305. -/
structure Codec where
  base64Decode : Text → Option Bytes
  encryptedRequest : Bytes → Option Text
  decrypt : AeadKey → Nonce → (ciphertext : Bytes) → Option Bytes
  encrypt : AeadKey → Nonce → (data : Bytes) → Option Bytes

/-- A request as a sequence of calls on the session cache, each with what follows
    its answer. `release` drops the lease that was acquired last. -/
inductive Path (α : Type) where
  | done (result : α)
  | acquire (id : Uuid) (next : Option SessionState → Path α)
  | touch (id : Uuid) (next : Bool → Path α)
  | release (next : Path α)

variable {α β : Type}

def Path.bind : Path α → (α → Path β) → Path β
  | .done a, f => f a
  | .acquire id next, f => .acquire id fun session => (next session).bind f
  | .touch id next, f => .touch id fun touched => (next touched).bind f
  | .release next, f => .release (next.bind f)

instance : Monad Path where
  pure := .done
  bind := .bind

def acquireSession (id : Uuid) : Path (Except ApiError SessionState) :=
  .acquire id fun session => .done (session.elim (.error .badRequest) .ok)

def touchSession (id : Uuid) : Path (Except ApiError Unit) :=
  .touch id fun touched => .done (if touched then .ok () else .error .badRequest)

section
variable (codec : Codec)

/-- The part of `decrypt_session_data` that comes before the touch. -/
def openSessionData (session : SessionState) (encryptedData : Text) : Except ApiError Bytes :=
  match codec.base64Decode encryptedData with
  | none => .error .badRequest
  | some decoded =>
    if long : decoded.length < 12 then .error .badRequest
    else
      match codec.decrypt session.sessionKey ⟨decoded.take 12,length_nonce long⟩
        (decoded.drop 12) with
      | none => .error .internalServerError
      | some decrypted => .ok decrypted

def decryptSessionData (id : Uuid) (session : SessionState) (encryptedData : Text) :
    Path (Except ApiError Bytes) :=
  match openSessionData codec session encryptedData with
  | .error e => pure (.error e)
  | .ok decrypted => do
    match ← touchSession id with
    | .error e => pure (.error e)
    | .ok () => pure (.ok decrypted)

/-- The lease is dropped on every way out. -/
def encryptSessionData (id : Uuid) (data : Bytes) (nonce : Nonce) :
    Path (Except ApiError Bytes) := do
  match ← acquireSession id with
  | .error e => pure (.error e)
  | .ok session =>
    match codec.encrypt session.sessionKey nonce data with
    | none => .release (pure (.error .internalServerError))
    | some ciphertext => do
      let touched ← touchSession id
      .release (pure (touched.map fun _ => nonce.bytes ++ ciphertext))

/-- What a handler or its stream does with its session: it encrypts what it sends,
    and goes on as the results allow. -/
inductive Handler where
  | respond
  | encrypt (data : Bytes) (nonce : Nonce) (next : Except ApiError Bytes → Handler)

def Handler.run (id : Uuid) : Handler → Path (Except ApiError Unit)
  | .respond => pure (.ok ())
  | .encrypt data nonce next => do
    let result ← encryptSessionData codec id data nonce
    (next result).run id

/-- `sessionId` is the header if it parses, `body` the body if it is not too large;
    `bodyless` is `skips_encrypted_body` of the method and the body type, and
    `deserializes` is the JSON of that type. -/
structure SessionRequest where
  sessionId : Option Uuid
  bodyless : Bool
  body : Option Bytes
  deserializes : Bytes → Bool
  next : Option Bytes → Handler

def decryptRequest (request : SessionRequest) : Path (Except ApiError Unit) :=
  match request.sessionId with
  | none => pure (.error .badRequest)
  | some id =>
    if request.bodyless then do
      match ← acquireSession id with
      | .error e => pure (.error e)
      | .ok _ =>
        match ← touchSession id with
        | .error e => pure (.error e)
        | .ok () => (request.next none).run codec id
    else
      match request.body with
      | none => pure (.error .payloadTooLarge)
      | some bytes =>
        match codec.encryptedRequest bytes with
        | none => pure (.error .badRequest)
        | some encrypted => do
          match ← acquireSession id with
          | .error e => pure (.error e)
          | .ok session =>
            match ← decryptSessionData codec id session encrypted with
            | .error _ => pure (.error .badRequest)
            | .ok decrypted =>
              if request.deserializes decrypted then (request.next (some decrypted)).run codec id
              else pure (.error .badRequest)

def SessionRequest.Decrypts (request : SessionRequest) (session : SessionState) : Prop :=
  ∃ bytes encrypted plaintext, request.body = some bytes ∧
    codec.encryptedRequest bytes = some encrypted ∧
    openSessionData codec session encrypted = .ok plaintext

end

/-- A request under way, the leases it holds and what is left of its path. -/
structure Client where
  request : SessionRequest
  held : List SessionLease
  rest : Path (Except ApiError Unit)

/-- `clock` is the time of the latest call that read it. -/
structure Service where
  world : World Uuid SessionState
  clock : Nat
  clients : List Client

def Service.held (c : Service) : List SessionLease := c.clients.flatMap (·.held)

/-- Leases are dropped by whoever no longer needs them, never from under a request. -/
def DroppedBeside (held : List SessionLease) (w v : World Uuid SessionState) : Prop :=
  Dropped w v ∧ held.Subperm v.leases

/-- A step is a call with its answer, made by a request or not, or it is silent. -/
inductive Label where
  | silent
  | called (request : Option SessionRequest) (call : Request Uuid SessionState) (reply : Reply Uuid)

section
variable (codec : Codec)

def Service.Calls (c : Service) (call : Request Uuid SessionState) (reply : Reply Uuid)
    (w : World Uuid SessionState) : Prop :=
  Section (DroppedBeside c.held) (serve call) c.world reply w

inductive Step : Service → Label → Service → Prop where
  | arrive {c : Service} (request : SessionRequest) :
      Step c .silent { c with clients := c.clients ++ [⟨request,[],decryptRequest codec request⟩] }
  | acquire {c : Service} {before after : List Client} {request : SessionRequest}
      {held : List SessionLease} {id : Uuid}
      {next : Option SessionState → Path (Except ApiError Unit)}
      {now : Nat} {w : World Uuid SessionState} {lease : SessionLease}
      (running : c.clients = before ++ ⟨request,held,.acquire id next⟩ :: after)
      (later : c.clock ≤ now) (ran : c.Calls (.acquire id now) (.acquired true) w)
      (key : lease.key = id) (owned : (lease :: c.held).Subperm w.leases) :
      Step c (.called (some request) (.acquire id now) (.acquired true))
        ⟨w,now,before ++ ⟨request,lease :: held,next (some lease.value)⟩ :: after⟩
  | refuse {c : Service} {before after : List Client} {request : SessionRequest}
      {held : List SessionLease} {id : Uuid}
      {next : Option SessionState → Path (Except ApiError Unit)}
      {now : Nat} {w : World Uuid SessionState}
      (running : c.clients = before ++ ⟨request,held,.acquire id next⟩ :: after)
      (later : c.clock ≤ now) (ran : c.Calls (.acquire id now) (.acquired false) w) :
      Step c (.called (some request) (.acquire id now) (.acquired false))
        ⟨w,now,before ++ ⟨request,held,next none⟩ :: after⟩
  | touch {c : Service} {before after : List Client} {request : SessionRequest}
      {held : List SessionLease} {id : Uuid} {next : Bool → Path (Except ApiError Unit)}
      {now : Nat} {touched : Bool} {w : World Uuid SessionState}
      (running : c.clients = before ++ ⟨request,held,.touch id next⟩ :: after)
      (later : c.clock ≤ now) (ran : c.Calls (.touch id now) (.touched (.ok touched)) w) :
      Step c (.called (some request) (.touch id now) (.touched (.ok touched)))
        ⟨w,now,before ++ ⟨request,held,next touched⟩ :: after⟩
  | panic {c : Service} {before after : List Client} {request : SessionRequest}
      {held : List SessionLease} {id : Uuid} {next : Bool → Path (Except ApiError Unit)}
      {now : Nat} {fault : Fault Empty} {w : World Uuid SessionState}
      (running : c.clients = before ++ ⟨request,held,.touch id next⟩ :: after)
      (later : c.clock ≤ now) (ran : c.Calls (.touch id now) (.touched (.error fault)) w) :
      Step c (.called (some request) (.touch id now) (.touched (.error fault)))
        ⟨w,now,before ++ after⟩
  | release {c : Service} {before after : List Client} {request : SessionRequest}
      {held : List SessionLease} {next : Path (Except ApiError Unit)}
      (running : c.clients = before ++ ⟨request,held,.release next⟩ :: after) :
      Step c .silent { c with clients := before ++ ⟨request,held.tail,next⟩ :: after }
  | leave {c : Service} {before after : List Client} {client : Client}
      (running : c.clients = before ++ client :: after) :
      Step c .silent { c with clients := before ++ after }
  | store {c : Service} {id : Uuid} {session : SessionState} {now : Nat} {reply : Reply Uuid}
      {w : World Uuid SessionState} (later : c.clock ≤ now)
      (ran : c.Calls (.insert id session now) reply w) :
      Step c (.called none (.insert id session now) reply) { c with world := w, clock := now }
  | maintain {c : Service} {call : Request Uuid SessionState} {reply : Reply Uuid}
      {w : World Uuid SessionState} (maintenance : call.time = none) (ran : c.Calls call reply w) :
      Step c (.called none call reply) { c with world := w }
  | drop {c : Service} {w : World Uuid SessionState} (dropped : DroppedBeside c.held c.world w) :
      Step c .silent { c with world := w }

end

def Service.new (capacity : Nat) (positive : 0 < capacity) (ttl lastInstant clock : Nat) :
    Service :=
  ⟨.new capacity positive ttl lastInstant,clock,[]⟩

end OpenSecret.LeaseAware
