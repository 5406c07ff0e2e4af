import OpenSecret.Encrypt
import OpenSecret.Foundation.ByteRanges
import OpenSecret.Foundation.TaskPools

/-!
`CustomRng` of `encrypt.rs`. What a caller does while it holds the mutex is one step;
between two steps any other callers may run, and a caller may be dropped where it
waits. The log keeps the blocks that were appended and the bytes that were delivered.
-/
namespace OpenSecret.CustomRng
open Framing ByteRanges TaskPools Traces List

inductive Request where
  | fillBytes (length : Nat)
  | nextU32
  | nextU64
  deriving DecidableEq, Repr

def Request.size : Request → Nat
  | .fillBytes length => length
  | .nextU32 => 4
  | .nextU64 => 8

inductive Reply where
  | bytes (dest : Bytes)
  | u32 (n : UInt32)
  | u64 (n : UInt64)
  deriving DecidableEq, Repr

def Request.reply : Request → Bytes → Reply
  | .fillBytes _, taken => .bytes taken
  | .nextU32, taken => .u32 (UInt32.ofNat (fromLittleEndian taken))
  | .nextU64, taken => .u64 (UInt64.ofNat (fromLittleEndian taken))

inductive Caller where
  | called
  | locking (request : Request)
  | filling (request : Request)
  | returned (reply : Reply)
  | dropped
  deriving DecidableEq

abbrev Block := Octets 1024

inductive Event where
  | appended (block : Block)
  | delivered (request : Request) (taken : Bytes)
  deriving DecidableEq

inductive Choice where
  | ask (request : Request)
  | lock
  | generated (block : Block)
  | drop

/-- `fill_bytes`: with too few bytes in the buffer the lock is released, a block is
    generated and appended, and the buffer is looked at again. -/
def advance (buffer : Bytes) : Choice → Caller → Option (Effect Bytes Caller Event)
  | .ask request, .called => some ⟨buffer,.locking request,[],[]⟩
  | .lock, .locking request =>
    if buffer.length < request.size then some ⟨buffer,.filling request,[],[]⟩
    else
      let taken := buffer.take request.size
      some ⟨buffer.drop request.size,.returned (request.reply taken),[],[.delivered request taken]⟩
  | .generated block, .filling request =>
    some ⟨buffer ++ block.bytes,.locking request,[],[.appended block]⟩
  | .drop, .locking _ => some ⟨buffer,.dropped,[],[]⟩
  | .drop, .filling _ => some ⟨buffer,.dropped,[],[]⟩
  | _, _ => none

def customRng : System Bytes Caller Event Choice := ⟨advance,.called⟩

def new : World Bytes Caller Event := ⟨[],[],[]⟩

def appended (log : List Event) : Bytes :=
  log.flatMap fun
    | .appended block => block.bytes
    | .delivered _ _ => []

def delivered (log : List Event) : Bytes :=
  log.flatMap fun
    | .appended _ => []
    | .delivered _ taken => taken

def returned (callers : List Caller) : List Reply :=
  callers.filterMap fun
    | .returned reply => some reply
    | _ => none

def replies (log : List Event) : List Reply :=
  log.filterMap fun
    | .appended _ => none
    | .delivered request taken => some (request.reply taken)

variable {w w' : World Bytes Caller Event} {m : Move Choice}
  {trace : List (World Bytes Caller Event × Move Choice)}
  {buffer : Bytes} {choice : Choice} {caller : Caller} {e : Effect Bytes Caller Event}

theorem advance_accounts (stepped : advance buffer choice caller = some e) :
    e.spawned = [] ∧ returned [caller] = [] ∧ returned [e.task] = replies e.events ∧
      delivered e.events ++ e.shared = buffer ++ appended e.events ∧
      ∀ request taken, .delivered request taken ∈ e.events → taken.length = request.size := by
  unfold advance at stepped
  split at stepped
  · cases stepped
    simp [returned, replies, delivered, appended]
  · split at stepped
    · cases stepped
      simp [returned, replies, delivered, appended]
    · rename_i request few
      cases stepped
      simp only [returned, replies, delivered, appended]
      simp
      omega
  · cases stepped
    simp [returned, replies, delivered, appended]
  · cases stepped
    simp [returned, replies, delivered, appended]
  · cases stepped
    simp [returned, replies, delivered, appended]
  · cases stepped

/-- What was delivered and what the buffer holds is what was appended, and the callers that
    returned have one delivery each. -/
structure Accounted (w : World Bytes Caller Event) : Prop where
  bytes : delivered w.log ++ w.shared = appended w.log
  sized : ∀ request taken, .delivered request taken ∈ w.log → taken.length = request.size
  each : (returned w.tasks).Perm (replies w.log)

theorem step_accounted (accounted : Accounted w) (moved : step customRng w m = some w') :
    Accounted w' := by
  rcases step_cases moved with rfl | ⟨before,caller,after,choice,e,shape,advanced,rfl⟩
  · refine ⟨accounted.bytes,accounted.sized,?_⟩
    simpa [returned, customRng] using accounted.each
  obtain ⟨alone,busy,answered,bytes,sized⟩ := advance_accounts advanced
  refine ⟨?_,?_,?_⟩
  · calc delivered (w.log ++ e.events) ++ e.shared
        = delivered w.log ++ (delivered e.events ++ e.shared) := by simp [delivered]
      _ = delivered w.log ++ w.shared ++ appended e.events := by rw [bytes, append_assoc]
      _ = appended (w.log ++ e.events) := by rw [accounted.bytes]; simp [appended]
  · intro request taken mem
    rcases mem_append.mp mem with old | new
    · exact accounted.sized request taken old
    · exact sized request taken new
  · have each := accounted.each
    have split : ∀ t, returned (before ++ t :: after) =
        returned before ++ (returned [t] ++ returned after) := by
      intro t
      simp only [returned, ← filterMap_append, singleton_append]
    have logged : replies (w.log ++ e.events) = replies w.log ++ replies e.events :=
      filterMap_append
    rw [shape, split, busy, nil_append] at each
    show (returned (before ++ e.task :: after ++ e.spawned)).Perm (replies (w.log ++ e.events))
    rw [alone, append_nil, split, answered, logged]
    -- the new reply stands where its caller does, and comes last in the log
    refine (perm_append_comm.append_left _).trans ?_
    rw [← append_assoc]
    exact each.append_right _

/-- However calls, refills and takes interleave: the bytes delivered so far, in the order of
    delivery, and then the buffer are exactly the blocks in the order they were appended.
    Each delivery is of the length asked for and starts where the last one ended, and the
    callers that have returned were given one delivery each. -/
theorem random_bytes_never_reused (run : Plays (step customRng) new trace w) :
    delivered w.log ++ w.shared = appended w.log ∧
    (∀ before request taken after, w.log = before ++ .delivered request taken :: after →
      taken.length = request.size ∧
        ((appended w.log).drop (delivered before).length).take taken.length = taken) ∧
    (returned w.tasks).Perm (replies w.log) := by
  have accounted : Accounted w := by
    refine plays_invariant (fun _ => Accounted) ⟨rfl,by simp [new],.refl _⟩ ?_ run
    exact fun _ _ _ _ accounted moved => step_accounted accounted moved
  refine ⟨accounted.bytes,fun before request taken after split => ⟨?_,?_⟩,accounted.each⟩
  · exact accounted.sized request taken (by simp [split])
  · rw [← accounted.bytes, split]
    simp [delivered]

/-- Two callers find too few bytes and append a block each; the first to come back takes its
    eight bytes, then the other one its four. -/
def twoCallers : List (World Bytes Caller Event × Move Choice) × World Bytes Caller Event :=
  play (step customRng) [.arrive,.arrive,.advance 0 (.ask .nextU32),
    .advance 1 (.ask .nextU64),.advance 0 .lock,
    .advance 1 .lock,.advance 1 (.generated (.filled 1024 1)),
    .advance 0 (.generated (.filled 1024 2)),
    .advance 1 .lock,.advance 0 .lock] new

theorem two_callers_share_no_byte :
    twoCallers.2.tasks = [.returned (.u32 0x01010101),.returned (.u64 0x0101010101010101)] ∧
      delivered twoCallers.2.log ++ twoCallers.2.shared = appended twoCallers.2.log ∧
      twoCallers.2.shared.length = 2036 := by
  have run : Plays (step customRng) new twoCallers.1 twoCallers.2 := plays_play _ _ _
  exact ⟨by decide +kernel,(random_bytes_never_reused run).1,by decide +kernel⟩

end OpenSecret.CustomRng
