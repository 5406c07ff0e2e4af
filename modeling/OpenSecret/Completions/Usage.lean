import OpenSecret.Completions.Sse
import OpenSecret.Foundation.Json

/-!
The task behind a streaming completion: it cuts the provider's bytes into frames,
collects the usage the frames report, and publishes one usage event when the
stream has come to its end in a way that can be billed.
-/
namespace OpenSecret.Completions
open Framing Chunking List

structure CompletionUsage where
  promptTokens : Int
  completionTokens : Int
  cachedPromptTokens : Option Int
  deriving DecidableEq, Repr

structure CompletionUsageObservation where
  promptTokens : Option Int
  completionTokens : Option Int
  cachedPromptTokens : Option Int
  deriving DecidableEq, Repr

def CompletionUsageObservation.isEmpty (observed : CompletionUsageObservation) : Bool :=
  observed.promptTokens.isNone && observed.completionTokens.isNone &&
    observed.cachedPromptTokens.isNone

inductive StreamUsageFinalization where
  | providerDone
  | endOfStream
  | transportError
  | timeout
  | consumerDropped
  | invalidData
  deriving DecidableEq, Repr

def i32Max : Int := 2 ^ 31 - 1

def clampTokens (tokens : Int) : Int := max 0 (min tokens i32Max)

def usageObject (json : Json) : Option Json := (json.get "usage").filter Json.isObject

def promptCounter (json : Json) : Option Json := (usageObject json).bind (·.get "prompt_tokens")

def completionCounter (json : Json) : Option Json :=
  (usageObject json).bind (·.get "completion_tokens")

def cachedCounter (json : Json) : Option Json :=
  ((usageObject json).bind (·.get "prompt_tokens_details")).bind (·.get "cached_tokens")

def tokens (counter : Option Json) : Option Int := (counter.bind Json.asI64).map clampTokens

def extractUsageObservation (json : Json) : Option CompletionUsageObservation :=
  (usageObject json).map fun _ =>
    ⟨tokens (promptCounter json),tokens (completionCounter json),tokens (cachedCounter json)⟩

def hasFinishReason (json : Json) : Bool :=
  ((json.get "choices").bind Json.asArray).any fun choices =>
    choices.any fun choice => (choice.get "finish_reason").any fun reason => !reason.isNull

def hasTerminalStreamSignal (json : Json) : Bool :=
  hasFinishReason json || ((json.get "choices").bind Json.asArray).any (·.isEmpty)

structure StreamUsageAccumulator where
  latestUsage : Option CompletionUsage
  sawTerminalSignal : Bool
  finalized : Bool
  deriving DecidableEq, Repr

def StreamUsageAccumulator.default : StreamUsageAccumulator := ⟨none,false,false⟩

def mergeUsage (previous : Option CompletionUsage) (observed : CompletionUsageObservation) :
    CompletionUsage where
  promptTokens := (observed.promptTokens.or (previous.map (·.promptTokens))).getD 0
  completionTokens := (observed.completionTokens.or (previous.map (·.completionTokens))).getD 0
  cachedPromptTokens := observed.cachedPromptTokens.or (previous.bind (·.cachedPromptTokens))

/-- The warning about totals that go back is left out: it changes nothing. -/
def StreamUsageAccumulator.observe (acc : StreamUsageAccumulator) (json : Json) :
    StreamUsageAccumulator :=
  let acc := { acc with sawTerminalSignal := acc.sawTerminalSignal || hasTerminalStreamSignal json }
  match extractUsageObservation json with
  | none => acc
  | some observed =>
    if observed.isEmpty then
      acc
    else
      { acc with latestUsage := some (mergeUsage acc.latestUsage observed) }

def capCached (usage : CompletionUsage) : CompletionUsage :=
  { usage with cachedPromptTokens :=
    usage.cachedPromptTokens.map fun cached => min cached usage.promptTokens }

def StreamUsageAccumulator.takeFinalUsage (acc : StreamUsageAccumulator)
    (how : StreamUsageFinalization) :
    Option CompletionUsage × StreamUsageAccumulator :=
  let canFinalize := how == .providerDone || acc.sawTerminalSignal
  if acc.finalized || !canFinalize then
    (none,acc)
  else
    match acc.latestUsage with
    | none => (none,{ acc with finalized := true })
    | some usage =>
      (if usage.promptTokens > 0 ∨ usage.completionTokens > 0 then some (capCached usage) else none,
        { acc with finalized := true, latestUsage := none })

inductive CompletionChunk where
  | streamChunk (json : Json)
  | usage (usage : CompletionUsage)
  | done
  | error (message : Text)

/-- The parser of frames, the model's public name, and whether the consumer still
    listens when the task sends for the `n`-th time. -/
structure StreamEnv where
  fromSlice : Bytes → Option Json
  responseModelId : Text
  listens : Nat → Bool

/-- What the body stream gives the task. -/
inductive Arrival where
  | bytes (chunk : Bytes)
  | error (message : Text)
  | timeout
  | ended

/-- The task has returned once it has an `ending`. -/
structure StreamTask where
  buffer : Bytes
  accumulator : StreamUsageAccumulator
  sends : Nat
  delivered : List CompletionChunk
  published : List CompletionUsage
  ending : Option StreamUsageFinalization

def StreamTask.start : StreamTask := ⟨[],.default,0,[],[],none⟩

variable (env : StreamEnv)

def StreamTask.send (task : StreamTask) (chunk : CompletionChunk) : Bool × StreamTask :=
  if env.listens task.sends then
    (true,{ task with sends := task.sends + 1, delivered := task.delivered ++ [chunk] })
  else
    (false,{ task with sends := task.sends + 1 })

/-- The usage events written for a usage; a usage of nothing is not published. -/
def publishUsageEventInternal (usage : CompletionUsage) : List CompletionUsage :=
  if usage.promptTokens = 0 ∧ usage.completionTokens = 0 then [] else [usage]

def StreamTask.finalizeStreamUsage (task : StreamTask) (how : StreamUsageFinalization) :
    StreamTask :=
  let (usage,accumulator) := task.accumulator.takeFinalUsage how
  let task := { task with accumulator, ending := some how }
  match usage with
  | none => task
  | some usage =>
    ({ task with published := task.published ++ publishUsageEventInternal usage }.send
      env (.usage usage)).2

def canonicalizeResponseModel (json : Json) (responseModelId : Text) : Json :=
  match json.get "model" with
  | some (.str _) => json.set "model" (.str responseModelId)
  | _ => json

def doneMarker : Bytes := utf8 "[DONE]"

def StreamTask.onFrame (task : StreamTask) (frame : Bytes) : StreamTask :=
  if frame = doneMarker then
    ((task.finalizeStreamUsage env .providerDone).send env .done).2
  else
    match env.fromSlice frame with
    | some json =>
      let task := { task with accumulator := task.accumulator.observe json }
      match task.send env (.streamChunk (canonicalizeResponseModel json env.responseModelId)) with
      | (true,task) => task
      | (false,task) => task.finalizeStreamUsage env .consumerDropped
    | none => ((task.finalizeStreamUsage env .invalidData).send env (.error "Invalid JSON")).2

/-- The task returns with its first finalization. -/
def StreamTask.onFrames (task : StreamTask) : List Bytes → StreamTask
  | [] => task
  | frame :: rest =>
    let task := task.onFrame env frame
    if task.ending.isSome then task else task.onFrames rest

/-- Extraction does not look at what is done with a frame, so all complete frames
    are taken out of the buffer first. -/
def StreamTask.onArrival (task : StreamTask) (arrival : Arrival) : StreamTask :=
  if task.ending.isSome then
    task
  else
    match arrival with
    | .bytes chunk =>
      let (frames,buffer) := drainSseFrames (task.buffer ++ chunk)
      { task with buffer }.onFrames env frames
    | .error message => ((task.finalizeStreamUsage env .transportError).send env (.error message)).2
    | .timeout => ((task.finalizeStreamUsage env .timeout).send env (.error "Stream timeout")).2
    | .ended => ((task.finalizeStreamUsage env .endOfStream).send env .done).2

def runStream (arrivals : List Arrival) :
    StreamTask := arrivals.foldl (StreamTask.onArrival env) .start

/-- The values in the frames and the end they bring: the done marker, a frame that
    does not parse, or a value that is not taken, the `n`-th that is sent. -/
def readFrames (n : Nat) : List Bytes → List Json × Option StreamUsageFinalization
  | [] => ([],none)
  | frame :: rest =>
    if frame = doneMarker then
      ([],some .providerDone)
    else
      match env.fromSlice frame with
      | none => ([],some .invalidData)
      | some json =>
        if env.listens n then
          (json :: (readFrames (n + 1) rest).1,(readFrames (n + 1) rest).2)
        else
          ([json],some .consumerDropped)

/-- The bytes that arrive before the body breaks off, and how it does. -/
def received : List Arrival → Bytes × Option StreamUsageFinalization
  | [] => ([],none)
  | .bytes chunk :: rest => (chunk ++ (received rest).1,(received rest).2)
  | .error _ :: _ => ([],some .transportError)
  | .timeout :: _ => ([],some .timeout)
  | .ended :: _ => ([],some .endOfStream)

/-- What a stream says: the values in its frames, and how it ends, by a frame or
    with the body. -/
def readStream (arrivals : List Arrival) : List Json × Option StreamUsageFinalization :=
  let read := readFrames env 0 (drainSseFrames (received arrivals).1).1
  (read.1,read.2.or (received arrivals).2)

section
variable {env} {frames : List Json} {json : Json} {acc : StreamUsageAccumulator}

def lastReported (counter : Json → Option Json) (frames : List Json) : Option Int :=
  (frames.filterMap fun json => tokens (counter json)).getLast?

theorem lastReported_concat (counter : Json → Option Json) (frames : List Json) (json : Json) :
    lastReported counter (frames ++ [json]) =
      (tokens (counter json)).or (lastReported counter frames) := by
  unfold lastReported
  rw [filterMap_append]
  cases reported : tokens (counter json) with
  | none => simp [reported]
  | some value => simp [reported]

def StreamUsageAccumulator.usage (acc : StreamUsageAccumulator) : CompletionUsage :=
  acc.latestUsage.getD ⟨0,0,none⟩

def reportedUsage (frames : List Json) : CompletionUsage where
  promptTokens := (lastReported promptCounter frames).getD 0
  completionTokens := (lastReported completionCounter frames).getD 0
  cachedPromptTokens := lastReported cachedCounter frames

structure Collects (acc : StreamUsageAccumulator) (frames : List Json) : Prop where
  usage : acc.usage = reportedUsage frames
  signal : acc.sawTerminalSignal = frames.any hasTerminalStreamSignal
  unfinished : acc.finalized = false

theorem tokens_of_no_usage (absent : usageObject json = none) :
    tokens (promptCounter json) = none ∧ tokens (completionCounter json) = none ∧
      tokens (cachedCounter json) = none := by
  simp only [promptCounter, completionCounter, cachedCounter,
    absent, tokens, Option.bind_none, Option.map_none,
    and_self]

theorem mergeUsage_eq (previous : Option CompletionUsage) (observed : CompletionUsageObservation) :
    mergeUsage previous observed =
      { promptTokens := observed.promptTokens.getD (previous.getD ⟨0,0,none⟩).promptTokens
        completionTokens :=
          observed.completionTokens.getD (previous.getD ⟨0,0,none⟩).completionTokens
        cachedPromptTokens :=
          observed.cachedPromptTokens.or (previous.getD ⟨0,0,none⟩).cachedPromptTokens } := by
  obtain ⟨prompt,completion,cached⟩ := observed
  cases previous <;> cases prompt <;> cases completion <;> rfl

theorem observe_usage (acc : StreamUsageAccumulator) (json : Json) :
    (acc.observe json).usage =
      { promptTokens := (tokens (promptCounter json)).getD acc.usage.promptTokens
        completionTokens := (tokens (completionCounter json)).getD acc.usage.completionTokens
        cachedPromptTokens := (tokens (cachedCounter json)).or acc.usage.cachedPromptTokens } := by
  unfold StreamUsageAccumulator.observe extractUsageObservation
  cases present : usageObject json with
  | none =>
    obtain ⟨prompt,completion,cached⟩ := tokens_of_no_usage present
    rw [prompt, completion, cached]
    rfl
  | some object =>
    dsimp only [Option.map_some]
    split
    · rename_i empty
      simp only [CompletionUsageObservation.isEmpty, Bool.and_eq_true,
        Option.isNone_iff_eq_none] at empty
      rw [empty.1.1, empty.1.2, empty.2]
      rfl
    · exact mergeUsage_eq _ _

theorem observe_signal (acc : StreamUsageAccumulator) (json : Json) :
    (acc.observe json).sawTerminalSignal = (acc.sawTerminalSignal || hasTerminalStreamSignal json) ∧
      (acc.observe json).finalized = acc.finalized := by
  unfold StreamUsageAccumulator.observe
  dsimp only
  split
  · exact ⟨rfl,rfl⟩
  · split <;> exact ⟨rfl,rfl⟩

theorem observe_collects (collects : Collects acc frames) (json : Json) :
    Collects (acc.observe json) (frames ++ [json]) where
  usage := by
    rw [observe_usage, collects.usage]
    simp only [reportedUsage, lastReported_concat, CompletionUsage.mk.injEq]
    exact ⟨(Option.getD_or).symm,(Option.getD_or).symm,trivial⟩
  signal := by
    rw [(observe_signal acc json).1, collects.signal]
    simp
  unfinished := (observe_signal acc json).2.trans collects.unfinished

def billed (frames : List Json) (how : StreamUsageFinalization) : Option CompletionUsage :=
  if (how = .providerDone ∨ frames.any hasTerminalStreamSignal = true) ∧
      ((reportedUsage frames).promptTokens ≠ 0 ∨ (reportedUsage frames).completionTokens ≠ 0) then
    some (capCached (reportedUsage frames))
  else
    none

theorem clampTokens_nonneg (value : Int) : 0 ≤ clampTokens value := Int.le_max_left _ _

theorem lastReported_nonneg (counter : Json → Option Json) (frames : List Json) :
    0 ≤ (lastReported counter frames).getD 0 := by
  cases last : lastReported counter frames with
  | none => exact Int.le_refl 0
  | some value =>
    obtain ⟨json,_,reported⟩ := mem_filterMap.mp (mem_of_getLast? last)
    obtain ⟨raw,_,rfl⟩ := Option.map_eq_some_iff.mp reported
    exact clampTokens_nonneg raw

theorem takeFinalUsage_eq (collects : Collects acc frames) (how : StreamUsageFinalization) :
    (acc.takeFinalUsage how).1 = billed frames how := by
  have prompt : 0 ≤ (reportedUsage frames).promptTokens := lastReported_nonneg promptCounter frames
  have completion : 0 ≤ (reportedUsage frames).completionTokens :=
    lastReported_nonneg completionCounter frames
  by_cases can : how = .providerDone ∨ frames.any hasTerminalStreamSignal = true
  · have canFinalize : (how == .providerDone || frames.any hasTerminalStreamSignal) = true := by
      simpa using can
    have usage := collects.usage
    unfold StreamUsageAccumulator.takeFinalUsage
    unfold StreamUsageAccumulator.usage at usage
    dsimp only
    rw [collects.unfinished, collects.signal, canFinalize]
    cases latest : acc.latestUsage with
    | none =>
      rw [latest] at usage
      have nothing : ¬ ((reportedUsage frames).promptTokens ≠ 0 ∨
          (reportedUsage frames).completionTokens ≠ 0) := by
        rw [← usage]
        decide
      exact (if_neg fun both => nothing both.2).symm
    | some collected =>
      rw [latest] at usage
      change collected = reportedUsage frames at usage
      subst usage
      by_cases some : (reportedUsage frames).promptTokens > 0 ∨
        (reportedUsage frames).completionTokens > 0
      · exact (if_pos some).trans (if_pos ⟨can,by omega⟩).symm
      · exact (if_neg some).trans (if_neg fun both => some (by omega)).symm
  · have cannot : (how == .providerDone || frames.any hasTerminalStreamSignal) = false := by
      simpa using can
    unfold StreamUsageAccumulator.takeFinalUsage
    dsimp only
    rw [collects.signal, cannot, Bool.not_false, Bool.or_true]
    exact (if_neg fun both => can both.1).symm

end

section
variable {env}

theorem readFrames_append (n : Nat) (frames more : List Bytes) :
    readFrames env n (frames ++ more) =
      if (readFrames env n frames).2.isSome then readFrames env n frames
      else ((readFrames env n frames).1 ++
        (readFrames env (n + (readFrames env n frames).1.length) more).1,
        (readFrames env (n + (readFrames env n frames).1.length) more).2) := by
  induction frames generalizing n with
  | nil => rfl
  | cons frame rest ih =>
    simp only [cons_append, readFrames]
    split
    · rfl
    split
    · rfl
    split
    · rw [ih (n + 1), length_cons, Nat.add_right_comm, add_assoc n]
      split <;> rfl
    · rfl

theorem drainSseFrames_append (stream chunk : Bytes) :
    drainSseFrames (stream ++ chunk) = feed drainSseFrames (drainSseFrames stream) chunk := by
  simp only [feed, drainSseFrames_eq, frames.cutAll_append stream chunk, filterMap_append]

theorem readFrames_ended {stream : Bytes} {read : List Json × Option StreamUsageFinalization}
    (reads : readFrames env 0 (drainSseFrames stream).1 = read) (ended : read.2.isSome = true)
    (more : Bytes) :
    readFrames env 0 (drainSseFrames (stream ++ more)).1 = read := by
  rw [drainSseFrames_append, feed, readFrames_append, reads, if_pos ended]

end

section
variable {env} {task : StreamTask} {values : List Json} {how : StreamUsageFinalization}

/-- The task goes on: it has taken in these values and sent each of them. -/
structure Running (task : StreamTask) (values : List Json) : Prop where
  ending : task.ending = none
  sends : task.sends = values.length
  collects : Collects task.accumulator values
  published : task.published = []

structure Ended (task : StreamTask) (values : List Json) (how : StreamUsageFinalization) :
    Prop where
  ending : task.ending = some how
  published : task.published = (billed values how).toList

theorem Ended.send (ended : Ended task values how) (chunk : CompletionChunk) :
    Ended (task.send env chunk).2 values how := by
  unfold StreamTask.send
  split <;> exact ⟨ended.ending,ended.published⟩

variable {usage : CompletionUsage}

theorem publish_billed (bill : billed values how = some usage) :
    publishUsageEventInternal usage = [usage] := by
  unfold billed at bill
  split at bill
  · rename_i counted
    cases bill
    refine if_neg fun zero => ?_
    rcases counted.2 with prompt | completion
    · exact prompt zero.1
    · exact completion zero.2
  · cases bill

theorem finalize_ended (how : StreamUsageFinalization) (collects : Collects task.accumulator values)
    (published : task.published = []) : Ended (task.finalizeStreamUsage env how) values how := by
  unfold StreamTask.finalizeStreamUsage
  dsimp only
  rw [takeFinalUsage_eq collects how]
  cases bill : billed values how with
  | none => exact ⟨rfl,by rw [bill]; exact published⟩
  | some usage =>
    refine Ended.send ⟨rfl,?_⟩ _
    rw [bill, published, publish_billed bill]
    rfl

theorem onFrames_follows (running : Running task values) (frames : List Bytes) :
    let read := readFrames env values.length frames
    let after := task.onFrames env frames
    (read.2 = none → Running after (values ++ read.1) ∧ after.buffer = task.buffer) ∧
      ∀ how, read.2 = some how → Ended after (values ++ read.1) how := by
  dsimp only
  induction frames generalizing task values with
  | nil =>
    rw [readFrames, append_nil]
    exact ⟨fun _ => ⟨running,rfl⟩,nofun⟩
  | cons frame rest ih =>
    have stops {how : StreamUsageFinalization} {all : List Json}
      (ended : Ended (task.onFrame env frame) all how) :
        task.onFrames env (frame :: rest) = task.onFrame env frame := by
      simp only [StreamTask.onFrames, ended.ending, Option.isSome_some, if_true]
    by_cases marker : frame = doneMarker
    · have ended : Ended (task.onFrame env frame) values .providerDone := by
        rw [StreamTask.onFrame, if_pos marker]
        exact (finalize_ended _ running.collects running.published).send _
      rw [stops ended, readFrames, if_pos marker, append_nil]
      exact ⟨nofun,fun how same => Option.some.inj same ▸ ended⟩
    cases parsed : env.fromSlice frame with
    | none =>
      have ended : Ended (task.onFrame env frame) values .invalidData := by
        rw [StreamTask.onFrame, if_neg marker, parsed]
        exact (finalize_ended _ running.collects running.published).send _
      simp only [stops ended, readFrames, if_neg marker, parsed, append_nil]
      exact ⟨nofun,fun how same => Option.some.inj same ▸ ended⟩
    | some json =>
      have collects := observe_collects running.collects json
      by_cases listens : env.listens values.length = true
      · obtain ⟨next,buffer⟩ : Running (task.onFrame env frame) (values ++ [json]) ∧
            (task.onFrame env frame).buffer = task.buffer := by
          simp only [StreamTask.onFrame, if_neg marker, parsed,
            StreamTask.send, running.sends, listens, if_true]
          exact ⟨⟨running.ending,by simp,collects,running.published⟩,trivial⟩
        have goesOn : task.onFrames env (frame :: rest) =
            (task.onFrame env frame).onFrames env rest := by
          simp only [StreamTask.onFrames, next.ending, Option.isSome_none,
            Bool.false_eq_true, if_false]
        have follows := ih next
        rw [length_append, length_singleton, append_assoc, buffer] at follows
        simp only [readFrames, if_neg marker, parsed, listens, if_true]
        rw [goesOn]
        exact follows
      · have ended : Ended (task.onFrame env frame) (values ++ [json]) .consumerDropped := by
          simp only [StreamTask.onFrame, if_neg marker, parsed,
            StreamTask.send, running.sends, listens]
          exact finalize_ended _ collects running.published
        simp only [stops ended, readFrames, if_neg marker, parsed, listens]
        exact ⟨nofun,fun how same => Option.some.inj same ▸ ended⟩

theorem foldl_ended (ended : Ended task values how) (arrivals : List Arrival) :
    arrivals.foldl (StreamTask.onArrival env) task = task := by
  induction arrivals with
  | nil => rfl
  | cons arrival rest ih =>
    have same : task.onArrival env arrival = task := by simp [StreamTask.onArrival, ended.ending]
    rw [foldl_cons, same, ih]

/-- What is published is what the stream as a whole says, wherever its bytes were split. -/
theorem foldl_published {stream : Bytes} (arrivals : List Arrival) (running : Running task values)
    (buffer : task.buffer = (drainSseFrames stream).2)
    (reads : readFrames env 0 (drainSseFrames stream).1 = (values,none)) :
    let read := readFrames env 0 (drainSseFrames (stream ++ (received arrivals).1)).1
    (arrivals.foldl (StreamTask.onArrival env) task).published =
      ((read.2.or (received arrivals).2).bind (billed read.1)).toList := by
  have goesOn : ¬task.ending.isSome = true := by simp [running.ending]
  induction arrivals generalizing task values stream with
  | nil =>
    rw [received, append_nil, reads]
    exact running.published
  | cons arrival rest ih =>
    -- the body breaks off
    have broken {how : StreamUsageFinalization} {chunk : CompletionChunk}
        (stops : task.onArrival env arrival =
          ((task.finalizeStreamUsage env how).send env chunk).2) :
        ((arrival :: rest).foldl (StreamTask.onArrival env) task).published =
          (billed values how).toList := by
      have ended : Ended ((task.finalizeStreamUsage env how).send env chunk).2 values how :=
        (finalize_ended how running.collects running.published).send chunk
      rw [foldl_cons, stops, foldl_ended ended, ended.published]
    cases arrival with
    | bytes chunk =>
      rcases drained : drainSseFrames (task.buffer ++ chunk) with ⟨frames,left⟩
      have refilled : Running { task with buffer := left } values :=
        ⟨running.ending,running.sends,running.collects,running.published⟩
      have follows := @onFrames_follows env _ _ refilled frames
      have here : task.onArrival env (.bytes chunk) =
          { task with buffer := left }.onFrames env frames := by
        simp only [StreamTask.onArrival, if_neg goesOn, drained]
      have fed : drainSseFrames (stream ++ chunk) = ((drainSseFrames stream).1 ++ frames,left) := by
        rw [drainSseFrames_append, feed, ← buffer, drained]
      have read : readFrames env 0 (drainSseFrames (stream ++ chunk)).1 =
          (values ++ (readFrames env values.length frames).1,
            (readFrames env values.length frames).2) := by
        rw [fed, readFrames_append, reads, zero_add]
        rfl
      dsimp only [received]
      rw [foldl_cons, here, ← append_assoc]
      cases stops : (readFrames env values.length frames).2 with
      | none =>
        obtain ⟨next,kept⟩ := follows.1 stops
        rw [stops] at read
        exact ih next (kept.trans (congrArg Prod.snd fed).symm) read (by simp [next.ending])
      | some how =>
        have ended := follows.2 how stops
        rw [readFrames_ended read (by rw [stops]; rfl), foldl_ended ended, ended.published, stops]
        rfl
    | _ =>
      rw [received, append_nil, reads]
      exact broken (if_neg goesOn)

theorem runStream_published (env : StreamEnv) (arrivals : List Arrival) :
    (runStream env arrivals).published =
      ((readStream env arrivals).2.bind (billed (readStream env arrivals).1)).toList :=
  @foldl_published env .start [] [] arrivals ⟨rfl,rfl,⟨rfl,rfl,rfl⟩,rfl⟩ rfl rfl

theorem capCached_le {cached : Int} (capped : (capCached usage).cachedPromptTokens = some cached) :
    cached ≤ usage.promptTokens := by
  obtain ⟨raw,_,rfl⟩ := Option.map_eq_some_iff.mp capped
  exact Int.min_le_right _ _

end

/-- Whatever the provider sends, however its bytes are split and however the stream
    ends, at most one usage event is published: one exactly if the stream ended with
    the done marker or after a terminal signal and some counter is not zero. Its
    counters are the last values that the frames before the end report as an `i64`,
    clamped; cached tokens never exceed prompt tokens. -/
theorem usage_event_exact (env : StreamEnv) (arrivals : List Arrival) :
    (runStream env arrivals).published.length ≤ 1 ∧
    ((runStream env arrivals).published ≠ [] ↔
      ∃ how, (readStream env arrivals).2 = some how ∧
        (how = .providerDone ∨ ∃ json ∈ (readStream env arrivals).1,
          hasTerminalStreamSignal json = true) ∧
        ((lastReported promptCounter (readStream env arrivals).1).getD 0 ≠ 0 ∨
          (lastReported completionCounter (readStream env arrivals).1).getD 0 ≠ 0)) ∧
    ∀ usage ∈ (runStream env arrivals).published,
      usage.promptTokens = (lastReported promptCounter (readStream env arrivals).1).getD 0 ∧
      usage.completionTokens = (lastReported completionCounter (readStream env arrivals).1).getD 0 ∧
      ∀ cached, usage.cachedPromptTokens = some cached → cached ≤ usage.promptTokens := by
  rw [runStream_published]
  obtain ⟨values,ending⟩ := readStream env arrivals
  cases ending with
  | none => exact ⟨Nat.zero_le 1,⟨fun some => absurd rfl some,nofun⟩,nofun⟩
  | some how =>
    rw [Option.bind_some, billed]
    split
    · rename_i counted
      refine ⟨Nat.le_refl 1,⟨fun _ => ⟨how,rfl,?_,counted.2⟩,fun _ => cons_ne_nil _ _⟩,?_⟩
      · simpa [any_eq_true] using counted.1
      · intro usage mem
        cases mem_singleton.mp mem
        exact ⟨rfl,rfl,fun cached => capCached_le⟩
    · rename_i notCounted
      refine ⟨Nat.zero_le 1,⟨fun some => absurd rfl some,?_⟩,nofun⟩
      rintro ⟨_,same,signal,some⟩
      cases same
      exact absurd ⟨by simpa [any_eq_true] using signal,some⟩ notCounted

def promptFrame (literal : String) : Json :=
  .obj [("choices",.arr []),("usage",.obj [("prompt_tokens",.number literal.toList)])]

def reportEnv (literal : String) :
    StreamEnv := ⟨fun _ => some (promptFrame literal),[],fun _ => true⟩

/-- A frame and the done marker, cut inside the frame and inside the marker. -/
def splitReport : List Arrival :=
  let stream := eventBytes [65] .lf ++ eventBytes doneMarker .crlf
  [.bytes (stream.take 3),.bytes ((stream.drop 3).take 14),.bytes (stream.drop 17)]

theorem reported_prompt_is_billed :
    (runStream (reportEnv "12") splitReport).published ≠ [] ∧
      (runStream (reportEnv "12") splitReport).published.length ≤ 1 ∧
      ∀ usage ∈ (runStream (reportEnv "12") splitReport).published, usage.promptTokens = 12 := by
  obtain ⟨once,exactly,counters⟩ := usage_event_exact (reportEnv "12") splitReport
  have last :
      (lastReported promptCounter (readStream (reportEnv "12") splitReport).1).getD 0 = 12 := by
    decide +kernel
  refine ⟨exactly.mpr ⟨.providerDone,by decide +kernel,.inl rfl,.inl ?_⟩,
    once,fun usage mem => ?_⟩
  · rw [last]
    decide
  · exact (counters usage mem).1.trans last

/-- An integer beyond the range of an `i64` is not read at all: the frame reports
    2^63 prompt tokens, which clamp to the largest `i32`, and nothing is published. -/
theorem huge_report_is_not_billed :
    (readStream (reportEnv "9223372036854775808") splitReport).2 = some .providerDone ∧
      (readStream (reportEnv "9223372036854775808") splitReport).1.map
        (fun json => (promptCounter json).bind Json.asInteger) = [some (2 ^ 63)] ∧
      clampTokens (2 ^ 63) = 2147483647 ∧
      (runStream (reportEnv "9223372036854775808") splitReport).published = [] := by
  refine ⟨?_,?_,?_,?_⟩ <;> decide +kernel

end OpenSecret.Completions
