import OpenSecret.Audio.Windows
import OpenSecret.Foundation.Json
import OpenSecret.Foundation.Keyset
import Mathlib.Algebra.Order.Field.Rat

/-!
Transcription of a file in chunks. The handler in `openai.rs` keeps each answer with the
index of its chunk, and `merge_transcriptions` puts the answers together. Times are exact
here; how the JSON library reads one is a parameter.
-/
namespace OpenSecret.Audio
open Framing Keyset List

structure TranscriptionSegment where
  text : Text
  start : Option ℚ
  endTime : Option ℚ
  chunkIndex : Nat
  deriving DecidableEq

structure MergedTranscription where
  text : Text
  segments : Option (List TranscriptionSegment)
  language : Option Text

structure Merging where
  mergedText : Text
  allSegments : List TranscriptionSegment
  detectedLanguage : Option Text

section
variable (asF64 : Json → Option ℚ)

/-- The segments that one result lists; what is no object is skipped. -/
def resultSegments (chunkIndex : Nat) (result : Json) : List TranscriptionSegment :=
  (((result.get "segments").bind Json.asArray).getD []).filterMap fun segment =>
    if segment.isObject then
      some ⟨(segment.text "text").getD [],(segment.get "start").bind asF64,
        (segment.get "end").bind asF64,chunkIndex⟩
    else none

def mergeResult (m : Merging) (result : Nat × Json) : Merging where
  mergedText :=
    match result.2.text "text" with
    | some text => (if m.mergedText = [] then [] else m.mergedText ++ [' ']) ++ text
    | none => m.mergedText
  allSegments := m.allSegments ++ resultSegments asF64 result.1 result.2
  detectedLanguage := m.detectedLanguage.or (result.2.text "language")

def mergeTranscriptions (results : List (Nat × Json)) : Except Text MergedTranscription :=
  if results.isEmpty then .error "No transcription results to merge"
  else
    let merged := (OrderBy.stable.sort (·.1) results).foldl (mergeResult asF64) ⟨[],[],none⟩
    .ok ⟨merged.mergedText,if merged.allSegments.isEmpty then none
      else some merged.allSegments,merged.detectedLanguage⟩

inductive TranscriptionResponse where
  | answer (result : Json)
  | merged (transcription : MergedTranscription)

/-- The response to the results of all chunks; without one it is an internal error. -/
def transcriptionResponse (results : List (Nat × Json)) : Option TranscriptionResponse :=
  match results with
  | [] => none
  | [(_,result)] => some (.answer result)
  | results => ((mergeTranscriptions asF64 results).map .merged).toOption

def TranscriptionResponse.segments : TranscriptionResponse → List TranscriptionSegment
  | .answer result => resultSegments asF64 0 result
  | .merged transcription => transcription.segments.getD []

end

def Instant.seconds (t : Instant) : ℚ := t.bytes / t.bytesPerSecond

def TranscriptionSegment.shift (time : ℚ) (s : TranscriptionSegment) : TranscriptionSegment :=
  { s with start := s.start.map (· + time), endTime := s.endTime.map (· + time) }

/-- The segments of all chunks, with the times they have in the file. -/
def shiftedSegments (asF64 : Json → Option ℚ) (answer : Nat → Json) (chunks : List AudioChunk) :
    List TranscriptionSegment :=
  chunks.flatMap fun c => (resultSegments asF64 c.index (answer c.index)).map
    (·.shift c.startTime.seconds)

def TranscriptionSegment.Untimed (s : TranscriptionSegment) :
    Prop := s.start = none ∧ s.endTime = none

section
variable {asF64 : Json → Option ℚ} {self : AudioSplitter} {audioData : ByteSlice}
  {chunks : List AudioChunk}
  {results : List (Nat × Json)} {contentType : Text}

theorem shift_eq_iff {time : ℚ} {s : TranscriptionSegment} :
    s = s.shift time ↔ time = 0 ∨ s.Untimed := by
  have moved : ∀ t : Option ℚ, t = t.map (· + time) ↔ time = 0 ∨ t = none := by
    intro t
    cases t <;> simp
  obtain ⟨text,start,endTime,chunkIndex⟩ := s
  simp only [TranscriptionSegment.shift, TranscriptionSegment.mk.injEq, moved, true_and, and_true,
    TranscriptionSegment.Untimed]
  tauto

theorem allSegments_foldl (asF64 : Json → Option ℚ) (results : List (Nat × Json)) (m : Merging) :
    (results.foldl (mergeResult asF64) m).allSegments =
      m.allSegments ++ results.flatMap fun result => resultSegments asF64 result.1 result.2 := by
  induction results generalizing m with
  | nil => exact (append_nil _).symm
  | cons result rest ih => rw [foldl_cons, ih, flatMap_cons, ← append_assoc]; rfl

/-- Chunks are numbered as they come, and all but the first start after the beginning. -/
theorem splitWav_starts (split : splitWav self audioData = .ok chunks) :
    chunks.map AudioChunk.index = List.range chunks.length ∧
      ∀ chunk ∈ chunks, chunk.startTime.seconds = 0 ↔ chunk.index = 0 := by
  rcases splitWav_cases self audioData with ⟨e,refused,-⟩ | ⟨wav,n,read,-,sound,-,emitted⟩
  · rw [refused] at split
    cases split
  rw [emitted] at split
  cases split
  have rate : wav.format.bytesPerSecond ≠ 0 := by
    obtain ⟨rfl,-,readable⟩ := readWav_ok read
    exact readable.rate
  have stride : (cutOf self wav).stride ≠ 0 := Nat.sub_ne_zero_of_lt sound.overlap
  constructor
  · rw [map_map, length_map, length_range]
    exact map_id _
  · intro chunk mem
    obtain ⟨k,-,rfl⟩ := mem_map.mp mem
    change ((k * (cutOf self wav).stride : Nat) / (wav.format.bytesPerSecond : ℚ) = 0) ↔ k = 0
    rw [div_eq_zero_iff, Nat.cast_eq_zero, Nat.cast_eq_zero, Nat.mul_eq_zero]
    tauto

theorem splitAudio_starts (split : splitAudio self audioData contentType = .ok chunks) :
    chunks.map AudioChunk.index = List.range chunks.length ∧
      ∀ chunk ∈ chunks, chunk.startTime.seconds = 0 ↔ chunk.index = 0 := by
  have single : ([singleChunk audioData].map AudioChunk.index = List.range 1 ∧
      ∀ chunk ∈ [singleChunk audioData], chunk.startTime.seconds = 0 ↔ chunk.index = 0) := by
    simp [singleChunk, Instant.seconds]
  unfold splitAudio at split
  split at split
  · cases split
    exact single
  · split at split
    · exact splitWav_starts split
    · cases split
      exact single

theorem sort_results {answer : Nat → Json}
    (numbered : chunks.map AudioChunk.index = List.range chunks.length)
    (same : results.Perm (chunks.map fun c => (c.index,answer c.index))) :
    OrderBy.stable.sort (·.1) results = chunks.map fun c => (c.index,answer c.index) := by
  have keys : (chunks.map fun c => (c.index,answer c.index)).map (·.1) =
      List.range chunks.length := by
    rw [map_map]
    exact numbered
  refine sort_eq_of_perm _ ?_ same.symm ?_
  · rw [(same.map _).nodup_iff, keys]
    exact nodup_range
  · rw [← pairwise_map, keys]
    exact pairwise_lt_range.imp le_of_lt

/-- Whatever the order of the results, their segments come in the order of the chunks. -/
theorem segments_in_order {answer : Nat → Json} {response : TranscriptionResponse}
    (numbered : chunks.map AudioChunk.index = List.range chunks.length)
    (same : results.Perm (chunks.map fun c => (c.index,answer c.index)))
    (responded : transcriptionResponse asF64 results = some response) :
    response.segments asF64 = chunks.flatMap fun c =>
      resultSegments asF64 c.index (answer c.index) := by
  unfold transcriptionResponse at responded
  split at responded
  · cases responded
  · rename_i index result
    cases responded
    have alone := singleton_perm.mp same
    obtain ⟨c,rfl,one⟩ := map_eq_singleton_iff.mp alone.symm
    obtain ⟨-,rfl⟩ := Prod.mk.inj one
    have first : c.index = 0 := (cons.inj numbered).1
    simp [TranscriptionResponse.segments, first]
  · rename_i some_result _
    have full : results.isEmpty = false := by
      cases results with
      | nil => exact absurd rfl some_result
      | cons _ _ => rfl
    rw [mergeTranscriptions, full, sort_results numbered same] at responded
    cases responded
    have segments :=
      allSegments_foldl asF64 (chunks.map fun c => (c.index,answer c.index)) ⟨[],[],none⟩
    rw [nil_append, flatMap_map] at segments
    rw [← segments]
    simp only [TranscriptionResponse.segments]
    split
    · rename_i empty
      exact (List.isEmpty_iff.mp empty).symm
    · rfl

end

/-- For every file, split or not, and all answers, in any order: the segments of the response
    come in the order of the chunks with the times that were reported. So they have the times
    of the file if and only if no chunk but the first was answered with a time. -/
theorem merged_times_shifted_iff (asF64 : Json → Option ℚ) {self : AudioSplitter}
    {audioData : ByteSlice} {contentType : Text} {chunks : List AudioChunk}
    (split : splitAudio self audioData contentType = .ok chunks) (answer : Nat → Json)
    {results : List (Nat × Json)}
    (same : results.Perm (chunks.map fun c => (c.index,answer c.index)))
    {response : TranscriptionResponse}
    (responded : transcriptionResponse asF64 results = some response) :
    response.segments asF64 =
      chunks.flatMap (fun c => resultSegments asF64 c.index (answer c.index)) ∧
    (response.segments asF64 = shiftedSegments asF64 answer chunks ↔
      ∀ c ∈ chunks, c.index ≠ 0 → ∀ s ∈ resultSegments asF64 c.index (answer c.index),
        s.Untimed) := by
  obtain ⟨numbered,starts⟩ := splitAudio_starts split
  have order := segments_in_order numbered same responded
  refine ⟨order,?_⟩
  rw [order]
  -- each segment with its chunk: the two lists are two maps of one
  have pairs : ∀ f : AudioChunk → TranscriptionSegment → TranscriptionSegment,
      chunks.flatMap (fun c => (resultSegments asF64 c.index (answer c.index)).map (f c)) =
        (chunks.flatMap fun c => (resultSegments asF64 c.index (answer c.index)).map (c,·)).map
          fun p => f p.1 p.2 := by
    intro f
    simp [map_flatMap, Function.comp_def]
  have reported := pairs fun _ s => s
  simp only [map_id'] at reported
  rw [reported, shiftedSegments, pairs, map_inj_left]
  simp only [mem_flatMap, mem_map, forall_exists_index, and_imp]
  constructor
  · intro alike c mem later s inside
    exact (shift_eq_iff.mp (alike (c,s) c mem s inside rfl)).resolve_left fun zero =>
      later ((starts c mem).mp zero)
  · rintro untimed _ c mem s inside rfl
    refine shift_eq_iff.mpr (or_iff_not_imp_left.mpr fun later => ?_)
    exact untimed c mem (fun first => later ((starts c mem).mpr first)) s inside

def wholeSeconds (json : Json) : Option ℚ := json.asInteger.map Int.cast

/-- In one chunk there is something to hear, right at its start. -/
def heardIn (chunk index : Nat) : Json :=
  if index = chunk then
    .obj [("segments",.arr [.obj [("text",.str "a"),("start",.number "0")]])]
  else .obj []

/-- The second chunk of the sample starts after a second; its segment keeps the time 0. -/
theorem second_chunk_not_shifted :
    ∃ chunks response, splitAudio sampleSplitter sampleWav "audio/wav" = .ok chunks ∧
    transcriptionResponse wholeSeconds (chunks.map fun c => (c.index,heardIn 1 c.index)) =
      some response ∧
    response.segments wholeSeconds ≠ shiftedSegments wholeSeconds (heardIn 1) chunks := by
  have checked : (splitAudio sampleSplitter sampleWav "audio/wav").map (fun chunks =>
      (transcriptionResponse wholeSeconds (chunks.map fun c => (c.index,heardIn 1 c.index))).map
        fun response =>
        decide (response.segments wholeSeconds = shiftedSegments wholeSeconds (heardIn 1) chunks)) =
          .ok (some false) := by
    decide +kernel
  obtain ⟨chunks,split,checked⟩ := map_eq_ok.mp checked
  obtain ⟨response,responded,differ⟩ := Option.map_eq_some_iff.mp checked
  exact ⟨chunks,response,split,responded,of_decide_eq_false differ⟩

theorem first_chunk_shifted :
    ∃ chunks response, splitAudio sampleSplitter sampleWav "audio/wav" = .ok chunks ∧
    transcriptionResponse wholeSeconds (chunks.map fun c => (c.index,heardIn 0 c.index)) =
      some response ∧
    response.segments wholeSeconds = shiftedSegments wholeSeconds (heardIn 0) chunks := by
  have checked : (splitAudio sampleSplitter sampleWav "audio/wav").map (fun chunks =>
      (transcriptionResponse wholeSeconds (chunks.map fun c =>
        (c.index,heardIn 0 c.index))).isSome) = .ok true := by
    decide +kernel
  obtain ⟨chunks,split,checked⟩ := map_eq_ok.mp checked
  obtain ⟨response,responded⟩ := Option.isSome_iff_exists.mp checked
  refine ⟨chunks,response,split,responded,?_⟩
  refine (merged_times_shifted_iff wholeSeconds split (heardIn 0) (.refl _) responded).2.mpr ?_
  intro c _ later s inside
  rw [heardIn, if_neg later] at inside
  cases inside

end OpenSecret.Audio
