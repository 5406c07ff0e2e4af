import OpenSecret.Audio.Riff

/-!
The windows of `split_wav` in closed form: each starts one stride after the last,
where the stride is the window less the overlap. The loop emits them up to the first
that reaches the end of the samples.
-/
namespace OpenSecret.Audio
open Framing ByteRanges Loops List

def unpatched (header samples : Bytes) : Bytes :=
  header ++ dataId ++ littleEndian 4 (samples.length % 2 ^ 32) ++ samples

/-- The RIFF size is written over that of the original header. -/
def wavBytes (header samples : Bytes) : Bytes :=
  (unpatched header samples).take 4 ++
    littleEndian 4 (((unpatched header samples).length - 8) % 2 ^ 32) ++
    (unpatched header samples).drop 8

theorem length_unpatched (header samples : Bytes) :
    (unpatched header samples).length = header.length + 8 + samples.length := by
  have four : dataId.length = 4 := by decide
  simp only [unpatched, length_append, littleEndian_length, four]

theorem createWavFromSamples_ok (header samples : Bytes) :
    createWavFromSamples header samples = .ok (wavBytes header samples) := by
  have long : 8 ≤ (unpatched header samples).length := by
    rw [length_unpatched]
    omega
  exact if_pos long

theorem length_wavBytes (header samples : Bytes) :
    (wavBytes header samples).length = header.length + 8 + samples.length := by
  rw [wavBytes, length_append, length_append, length_take, length_drop,
    littleEndian_length, length_unpatched]
  omega

/-- A cut whose windows are longer than their overlap, of a slice of the language. -/
structure Cut.Sound (c : Cut) : Prop where
  overlap : c.overlapBytes < c.chunkDurationBytes
  sized : c.audioSamples.length < 2 ^ 63

namespace Cut
variable (c : Cut) (k : Nat)

def stride : Nat := c.chunkDurationBytes - c.overlapBytes

def first : Nat := k * c.stride

def last : Nat := min (c.first k + c.chunkDurationBytes) c.audioSamples.length

def window : AudioChunk where
  data := wavBytes c.header (range c.audioSamples (c.first k) (c.last k))
  startTime := ⟨c.first k,c.bytesPerSecond⟩
  endTime := ⟨c.last k,c.bytesPerSecond⟩
  index := k

def before : Cutting :=
  ⟨if k = 0 then 0 else c.last (k - 1),k,(List.range k).map c.window⟩

/-- No window before number `k` but the last reaches the end. -/
def Reaches : Prop := ∀ j, j + 1 < k → c.last j < c.audioSamples.length

def Complete : Prop := c.Reaches k ∧ c.audioSamples.length ≤ (c.before k).offset

end Cut

section
variable {c : Cut} {k : Nat}

theorem first_succ (sound : c.Sound) :
    c.first (k + 1) + c.overlapBytes = c.first k + c.chunkDurationBytes := by
  have shorter := sound.overlap
  unfold Cut.first Cut.stride
  rw [Nat.succ_mul]
  omega

theorem last_inner (inner : c.last k < c.audioSamples.length) :
    c.last k = c.first k + c.chunkDurationBytes := by
  unfold Cut.last at inner ⊢
  omega

theorem before_first (sound : c.Sound) (inside : (c.before k).offset < c.audioSamples.length) :
    c.start (c.before k) = c.first k := by
  cases k with
  | zero => simp [Cut.start, Cut.before, Cut.first]
  | succ k =>
    have offset : (c.before (k + 1)).offset = c.last k := rfl
    have index : (c.before (k + 1)).index = k + 1 := rfl
    have full := last_inner (offset ▸ inside)
    have shorter := sound.overlap
    have next := first_succ (k := k) sound
    rw [Cut.start, offset, index, if_pos ⟨by omega,by omega⟩]
    omega

theorem before_last (sound : c.Sound) (inside : (c.before k).offset < c.audioSamples.length) :
    c.stop (c.before k) = c.last k := by
  have sized := sound.sized
  have above : 2 ^ 63 ≤ usizeMax := by decide
  rw [Cut.stop, before_first sound inside, Cut.last, saturatingAdd]
  omega

theorem last_progress (sound : c.Sound) (inside : (c.before k).offset < c.audioSamples.length) :
    (c.before k).offset < c.last k := by
  have shorter := sound.overlap
  cases k with
  | zero =>
    have offset : (c.before 0).offset = 0 := rfl
    rw [offset] at inside ⊢
    unfold Cut.last
    omega
  | succ k =>
    have offset : (c.before (k + 1)).offset = c.last k := rfl
    rw [offset] at inside ⊢
    have next := first_succ (k := k) sound
    unfold Cut.last at inside ⊢
    omega

theorem windowBody_more (sound : c.Sound) (inside : (c.before k).offset < c.audioSamples.length) :
    windowBody c (c.before k) = .ok (.more (c.before (k + 1))) := by
  have progress := last_progress sound inside
  have ordered : c.first k ≤ c.last k := by
    have start := before_first sound inside
    unfold Cut.start at start
    split at start <;> omega
  have fits : c.last k ≤ c.audioSamples.length := Nat.min_le_right _ _
  rw [windowBody, if_pos inside, before_last sound inside, if_neg (by omega),
    before_first sound inside,
    slice_ok ordered fits, ok_bind, createWavFromSamples_ok, ok_bind]
  have chunks : (c.before (k + 1)).chunks = (c.before k).chunks ++ [c.window k] := by
    simp [Cut.before, range_succ]
  have next : c.before (k + 1) = ⟨c.last k,k + 1,(c.before k).chunks ++ [c.window k]⟩ := by
    rw [← chunks]
    rfl
  rw [next]
  rfl

/-- From each of its states on, the loop emits the rest of the windows. -/
def Emits (c : Cut) (s : Cutting) (result : Outcome WavError (List AudioChunk)) : Prop :=
  ∀ k, s = c.before k → c.Reaches k → ∃ n, c.Complete n ∧ result = .ok ((List.range n).map c.window)

theorem windows_emits (sound : c.Sound) :
    ∃ n, c.Complete n ∧ windows c = .ok ((List.range n).map c.window) := by
  have emits : Emits c ⟨0,0,[]⟩ (windows c) := by
    refine loop_rule ?_ ?_ ?_ _
    · rintro s chunks ends k rfl reaches
      by_cases inside : (c.before k).offset < c.audioSamples.length
      · cases (windowBody_more sound inside).symm.trans ends
      · rw [windowBody, if_neg inside] at ends
        cases ends
        exact ⟨k,⟨reaches,Nat.not_lt.mp inside⟩,rfl⟩
    · rintro s e fails k rfl reaches
      by_cases inside : (c.before k).offset < c.audioSamples.length
      · cases (windowBody_more sound inside).symm.trans fails
      · rw [windowBody, if_neg inside] at fails
        cases fails
    · rintro s t result goes later k rfl reaches
      by_cases inside : (c.before k).offset < c.audioSamples.length
      · cases (windowBody_more sound inside).symm.trans goes
        refine later (k + 1) rfl ?_
        intro j below
        rcases Nat.lt_or_ge (j + 1) k with earlier | here
        · exact reaches j earlier
        · obtain rfl : k = j + 1 := by omega
          exact inside
      · rw [windowBody, if_neg inside] at goes
        cases goes
  refine emits 0 rfl ?_
  intro j below
  omega

theorem first_aligned {frame : Nat} (window : frame ∣ c.chunkDurationBytes)
    (overlap : frame ∣ c.overlapBytes) (k : Nat) : frame ∣ c.first k :=
  Nat.dvd_mul_left_of_dvd (Nat.dvd_sub window overlap) k

theorem windows_cover (complete : c.Complete k) (sound : c.Sound) {i : Nat}
    (inside : i < c.audioSamples.length) : ∃ j < k, c.first j ≤ i ∧ i < c.last j := by
  -- Up to each window number the windows before it cover what lies before its start.
  have upTo : ∀ n, (∀ j, j + 1 < n → c.last j < c.audioSamples.length) → i < (c.before n).offset →
      ∃ j < n, c.first j ≤ i ∧ i < c.last j := by
    intro n
    induction n with
    | zero =>
      intro _ none
      cases none
    | succ n ih =>
      intro reaches below
      by_cases earlier : i < (c.before n).offset
      · obtain ⟨j,low,covers⟩ := ih (fun j low => reaches j (by omega)) earlier
        exact ⟨j,by omega,covers⟩
      · refine ⟨n,by omega,?_,below⟩
        cases n with
        | zero =>
          have zero : c.first 0 = 0 := Nat.zero_mul _
          omega
        | succ n =>
          have offset : (c.before (n + 1)).offset = c.last n := rfl
          have full := last_inner (reaches n (by omega))
          have next := first_succ (k := n) sound
          omega
  exact upTo k complete.1 (Nat.lt_of_lt_of_le inside complete.2)

theorem windows_overlap (complete : c.Complete k) (sound : c.Sound) {j : Nat} (low : j + 1 < k) :
    c.first j < c.first (j + 1) ∧ c.first (j + 1) + c.overlapBytes = c.last j ∧
      c.last j < c.last (j + 1) := by
  have inner := complete.1 j low
  have full := last_inner inner
  have next := first_succ (k := j) sound
  have shorter := sound.overlap
  refine ⟨by omega,by omega,?_⟩
  unfold Cut.last at inner ⊢
  omega

end

section
variable (self : AudioSplitter) (wav : Wav)

/-- The whole frames that fit beside the headers. -/
def windowSize : Nat :=
  (self.maxChunkSize - (wav.header.length + 8)) / wav.format.blockAlign * wav.format.blockAlign

/-- The requested overlap in whole frames, or none if a window cannot hold it. -/
def overlapSize : Nat :=
  if alignedOverlap self wav.format ≥ windowSize self wav then 0 else alignedOverlap self wav.format

def cutOf : Cut :=
  ⟨wav.header,wav.audioSamples,wav.format.bytesPerSecond,windowSize self wav,overlapSize self wav⟩

variable {self wav} {audioData : ByteSlice} {chunks : List AudioChunk}

theorem cutOf_sound (sized : wav.audioSamples.length < 2 ^ 63) (frames : wav.format.blockAlign ≠ 0)
    (oneFrame : wav.format.blockAlign ≤ windowSize self wav) : (cutOf self wav).Sound := by
  refine ⟨?_,sized⟩
  change overlapSize self wav < windowSize self wav
  unfold overlapSize
  split
  · omega
  · omega

theorem overlapSize_aligned : wav.format.blockAlign ∣ overlapSize self wav := by
  unfold overlapSize
  split
  · exact Nat.dvd_zero _
  · exact Nat.dvd_mul_left _ _

theorem readWav_sizes (read : readWav audioData = .ok wav) :
    wav.header.length + 8 + wav.audioSamples.length ≤ audioData.bytes.length ∧
      12 ≤ wav.header.length ∧ wav.format.blockAlign ≠ 0 := by
  obtain ⟨rfl,_,readable⟩ := readWav_ok read
  obtain ⟨data,mem,_,start,_⟩ := (scanned_from audioData.bytes).data readable.both.2
  obtain ⟨after,_,_⟩ := chunksFrom_pos mem
  have fits := readable.dataFits
  change (located audioData.bytes).dataStart = data.pos + 8 at start
  have header : (range audioData.bytes 0 ((located audioData.bytes).dataStart - 8)).length = _ :=
    length_range (by omega)
  have samples : (range audioData.bytes (located audioData.bytes).dataStart
      ((located audioData.bytes).dataStart + (located audioData.bytes).dataSize)).length = _ :=
    length_range fits
  refine ⟨?_,?_,readable.frames⟩
  · change (range _ _ _).length + 8 + (range _ _ _).length ≤ _
    rw [header, samples]
    omega
  · change 12 ≤ (range _ _ _).length
    rw [header]
    omega

theorem splitWav_eq (read : readWav audioData = .ok wav) : splitWav self audioData =
    if self.maxChunkSize < wav.header.length + 8 then
      .error (.error (.headerTooLarge (wav.header.length + 8) self.maxChunkSize))
    else if windowSize self wav < wav.format.blockAlign then .error (.error .belowOneFrame)
    else windows (cutOf self wav) := by
  obtain ⟨fits,_⟩ := readWav_sizes read
  have sized := audioData.sized
  have above : 2 ^ 63 + 2 ^ 63 = usizeMax + 1 := by decide
  rw [splitWav, read, ok_bind, add_ok (by omega), ok_bind]
  rfl

theorem splitWav_cases (self : AudioSplitter) (audioData : ByteSlice) :
    Refused (splitWav self audioData) ∨ ∃ wav n, readWav audioData = .ok wav ∧
      wav.header.length + 8 ≤ self.maxChunkSize ∧ (cutOf self wav).Sound ∧
        (cutOf self wav).Complete n ∧
      splitWav self audioData = .ok ((List.range n).map (cutOf self wav).window) := by
  rcases readWav_cases audioData with ⟨read,_⟩ | ⟨_,e,failed,other⟩
  · generalize (located audioData.bytes).wav audioData.bytes = wav at read
    obtain ⟨fits,_,frames⟩ := readWav_sizes read
    have sized := audioData.sized
    have split : splitWav self audioData = _ := splitWav_eq read
    by_cases room : self.maxChunkSize < wav.header.length + 8
    · rw [if_pos room] at split
      exact .inl ⟨_,split,nofun⟩
    rw [if_neg room] at split
    by_cases small : windowSize self wav < wav.format.blockAlign
    · rw [if_pos small] at split
      exact .inl ⟨_,split,nofun⟩
    rw [if_neg small] at split
    have sound : (cutOf self wav).Sound := cutOf_sound (by omega) frames (Nat.not_lt.mp small)
    obtain ⟨n,complete,emitted⟩ := windows_emits sound
    exact .inr ⟨wav,n,read,Nat.not_lt.mp room,sound,complete,split.trans emitted⟩
  · refine .inl ⟨e,?_,other⟩
    rw [splitWav, failed]
    rfl

theorem window_fits (room : wav.header.length + 8 ≤ self.maxChunkSize) (k : Nat) :
    ((cutOf self wav).window k).data.length ≤ self.maxChunkSize := by
  have size : windowSize self wav ≤ self.maxChunkSize - (wav.header.length + 8) :=
    Nat.div_mul_le_self _ _
  have length :
    (range wav.audioSamples ((cutOf self wav).first k) ((cutOf self wav).last k)).length =
      (cutOf self wav).last k - (cutOf self wav).first k := length_range (Nat.min_le_right _ _)
  have short : (cutOf self wav).last k - (cutOf self wav).first k ≤ windowSize self wav := by
    have stops : (cutOf self wav).last k ≤ (cutOf self wav).first k + windowSize self wav :=
      Nat.min_le_left _ _
    omega
  change (wavBytes wav.header _).length ≤ _
  rw [length_wavBytes]
  change _ + 8 + (range wav.audioSamples _ _).length ≤ _
  omega

/-- For every file, chunk size and overlap: splitting never panics and every window
    makes progress. The windows of a file that is split start at whole frames, cover
    all samples, overlap by the overlap size, and fit with their header. -/
theorem wav_windows_cover (self : AudioSplitter) (audioData : ByteSlice) :
    splitWav self audioData ≠ .error .panicked ∧
    splitWav self audioData ≠ .error (.error .nonProgressing) ∧
    ∀ chunks, splitWav self audioData = .ok chunks → ∃ wav, readWav audioData = .ok wav ∧
      (∀ chunk ∈ chunks, wav.format.blockAlign ∣ chunk.startTime.bytes ∧
        chunk.data.length ≤ self.maxChunkSize ∧
        createWavFromSamples wav.header
          (range wav.audioSamples chunk.startTime.bytes chunk.endTime.bytes) = .ok chunk.data) ∧
      (∀ i < wav.audioSamples.length, ∃ chunk ∈ chunks, chunk.startTime.bytes ≤ i ∧
        i < chunk.endTime.bytes) ∧
      ∀ k a b, chunks[k]? = some a → chunks[k + 1]? = some b →
        a.startTime.bytes < b.startTime.bytes ∧
        b.startTime.bytes + overlapSize self wav = a.endTime.bytes ∧
          a.endTime.bytes < b.endTime.bytes := by
  rcases splitWav_cases self audioData with ⟨e,refused,other⟩ | ⟨wav,
    n,read,room,sound,complete,split⟩
  · rw [refused]
    refine ⟨nofun,?_,nofun⟩
    intro same
    cases same
    exact other rfl
  · rw [split]
    refine ⟨nofun,nofun,?_⟩
    intro chunks same
    cases same
    refine ⟨wav,read,?_,?_,?_⟩
    · intro chunk mem
      obtain ⟨k,_,rfl⟩ := List.mem_map.mp mem
      refine ⟨first_aligned (Nat.dvd_mul_left _ _) overlapSize_aligned k,window_fits room k,?_⟩
      exact createWavFromSamples_ok _ _
    · intro i inside
      obtain ⟨j,low,covers⟩ := windows_cover complete sound inside
      exact ⟨_,List.mem_map.mpr ⟨j,List.mem_range.mpr low,rfl⟩,covers⟩
    · intro k a b here next
      obtain ⟨j,at_,rfl⟩ := Option.map_eq_some_iff.mp (List.getElem?_map ▸ here)
      obtain ⟨m,after,rfl⟩ := Option.map_eq_some_iff.mp (List.getElem?_map ▸ next)
      obtain ⟨_,rfl⟩ := List.getElem?_eq_some_iff.mp at_
      obtain ⟨high,rfl⟩ := List.getElem?_eq_some_iff.mp after
      rw [List.length_range] at high
      rw [List.getElem_range, List.getElem_range]
      exact windows_overlap complete sound high

end

def fmtChunk : Bytes := fmtId ++ littleEndian 4 16 ++ [1,0,1,0,1,0,0,0,2,0,0,0,2,0,16,0]

def dataChunk : Bytes := dataId ++ littleEndian 4 8 ++ [1,2,3,4,5,6,7,8]

def riffOf (chunks : Bytes) :
    Bytes := riffId ++ littleEndian 4 (4 + chunks.length) ++ waveId ++ chunks

def sampleWav : ByteSlice := ⟨riffOf (fmtChunk ++ dataChunk),by decide⟩

/-- Room for two frames in a chunk, and an overlap of one. -/
def sampleSplitter : AudioSplitter := ⟨48,fun _ => 3⟩

theorem sample_windows_cover : ∃ chunks wav, splitWav sampleSplitter sampleWav = .ok chunks ∧
    chunks.map (fun c => (c.startTime.bytes,c.endTime.bytes)) = [(0,4),(2,6),(4,8)] ∧
    readWav sampleWav = .ok wav ∧ ∀ i < wav.audioSamples.length, ∃ chunk ∈ chunks,
      chunk.startTime.bytes ≤ i ∧ i < chunk.endTime.bytes := by
  have split : (splitWav sampleSplitter sampleWav).map
      (fun chunks => chunks.map fun c => (c.startTime.bytes,c.endTime.bytes)) =
        .ok [(0,4),(2,6),(4,8)] := by
    decide +kernel
  obtain ⟨chunks,emitted,places⟩ := map_eq_ok.mp split
  obtain ⟨wav,read,_,cover,_⟩ := (wav_windows_cover sampleSplitter sampleWav).2.2 chunks emitted
  exact ⟨chunks,wav,emitted,places,read,cover⟩

end OpenSecret.Audio
