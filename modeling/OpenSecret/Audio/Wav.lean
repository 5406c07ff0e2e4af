import OpenSecret.Encrypt
import OpenSecret.Foundation.ByteRanges
import OpenSecret.Foundation.Loops

/-!
`audio_utils.rs`: splitting a WAV file into windows of bounded size. Slices and
indices out of range panic, and so does an addition that exceeds `usize`. The
rounded overlap comes from floating-point numbers and is any number here; times are
kept as byte offsets with their rate.
-/
namespace OpenSecret.Audio
open Framing ByteRanges Loops

def usizeMax : Nat := 2 ^ 64 - 1
def minWavHeaderSize : Nat := 44

def riffId : Bytes := utf8 "RIFF"
def waveId : Bytes := utf8 "WAVE"
def fmtId : Bytes := utf8 "fmt "
def dataId : Bytes := utf8 "data"

/-- A slice of the language has at most `isize::MAX` bytes. -/
structure ByteSlice where
  bytes : Bytes
  sized : bytes.length < 2 ^ 63

inductive WavError where
  | tooSmall
  | notWav
  | chunkOverflow
  | positionOverflow
  | paddingOverflow
  | noFmt
  | noData
  | fmtTooSmall
  | fmtExceeds
  | dataExceeds
  | dataOffset
  | zeroBlockAlign
  | zeroRate
  | headerTooLarge (overhead maxChunkSize : Nat)
  | belowOneFrame
  | nonProgressing
  deriving DecidableEq, Repr

def WavError.display : WavError → Text
  | .tooSmall => "Invalid WAV file: too small (minimum 44 bytes required)"
  | .notWav => "Not a valid WAV file"
  | .chunkOverflow => "Invalid WAV file: chunk size would cause overflow"
  | .positionOverflow => "Invalid WAV file: position overflow"
  | .paddingOverflow => "Invalid WAV file: position overflow with padding"
  | .noFmt => "WAV file has no fmt chunk"
  | .noData => "WAV file has no data chunk"
  | .fmtTooSmall => "WAV fmt chunk too small"
  | .fmtExceeds => "WAV fmt chunk exceeds file length"
  | .dataExceeds => "WAV file data chunk exceeds file length"
  | .dataOffset => "Invalid WAV file: data chunk offset too small"
  | .zeroBlockAlign => "Invalid WAV file: block_align is zero"
  | .zeroRate => "Invalid WAV file: bytes_per_second is zero"
  | .headerTooLarge overhead maxChunkSize =>
    "WAV file header too large for chunking: ".toList ++ Nat.toDigits 10 overhead ++
      " bytes (max chunk size: ".toList ++ Nat.toDigits 10 maxChunkSize ++ " bytes)".toList
  | .belowOneFrame => "Computed chunk size is smaller than one audio frame; increase max_chunk_size"
  | .nonProgressing => "Split produced a non-progressing window; check max_chunk_size/overlap"

section
variable {ε : Type}

def slice (bytes : Bytes) (lo hi : Nat) : Outcome ε Bytes :=
  if lo ≤ hi ∧ hi ≤ bytes.length then .ok (range bytes lo hi) else .error .panicked

def index (bytes : Bytes) (i : Nat) : Outcome ε UInt8 :=
  match bytes[i]? with
  | some b => .ok b
  | none => .error .panicked

def add (a b : Nat) : Outcome ε Nat := if a + b ≤ usizeMax then .ok (a + b) else .error .panicked

def checkedAdd (a b : Nat) : Option Nat := if a + b ≤ usizeMax then some (a + b) else none

def saturatingAdd (a b : Nat) : Nat := min (a + b) usizeMax

/-- `from_le_bytes` of the bytes from `i` on, each one indexed. -/
def leAt (bytes : Bytes) : (width i : Nat) → Outcome ε Nat
  | 0, _ => .ok 0
  | width + 1, i => do
    let low ← index bytes i
    let high ← leAt bytes width (i + 1)
    return low.toNat + 256 * high

end

/-- Where the chunks were found, zero for not yet. -/
structure Found where
  dataStart : Nat
  dataSize : Nat
  fmtPos : Nat
  fmtSize : Nat
  deriving DecidableEq

def Found.note (f : Found) (pos : Nat) (chunkId : Bytes) (chunkSize : Nat) : Found :=
  if chunkId = fmtId then { f with fmtPos := pos + 8, fmtSize := chunkSize }
  else if chunkId = dataId then { f with dataStart := pos + 8, dataSize := chunkSize }
  else f

def Found.both (f : Found) : Prop := f.fmtPos ≠ 0 ∧ f.dataStart ≠ 0

instance (f : Found) : Decidable f.both := inferInstanceAs (Decidable (_ ∧ _))

structure Scan where
  pos : Nat
  found : Found

def nextPosition (pos chunkSize : Nat) : Outcome WavError Nat :=
  match checkedAdd pos 8 with
  | none => .error (.error .positionOverflow)
  | some p => match checkedAdd p chunkSize with
    | none => .error (.error .chunkOverflow)
    | some next => .ok next

def scanBody (audioData : Bytes) (s : Scan) : Outcome WavError (Next Scan Found) := do
  let headerEnd ← add s.pos 8
  if headerEnd ≤ audioData.length then
    let chunkId ← slice audioData s.pos (s.pos + 4)
    let chunkSize ← leAt audioData 4 (s.pos + 4)
    let found := s.found.note s.pos chunkId chunkSize
    if found.both then
      return .done found
    else
      let nextPos ← nextPosition s.pos chunkSize
      if nextPos > audioData.length then
        return .done found
      else if chunkSize % 2 = 1 then
        match checkedAdd nextPos 1 with
        | none => .error (.error .paddingOverflow)
        | some pos => return .more ⟨pos,found⟩
      else
        return .more ⟨nextPos,found⟩
  else
    return .done s.found

theorem nextPosition_ok {pos chunkSize next : Nat} (found : nextPosition pos chunkSize = .ok next) :
    next = pos + 8 + chunkSize := by
  unfold nextPosition checkedAdd at found
  split at found
  · cases found
  · rename_i p first
    split at found
    · cases found
    · rename_i n second
      split at first
      · split at second
        · cases found
          cases first
          cases second
          rfl
        · cases second
      · cases first

theorem scanBody_falls (audioData : Bytes) :
    Falls (scanBody audioData) fun s => audioData.length - s.pos := by
  intro s t goes
  obtain ⟨headerEnd,added,goes⟩ := bind_eq_ok.mp goes
  have sum : headerEnd = s.pos + 8 := by
    unfold add at added
    split at added <;> cases added
    rfl
  split at goes
  · rename_i inside
    obtain ⟨chunkId,_,goes⟩ := bind_eq_ok.mp goes
    obtain ⟨chunkSize,_,goes⟩ := bind_eq_ok.mp goes
    dsimp only at goes
    split at goes
    · cases goes
    · obtain ⟨nextPos,next,goes⟩ := bind_eq_ok.mp goes
      have further := nextPosition_ok next
      split at goes
      · cases goes
      · split at goes
        · split at goes
          · cases goes
          · rename_i pos padded
            unfold checkedAdd at padded
            split at padded <;> cases padded
            cases goes
            dsimp only
            omega
        · cases goes
          dsimp only
          omega
  · cases goes

def scan (audioData : Bytes) : Outcome WavError Found :=
  loop (scanBody audioData) _ (scanBody_falls audioData) ⟨12,⟨0,0,0,0⟩⟩

structure WavFormat where
  channels : Nat
  sampleRate : Nat
  bytesPerSecond : Nat
  blockAlign : Nat
  deriving DecidableEq

structure Wav where
  header : Bytes
  audioSamples : Bytes
  format : WavFormat
  deriving DecidableEq

def readFormat (fmtData : Bytes) : Outcome WavError WavFormat := do
  let channels ← leAt fmtData 2 2
  let sampleRate ← leAt fmtData 4 4
  let bytesPerSecond ← leAt fmtData 4 8
  let blockAlign ← leAt fmtData 2 12
  if blockAlign = 0 then .error (.error .zeroBlockAlign)
  else if bytesPerSecond = 0 then .error (.error .zeroRate)
  else return ⟨channels,sampleRate,bytesPerSecond,blockAlign⟩

/-- The chunks as they were found, with the checks of `split_wav`. -/
def readFound (audioData : Bytes) (s : Found) : Outcome WavError Wav := do
  if s.fmtPos = 0 then .error (.error .noFmt)
  else if s.dataStart = 0 then .error (.error .noData)
  else if s.fmtSize < 16 then .error (.error .fmtTooSmall)
  else
    let fmtEnd ← add s.fmtPos s.fmtSize
    if fmtEnd > audioData.length then .error (.error .fmtExceeds)
    else
      let dataEnd ← add s.dataStart s.dataSize
      if dataEnd > audioData.length then .error (.error .dataExceeds)
      else if s.dataStart < 8 then .error (.error .dataOffset)
      else
        let header ← slice audioData 0 (s.dataStart - 8)
        let audioSamples ← slice audioData s.dataStart dataEnd
        let fmtData ← slice audioData s.fmtPos fmtEnd
        let format ← readFormat fmtData
        return ⟨header,audioSamples,format⟩

def readWav (audioData : ByteSlice) : Outcome WavError Wav := do
  if audioData.bytes.length < minWavHeaderSize then .error (.error .tooSmall)
  else
    let riff ← slice audioData.bytes 0 4
    let wave ← slice audioData.bytes 8 12
    if riff ≠ riffId ∨ wave ≠ waveId then .error (.error .notWav)
    else
      let found ← scan audioData.bytes
      readFound audioData.bytes found

/-- A byte offset in the samples, as a time. -/
structure Instant where
  bytes : Nat
  bytesPerSecond : Nat
  deriving DecidableEq

structure AudioChunk where
  data : Bytes
  startTime : Instant
  endTime : Instant
  index : Nat
  deriving DecidableEq

/-- `roundedOverlap` is the overlap in bytes at a rate, rounded, before alignment. -/
structure AudioSplitter where
  maxChunkSize : Nat
  roundedOverlap : (bytesPerSecond : Nat) → Nat

def createWavFromSamples (originalHeader samples : Bytes) : Outcome WavError Bytes :=
  let wav := originalHeader ++ dataId ++ littleEndian 4 (samples.length % 2 ^ 32) ++ samples
  let riffSize := (wav.length - 8) % 2 ^ 32
  -- the eight bytes of the data header are there, so neither the difference nor the range fails
  if 8 ≤ wav.length then .ok (wav.take 4 ++ littleEndian 4 riffSize ++ wav.drop 8)
  else .error .panicked

structure Cut where
  header : Bytes
  audioSamples : Bytes
  bytesPerSecond : Nat
  chunkDurationBytes : Nat
  overlapBytes : Nat

structure Cutting where
  offset : Nat
  index : Nat
  chunks : List AudioChunk

def Cut.start (c : Cut) (s : Cutting) : Nat :=
  if s.index > 0 ∧ s.offset ≥ c.overlapBytes then s.offset - c.overlapBytes else s.offset

def Cut.stop (c : Cut) (s : Cutting) : Nat :=
  min (saturatingAdd (c.start s) c.chunkDurationBytes) c.audioSamples.length

def windowBody (c : Cut) (s : Cutting) : Outcome WavError (Next Cutting (List AudioChunk)) :=
  if s.offset < c.audioSamples.length then
    if c.stop s ≤ s.offset then .error (.error .nonProgressing)
    else do
      let chunkSamples ← slice c.audioSamples (c.start s) (c.stop s)
      let chunkWav ← createWavFromSamples c.header chunkSamples
      return .more ⟨c.stop s,s.index + 1,
        s.chunks ++ [⟨chunkWav,⟨c.start s,c.bytesPerSecond⟩,⟨c.stop s,c.bytesPerSecond⟩,s.index⟩]⟩
  else return .done s.chunks

theorem windowBody_falls (c : Cut) :
    Falls (windowBody c) fun s => c.audioSamples.length - s.offset := by
  intro s t goes
  unfold windowBody at goes
  split at goes
  · rename_i inside
    split at goes
    · cases goes
    · rename_i further
      obtain ⟨chunkSamples,_,goes⟩ := bind_eq_ok.mp goes
      obtain ⟨chunkWav,_,goes⟩ := bind_eq_ok.mp goes
      cases goes
      dsimp only
      omega
  · cases goes

def windows (c : Cut) : Outcome WavError (List AudioChunk) :=
  loop (windowBody c) _ (windowBody_falls c) ⟨0,0,[]⟩

def alignedOverlap (self : AudioSplitter) (format : WavFormat) : Nat :=
  self.roundedOverlap format.bytesPerSecond / format.blockAlign * format.blockAlign

def splitWav (self : AudioSplitter) (audioData : ByteSlice) :
    Outcome WavError (List AudioChunk) := do
  let wav ← readWav audioData
  let headerOverhead ← add wav.header.length 8
  if self.maxChunkSize < headerOverhead then
    .error (.error (.headerTooLarge headerOverhead self.maxChunkSize))
  else
    let available := self.maxChunkSize - headerOverhead
    let chunkDurationBytes := available / wav.format.blockAlign * wav.format.blockAlign
    if chunkDurationBytes < wav.format.blockAlign then .error (.error .belowOneFrame)
    else
      let overlapBytes := alignedOverlap self wav.format
      let overlapBytes := if overlapBytes ≥ chunkDurationBytes then 0 else overlapBytes
      windows ⟨wav.header,wav.audioSamples,wav.format.bytesPerSecond,
        chunkDurationBytes,overlapBytes⟩

def shouldSplit (self : AudioSplitter) (audioData : ByteSlice) : Bool :=
  decide (self.maxChunkSize < audioData.bytes.length)

/-- The whole file; its duration is not known and stands as zero. -/
def singleChunk (audioData : ByteSlice) : AudioChunk := ⟨audioData.bytes,⟨0,1⟩,⟨0,1⟩,0⟩

def splitAudio (self : AudioSplitter) (audioData : ByteSlice) (contentType : Text) :
    Outcome WavError (List AudioChunk) :=
  if shouldSplit self audioData = false then .ok [singleChunk audioData]
  else if contentType = "audio/wav" ∨ contentType = "audio/wave" then
    splitWav self audioData
  else .ok [singleChunk audioData]

end OpenSecret.Audio
