import OpenSecret.Audio.Wav

/-!
A file as the sequence of its chunks, and the search of `split_wav` as a pass over
that sequence: it notes fmt and data chunks until it has one of each.
-/
namespace OpenSecret.Audio
open Framing ByteRanges Loops
open List hiding range

structure RiffChunk where
  id : Bytes
  pos : Nat
  size : Nat
  deriving DecidableEq

def chunkAt (d : Bytes) (pos : Nat) : RiffChunk :=
  ⟨range d pos (pos + 4),pos,fromLittleEndian (range d (pos + 4) (pos + 8))⟩

namespace RiffChunk

def stop (c : RiffChunk) : Nat := c.pos + 8 + c.size

/-- The chunk after it; a chunk of odd size is padded. -/
def next (c : RiffChunk) : Nat := c.stop + c.size % 2

theorem lt_next (c : RiffChunk) : c.pos + 8 ≤ c.next := by
  unfold next stop
  omega

end RiffChunk

/-- The chunks from a position on; one that exceeds the file is the last. -/
def chunksFrom (d : Bytes) (pos : Nat) : List RiffChunk :=
  if pos + 8 ≤ d.length then
    chunkAt d pos :: if (chunkAt d pos).stop ≤ d.length
      then chunksFrom d (chunkAt d pos).next else []
  else []
termination_by d.length - pos
decreasing_by
  have later : pos + 8 ≤ (chunkAt d pos).next := (chunkAt d pos).lt_next
  omega

def riffChunks (d : Bytes) : List RiffChunk := chunksFrom d 12

def Found.noteChunk (f : Found) (c : RiffChunk) : Found := f.note c.pos c.id c.size

/-- Notes chunks until a fmt and a data chunk are found. -/
def locate : Found → List RiffChunk → Found
  | f, [] => f
  | f, c :: rest => if (f.noteChunk c).both then f.noteChunk c else locate (f.noteChunk c) rest

variable {d : Bytes} {pos : Nat}

theorem chunksFrom_inner (inside : pos + 8 ≤ d.length) (fits : (chunkAt d pos).stop ≤ d.length) :
    chunksFrom d pos = chunkAt d pos :: chunksFrom d (chunkAt d pos).next := by
  rw [chunksFrom, if_pos inside, if_pos fits]

theorem chunksFrom_end (outside : d.length < pos + 8) : chunksFrom d pos = [] := by
  rw [chunksFrom, if_neg (Nat.not_le.mpr outside)]

theorem chunksFrom_eq_cons {c : RiffChunk} {rest : List RiffChunk}
    (shape : chunksFrom d pos = c :: rest) : pos + 8 ≤ d.length ∧ c = chunkAt d pos ∧
      (rest = [] ∨ c.stop ≤ d.length ∧ rest = chunksFrom d c.next) := by
  rw [chunksFrom] at shape
  split at shape
  · rename_i inside
    obtain ⟨rfl,same⟩ := cons.inj shape
    refine ⟨inside,rfl,?_⟩
    split at same
    · rename_i fits
      exact .inr ⟨fits,same.symm⟩
    · exact .inl same.symm
  · cases shape

section
variable {ε : Type} {bytes : Bytes}

theorem ok_bind {α β : Type} (a : α) (f : α → Outcome ε β) : (Except.ok a >>= f) = f a := rfl

theorem slice_ok {lo hi : Nat} (ordered : lo ≤ hi) (inside : hi ≤ bytes.length) :
    (slice bytes lo hi : Outcome ε Bytes) = .ok (range bytes lo hi) := if_pos ⟨ordered,inside⟩

theorem add_ok {a b : Nat} (fits : a + b ≤ usizeMax) :
    (add a b : Outcome ε Nat) = .ok (a + b) := if_pos fits

theorem checkedAdd_some {a b : Nat} (fits : a + b ≤ usizeMax) :
    checkedAdd a b = some (a + b) := if_pos fits

theorem leAt_ok {width i : Nat} (inside : i + width ≤ bytes.length) :
    (leAt bytes width i : Outcome ε Nat) = .ok (fromLittleEndian (range bytes i (i + width))) := by
  induction width generalizing i with
  | zero => simp [leAt, range, fromLittleEndian]
  | succ width ih =>
    obtain ⟨b,here⟩ : ∃ b, bytes[i]? = some b := ⟨_,getElem?_eq_getElem (by omega)⟩
    have first : range bytes i (i + (width + 1)) = b :: range bytes (i + 1) (i + 1 + width) := by
      have steps : i + (width + 1) - i = width + 1 := by omega
      have rest : i + 1 + width - (i + 1) = width := by omega
      rw [range, range, steps, rest, drop_eq_getElem?_toList_append, here]
      rfl
    rw [leAt, index, here, ih (by omega), first]
    rfl

end

section
variable {d : Bytes} {s : Scan}

theorem chunkAt_size (d : Bytes) (pos : Nat) : (chunkAt d pos).size < 2 ^ 32 := by
  have bound := fromLittleEndian_lt (range d (pos + 4) (pos + 8))
  have short : (range d (pos + 4) (pos + 8)).length ≤ 4 := by
    rw [range, length_take]
    omega
  calc (chunkAt d pos).size < 256 ^ (range d (pos + 4) (pos + 8)).length := bound
    _ ≤ 256 ^ 4 := Nat.pow_le_pow_right (by decide) short
    _ = 2 ^ 32 := by decide

/-- A round of the search, without its checks: none of them fails. -/
theorem scanBody_eq (sized : d.length < 2 ^ 63) (low : s.pos ≤ d.length + 1) :
    scanBody d s = if s.pos + 8 ≤ d.length then
      if (s.found.noteChunk (chunkAt d s.pos)).both ∨ d.length < (chunkAt d s.pos).stop then
        .ok (.done (s.found.noteChunk (chunkAt d s.pos)))
      else .ok (.more ⟨(chunkAt d s.pos).next,s.found.noteChunk (chunkAt d s.pos)⟩)
    else .ok (.done s.found) := by
  have small := chunkAt_size d s.pos
  have ends : (chunkAt d s.pos).stop = s.pos + 8 + (chunkAt d s.pos).size := rfl
  have above : 2 ^ 63 + 2 ^ 63 = usizeMax + 1 := by decide
  unfold scanBody
  rw [add_ok (by omega), ok_bind]
  by_cases inside : s.pos + 8 ≤ d.length
  · rw [if_pos inside, if_pos inside, slice_ok (by omega) (by omega),
      ok_bind, leAt_ok (by omega), ok_bind]
    change (if (s.found.noteChunk (chunkAt d s.pos)).both then _ else _) = _
    by_cases both : (s.found.noteChunk (chunkAt d s.pos)).both
    · rw [if_pos both, if_pos (.inl both)]
      rfl
    · have next : nextPosition s.pos (chunkAt d s.pos).size = .ok (chunkAt d s.pos).stop := by
        unfold nextPosition
        rw [checkedAdd_some (by omega)]
        dsimp only
        rw [checkedAdd_some (by omega)]
        rfl
      rw [if_neg both]
      change (nextPosition s.pos (chunkAt d s.pos).size >>= _) = _
      rw [next, ok_bind]
      by_cases beyond : d.length < (chunkAt d s.pos).stop
      · rw [if_pos beyond, if_pos (.inr beyond)]
        rfl
      · rw [if_neg beyond, if_neg (not_or.mpr ⟨both,beyond⟩)]
        change (if (chunkAt d s.pos).size % 2 = 1 then _ else _) = _
        by_cases odd : (chunkAt d s.pos).size % 2 = 1
        · rw [if_pos odd, checkedAdd_some (by omega), RiffChunk.next, odd]
          rfl
        · have even : (chunkAt d s.pos).size % 2 = 0 := by omega
          rw [if_neg odd, RiffChunk.next, even]
          rfl
  · rw [if_neg inside, if_neg inside]
    rfl

def Locates (d : Bytes) (s : Scan) (result : Outcome WavError Found) : Prop :=
  s.pos ≤ d.length + 1 → result = .ok (locate s.found (chunksFrom d s.pos))

theorem scan_eq (sized : d.length < 2 ^ 63) (header : 12 ≤ d.length) :
    scan d = .ok (locate ⟨0,0,0,0⟩ (riffChunks d)) := by
  have located : Locates d ⟨12,⟨0,0,0,0⟩⟩ (scan d) := by
    refine loop_rule ?_ ?_ ?_ _
    · intro s found ends low
      rw [scanBody_eq sized low] at ends
      rw [chunksFrom]
      by_cases inside : s.pos + 8 ≤ d.length
      · rw [if_pos inside] at ends ⊢
        split at ends
        · rename_i last
          cases ends
          rw [locate]
          by_cases both : (s.found.noteChunk (chunkAt d s.pos)).both
          · rw [if_pos both]
          · rw [if_neg both, if_neg (Nat.not_le.mpr (last.resolve_left both)), locate]
        · cases ends
      · rw [if_neg inside] at ends ⊢
        cases ends
        rfl
    · intro s e fails low
      rw [scanBody_eq sized low] at fails
      split at fails
      · split at fails <;> cases fails
      · cases fails
    · intro s t result goes later low
      rw [scanBody_eq sized low] at goes
      split at goes
      · rename_i inside
        split at goes
        · cases goes
        · rename_i further
          rw [not_or, Nat.not_lt] at further
          cases goes
          have low' : (chunkAt d s.pos).next ≤ d.length + 1 := by
            have reach := further.2
            unfold RiffChunk.next
            omega
          rw [later low', chunksFrom_inner inside further.2, locate, if_neg further.1]
      · cases goes
  exact located (by dsimp only; omega)

end

section
variable {d : Bytes} {pos : Nat} {c : RiffChunk} {before after : List RiffChunk}

theorem chunksFrom_pos (mem : c ∈ chunksFrom d pos) :
    pos ≤ c.pos ∧ c.pos + 8 ≤ d.length ∧ c = chunkAt d c.pos := by
  generalize shape : chunksFrom d pos = chunks at mem
  induction chunks generalizing pos with
  | nil => cases mem
  | cons first rest ih =>
    obtain ⟨inside,rfl,tail⟩ := chunksFrom_eq_cons shape
    rcases mem_cons.mp mem with rfl | later
    · exact ⟨Nat.le_refl pos,inside,rfl⟩
    · rcases tail with rfl | ⟨_,same⟩
      · cases later
      · have further : pos + 8 ≤ (chunkAt d pos).next := (chunkAt d pos).lt_next
        obtain ⟨above,known⟩ := ih same.symm later
        exact ⟨by omega,known⟩

theorem chunksFrom_stop (shape : chunksFrom d pos = before ++ c :: after) :
    ∀ f ∈ before, f.stop ≤ c.pos := by
  induction before generalizing pos with
  | nil => simp
  | cons first rest ih =>
    obtain ⟨_,_,tail⟩ := chunksFrom_eq_cons shape
    rcases tail with none | ⟨_,same⟩
    · simp at none
    · intro f mem
      rcases mem_cons.mp mem with rfl | later
      · have there : c ∈ chunksFrom d f.next := by
          rw [← same]
          simp
        have above := (chunksFrom_pos there).1
        unfold RiffChunk.next at above
        omega
      · exact ih same.symm f later

/-- Another file that has the same bytes up to a chunk has the same chunks before it. -/
theorem chunksFrom_agree {other : Bytes} (shape : chunksFrom d pos = before ++ c :: after)
    (agree : AgreeOn d other pos c.pos) (longer : c.pos ≤ other.length) :
    chunksFrom other pos = before ++ chunksFrom other c.pos := by
  induction before generalizing pos with
  | nil =>
    obtain ⟨_,rfl,_⟩ := chunksFrom_eq_cons shape
    rfl
  | cons first rest ih =>
    obtain ⟨_,rfl,tail⟩ := chunksFrom_eq_cons shape
    have ends : (chunkAt d pos).stop ≤ c.pos := chunksFrom_stop shape _ (by simp)
    rcases tail with none | ⟨_,same⟩
    · simp at none
    · have there : c ∈ chunksFrom d (chunkAt d pos).next := by
        rw [← same]
        simp
      have above := (chunksFrom_pos there).1
      have ahead : pos + 8 ≤ (chunkAt d pos).next := (chunkAt d pos).lt_next
      have header : pos + 8 ≤ (chunkAt d pos).stop := Nat.le_add_right _ _
      have equal : chunkAt other pos = chunkAt d pos := by
        unfold chunkAt
        rw [range_agree (agree.mono (Nat.le_refl pos) (by omega)),
          range_agree (agree.mono (by omega : pos ≤ pos + 4) (by omega : pos + 8 ≤ c.pos))]
      have later := ih same.symm (agree.mono (by omega) (Nat.le_refl _))
      rw [chunksFrom_inner (by omega) (by rw [equal]; omega), equal, later, cons_append]

end

section
variable {d : Bytes} {chunks rest : List RiffChunk} {f : Found}

structure FromChunks (chunks : List RiffChunk) (f : Found) : Prop where
  fmt : f.fmtPos ≠ 0 → ∃ c ∈ chunks, c.id = fmtId ∧ f.fmtPos = c.pos + 8 ∧ f.fmtSize = c.size
  data : f.dataStart ≠ 0 → ∃ c ∈ chunks, c.id = dataId ∧ f.dataStart = c.pos + 8 ∧
    f.dataSize = c.size

theorem noteChunk_from {c : RiffChunk} (known : FromChunks chunks f) (mem : c ∈ chunks) :
    FromChunks chunks (f.noteChunk c) := by
  unfold Found.noteChunk Found.note
  split
  · rename_i isFmt
    exact ⟨fun _ => ⟨c,mem,isFmt,rfl,rfl⟩,known.data⟩
  · split
    · rename_i isData
      exact ⟨known.fmt,fun _ => ⟨c,mem,isData,rfl,rfl⟩⟩
    · exact known

theorem locate_from (known : FromChunks chunks f) (members : ∀ c ∈ rest, c ∈ chunks) :
    FromChunks chunks (locate f rest) := by
  induction rest generalizing f with
  | nil => exact known
  | cons c rest ih =>
    have noted := noteChunk_from known (members c mem_cons_self)
    rw [locate]
    split
    · exact noted
    · exact ih noted fun x later => members x (mem_cons_of_mem c later)

theorem scanned_from (d : Bytes) : FromChunks (riffChunks d) (locate ⟨0,0,0,0⟩ (riffChunks d)) :=
  locate_from ⟨fun found => absurd rfl found,fun found => absurd rfl found⟩ fun _ mem => mem

def formatOf (fmtData : Bytes) : WavFormat where
  channels := fromLittleEndian (range fmtData 2 4)
  sampleRate := fromLittleEndian (range fmtData 4 8)
  bytesPerSecond := fromLittleEndian (range fmtData 8 12)
  blockAlign := fromLittleEndian (range fmtData 12 14)

theorem readFormat_eq {fmtData : Bytes} (long : 16 ≤ fmtData.length) : readFormat fmtData =
    if (formatOf fmtData).blockAlign = 0 then .error (.error .zeroBlockAlign)
    else if (formatOf fmtData).bytesPerSecond = 0 then .error (.error .zeroRate)
    else .ok (formatOf fmtData) := by
  unfold readFormat
  rw [leAt_ok (by omega), ok_bind, leAt_ok (by omega), ok_bind, leAt_ok (by omega), ok_bind,
    leAt_ok (by omega), ok_bind]
  rfl

def Found.fmtData (f : Found) (d : Bytes) : Bytes := range d f.fmtPos (f.fmtPos + f.fmtSize)

def Found.wav (f : Found) (d : Bytes) : Wav where
  header := range d 0 (f.dataStart - 8)
  audioSamples := range d f.dataStart (f.dataStart + f.dataSize)
  format := formatOf (f.fmtData d)

/-- The chunks that were found are whole and tell a usable format. -/
structure Found.Readable (f : Found) (d : Bytes) : Prop where
  both : f.both
  fmtLong : 16 ≤ f.fmtSize
  fmtFits : f.fmtPos + f.fmtSize ≤ d.length
  dataFits : f.dataStart + f.dataSize ≤ d.length
  frames : (formatOf (f.fmtData d)).blockAlign ≠ 0
  rate : (formatOf (f.fmtData d)).bytesPerSecond ≠ 0

/-- The file is refused, and not because a window made no progress. -/
def Refused {α : Type} (result : Outcome WavError α) : Prop :=
  ∃ e, result = .error (.error e) ∧ e ≠ .nonProgressing

theorem readFound_cases (sized : d.length < 2 ^ 63) (known : FromChunks (riffChunks d) f) :
    readFound d f = .ok (f.wav d) ∧ f.Readable d ∨
      ¬ f.Readable d ∧ Refused (readFound d f) := by
  have above : 2 ^ 63 + 2 ^ 63 = usizeMax + 1 := by decide
  unfold readFound
  split
  · rename_i missing
    exact .inr ⟨fun readable => readable.both.1 missing,_,rfl,nofun⟩
  split
  · rename_i missing
    exact .inr ⟨fun readable => readable.both.2 missing,_,rfl,nofun⟩
  rename_i hasFmt hasData
  obtain ⟨fmt,fmtMember,_,fmtPos,fmtSize⟩ := known.fmt hasFmt
  obtain ⟨data,dataMember,_,dataStart,dataSize⟩ := known.data hasData
  obtain ⟨_,fmtInside,fmtAt⟩ := chunksFrom_pos fmtMember
  obtain ⟨dataAfter,dataInside,dataAt⟩ := chunksFrom_pos dataMember
  have fmtSmall : fmt.size < 2 ^ 32 := by rw [fmtAt]; exact chunkAt_size d fmt.pos
  have dataSmall : data.size < 2 ^ 32 := by rw [dataAt]; exact chunkAt_size d data.pos
  split
  · rename_i short
    exact .inr ⟨fun readable => absurd readable.fmtLong (by omega),_,rfl,nofun⟩
  rename_i long
  rw [add_ok (by omega), ok_bind]
  split
  · rename_i exceeds
    exact .inr ⟨fun readable => absurd readable.fmtFits (by omega),_,rfl,nofun⟩
  rename_i fmtFits
  rw [add_ok (by omega), ok_bind]
  split
  · rename_i exceeds
    exact .inr ⟨fun readable => absurd readable.dataFits (by omega),_,rfl,nofun⟩
  rename_i dataFits
  rw [if_neg (by omega), slice_ok (by omega) (by omega), ok_bind,
    slice_ok (by omega) (by omega), ok_bind,
    slice_ok (by omega) (by omega), ok_bind]
  have fmtLength : 16 ≤ (range d f.fmtPos (f.fmtPos + f.fmtSize)).length := by
    rw [length_range (by omega)]
    omega
  rw [readFormat_eq fmtLength]
  split
  · rename_i zero
    exact .inr ⟨fun readable => readable.frames zero,_,rfl,nofun⟩
  split
  · rename_i zero
    exact .inr ⟨fun readable => readable.rate zero,_,rfl,nofun⟩
  rename_i frames rate
  exact .inl ⟨rfl,⟨⟨hasFmt,hasData⟩,by omega,by omega,by omega,frames,rate⟩⟩

def WavStart (d : Bytes) :
    Prop := minWavHeaderSize ≤ d.length ∧ range d 0 4 = riffId ∧ range d 8 12 = waveId

def located (d : Bytes) : Found := locate ⟨0,0,0,0⟩ (riffChunks d)

theorem readWav_cases (audioData : ByteSlice) :
    readWav audioData = .ok ((located audioData.bytes).wav audioData.bytes) ∧
      WavStart audioData.bytes ∧
        (located audioData.bytes).Readable audioData.bytes ∨
      ¬ (WavStart audioData.bytes ∧ (located audioData.bytes).Readable audioData.bytes) ∧
        Refused (readWav audioData) := by
  unfold readWav
  split
  · rename_i small
    refine .inr ⟨fun both => ?_,_,rfl,nofun⟩
    exact absurd both.1.1 (Nat.not_le.mpr small)
  rename_i long
  rw [minWavHeaderSize, Nat.not_lt] at long
  rw [slice_ok (by omega) (by omega), ok_bind, slice_ok (by omega) (by omega), ok_bind]
  split
  · rename_i other
    refine .inr ⟨fun both => ?_,_,rfl,nofun⟩
    rcases other with notRiff | notWave
    · exact notRiff both.1.2.1
    · exact notWave both.1.2.2
  rename_i wave
  rw [not_or, not_not, not_not] at wave
  rw [scan_eq audioData.sized (by omega), ok_bind]
  rcases readFound_cases audioData.sized (scanned_from audioData.bytes) with ⟨read,
    readable⟩ | ⟨not,refused⟩
  · exact .inl ⟨read,⟨long,wave⟩,readable⟩
  · exact .inr ⟨fun both => not both.2,refused⟩

theorem readWav_ok {audioData : ByteSlice} {wav : Wav} (read : readWav audioData = .ok wav) :
    wav = (located audioData.bytes).wav audioData.bytes ∧ WavStart audioData.bytes ∧
      (located audioData.bytes).Readable audioData.bytes := by
  rcases readWav_cases audioData with ⟨same,facts⟩ | ⟨_,e,failed,_⟩
  · exact ⟨Except.ok.inj (read.symm.trans same),facts⟩
  · cases read.symm.trans failed

end

end OpenSecret.Audio
