import OpenSecret.Audio.Windows
import Mathlib.Data.List.TakeWhile

/-!
Reading the files that `split_wav` returns. They begin with everything before the
data chunk of the input, so they have its chunks up to there and then one data
chunk; the format is among them if its chunk came first.
-/
namespace OpenSecret.Audio
open Framing ByteRanges
open List hiding range getElem?_range

section
variable {f : Found} {c : RiffChunk} {chunks before rest : List RiffChunk}

/-- A fmt chunk stands before the first data chunk. -/
def FmtFirst (chunks : List RiffChunk) : Prop :=
  ∃ c ∈ chunks.takeWhile (fun c => c.id ≠ dataId), c.id = fmtId

theorem note_fmt (isFmt : c.id = fmtId) :
    f.noteChunk c = { f with fmtPos := c.pos + 8, fmtSize := c.size } := by
  unfold Found.noteChunk Found.note
  rw [if_pos isFmt]

theorem note_data (isData : c.id = dataId) :
    f.noteChunk c = { f with dataStart := c.pos + 8, dataSize := c.size } := by
  have other : dataId ≠ fmtId := by decide
  unfold Found.noteChunk Found.note
  rw [isData, if_neg other, if_pos rfl]

/-- A field that holds where the last chunk with an id was found, and without which the
    search goes on. -/
structure Notes (id : Bytes) (field : Found → Nat) : Prop where
  noted : ∀ f c, field (f.noteChunk c) = if c.id = id then c.pos + 8 else field f
  needed : ∀ f : Found, f.both → field f ≠ 0

theorem notes_fmt : Notes fmtId Found.fmtPos := by
  refine ⟨fun f c => ?_,fun _ both => both.1⟩
  unfold Found.noteChunk Found.note
  split
  · rfl
  · split <;> rfl

theorem notes_data : Notes dataId Found.dataStart := by
  have other : fmtId ≠ dataId := by decide
  refine ⟨fun f c => ?_,fun _ both => both.2⟩
  unfold Found.noteChunk Found.note
  split
  · rename_i isFmt
    rw [isFmt, if_neg other]
  · split <;> rfl

variable {id : Bytes} {field : Found → Nat}

theorem Notes.without (notes : Notes id field) (none : ∀ c ∈ before, c.id ≠ id)
    (missing : field f = 0) :
    locate f (before ++ rest) = locate (before.foldl Found.noteChunk f) rest ∧
      field (before.foldl Found.noteChunk f) = 0 := by
  induction before generalizing f with
  | nil => exact ⟨rfl,missing⟩
  | cons c before ih =>
    have still : field (f.noteChunk c) = 0 := by
      rw [notes.noted, if_neg (none c (by simp)), missing]
    rw [cons_append, locate, if_neg fun both => notes.needed _ both still]
    exact ih (fun x mem => none x (by simp [mem])) still

theorem Notes.found (notes : Notes id field) (found : field f ≠ 0 ∨ ∃ c ∈ before, c.id = id) :
    field (before.foldl Found.noteChunk f) ≠ 0 := by
  induction before generalizing f with
  | nil => exact found.resolve_right (by simp)
  | cons c before ih =>
    refine ih ?_
    rw [notes.noted]
    by_cases here : c.id = id
    · simp [here]
    · simpa [here] using found

theorem noted_from (known : FromChunks chunks f) (members : ∀ c ∈ before, c ∈ chunks) :
    FromChunks chunks (before.foldl Found.noteChunk f) := by
  induction before generalizing f with
  | nil => exact known
  | cons c before ih =>
    exact ih (noteChunk_from known (members c (by simp))) fun x mem =>
      members x (by simp [mem])

theorem split_at_id (chunks : List RiffChunk) (id : Bytes) :
    (∀ x ∈ chunks.takeWhile (fun c => c.id ≠ id), x.id ≠ id) ∧
      (chunks.takeWhile (fun c => c.id ≠ id) = chunks ∨ ∃ c after, c.id = id ∧
        chunks = chunks.takeWhile (fun c => c.id ≠ id) ++ c :: after) := by
  constructor
  · intro x mem
    have held := mem_takeWhile_imp mem
    exact of_decide_eq_true held
  · have whole :=
      takeWhile_append_dropWhile (p := fun c : RiffChunk => decide (c.id ≠ id)) (l := chunks)
    have stops := head?_dropWhile_not (fun c : RiffChunk => decide (c.id ≠ id)) chunks
    cases tail : chunks.dropWhile (fun c => decide (c.id ≠ id)) with
    | nil =>
      rw [tail, append_nil] at whole
      exact .inl whole
    | cons c after =>
      rw [tail] at whole stops
      exact .inr ⟨c,after,by simpa using stops,whole.symm⟩

abbrev nothing : Found := ⟨0,0,0,0⟩

/-- With a fmt chunk first, the search ends at the first data chunk. -/
theorem locate_fmtFirst (first : FmtFirst chunks) (both : (locate nothing chunks).both) :
    ∃ before c after, chunks = before ++ c :: after ∧ c.id = dataId ∧
      (∀ x ∈ before, x.id ≠ dataId) ∧
      (∃ x ∈ before, x.id = fmtId) ∧
      locate nothing chunks = (before.foldl Found.noteChunk nothing).noteChunk c := by
  obtain ⟨none,shape⟩ := split_at_id chunks dataId
  unfold FmtFirst at first
  generalize chunks.takeWhile (fun c => c.id ≠ dataId) = before at first none shape
  rcases shape with rfl | ⟨c,after,isData,rfl⟩
  · have passed : locate nothing (before ++ []) = _ ∧ _ := notes_data.without none rfl
    rw [append_nil] at passed
    exact absurd (passed.1 ▸ passed.2) both.2
  · have passed : locate nothing (before ++ c :: after) = _ ∧ _ := notes_data.without none rfl
    have found : ((before.foldl Found.noteChunk nothing).noteChunk c).both := by
      rw [note_data isData]
      exact ⟨notes_fmt.found (.inr first),Nat.succ_ne_zero _⟩
    rw [locate, if_pos found] at passed
    exact ⟨before,c,after,rfl,isData,none,first,passed.1⟩

theorem locate_dataFirst (notFirst : ¬ FmtFirst chunks) (both : (locate nothing chunks).both) :
    ∃ before c after, chunks = before ++ c :: after ∧ c.id = dataId ∧ (∀ x ∈ before, x.id ≠ fmtId) ∧
      (locate nothing chunks).dataStart = c.pos + 8 ∧
        (locate nothing chunks).dataSize = c.size := by
  have other : fmtId ≠ dataId := by decide
  obtain ⟨none,shape⟩ := split_at_id chunks fmtId
  generalize chunks.takeWhile (fun c => c.id ≠ fmtId) = before at none shape
  rcases shape with rfl | ⟨fmt,after,isFmt,rfl⟩
  · have passed : locate nothing (before ++ []) = _ ∧ _ := notes_fmt.without none rfl
    rw [append_nil] at passed
    exact absurd (passed.1 ▸ passed.2) both.1
  · -- The first fmt chunk would come first if no data chunk stood before it.
    have data : ∃ x ∈ before, x.id = dataId := by
      by_contra missing
      rw [not_exists] at missing
      refine notFirst ⟨fmt,?_,isFmt⟩
      have passes : ∀ x ∈ before, decide (x.id ≠ dataId) = true := by
        intro x mem
        exact decide_eq_true fun isData => missing x ⟨mem,isData⟩
      rw [takeWhile_append_of_pos passes]
      simp [isFmt, other]
    have passed : locate nothing (before ++ fmt :: after) = _ ∧ _ := notes_fmt.without none rfl
    have found : ((before.foldl Found.noteChunk nothing).noteChunk fmt).both := by
      rw [note_fmt isFmt]
      exact ⟨Nat.succ_ne_zero _,notes_data.found (.inr data)⟩
    rw [locate, if_pos found, note_fmt isFmt] at passed
    have known : FromChunks before (before.foldl Found.noteChunk nothing) :=
      noted_from ⟨fun found => absurd rfl found,fun found => absurd rfl found⟩
        fun _ mem => mem
    obtain ⟨c,mem,isData,start,size⟩ := known.data (notes_data.found (.inr data))
    obtain ⟨front,back,rfl⟩ := append_of_mem mem
    refine ⟨front,c,back ++ fmt :: after,by simp,isData,fun x inFront =>
      none x (by simp [inFront]),?_,?_⟩
    · rw [passed.1]
      exact start
    · rw [passed.1]
      exact size

end

section
variable {header samples d : Bytes}

theorem wavBytes_getElem? (header samples : Bytes) {i : Nat} (unpatchedAt : i < 4 ∨ 8 ≤ i) :
    (wavBytes header samples)[i]? = (unpatched header samples)[i]? := by
  have long := length_unpatched header samples
  have front : ((unpatched header samples).take 4).length = 4 := by
    rw [length_take]
    omega
  rcases unpatchedAt with low | high
  · rw [wavBytes, append_assoc, getElem?_append_left (by omega), getElem?_take_of_lt low]
  · rw [wavBytes,
      getElem?_append_right (by rw [length_append, front, littleEndian_length]; exact high),
      length_append, front, littleEndian_length, getElem?_drop]
    congr 1
    omega

variable {lo hi : Nat}

theorem wavBytes_agree (outside : hi ≤ 4 ∨ 8 ≤ lo) :
    AgreeOn (wavBytes header samples) (unpatched header samples) lo hi := by
  intro i low high
  exact wavBytes_getElem? header samples (by omega)

theorem wavBytes_header (inside : hi ≤ header.length)
    (outside : hi ≤ 4 ∨ 8 ≤ lo) : AgreeOn header (wavBytes header samples) lo hi := by
  intro i low high
  rw [wavBytes_getElem? header samples (by omega), unpatched, append_assoc, append_assoc,
    getElem?_append_left (by omega)]

theorem chunkAt_wavBytes (long : 8 ≤ header.length) (small : samples.length < 2 ^ 32) :
    chunkAt (wavBytes header samples) header.length = ⟨dataId,header.length,samples.length⟩ := by
  have four : dataId.length = 4 := by decide
  have id : range (wavBytes header samples) header.length (header.length + 4) = dataId := by
    rw [range_agree (wavBytes_agree (.inr long)), unpatched, append_assoc]
    exact range_middle rfl (by rw [four])
  have size : range (wavBytes header samples) (header.length + 4) (header.length + 8) =
      littleEndian 4 (samples.length % 2 ^ 32) := by
    rw [range_agree (wavBytes_agree (.inr (by omega))), unpatched]
    exact range_middle (by rw [length_append, four]) (by
      rw [length_append, four, littleEndian_length])
  unfold chunkAt
  rw [id, size, Nat.mod_eq_of_lt small, fromLittleEndian_littleEndian (by omega)]

theorem range_wavBytes (long : 8 ≤ header.length) :
    range (wavBytes header samples) (header.length + 8) (header.length + 8 + samples.length) =
      samples := by
  have four : dataId.length = 4 := by decide
  rw [range_agree (wavBytes_agree (.inr (by omega))), unpatched, ← append_nil
    (header ++ dataId ++ littleEndian 4 (samples.length % 2 ^ 32) ++ samples)]
  have front : (header ++ dataId ++ littleEndian 4 (samples.length % 2 ^ 32)).length =
      header.length + 8 := by
    rw [length_append, length_append, four, littleEndian_length]
  exact range_middle front.symm (by rw [front])

theorem chunksFrom_wavBytes (long : 8 ≤ header.length) (small : samples.length < 2 ^ 32) :
    chunksFrom (wavBytes header samples) header.length =
      [⟨dataId,header.length,samples.length⟩] := by
  have length := length_wavBytes header samples
  have here := chunkAt_wavBytes long small
  have stops : (chunkAt (wavBytes header samples) header.length).stop =
      (wavBytes header samples).length := by
    rw [here, length]
    rfl
  rw [chunksFrom_inner (by omega) (le_of_eq stops), chunksFrom_end, here]
  unfold RiffChunk.next
  omega

end

section
variable {d samples : Bytes} {c : RiffChunk} {before after : List RiffChunk}

def rewritten (d : Bytes) (c : RiffChunk) (samples : Bytes) :
    Bytes := wavBytes (range d 0 c.pos) samples

theorem rewritten_agree (inside : c.pos ≤ d.length) {lo hi : Nat} (below : hi ≤ c.pos)
    (outside : hi ≤ 4 ∨ 8 ≤ lo) :
    AgreeOn (rewritten d c samples) d lo hi := by
  have length : (range d 0 c.pos).length = c.pos := length_range inside
  intro i low high
  have kept : (range d 0 c.pos)[i]? = (wavBytes (range d 0 c.pos) samples)[i]? :=
    wavBytes_header (by rw [length]; exact below) outside i low high
  rw [getElem?_range (by omega), zero_add] at kept
  exact kept.symm

theorem length_rewritten (inside : c.pos ≤ d.length) :
    (rewritten d c samples).length = c.pos + 8 + samples.length := by
  rw [rewritten, length_wavBytes, length_range inside, Nat.sub_zero]

theorem riffChunks_rewritten (shape : riffChunks d = before ++ c :: after)
    (small : samples.length < 2 ^ 32) :
    riffChunks (rewritten d c samples) = before ++ [⟨dataId,c.pos,samples.length⟩] := by
  have mem : c ∈ riffChunks d := by
    rw [shape]
    simp
  obtain ⟨above,below,_⟩ := chunksFrom_pos mem
  have inside : c.pos ≤ d.length := by omega
  have length : (range d 0 c.pos).length = c.pos := length_range inside
  have agree : AgreeOn d (rewritten d c samples) 12 c.pos := fun i low high =>
    (rewritten_agree inside le_rfl (.inr (by omega)) i low high).symm
  have last : chunksFrom (wavBytes (range d 0 c.pos) samples) _ = _ :=
    chunksFrom_wavBytes (by omega) small
  rw [length] at last
  rw [riffChunks, chunksFrom_agree shape agree (by rw [length_rewritten inside]; omega)]
  exact congrArg (before ++ ·) last

theorem rewritten_start (start : WavStart d) (inside : c.pos ≤ d.length) (room : 36 ≤ c.pos) :
    WavStart (rewritten d c samples) := by
  refine ⟨?_,?_,?_⟩
  · rw [length_rewritten inside, minWavHeaderSize]
    omega
  · rw [range_agree (rewritten_agree inside (by omega) (.inl (Nat.le_refl 4)))]
    exact start.2.1
  · rw [range_agree (rewritten_agree inside (by omega) (.inr (Nat.le_refl 8)))]
    exact start.2.2

theorem located_rewritten (shape : riffChunks d = before ++ c :: after)
    (none : ∀ x ∈ before, x.id ≠ dataId) (small : samples.length < 2 ^ 32) :
    located (rewritten d c samples) =
      { before.foldl Found.noteChunk nothing with
        dataStart := c.pos + 8, dataSize := samples.length } := by
  have passed : locate nothing (before ++ [⟨dataId,c.pos,samples.length⟩]) = _ ∧ _ :=
    notes_data.without none rfl
  rw [located, riffChunks_rewritten shape small, passed.1, locate, locate, ite_self, note_data rfl]

/-- The fmt chunk noted before a chunk lies between the WAV header and that chunk. -/
theorem noted_fmt_before (shape : riffChunks d = before ++ c :: after)
    (fmt : ∃ x ∈ before, x.id = fmtId) :
    20 ≤ (before.foldl Found.noteChunk nothing).fmtPos ∧
      (before.foldl Found.noteChunk nothing).fmtPos +
        (before.foldl Found.noteChunk nothing).fmtSize ≤ c.pos := by
  have known : FromChunks before (before.foldl Found.noteChunk nothing) :=
    noted_from ⟨fun found => absurd rfl found,fun found => absurd rfl found⟩ fun _ mem => mem
  obtain ⟨x,inFront,_,fmtPos,fmtSize⟩ := known.fmt (notes_fmt.found (.inr fmt))
  have stops : x.stop ≤ c.pos := chunksFrom_stop shape x inFront
  have mem : x ∈ riffChunks d := by
    rw [shape]
    exact mem_append_left _ inFront
  have above := (chunksFrom_pos mem).1
  rw [fmtPos, fmtSize]
  exact ⟨by omega,stops⟩

theorem wav_header (start : (located d).dataStart = c.pos + 8) :
    ((located d).wav d).header = range d 0 c.pos := by
  rw [Found.wav, start, Nat.add_sub_cancel]

variable {new : Bytes}

/-- With the fmt chunk first, a rewritten file is read with the format of the original
    and the samples it was given. -/
theorem reread_fmtFirst (start : WavStart d) (readable : (located d).Readable d)
    (first : FmtFirst (riffChunks d)) (small : samples.length < 2 ^ 32)
    (isNew : new = wavBytes ((located d).wav d).header samples) :
    WavStart new ∧ (located new).Readable new ∧
      ((located new).wav new).format = ((located d).wav d).format ∧
      ((located new).wav new).audioSamples = samples := by
  obtain ⟨before,c,after,shape,isData,none,fmt,found⟩ := locate_fmtFirst first readable.both
  change located d = _ at found
  rw [note_data isData] at found
  rw [wav_header (by rw [found])] at isNew
  obtain rfl : new = rewritten d c samples := isNew
  have again := located_rewritten shape none small
  obtain ⟨low,ends⟩ := noted_fmt_before shape fmt
  have some_fmt := notes_fmt.found (f := nothing) (.inr fmt)
  generalize before.foldl Found.noteChunk nothing = g at found again low ends some_fmt
  have mem : c ∈ riffChunks d := by
    rw [shape]
    simp
  have inside : c.pos ≤ d.length := by
    have header := (chunksFrom_pos mem).2.1
    omega
  have long : 16 ≤ g.fmtSize := by
    have held := readable.fmtLong
    rwa [found] at held
  have sameFmt : (located (rewritten d c samples)).fmtData (rewritten d c samples) =
      (located d).fmtData d := by
    rw [again, found]
    exact range_agree (rewritten_agree inside ends (.inr (by dsimp only; omega)))
  refine ⟨rewritten_start start inside (by omega),⟨?_,?_,?_,?_,?_,?_⟩,congrArg formatOf sameFmt,?_⟩
  · rw [again]
    exact ⟨some_fmt,Nat.succ_ne_zero _⟩
  · rw [again]
    exact long
  · rw [again, length_rewritten inside]
    dsimp only
    omega
  · rw [again, length_rewritten inside]
  · rw [sameFmt]
    exact readable.frames
  · rw [sameFmt]
    exact readable.rate
  · have header : (range d 0 c.pos).length = c.pos := length_range inside
    have read : range (wavBytes (range d 0 c.pos) samples) _ _ = samples :=
      range_wavBytes (by omega)
    rw [header] at read
    rw [Found.wav, again]
    exact read

theorem reread_dataFirst (readable : (located d).Readable d)
    (notFirst : ¬ FmtFirst (riffChunks d)) (small : samples.length < 2 ^ 32)
    (isNew : new = wavBytes ((located d).wav d).header samples) : ¬ (located new).Readable new := by
  intro read
  obtain ⟨before,c,after,shape,isData,none,start,_⟩ := locate_dataFirst notFirst readable.both
  have other : dataId ≠ fmtId := by decide
  have without : ∀ x ∈ before ++ [⟨dataId,c.pos,samples.length⟩], x.id ≠ fmtId := by
    intro x mem
    rcases mem_snoc.mp mem with inFront | rfl
    · exact none x inFront
    · exact other
  have passed : locate nothing (before ++ [⟨dataId,c.pos,samples.length⟩] ++ []) = _ ∧ _ :=
    notes_fmt.without without rfl
  rw [append_nil] at passed
  rw [wav_header start] at isNew
  change new = rewritten d c samples at isNew
  have missing : (located new).fmtPos = 0 := by
    rw [located, isNew, riffChunks_rewritten shape small, passed.1]
    exact passed.2
  exact read.both.1 missing

end

section
variable {self : AudioSplitter} {audioData : ByteSlice} {wav : Wav} {chunks : List AudioChunk}

theorem audioSamples_small (read : readWav audioData = .ok wav) :
    wav.audioSamples.length < 2 ^ 32 := by
  obtain ⟨rfl,_,readable⟩ := readWav_ok read
  obtain ⟨c,mem,_,_,size⟩ := (scanned_from audioData.bytes).data readable.both.2
  obtain ⟨_,_,here⟩ := chunksFrom_pos mem
  have small := chunkAt_size audioData.bytes c.pos
  have length : (range audioData.bytes (located audioData.bytes).dataStart
      ((located audioData.bytes).dataStart + (located audioData.bytes).dataSize)).length = _ :=
    length_range readable.dataFits
  change (range _ _ _).length < 2 ^ 32
  change (located audioData.bytes).dataSize = c.size at size
  rw [here] at size
  omega

/-- The chunk is read as a file of the same format whose samples are its window. -/
def Rereads (wav : Wav) (chunk : AudioChunk) : Prop :=
  ∃ (sized : chunk.data.length < 2 ^ 63) (again : Wav), readWav ⟨chunk.data,sized⟩ = .ok again ∧
    again.format = wav.format ∧
    again.audioSamples = range wav.audioSamples chunk.startTime.bytes chunk.endTime.bytes

theorem window_rereads_iff (read : readWav audioData = .ok wav) (k : Nat) :
    Rereads wav ((cutOf self wav).window k) ↔ FmtFirst (riffChunks audioData.bytes) := by
  have sizes := readWav_sizes read
  have fewer := audioSamples_small read
  obtain ⟨rfl,start,readable⟩ := readWav_ok read
  generalize cutting : cutOf self ((located audioData.bytes).wav audioData.bytes) = cut
  have header : cut.header = ((located audioData.bytes).wav audioData.bytes).header := by
    rw [← cutting]; rfl
  have samples :
      cut.audioSamples = ((located audioData.bytes).wav audioData.bytes).audioSamples := by
    rw [← cutting]; rfl
  generalize part : range cut.audioSamples (cut.first k) (cut.last k) = window
  have shorter : window.length ≤ cut.audioSamples.length := by
    have stops : cut.last k ≤ cut.audioSamples.length := Nat.min_le_right _ _
    rw [← part, length_range stops]
    omega
  rw [samples] at shorter
  have isNew : (cut.window k).data =
      wavBytes ((located audioData.bytes).wav audioData.bytes).header window := by
    rw [← header, ← part]
    rfl
  have sized : (cut.window k).data.length < 2 ^ 63 := by
    have whole := audioData.sized
    rw [isNew, length_wavBytes]
    omega
  constructor
  · rintro ⟨_,again,accepted,_⟩
    by_contra notFirst
    obtain ⟨_,_,readable'⟩ := readWav_ok accepted
    exact reread_dataFirst readable notFirst (by omega) isNew readable'
  · intro first
    obtain ⟨start',readable',format,same⟩ := reread_fmtFirst start readable first (by omega) isNew
    rcases readWav_cases ⟨(cut.window k).data,sized⟩ with ⟨accepted,_⟩ | ⟨refused,_⟩
    · refine ⟨sized,_,accepted,format,same.trans ?_⟩
      rw [← part, samples]
      rfl
    · exact absurd ⟨start',readable'⟩ refused

/-- Where a file with samples is split, there are chunks, and they are read again, with
    the format of the file and their window as samples, exactly if a fmt chunk stands
    before the first data chunk. -/
theorem chunks_reread_iff (split : splitWav self audioData = .ok chunks)
    (read : readWav audioData = .ok wav) (some_sample : wav.audioSamples ≠ []) :
    (chunks ≠ [] ∧ ∀ chunk ∈ chunks, Rereads wav chunk) ↔
      FmtFirst (riffChunks audioData.bytes) := by
  rcases splitWav_cases self audioData with ⟨e,refused,_⟩ | ⟨wav',n,read',_,_,complete,emitted⟩
  · cases split.symm.trans refused
  · cases read.symm.trans read'
    cases split.symm.trans emitted
    have some_window : 0 < n := by
      refine Nat.pos_of_ne_zero ?_
      rintro rfl
      exact some_sample (eq_nil_of_length_eq_zero (Nat.le_zero.mp complete.2))
    constructor
    · rintro ⟨_,each⟩
      exact (window_rereads_iff read 0).mp
        (each _ (mem_map.mpr ⟨0,mem_range.mpr some_window,rfl⟩))
    · intro first
      constructor
      · intro none
        have empty := map_eq_nil_iff.mp none
        rw [range_eq_nil] at empty
        omega
      · intro chunk mem
        obtain ⟨k,_,rfl⟩ := mem_map.mp mem
        exact (window_rereads_iff read k).mpr first

end

def longData : Bytes := dataId ++ littleEndian 4 32 ++ replicate 32 7

/-- The data chunk comes first, as the search allows. -/
def dataFirstWav : ByteSlice := ⟨riffOf (longData ++ fmtChunk),by decide⟩

def roomySplitter : AudioSplitter := ⟨64,fun _ => 0⟩

def strayChunk : ByteSlice :=
  ⟨wavBytes (dataFirstWav.bytes.take 12) (replicate 32 7),by decide +kernel⟩

theorem data_first_chunk_lost_format :
    (readWav dataFirstWav).map (fun wav => wav.audioSamples) = .ok (replicate 32 7) ∧
      (splitWav roomySplitter dataFirstWav).map (fun chunks => chunks.map AudioChunk.data) =
        .ok [strayChunk.bytes] ∧
      readWav strayChunk = .error (.error .noFmt) := by
  decide +kernel

theorem sample_chunks_reread : ∃ chunks wav, splitWav sampleSplitter sampleWav = .ok chunks ∧
    readWav sampleWav = .ok wav ∧ chunks ≠ [] ∧ ∀ chunk ∈ chunks, Rereads wav chunk := by
  have emits : (splitWav sampleSplitter sampleWav).map List.length = .ok 3 := by decide +kernel
  have reads : (readWav sampleWav).map Wav.audioSamples = .ok [1,2,3,4,5,6,7,8] := by decide +kernel
  obtain ⟨chunks,split,_⟩ := map_eq_ok.mp emits
  obtain ⟨wav,read,samples⟩ := map_eq_ok.mp reads
  have first : FmtFirst (riffChunks sampleWav.bytes) := by
    unfold FmtFirst
    decide +kernel
  have some_sample : wav.audioSamples ≠ [] := by
    rw [samples]
    exact cons_ne_nil _ _
  exact ⟨chunks,wav,split,read,(chunks_reread_iff split read some_sample).mpr first⟩

end OpenSecret.Audio
