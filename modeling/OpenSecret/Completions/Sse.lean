import OpenSecret.Foundation.Chunking
import OpenSecret.Foundation.Framing

/-!
`extract_sse_frame`: server-sent events out of the bytes of a provider. Blank
lines end a frame, with or without carriage returns.
-/
namespace OpenSecret.Completions
open Framing Chunking List

def lf : UInt8 := 10
def cr : UInt8 := 13

def position (pattern : Bytes) : Bytes → Option Nat
  | [] => none
  | b :: rest =>
    if pattern <+: b :: rest then some 0 else (position pattern rest).map (· + 1)

/-- Where the first frame ends and how long its delimiter is. -/
def findSseFrameBoundary (buffer : Bytes) : Option (Nat × Nat) :=
  match position [lf,lf] buffer, position [cr,lf,cr,lf] buffer with
  | some lf, some crlf => if lf < crlf then some (lf,2) else some (crlf,4)
  | none, some crlf => some (crlf,4)
  | some lf, none => some (lf,2)
  | none, none => none

def isAsciiWhitespace (b : UInt8) : Bool := b == 9 || b == 10 || b == 12 || b == 13 || b == 32

def stripCr (line : Bytes) : Bytes := if line.getLast? = some cr then line.dropLast else line

def strip (start line : Bytes) : Option Bytes :=
  if start <+: line then some (line.drop start.length) else none

def dataField : Bytes := utf8 "data:"
def space : Bytes := utf8 " "

def sseData (frame : Bytes) : Bytes :=
  (frame.splitOn lf).foldl
    (fun data line =>
      match strip dataField (stripCr line) with
      | none => data
      | some value =>
        (if data.isEmpty then data else data ++ [lf]) ++ (strip space value).getD value)
    []

/-- The loop drains at least a delimiter in each round, so its rounds are bounded by
    the length of the buffer. -/
def extractLoop : Nat → Bytes → Option Bytes × Bytes
  | 0, buffer => (none,buffer)
  | rounds + 1, buffer =>
    match findSseFrameBoundary buffer with
    | none => (none,buffer)
    | some (frameEnd,delimiterLen) =>
      let frame := buffer.take frameEnd
      let rest := buffer.drop (frameEnd + delimiterLen)
      if frame.all isAsciiWhitespace then
        extractLoop rounds rest
      else if (sseData frame).isEmpty then
        extractLoop rounds rest
      else
        (some (sseData frame),rest)

def extractSseFrame (buffer : Bytes) : Option Bytes × Bytes := extractLoop buffer.length buffer

def drainLoop : Nat → Bytes → List Bytes × Bytes
  | 0, buffer => ([],buffer)
  | rounds + 1, buffer =>
    match extractSseFrame buffer with
    | (none,rest) => ([],rest)
    | (some frame,rest) => (frame :: (drainLoop rounds rest).1,(drainLoop rounds rest).2)

/-- `while let Some(frame) = extract_sse_frame(&mut buffer)`. -/
def drainSseFrames (buffer : Bytes) : List Bytes × Bytes := drainLoop buffer.length buffer

section
variable {pattern buffer body rest : Bytes} {i j : Nat}

theorem position_some (found : position pattern buffer = some i) :
    pattern <+: buffer.drop i ∧ ∀ j, j < i → ¬ pattern <+: buffer.drop j := by
  induction buffer generalizing i with
  | nil => cases found
  | cons b rest ih =>
    unfold position at found
    split at found
    · rename_i here
      cases found
      exact ⟨here,fun j low => absurd low (Nat.not_lt_zero j)⟩
    · rename_i notHere
      obtain ⟨k,later,rfl⟩ := Option.map_eq_some_iff.mp found
      obtain ⟨there,earlier⟩ := ih later
      refine ⟨there,fun j low => ?_⟩
      cases j with
      | zero => exact notHere
      | succ j => exact earlier j (by omega)

theorem position_none (nonempty : pattern ≠ []) (absent : position pattern buffer = none)
    (i : Nat) :
    ¬ pattern <+: buffer.drop i := by
  induction buffer generalizing i with
  | nil =>
    rw [drop_nil, prefix_nil]
    exact nonempty
  | cons b rest ih =>
    unfold position at absent
    split at absent
    · cases absent
    · rename_i notHere
      cases i with
      | zero => exact notHere
      | succ i => exact ih (Option.map_eq_none_iff.mp absent) i

theorem occurs_front (fits : i + pattern.length ≤ buffer.length)
    (occurs : pattern <+: (buffer ++ rest).drop i) : pattern <+: buffer.drop i := by
  rw [drop_append_of_le_length (by omega)] at occurs
  exact prefix_of_prefix_length_le occurs (prefix_append _ _) (by rw [length_drop]; omega)

theorem occurs_fits (nonempty : pattern ≠ []) (occurs : pattern <+: buffer.drop i) :
    i + pattern.length ≤ buffer.length := by
  have length := occurs.length_le
  have positive := length_pos_iff.mpr nonempty
  rw [length_drop] at length
  omega

theorem occurs_append (nonempty : pattern ≠ []) (occurs : pattern <+: buffer.drop i)
    (rest : Bytes) :
    pattern <+: (buffer ++ rest).drop i := by
  have fits := occurs_fits nonempty occurs
  rw [drop_append_of_le_length (by omega)]
  exact occurs.trans (prefix_append _ _)

theorem position_append (nonempty : pattern ≠ []) (found : position pattern buffer = some i)
    (rest : Bytes) : position pattern (buffer ++ rest) = some i := by
  obtain ⟨here,earlier⟩ := position_some found
  have fits := occurs_fits nonempty here
  cases again : position pattern (buffer ++ rest) with
  | none => exact absurd (occurs_append nonempty here rest) (position_none nonempty again i)
  | some k =>
    obtain ⟨there,before⟩ := position_some again
    rcases Nat.lt_trichotomy k i with low | rfl | high
    · exact absurd (occurs_front (by omega) there) (earlier k low)
    · rfl
    · exact absurd (occurs_append nonempty here rest) (before i high)

theorem occurs_getElem {k : Nat} (inside : k < pattern.length)
    (occurs : pattern <+: buffer.drop i) :
    buffer[i + k]? = pattern[k]? := by
  obtain ⟨tail,same⟩ := occurs
  rw [← getElem?_drop, ← same, getElem?_append_left inside]

/-- The two blank lines cannot overlap so that the longer one, not complete yet,
    begins before the shorter one. -/
theorem crlf_not_before_lf {l c : Nat} (short : [lf,lf] <+: buffer.drop l)
    (long : [cr,lf,cr,lf] <+: (buffer ++ rest).drop c) (open_ : buffer.length < c + 4) : l < c := by
  have fits := occurs_fits (cons_ne_nil _ _) short
  have first := occurs_getElem (k := 0) (by decide) (occurs_append (cons_ne_nil _ _) short rest)
  have second := occurs_getElem (k := 1) (by decide) (occurs_append (cons_ne_nil _ _) short rest)
  simp only [length_cons, length_nil] at fits
  rcases Nat.lt_trichotomy l c with before | rfl | after
  · exact before
  · have here := occurs_getElem (k := 0) (by decide) long
    rw [first] at here
    exact absurd here (by decide)
  · obtain rfl : l = c + 1 := by omega
    have here := occurs_getElem (k := 2) (by decide) long
    rw [show c + 2 = c + 1 + 1 from rfl, second] at here
    exact absurd here (by decide)

variable {frameEnd delimiterLen : Nat}

theorem boundary_append (found : findSseFrameBoundary buffer = some (frameEnd,delimiterLen))
    (rest : Bytes) :
    findSseFrameBoundary (buffer ++ rest) = some (frameEnd,delimiterLen) := by
  have lfs : ([lf,lf] : Bytes) ≠ [] := cons_ne_nil _ _
  have crlfs : ([cr,lf,cr,lf] : Bytes) ≠ [] := cons_ne_nil _ _
  unfold findSseFrameBoundary at found ⊢
  cases short : position [lf,lf] buffer with
  | some l =>
    rw [position_append lfs short rest]
    cases long : position [cr,lf,cr,lf] buffer with
    | some c =>
      rw [short, long] at found
      rw [position_append crlfs long rest]
      exact found
    | none =>
      rw [short, long] at found
      cases later : position [cr,lf,cr,lf] (buffer ++ rest) with
      | none => exact found
      | some c =>
        have occurs := (position_some later).1
        have open_ : buffer.length < c + 4 := by
          rcases Nat.lt_or_ge buffer.length (c + 4) with open_ | closed
          · exact open_
          · exact absurd (occurs_front closed occurs) (position_none crlfs long c)
        have before := crlf_not_before_lf (position_some short).1 occurs open_
        exact (if_pos before).trans found
  | none =>
    cases long : position [cr,lf,cr,lf] buffer with
    | none =>
      rw [short, long] at found
      cases found
    | some c =>
      rw [short, long] at found
      rw [position_append crlfs long rest]
      cases later : position [lf,lf] (buffer ++ rest) with
      | none => exact found
      | some l =>
        -- A shorter blank line before the longer one would stand in the buffer already.
        have fits := occurs_fits crlfs (position_some long).1
        have notBefore : ¬ l < c := by
          intro before
          simp only [length_cons, length_nil] at fits
          refine position_none lfs short l (occurs_front ?_ (position_some later).1)
          simp only [length_cons, length_nil]
          omega
        exact (if_neg notBefore).trans found

theorem boundary_fits (found : findSseFrameBoundary buffer = some (frameEnd,delimiterLen)) :
    0 < delimiterLen ∧ frameEnd + delimiterLen ≤ buffer.length := by
  have fitsLf : ∀ l, position [lf,lf] buffer = some l → l + 2 ≤ buffer.length :=
    fun l short => occurs_fits (cons_ne_nil _ _) (position_some short).1
  have fitsCrlf : ∀ c, position [cr,lf,cr,lf] buffer = some c → c + 4 ≤ buffer.length :=
    fun c long => occurs_fits (cons_ne_nil _ _) (position_some long).1
  unfold findSseFrameBoundary at found
  split at found
  · rename_i l c short long
    split at found
    · cases found
      exact ⟨by decide,fitsLf _ short⟩
    · cases found
      exact ⟨by decide,fitsCrlf _ long⟩
  · rename_i c _ long
    cases found
    exact ⟨by decide,fitsCrlf _ long⟩
  · rename_i l short _
    cases found
    exact ⟨by decide,fitsLf _ short⟩
  · cases found

end

def frames : Cutter UInt8 Bytes where
  cut buffer := (findSseFrameBoundary buffer).map fun boundary =>
    (buffer.take boundary.1,buffer.drop (boundary.1 + boundary.2))
  shrinks := by
    intro buffer piece rest cut
    obtain ⟨⟨frameEnd,delimiterLen⟩,found,same⟩ := Option.map_eq_some_iff.mp cut
    cases same
    have fits := boundary_fits found
    rw [length_drop]
    omega
  stable := by
    intro buffer piece rest more cut
    obtain ⟨⟨frameEnd,delimiterLen⟩,found,same⟩ := Option.map_eq_some_iff.mp cut
    cases same
    have fits := boundary_fits found
    rw [boundary_append found more, Option.map_some]
    dsimp only
    rw [take_append_of_le_length (by omega), drop_append_of_le_length (by omega)]

/-- What a frame is good for; frames without data are skipped. -/
def frameData (frame : Bytes) : Option Bytes :=
  if frame.all isAsciiWhitespace then none
  else if (sseData frame).isEmpty then none
  else some (sseData frame)

theorem extractLoop_succ (rounds : Nat) (buffer : Bytes) :
    extractLoop (rounds + 1) buffer =
      match frames.cut buffer with
      | none => (none,buffer)
      | some (frame,rest) =>
        match frameData frame with
        | none => extractLoop rounds rest
        | some data => (some data,rest) := by
  rw [extractLoop]
  unfold frameData
  cases found : findSseFrameBoundary buffer with
  | none => simp only [frames, found, Option.map_none]
  | some boundary =>
    simp only [frames, found, Option.map_some]
    split
    · rfl
    · split <;> rfl

variable {rounds : Nat}

/-- The loop finds the data of the first frame that has any, and leaves the frames
    behind it. -/
theorem extractLoop_spec (buffer : Bytes) (enough : buffer.length ≤ rounds) :
    (∃ rest, extractLoop rounds buffer = (none,rest) ∧
      (frames.cutAll buffer).1.filterMap frameData = [] ∧ (frames.cutAll buffer).2 = rest) ∨
    (∃ data rest, extractLoop rounds buffer = (some data,rest) ∧ rest.length < buffer.length ∧
      (frames.cutAll buffer).1.filterMap frameData =
        data :: (frames.cutAll rest).1.filterMap frameData ∧
      (frames.cutAll buffer).2 = (frames.cutAll rest).2) := by
  induction buffer using frames.induction generalizing rounds with
  | stop buffer stop =>
    refine .inl ⟨buffer,?_,?_,?_⟩
    · cases rounds with
      | zero => rfl
      | succ rounds => rw [extractLoop_succ, stop]
    · rw [Cutter.cutAll_none stop]
      rfl
    · rw [Cutter.cutAll_none stop]
  | step buffer frame rest cut ih =>
    have shrinks := frames.shrinks cut
    obtain ⟨rounds,rfl⟩ : ∃ n, rounds = n + 1 := ⟨rounds - 1,by omega⟩
    rw [extractLoop_succ, cut, Cutter.cutAll_some cut]
    dsimp only
    cases useful : frameData frame with
    | some data => exact .inr ⟨data,rest,rfl,shrinks,filterMap_cons_some useful,rfl⟩
    | none =>
      simp only [filterMap_cons_none useful]
      have enough : rest.length ≤ rounds := by omega
      rcases ih enough with stopped | ⟨data,left,found,shorter,more,same⟩
      · exact .inl stopped
      · exact .inr ⟨data,left,found,by omega,more,same⟩

theorem drainLoop_eq (buffer : Bytes) (enough : buffer.length ≤ rounds) :
    drainLoop rounds buffer =
      ((frames.cutAll buffer).1.filterMap frameData,(frames.cutAll buffer).2) := by
  induction rounds generalizing buffer with
  | zero =>
    have empty : buffer = [] := length_eq_zero_iff.mp (by omega)
    subst empty
    rfl
  | succ rounds ih =>
    rw [drainLoop, extractSseFrame]
    rcases extractLoop_spec buffer (Nat.le_refl _) with ⟨rest,
      stopped,none,left⟩ | ⟨data,rest,found,shorter,more,left⟩
    · rw [stopped, none, left]
    · rw [found, more, left]
      dsimp only
      rw [ih rest (by omega)]

theorem drainSseFrames_eq (buffer : Bytes) :
    drainSseFrames buffer =
      ((frames.cutAll buffer).1.filterMap frameData,(frames.cutAll buffer).2) :=
  drainLoop_eq buffer (Nat.le_refl _)

section
variable {payload body rest : Bytes}

inductive LineEnd where
  | lf
  | crlf

def LineEnd.blankLine : LineEnd → Bytes
  | .lf => [Completions.lf,Completions.lf]
  | .crlf => [cr,Completions.lf,cr,Completions.lf]

def eventBytes (payload : Bytes) (ends : LineEnd) : Bytes :=
  utf8 "data: ".toList ++ payload ++ ends.blankLine

theorem position_skip {pattern : Bytes} {b : UInt8} (absent : b ∉ body) (rest : Bytes) :
    position (b :: pattern) (body ++ rest) =
      (position (b :: pattern) rest).map (· + body.length) := by
  induction body with
  | nil => simp
  | cons c body ih =>
    have differs : b ≠ c := fun same => absent (same ▸ mem_cons_self)
    have later := ih fun mem => absent (mem_cons_of_mem _ mem)
    rw [cons_append, position, if_neg, later, Option.map_map]
    · rfl
    · intro here
      exact differs (cons_prefix_cons.mp here).1

theorem boundary_event (noCr : cr ∉ body) (noLf : lf ∉ body) (ends : LineEnd) (rest : Bytes) :
    findSseFrameBoundary (body ++ (ends.blankLine ++ rest)) =
      some (body.length,ends.blankLine.length) := by
  unfold findSseFrameBoundary
  rw [position_skip noLf, position_skip noCr]
  cases ends with
  | lf =>
    have here : position [lf,lf] (LineEnd.lf.blankLine ++ rest) = some 0 :=
      if_pos (prefix_append _ _)
    have later : position [cr,lf,cr,lf] (LineEnd.lf.blankLine ++ rest) =
        (position [cr,lf,cr,lf] (lf :: rest)).map (· + 1) := by
      refine if_neg fun first => absurd (cons_prefix_cons.mp first).1 (by decide)
    rw [here, later]
    cases position [cr,lf,cr,lf] (lf :: rest) with
    | none => simp [LineEnd.blankLine]
    | some c =>
      simp only [Option.map_some]
      rw [if_pos (by omega)]
      simp [LineEnd.blankLine]
  | crlf =>
    have here : position [cr,lf,cr,lf] (LineEnd.crlf.blankLine ++ rest) = some 0 :=
      if_pos (prefix_append _ _)
    have later : position [lf,lf] (LineEnd.crlf.blankLine ++ rest) =
        (position [lf,lf] ([lf,cr,lf] ++ rest)).map (· + 1) := by
      refine if_neg fun first => absurd (cons_prefix_cons.mp first).1 (by decide)
    rw [here, later]
    cases position [lf,lf] ([lf,cr,lf] ++ rest) with
    | none => simp [LineEnd.blankLine]
    | some l =>
      simp only [Option.map_some]
      rw [if_neg (by omega)]
      simp [LineEnd.blankLine]

theorem cut_event (noCr : cr ∉ body) (noLf : lf ∉ body) (ends : LineEnd) (rest : Bytes) :
    frames.cut (body ++ (ends.blankLine ++ rest)) = some (body,rest) := by
  show Option.map _ _ = _
  rw [boundary_event noCr noLf ends rest, Option.map_some]
  dsimp only
  rw [take_left, ← drop_drop, drop_left, drop_left]

theorem sseData_event (noCr : cr ∉ payload) (noLf : lf ∉ payload) :
    sseData (utf8 "data: ".toList ++ payload) = payload := by
  have oneLine : (utf8 "data: ".toList ++ payload).splitOn lf =
      [utf8 "data: ".toList ++ payload] := by
    refine splitOn_eq_singleton fun mem => ?_
    rcases mem_append.mp mem with start | inside
    · exact absurd start (by decide)
    · exact noLf inside
  have noEnd : stripCr (utf8 "data: ".toList ++ payload) = utf8 "data: ".toList ++ payload := by
    refine if_neg fun last => ?_
    rcases mem_append.mp (mem_of_getLast? last) with start | inside
    · exact absurd start (by decide)
    · exact noCr inside
  have field : strip dataField (dataField ++ (space ++ payload)) = some (space ++ payload) :=
    (if_pos (prefix_append _ _)).trans (congrArg some drop_left)
  have value : strip space (space ++ payload) = some payload :=
    (if_pos (prefix_append _ _)).trans (congrArg some drop_left)
  have split : utf8 "data: ".toList ++ payload = dataField ++ (space ++ payload) := by
    rw [← append_assoc]
    rfl
  rw [sseData, oneLine, foldl_cons, foldl_nil, noEnd, split, field]
  dsimp only
  rw [value]
  rfl

theorem frameData_event (nonempty : payload ≠ []) (noCr : cr ∉ payload) (noLf : lf ∉ payload) :
    frameData (utf8 "data: ".toList ++ payload) = some payload := by
  rw [frameData, sseData_event noCr noLf, if_neg, if_neg]
  · simpa using nonempty
  · intro blank
    exact absurd (all_eq_true.mp blank 100 (mem_append_left _ (by decide))) (by decide)

variable {events : List (Bytes × LineEnd)}

theorem cutAll_events (plain : ∀ event ∈ events, event.1 ≠ [] ∧ cr ∉ event.1 ∧ lf ∉ event.1) :
    frames.cutAll (events.flatMap fun event => eventBytes event.1 event.2) =
      (events.map fun event => utf8 "data: ".toList ++ event.1,[]) := by
  induction events with
  | nil => rfl
  | cons event events ih =>
    obtain ⟨_,noCr,noLf⟩ := plain event mem_cons_self
    have noCr' : cr ∉ utf8 "data: ".toList ++ event.1 := fun mem =>
      (mem_append.mp mem).elim (fun start => absurd start (by decide)) noCr
    have noLf' : lf ∉ utf8 "data: ".toList ++ event.1 := fun mem =>
      (mem_append.mp mem).elim (fun start => absurd start (by decide)) noLf
    rw [flatMap_cons, eventBytes, append_assoc, Cutter.cutAll_some (cut_event noCr' noLf' _ _),
      ih fun other mem => plain other (mem_cons_of_mem _ mem)]
    rfl

theorem drain_events (plain : ∀ event ∈ events, event.1 ≠ [] ∧ cr ∉ event.1 ∧ lf ∉ event.1) :
    drainSseFrames (events.flatMap fun event => eventBytes event.1 event.2) =
      (events.map (·.1),[]) := by
  rw [drainSseFrames_eq, cutAll_events plain, filterMap_map]
  refine congrArg (·,[]) (filterMap_eq_map_iff_forall_eq_some.mpr fun event mem => ?_)
  obtain ⟨nonempty,noCr,noLf⟩ := plain event mem
  exact frameData_event nonempty noCr noLf

end

/-- Feeding the chunks of a stream one by one yields the frames and the leftover of
    the stream fed at once, wherever it was split; and one-line events come back as
    they were sent. -/
theorem sse_framing_chunk_independent :
    (∀ (stream : Bytes) (chunks : List Bytes), chunks.flatten = stream →
      chunks.foldl (feed drainSseFrames) ([],[]) = feed drainSseFrames ([],[]) stream) ∧
    (∀ events : List (Bytes × LineEnd),
      (∀ event ∈ events, event.1 ≠ [] ∧ cr ∉ event.1 ∧ lf ∉ event.1) →
      feed drainSseFrames ([],[]) (events.flatMap fun event => eventBytes event.1 event.2) =
        (events.map (·.1),[])) := by
  refine ⟨fun stream chunks split => ?_,fun events plain => ?_⟩
  · rw [feed_chunks drainSseFrames_eq, split]
    rfl
  · exact drain_events plain

/-- Two events whose blank lines are of either kind, split inside the second one. -/
theorem split_events_read_back :
    [eventBytes [65] .crlf ++ [100,97],[116,97,58,32,66,lf],[lf]].foldl
      (feed drainSseFrames) ([],[]) =
      ([[65],[66]],[]) := by
  obtain ⟨chunked,plain⟩ := sse_framing_chunk_independent
  have events := plain [([65],.crlf),([66],.lf)] (by decide)
  rw [chunked _ _ rfl]
  exact events

end OpenSecret.Completions
