import OpenSecret.Foundation.Framing

/-!
Multipart bodies: parts with header lines, between delimiters that begin with a line
break. For a `bare` reader a part without content may also end at its blank line.
-/
namespace Multipart
open Framing List

structure Part where
  headers : List Bytes
  content : Bytes
  deriving DecidableEq

def crlf : Bytes := [13,10]

def dashes : Bytes := [45,45]

/-- The lines up to a blank one; `line` is what was read of the current line. -/
def readHeaders (line : Bytes) : Bytes → Option (List Bytes × Bytes)
  | 13 :: 10 :: rest =>
    if line = [] then some ([],rest) else (readHeaders [] rest).map fun p => (line :: p.1,p.2)
  | b :: rest => readHeaders (line ++ [b]) rest
  | [] => none

def readContent (bare : Bool) (boundary input : Bytes) : Option (Bytes × Bytes) :=
  match bare, input.dropPrefix? (dashes ++ boundary) with
  | true, some rest => some ([],rest)
  | _, _ => input.dropInfix? (crlf ++ (dashes ++ boundary))

/-- What follows a boundary: the end of the body, or a part and the next boundary. -/
def readParts (bare : Bool) (boundary : Bytes) : Nat → Bytes → Option (List Part)
  | 0, _ => none
  | rounds + 1, input =>
    if dashes <+: input then some []
    else do
      let input ← input.dropPrefix? crlf
      let (headers,input) ← readHeaders [] input
      let (content,input) ← readContent bare boundary input
      let parts ← readParts bare boundary rounds input
      return ⟨headers,content⟩ :: parts

def parse (bare : Bool) (boundary body : Bytes) : Option (List Part) :=
  (body.dropPrefix? (dashes ++ boundary)).bind (readParts bare boundary body.length)

def Part.body (part : Part) : Bytes :=
  crlf ++ part.headers.flatMap (· ++ crlf) ++ crlf ++ part.content ++ crlf

def render (boundary : Bytes) (parts : List Part) : Bytes :=
  parts.flatMap (fun part => dashes ++ boundary ++ part.body) ++
    (dashes ++ boundary ++ (dashes ++ crlf))

/-- Nothing in the part is taken for a line break of its headers or for a delimiter. -/
structure Part.Safe (bare : Bool) (boundary : Bytes) (part : Part) : Prop where
  lines : ∀ line ∈ part.headers, 13 ∉ line ∧ line ≠ []
  content : ¬ crlf ++ (dashes ++ boundary) <:+: part.content
  start : bare = true → ¬ dashes ++ boundary <+: part.content

variable {pattern front rest boundary : Bytes} {bare : Bool}

theorem dropPrefix_append (start rest : Bytes) : (start ++ rest).dropPrefix? start = some rest :=
  dropPrefix?_append_of_beq rest (beq_self_eq_true start)

/-- A pattern that begins inside a text and goes on behind it has the first byte that follows. -/
theorem mem_of_reaches {c : UInt8} {start : Bytes} (absent : ¬ start <+: front)
    (reaches : start <+: front ++ c :: rest) :
    ∃ more, start = front ++ c :: more := by
  rcases prefix_or_prefix_of_prefix reaches (prefix_append front _) with inside | ⟨more,rfl⟩
  · exact absurd inside absent
  cases more with
  | nil => exact absurd (by simp) absent
  | cons d more =>
    obtain ⟨rfl,-⟩ := cons_prefix_cons.mp ((prefix_append_right_inj front).mp reaches)
    exact ⟨more,rfl⟩

/-- A pattern that repeats its first byte nowhere is found where it stands first. -/
theorem dropInfix_first {c : UInt8} {tail : Bytes} (alone : c ∉ tail)
    (absent : ¬ c :: tail <:+: front) (rest : Bytes) :
    (front ++ (c :: tail ++ rest)).dropInfix? (c :: tail) = some (front,rest) := by
  refine dropInfix?_eq_some_iff.mpr ⟨⟨_,(append_assoc _ _ _).symm,beq_self_eq_true _⟩,?_⟩
  intro p i s split same
  obtain rfl := eq_of_beq same
  rw [append_assoc] at split
  rcases append_eq_append_iff.mp split with ⟨more,rfl,-⟩ | ⟨more,rfl,behind⟩
  · simp
  cases more with
  | nil => simp
  | cons d more =>
    obtain ⟨rfl,-⟩ := cons.inj behind
    have within : ¬ c :: tail <+: c :: more :=
      fun inside => absent (inside.isInfix.trans (suffix_append p _).isInfix)
    obtain ⟨later,same⟩ := mem_of_reaches within ⟨s,behind⟩
    exact absurd ((cons.inj same).2 ▸ mem_append_right more mem_cons_self) alone

theorem readHeaders_line {line : Bytes} (plain : 13 ∉ front) (rest : Bytes) :
    readHeaders line (front ++ (crlf ++ rest)) =
      if line ++ front = [] then some ([],rest) else (readHeaders [] rest).map fun p =>
        ((line ++ front) :: p.1,p.2) := by
  induction front generalizing line with
  | nil => rw [append_nil]; rfl
  | cons b front ih =>
    obtain ⟨other,plain⟩ := not_or.mp (mem_cons.not.mp plain)
    rw [cons_append, readHeaders, ih plain, append_assoc, singleton_append]
    exact fun _ same => absurd same.symm other

variable {part : Part} {parts : List Part}

theorem readHeaders_lines {headers : List Bytes} (lines : ∀ line ∈ headers, 13 ∉ line ∧ line ≠ [])
    (rest : Bytes) :
    readHeaders [] (headers.flatMap (· ++ crlf) ++ (crlf ++ rest)) = some (headers,rest) := by
  induction headers with
  | nil => rfl
  | cons line headers ih =>
    obtain ⟨⟨plain,solid⟩,later⟩ := forall_mem_cons.mp lines
    rw [flatMap_cons, append_assoc, append_assoc, readHeaders_line plain, ih later, nil_append,
      if_neg solid]
    rfl

theorem readContent_safe (plain : 13 ∉ boundary) (safe : part.Safe bare boundary) (rest : Bytes) :
    readContent bare boundary (part.content ++ (crlf ++ (dashes ++ boundary) ++ rest)) =
      some (part.content,rest) := by
  have alone : (13 : UInt8) ∉ 10 :: (dashes ++ boundary) := by simp [dashes, plain]
  unfold readContent
  split
  · rename_i after here
    obtain ⟨_,first,same⟩ := dropPrefix?_eq_some_iff.mp here
    -- a boundary that goes on behind the content would have a carriage return
    obtain ⟨more,reaches⟩ := mem_of_reaches (safe.start rfl) ⟨after,(eq_of_beq same ▸ first).symm⟩
    exact absurd (reaches ▸ mem_append_right part.content mem_cons_self)
      (not_mem_of_not_mem_cons alone)
  · exact dropInfix_first alone safe.content rest

/-- What is sent behind the first boundary: each part with the boundary that follows it. -/
def behind (boundary : Bytes) (parts : List Part) : Bytes :=
  parts.flatMap (fun part => part.body ++ (dashes ++ boundary)) ++ (dashes ++ crlf)

theorem render_eq (boundary : Bytes) (parts : List Part) :
    render boundary parts = dashes ++ boundary ++ behind boundary parts := by
  unfold render behind
  induction parts with
  | nil => rfl
  | cons part parts ih =>
    rw [flatMap_cons, append_assoc, ih, flatMap_cons]
    simp only [append_assoc]

theorem length_lt_behind : parts.length < (behind boundary parts).length := by
  unfold behind
  induction parts with
  | nil => exact Nat.zero_lt_succ _
  | cons part parts ih =>
    have some_byte : 0 < part.body.length := by simp [Part.body, crlf]
    simp only [flatMap_cons, length_append, length_cons] at ih ⊢
    omega

theorem readParts_behind (plain : 13 ∉ boundary) (safe : ∀ part ∈ parts, part.Safe bare boundary)
    {rounds : Nat} (enough : parts.length < rounds) :
    readParts bare boundary rounds (behind boundary parts) = some parts := by
  induction parts generalizing rounds with
  | nil =>
    obtain ⟨rounds,rfl⟩ := Nat.exists_eq_succ_of_ne_zero (Nat.ne_of_gt enough)
    rfl
  | cons part parts ih =>
    obtain ⟨rounds,rfl⟩ := Nat.exists_eq_succ_of_ne_zero (Nat.ne_of_gt (Nat.zero_lt_of_lt enough))
    obtain ⟨here,later⟩ := forall_mem_cons.mp safe
    have more : ¬ dashes <+: behind boundary (part :: parts) := by
      intro first
      cases (cons_prefix_cons.mp first).1
    have shape : behind boundary (part :: parts) =
      crlf ++ (part.headers.flatMap (· ++ crlf) ++ (crlf ++
        (part.content ++ (crlf ++ (dashes ++ boundary) ++ behind boundary parts)))) := by
      simp [behind, Part.body]
    rw [readParts, if_neg more, shape, dropPrefix_append]
    simp only [bind, Option.bind, readHeaders_lines here.lines, readContent_safe plain here,
      ih later (Nat.lt_of_succ_lt_succ enough)]
    rfl

/-- Safe parts are read back as they were sent, with nothing before, between or after them. -/
theorem parse_render (plain : 13 ∉ boundary) (safe : ∀ part ∈ parts, part.Safe bare boundary) :
    parse bare boundary (render boundary parts) = some parts := by
  rw [parse, render_eq, dropPrefix_append]
  apply readParts_behind plain safe
  rw [length_append]
  exact Nat.lt_of_lt_of_le length_lt_behind (Nat.le_add_left _ _)

end Multipart
