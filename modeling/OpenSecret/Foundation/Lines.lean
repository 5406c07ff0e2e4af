import OpenSecret.Foundation.Text

/-!
Line-oriented reading of text: lines, the first occurrence of a separator, words.
A formatter that writes only text without line breaks into its lines is read
back line by line.
-/
namespace Text
open Framing List

def stripCr (line : Text) : Text := if line.getLast? = some '\r' then line.dropLast else line

/-- `line` is what was read of the current line; the last one may lack its line break. -/
def linesFrom (line : Text) : Text → List Text
  | [] => if line = [] then [] else [line]
  | c :: rest =>
    if c = '\n' then stripCr line :: linesFrom [] rest else linesFrom (line ++ [c]) rest

def lines (t : Text) : List Text := linesFrom [] t

def unlines (ls : List Text) : Text := ls.flatMap (· ++ ['\n'])

def splitOnce (separator : Text) : Text → Option (Text × Text)
  | [] => if separator = [] then some ([],[]) else none
  | c :: rest =>
    if separator <+: c :: rest then some ([],(c :: rest).drop separator.length)
    else (splitOnce separator rest).map (Prod.map (c :: ·) id)

def wordsFrom (word : Text) : Text → List Text
  | [] => if word = [] then [] else [word]
  | c :: rest =>
    if isWhitespace c then (if word = [] then wordsFrom [] rest else word :: wordsFrom [] rest)
    else wordsFrom (word ++ [c]) rest

def splitWhitespace (t : Text) : List Text := wordsFrom [] t

/-- Occurrences from left to right; `skip` characters belong to the last one. -/
def replaceFrom (needle replacement : Text) : (skip : Nat) → Text → Text
  | _, [] => []
  | skip + 1, _ :: rest => replaceFrom needle replacement skip rest
  | 0, c :: rest =>
    if needle <+: c :: rest then replacement ++
      replaceFrom needle replacement (needle.length - 1) rest
    else c :: replaceFrom needle replacement 0 rest

def replace (t needle replacement : Text) : Text := replaceFrom needle replacement 0 t

def trimEndMatches (t : Text) (p : Char → Bool) : Text := (t.reverse.dropWhile p).reverse

/-- Text on one line whose only white space is the space character. -/
def OneLine (t : Text) : Prop := ∀ c ∈ t, isWhitespace c = true → c = ' '

instance (t : Text) : Decidable (OneLine t) :=
  List.decidableBAll (fun c => isWhitespace c = true → c = ' ') t

variable {a t : Text} {ls : List Text} {c : Char} {tail : Text}

theorem OneLine.append {b : Text} (left : OneLine a) (right : OneLine b) : OneLine (a ++ b) := by
  intro c mem white
  rcases mem_append.mp mem with inLeft | inRight
  · exact left c inLeft white
  · exact right c inRight white

theorem OneLine.no_break (one : OneLine t) : '\n' ∉ t :=
  fun mem => absurd (one '\n' mem (by decide)) (by decide)

theorem OneLine.of_no_whitespace (none : ∀ c ∈ t, isWhitespace c = false) : OneLine t := by
  intro c mem white
  rw [none c mem] at white
  cases white

theorem OneLine.stripCr (one : OneLine t) : stripCr t = t := by
  unfold Text.stripCr
  rw [if_neg]
  intro last
  exact absurd (one '\r' (mem_of_getLast? last) (by decide)) (by decide)

theorem wordsFrom_no_whitespace {word : Text} (start : ∀ c ∈ word, isWhitespace c = false) :
    ∀ w ∈ wordsFrom word t, ∀ c ∈ w, isWhitespace c = false := by
  induction t generalizing word with
  | nil =>
    intro w mem
    unfold wordsFrom at mem
    split at mem
    · cases mem
    · rwa [mem_singleton.mp mem]
  | cons a rest ih =>
    unfold wordsFrom
    split
    · split
      · exact ih (by simp)
      · intro w mem
        rcases mem_cons.mp mem with rfl | later
        · exact start
        · exact ih (by simp) w later
    · rename_i solid
      refine ih fun c mem => ?_
      rcases mem_snoc.mp mem with inWord | rfl
      · exact start c inWord
      · simpa using solid

theorem oneLine_intercalate {parts : List Text} (each : ∀ p ∈ parts, OneLine p) :
    OneLine ([' '].intercalate parts) := by
  induction parts with
  | nil => exact fun c mem => by cases mem
  | cons p parts ih =>
    have first := each p (by simp)
    have later := ih fun q mem => each q (by simp [mem])
    cases parts with
    | nil => simpa using first
    | cons q parts =>
      rw [intercalate_cons_cons]
      exact (first.append (by decide)).append later

theorem oneLine_words (t : Text) : OneLine ([' '].intercalate (splitWhitespace t)) :=
  oneLine_intercalate fun w mem =>
    .of_no_whitespace (wordsFrom_no_whitespace (by simp) w mem)

theorem linesFrom_break (noBreak : '\n' ∉ a) (line rest : Text) :
    linesFrom line (a ++ '\n' :: rest) = stripCr (line ++ a) :: linesFrom [] rest := by
  induction a generalizing line with
  | nil => simp [linesFrom]
  | cons c a ih =>
    simp only [mem_cons, not_or] at noBreak
    rw [cons_append, linesFrom, if_neg (Ne.symm noBreak.1), ih noBreak.2]
    simp

theorem linesFrom_last (noBreak : '\n' ∉ a) (line : Text) :
    linesFrom line a = if line ++ a = [] then [] else [line ++ a] := by
  induction a generalizing line with
  | nil => simp [linesFrom]
  | cons c a ih =>
    simp only [mem_cons, not_or] at noBreak
    rw [linesFrom, if_neg (Ne.symm noBreak.1), ih noBreak.2]
    simp

theorem unlines_append (a b : List Text) : unlines (a ++ b) = unlines a ++ unlines b := by
  simp [unlines]

theorem lines_unlines_append (each : ∀ l ∈ ls, OneLine l) (rest : Text) :
    lines (unlines ls ++ rest) = ls ++ lines rest := by
  induction ls with
  | nil => rfl
  | cons l ls ih =>
    have first := each l (by simp)
    have step : unlines (l :: ls) ++ rest = l ++ '\n' :: (unlines ls ++ rest) := by simp [unlines]
    rw [lines, step, linesFrom_break first.no_break, nil_append, first.stripCr]
    exact congrArg (l :: ·) (ih fun q mem => each q (by simp [mem]))

theorem lines_intercalate (each : ∀ l ∈ ls, OneLine l) (solid : ∀ l ∈ ls, l ≠ []) :
    lines (['\n'].intercalate ls) = ls := by
  induction ls with
  | nil => rfl
  | cons l ls ih =>
    have first := each l (by simp)
    cases ls with
    | nil => simp [lines, linesFrom_last first.no_break, solid l]
    | cons m ls =>
      rw [intercalate_cons_cons, append_assoc, singleton_append, lines,
        linesFrom_break first.no_break, nil_append, first.stripCr]
      exact congrArg (l :: ·)
        (ih (fun q mem => each q (by simp [mem]))
          (fun q mem => solid q (by simp [mem])))

theorem splitOnce_skip (absent : c ∉ a) (t : Text) :
    splitOnce (c :: tail) (a ++ t) = (splitOnce (c :: tail) t).map (Prod.map (a ++ ·) id) := by
  induction a with
  | nil =>
    rw [nil_append]
    cases splitOnce (c :: tail) t <;> rfl
  | cons d a ih =>
    simp only [mem_cons, not_or] at absent
    have elsewhere : ¬ c :: tail <+: d :: (a ++ t) := fun here =>
      absent.1 (cons_prefix_cons.mp here).1
    rw [cons_append, splitOnce, if_neg elsewhere, ih absent.2, Option.map_map]
    rfl

theorem splitOnce_here (t : Text) :
    splitOnce (c :: tail) ((c :: tail) ++ t) = some ([],t) := by
  rw [cons_append, splitOnce, if_pos ⟨t,rfl⟩]
  simp

theorem splitOnce_first (absent : c ∉ a) (t : Text) :
    splitOnce (c :: tail) (a ++ ((c :: tail) ++ t)) = some (a,t) := by
  rw [splitOnce_skip absent, splitOnce_here]
  simp

theorem splitOnce_block (some_line : ls ≠ []) (noBreak : ∀ l ∈ ls, '\n' ∉ l)
    (solid : ∀ l ∈ ls, l ≠ []) (rest : Text) :
    splitOnce ['\n','\n'] (unlines ls ++ '\n' :: rest) = some (['\n'].intercalate ls,rest) := by
  induction ls with
  | nil => exact absurd rfl some_line
  | cons l ls ih =>
    have step : unlines (l :: ls) ++ '\n' :: rest = l ++ '\n' :: (unlines ls ++ '\n' :: rest) := by
      simp [unlines]
    rw [step]
    cases ls with
    | nil =>
      have last : splitOnce ['\n','\n'] (l ++ (['\n','\n'] ++ rest)) = some (l,rest) :=
        splitOnce_first (noBreak l (by simp)) rest
      simpa [unlines] using last
    | cons m ls =>
      have later := ih (by simp) (fun q mem => noBreak q (by simp [mem]))
        (fun q mem => solid q (by simp [mem]))
      obtain ⟨d,m',rfl⟩ : ∃ d m', m = d :: m' := exists_cons_of_ne_nil (solid m (by simp))
      have solidStart : '\n' ≠ d := fun same =>
        noBreak (d :: m') (by simp) (same ▸ mem_cons_self)
      have between : ¬ ['\n','\n'] <+: '\n' :: (unlines ((d :: m') :: ls) ++ '\n' :: rest) := by
        intro here
        exact solidStart (cons_prefix_cons.mp (cons_prefix_cons.mp here).2).1
      rw [splitOnce_skip (noBreak l (by simp)), splitOnce, if_neg between, later]
      simp [intercalate_cons_cons]

end Text
