import OpenSecret.WebTools.Formatting

/-!
Raw HTML and the bounds on untrusted Markdown. The scanner compares bytes with ASCII
characters only, so it is read over characters. What it leaves of a text is settled by
the first tag that is never closed; every bound holds because the limit of the
shrinking loop falls until nothing is left to sanitize.
-/
namespace OpenSecret
open Framing Text List

section

/-- What follows the tag, for the text behind its `<`. -/
def findHtmlTagEnd (quote : Option Char) : Text → Option Text
  | [] => none
  | c :: rest =>
    match quote with
    | some active => findHtmlTagEnd (if c = active then none else some active) rest
    | none =>
      if c = '\'' ∨ c = '"' then findHtmlTagEnd (some c) rest
      else if c = '>' then some rest
      else findHtmlTagEnd none rest

/-- What stands in a tag before its end, from where `quote` is open: a quote is closed
    by its own character, and there is no `>` outside of quotes. -/
inductive TagBody : (quote : Option Char) → Text → Prop
  | nil : TagBody none []
  | opens {c : Char} {t : Text} (isQuote : c = '\'' ∨ c = '"') (later : TagBody (some c) t) :
      TagBody none (c :: t)
  | plain {c : Char} {t : Text} (unquoted : ¬(c = '\'' ∨ c = '"')) (goesOn : c ≠ '>')
      (later : TagBody none t) : TagBody none (c :: t)
  | closes {c : Char} {t : Text} (later : TagBody none t) : TagBody (some c) (c :: t)
  | quoted {active c : Char} {t : Text} (other : c ≠ active) (later : TagBody (some active) t) :
      TagBody (some active) (c :: t)

variable {quote : Option Char} {inside rest tag : Text}

/-- The scanner finds the first `>` outside of quotes. -/
theorem findHtmlTagEnd_iff : findHtmlTagEnd quote inside = some rest ↔
    ∃ body, TagBody quote body ∧ inside = body ++ '>' :: rest := by
  constructor
  · intro ends
    induction inside generalizing quote with
    | nil => cases ends
    | cons c inside ih =>
      cases quote with
      | some active =>
        obtain ⟨body,good,rfl⟩ := ih ends
        by_cases closes : c = active
        · rw [if_pos closes] at good
          exact ⟨c :: body,closes ▸ .closes good,rfl⟩
        · rw [if_neg closes] at good
          exact ⟨c :: body,.quoted closes good,rfl⟩
      | none =>
        rw [findHtmlTagEnd] at ends
        by_cases isQuote : c = '\'' ∨ c = '"'
        · obtain ⟨body,good,rfl⟩ := ih ((if_pos isQuote).symm.trans ends)
          exact ⟨c :: body,.opens isQuote good,rfl⟩
        rw [if_neg isQuote] at ends
        by_cases closes : c = '>'
        · cases (if_pos closes).symm.trans ends
          exact ⟨[],.nil,by rw [closes]; rfl⟩
        · obtain ⟨body,good,rfl⟩ := ih ((if_neg closes).symm.trans ends)
          exact ⟨c :: body,.plain isQuote closes good,rfl⟩
  · rintro ⟨body,good,rfl⟩
    induction good with
    | nil => rfl
    | opens isQuote _ ih => exact (if_pos isQuote).trans ih
    | plain unquoted goesOn _ ih => exact (if_neg unquoted).trans ((if_neg goesOn).trans ih)
    | closes _ ih => simpa [findHtmlTagEnd] using ih
    | quoted other _ ih => simpa [findHtmlTagEnd, other] using ih

example : findHtmlTagEnd none "a title='1 > 0'>x" = some ['x'] := by decide

/-- The tag is the text up to there, and scanned alone it ends there too. -/
theorem findHtmlTagEnd_split (ends : findHtmlTagEnd quote inside = some rest) :
    ∃ tag, inside = tag ++ rest ∧ findHtmlTagEnd quote tag = some [] := by
  obtain ⟨body,good,rfl⟩ := findHtmlTagEnd_iff.mp ends
  exact ⟨body ++ ['>'],by simp,findHtmlTagEnd_iff.mpr ⟨body,good,rfl⟩⟩

theorem findHtmlTagEnd_length (ends : findHtmlTagEnd quote inside = some rest) :
    rest.length ≤ inside.length := by
  obtain ⟨tag,rfl,-⟩ := findHtmlTagEnd_split ends
  simp

theorem findHtmlTagEnd_append (ends : findHtmlTagEnd quote tag = some []) (rest : Text) :
    findHtmlTagEnd quote (tag ++ rest) = some rest := by
  obtain ⟨body,good,rfl⟩ := findHtmlTagEnd_iff.mp ends
  exact findHtmlTagEnd_iff.mpr ⟨body,good,by simp⟩

/-- `html` is what stands behind the cursor. -/
def stripRawHtmlTags (html : Text) : Text :=
  html.takeWhile (· ≠ '<') ++
    match _found : html.dropWhile (· ≠ '<') with
    | [] => []
    | tagStart :: inside =>
      match _ends : findHtmlTagEnd none inside with
      | none => tagStart :: inside
      | some rest => stripRawHtmlTags rest
termination_by html.length
decreasing_by
  have shorter := findHtmlTagEnd_length _ends
  have whole : (html.dropWhile (· ≠ '<')).length ≤ html.length := (dropWhile_suffix _).length_le
  rw [_found, length_cons] at whole
  omega

theorem stripRawHtmlTags_nil : stripRawHtmlTags [] = [] := by
  rw [stripRawHtmlTags]
  rfl

theorem stripRawHtmlTags_outside {before : Text} (noTag : '<' ∉ before) (rest : Text) :
    stripRawHtmlTags (before ++ rest) = before ++ stripRawHtmlTags rest := by
  have outside : ∀ c ∈ before, decide (c ≠ '<') = true := by
    intro c mem
    exact decide_eq_true fun same => noTag (same ▸ mem)
  rw [stripRawHtmlTags, stripRawHtmlTags, takeWhile_append_of_pos outside, append_assoc]
  rw [dropWhile_append_of_pos outside]

theorem stripRawHtmlTags_tag (inside : Text) :
    stripRawHtmlTags ('<' :: inside) =
      (findHtmlTagEnd none inside).elim ('<' :: inside) stripRawHtmlTags := by
  rw [stripRawHtmlTags]
  split
  · rename_i missing
    cases missing
  · rename_i found
    cases found
    split <;> rename_i scan <;> rw [scan] <;> rfl

/-- A text as the tags divide it: what stands outside of them, and the last tag if it
    is never closed. -/
inductive Scanned : (html outside unterminated : Text) → Prop
  | text {t : Text} (noTag : '<' ∉ t) : Scanned t t []
  | unterminated {t inside : Text} (noTag : '<' ∉ t) (never : findHtmlTagEnd none inside = none) :
      Scanned (t ++ '<' :: inside) t ('<' :: inside)
  | tag {t inside html outside tail : Text} (noTag : '<' ∉ t)
      (ends : findHtmlTagEnd none inside = some [])
      (later : Scanned html outside tail) :
      Scanned (t ++ '<' :: (inside ++ html)) (t ++ outside) tail

variable {html outside tail : Text}

theorem scanned_exists (html : Text) : ∃ outside tail, Scanned html outside tail := by
  induction size : html.length using Nat.strongRecOn generalizing html with
  | ind n ih =>
    by_cases tagged : '<' ∈ html
    · obtain ⟨t,inside,rfl,noTag⟩ := eq_append_cons_of_mem tagged
      cases scan : findHtmlTagEnd none inside with
      | none => exact ⟨t,_,.unterminated noTag scan⟩
      | some rest =>
        obtain ⟨tag,rfl,alone⟩ := findHtmlTagEnd_split scan
        simp only [length_append, length_cons] at size
        obtain ⟨outside,tail,later⟩ := ih rest.length (by omega) rest rfl
        exact ⟨_,tail,.tag noTag alone later⟩
    · exact ⟨html,[],.text tagged⟩

theorem Scanned.outside_untagged (scanned : Scanned html outside tail) : '<' ∉ outside := by
  induction scanned with
  | text noTag => exact noTag
  | unterminated noTag => exact noTag
  | tag noTag _ _ ih => exact fun mem => (mem_append.mp mem).elim noTag ih

theorem Scanned.tail_unterminated (scanned : Scanned html outside tail) :
    tail = [] ∨ ∃ inside, tail = '<' :: inside ∧ findHtmlTagEnd none inside = none := by
  induction scanned with
  | text => exact .inl rfl
  | unterminated _ never => exact .inr ⟨_,rfl,never⟩
  | tag _ _ _ ih => exact ih

theorem Scanned.stripped (scanned : Scanned html outside tail) :
    stripRawHtmlTags html = outside ++ tail := by
  induction scanned with
  | @text t noTag =>
    have alone := stripRawHtmlTags_outside noTag []
    rw [stripRawHtmlTags_nil, append_nil] at alone
    rw [alone, append_nil]
  | unterminated noTag never =>
    rw [stripRawHtmlTags_outside noTag, stripRawHtmlTags_tag, never, Option.elim_none]
  | tag noTag ends _ ih =>
    rw [stripRawHtmlTags_outside noTag, stripRawHtmlTags_tag,
      findHtmlTagEnd_append ends, Option.elim_some, ih,
      append_assoc]

/-- What is left of a text scans as itself: its tags are gone but for the unterminated one. -/
theorem Scanned.again (scanned : Scanned html outside tail) :
    Scanned (outside ++ tail) outside tail := by
  have noTag := scanned.outside_untagged
  rcases scanned.tail_unterminated with rfl | ⟨inside,rfl,never⟩
  · rw [append_nil]
    exact .text noTag
  · exact .unterminated noTag never

/-- However the tags divide a text, the text outside of them is kept in order, a `<`
    is left only by a tag that is never closed, and stripping again changes nothing. -/
theorem raw_html_stripped (html : Text) :
    (∃ outside tail, Scanned html outside tail) ∧ ∀ outside tail, Scanned html outside tail →
      stripRawHtmlTags html = outside ++ tail ∧ '<' ∉ outside ∧
      (tail = [] ∨ ∃ inside, tail = '<' :: inside ∧ findHtmlTagEnd none inside = none) ∧
      stripRawHtmlTags (stripRawHtmlTags html) = stripRawHtmlTags html := by
  refine ⟨scanned_exists html,fun outside tail scanned => ?_⟩
  refine ⟨scanned.stripped,scanned.outside_untagged,scanned.tail_unterminated,?_⟩
  rw [scanned.stripped, scanned.again.stripped]

end

section
variable {L : WebLibrary}

theorem compactWords_length (t : Text) : (compactWords t).length ≤ t.length := by
  have words : ∀ (word t : Text), ([' '].intercalate (wordsFrom word t)).length ≤
      word.length + t.length := by
    intro word t
    induction t generalizing word with
    | nil =>
      unfold wordsFrom
      split <;> simp
    | cons c rest ih =>
      have next := ih []
      have longer := ih (word ++ [c])
      rw [length_nil] at next
      rw [length_append, length_singleton] at longer
      rw [wordsFrom, length_cons]
      split
      · split
        · omega
        · cases later : wordsFrom [] rest with
          | nil => simp
          | cons w ws =>
            rw [later] at next
            rw [intercalate_cons_cons, length_append, length_append, length_singleton]
            omega
      · omega
  have all := words [] t
  rwa [length_nil, zero_add] at all

/-- The limit falls in every round, and at zero the sanitized prefix is empty. -/
theorem shrinkLoop_ends (empty : L.stripImageEmbeds [] = []) (value : Text) (maxChars : Nat)
    {fuel prefixLimit : Nat} (enough : prefixLimit < fuel) :
    ∃ text, shrinkLoop L value maxChars fuel prefixLimit = some text ∧ text.length ≤ maxChars := by
  induction fuel generalizing prefixLimit with
  | zero => omega
  | succ fuel ih =>
    rw [shrinkLoop]
    split
    · rename_i fits
      exact ⟨_,rfl,fits⟩
    · rename_i long
      apply ih
      have positive : prefixLimit ≠ 0 := by
        rintro rfl
        rw [truncateChars, take_zero, empty] at long
        exact long (Nat.zero_le _)
      omega

theorem truncateSanitizedMarkdown_ends (empty : L.stripImageEmbeds [] = []) (value : Text)
    (maxChars : Nat) :
    ∃ text cut, truncateSanitizedMarkdown L value maxChars = some (text,cut) ∧
      text.length ≤ maxChars := by
  rw [truncateSanitizedMarkdown]
  split
  · rename_i fits
    exact ⟨value,false,rfl,fits⟩
  · obtain ⟨text,ends,fits⟩ := shrinkLoop_ends empty value maxChars (Nat.lt_succ_self maxChars)
    rw [ends]
    exact ⟨text,true,rfl,fits⟩

theorem compactUntrustedMarkdown_ends (empty : L.stripImageEmbeds [] = []) (value : Text)
    (maxChars : Nat) :
    ∃ compact, compactUntrustedMarkdown L value maxChars = some compact ∧
      compact.length ≤ maxChars := by
  obtain ⟨first,cut,bounded,fits⟩ := truncateSanitizedMarkdown_ends empty
    (replace (L.stripImageEmbeds value) "&#32;" [' ']) maxChars
  obtain ⟨second,cut',bounded',fits'⟩ := truncateSanitizedMarkdown_ends empty
    (replace (L.stripImageEmbeds value) "&#32;" [' ']) (maxChars - 3)
  have short := compactWords_length first
  have short' := compactWords_length second
  have whole : compactUntrustedMarkdown L value maxChars =
      if !cut then some (compactWords first)
      else if maxChars ≤ 3 then some ("...".toList.take maxChars)
      else some (compactWords second ++ "...".toList) := by
    simp only [compactUntrustedMarkdown, bounded, bounded', Option.bind_eq_bind,
      Option.bind_some, Option.map_some]
    rfl
  rw [whole]
  split
  · exact ⟨_,rfl,by omega⟩
  · split
    · exact ⟨_,rfl,length_take_le _ _⟩
    · refine ⟨_,rfl,?_⟩
      rw [length_append, show "...".toList.length = 3 from rfl]
      omega

theorem boundToolOutput_ends (empty : L.stripImageEmbeds [] = []) (output : Text) :
    ∃ bounded, boundToolOutput L output = some bounded ∧
      bounded.length ≤ maxWebToolOutputChars := by
  rw [boundToolOutput]
  split
  · rename_i fits
    exact ⟨output,rfl,fits⟩
  · obtain ⟨text,cut,bounded,fits⟩ := truncateSanitizedMarkdown_ends empty output
      (maxWebToolOutputChars - toolOutputTruncationMarker.length)
    have marker : toolOutputTruncationMarker.length ≤ maxWebToolOutputChars := by decide
    refine ⟨text ++ toolOutputTruncationMarker,?_,?_⟩
    · simp only [bounded, Option.map_some]
    · rw [length_append]
      omega

/-- For a sanitizer that makes nothing of nothing, whatever it does to other texts:
    the shrinking loop ends within its limit, and so do both of its users. -/
theorem sanitized_texts_bounded (L : WebLibrary) (empty : L.stripImageEmbeds [] = []) :
    (∀ value maxChars, ∃ text, text.length ≤ maxChars ∧
      ∀ rounds, maxChars < rounds → shrinkLoop L value maxChars rounds maxChars = some text) ∧
    (∀ value maxChars, ∃ text cut, truncateSanitizedMarkdown L value maxChars = some (text,cut) ∧
      text.length ≤ maxChars) ∧
    (∀ value maxChars, ∃ compact, compactUntrustedMarkdown L value maxChars = some compact ∧
      compact.length ≤ maxChars ∧ OneLine compact) ∧
    ∀ output, ∃ bounded, boundToolOutput L output = some bounded ∧
      bounded.length ≤ maxWebToolOutputChars := by
  refine ⟨fun value maxChars => ?_,truncateSanitizedMarkdown_ends empty,fun value maxChars => ?_,
    boundToolOutput_ends empty⟩
  · obtain ⟨text,ends,fits⟩ := shrinkLoop_ends empty value maxChars (Nat.lt_succ_self maxChars)
    exact ⟨text,fits,fun rounds more =>
      (shrinkLoop_fuel L value maxChars (Nat.lt_succ_self _) more).trans ends⟩
  obtain ⟨compact,ends,fits⟩ := compactUntrustedMarkdown_ends empty value maxChars
  exact ⟨compact,ends,fits,compactUntrustedMarkdown_oneLine L ends⟩

/-- A sanitizer that ends every text with a line break, so that the loop has to shrink. -/
def lengtheningLibrary : WebLibrary :=
  { plainLibrary with stripImageEmbeds t := if t = [] then [] else t ++ ['\n'] }

theorem lengthened_texts_bounded :
    truncateSanitizedMarkdown lengtheningLibrary "abcdefgh".toList 5 = some ("abcd\n".toList,true) ∧
      ∀ output, ∃ bounded, boundToolOutput lengtheningLibrary output = some bounded ∧
        bounded.length ≤ maxWebToolOutputChars :=
  ⟨by decide,(sanitized_texts_bounded lengtheningLibrary rfl).2.2.2⟩

end

end OpenSecret
