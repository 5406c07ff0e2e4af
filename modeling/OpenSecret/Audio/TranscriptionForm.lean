import OpenSecret.Encrypt
import OpenSecret.Foundation.Multipart
import OpenSecret.Foundation.Text

/-!
`send_transcription_request` of `openai.rs`: the form that carries a chunk of audio to a
provider, and how a reader of forms takes it apart. The text of a temperature is a parameter.
-/
namespace OpenSecret.Audio
open Framing Multipart List

variable {Temperature : Type}

structure TranscriptionParams (Temperature : Type) where
  audioData : Bytes
  filename : Text
  contentType : Text
  language : Option Text
  prompt : Option Text
  responseFormat : Text
  temperature : Option Temperature

def sanitizeFormField (value : Text) : Text := value.filter fun c => c ≠ '\r' && c ≠ '\n'

def safeFilename (filename : Text) : Text :=
  filename.map fun c => if c.isAlphanum || c = '.' || c = '_' || c = '-' then c else '_'

def formBoundary (id : Uuid) : Text := "----FormBoundary".toList ++ Text.lowerHex id.bytes

def boundaryLine (boundary : Text) : Bytes := utf8 ("--".toList ++ boundary ++ "\r\n".toList)

def textField (boundary name value : Text) : Bytes :=
  boundaryLine boundary ++
    utf8 ("Content-Disposition: form-data; name=\"".toList ++ name ++ "\"\r\n\r\n") ++
    utf8 value ++ utf8 "\r\n"

def formData (toText : Temperature → Text) (boundary model : Text)
    (params : TranscriptionParams Temperature) : Bytes :=
  textField boundary "model" (sanitizeFormField model) ++
  (boundaryLine boundary ++
    utf8 ("Content-Disposition: form-data; name=\"file\"; filename=\"".toList ++
      safeFilename params.filename ++ "\"\r\n") ++
    utf8 ("Content-Type: ".toList ++ sanitizeFormField params.contentType ++ "\r\n\r\n".toList) ++
    params.audioData ++ utf8 "\r\n") ++
  params.language.elim [] (fun lang => textField boundary "language" (sanitizeFormField lang)) ++
  params.prompt.elim [] (fun p => textField boundary "prompt" (sanitizeFormField p)) ++
  textField boundary "response_format" (sanitizeFormField params.responseFormat) ++
  params.temperature.elim [] (fun temp => textField boundary "temperature" (toText temp)) ++
  utf8 ("--".toList ++ boundary ++ "--\r\n".toList)

structure FormField where
  name : Bytes
  filename : Option Bytes
  contentType : Option Bytes
  value : Bytes
  deriving DecidableEq

/-- The name and the file name that a header gives to its part. -/
def readDisposition (line : Bytes) : Option (Bytes × Option Bytes) := do
  let rest ← line.dropPrefix? (utf8 "Content-Disposition: form-data; name=\"")
  let (name,rest) ← rest.dropInfix? [34]
  if rest = [] then return (name,none)
  else
    let rest ← rest.dropPrefix? (utf8 "; filename=\"")
    let (filename,rest) ← rest.dropInfix? [34]
    if rest = [] then return (name,some filename) else none

def readField (part : Part) : Option FormField :=
  match part.headers with
  | [disposition] =>
    (readDisposition disposition).map fun named => ⟨named.1,named.2,none,part.content⟩
  | [disposition,type] => do
    let named ← readDisposition disposition
    let contentType ← type.dropPrefix? (utf8 "Content-Type: ")
    return ⟨named.1,named.2,some contentType,part.content⟩
  | _ => none

def readForm (bare : Bool) (boundary : Text) (body : Bytes) : Option (List FormField) :=
  (parse bare (utf8 boundary) body).bind (·.mapM readField)

/-- The texts that are sent as fields of their own, by name. -/
def sentTexts (toText : Temperature → Text) (params : TranscriptionParams Temperature) :
    List (Text × Text) :=
  (params.language.map fun lang => ("language".toList,sanitizeFormField lang)).toList ++
  (params.prompt.map fun p => ("prompt".toList,sanitizeFormField p)).toList ++
  [("response_format".toList,sanitizeFormField params.responseFormat)] ++
  (params.temperature.map fun temp => ("temperature".toList,toText temp)).toList

def textFormField (field : Text × Text) : FormField := ⟨utf8 field.1,none,none,utf8 field.2⟩

def fileFormField (params : TranscriptionParams Temperature) : FormField :=
  ⟨utf8 "file",some (utf8 (safeFilename params.filename)),
    some (utf8 (sanitizeFormField params.contentType)),
    params.audioData⟩

def sentFields (toText : Temperature → Text) (model : Text)
    (params : TranscriptionParams Temperature) : List FormField :=
  textFormField ("model",sanitizeFormField model) :: fileFormField params ::
    (sentTexts toText params).map textFormField

section
variable {params : TranscriptionParams Temperature} {bare : Bool} {id : Uuid}

def textPart (field : Text × Text) : Part :=
  ⟨[utf8 ("Content-Disposition: form-data; name=\"".toList ++ field.1 ++ "\"")],utf8 field.2⟩

def filePart (params : TranscriptionParams Temperature) : Part :=
  ⟨[utf8 ("Content-Disposition: form-data; name=\"file\"; filename=\"".toList ++
    safeFilename params.filename ++ "\""),
    utf8 ("Content-Type: ".toList ++ sanitizeFormField params.contentType)],params.audioData⟩

theorem utf8_append (t u : Text) : utf8 (t ++ u) = utf8 t ++ utf8 u := flatMap_append

theorem crlf_eq : utf8 "\r\n" = crlf ∧ utf8 "\"\r\n" = utf8 "\"".toList ++ crlf ∧
    utf8 "\"\r\n\r\n" = utf8 "\"".toList ++ (crlf ++ crlf) ∧ utf8 "\r\n\r\n" = crlf ++ crlf ∧
    utf8 "--\r\n" = dashes ++ crlf ∧ utf8 "--" = dashes := by
  decide +kernel

theorem textField_eq (boundary name value : Text) :
    textField boundary name value = dashes ++ utf8 boundary ++ (textPart (name,value)).body := by
  simp only [textField, boundaryLine, textPart, Part.body, utf8_append,
    crlf_eq, append_assoc, flatMap_cons,
    flatMap_nil, append_nil]

theorem formData_eq_render (toText : Temperature → Text) (boundary model : Text)
    (params : TranscriptionParams Temperature) :
    formData toText boundary model params = render (utf8 boundary)
      (textPart ("model".toList,sanitizeFormField model) :: filePart params ::
        (sentTexts toText params).map textPart) := by
  have optional : ∀ (α : Type) (o : Option α) (name : Text) (print : α → Text),
      o.elim [] (fun a => textField boundary name (print a)) =
        (((o.map fun a => (name,print a)).toList.map textPart).flatMap fun part =>
          dashes ++ utf8 boundary ++ part.body) := by
    intro α o name print
    cases o with
    | none => rfl
    | some a =>
      rw [Option.elim_some, textField_eq]
      exact (append_nil _).symm
  unfold formData sentTexts
  rw [optional, optional, optional, textField_eq, textField_eq]
  simp only [render, boundaryLine, filePart, Part.body, utf8_append,
    crlf_eq, append_assoc, flatMap_cons,
    flatMap_nil, append_nil, map_append, flatMap_append, map_cons, map_nil]

theorem mem_of_utf8 {c : Char} {t : Text} (ascii : c.toNat < 128)
    (mem : UInt8.ofNat c.toNat ∈ utf8 t) : c ∈ t := by
  obtain ⟨d,inside,byte⟩ := mem_flatMap.mp mem
  have same : d.toNat = c.toNat := by
    have byte := mem_map_of_mem (f := UInt8.toNat) byte
    unfold String.utf8EncodeChar at byte
    simp only [show d.val.toNat = d.toNat from rfl] at byte
    -- a character that is not ASCII has larger bytes only
    split_ifs at byte <;> simp at byte <;> omega
  exact Char.ext (UInt32.toNat_inj.mp same) ▸ inside

theorem cr_not_mem {t : Text} (absent : '\r' ∉ t) :
    13 ∉ utf8 t := fun mem => absent (mem_of_utf8 (by decide) mem)

theorem quote_not_mem {t : Text} (absent : '"' ∉ t) : 34 ∉ utf8 t :=
  fun mem => absent (mem_of_utf8 (by decide) mem)

theorem cr_not_sanitized (value : Text) :
    '\r' ∉ sanitizeFormField value := by simp [sanitizeFormField]

theorem safeFilename_plain (filename : Text) :
    '\r' ∉ safeFilename filename ∧ '"' ∉ safeFilename filename := by
  have kept : ∀ c ∈ safeFilename filename, (c.isAlphanum || c = '.' || c = '_' || c = '-') =
      true := by
    intro c mem
    obtain ⟨d,-,rfl⟩ := mem_map.mp mem
    split
    · assumption
    · rfl
  exact ⟨fun mem => absurd (kept _ mem) (by decide),fun mem =>
    absurd (kept _ mem) (by decide)⟩

theorem quote_eq : utf8 "\"" = [34] := by decide

theorem dropInfix_quote {t : Bytes} (absent : 34 ∉ t) (rest : Bytes) :
    (t ++ (34 :: rest)).dropInfix? [34] = some (t,rest) := by
  refine dropInfix_first not_mem_nil (fun inside => absent ?_) rest
  exact inside.subset mem_cons_self

theorem readField_text {field : Text × Text} (plain : '"' ∉ field.1) :
    readField (textPart field) = some (textFormField field) := by
  have found := dropInfix_quote (quote_not_mem plain)
  simp only [readField, textPart, readDisposition, utf8_append,
    append_assoc, dropPrefix_append, quote_eq, found, bind,
    Option.bind, if_true, pure, Option.map_some]
  rfl

theorem readField_file : readField (filePart params) = some (fileFormField params) := by
  have opening : utf8 "Content-Disposition: form-data; name=\"file\"; filename=\"" =
      utf8 "Content-Disposition: form-data; name=\"".toList ++
        (utf8 "file".toList ++ (34 :: utf8 "; filename=\"")) := by
    decide +kernel
  have named := dropInfix_quote (quote_not_mem (t := "file") (by decide))
  have filed := dropInfix_quote (quote_not_mem (safeFilename_plain params.filename).2)
  have more : utf8 "; filename=\"".toList ++ (utf8 (safeFilename params.filename) ++ [34]) ≠
    [] := by simp
  simp only [readField, filePart, readDisposition, utf8_append,
    opening, append_assoc, cons_append, dropPrefix_append,
    quote_eq, named, filed, bind, Option.bind, if_neg more, if_true, pure, fileFormField]

theorem readField_texts {fields : List (Text × Text)} (plain : ∀ field ∈ fields, '"' ∉ field.1) :
    (fields.map textPart).mapM readField = some (fields.map textFormField) := by
  induction fields with
  | nil => rfl
  | cons field fields ih =>
    obtain ⟨here,later⟩ := forall_mem_cons.mp plain
    rw [map_cons, mapM_cons, readField_text here, ih later]
    rfl

theorem cr_not_boundary (id : Uuid) : 13 ∉ utf8 (formBoundary id) := by
  refine cr_not_mem fun mem => ?_
  rcases mem_append.mp mem with fixed | digits
  · revert fixed
    decide
  · exact Text.not_mem_lowerHex rfl _ digits

/-- A header line: a fixed text, and more without a carriage return. -/
theorem headerLine {fixed more last : Text} (solid : fixed ≠ [])
    (plain : '\r' ∉ fixed ∧ '\r' ∉ more ∧ '\r' ∉ last) :
    13 ∉ utf8 (fixed ++ more ++ last) ∧ utf8 (fixed ++ more ++ last) ≠ [] := by
  rw [append_assoc]
  refine ⟨cr_not_mem (by simpa using plain),fun empty => solid ?_⟩
  exact (append_eq_nil_iff.mp (utf8_injective (u := []) empty)).1

theorem start_safe {content : Bytes} (apart : bare = true → ¬ utf8 (formBoundary id) <:+: content) :
    bare = true → ¬ dashes ++ utf8 (formBoundary id) <+: content := fun isBare first =>
  apart isBare ((suffix_append dashes _).isInfix.trans first.isInfix)

theorem textPart_safe {field : Text × Text} (name : '\r' ∉ field.1) (value : '\r' ∉ field.2)
    (apart : bare = true → ¬ utf8 (formBoundary id) <:+: utf8 field.2) :
    (textPart field).Safe bare (utf8 (formBoundary id)) := by
  refine ⟨forall_mem_singleton.mpr ?_,fun inside => ?_,start_safe apart⟩
  · exact headerLine (by decide +kernel) ⟨by decide +kernel,name,by decide⟩
  · exact cr_not_mem value (inside.subset mem_cons_self)

theorem filePart_safe (audio : ¬ utf8 (formBoundary id) <:+: params.audioData) :
    (filePart params).Safe bare (utf8 (formBoundary id)) := by
  refine ⟨forall_mem_cons.mpr ⟨?_,forall_mem_singleton.mpr ?_⟩,fun inside =>
    ?_,start_safe fun _ => audio⟩
  · exact headerLine (by decide +kernel) ⟨by decide +kernel,
      (safeFilename_plain params.filename).1,by decide⟩
  · rw [← append_nil (_ ++ sanitizeFormField _)]
    exact headerLine (by decide +kernel) ⟨by decide,cr_not_sanitized params.contentType,not_mem_nil⟩
  · refine audio (List.IsInfix.trans ?_ inside)
    exact ((suffix_append dashes _).trans (suffix_append crlf _)).isInfix

end

/-- For all parameters and every reader of multipart forms: the form is read as exactly the
    fields that were meant, in order, with the texts without their line breaks, the sanitized
    file name and the audio as it is. The audio must not have the boundary in it; for a `bare`
    reader, nor may a text without its line breaks. -/
theorem transcription_form_read_back (toText : Temperature → Text) (bare : Bool) (id : Uuid)
    (model : Text) (params : TranscriptionParams Temperature)
    (printed : ∀ temp ∈ params.temperature, '\r' ∉ toText temp)
    (audio : ¬ utf8 (formBoundary id) <:+: params.audioData)
    (apart : bare = true → ∀ text ∈ sanitizeFormField model :: (sentTexts toText params).map (·.2),
      ¬ utf8 (formBoundary id) <:+: utf8 text) :
    readForm bare (formBoundary id) (formData toText (formBoundary id) model params) =
      some (sentFields toText model params) := by
  have texts : ∀ field ∈ sentTexts toText params, ('"' ∉ field.1 ∧ '\r' ∉ field.1) ∧
      '\r' ∉ field.2 := by
    intro field mem
    simp only [sentTexts, mem_append, Option.mem_toList, Option.map_eq_some_iff,
      mem_singleton] at mem
    rcases mem with ((⟨lang,-,rfl⟩ | ⟨p,-,rfl⟩) | rfl) | ⟨temp,given,rfl⟩
    · exact ⟨by simp,cr_not_sanitized lang⟩
    · exact ⟨by simp,cr_not_sanitized p⟩
    · exact ⟨by simp,cr_not_sanitized params.responseFormat⟩
    · exact ⟨by simp,printed temp given⟩
  rw [readForm, formData_eq_render, parse_render (cr_not_boundary id),
    Option.bind_some, mapM_cons, mapM_cons,
    readField_text (by simp), readField_file, readField_texts fun field mem =>
    (texts field mem).1.1]
  · rfl
  · refine forall_mem_cons.mpr ⟨?_,forall_mem_cons.mpr ⟨filePart_safe audio,forall_mem_map.mpr ?_⟩⟩
    · exact textPart_safe (by simp) (cr_not_sanitized model) fun isBare =>
        apart isBare _ mem_cons_self
    · intro field mem
      refine textPart_safe (texts field mem).1.2 (texts field mem).2 fun isBare =>
        apart isBare _ ?_
      exact mem_cons_of_mem _ (mem_map_of_mem mem)

def hostileParams : TranscriptionParams Nat where
  audioData := [13,10,45,45]
  filename := "a\".wav\r\nX: 1"
  contentType := "audio/wav\r\nX: 1"
  language := none
  prompt := some "\r\n--x\"; name=\"y\""
  responseFormat := "json"
  temperature := some 1

theorem hostile_form_read_back :
    readForm true (formBoundary (.filled 16 7))
      (formData (Nat.toDigits 10) (formBoundary (.filled 16 7)) "m\n".toList hostileParams) =
      some (sentFields (Nat.toDigits 10) "m\n".toList hostileParams) :=
  transcription_form_read_back (Nat.toDigits 10) true (.filled 16 7)
    "m\n".toList hostileParams (by decide +kernel)
    (by decide +kernel) (fun _ => by decide +kernel)

end OpenSecret.Audio
