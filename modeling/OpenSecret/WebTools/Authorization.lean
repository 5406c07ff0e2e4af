import OpenSecret.WebTools.Formatting
import OpenSecret.Prompt.Messages

/-!
The URLs that the visible conversation authorizes: those a user wrote, and those
in the canonical fields of earlier tool outputs. The collectors stop at a limit,
which they check before every candidate.
-/
namespace OpenSecret
open Framing Text

def maxPromptAllowedUrls : Nat := 512

/-- The class of the URL pattern: no white space, angle bracket, quote or backtick. -/
def isUrlChar (c : Char) : Bool :=
  !isWhitespace c && c ∉ ['<','>','"',Char.ofNat 0x27,Char.ofNat 0x60]

/-- `https` in any case, under simple case folding, then `://` and one URL character. -/
def startsUrl : Text → Bool
  | h :: t :: t' :: p :: s :: ':' :: '/' :: '/' :: c :: _ =>
    h ∈ ['h','H'] && t ∈ ['t','T'] && t' ∈ ['t','T'] && p ∈ ['p','P'] &&
      s ∈ ['s','S',Char.ofNat 0x17F] && isUrlChar c
  | _ => false

def urlMatch (t : Text) : Text := t.take 8 ++ (t.drop 8).takeWhile isUrlChar

/-- The matches from left to right; `skip` characters belong to the last one. -/
def findUrls : (skip : Nat) → Text → List Text
  | _, [] => []
  | skip + 1, _ :: rest => findUrls skip rest
  | 0, c :: rest =>
    if startsUrl (c :: rest) then
      urlMatch (c :: rest) :: findUrls ((urlMatch (c :: rest)).length - 1) rest
    else findUrls 0 rest

def openingOf (c : Char) : Option Char :=
  if c = ')' then some '('
  else if c = ']' then some '['
  else if c = '\x7d' then some '\x7b'
  else none

/-- Removes unmatched closing brackets; the text is reversed. -/
def trimClosers : Text → Text
  | [] => []
  | last :: rest =>
    match openingOf last with
    | none => last :: rest
    | some opening =>
      if (last :: rest).count last ≤ (last :: rest).count opening then last :: rest
      else trimClosers rest

def trimUrlCandidate (candidate : Text) : Text :=
  (trimClosers (trimEndMatches candidate fun c => c = '.' || c = ',').reverse).reverse

def isNumberedKagiResultHeading (line : Text) : Bool :=
  (splitOnce ". " line).any fun parts => !parts.1.isEmpty && parts.1.all Char.isDigit

section
variable (L : WebLibrary)

def insertNormalizedUrl (candidate : Text) (allowed : Finset Text) : Finset Text :=
  match normalizePublicHttpsUrl L candidate with
  | .ok url => insert url allowed
  | .error _ => allowed

/-- Candidates one by one, as long as there is room. -/
def insertAll (limit : Nat) : Finset Text → List Text → Finset Text
  | allowed, [] => allowed
  | allowed, candidate :: rest =>
    if allowed.card ≥ limit then allowed
    else insertAll limit (insertNormalizedUrl L candidate allowed) rest

def collectPublicUrlsFromText (text : Text) (allowed : Finset Text) (limit : Nat) : Finset Text :=
  insertAll L limit allowed ((findUrls 0 text).map trimUrlCandidate)

def collectParts (limit : Nat) : Finset Text → List Json → Finset Text
  | allowed, [] => allowed
  | allowed, part :: rest =>
    if allowed.card ≥ limit then allowed
    else
      let isText := (part.text "type".toList).any fun kind =>
        kind = "text".toList || kind = "input_text".toList
      let allowed := match part.text "text".toList with
        | some text => if isText then collectPublicUrlsFromText L text allowed limit else allowed
        | none => allowed
      collectParts limit allowed rest

def collectUserMessageUrls (content : Option Json) (allowed : Finset Text) (limit : Nat) :
    Finset Text :=
  match content with
  | some (.str text) => collectPublicUrlsFromText L text allowed limit
  | some (.arr parts) => collectParts L limit allowed parts
  | _ => allowed

def collectSearchLines (limit : Nat) :
    (expectsCanonicalUrl : Bool) → Finset Text → List Text → Finset Text
  | _, allowed, [] => allowed
  | expectsCanonicalUrl, allowed, line :: rest =>
    if allowed.card ≥ limit then allowed
    else if expectsCanonicalUrl then
      match stripPrefix line "   URL: " with
      | some url => collectSearchLines limit false (insertNormalizedUrl L url allowed) rest
      | none => collectSearchLines limit false allowed rest
    else collectSearchLines limit (isNumberedKagiResultHeading line) allowed rest

def pageLineUrl (line : Text) : Option Text :=
  ((stripPrefix line "- Page ").bind (splitOnce ": ")).map Prod.snd

def collectPageLines (limit : Nat) : Finset Text → List Text → Finset Text
  | allowed, [] => allowed
  | allowed, line :: rest =>
    if allowed.card ≥ limit then allowed
    else match pageLineUrl line with
      | some url => collectPageLines limit (insertNormalizedUrl L url allowed) rest
      | none => collectPageLines limit allowed rest

def collectTrustedToolOutputUrls (toolName output : Text) (allowed : Finset Text) (limit : Nat) :
    Finset Text :=
  if toolName = webSearch ∧ startsWith output kagiSearchResultsStart then
    collectSearchLines L limit false allowed (lines output)
  else if toolName = openUrls ∧ startsWith output kagiOpenedPagesStart then
    match splitOnce "\n\nRequested pages:\n" output with
    | none => allowed
    | some (_,requestedPages) =>
      let trustedSection := ((splitOnce "\n\n" requestedPages).map Prod.fst).getD requestedPages
      collectPageLines L limit allowed (lines trustedSection)
  else allowed

def namedCall (toolCall : Json) : Option (Text × Text) := do
  let id ← toolCall.text "id"
  let name ← (toolCall.get "function").bind (·.text "name")
  if name = webSearch ∨ name = openUrls then some (id,name) else none

/-- The web tool calls of the assistant, in order. -/
def toolNamesByCallId (promptMessages : List Json) : List (Text × Text) :=
  promptMessages.flatMap fun message =>
    if message.text "role" = some roleAssistant then
      (((message.get "tool_calls").bind Json.asArray).getD []).filterMap namedCall
    else []

def collectMessage (toolNames : List (Text × Text)) (message : Json) (allowed : Finset Text) :
    Finset Text :=
  if message.text "role" = some roleUser then
    collectUserMessageUrls L (message.get "content") allowed maxPromptAllowedUrls
  else if message.text "role" = some roleTool then
    -- the latest call under an id names its tool
    match (message.text "tool_call_id").bind fun id => toolNames.reverse.lookup id,
        message.text "content" with
    | some toolName, some output =>
      collectTrustedToolOutputUrls L toolName output allowed maxPromptAllowedUrls
    | _, _ => allowed
  else allowed

def collectMessages (toolNames : List (Text × Text)) : Finset Text → List Json → Finset Text
  | allowed, [] => allowed
  | allowed, message :: older =>
    if allowed.card ≥ maxPromptAllowedUrls then allowed
    else collectMessages toolNames (collectMessage L toolNames message allowed) older

def collectKagiAllowedUrlsFromPrompt (promptMessages : List Json) : Finset Text :=
  collectMessages L (toolNamesByCallId promptMessages) ∅ promptMessages.reverse

end

end OpenSecret
