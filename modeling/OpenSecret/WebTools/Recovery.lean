import OpenSecret.WebTools.Soundness

/-!
How URLs come back from the text of a conversation. What a user wrote is cut off
at surrounding prose; what a tool listed is normalized a second time, and so comes
back if normalization accepts its own result.
-/
namespace OpenSecret
open Framing Text List

section
variable {t candidate : Text}

def EndsInProse (t : Text) : Prop := t.getLast? = some '.' ∨ t.getLast? = some ','

/-- The last character closes a bracket of which more are closed than opened. -/
def EndsUnmatched (t : Text) : Prop :=
  ∃ last opening, t.getLast? = some last ∧ openingOf last = some opening ∧
    t.count opening < t.count last

theorem trimClosers_removes (t : Text) :
    ∃ closers, t = closers ++ trimClosers t ∧ ∀ c ∈ closers, (openingOf c).isSome = true := by
  induction t with
  | nil => exact ⟨[],rfl,by simp⟩
  | cons last rest ih =>
    unfold trimClosers
    split
    · exact ⟨[],rfl,by simp⟩
    · rename_i opening closes
      split
      · exact ⟨[],rfl,by simp⟩
      · obtain ⟨closers,whole,each⟩ := ih
        refine ⟨last :: closers,congrArg (last :: ·) whole,?_⟩
        intro c mem
        rcases mem_cons.mp mem with rfl | later
        · rw [closes, Option.isSome_some]
        · exact each c later

theorem trimClosers_matched (t : Text) : ¬ EndsUnmatched (trimClosers t).reverse := by
  induction t with
  | nil => rintro ⟨_,_,last,_⟩; cases last
  | cons last rest ih =>
    unfold trimClosers
    split
    · rename_i plain
      rintro ⟨c,opening,isLast,closes,_⟩
      rw [getLast?_reverse] at isLast
      cases isLast
      cases plain.symm.trans closes
    · rename_i opening closes
      split
      · rename_i matched
        rintro ⟨c,opening',isLast,closes',more⟩
        rw [getLast?_reverse] at isLast
        cases isLast
        cases closes.symm.trans closes'
        rw [count_reverse, count_reverse] at more
        omega
      · exact ih

theorem trimClosers_of_matched (matched : ¬ EndsUnmatched t) :
    trimClosers t.reverse = t.reverse := by
  cases shape : t.reverse with
  | nil => rfl
  | cons last rest =>
    have isLast : t.getLast? = some last := by
      rw [← head?_reverse, shape]
      rfl
    unfold trimClosers
    split
    · rfl
    · rename_i opening closes
      rw [if_pos]
      rw [← shape, count_reverse, count_reverse]
      by_contra more
      exact matched ⟨last,opening,isLast,closes,by omega⟩

def withoutProse (candidate : Text) : Text := trimEndMatches candidate fun c => c = '.' || c = ','

theorem withoutProse_initial (candidate : Text) : withoutProse candidate <+: candidate := by
  have cut := dropWhile_suffix (l := candidate.reverse) fun c => c = '.' || c = ','
  rw [← reverse_prefix, reverse_reverse] at cut
  exact cut

theorem withoutProse_ends (candidate : Text) : ¬ EndsInProse (withoutProse candidate) := by
  intro ends
  have head : ∀ c, (candidate.reverse.dropWhile fun c => c = '.' || c = ',').head? = some c →
      (decide (c = '.') || decide (c = ',')) = false := by
    intro c first
    have stops :=
      head?_dropWhile_not (fun c => decide (c = '.') || decide (c = ',')) candidate.reverse
    rw [first] at stops
    exact stops
  rw [EndsInProse, withoutProse, trimEndMatches, getLast?_reverse] at ends
  rcases ends with dot | comma
  · exact absurd (head _ dot) (by decide)
  · exact absurd (head _ comma) (by decide)

theorem withoutProse_of_plain (plain : ¬ EndsInProse t) : withoutProse t = t := by
  unfold withoutProse trimEndMatches
  cases shape : t.reverse with
  | nil => exact (reverse_eq_nil_iff.mp shape).symm
  | cons last rest =>
    have isLast : t.getLast? = some last := by
      rw [← head?_reverse, shape]
      rfl
    rw [dropWhile_cons_of_neg, ← shape, reverse_reverse]
    intro prose
    rcases Bool.or_eq_true_iff.mp prose with dot | comma
    · exact plain (.inl (isLast.trans (congrArg some (of_decide_eq_true dot))))
    · exact plain (.inr (isLast.trans (congrArg some (of_decide_eq_true comma))))

theorem trimUrlCandidate_removes (candidate : Text) :
    ∃ closers, withoutProse candidate = trimUrlCandidate candidate ++ closers ∧
      ∀ c ∈ closers, (openingOf c).isSome = true := by
  obtain ⟨closers,whole,each⟩ := trimClosers_removes (withoutProse candidate).reverse
  refine ⟨closers.reverse,?_,fun c mem => each c (mem_reverse.mp mem)⟩
  have turned := congrArg List.reverse whole
  rwa [reverse_reverse, reverse_append] at turned

/-- What is left of a candidate is a beginning of it that ends in no unmatched
    closer. It ends in a period or comma only where closers stood behind that, which
    go after the prose; trimming again takes away just these periods and commas. -/
theorem trimming_leaves_inner_prose (candidate : Text) :
    trimUrlCandidate candidate <+: candidate ∧ ¬ EndsUnmatched (trimUrlCandidate candidate) ∧
      (EndsInProse (trimUrlCandidate candidate) → ∃ closers, closers ≠ [] ∧
        (∀ c ∈ closers, (openingOf c).isSome = true) ∧
        withoutProse candidate = trimUrlCandidate candidate ++ closers) ∧
      (trimUrlCandidate (trimUrlCandidate candidate) = trimUrlCandidate candidate ↔
        ¬ EndsInProse (trimUrlCandidate candidate)) := by
  obtain ⟨closers,whole,each⟩ := trimUrlCandidate_removes candidate
  have initial : trimUrlCandidate candidate <+: candidate :=
    (whole ▸ prefix_append _ closers).trans (withoutProse_initial candidate)
  have matched : ¬ EndsUnmatched (trimUrlCandidate candidate) := trimClosers_matched _
  refine ⟨initial,matched,?_,?_,?_⟩
  · intro prose
    refine ⟨closers,?_,each,whole⟩
    rintro rfl
    rw [append_nil] at whole
    exact withoutProse_ends candidate (whole ▸ prose)
  · -- A second pass begins without any prose at the end.
    intro fixed prose
    obtain ⟨closers',whole',_⟩ := trimUrlCandidate_removes (trimUrlCandidate candidate)
    have shorter := withoutProse_initial (trimUrlCandidate candidate)
    rw [fixed] at whole'
    have same : withoutProse (trimUrlCandidate candidate) = trimUrlCandidate candidate :=
      shorter.eq_of_length_le (by rw [whole', length_append]; omega)
    exact withoutProse_ends (trimUrlCandidate candidate) (same.symm ▸ prose)
  · intro plain
    have again : trimUrlCandidate (trimUrlCandidate candidate) =
        (trimClosers (withoutProse (trimUrlCandidate candidate)).reverse).reverse := rfl
    rw [again, withoutProse_of_plain plain, trimClosers_of_matched matched, reverse_reverse]

/-- A URL at the end of a sentence in parentheses. -/
def parenthesized : Text := "https://a.b/c.)"

theorem parenthesized_keeps_period : trimUrlCandidate parenthesized = "https://a.b/c." ∧
    trimUrlCandidate "https://a.b/c." = "https://a.b/c" := by
  decide +kernel

theorem parenthesized_trimmed_twice :
    EndsInProse (trimUrlCandidate parenthesized) ∧
      trimUrlCandidate (trimUrlCandidate parenthesized) ≠ trimUrlCandidate parenthesized := by
  obtain ⟨_,_,_,again⟩ := trimming_leaves_inner_prose parenthesized
  have prose : EndsInProse (trimUrlCandidate parenthesized) := .inl (by decide +kernel)
  exact ⟨prose,fun same => again.mp same prose⟩

end

/-- What `normalize_public_https_url` makes of a parsed URL. -/
def Url.withoutFragment (url : Url) : Url :=
  { url with fragment := none, port := if url.port = some 443 then none else url.port }

/-- The parser of the library reads what it wrote, and writes neither white space
    nor control characters. -/
structure ParserFacts (L : WebLibrary) : Prop where
  reparses : ∀ {raw url}, L.parseUrl raw = some url → url.scheme = "https" →
    L.parseUrl (L.urlText url.withoutFragment) = some url.withoutFragment
  clean : ∀ {raw url}, L.parseUrl raw = some url → url.scheme = "https" →
    ∀ c ∈ L.urlText url.withoutFragment, isWhitespace c = false ∧ isControl c = false

section
variable {L : WebLibrary} {raw text : Text} {url : Url}

theorem withoutFragment_again (url : Url) :
    url.withoutFragment.withoutFragment = url.withoutFragment := by
  have port : url.withoutFragment.port ≠ some 443 := by
    unfold Url.withoutFragment
    dsimp only
    split
    · nofun
    · assumption
  rw [Url.withoutFragment, if_neg port]
  rfl

theorem normalize_eq_ok : normalizePublicHttpsUrl L raw = .ok text ↔
    raw.length ≤ 2048 ∧ raw.any isControl = false ∧ ∃ url, L.parseUrl raw = some url ∧
      url.scheme = "https" ∧ url.username = [] ∧ url.password = none ∧
      validatePublicHost url.host = .ok () ∧ text = L.urlText url.withoutFragment := by
  unfold normalizePublicHttpsUrl
  split
  · rename_i long
    refine iff_of_false nofun ?_
    rintro ⟨short,_⟩
    omega
  split
  · rename_i control
    refine iff_of_false nofun ?_
    rintro ⟨_,clean,_⟩
    cases control.symm.trans clean
  rename_i short clean
  have fits : raw.length ≤ 2048 := not_lt.mp short
  rw [Bool.not_eq_true] at clean
  cases parsed : L.parseUrl raw with
  | none => simp
  | some url =>
    simp only [fits, clean, true_and, Option.some.injEq, exists_eq_left']
    split
    · rename_i other
      exact iff_of_false nofun fun all => other all.1
    split
    · rename_i named
      refine iff_of_false nofun ?_
      rintro ⟨_,noUser,noPassword,_⟩
      simp [noUser, noPassword] at named
    rename_i https anonymous
    rw [not_or, not_not, Option.not_isSome_iff_eq_none] at anonymous
    rw [not_not] at https
    cases host : validatePublicHost url.host with
    | error refused => exact iff_of_false nofun fun all => by cases all.2.2.2.1
    | ok _ =>
      constructor
      · intro written
        cases written
        exact ⟨https,anonymous.1,anonymous.2,rfl,rfl⟩
      · rintro ⟨_,_,_,_,rfl⟩
        rfl

/-- Normalization accepts its result, unless that has become too long. -/
theorem normalize_again (facts : ParserFacts L)
    (normalized : normalizePublicHttpsUrl L raw = .ok text) :
    normalizePublicHttpsUrl L text = if text.length ≤ 2048 then .ok text else .error .tooLong := by
  obtain ⟨_,_,url,parsed,https,noUser,noPassword,host,rfl⟩ := normalize_eq_ok.mp normalized
  split
  · rename_i fits
    refine normalize_eq_ok.mpr ⟨fits,?_,url.withoutFragment,
      facts.reparses parsed https,https,noUser,
      noPassword,host,?_⟩
    · refine any_eq_false.mpr fun c mem => ?_
      rw [(facts.clean parsed https c mem).2]
      exact Bool.false_ne_true
    · rw [withoutFragment_again]
  · rename_i long
    unfold normalizePublicHttpsUrl
    rw [if_pos (not_le.mp long)]

theorem normalizerFacts (facts : ParserFacts L) : NormalizerFacts L where
  clean normalized := by
    obtain ⟨_,_,url,parsed,https,_,_,_,rfl⟩ := normalize_eq_ok.mp normalized
    exact facts.clean parsed https
  stable normalized _ again := by
    rw [normalize_again facts normalized] at again
    split at again
    · cases again
      rfl
    · cases again

end

section
variable {L : WebLibrary} {candidates urls : List Text} {allowed : Finset Text} {limit : Nat}

/-- Canonical candidates that fit go into the set as they are, the others are lost. -/
theorem insertAll_recovers (facts : ParserFacts L)
    (canonical : ∀ c ∈ candidates, ∃ raw, normalizePublicHttpsUrl L raw = .ok c)
    (room : (insertAll L limit allowed candidates).card < limit) (url : Text) :
    url ∈ insertAll L limit allowed candidates ↔
      url ∈ allowed ∨ url ∈ candidates ∧ url.length ≤ 2048 := by
  induction candidates generalizing allowed with
  | nil => simp [insertAll]
  | cons candidate rest ih =>
    unfold insertAll at room ⊢
    split at room
    · rename_i full
      omega
    · rename_i free
      rw [if_neg free, ih (fun c mem => canonical c (mem_cons_of_mem _ mem)) room]
      obtain ⟨raw,normalized⟩ := canonical candidate mem_cons_self
      unfold insertNormalizedUrl
      rw [normalize_again facts normalized, mem_cons]
      by_cases fits : candidate.length ≤ 2048
      · simp only [if_pos fits, Finset.mem_insert]
        constructor
        · rintro ((rfl | old) | ⟨later,short⟩)
          · exact .inr ⟨.inl rfl,fits⟩
          · exact .inl old
          · exact .inr ⟨.inr later,short⟩
        · rintro (old | ⟨rfl | later,short⟩)
          · exact .inl (.inr old)
          · exact .inl (.inl rfl)
          · exact .inr ⟨later,short⟩
      · simp only [if_neg fits]
        constructor
        · rintro (old | ⟨later,short⟩)
          · exact .inl old
          · exact .inr ⟨.inr later,short⟩
        · rintro (old | ⟨rfl | later,short⟩)
          · exact .inl old
          · exact absurd short fits
          · exact .inr ⟨later,short⟩

theorem insertAll_contains_iff (facts : ParserFacts L)
    (canonical : ∀ c ∈ candidates, ∃ raw, normalizePublicHttpsUrl L raw = .ok c)
    (room : (insertAll L limit allowed candidates).card < limit) :
    (∀ url ∈ candidates, url ∈ insertAll L limit allowed candidates) ↔
      ∀ url ∈ candidates, url.length ≤ 2048 ∨ url ∈ allowed := by
  refine forall₂_congr fun url mem => ?_
  rw [insertAll_recovers facts canonical room, or_comm, and_iff_right mem]

theorem insertAll_exact_iff (facts : ParserFacts L)
    (canonical : ∀ c ∈ candidates, ∃ raw, normalizePublicHttpsUrl L raw = .ok c)
    (room : (insertAll L limit allowed candidates).card < limit) :
    insertAll L limit allowed candidates = allowed ∪ candidates.toFinset ↔
      ∀ url ∈ candidates, url.length ≤ 2048 ∨ url ∈ allowed := by
  rw [← insertAll_contains_iff facts canonical room]
  constructor
  · intro same url mem
    rw [same]
    exact Finset.mem_union_right _ (mem_toFinset.mpr mem)
  · intro each
    ext url
    rw [Finset.mem_union, mem_toFinset]
    constructor
    · intro mem
      exact ((insertAll_recovers facts canonical room url).mp mem).imp_right And.left
    · rintro (old | listed)
      · exact (insertAll_recovers facts canonical room url).mpr (.inl old)
      · exact each url listed

theorem canonicalUrls_normalized {webUrls newsUrls : List Text} :
    ∀ url ∈ canonicalUrls L webUrls newsUrls, ∃ raw, normalizePublicHttpsUrl L raw = .ok url := by
  intro url mem
  rcases mem_append.mp mem with web | news
  · exact acceptedUrls_canonical url web
  · exact acceptedUrls_canonical url news

theorem stored_unchanged {output message : Text}
    (stored : formatToolResult L (.ok output) = some message)
    (unchanged : boundToolOutput L output = some output) : message = output :=
  Option.some.inj (stored.symm.trans unchanged)

/-- The URLs of a search output come back from its stored text exactly if none of
    them grew beyond the length that normalization accepts, and likewise every
    opened URL. -/
theorem listed_urls_come_back_iff (facts : ParserFacts L)
    {query output message opened message' : Text} {response : SearchResponse} {emitted : List Text}
    {pages : ExtractResponse} {allowed' : Finset Text}
    (searched : formatKagiSearchResults L query response = some (output,emitted))
    (stored : formatToolResult L (.ok output) = some message)
    (unchanged : boundToolOutput L output = some output)
    (room : (collectTrustedToolOutputUrls L webSearch message allowed maxPromptAllowedUrls).card <
      maxPromptAllowedUrls)
    (canonical : ∀ url ∈ urls, ∃ raw, normalizePublicHttpsUrl L raw = .ok url)
    (extracted : formatKagiExtractResults L urls pages = some opened)
    (stored' : formatToolResult L (.ok opened) = some message')
    (unchanged' : boundToolOutput L opened = some opened)
    (room' : (collectTrustedToolOutputUrls L openUrls message' allowed' maxPromptAllowedUrls).card <
      maxPromptAllowedUrls) :
    (collectTrustedToolOutputUrls L webSearch message allowed maxPromptAllowedUrls =
        allowed ∪ emitted.toFinset ∧
      ∀ url ∈ urls, url ∈ collectTrustedToolOutputUrls L openUrls
        message' allowed' maxPromptAllowedUrls) ↔
    (∀ url ∈ canonicalUrls L (response.search.map SearchResult.url)
          (response.news.map SearchResult.url),
        url.length ≤ 2048 ∨ url ∈ allowed) ∧
      ∀ url ∈ urls, url.length ≤ 2048 ∨ url ∈ allowed' := by
  rw [stored_unchanged stored unchanged] at room ⊢
  rw [stored_unchanged stored' unchanged'] at room' ⊢
  have known := normalizerFacts facts
  obtain ⟨_,_,same⟩ := formatKagiSearchResults_written known searched
  rw [collect_search_output known searched] at room ⊢
  rw [same] at room ⊢
  refine and_congr (insertAll_exact_iff facts canonicalUrls_normalized room) ?_
  by_cases some_url : urls = []
  · subst some_url
    simp
  · have clean : ∀ url ∈ urls, OneLine url := by
      intro url mem
      obtain ⟨raw,normalized⟩ := canonical url mem
      exact .of_no_whitespace fun c inUrl => (known.clean normalized c inUrl).1
    have collected := collect_extract_output some_url clean extracted allowed' maxPromptAllowedUrls
    rw [collected.1] at room' ⊢
    exact insertAll_contains_iff facts canonical room'

end

section

def site : Text := "https://example.com/"

def pathChars : Text := "abcdefghijklmnopqrstuvwxyz0123456789/%AC"

def accented : Char := Char.ofNat 0xE9

def percentEncode (path : Text) : Text :=
  path.flatMap fun c => if c = accented then "%C3%A9" else [c]

/-- A library that knows the paths of one site and encodes an accented letter in them. -/
def accentLibrary : WebLibrary where
  parseUrl t := (stripPrefix t site).bind fun path =>
    if path.all (fun c => c = accented ∨ c ∈ pathChars) = true then
      some ⟨"https",[],none,some (.domain "example.com"),none,percentEncode path,none,none⟩
    else none
  urlText url := site ++ url.path
  stripImageEmbeds t := t

variable {path : Text}

theorem percentEncode_chars (known : path.all (fun c => c = accented ∨ c ∈ pathChars) = true) :
    ∀ c ∈ percentEncode path, c ∈ pathChars := by
  intro c mem
  obtain ⟨d,inPath,encoded⟩ := mem_flatMap.mp mem
  split at encoded
  · have each : "%C3%A9".toList.all (· ∈ pathChars) = true := by decide
    exact of_decide_eq_true (all_eq_true.mp each c encoded)
  · rename_i plain
    rw [mem_singleton.mp encoded]
    exact (of_decide_eq_true (all_eq_true.mp known d inPath)).resolve_left plain

theorem percentEncode_plain (plain : ∀ c ∈ path, c ∈ pathChars) : percentEncode path = path := by
  induction path with
  | nil => rfl
  | cons c rest ih =>
    have other : c ≠ accented := by
      rintro rfl
      exact absurd (plain accented mem_cons_self) (by decide)
    have later := ih fun d mem => plain d (mem_cons_of_mem c mem)
    rw [percentEncode, flatMap_cons, if_neg other]
    exact congrArg (c :: ·) later

theorem accentLibrary_facts : ParserFacts accentLibrary := by
  have parses : ∀ {raw url}, accentLibrary.parseUrl raw = some url → ∃ path,
      (∀ c ∈ path, c ∈ pathChars) ∧ url.withoutFragment = url ∧
        accentLibrary.urlText url = site ++ path ∧
      url = ⟨"https",[],none,some (.domain "example.com"),none,path,none,none⟩ := by
    intro raw url parsed
    obtain ⟨path,_,shape⟩ := Option.bind_eq_some_iff.mp parsed
    split at shape
    · rename_i known
      cases shape
      exact ⟨percentEncode path,percentEncode_chars known,rfl,rfl,rfl⟩
    · cases shape
  constructor
  · intro raw url parsed _
    obtain ⟨path,plain,same,written,shape⟩ := parses parsed
    have known : path.all (fun c => c = accented ∨ c ∈ pathChars) = true :=
      all_eq_true.mpr fun c mem => decide_eq_true (.inr (plain c mem))
    rw [same, written]
    simp only [accentLibrary, stripPrefix_append, Option.bind_some,
      if_pos known, percentEncode_plain plain]
    rw [shape]
  · intro raw url parsed _
    obtain ⟨path,plain,same,written,_⟩ := parses parsed
    rw [same, written]
    intro c mem
    have clean : (site ++ pathChars).all (fun c => isWhitespace c = false ∧ isControl c = false) =
      true := by decide
    have inside : c ∈ site ++ pathChars :=
      mem_append.mpr ((mem_append.mp mem).imp_right (plain c))
    exact of_decide_eq_true (all_eq_true.mp clean c inside)

def accents (n : Nat) :
    SearchResponse := ⟨[⟨site ++ replicate n accented,"Title",none,none⟩],[]⟩

/-- The address has 360 characters; the form that is listed has 2060. -/
theorem long_url_not_recovered : ParserFacts accentLibrary ∧
    ∃ output url, formatKagiSearchResults accentLibrary "q" (accents 340) = some (output,[url]) ∧
      boundToolOutput accentLibrary output = some output ∧
      collectTrustedToolOutputUrls accentLibrary webSearch output ∅ maxPromptAllowedUrls = ∅ := by
  have shown : (formatKagiSearchResults accentLibrary "q" (accents 340)).map (fun out =>
      (out.2.map List.length,decide (out.1.length ≤ maxWebToolOutputChars))) =
        some ([2060],true) := by
    decide +kernel
  obtain ⟨⟨output,emitted⟩,formatted,facts⟩ := Option.map_eq_some_iff.mp shown
  obtain ⟨lengths,short⟩ := Prod.mk.inj facts
  obtain ⟨url,rfl,long⟩ := map_eq_singleton_iff.mp lengths
  refine ⟨accentLibrary_facts,output,url,formatted,if_pos (of_decide_eq_true short),?_⟩
  have tooLong : normalizePublicHttpsUrl accentLibrary url = .error .tooLong :=
    if_pos (by rw [long]; decide)
  rw [collect_search_output (normalizerFacts accentLibrary_facts) formatted]
  simp [insertAll, insertNormalizedUrl, tooLong, maxPromptAllowedUrls]

def listedUrl : Text := site ++ "%C3%A9".toList

theorem accented_url_recovered :
    ∃ output opened, formatKagiSearchResults accentLibrary "q" (accents 1) =
      some (output,[listedUrl]) ∧
      formatKagiExtractResults accentLibrary [listedUrl] ⟨none,[],[]⟩ = some opened ∧
      collectTrustedToolOutputUrls accentLibrary webSearch output ∅ maxPromptAllowedUrls =
        ∅ ∪ [listedUrl].toFinset ∧
      ∀ url ∈ [listedUrl], url ∈ collectTrustedToolOutputUrls
        accentLibrary openUrls opened ∅ maxPromptAllowedUrls := by
  have shown : (formatKagiSearchResults accentLibrary "q" (accents 1)).map (fun out =>
      (out.2,decide (out.1.length ≤ maxWebToolOutputChars))) = some ([listedUrl],true) := by
    decide +kernel
  have shown' : (formatKagiExtractResults accentLibrary [listedUrl] ⟨none,[],[]⟩).map (fun out =>
      decide (out.length ≤ maxWebToolOutputChars)) = some true := by
    decide +kernel
  obtain ⟨⟨output,_⟩,searched,facts⟩ := Option.map_eq_some_iff.mp shown
  obtain ⟨opened,extracted,short'⟩ := Option.map_eq_some_iff.mp shown'
  obtain ⟨rfl,short⟩ := Prod.mk.inj facts
  have unchanged : boundToolOutput accentLibrary output = some output :=
    if_pos (of_decide_eq_true short)
  have unchanged' : boundToolOutput accentLibrary opened = some opened :=
    if_pos (of_decide_eq_true short')
  have canonical : ∀ url ∈ [listedUrl], ∃ raw, normalizePublicHttpsUrl accentLibrary raw =
      .ok url := by
    intro url mem
    rw [mem_singleton.mp mem]
    exact ⟨listedUrl,by decide +kernel⟩
  have fits : ∀ url ∈ [listedUrl], url.length ≤ 2048 ∨ url ∈ (∅ : Finset Text) := by
    intro url mem
    rw [mem_singleton.mp mem]
    exact .inl (by decide +kernel)
  have room : (insertAll accentLibrary maxPromptAllowedUrls ∅ [listedUrl]).card <
      maxPromptAllowedUrls := by
    decide +kernel
  have known := normalizerFacts accentLibrary_facts
  have oneLine : ∀ url ∈ [listedUrl], OneLine url := by decide +kernel
  refine ⟨output,opened,searched,extracted,?_⟩
  refine (listed_urls_come_back_iff accentLibrary_facts searched
    unchanged unchanged ?_ canonical extracted
    unchanged' unchanged' ?_).mpr ⟨?_,fits⟩
  · rwa [collect_search_output known searched]
  · rwa [(collect_extract_output (cons_ne_nil _ _) oneLine extracted _ _).1]
  · obtain ⟨_,_,same⟩ := formatKagiSearchResults_written known searched
    rwa [← same]

end

end OpenSecret
