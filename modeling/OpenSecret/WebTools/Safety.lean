import OpenSecret.Foundation.Lines

/-!
`web_safety.rs`: normalization of public URLs and bounding of untrusted Markdown.
The URL parser and the Markdown image stripper belong to libraries. The loop that
shrinks an over-long prefix need not end for an arbitrary stripper; it then
returns nothing.
-/
namespace OpenSecret
open Framing Text

structure Ipv4Addr where
  a : UInt8
  b : UInt8
  c : UInt8
  d : UInt8
  deriving DecidableEq

structure Ipv6Addr where
  s0 : UInt16
  s1 : UInt16
  s2 : UInt16
  s3 : UInt16
  s4 : UInt16
  s5 : UInt16
  s6 : UInt16
  s7 : UInt16
  deriving DecidableEq

namespace Ipv4Addr

def isPrivate (x : Ipv4Addr) : Bool :=
  x.a == 10 || (x.a == 172 && 16 ≤ x.b && x.b ≤ 31) || (x.a == 192 && x.b == 168)

def isLoopback (x : Ipv4Addr) : Bool := x.a == 127
def isLinkLocal (x : Ipv4Addr) : Bool := x.a == 169 && x.b == 254
def isUnspecified (x : Ipv4Addr) : Bool := x == ⟨0,0,0,0⟩
def isBroadcast (x : Ipv4Addr) : Bool := x == ⟨255,255,255,255⟩
def isMulticast (x : Ipv4Addr) : Bool := 224 ≤ x.a && x.a ≤ 239

def ofSegments (high low : UInt16) : Ipv4Addr :=
  ⟨(high >>> 8).toUInt8,high.toUInt8,(low >>> 8).toUInt8,low.toUInt8⟩

end Ipv4Addr

def isNonPublicIpv4 (x : Ipv4Addr) : Bool :=
  x.isPrivate || x.isLoopback || x.isLinkLocal || x.isUnspecified ||
    x.isBroadcast || x.isMulticast ||
    x.a == 0 ||
    (x.a == 100 && 64 ≤ x.b && x.b ≤ 127) ||
    (x.a == 168 && x.b == 63 && x.c == 129 && x.d == 16) ||
    (x.a == 192 && x.b == 0 && (x.c == 0 || x.c == 2)) ||
    (x.a == 192 && x.b == 88 && x.c == 99) ||
    (x.a == 198 && (x.b == 18 || x.b == 19)) ||
    (x.a == 198 && x.b == 51 && x.c == 100) ||
    (x.a == 203 && x.b == 0 && x.c == 113) ||
    240 ≤ x.a

namespace Ipv6Addr

def toIpv4 (x : Ipv6Addr) : Option Ipv4Addr :=
  if x.s0 == 0 && x.s1 == 0 && x.s2 == 0 && x.s3 == 0 && x.s4 == 0 &&
    (x.s5 == 0 || x.s5 == 0xffff) then
    some (.ofSegments x.s6 x.s7)
  else none

def isLoopback (x : Ipv6Addr) : Bool := x == ⟨0,0,0,0,0,0,0,1⟩
def isUnspecified (x : Ipv6Addr) : Bool := x == ⟨0,0,0,0,0,0,0,0⟩
def isUniqueLocal (x : Ipv6Addr) : Bool := x.s0 &&& 0xfe00 == 0xfc00
def isUnicastLinkLocal (x : Ipv6Addr) : Bool := x.s0 &&& 0xffc0 == 0xfe80
def isMulticast (x : Ipv6Addr) : Bool := x.s0 &&& 0xff00 == 0xff00

end Ipv6Addr

def embedded6to4Ipv4 (x : Ipv6Addr) : Option Ipv4Addr :=
  if x.s0 == 0x2002 then some (.ofSegments x.s1 x.s2) else none

def embeddedWellKnownNat64Ipv4 (x : Ipv6Addr) : Option Ipv4Addr :=
  if x.s0 == 0x0064 && x.s1 == 0xff9b && x.s2 == 0 && x.s3 == 0 && x.s4 == 0 && x.s5 == 0 then
    some (.ofSegments x.s6 x.s7)
  else none

def isNonPublicIpv6 (x : Ipv6Addr) : Bool :=
  x.toIpv4.any isNonPublicIpv4 || (embedded6to4Ipv4 x).any isNonPublicIpv4 ||
    (embeddedWellKnownNat64Ipv4 x).any isNonPublicIpv4 ||
    x.isLoopback || x.isUnspecified || x.isUniqueLocal || x.isUnicastLinkLocal || x.isMulticast ||
    (x.s0 &&& 0xffc0 == 0xfec0) ||
    (x.s0 == 0x0100 && x.s1 == 0 && x.s2 == 0 && x.s3 == 0) ||
    (x.s0 == 0x0064 && x.s1 == 0xff9b && x.s2 == 0x0001) ||
    (x.s0 == 0x2001 && (x.s1 == 0x0000 || x.s1 == 0x0db8))

inductive Host where
  | domain (name : Text)
  | ipv4 (address : Ipv4Addr)
  | ipv6 (address : Ipv6Addr)
  deriving DecidableEq

/-- A parsed URL; `port` is absent when it is the scheme's default. -/
structure Url where
  scheme : Text
  username : Text
  password : Option Text
  host : Option Host
  port : Option Nat
  path : Text
  query : Option Text
  fragment : Option Text

structure WebLibrary where
  parseUrl : Text → Option Url
  urlText : Url → Text
  stripImageEmbeds : Text → Text

inductive PublicUrlError where
  | tooLong
  | invalid
  | notHttps
  | credentials
  | nonPublicHost
  deriving DecidableEq

def PublicUrlError.display : PublicUrlError → Text
  | .tooLong => "URL exceeds 2048 characters"
  | .invalid => "URL is invalid"
  | .notHttps => "URL must use HTTPS"
  | .credentials => "URL must not contain credentials"
  | .nonPublicHost => "URL must include a public host"

def isControl (c : Char) : Bool := c.toNat ≤ 0x1F || (0x7F ≤ c.toNat && c.toNat ≤ 0x9F)

def endsWith (t ending : Text) : Bool := decide (ending <:+ t)

def isPublicDomain (name : Text) : Bool :=
  let domain := toAsciiLowercase (trimEndMatches name (· = '.'))
  let isPrivateName := decide (domain ∈ ["localhost".toList,"localdomain".toList,"metadata".toList,
      "instance-data".toList,"metadata.google.internal".toList]) ||
    endsWith domain ".localhost".toList || endsWith domain ".local".toList ||
    endsWith domain ".internal".toList || endsWith domain ".home.arpa".toList
  -- a domain without a dot is empty or a single label
  domain.contains '.' && !isPrivateName

def validatePublicHost : Option Host → Except PublicUrlError Unit
  | some (.domain name) => if isPublicDomain name then .ok () else .error .nonPublicHost
  | some (.ipv4 address) => if isNonPublicIpv4 address then .error .nonPublicHost else .ok ()
  | some (.ipv6 address) => if isNonPublicIpv6 address then .error .nonPublicHost else .ok ()
  | none => .error .nonPublicHost

section
variable (L : WebLibrary)

def normalizePublicHttpsUrl (rawUrl : Text) : Except PublicUrlError Text :=
  if rawUrl.length > 2048 then .error .tooLong
  else if rawUrl.any isControl then .error .invalid
  else match L.parseUrl rawUrl with
    | none => .error .invalid
    | some url =>
      if url.scheme ≠ "https" then .error .notHttps
      else if url.username ≠ [] ∨ url.password.isSome then .error .credentials
      else (validatePublicHost url.host).map fun _ =>
        -- a URL with a host takes any port, so clearing it cannot fail
        L.urlText { url with
          fragment := none, port := if url.port = some 443 then none else url.port }

/-- What the library documentation promises about normalized URLs. -/
structure NormalizerFacts : Prop where
  clean : ∀ {raw url}, normalizePublicHttpsUrl L raw = .ok url →
    ∀ c ∈ url, isWhitespace c = false ∧ isControl c = false
  stable : ∀ {raw url}, normalizePublicHttpsUrl L raw = .ok url →
    ∀ {again}, normalizePublicHttpsUrl L url = .ok again → again = url

def truncateChars (value : Text) (maxChars : Nat) : Text × Bool :=
  (value.take maxChars,decide (maxChars < value.length))

/-- The limit shrinks in every round until it is zero; a prefix that is still too
    long then stays so. -/
def shrinkLoop (value : Text) (maxChars : Nat) : (fuel prefixLimit : Nat) → Option Text
  | 0, _ => none
  | fuel + 1, prefixLimit =>
    let sanitized := L.stripImageEmbeds (truncateChars value prefixLimit).1
    if sanitized.length ≤ maxChars then some sanitized
    else shrinkLoop value maxChars fuel (prefixLimit - max (sanitized.length - maxChars) 1)

def truncateSanitizedMarkdown (value : Text) (maxChars : Nat) : Option (Text × Bool) :=
  if value.length ≤ maxChars then some (value,false)
  else (shrinkLoop L value maxChars (maxChars + 1) maxChars).map fun sanitized => (sanitized,true)

theorem shrinkLoop_fuel (value : Text) (maxChars : Nat) {fuel more prefixLimit : Nat}
    (enough : prefixLimit < fuel) (atLeast : fuel ≤ more) :
    shrinkLoop L value maxChars more prefixLimit =
      shrinkLoop L value maxChars fuel prefixLimit := by
  induction fuel generalizing more prefixLimit with
  | zero => omega
  | succ fuel ih =>
    obtain ⟨more,rfl⟩ : ∃ m, more = m + 1 := ⟨more - 1,by omega⟩
    simp only [shrinkLoop]
    split
    · rfl
    · rename_i long
      by_cases positive : 0 < prefixLimit
      · exact ih (by omega) (by omega)
      · have zero : prefixLimit = 0 := by omega
        subst zero
        -- with nothing left to cut every further round repeats this one
        have stuck : ∀ rounds, shrinkLoop L value maxChars rounds 0 = none := by
          intro rounds
          induction rounds with
          | zero => rfl
          | succ rounds again =>
            simp only [shrinkLoop, if_neg long, Nat.zero_sub]
            exact again
        rw [Nat.zero_sub, stuck, stuck]

def compactWords (t : Text) : Text := [' '].intercalate (splitWhitespace t)

def compactUntrustedMarkdown (value : Text) (maxChars : Nat) : Option Text := do
  let sanitized := replace (L.stripImageEmbeds value) "&#32;" [' ']
  let first ← truncateSanitizedMarkdown L sanitized maxChars
  if !first.2 then return compactWords first.1
  else if maxChars ≤ 3 then return "...".toList.take maxChars
  else (truncateSanitizedMarkdown L sanitized (maxChars - 3)).map fun bounded =>
    compactWords bounded.1 ++ "...".toList

/-- Whatever the stripper and the text, compacted text stays on one line. -/
theorem compactUntrustedMarkdown_oneLine {value compact : Text} {maxChars : Nat}
    (h : compactUntrustedMarkdown L value maxChars = some compact) : OneLine compact := by
  obtain ⟨first,-,h⟩ := Option.bind_eq_some_iff.mp h
  split at h
  · cases h
    exact oneLine_words _
  · split at h
    · cases h
      have dots : OneLine "..." := by decide
      exact fun c mem => dots c (List.mem_of_mem_take mem)
    · obtain ⟨bounded,-,rfl⟩ := Option.map_eq_some_iff.mp h
      exact (oneLine_words _).append (by decide)

end

/-- A library that knows clean texts after `https://` and strips nothing. -/
def plainLibrary : WebLibrary where
  parseUrl t :=
    if Text.startsWith t "https://" && t.all fun c => !isWhitespace c && !isControl c then
      some ⟨"https",[],none,some (.domain "example.com"),none,t,none,none⟩
    else none
  urlText url := url.path
  stripImageEmbeds t := t

theorem plainLibrary_normalizes {raw url : Text}
    (h : normalizePublicHttpsUrl plainLibrary raw = .ok url) :
    url = raw ∧ ∀ c ∈ url, isWhitespace c = false ∧ isControl c = false := by
  unfold normalizePublicHttpsUrl at h
  split at h
  · cases h
  · split at h
    · cases h
    · simp only [plainLibrary] at h
      split at h
      · cases h
      · rename_i parsed
        split at parsed
        · rename_i shape
          cases parsed
          have publicHost : validatePublicHost (some (.domain "example.com".toList)) = .ok () := by
            decide
          simp only [ne_eq, not_true_eq_false, if_false, Option.isSome_none,
            Bool.false_eq_true, or_self,
            publicHost] at h
          cases h
          have solid := (Bool.and_eq_true_iff.mp shape).2
          refine ⟨rfl,fun c mem => ?_⟩
          have clean := List.all_eq_true.mp solid c mem
          simpa using clean
        · cases parsed

theorem plainLibrary_facts : NormalizerFacts plainLibrary where
  clean h := (plainLibrary_normalizes h).2
  stable _ _ again := (plainLibrary_normalizes again).1

end OpenSecret
