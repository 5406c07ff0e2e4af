import OpenSecret.Foundation.Keyset
import OpenSecret.Foundation.Slots
import OpenSecret.Responses.Orchestrator

/-!
Tool calls put together from a stream. A fragment carries the number of its call,
and some of its name and arguments; the calls depend on what is said of each number
alone, not on how the fragments of different calls lie among each other or how they
are packed into chunks.
-/
namespace OpenSecret.Responses
open Framing Slots List

/-- A fragment without a number belongs to the first call. -/
def entryIndex (entry : Json) : Nat := ((entry.get "index").bind Json.asU64).getD 0

def entryName (entry : Json) : Option Text := (entry.get "function").bind (·.text "name")

def entryArguments (entry : Json) : Text :=
  ((entry.get "function").bind (·.text "arguments")).getD []

def StreamedToolCall.absorb (call : StreamedToolCall) (entry : Json) : StreamedToolCall :=
  ⟨(entryName entry).or call.name,call.arguments ++ entryArguments entry⟩

/-- The last name that is reported and all arguments, in order. -/
def joined (fragments : List Json) : StreamedToolCall :=
  ⟨(fragments.filterMap entryName).getLast?,fragments.flatMap entryArguments⟩

def streamedCalls (deltas : List Json) :
    List StreamedToolCall := deltas.foldl appendStreamedToolCalls []

def fragments (deltas : List Json) (i : Nat) : List Json :=
  eventsAt entryIndex (deltas.flatMap fun delta => delta.asArray.getD []) i

theorem appendStreamedToolCall_eq (calls : List StreamedToolCall) (entry : Json) :
    appendStreamedToolCall calls entry = put entryIndex StreamedToolCall.absorb {} calls entry := by
  unfold appendStreamedToolCall put
  dsimp only
  rw [← entryIndex]
  generalize calls ++ replicate (entryIndex entry + 1 - calls.length)
    ({} : StreamedToolCall) = grown
  cases function : entry.get "function" with
  | none =>
    have idle : (fun call : StreamedToolCall => call.absorb entry) = id := by
      funext call
      simp only [StreamedToolCall.absorb, entryName, entryArguments,
        function, Option.bind_none, Option.none_or,
        Option.getD_none, append_nil, id]
    rw [idle, modify_id]
  | some function' =>
    have absorbs : ∀ call : StreamedToolCall, call.absorb entry =
        ⟨(function'.text "name").or call.name,
          call.arguments ++ (function'.text "arguments").getD []⟩ := by
      intro call
      simp only [StreamedToolCall.absorb, entryName, entryArguments, function, Option.bind_some]
    simp only [absorbs]
    cases function'.text "name" with
    | none =>
      cases function'.text "arguments" with
      | none =>
        simp only [Option.none_or, Option.getD_none, append_nil]
        exact (modify_id _ _).symm
      | some arguments => rfl
    | some name =>
      cases function'.text "arguments" with
      | none => simp only [Option.some_or, Option.getD_none, append_nil]
      | some arguments =>
        simp only [modify_modify_eq]
        rfl

theorem streamedCalls_eq (deltas : List Json) :
    streamedCalls deltas = (deltas.flatMap fun delta => delta.asArray.getD []).foldl
      (put entryIndex StreamedToolCall.absorb {}) [] := by
  have step : appendStreamedToolCall = put entryIndex StreamedToolCall.absorb {} := by
    funext calls entry
    exact appendStreamedToolCall_eq calls entry
  rw [streamedCalls, foldl_flatMap, ← step]
  rfl

theorem foldl_absorb (fragments : List Json) :
    fragments.foldl StreamedToolCall.absorb {} = joined fragments := by
  induction fragments using reverseRecOn with
  | nil => rfl
  | append_singleton earlier entry ih =>
    rw [foldl_append, ih, foldl_cons, foldl_nil, joined, joined, StreamedToolCall.absorb,
      filterMap_append, flatMap_append, flatMap_singleton]
    cases named : entryName entry with
    | none => rw [filterMap_cons_none named, filterMap_nil, append_nil, Option.none_or]
    | some name =>
      rw [filterMap_cons_some named, filterMap_nil, getLast?_concat, Option.some_or]

structure WholeCall where
  index : Nat
  name : Option Text
  arguments : Text

def WholeCall.entry (call : WholeCall) : Json :=
  .obj [("index".toList,.number (Nat.toDigits 10 call.index)),
    ("function".toList,.obj ((call.name.map fun name => ("name".toList,.str name)).toList ++
      [("arguments".toList,.str call.arguments)]))]

/-- All calls in one chunk, none of them split. -/
def unsplit (calls : List WholeCall) : Json := .arr (calls.map WholeCall.entry)

/-- The fragments of each call join to it, and there are no others. -/
structure SplitOf (calls : List WholeCall) (deltas : List Json) : Prop where
  reported : ∀ call ∈ calls, fragments deltas call.index ≠ []
  joins : ∀ call ∈ calls, joined (fragments deltas call.index) = ⟨call.name,call.arguments⟩
  nothingElse : ∀ i, (∀ call ∈ calls, call.index ≠ i) → fragments deltas i = []

section
variable {call : WholeCall} {calls : List WholeCall} {deltas : List Json}

theorem entryIndex_lt (entry : Json) : entryIndex entry < 2 ^ 64 := by
  unfold entryIndex
  cases read : (entry.get "index").bind Json.asU64 with
  | none => decide
  | some i =>
    obtain ⟨value,-,number⟩ := Option.bind_eq_some_iff.mp read
    cases value with
    | number literal =>
      obtain ⟨-,small⟩ := Option.filter_eq_some_iff.mp number
      exact of_decide_eq_true small
    | _ => cases number

theorem asU64_toDigits {n : Nat} (small : n < 2 ^ 64) :
    (Json.number (Nat.toDigits 10 n)).asU64 = some n := by
  have digits : ∀ c ∈ Nat.toDigits 10 n, c.isDigit = true := by
    intro c mem
    exact Nat.isDigit_of_mem_toDigits (by decide) (by decide) mem
  have value : Json.digitsValue (Nat.toDigits 10 n) = some n := by
    rw [Json.digitsValue, if_pos ⟨Nat.toDigits_ne_nil,all_eq_true.mpr digits⟩]
    exact congrArg some Nat.ofDigitChars_ten_toDigits
  rw [Json.asU64, value]
  exact Option.filter_eq_some_iff.mpr ⟨rfl,decide_eq_true small⟩

theorem entryIndex_entry (small : call.index < 2 ^ 64) : entryIndex call.entry = call.index := by
  have found : call.entry.get "index".toList = some (.number (Nat.toDigits 10 call.index)) := rfl
  rw [entryIndex, found, Option.bind_some, asU64_toDigits small, Option.getD_some]

theorem read_entry (call : WholeCall) :
    entryName call.entry = call.name ∧ entryArguments call.entry = call.arguments := by
  have function : call.entry.get "function".toList = some (.obj ((call.name.map fun name =>
      ("name".toList,.str name)).toList ++ [("arguments".toList,.str call.arguments)])) := rfl
  rw [entryName, entryArguments, function, Option.bind_some, Option.bind_some]
  cases call.name with
  | none => exact ⟨rfl,rfl⟩
  | some name => exact ⟨rfl,rfl⟩

theorem joined_entry (call : WholeCall) : joined [call.entry] = ⟨call.name,call.arguments⟩ := by
  have name : ([call.entry].filterMap entryName).getLast? = call.name := by
    cases named : call.name with
    | none =>
      rw [filterMap_cons_none ((read_entry call).1.trans named)]
      rfl
    | some name =>
      rw [filterMap_cons_some ((read_entry call).1.trans named)]
      rfl
  rw [joined, name, flatMap_singleton, (read_entry call).2]

theorem fragments_unsplit (distinct : (calls.map WholeCall.index).Nodup)
    (small : ∀ call ∈ calls, call.index < 2 ^ 64) (mem : call ∈ calls) :
    fragments [unsplit calls] call.index = [call.entry] := by
  have entries : fragments [unsplit calls] call.index =
      (calls.filter fun c => c.index = call.index).map WholeCall.entry := by
    rw [fragments, flatMap_singleton, unsplit, Json.asArray, Option.getD_some, eventsAt, filter_map]
    congr 1
    apply filter_congr
    intro c inCalls
    rw [Function.comp_apply, entryIndex_entry (small c inCalls)]
  rw [entries, Keyset.filter_id distinct mem]
  rfl

theorem fragments_unsplit_other {i : Nat} (small : ∀ call ∈ calls, call.index < 2 ^ 64)
    (other : ∀ call ∈ calls, call.index ≠ i) : fragments [unsplit calls] i = [] := by
  rw [fragments, flatMap_singleton, unsplit, Json.asArray, Option.getD_some]
  apply filter_eq_nil_iff.mpr
  intro entry mem same
  obtain ⟨call,inCalls,rfl⟩ := mem_map.mp mem
  have number : entryIndex call.entry = i := of_decide_eq_true same
  rw [entryIndex_entry (small call inCalls)] at number
  exact other call inCalls number

theorem SplitOf.small (split : SplitOf calls deltas) : ∀ call ∈ calls, call.index < 2 ^ 64 := by
  intro call mem
  obtain ⟨entry,inFragments⟩ := exists_mem_of_ne_nil _ (split.reported call mem)
  have number : entryIndex entry = call.index := of_decide_eq_true (mem_filter.mp inFragments).2
  rw [← number]
  exact entryIndex_lt entry

theorem SplitOf.agrees (split : SplitOf calls deltas) (distinct : (calls.map WholeCall.index).Nodup)
    (i : Nat) :
    (fragments deltas i = [] ↔ fragments [unsplit calls] i = []) ∧
      joined (fragments deltas i) = joined (fragments [unsplit calls] i) := by
  by_cases named : ∃ call ∈ calls, call.index = i
  · obtain ⟨call,mem,rfl⟩ := named
    rw [fragments_unsplit distinct split.small mem, joined_entry]
    constructor
    · constructor
      · intro none
        exact absurd none (split.reported call mem)
      · intro none
        cases none
    · exact split.joins call mem
  · have other : ∀ call ∈ calls, call.index ≠ i := by
      intro call mem same
      exact named ⟨call,mem,same⟩
    rw [split.nothingElse i other, fragments_unsplit_other split.small other]
    exact ⟨Iff.rfl,rfl⟩

end

variable {deltas : List Json}

theorem streamedCalls_reported {i : Nat} (reported : fragments deltas i ≠ []) :
    (streamedCalls deltas)[i]? = some (joined (fragments deltas i)) := by
  rw [streamedCalls_eq, getElem?_fold_reported reported, foldl_absorb]
  rfl

theorem streamedCalls_congr {others : List Json}
    (same : ∀ i, (fragments deltas i = [] ↔ fragments others i = []) ∧
      joined (fragments deltas i) = joined (fragments others i)) :
    streamedCalls deltas = streamedCalls others := by
  rw [streamedCalls_eq, streamedCalls_eq]
  apply fold_congr
  · intro i
    exact (same i).1
  · intro i
    rw [foldl_absorb, foldl_absorb]
    exact (same i).2

def actsOn (parseJson : Text → Option Json) (calls : List WholeCall) : Option ModelToolCall := do
  let call ← calls.find? (·.index = 0)
  let name ← call.name
  return ⟨name,(parseJson call.arguments).getD (.obj [])⟩

theorem finalize_split {parseJson : Text → Option Json} {calls : List WholeCall}
    (split : SplitOf calls deltas) :
    finalizeFirstModelToolCall parseJson (streamedCalls deltas) = actsOn parseJson calls := by
  rw [finalizeFirstModelToolCall, head?_eq_getElem?, actsOn]
  cases found : calls.find? (fun call => decide (call.index = 0)) with
  | some call =>
    have mem := mem_of_find?_eq_some found
    have first : call.index = 0 := by simpa using find?_some found
    have reported := split.reported call mem
    have joins := split.joins call mem
    rw [first] at reported joins
    rw [streamedCalls_reported reported, joins]
    rfl
  | none =>
    have none : fragments deltas 0 = [] := by
      apply split.nothingElse
      intro call mem first
      exact find?_eq_none.mp found call mem (decide_eq_true first)
    rw [streamedCalls_eq, getElem?_fold]
    split
    · rw [show eventsAt entryIndex (deltas.flatMap fun delta => delta.asArray.getD []) 0 =
        [] from none]
      rfl
    · rfl

/-- Two calls, their arguments in turns; the first one is not numbered. -/
def splitDeltas : List Json :=
  let fragment (index : List (Text × Json)) (fields : List (Text × Json)) : Json :=
    .obj (index ++ [("function".toList,.obj fields)])
  let second : List (Text × Json) := [("index".toList,.number "1".toList)]
  [.arr
    [fragment [] [("name".toList,.str "search".toList),("arguments".toList,.str "\x7b".toList)]],
    .arr [fragment second [("name".toList,.str "open".toList)],
    fragment [] [("arguments".toList,.str "\x7d".toList)]],
    .arr [fragment second [("arguments".toList,.str "0".toList)]]]

def splitCalls : List WholeCall :=
  [⟨0,some "search".toList,"\x7b\x7d"⟩,⟨1,some "open".toList,"0"⟩]

end OpenSecret.Responses
