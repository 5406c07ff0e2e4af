import Mathlib.Data.List.Basic

/-!
Cutting a stream into pieces while it arrives in chunks. If what stands behind a
complete piece can never change it, the pieces do not depend on the chunks.
-/
namespace Chunking
open List

variable {β φ ψ : Type}

structure Cutter (β φ : Type) where
  cut : List β → Option (φ × List β)
  shrinks : ∀ {buffer piece rest}, cut buffer = some (piece,rest) → rest.length < buffer.length
  stable : ∀ {buffer piece rest} (more : List β), cut buffer = some (piece,rest) →
    cut (buffer ++ more) = some (piece,rest ++ more)

namespace Cutter
variable {C : Cutter β φ} {buffer rest : List β} {piece : φ}

def cutUpTo (C : Cutter β φ) : Nat → List β → List φ × List β
  | 0, buffer => ([],buffer)
  | fuel + 1, buffer =>
    match C.cut buffer with
    | none => ([],buffer)
    | some (piece,rest) => (piece :: (C.cutUpTo fuel rest).1,(C.cutUpTo fuel rest).2)

def cutAll (C : Cutter β φ) (buffer : List β) : List φ × List β := C.cutUpTo buffer.length buffer

theorem cutUpTo_enough {fuel : Nat} (enough : buffer.length ≤ fuel) :
    C.cutUpTo fuel buffer = C.cutAll buffer := by
  suffices same : ∀ fuel other buffer, buffer.length ≤ fuel → buffer.length ≤ other →
      C.cutUpTo fuel buffer = C.cutUpTo other buffer from same _ _ _ enough (Nat.le_refl _)
  intro fuel
  induction fuel with
  | zero =>
    intro other buffer short _
    cases other with
    | zero => rfl
    | succ other =>
      rw [cutUpTo, cutUpTo]
      split
      · rfl
      · rename_i cut
        exact absurd (C.shrinks cut) (by omega)
  | succ fuel ih =>
    intro other buffer short short'
    rw [cutUpTo]
    cases other with
    | zero =>
      rw [cutUpTo]
      split
      · rfl
      · rename_i cut
        exact absurd (C.shrinks cut) (by omega)
    | succ other =>
      rw [cutUpTo]
      split
      · rfl
      · rename_i cut
        have shrinks := C.shrinks cut
        rw [ih other _ (by omega) (by omega)]

theorem cutAll_none (stop : C.cut buffer = none) : C.cutAll buffer = ([],buffer) := by
  rw [← cutUpTo_enough (Nat.le_succ buffer.length), cutUpTo, stop]

theorem cutAll_some (cut : C.cut buffer = some (piece,rest)) :
    C.cutAll buffer = (piece :: (C.cutAll rest).1,(C.cutAll rest).2) := by
  have shrinks := C.shrinks cut
  rw [← cutUpTo_enough (Nat.le_succ buffer.length), cutUpTo, cut]
  dsimp only
  rw [cutUpTo_enough (by omega)]

theorem induction (C : Cutter β φ) {motive : List β → Prop}
    (stop : ∀ buffer, C.cut buffer = none → motive buffer)
    (step : ∀ buffer piece rest, C.cut buffer = some (piece,rest) → motive rest → motive buffer)
    (buffer : List β) : motive buffer := by
  induction size : buffer.length using Nat.strongRecOn generalizing buffer with
  | ind n ih =>
    cases cut : C.cut buffer with
    | none => exact stop buffer cut
    | some pair => exact step buffer pair.1 pair.2 cut (ih _ (size ▸ C.shrinks cut) _ rfl)

theorem cutAll_append (buffer more : List β) :
    C.cutAll (buffer ++ more) =
      ((C.cutAll buffer).1 ++ (C.cutAll ((C.cutAll buffer).2 ++ more)).1,
        (C.cutAll ((C.cutAll buffer).2 ++ more)).2) := by
  induction buffer using C.induction with
  | stop buffer none =>
    rw [cutAll_none none]
    rfl
  | step buffer piece rest cut ih =>
    rw [cutAll_some (C.stable more cut), cutAll_some cut, ih]
    rfl

end Cutter

/-- A reader that keeps a buffer: each chunk is appended and all complete pieces
    are taken out. -/
def feed (drain : List β → List ψ × List β) (state : List ψ × List β) (chunk : List β) :
    List ψ × List β :=
  (state.1 ++ (drain (state.2 ++ chunk)).1,(drain (state.2 ++ chunk)).2)

/-- A reader that takes out some of the pieces of a cutter sees the same pieces
    however the stream is chunked. -/
theorem feed_chunks {C : Cutter β φ} {keep : φ → Option ψ} {drain : List β → List ψ × List β}
    (drains : ∀ buffer, drain buffer = ((C.cutAll buffer).1.filterMap keep,(C.cutAll buffer).2))
    (chunks : List (List β)) :
    chunks.foldl (feed drain) ([],[]) = drain chunks.flatten := by
  suffices from_ : ∀ before, chunks.foldl (feed drain) (drain before) =
    drain (before ++ chunks.flatten) by
    have empty : drain [] = ([],[]) := by
      have stop : C.cut [] = none := by
        cases cut : C.cut [] with
        | none => rfl
        | some pair => exact absurd (C.shrinks cut) (Nat.not_lt_zero _)
      rw [drains, Cutter.cutAll_none stop]
      rfl
    rw [← empty, from_, nil_append]
  induction chunks with
  | nil => exact fun before => by rw [flatten_nil, append_nil]; rfl
  | cons chunk rest ih =>
    intro before
    have fed : feed drain (drain before) chunk = drain (before ++ chunk) := by
      simp only [feed, drains, C.cutAll_append before chunk, filterMap_append]
    rw [foldl_cons, fed, ih, flatten_cons, append_assoc]

end Chunking
