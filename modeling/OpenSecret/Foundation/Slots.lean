import Mathlib.Data.List.Induction

/-!
Slots that are filled by numbered events. A slot that is not there yet is added
with all below it; each event changes its own slot only, so that what a slot holds
depends on the events of its number alone, in their order.
-/
namespace Slots
open List

variable {α ε : Type} (index : ε → Nat) (absorb : α → ε → α) (fresh : α)

def put (slots : List α) (e : ε) : List α :=
  (slots ++ replicate (index e + 1 - slots.length) fresh).modify (index e) fun a => absorb a e

def eventsAt (events : List ε) (i : Nat) : List ε := events.filter fun e => index e = i

variable {index absorb fresh} {events others : List ε}

theorem getElem?_put (slots : List α) (e : ε) (i : Nat) :
    (put index absorb fresh slots e)[i]? =
      if i = index e then some (absorb (slots[i]?.getD fresh) e)
      else if i < index e then some (slots[i]?.getD fresh) else slots[i]? := by
  have grown : (slots ++ replicate (index e + 1 - slots.length) fresh)[i]? =
      if i ≤ index e then some (slots[i]?.getD fresh) else slots[i]? := by
    by_cases inside : i < slots.length
    · rw [getElem?_append_left inside, getElem?_eq_getElem inside]
      split
      · rfl
      · rfl
    · rw [getElem?_append_right (Nat.le_of_not_lt inside), getElem?_replicate,
        getElem?_eq_none (Nat.le_of_not_lt inside)]
      by_cases below : i ≤ index e
      · rw [if_pos (by omega), if_pos below]
        rfl
      · rw [if_neg (by omega), if_neg below]
  rw [put, getElem?_modify, grown]
  by_cases here : i = index e
  · rw [if_pos here, if_pos (Nat.le_of_eq here)]
    simp [here]
  · rw [if_neg here]
    by_cases below : i < index e
    · rw [if_pos below, if_pos (Nat.le_of_lt below)]
      simp [Ne.symm here]
    · rw [if_neg below, if_neg (by omega)]
      simp [Ne.symm here]

theorem eventsAt_concat (events : List ε) (e : ε) (i : Nat) :
    eventsAt index (events ++ [e]) i = eventsAt index events i ++ if index e = i
      then [e] else [] := by
  rw [eventsAt, filter_append]
  by_cases here : index e = i
  · rw [if_pos here, filter_cons_of_pos (by simp [here])]
    rfl
  · rw [if_neg here, filter_cons_of_neg (by simp [here])]
    rfl

/-- A slot holds what the events of its number have put into it. -/
theorem getElem?_fold (events : List ε) (i : Nat) :
    (events.foldl (put index absorb fresh) [])[i]? =
      if ∃ e ∈ events, i ≤ index e then some ((eventsAt index events i).foldl absorb fresh)
        else none := by
  induction events using List.reverseRecOn with
  | nil =>
    rw [if_neg (by simp)]
    rfl
  | append_singleton events e ih =>
    have before : (events.foldl (put index absorb fresh) [])[i]?.getD fresh =
        (eventsAt index events i).foldl absorb fresh := by
      rw [ih]
      split
      · rfl
      · -- a number not reached yet has no events
        rename_i notReached
        have none : eventsAt index events i = [] := by
          apply filter_eq_nil_iff.mpr
          intro e' mem same
          exact notReached ⟨e',mem,Nat.le_of_eq (of_decide_eq_true same).symm⟩
        rw [none]
        rfl
    rw [foldl_append, foldl_cons, foldl_nil, getElem?_put, eventsAt_concat, before]
    by_cases here : i = index e
    · rw [if_pos here, if_pos here.symm, if_pos ⟨e,by simp,Nat.le_of_eq here⟩, foldl_append]
      rfl
    · rw [if_neg here, if_neg (Ne.symm here), append_nil]
      by_cases below : i < index e
      · rw [if_pos below, if_pos ⟨e,by simp,Nat.le_of_lt below⟩]
      · have same : (∃ e' ∈ events ++ [e], i ≤ index e') ↔ ∃ e' ∈ events, i ≤ index e' := by
          constructor
          · intro reached
            obtain ⟨e',mem,above⟩ := reached
            rcases mem_append.mp mem with old | new
            · exact ⟨e',old,above⟩
            · rw [mem_singleton.mp new] at above
              omega
          · intro reached
            obtain ⟨e',mem,above⟩ := reached
            exact ⟨e',mem_append_left [e] mem,above⟩
        rw [if_neg below, ih]
        simp only [same]

theorem getElem?_fold_reported {i : Nat} (reported : eventsAt index events i ≠ []) :
    (events.foldl (put index absorb fresh) [])[i]? =
      some ((eventsAt index events i).foldl absorb fresh) := by
  obtain ⟨e,mem⟩ := exists_mem_of_ne_nil _ reported
  obtain ⟨inEvents,same⟩ := mem_filter.mp mem
  rw [getElem?_fold, if_pos ⟨e,inEvents,Nat.le_of_eq (of_decide_eq_true same).symm⟩]

theorem fold_congr (reported : ∀ i, eventsAt index events i = [] ↔ eventsAt index others i = [])
    (same : ∀ i, (eventsAt index events i).foldl absorb fresh =
      (eventsAt index others i).foldl absorb fresh) :
    events.foldl (put index absorb fresh) [] = others.foldl (put index absorb fresh) [] := by
  have reaches : ∀ {xs ys : List ε}, (∀ i, eventsAt index ys i = [] → eventsAt index xs i = []) →
      ∀ i, (∃ e ∈ xs, i ≤ index e) → ∃ e ∈ ys, i ≤ index e := by
    intro xs ys missing i reached
    obtain ⟨e,mem,above⟩ := reached
    have some : eventsAt index ys (index e) ≠ [] := by
      intro none
      exact filter_eq_nil_iff.mp (missing _ none) e mem (decide_eq_true rfl)
    obtain ⟨e',mem'⟩ := exists_mem_of_ne_nil _ some
    obtain ⟨inYs,equal⟩ := mem_filter.mp mem'
    have number : index e' = index e := of_decide_eq_true equal
    exact ⟨e',inYs,by omega⟩
  apply ext_getElem?
  intro i
  have alike : (∃ e ∈ events, i ≤ index e) ↔ ∃ e ∈ others, i ≤ index e := by
    constructor
    · exact reaches (fun i => (reported i).mpr) i
    · exact reaches (fun i => (reported i).mp) i
  rw [getElem?_fold, getElem?_fold, same]
  simp only [alike]

end Slots
