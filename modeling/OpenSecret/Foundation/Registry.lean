import OpenSecret.Foundation.Recency
import OpenSecret.Foundation.Traces

/-!
A registry as its history tells it. Events write values under keys, clear keys and
may let values lapse; what stands under a key is then the latest write, if nothing
has cleared it since, and it does stand there as long as every event spares it.
-/
namespace Registry
open Traces List

variable {ε κ α : Type}

structure Rules (ε κ α : Type) where
  writes : ε → κ → α → Prop
  clears : ε → κ → Prop
  spares : ε → κ → α → Prop

namespace Rules

structure Step (R : Rules ε κ α) (e : ε) (before after : κ → Option α) : Prop where
  written : ∀ {k a}, R.writes e k a → after k = some a
  stood : ∀ {k a}, after k = some a →
    R.writes e k a ∨ before k = some a ∧ (∀ b, ¬ R.writes e k b) ∧ ¬ R.clears e k
  stands : ∀ {k a}, before k = some a → R.spares e k a → after k = some a

structure Tells (R : Rules ε κ α) (history : List ε) (values : κ → Option α) : Prop where
  held : ∀ {k a}, values k = some a → ∃ i e, history[i]? = some e ∧ R.writes e k a ∧
    Since history i fun f => (∀ b, ¬ R.writes f k b) ∧ ¬ R.clears f k
  kept : ∀ {i e k a}, history[i]? = some e → R.writes e k a →
    (Since history i fun f => R.spares f k a) → values k = some a

variable {R : Rules ε κ α} {history : List ε} {before after : κ → Option α} {e : ε}

theorem tells_nil (R : Rules ε κ α) : R.Tells [] fun _ => none := by
  constructor
  · intro k a stood
    cases stood
  · intro i e k a here
    cases here

theorem tells_concat (tells : R.Tells history before) (step : R.Step e before after) :
    R.Tells (history ++ [e]) after := by
  constructor
  · intro k a stood
    rcases step.stood stood with new | ⟨old,unwritten,uncleared⟩
    · refine ⟨history.length,e,getElem?_concat_length,new,?_⟩
      intro j other later here
      rw [getElem?_eq_none (by simp; omega)] at here
      cases here
    · obtain ⟨i,first,here,wrote,since⟩ := tells.held old
      refine ⟨i,first,?_,wrote,since_concat since ⟨unwritten,uncleared⟩⟩
      exact getElem?_of_initial (prefix_append history [e]) here
  · intro i first k a here wrote since
    rcases of_getElem?_concat here with old | ⟨_,rfl⟩
    · obtain ⟨spared,last⟩ := since_of_concat (List.getElem?_eq_some_iff.mp old).1 since
      exact step.stands (tells.kept old wrote spared) last
    · exact step.written wrote

theorem tells_latest {p : Nat} {k : κ} {a : α} (tells : R.Tells (history.take p) before)
    (stood : before k = some a) : ∃ i e, i < p ∧ history[i]? = some e ∧ R.writes e k a ∧
      Between history i p fun f => (∀ b, ¬ R.writes f k b) ∧ ¬ R.clears f k := by
  obtain ⟨i,e,here,wrote,since⟩ := tells.held stood
  have sooner : i < p := by
    have low := (List.getElem?_eq_some_iff.mp here).1
    rw [length_take] at low
    omega
  rw [getElem?_take_of_lt sooner] at here
  exact ⟨i,e,sooner,here,wrote,since_take.mp since⟩

theorem tells_stands {p i : Nat} {k : κ} {a : α} (tells : R.Tells (history.take p) before)
    (sooner : i < p) (here : history[i]? = some e) (wrote : R.writes e k a)
    (spared : Between history i p fun f => R.spares f k a) : before k = some a :=
  tells.kept ((getElem?_take_of_lt sooner).trans here) wrote (since_take.mpr spared)

end Rules

section
variable [DecidableEq κ] {p : α → Bool} {k : κ} {entries : AList fun _ : κ => α}

def retain (p : α → Bool) (entries : AList fun _ : κ => α) : AList fun _ : κ => α where
  entries := entries.entries.filter fun entry => p entry.2
  nodupKeys := entries.nodupKeys.sublist (filter_sublist)

theorem lookup_retain : (retain p entries).lookup k = (entries.lookup k).filter p := by
  refine Option.ext fun a => ?_
  rw [Option.filter_eq_some_iff]
  constructor
  · intro here
    obtain ⟨mem,holds⟩ := mem_filter.mp (AList.mem_lookup_iff.mp here)
    exact ⟨AList.mem_lookup_iff.mpr mem,holds⟩
  · intro here
    exact AList.mem_lookup_iff.mpr (mem_filter.mpr ⟨AList.mem_lookup_iff.mp here.1,here.2⟩)

omit [DecidableEq κ] in
theorem length_retain_le : (retain p entries).entries.length ≤ entries.entries.length :=
  length_filter_le _ _

theorem length_insert_le {limit : Nat} {a : α} (room : k ∈ entries ∨ entries.entries.length < limit)
    (bounded : entries.entries.length ≤ limit) :
    (entries.insert k a).entries.length ≤ limit := by
  rw [Recency.length_insert]
  rcases room with mem | room
  · have less := Recency.length_erase mem
    omega
  · have less := Recency.length_erase_le entries k
    omega

end

end Registry
