import Mathlib.Data.List.Forall2
import Mathlib.Data.List.Nodup

/-!
Lists whose elements carry a key: changing the element under a key, and tables
whose newest rows stand for the entries of a list, one row for each entry.
-/
namespace Keyed
open List

variable {κ α ρ : Type} [DecidableEq κ] {key : α → κ} {k : κ} {change : α → α} {entries : List α}

def amend (key : α → κ) (k : κ) (change : α → α) (entries : List α) : List α :=
  entries.map fun a => if key a = k then change a else a

theorem amend_absent (absent : ∀ a ∈ entries, key a ≠ k) :
    amend key k change entries = entries := by
  refine (map_congr_left fun a mem => ?_).trans (map_id entries)
  exact if_neg (absent a mem)

theorem amend_id : amend key k id entries = entries := by
  simp [amend]

variable {β : Type} {view : α → β} {a : α}

theorem map_amend (keeps : ∀ a, view (change a) = view a) :
    (amend key k change entries).map view = entries.map view := by
  rw [amend, map_map]
  refine map_congr_left fun a _ => ?_
  dsimp only [Function.comp]
  split
  · exact keeps a
  · rfl

theorem set_eq_amend {i : Nat} (distinct : (entries.map key).Nodup)
    (stored : entries[i]? = some a) :
    entries.set i (change a) = amend key (key a) change entries := by
  induction entries generalizing i with
  | nil => cases stored
  | cons first rest ih =>
    obtain ⟨fresh,distinct⟩ := nodup_cons.mp distinct
    cases i with
    | zero =>
      cases stored
      have others : amend key (key a) change rest = rest :=
        amend_absent fun b mem same => fresh (same ▸ mem_map_of_mem mem)
      rw [set_cons_zero, amend, map_cons, if_pos rfl, ← amend, others]
    | succ i =>
      have differs : key first ≠ key a := by
        intro same
        exact fresh (same ▸ mem_map_of_mem (mem_of_getElem? stored))
      rw [set_cons_succ, ih distinct stored, amend, amend, map_cons, if_neg differs]

theorem length_amend : (amend key k change entries).length = entries.length := length_map _

theorem filter_amend {p : α → Bool} (keeps : ∀ a ∈ entries, key a = k → p (change a) = p a) :
    (amend key k change entries).filter p = amend key k change (entries.filter p) := by
  rw [amend, filter_map]
  refine congrArg _ (filter_congr fun a mem => ?_)
  dsimp only [Function.comp]
  split
  · rename_i here
    exact keeps a mem here
  · rfl

theorem amend_map {viewKey : β → κ} {viewChange : β → β}
    (keys : ∀ a, viewKey (view a) = key a) (changes : ∀ a, viewChange (view a) = view (change a)) :
    amend viewKey k viewChange (entries.map view) = (amend key k change entries).map view := by
  rw [amend, amend, map_map, map_map]
  refine map_congr_left fun a _ => ?_
  dsimp only [Function.comp]
  rw [keys]
  split
  · exact changes a
  · rfl

theorem mem_amend (mem : a ∈ amend key k change entries) :
    (∃ b ∈ entries, key b = k ∧ a = change b) ∨ a ∈ entries ∧ key a ≠ k := by
  obtain ⟨b,old,rfl⟩ := mem_map.mp mem
  split
  · rename_i here
    exact .inl ⟨b,old,here,rfl⟩
  · rename_i elsewhere
    exact .inr ⟨old,elsewhere⟩

theorem mem_amend_of (mem : a ∈ entries) (here : key a = k) :
    change a ∈ amend key k change entries :=
  mem_map.mpr ⟨a,mem,if_pos here⟩

theorem mem_amend_of_ne (mem : a ∈ entries) (elsewhere : key a ≠ k) :
    a ∈ amend key k change entries :=
  mem_map.mpr ⟨a,mem,if_neg elsewhere⟩

section
variable {R : α → ρ → Prop} {rowKey : ρ → κ} {before now : List ρ}

/-- The rows added since `before` stand for the entries, in order. -/
def Backs (R : α → ρ → Prop) (before now : List ρ) (entries : List α) : Prop :=
  ∃ rows, now = before ++ rows ∧ Forall₂ R entries rows

theorem backs_nil (before : List ρ) : Backs R before before [] :=
  ⟨[],(append_nil before).symm,.nil⟩

variable {a : α} {row : ρ} {update : ρ → ρ}

theorem backs_append (backs : Backs R before now entries) (holds : R a row) :
    Backs R before (now ++ [row]) (entries ++ [a]) := by
  obtain ⟨rows,rfl,related⟩ := backs
  exact ⟨rows ++ [row],append_assoc before rows [row],rel_append related (.cons holds .nil)⟩

theorem backs_row (backs : Backs R before now entries) (mem : row ∈ now) :
    row ∈ before ∨ ∃ a ∈ entries, R a row := by
  obtain ⟨rows,rfl,related⟩ := backs
  rcases mem_append.mp mem with old | new
  · exact .inl old
  · obtain ⟨same,each⟩ := forall₂_iff_get.mp related
    obtain ⟨i,bound,rfl⟩ := getElem_of_mem new
    exact .inr ⟨entries.get ⟨i,same ▸ bound⟩,get_mem _ _,each i (same ▸ bound) bound⟩

theorem backs_entry (backs : Backs R before now entries) (mem : a ∈ entries) :
    ∃ row ∈ now, R a row := by
  obtain ⟨rows,rfl,related⟩ := backs
  obtain ⟨same,each⟩ := forall₂_iff_get.mp related
  obtain ⟨i,bound,rfl⟩ := getElem_of_mem mem
  exact ⟨rows.get ⟨i,same ▸ bound⟩,mem_append_right _ (get_mem _ _),each i bound (same ▸ bound)⟩

omit [DecidableEq κ] in
theorem backs_absent (agree : ∀ a row, R a row → rowKey row = key a)
    (backs : Backs R before now entries) (foreign : ∀ row ∈ before, rowKey row ≠ k)
    (new : ∀ a ∈ entries, key a ≠ k) : ∀ row ∈ now, rowKey row ≠ k := by
  intro row mem
  rcases backs_row backs mem with old | ⟨a,found,holds⟩
  · exact foreign row old
  · rw [agree a row holds]
    exact new a found

theorem backs_find {β : Type} {view : ρ → β} {value : α → β}
    (agree : ∀ a row, R a row → rowKey row = key a) (shows : ∀ a row, R a row → view row = value a)
    (distinct : (entries.map key).Nodup) (backs : Backs R before now entries) (mem : a ∈ entries)
    (foreign : ∀ row ∈ before, rowKey row ≠ key a) :
    (now.find? (rowKey · = key a)).map view = some (value a) := by
  obtain ⟨stored,there,holds⟩ := backs_entry backs mem
  obtain ⟨row,found⟩ : ∃ row, now.find? (rowKey · = key a) = some row :=
    Option.isSome_iff_exists.mp
      (find?_isSome.mpr ⟨stored,there,by simpa using agree a stored holds⟩)
  have keyed : rowKey row = key a := by simpa using find?_some found
  rcases backs_row backs (mem_of_find?_eq_some found) with old | ⟨b,other,stands⟩
  · exact absurd keyed (foreign row old)
  · rw [found, inj_on_of_nodup_map distinct mem other (keyed.symm.trans (agree b row stands))]
    exact congrArg some (shows b row stands)

theorem forall₂_amend (agree : ∀ a row, R a row → rowKey row = key a) {rows : List ρ}
    (keeps : ∀ a ∈ entries, ∀ row, R a row → key a = k → R (change a) (update row))
    (related : Forall₂ R entries rows) :
    Forall₂ R (amend key k change entries) (amend rowKey k update rows) := by
  induction related with
  | nil => exact .nil
  | @cons a row _ _ holds _ ih =>
    refine .cons ?_ (ih fun b mem => keeps b (mem_cons_of_mem _ mem))
    dsimp only
    rw [agree a row holds]
    split
    · rename_i here
      exact keeps a mem_cons_self row holds here
    · exact holds

theorem backs_amend (agree : ∀ a row, R a row → rowKey row = key a)
    (foreign : ∀ row ∈ before, rowKey row ≠ k)
    (keeps : ∀ a ∈ entries, ∀ row, R a row → key a = k → R (change a) (update row))
    (backs : Backs R before now entries) :
    Backs R before (amend rowKey k update now) (amend key k change entries) := by
  obtain ⟨rows,rfl,related⟩ := backs
  refine ⟨amend rowKey k update rows,?_,forall₂_amend agree keeps related⟩
  rw [amend, map_append]
  exact congrArg (· ++ amend rowKey k update rows) (amend_absent foreign)

end

end Keyed
