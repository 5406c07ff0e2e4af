import Mathlib.Data.List.AList

/-!
A bounded store in order of use: the entries run from the most to the least
recently used, no key stands twice and there are never more entries than the
capacity. It stands for `CLruCache` of the `clru` crate with its unit weights. `peek`,
`pop` and `put` are the operations of those names, `popBack` is `pop_back`, `oldest` is
`back`, `isFull` is `is_full`, `oldestFirst` is `iter` taken backwards and `update`
writes through `get_mut`.
-/
namespace Recency
open List

structure Store (κ α : Type) where
  capacity : Nat
  positive : 0 < capacity
  resident : AList (fun _ : κ => α)
  bounded : resident.entries.length ≤ capacity

variable {κ α : Type} [DecidableEq κ]

omit [DecidableEq κ] in
theorem length_entries (list : AList fun _ : κ => α) : list.entries.length = list.keys.length :=
  (length_map _).symm

variable {list : AList fun _ : κ => α}

theorem length_erase {k : κ} (mem : k ∈ list) :
    (list.erase k).entries.length + 1 = list.entries.length := by
  have some : 0 < list.keys.length := length_pos_of_mem (AList.mem_keys.mp mem)
  rw [length_entries, length_entries, AList.keys_erase,
    length_erase_of_mem (AList.mem_keys.mp mem)]
  omega

theorem length_insert (list : AList fun _ : κ => α) (k : κ) (v : α) :
    (list.insert k v).entries.length = (list.erase k).entries.length + 1 := by
  rw [AList.entries_insert, length_cons]
  rfl

theorem length_erase_le (list : AList fun _ : κ => α) (k : κ) :
    (list.erase k).entries.length ≤ list.entries.length :=
  (kerase_sublist k list.entries).length_le

theorem entries_perm {k : κ} {v : α} (here : list.lookup k = some v) :
    list.entries.Perm (⟨k,v⟩ :: (list.erase k).entries) := by
  have mem : k ∈ list.entries.keys := AList.lookup_isSome.mp (Option.isSome_of_mem here)
  obtain ⟨w,before,after,absent,split,erased⟩ := exists_of_kerase mem
  have same : w = v := by
    have found : (⟨k,w⟩ : Sigma fun _ : κ => α) ∈ list.entries := by rw [split]; simp
    exact Option.some.inj ((AList.mem_lookup_iff.mpr found).symm.trans here)
  show list.entries.Perm (⟨k,v⟩ :: list.entries.kerase k)
  rw [erased, split, same]
  exact perm_middle

namespace Store

def new (capacity : Nat) (positive : 0 < capacity) : Store κ α where
  capacity := capacity
  positive := positive
  resident := ∅
  bounded := Nat.zero_le capacity

variable (store : Store κ α)

def peek (k : κ) : Option α := store.resident.lookup k

def isFull : Bool := decide (store.capacity ≤ store.resident.entries.length)

def oldestFirst : List (Sigma fun _ : κ => α) := store.resident.entries.reverse

def erase (k : κ) : Store κ α where
  capacity := store.capacity
  positive := store.positive
  resident := store.resident.erase k
  bounded := le_trans (length_erase_le _ k) store.bounded

def pop (k : κ) : Option α × Store κ α := (store.peek k,store.erase k)

def oldest : Option (Sigma fun _ : κ => α) := store.resident.entries.getLast?

def popBack : Option (Sigma fun _ : κ => α) × Store κ α :=
  match store.oldest with
  | none => (none,store)
  | some entry => (some entry,store.erase entry.1)

/-- Moves an entry to the front, or adds one if there is room for it. -/
def promote (k : κ) (v : α) (room : k ∈ store.resident ∨ store.isFull = false) : Store κ α where
  capacity := store.capacity
  positive := store.positive
  resident := store.resident.insert k v
  bounded := by
    have bounded := store.bounded
    rw [length_insert]
    rcases room with mem | room
    · have less := length_erase mem
      omega
    · have less := length_erase_le store.resident k
      have below := of_decide_eq_false room
      omega

theorem isFull_popBack : store.popBack.2.isFull = false := by
  refine decide_eq_false ?_
  have positive := store.positive
  have bounded := store.bounded
  unfold popBack oldest
  split
  · rename_i none
    show ¬ store.capacity ≤ store.resident.entries.length
    rw [getLast?_eq_none_iff.mp none, length_nil]
    omega
  · rename_i entry last
    have mem := mem_of_getLast? last
    have less := length_erase (AList.mem_keys.mpr (mem_map_of_mem mem))
    show ¬ store.capacity ≤ (store.resident.erase entry.1).entries.length
    omega

/-- The entry goes to the front; a full store gives up its oldest entry for a new
    key. -/
def put (k : κ) (v : α) : Store κ α :=
  if room : k ∈ store.resident ∨ store.isFull = false then store.promote k v room
  else store.popBack.2.promote k v (.inr store.isFull_popBack)

/-- Changes an entry where it stands in the store and makes it the most recent
    one. -/
def update (k : κ) (change : α → α) : Store κ α :=
  if mem : k ∈ store.resident then
    match store.peek k with
    | none => store
    | some v => store.promote k (change v) (.inl mem)
  else store

variable {store} {k j : κ} {v w : α}

theorem mem_iff_peek : k ∈ store.resident ↔ (store.peek k).isSome := AList.lookup_isSome.symm

theorem not_mem_iff_peek : k ∉ store.resident ↔ store.peek k = none := AList.lookup_eq_none.symm

variable {entry : Sigma fun _ : κ => α}

theorem peek_of_mem (mem : entry ∈ store.resident.entries) :
    store.peek entry.1 = some entry.2 := AList.mem_lookup_iff.mpr mem

theorem peek_iff_mem : store.peek k = some v ↔ (⟨k,v⟩ : Sigma fun _ : κ => α) ∈ store.oldestFirst :=
  AList.mem_lookup_iff.trans mem_reverse.symm

theorem oldestFirst_erase_sublist (k : κ) : (store.erase k).oldestFirst.Sublist store.oldestFirst :=
  (kerase_sublist k _).reverse

@[simp] theorem peek_erase_same : (store.erase k).peek k = none := AList.lookup_erase k _

theorem peek_erase_of_ne (other : j ≠ k) : (store.erase k).peek j = store.peek j :=
  AList.lookup_erase_ne other

theorem peek_erase (k j : κ) : (store.erase k).peek j = if j = k then none else store.peek j := by
  split
  · rename_i same
    rw [same, peek_erase_same]
  · rename_i other
    exact peek_erase_of_ne other

theorem peek_promote {room} :
    (store.promote k v room).peek j = if j = k then some v else store.peek j := by
  split
  · rename_i same
    rw [same]
    exact AList.lookup_insert _
  · rename_i other
    exact AList.lookup_insert_ne other

theorem put_of_room (room : k ∈ store.resident ∨ store.isFull = false) :
    store.put k v = store.promote k v room := dif_pos room

theorem capacity_put : (store.put k v).capacity = store.capacity := by
  unfold put
  split
  · rfl
  · show store.popBack.2.capacity = store.capacity
    unfold popBack
    split <;> rfl

theorem entries_put (store : Store κ α) (k : κ) (v : α) :
    ∃ rest, (store.put k v).resident.entries = ⟨k,v⟩ :: rest ∧
    rest.Sublist store.resident.entries := by
  unfold put
  split
  · exact ⟨_,AList.entries_insert,kerase_sublist _ _⟩
  · refine ⟨_,AList.entries_insert,(kerase_sublist _ _).trans ?_⟩
    unfold popBack
    split
    · exact Sublist.refl _
    · exact kerase_sublist _ _

theorem peek_put_same (store : Store κ α) (k : κ) (v : α) : (store.put k v).peek k = some v := by
  obtain ⟨rest,entries,_⟩ := entries_put store k v
  have mem : (⟨k,v⟩ : Sigma fun _ : κ => α) ∈ (store.put k v).resident.entries := by
    rw [entries]
    exact mem_cons_self
  exact peek_of_mem mem

theorem oldestFirst_put (store : Store κ α) (k : κ) (v : α) : ∃ rest,
    (store.put k v).oldestFirst = rest ++ [⟨k,v⟩] ∧ rest.Sublist store.oldestFirst := by
  obtain ⟨rest,entries,sub⟩ := entries_put store k v
  refine ⟨rest.reverse,?_,sub.reverse⟩
  rw [oldestFirst, entries, reverse_cons]

theorem oldestFirst_promote {room} :
    (store.promote k v room).oldestFirst = (store.erase k).oldestFirst ++ [⟨k,v⟩] := by
  show (store.resident.insert k v).entries.reverse = _
  rw [AList.entries_insert, reverse_cons]
  rfl

theorem oldestFirst_erase_absent (absent : store.peek k = none) :
    (store.erase k).oldestFirst = store.oldestFirst :=
  congrArg List.reverse (kerase_of_notMem_keys (not_mem_iff_peek.mpr absent))

theorem oldestFirst_put_new (absent : store.peek k = none) (room : store.isFull = false) :
    (store.put k v).oldestFirst = store.oldestFirst ++ [⟨k,v⟩] := by
  rw [put_of_room (.inr room), oldestFirst_promote, oldestFirst_erase_absent absent]

theorem update_of_peek {change : α → α} (here : store.peek k = some v) :
    store.update k change = store.promote k (change v) (.inl (mem_iff_peek.mpr (here ▸ rfl))) := by
  have mem : k ∈ store.resident := mem_iff_peek.mpr (here ▸ rfl)
  simp only [update, dif_pos mem, here]

theorem of_peek_put (here : (store.put k v).peek j = some w) :
    j = k ∧ w = v ∨ store.peek j = some w := by
  obtain ⟨rest,entries,sub⟩ := entries_put store k v
  have mem : (⟨j,w⟩ : Sigma fun _ : κ => α) ∈ (store.put k v).resident.entries :=
    AList.mem_lookup_iff.mp here
  rw [entries] at mem
  rcases mem_cons.mp mem with same | old
  · cases same
    exact .inl ⟨rfl,rfl⟩
  · exact .inr (peek_of_mem (sub.subset old))

theorem peek_put (room : store.isFull = false) :
    (store.put k v).peek j = if j = k then some v else store.peek j := by
  rw [put_of_room (.inr room), peek_promote]

theorem isFull_erase (mem : k ∈ store.resident) : (store.erase k).isFull = false := by
  refine decide_eq_false ?_
  have less := length_erase mem
  have bounded := store.bounded
  show ¬ store.capacity ≤ (store.resident.erase k).entries.length
  omega

omit [DecidableEq κ] in
theorem mem_of_oldest (last : store.oldest = some entry) :
    entry.1 ∈ store.resident :=
  AList.mem_keys.mpr (mem_map_of_mem (mem_of_getLast? last))

theorem popBack_of_oldest (last : store.oldest = some entry) :
    store.popBack = (some entry,store.erase entry.1) := by
  rw [popBack, last]

omit [DecidableEq κ] in
theorem oldest_eq_head : store.oldest = store.oldestFirst.head? := head?_reverse.symm

theorem oldestFirst_erase (last : store.oldest = some entry) :
    store.oldestFirst = entry :: (store.erase entry.1).oldestFirst := by
  obtain ⟨init,split⟩ := getLast?_eq_some_iff.mp last
  have nodup := store.resident.keys_nodup
  rw [AList.keys, List.keys, split, map_append] at nodup
  have absent : entry.1 ∉ init.keys := fun mem =>
    (nodup_append.mp nodup).2.2 _ mem _ mem_cons_self rfl
  have erased : (store.erase entry.1).resident.entries = init := by
    show store.resident.entries.kerase entry.1 = init
    rw [split, kerase_append_right absent, kerase_cons_eq rfl, append_nil]
  rw [oldestFirst, oldestFirst, erased, split, reverse_append]
  rfl

end Store

end Recency
