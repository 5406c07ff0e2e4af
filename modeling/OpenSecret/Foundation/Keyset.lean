import Mathlib.Data.List.Chain
import Mathlib.Data.List.Nodup
import Mathlib.Data.List.Sort

/-!
Keyset pagination: rows listed by a linearly ordered key and handed out a page
at a time, each page asked for with the id of the last row of the page before.
A row can fail to be read, which fails its page.
-/
namespace Keyset
open List

variable {Row Id α ε : Type}

/-- Sorting by a key leaves the order of rows with equal keys open. -/
structure OrderBy (Row : Type) where
  sort : ∀ {K : Type} [LinearOrder K], (Row → K) → List Row → List Row
  perm : ∀ {K : Type} [LinearOrder K] (key : Row → K) (rows : List Row), (sort key rows).Perm rows
  sorted : ∀ {K : Type} [LinearOrder K] (key : Row → K) (rows : List Row),
    (sort key rows).Pairwise fun a b => key a ≤ key b

/-- Rows with equal keys stay in the order they are stored in. -/
def OrderBy.stable : OrderBy Row where
  sort key rows := rows.insertionSort fun a b => key a ≤ key b
  perm _ rows := perm_insertionSort _ rows
  sorted key rows := by
    have total : Std.Total fun a b : Row => key a ≤ key b := ⟨fun a b => le_total _ _⟩
    have trans : IsTrans Row fun a b => key a ≤ key b := ⟨fun _ _ _ => le_trans⟩
    exact pairwise_insertionSort _ rows

section
variable {K : Type} [LinearOrder K] {key : Row → K} {rows listed earlier later : List Row}
  {row : Row}

theorem strictly_sorted (distinct : (listed.map key).Nodup)
    (sorted : listed.Pairwise fun a b => key a ≤ key b) :
    listed.Pairwise fun a b => key a < key b :=
  (sorted.and (pairwise_map.mp distinct)).imp fun ⟨upto,differ⟩ => lt_of_le_of_ne upto differ

theorem sort_eq_of_perm (db : OrderBy Row) (distinct : (rows.map key).Nodup)
    (same : listed.Perm rows) (sorted : listed.Pairwise fun a b => key a ≤ key b) :
    db.sort key rows = listed := by
  refine List.Perm.eq_of_pairwise ?_ (db.sorted key rows) sorted
    ((db.perm key rows).trans same.symm)
  intro a b first second upto downto
  exact inj_on_of_nodup_map distinct ((db.perm key rows).subset first) (same.subset second)
    (le_antisymm upto downto)

theorem filter_after (sorted : (earlier ++ row :: later).Pairwise fun a b => key a < key b) :
    (earlier ++ row :: later).filter (fun r => key row < key r) = later := by
  obtain ⟨-,tail,before⟩ := pairwise_append.mp sorted
  have dropped : earlier.filter (fun r => key row < key r) = [] := by
    refine filter_eq_nil_iff.mpr fun r mem => ?_
    rw [decide_eq_true_eq, not_lt]
    exact le_of_lt (before r mem row mem_cons_self)
  have kept : later.filter (fun r => key row < key r) = later := by
    refine filter_eq_self.mpr fun r mem => ?_
    exact decide_eq_true ((pairwise_cons.mp tail).1 r mem)
  rw [filter_append, dropped, nil_append, filter_cons_of_neg (by simp), kept]

/-- What follows a row in a listing of all rows from some key on is the listing
    of all rows after it. -/
theorem sort_after (db : OrderBy Row) {p : Row → Bool} (distinct : (rows.map key).Nodup)
    (upward : ∀ a b, key a < key b → p a = true → p b = true)
    (listing : db.sort key (rows.filter p) = earlier ++ row :: later) :
    db.sort key (rows.filter fun r => key row < key r) = later := by
  have selected : ((rows.filter p).map key).Nodup := distinct.sublist (filter_sublist.map key)
  have same := db.perm key (rows.filter p)
  have sorted := db.sorted key (rows.filter p)
  have strict := strictly_sorted ((same.map key).nodup_iff.mpr selected) sorted
  rw [listing] at same sorted strict
  have wanted : p row = true := (mem_filter.mp (same.subset (by simp))).2
  have followers : later.Perm (rows.filter fun r => key row < key r) := by
    have narrowed := same.filter fun r => key row < key r
    rw [filter_after strict, filter_filter] at narrowed
    refine narrowed.trans (List.Perm.of_eq (filter_congr fun r _ => ?_))
    by_cases after : key row < key r
    · simp [after, upward row r after wanted]
    · simp [after]
  have tail := (pairwise_append.mp sorted).2.1
  exact sort_eq_of_perm db (distinct.sublist (filter_sublist.map key)) followers
    (pairwise_cons.mp tail).2

end

theorem filter_id [DecidableEq Id] {id : Row → Id} {rows : List Row} {row : Row}
    (distinct : (rows.map id).Nodup) (stored : row ∈ rows) :
    rows.filter (fun r => id r = id row) = [row] := by
  induction rows with
  | nil => cases stored
  | cons first rest ih =>
    obtain ⟨fresh,distinct⟩ := nodup_cons.mp distinct
    rcases mem_cons.mp stored with rfl | later
    · have others : rest.filter (fun r => id r = id row) = [] := by
        refine filter_eq_nil_iff.mpr fun r mem same => fresh ?_
        exact of_decide_eq_true same ▸ mem_map_of_mem mem
      rw [filter_cons_of_pos (by simp), others]
    · have differs : id first ≠ id row := fun same => fresh (same ▸ mem_map_of_mem later)
      rw [filter_cons_of_neg (by simpa using differs), ih distinct later]

theorem join_singleton (matching : Row → Row → Bool) (rows : List Row) (row : Row) :
    rows.flatMap (fun r => ([row].filter (matching r)).map fun _ => r) =
      rows.filter fun r => matching r row := by
  induction rows with
  | nil => rfl
  | cons first rest ih =>
    rw [flatMap_cons, ih, filter_cons, filter_cons]
    split <;> rfl

structure Page (Id α : Type) where
  data : List α
  hasMore : Bool
  firstId : Option Id
  lastId : Option Id

def page (limit : Nat) (read : Row → Except ε α) (idOf : α → Id) (found : List Row) :
    Except ε (Page Id α) := do
  let data ← (found.take limit).mapM read
  return ⟨data,decide (limit < found.length),data.head?.map idOf,data.getLast?.map idOf⟩

theorem take_lookahead (limit : Nat) (found : List Row) :
    (if limit < (found.take (limit + 1)).length then (found.take (limit + 1)).take limit
      else found.take (limit + 1)) =
      found.take limit := by
  rw [length_take, take_take]
  split
  · rw [min_eq_left (Nat.le_succ limit)]
  · rw [take_of_length_le (by omega), take_of_length_le (by omega)]

inductive Walk (request : Option Id → Except ε (Page Id α)) :
    Option Id → Except ε (List α) → Prop where
  | failed {after : Option Id} {e : ε} (answer : request after = .error e) :
      Walk request after (.error e)
  | last {after : Option Id} {p : Page Id α} (answer : request after = .ok p)
      (none : p.lastId = none) :
      Walk request after (.ok p.data)
  | onward {after : Option Id} {p : Page Id α} {id : Id} {rest : Except ε (List α)}
      (answer : request after = .ok p) (lastId : p.lastId = some id)
        (walked : Walk request (some id) rest) :
      Walk request after (rest.map (p.data ++ ·))

variable {request : Option Id → Except ε (Page Id α)}

theorem walk_unique {after : Option Id} {one other : Except ε (List α)}
    (walked : Walk request after one) (again : Walk request after other) : one = other := by
  induction walked generalizing other with
  | failed answer => cases again <;> simp_all
  | last answer none => cases again <;> simp_all
  | onward answer lastId walked ih =>
    cases again with
    | failed answer' => rw [answer] at answer'; cases answer'
    | last answer' none => rw [answer] at answer'; cases answer'; rw [lastId] at none; cases none
    | onward answer' lastId' walked' =>
      rw [answer] at answer'
      cases answer'
      rw [lastId] at lastId'
      cases lastId'
      rw [ih walked']

theorem not_walk_of_loop {id : Id} {p : Page Id α}
    {result : Except ε (List α)} (answer : request (some id) = .ok p) (loops : p.lastId = some id) :
    ¬ Walk request (some id) result := by
  intro walked
  generalize start : some id = after at walked
  induction walked with
  | failed failure =>
    rw [← start, answer] at failure
    cases failure
  | last answer' none =>
    rw [← start, answer] at answer'
    cases answer'
    rw [loops] at none
    cases none
  | onward answer' lastId _ ih =>
    rw [← start, answer] at answer'
    cases answer'
    exact ih (loops.symm.trans lastId)

section
variable {read : Row → Except ε α} {rows : List Row} {data : List α}

theorem forall₂_of_mapM (h : rows.mapM read = .ok data) :
    Forall₂ (fun row item => read row = .ok item) rows data := by
  induction rows generalizing data with
  | nil => cases h; exact .nil
  | cons row rest ih =>
    rw [mapM_cons] at h
    cases first : read row with
    | error e => rw [first] at h; cases h
    | ok item =>
      rw [first] at h
      cases others : rest.mapM read with
      | error e => simp only [others] at h; cases h
      | ok items =>
        simp only [others] at h
        cases h
        exact .cons first (ih others)

theorem mapM_ok (reads : ∀ row ∈ rows, ∃ item, read row = .ok item) :
    ∃ data, rows.mapM read = .ok data := by
  induction rows with
  | nil => exact ⟨[],rfl⟩
  | cons row rest ih =>
    obtain ⟨item,first⟩ := reads row mem_cons_self
    obtain ⟨items,others⟩ := ih fun r mem => reads r (mem_cons_of_mem _ mem)
    refine ⟨item :: items,?_⟩
    rw [mapM_cons, first, others]
    rfl

theorem mem_of_mapM (h : rows.mapM read = .ok data) {item : α} (mem : item ∈ data) :
    ∃ row ∈ rows, read row = .ok item := by
  have pairs := forall₂_of_mapM h
  clear h
  induction pairs with
  | nil => cases mem
  | cons first _ ih =>
    rcases mem_cons.mp mem with rfl | later
    · exact ⟨_,mem_cons_self,first⟩
    · obtain ⟨row,stored,readRow⟩ := ih later
      exact ⟨row,mem_cons_of_mem _ stored,readRow⟩

variable {idOf : α → Id} {id : Row → Id}

theorem ids_of_mapM (named : ∀ row item, read row = .ok item → idOf item = id row)
    (h : rows.mapM read = .ok data) : data.map idOf = rows.map id := by
  have pairs := forall₂_of_mapM h
  clear h
  induction pairs with
  | nil => rfl
  | cons first _ ih => rw [map_cons, map_cons, named _ _ first, ih]

theorem page_eq_ok {limit : Nat} {p : Page Id α} (answer : page limit read idOf rows = .ok p) :
    ∃ data, (rows.take limit).mapM read = .ok data ∧
      p = ⟨data,decide (limit < rows.length),data.head?.map idOf,data.getLast?.map idOf⟩ := by
  unfold page at answer
  cases read' : (rows.take limit).mapM read with
  | error e => rw [read'] at answer; cases answer
  | ok data =>
    rw [read'] at answer
    cases answer
    exact ⟨data,rfl,rfl⟩

end

/-- What was found after some id goes on, after each of its rows, with what is
    found after that row's id. -/
def Chained (id : Row → Id) (fetch : Option Id → List Row) : Prop :=
  ∀ after earlier row later, fetch after = earlier ++ row :: later → fetch (some (id row)) = later

section
variable {read : Row → Except ε α} {idOf : α → Id} {id : Row → Id}
  {fetch : Option Id → List Row} {limit : Nat}

variable {after : Option Id} {data : List α}

theorem fetch_next (chained : Chained id fetch)
    (named : ∀ row item, read row = .ok item → idOf item = id row) {last : Id}
    (h : ((fetch after).take limit).mapM read = .ok data)
    (lastId : data.getLast?.map idOf = some last) :
    fetch (some last) = (fetch after).drop limit := by
  rw [← getLast?_map, ids_of_mapM named h, getLast?_map, Option.map_eq_some_iff] at lastId
  obtain ⟨row,isLast,rfl⟩ := lastId
  obtain ⟨earlier,split⟩ := getLast?_eq_some_iff.mp isLast
  refine chained after earlier row _ ?_
  calc fetch after = (fetch after).take limit ++ (fetch after).drop limit :=
    (take_append_drop ..).symm
    _ = earlier ++ row :: (fetch after).drop limit := by rw [split, append_assoc, singleton_append]

theorem walk_chained (chained : Chained id fetch)
    (named : ∀ row item, read row = .ok item → idOf item = id row) (positive : 0 < limit)
    (after : Option Id) :
    Walk (fun after => page limit read idOf (fetch after)) after ((fetch after).mapM read) := by
  induction size : (fetch after).length using Nat.strongRecOn generalizing after with
  | ind _ ih =>
    have whole := take_append_drop limit (fetch after)
    cases taken : ((fetch after).take limit).mapM read with
    | error e =>
      have result : (fetch after).mapM read = .error e := by
        rw [← whole, mapM_append, taken]
        rfl
      rw [result]
      refine .failed ?_
      rw [page, taken]
      rfl
    | ok data =>
      have answer : page limit read idOf (fetch after) =
          .ok ⟨data,decide (limit < (fetch after).length),data.head?.map idOf,
            data.getLast?.map idOf⟩ := by
        rw [page, taken]
        rfl
      have result : (fetch after).mapM read =
          (((fetch after).drop limit).mapM read).map (data ++ ·) := by
        rw [← whole, mapM_append, taken, whole]
        cases ((fetch after).drop limit).mapM read <;> rfl
      have count := (forall₂_of_mapM taken).length_eq
      rw [length_take] at count
      rw [result]
      cases lastId : data.getLast?.map idOf with
      | none =>
        have empty : data = [] := getLast?_eq_none_iff.mp (Option.map_eq_none_iff.mp lastId)
        have exhausted : (fetch after).drop limit = [] := by
          rw [empty, length_nil] at count
          exact drop_eq_nil_of_le (by omega)
        rw [exhausted, empty]
        rw [empty] at answer
        exact .last (p := ⟨[],_,_,_⟩) answer rfl
      | some last =>
        have next := fetch_next chained named taken lastId
        have nonempty : data ≠ [] := by
          rintro rfl
          cases lastId
        have shorter : (fetch (some last)).length < (fetch after).length := by
          have := length_pos_iff.mpr nonempty
          rw [next, length_drop]
          omega
        rw [← next]
        exact .onward answer lastId (ih _ (size ▸ shorter) (some last) rfl)

theorem hasMore_iff (chained : Chained id fetch)
    (named : ∀ row item, read row = .ok item → idOf item = id row) (positive : 0 < limit)
    {p : Page Id α} (answer : page limit read idOf (fetch after) = .ok p) :
    p.hasMore = true ↔ ∃ last, p.lastId = some last ∧
      ∀ next, page limit read idOf (fetch (some last)) = .ok next → next.data ≠ [] := by
  obtain ⟨data,taken,rfl⟩ := page_eq_ok answer
  have count := (forall₂_of_mapM taken).length_eq
  rw [length_take] at count
  simp only [decide_eq_true_eq]
  constructor
  · intro more
    have nonempty : data ≠ [] := length_pos_iff.mp (by omega)
    refine ⟨_,congrArg (Option.map idOf) (getLast?_eq_some_getLast nonempty),?_⟩
    intro next answered
    obtain ⟨following,read',rfl⟩ := page_eq_ok answered
    have count' := (forall₂_of_mapM read').length_eq
    rw [fetch_next chained named taken
      (congrArg (Option.map idOf) (getLast?_eq_some_getLast nonempty)),
      length_take, length_drop] at count'
    have filled : 0 < following.length := by omega
    exact length_pos_iff.mp filled
  · rintro ⟨last,lastId,nonempty⟩
    by_contra exhausted
    have next := fetch_next chained named taken lastId
    rw [drop_eq_nil_of_le (by omega)] at next
    rw [next] at nonempty
    exact nonempty ⟨[],_,none,none⟩ (by rw [page, take_nil]; rfl) rfl

theorem walk_read (walked : Walk (fun after => page limit read idOf (fetch after)) after (.ok data))
    {item : α} (mem : item ∈ data) : ∃ start, ∃ row ∈ fetch start, read row = .ok item := by
  have ofPage : ∀ start p, page limit read idOf (fetch start) = .ok p → ∀ x ∈ p.data,
      ∃ start, ∃ row ∈ fetch start, read row = .ok x := by
    intro start p answer x found
    obtain ⟨data,taken,rfl⟩ := page_eq_ok answer
    obtain ⟨row,stored,readRow⟩ := mem_of_mapM taken found
    exact ⟨start,row,mem_of_mem_take stored,readRow⟩
  generalize result : Except.ok data = outcome at walked
  induction walked generalizing data with
  | failed answer => cases result
  | last answer none => cases result; exact ofPage _ _ answer item mem
  | @onward _ p _ rest answer lastId walked ih =>
    cases rest with
    | error e => cases result
    | ok later =>
      cases result
      rcases mem_append.mp mem with here | further
      · exact ofPage _ _ answer item here
      · exact ih further rfl

end

section
variable {K : Type} [LinearOrder K] {key : Row → K} {rows : List Row}
  {id : Row → Id} {found : Option Id → List Row}

/-- Fetching is chained when every request selects the rows from some key on,
    and the id of a row selects the rows after it. -/
theorem chained_sort (db : OrderBy Row) (distinct : (rows.map key).Nodup)
    (selects : ∀ after, ∃ p : Row → Bool, found after = rows.filter p ∧
      ∀ a b, key a < key b → p a = true → p b = true)
    (next : ∀ row ∈ rows, found (some (id row)) = rows.filter fun r => key row < key r) :
    Chained id fun after => db.sort key (found after) := by
  intro after earlier row later listing
  obtain ⟨p,selected,upward⟩ := selects after
  have stored : row ∈ rows := by
    have listed : row ∈ db.sort key (found after) := by simp [listing]
    have mem := (db.perm key (found after)).subset listed
    rw [selected] at mem
    exact (mem_filter.mp mem).1
  simp only [selected] at listing
  simp only [next row stored]
  exact sort_after db distinct upward listing

end

section
variable {read : Row → Except ε α} {idOf : α → Id} {fetch : Option Id → List Row}

variable {after : Option Id} {item : α} {data : List α}

theorem walk_head {rest : List α}
    (walked : Walk (fun after => page 1 read idOf (fetch after)) after (.ok (item :: rest))) :
    (∃ row ∈ fetch after, read row = .ok item) ∧
      Walk (fun after => page 1 read idOf (fetch after)) (some (idOf item)) (.ok rest) := by
  generalize result : Except.ok (item :: rest) = outcome at walked
  cases walked with
  | failed answer => cases result
  | last answer none =>
    obtain ⟨data,taken,rfl⟩ := page_eq_ok answer
    have empty : data = [] := getLast?_eq_none_iff.mp (Option.map_eq_none_iff.mp none)
    rw [empty] at result
    cases result
  | @onward _ p last walkedOn answer lastId walked =>
    obtain ⟨data,taken,rfl⟩ := page_eq_ok answer
    have pairs := forall₂_of_mapM taken
    cases found : fetch after with
    | nil =>
      rw [found] at pairs
      cases pairs
      cases lastId
    | cons row more =>
      rw [found, take_succ_cons, take_zero] at pairs
      obtain ⟨first,_,readFirst,none,rfl⟩ := forall₂_cons_left_iff.mp pairs
      cases none
      cases lastId
      cases walkedOn with
      | error e => cases result
      | ok later =>
        cases result
        exact ⟨⟨row,mem_cons_self,readFirst⟩,walked⟩

theorem walk_suffix {earlier later : List α}
    (walked : Walk (fun after => page 1 read idOf (fetch after))
      after (.ok (earlier ++ item :: later))) :
    Walk (fun after => page 1 read idOf (fetch after)) (some (idOf item)) (.ok later) := by
  induction earlier generalizing after with
  | nil => exact (walk_head walked).2
  | cons first earlier ih => exact ih (walk_head walked).2

/-- A walk that comes back to an id goes on as it did before, and never ends. -/
theorem walk_ids_nodup
    (walked : Walk (fun after => page 1 read idOf (fetch after)) after (.ok data)) :
    (data.map idOf).Nodup := by
  induction data generalizing after with
  | nil => exact nodup_nil
  | cons item rest ih =>
    have onward := (walk_head walked).2
    refine nodup_cons.mpr ⟨?_,ih onward⟩
    intro again
    obtain ⟨other,mem,same⟩ := mem_map.mp again
    obtain ⟨earlier,later,rfl⟩ := append_of_mem mem
    have looped := walk_suffix onward
    rw [same] at looped
    have equal := congrArg List.length (Except.ok.inj (walk_unique onward looped))
    rw [length_append, length_cons] at equal
    omega

theorem walk_chain {id : Row → Id} (named : ∀ row item, read row = .ok item → idOf item = id row)
    (walked : Walk (fun after => page 1 read idOf (fetch after)) after (.ok data)) :
    (data.map idOf).IsChain fun a b => ∃ row ∈ fetch (some a), id row = b := by
  induction data generalizing after with
  | nil => exact .nil
  | cons item rest ih =>
    have onward := (walk_head walked).2
    cases rest with
    | nil => exact .singleton _
    | cons next rest =>
      obtain ⟨⟨row,found,readNext⟩,-⟩ := walk_head onward
      exact .cons_cons ⟨row,found,(named row next readNext).symm⟩ (ih onward)

end

end Keyset
