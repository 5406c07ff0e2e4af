import Mathlib.Data.List.Forall2
import Mathlib.Data.List.Infix

/-!
Items that open a key, items that close one, and items that end whatever is open.
A list is paired when every closing item has an opening one for its key before it
and no ending item in between.
-/
namespace Bracketing
open List

variable {α β κ : Type}

structure Brackets (α κ : Type) where
  barrier : α → Prop
  opens : α → κ → Prop
  closes : α → κ → Prop
  exclusive : ∀ x k, closes x k → ¬barrier x

variable {B : Brackets α κ} {C : Brackets β κ}

def Opened (B : Brackets α κ) (before : List α) (k : κ) : Prop :=
  ∃ early x late, before = early ++ x :: late ∧ B.opens x k ∧ ∀ y ∈ late, ¬B.barrier y

def Paired (B : Brackets α κ) (items : List α) : Prop :=
  ∀ before x after k, items = before ++ x :: after → B.closes x k → Opened B before k

theorem Opened.extend {before : List α} {k : κ} (opened : Opened B before k) (earlier : List α) :
    Opened B (earlier ++ before) k := by
  obtain ⟨early,x,late,rfl,opens,clear⟩ := opened
  exact ⟨earlier ++ early,x,late,by simp,opens,clear⟩

theorem not_opened_nil (k : κ) : ¬Opened B [] k := by
  rintro ⟨early,x,late,split,-⟩
  simp at split

theorem opened_concat (before : List α) (x : α) (k : κ) :
    Opened B (before ++ [x]) k ↔ B.opens x k ∨ (¬B.barrier x ∧ Opened B before k) := by
  constructor
  · rintro ⟨early,y,late,split,opens,clear⟩
    rcases eq_nil_or_concat' late with rfl | ⟨shorter,last,rfl⟩
    · obtain ⟨rfl,same⟩ := append_inj' split rfl
      cases same
      exact .inl opens
    · rw [← cons_append, ← append_assoc] at split
      obtain ⟨rfl,same⟩ := append_inj' split rfl
      cases same
      exact .inr ⟨clear x (by simp),early,y,shorter,rfl,opens,fun z mem =>
        clear z (by simp [mem])⟩
  · rintro (opens | ⟨noBarrier,early,y,late,rfl,opens,clear⟩)
    · exact ⟨before,x,[],rfl,opens,by simp⟩
    · refine ⟨early,y,late ++ [x],by simp,opens,fun z mem => ?_⟩
      rcases mem_append.mp mem with old | new
      · exact clear z old
      · rw [mem_singleton.mp new]
        exact noBarrier

theorem paired_nil : Paired B [] := by
  intro before x after k split
  simp at split

theorem paired_concat (items : List α) (x : α) :
    Paired B (items ++ [x]) ↔ Paired B items ∧ ∀ k, B.closes x k → Opened B items k := by
  constructor
  · intro paired
    refine ⟨fun before y after k split closes => ?_,fun k closes => paired items x [] k rfl closes⟩
    exact paired before y (after ++ [x]) k (by simp [split]) closes
  · rintro ⟨paired,last⟩ before y after k split closes
    rcases eq_nil_or_concat' after with rfl | ⟨shorter,z,rfl⟩
    · obtain ⟨rfl,same⟩ := append_inj' split rfl
      cases same
      exact last k closes
    · rw [← cons_append, ← append_assoc] at split
      obtain ⟨rfl,-⟩ := append_inj' split rfl
      exact paired before y shorter k rfl closes

theorem Paired.append {first second : List α} (paired : Paired B first)
    (paired' : Paired B second) :
    Paired B (first ++ second) := by
  induction second using reverseRecOn with
  | nil => simpa using paired
  | append_singleton second x ih =>
    obtain ⟨shorter,last⟩ := (paired_concat second x).mp paired'
    rw [← append_assoc]
    exact (paired_concat _ x).mpr ⟨ih shorter,fun k closes => (last k closes).extend first⟩

variable {items : List α} {keep : α → Bool} {as : List α} {bs : List β}

theorem paired_of_closes_nothing (nothing : ∀ x ∈ items, ∀ k, ¬B.closes x k) :
    Paired B items := by
  intro before x after k split closes
  exact absurd closes (nothing x (by simp [split]) k)

theorem Paired.of_barrier {earlier rest : List α} {x : α} (barrier : B.barrier x)
    (paired : Paired B (earlier ++ x :: rest)) : Paired B (x :: rest) := by
  intro before y after k split closes
  obtain ⟨early,z,late,found,opens,clear⟩ :=
    paired (earlier ++ before) y after k (by simp [split]) closes
  cases before with
  | nil =>
    cases split
    exact absurd barrier (B.exclusive x k closes)
  | cons first more =>
    cases split
    rcases append_eq_append_iff.mp found with ⟨inside,rfl,same⟩ | ⟨inside,rfl,same⟩
    · exact ⟨inside,z,late,same,opens,clear⟩
    · cases inside with
      | nil => exact ⟨[],z,late,by simpa using same.symm,opens,clear⟩
      | cons w inside =>
        obtain ⟨rfl,rfl⟩ := cons.inj same
        exact absurd barrier (clear x (by simp))

theorem opened_filter (openers : ∀ x ∈ items, ∀ k, B.opens x k → keep x = true)
    {k : κ} (opened : Opened B items k) : Opened B (items.filter keep) k := by
  obtain ⟨early,x,late,rfl,opens,clear⟩ := opened
  refine ⟨early.filter keep,x,late.filter keep,?_,opens,fun y mem =>
    clear y (mem_of_mem_filter mem)⟩
  rw [filter_append, filter_cons_of_pos (openers x (by simp) k opens)]

theorem Paired.filter (openers : ∀ x ∈ items, ∀ k, B.opens x k → keep x = true)
    (paired : Paired B items) : Paired B (items.filter keep) := by
  induction items using reverseRecOn with
  | nil => exact paired_nil
  | append_singleton items x ih =>
    obtain ⟨shorter,last⟩ := (paired_concat items x).mp paired
    have openersBefore : ∀ y ∈ items, ∀ k, B.opens y k → keep y = true := fun y mem =>
      openers y (by simp [mem])
    rw [filter_append]
    by_cases kept : keep x = true
    · rw [filter_cons_of_pos kept, filter_nil]
      exact (paired_concat _ x).mpr
        ⟨ih openersBefore shorter,fun k closes => opened_filter openersBefore (last k closes)⟩
    · rw [filter_cons_of_neg kept, filter_nil, append_nil]
      exact ih openersBefore shorter

def Silent (B : Brackets α κ) (x : α) : Prop := ¬B.barrier x ∧ ∀ k, ¬B.opens x k ∧ ¬B.closes x k

theorem opened_silent {x : α} (silent : Silent B x) (before after : List α) (k : κ) :
    Opened B (before ++ x :: after) k ↔ Opened B (before ++ after) k := by
  induction after using reverseRecOn with
  | nil =>
    rw [opened_concat, append_nil]
    exact ⟨fun either => (either.resolve_left (silent.2 k).1).2,fun opened =>
      .inr ⟨silent.1,opened⟩⟩
  | append_singleton after y ih =>
    rw [← cons_append, ← append_assoc, ← append_assoc, opened_concat, opened_concat, ih]

theorem paired_silent {x : α} (silent : Silent B x) (before after : List α) :
    Paired B (before ++ x :: after) ↔ Paired B (before ++ after) := by
  induction after using reverseRecOn with
  | nil =>
    rw [paired_concat, append_nil]
    exact ⟨And.left,fun paired => ⟨paired,fun k closes => absurd closes (silent.2 k).2⟩⟩
  | append_singleton after y ih =>
    rw [← cons_append, ← append_assoc, ← append_assoc, paired_concat, paired_concat, ih]
    simp only [opened_silent silent]

theorem forall₂_concat {rel : α → β → Prop} {x : α} (related : Forall₂ rel (as ++ [x]) bs) :
    ∃ shorter y, bs = shorter ++ [y] ∧ Forall₂ rel as shorter ∧ rel x y := by
  induction as generalizing bs with
  | nil =>
    obtain ⟨y,rest,same,none,rfl⟩ := forall₂_cons_left_iff.mp related
    cases none
    exact ⟨[],y,rfl,.nil,same⟩
  | cons a as ih =>
    obtain ⟨b,rest,first,later,rfl⟩ := forall₂_cons_left_iff.mp related
    obtain ⟨shorter,y,rfl,others,last⟩ := ih later
    exact ⟨b :: shorter,y,rfl,.cons first others,last⟩

structure Alike (B : Brackets α κ) (C : Brackets β κ) (x : α) (y : β) : Prop where
  barrier : B.barrier x ↔ C.barrier y
  opens : ∀ k, B.opens x k ↔ C.opens y k
  closes : ∀ k, B.closes x k ↔ C.closes y k

theorem opened_alike (alike : Forall₂ (Alike B C) as bs) (k : κ) :
    Opened B as k ↔ Opened C bs k := by
  induction as using reverseRecOn generalizing bs with
  | nil =>
    cases alike
    exact ⟨fun opened => absurd opened (not_opened_nil k),fun opened =>
      absurd opened (not_opened_nil k)⟩
  | append_singleton as x ih =>
    obtain ⟨shorter,y,rfl,first,same⟩ := forall₂_concat alike
    rw [opened_concat, opened_concat, same.opens, same.barrier, ih first]

theorem paired_alike (alike : Forall₂ (Alike B C) as bs) :
    Paired B as ↔ Paired C bs := by
  induction as using reverseRecOn generalizing bs with
  | nil =>
    cases alike
    exact ⟨fun _ => paired_nil,fun _ => paired_nil⟩
  | append_singleton as x ih =>
    obtain ⟨shorter,y,rfl,first,same⟩ := forall₂_concat alike
    rw [paired_concat, paired_concat, ih first]
    simp only [same.closes, opened_alike first]

def Brackets.mapKey {κ' : Type} (f : κ → κ') (B : Brackets α κ) : Brackets α κ' where
  barrier := B.barrier
  opens x k' := ∃ k, f k = k' ∧ B.opens x k
  closes x k' := ∃ k, f k = k' ∧ B.closes x k
  exclusive := fun x _ ⟨k,_,closes⟩ => B.exclusive x k closes

theorem paired_mapKey {κ' : Type} {f : κ → κ'} (injective : ∀ k l, f k = f l → k = l)
    (items : List α) :
    Paired (B.mapKey f) items ↔ Paired B items := by
  constructor
  · intro paired before x after k split closes
    obtain ⟨early,y,late,found,⟨l,same,opens⟩,clear⟩ :=
      paired before x after (f k) split ⟨k,rfl,closes⟩
    rw [injective l k same] at opens
    exact ⟨early,y,late,found,opens,clear⟩
  · rintro paired before x after _ split ⟨k,rfl,closes⟩
    obtain ⟨early,y,late,found,opens,clear⟩ := paired before x after k split closes
    exact ⟨early,y,late,found,⟨k,rfl,opens⟩,clear⟩

end Bracketing
