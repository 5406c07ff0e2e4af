import OpenSecret.Encrypt
import Mathlib.Algebra.Order.BigOperators.Group.List
import Mathlib.Algebra.Order.Ring.Nat
import Mathlib.Order.Interval.Finset.Nat

/-!
`select_weighted_route` of `provider_routing.rs`: which route serves an account. Accounts
fall into a hundred buckets; each eligible route takes its share of them, rounded down,
and the last one takes the rest. A selected route is referred to by its place.
-/
namespace OpenSecret.Provider
open Framing List

/-- The weight is a `u32`; nothing else of a route has a part in the selection. -/
structure EligibleRoute where
  effectiveWeight : Nat

structure WeightedSelection where
  route : Nat
  bucket : Nat

def stableAccountBucket (accountUuid : Uuid) : Nat :=
  accountUuid.bytes.foldl (fun n b => n * 256 + b.toNat) 0 % 100

/-- The rounds of `select_weighted_route` from the route at `index` on. -/
def selectFrom (bucket totalWeight : Nat) : (cumulative index : Nat) →
    List EligibleRoute → Option WeightedSelection
  | _, _, [] => none
  | cumulative, index, route :: rest =>
    let bucketSpan := if rest.isEmpty then 100 - cumulative
      else route.effectiveWeight * 100 % 2 ^ 32 / totalWeight
    let cumulative := min (cumulative + bucketSpan) (2 ^ 32 - 1)
    if bucket < cumulative ∨ rest.isEmpty then some ⟨index,bucket⟩
    else selectFrom bucket totalWeight cumulative (index + 1) rest

def weightSum (routes : List EligibleRoute) : Nat := (routes.map EligibleRoute.effectiveWeight).sum

def selectWeightedRoute (accountUuid : Uuid) (routes : List EligibleRoute) :
    Option WeightedSelection :=
  if routes.isEmpty then none
  else
    let totalWeight := weightSum routes % 2 ^ 32
    if totalWeight = 0 then none
    else selectFrom (stableAccountBucket accountUuid) totalWeight 0 0 routes

section
variable {bucket bucket' totalWeight cumulative index i j : Nat} {routes rest : List EligibleRoute}

def shares (totalWeight : Nat) (routes : List EligibleRoute) : Nat :=
  (routes.map fun route => route.effectiveWeight * 100 / totalWeight).sum

theorem shares_cons (route : EligibleRoute) (rest : List EligibleRoute) :
    shares totalWeight (route :: rest) = route.effectiveWeight *
      100 / totalWeight + shares totalWeight rest := by
  rw [shares, map_cons, sum_cons, shares]

theorem shares_append (routes rest : List EligibleRoute) :
    shares totalWeight (routes ++ rest) = shares totalWeight routes + shares totalWeight rest := by
  rw [shares, map_append, sum_append, shares, shares]

theorem shares_take_le (le : i ≤ j) :
    shares totalWeight (routes.take i) ≤ shares totalWeight (routes.take j) := by
  obtain ⟨k,rfl⟩ := Nat.exists_eq_add_of_le le
  rw [take_add, shares_append]
  omega

/-- Shares that are rounded down add up to no more than all the buckets. -/
theorem shares_le (routes : List EligibleRoute) :
    shares totalWeight routes ≤ weightSum routes * 100 / totalWeight := by
  induction routes with
  | nil => simp [shares]
  | cons route rest ih =>
    have both : route.effectiveWeight * 100 / totalWeight + weightSum rest *
      100 / totalWeight ≤ _ :=
      Nat.div_add_div_le_add_div
    rw [shares_cons, weightSum, map_cons, sum_cons, Nat.add_mul]
    rw [weightSum] at ih both
    omega

/-- The bucket falls into the share of the route at `i`; the last route has what is left. -/
structure Falls (cumulative totalWeight : Nat) (routes : List EligibleRoute)
    (bucket i : Nat) : Prop where
  inside : i < routes.length
  reached : cumulative + shares totalWeight (routes.take i) ≤ bucket
  before : i + 1 < routes.length → bucket < cumulative + shares totalWeight (routes.take (i + 1))

theorem Falls.le (here : Falls cumulative totalWeight routes bucket i)
    (there : Falls cumulative totalWeight routes bucket' j) (le : bucket ≤ bucket') : i ≤ j := by
  obtain ⟨inside,reached,-⟩ := here
  by_contra back
  have before := there.before (by omega)
  have ordered : shares totalWeight (routes.take (j + 1)) ≤ shares totalWeight (routes.take i) :=
    shares_take_le (by omega)
  omega

/-- The rounds end at the route whose share the bucket falls into. -/
theorem selectFrom_falls (nonempty : rest ≠ [])
    (small : ∀ route ∈ rest, route.effectiveWeight * 100 < 2 ^ 32)
    (fits : cumulative + shares totalWeight rest < 2 ^ 32) (reached : cumulative ≤ bucket) :
    ∃ i, selectFrom bucket totalWeight cumulative index rest = some ⟨index + i,bucket⟩ ∧
      Falls cumulative totalWeight rest bucket i := by
  induction rest generalizing cumulative index with
  | nil => exact absurd rfl nonempty
  | cons route rest ih =>
    cases rest with
    | nil => exact ⟨0,by simp [selectFrom],by simp,by simpa [shares] using reached,by simp⟩
    | cons next rest =>
      rw [shares_cons] at fits
      have span : route.effectiveWeight * 100 % 2 ^ 32 = route.effectiveWeight * 100 :=
        Nat.mod_eq_of_lt (small route mem_cons_self)
      have unsaturated : min (cumulative + route.effectiveWeight * 100 / totalWeight) (2 ^ 32 - 1) =
          cumulative + route.effectiveWeight * 100 / totalWeight := by
        omega
      rw [selectFrom]
      simp only [isEmpty_cons, Bool.false_eq_true, if_false, or_false, span, unsaturated]
      by_cases here : bucket < cumulative + route.effectiveWeight * 100 / totalWeight
      · refine ⟨0,if_pos here,by simp,by simpa [shares] using reached,fun _ => ?_⟩
        simpa [shares] using here
      · obtain ⟨i,ends,falls⟩ := @ih _ (index + 1) (cons_ne_nil next rest)
          (fun r mem => small r (mem_cons_of_mem _ mem)) (by omega) (not_lt.mp here)
        refine ⟨i + 1,(if_neg here).trans ?_,Nat.succ_lt_succ falls.inside,?_,fun more => ?_⟩
        · rw [ends, add_assoc, add_comm 1]
        · rw [take_succ_cons, shares_cons, ← add_assoc]
          exact falls.reached
        · rw [take_succ_cons, shares_cons, ← add_assoc]
          exact falls.before (Nat.lt_of_succ_lt_succ more)

theorem picked_card {pick : Nat → Nat} {first next : Nat}
    (picks : ∀ bucket, Falls 0 totalWeight routes bucket (pick bucket))
    (own : ∀ bucket, bucket < 100 ∧ Falls 0 totalWeight routes bucket i ↔
      first ≤ bucket ∧ bucket < next) :
    ((Finset.range 100).filter fun bucket => pick bucket = i).card = next - first := by
  rw [← Nat.card_Ico]
  congr 1
  ext bucket
  rw [Finset.mem_filter, Finset.mem_range, Finset.mem_Ico, ← own]
  refine and_congr_right fun _ => ⟨fun same => same ▸ picks bucket,fun here => ?_⟩
  exact le_antisymm ((picks bucket).le here (Nat.le_refl bucket))
    (here.le (picks bucket) (Nat.le_refl bucket))

theorem bucket_reached (small : bucket < 100) :
    ∃ accountUuid, stableAccountBucket accountUuid = bucket := by
  refine ⟨⟨replicate 15 0 ++ [UInt8.ofNat bucket],rfl⟩,?_⟩
  have byte : (UInt8.ofNat bucket).toNat = bucket := by
    rw [UInt8.toNat_ofNat']
    omega
  have zero : (replicate 15 (0 : UInt8)).foldl (fun n b => n * 256 + b.toNat) 0 = 0 := by
    decide
  rw [stableAccountBucket, foldl_append, zero, foldl_cons, foldl_nil, byte]
  omega

/-- Weights of which no sum wraps around. -/
structure Weighted (routes : List EligibleRoute) : Prop where
  nonempty : routes ≠ []
  positive : ∀ route ∈ routes, 0 < route.effectiveWeight
  fits : weightSum routes * 100 < 2 ^ 32

theorem Weighted.total_pos (weighted : Weighted routes) : 0 < weightSum routes := by
  obtain ⟨route,mem⟩ := exists_mem_of_ne_nil routes weighted.nonempty
  exact (weighted.positive route mem).trans_le (le_sum_of_mem (mem_map_of_mem mem))

theorem Weighted.shares_le (weighted : Weighted routes) {part : List EligibleRoute}
    (sublist : part.Sublist routes) :
    shares (weightSum routes) part ≤ 100 := by
  have whole : weightSum part ≤ weightSum routes :=
    (sublist.map _).sum_le_sum fun _ _ => Nat.zero_le _
  refine (Provider.shares_le part).trans ?_
  rw [Nat.div_le_iff_le_mul_add_pred weighted.total_pos]
  omega

theorem Weighted.picks (weighted : Weighted routes) :
    ∃ pick : Nat → Nat, (∀ bucket, Falls 0 (weightSum routes) routes bucket (pick bucket)) ∧
      ∀ accountUuid, selectWeightedRoute accountUuid routes =
        some ⟨pick (stableAccountBucket accountUuid),stableAccountBucket accountUuid⟩ := by
  have fits := weighted.fits
  have small : ∀ route ∈ routes, route.effectiveWeight * 100 < 2 ^ 32 := by
    intro route mem
    have le : route.effectiveWeight ≤ weightSum routes := le_sum_of_mem (mem_map_of_mem mem)
    omega
  have room := weighted.shares_le (List.Sublist.refl routes)
  have falls : ∀ bucket, ∃ i, selectFrom bucket (weightSum routes) 0 0 routes =
    some ⟨0 + i,bucket⟩ ∧ _ :=
    fun bucket => selectFrom_falls weighted.nonempty small (by omega) (Nat.zero_le bucket)
  choose pick ends picks using falls
  refine ⟨pick,picks,fun accountUuid => ?_⟩
  have unwrapped : weightSum routes % 2 ^ 32 = weightSum routes := Nat.mod_eq_of_lt (by omega)
  have occupied : routes.isEmpty = false := by simpa using weighted.nonempty
  rw [selectWeightedRoute, unwrapped, occupied]
  simp only [Bool.false_eq_true, if_false, weighted.total_pos.ne', ends, Nat.zero_add]

/-- Over the hundred buckets, all of which occur: some route is always found, a route
    before the last has its share rounded down, the last has what is left, and the
    buckets of one route stand together in the order of the routes. -/
theorem weighted_routes_partition (routes : List EligibleRoute) (weighted : Weighted routes) :
    ∃ pick : Nat → Nat,
      (∀ accountUuid, selectWeightedRoute accountUuid routes =
        some ⟨pick (stableAccountBucket accountUuid),stableAccountBucket accountUuid⟩) ∧
      (∀ bucket < 100, ∃ accountUuid, stableAccountBucket accountUuid = bucket) ∧
      (∀ bucket, pick bucket < routes.length) ∧ Monotone pick ∧
      (∀ i route, routes[i]? = some route → i + 1 < routes.length →
        ((Finset.range 100).filter fun bucket => pick bucket = i).card =
          route.effectiveWeight * 100 / weightSum routes) ∧
      ((Finset.range 100).filter fun bucket => pick bucket = routes.length - 1).card =
        100 - shares (weightSum routes) routes.dropLast := by
  obtain ⟨pick,picks,selects⟩ := weighted.picks
  refine ⟨pick,selects,fun bucket => bucket_reached,fun bucket => (picks bucket).inside,
    fun a b le => (picks a).le (picks b) le,fun i route here more => ?_,?_⟩
  · have bounded := weighted.shares_le (take_sublist (i + 1) routes)
    have own : route.effectiveWeight * 100 / weightSum routes =
        0 + shares (weightSum routes) (routes.take (i + 1)) -
          (0 + shares (weightSum routes) (routes.take i)) := by
      rw [take_add_one, here, shares_append]
      simp [shares]
    rw [own]
    refine picked_card picks fun bucket =>
      ⟨fun both => ⟨both.2.reached,both.2.before more⟩,fun both => ?_⟩
    exact ⟨by omega,by omega,both.1,fun _ => both.2⟩
  · have last : 0 < routes.length := length_pos_iff.mpr weighted.nonempty
    rw [dropLast_eq_take, ← zero_add (shares _ _)]
    refine picked_card picks fun bucket => ⟨fun both => ⟨both.2.reached,both.1⟩,fun both => ?_⟩
    exact ⟨both.2,by omega,both.1,fun more => by omega⟩

def equalRoutes : List EligibleRoute := replicate 3 ⟨7⟩

/-- A third of the buckets is 33, and the last route has one more. -/
theorem equal_routes_partition : Weighted equalRoutes ∧ ∃ pick : Nat → Nat,
    (∀ accountUuid, selectWeightedRoute accountUuid equalRoutes =
      some ⟨pick (stableAccountBucket accountUuid),stableAccountBucket accountUuid⟩) ∧
    ((Finset.range 100).filter fun bucket => pick bucket = 0).card = 33 ∧
      ((Finset.range 100).filter fun bucket => pick bucket = 2).card = 34 := by
  have weighted : Weighted equalRoutes := ⟨by decide,by decide,by decide⟩
  obtain ⟨pick,selects,-,-,-,each,last⟩ := weighted_routes_partition equalRoutes weighted
  exact ⟨weighted,pick,selects,each 0 _ rfl (by decide),last⟩

end

end OpenSecret.Provider
