import Mathlib.Algebra.Ring.Int.Defs
import OpenSecret.Completions.Usage
import OpenSecret.Responses.Client

/-!
The sums of 32 bits formed from the usage of the turns of a response:
`publish_usage_event_internal` of `openai.rs` adds up the two counters of a turn, the event
loop of `create_response_stream` adds them to its totals, and `build_usage` adds up the
totals. The usage event itself has the counters apart.
-/
namespace OpenSecret.Responses
open List
open Completions (extractUsageObservation tokens i32Max)

def extractUsage (json : Json) : Option CompletionUsage := do
  let observed ← extractUsageObservation json
  let promptTokens := observed.promptTokens.getD 0
  return ⟨Int32.ofInt promptTokens,Int32.ofInt (observed.completionTokens.getD 0),
    observed.cachedPromptTokens.map fun cached => Int32.ofInt (min cached promptTokens)⟩

def publishSums (usage : CompletionUsage) : List (Int32 × Int32) :=
  if usage.promptTokens = 0 ∧ usage.completionTokens = 0 then []
    else [(usage.promptTokens,usage.completionTokens)]

/-- The operands of every addition of a response that reports these usages and is then done. -/
def usageSums (env : ClientEnv) (s : ClientStream) : List CompletionUsage → List (Int32 × Int32)
  | [] =>
    [(if 0 < s.totalPromptTokensUsed then s.totalPromptTokensUsed
      else env.totalPromptTokens,s.totalCompletionTokens)]
  | usage :: rest =>
    publishSums usage ++
      [(s.totalPromptTokensUsed,usage.promptTokens),
        (s.totalCompletionTokens,usage.completionTokens)] ++
      usageSums env (s.receive env (.usage usage.promptTokens usage.completionTokens)) rest

def Fits (sum : Int32 × Int32) : Prop := (sum.1 + sum.2).toInt = sum.1.toInt + sum.2.toInt

instance (sum : Int32 × Int32) : Decidable (Fits sum) := inferInstanceAs (Decidable (_ = _))

def promptTotal (usages : List CompletionUsage) : Int := (usages.map (·.promptTokens.toInt)).sum

def completionTotal (usages : List CompletionUsage) :
    Int := (usages.map (·.completionTokens.toInt)).sum

/-- What is read from an answer is never negative. -/
def Clamped (usage : CompletionUsage) :
    Prop := 0 ≤ usage.promptTokens.toInt ∧ 0 ≤ usage.completionTokens.toInt

section
variable {usages : List CompletionUsage}

theorem fits_iff {a b : Int32} (nonneg : 0 ≤ b.toInt) :
    Fits (a,b) ↔ a.toInt + b.toInt ≤ i32Max := by
  have low := Int32.le_toInt a
  constructor
  · intro same
    have high := Int32.toInt_lt (a + b)
    rw [same] at high
    exact Int.le_sub_one_of_lt high
  · intro small
    have high : a.toInt + b.toInt < 2 ^ 31 := Int.lt_of_le_sub_one small
    refine (Int32.toInt_add a b).trans (Int.bmod_eq_of_le ?_ ?_) <;> omega

theorem extractUsage_clamped {json : Json} {usage : CompletionUsage}
    (read : extractUsage json = some usage) :
    Clamped usage := by
  have clamped : ∀ counter, 0 ≤ (Int32.ofInt ((tokens counter).getD 0)).toInt := by
    intro counter
    have range : 0 ≤ (tokens counter).getD 0 ∧ (tokens counter).getD 0 < 2 ^ 31 := by
      unfold tokens
      cases counter.bind Json.asI64 with
      | none => decide
      | some n =>
        simp only [Option.map_some, Option.getD_some, Completions.clampTokens, i32Max]
        omega
    rw [Int32.toInt_ofInt_of_le (by omega) range.2]
    exact range.1
  obtain ⟨observed,seen,same⟩ := Option.bind_eq_some_iff.mp read
  obtain ⟨object,-,rfl⟩ := Option.map_eq_some_iff.mp seen
  cases same
  exact ⟨clamped _,clamped _⟩

theorem totals_nonneg (reported : ∀ usage ∈ usages, Clamped usage) :
    0 ≤ promptTotal usages ∧ 0 ≤ completionTotal usages := by
  induction usages with
  | nil => exact ⟨Int.le_refl 0,Int.le_refl 0⟩
  | cons usage rest ih =>
    obtain ⟨prompt,completion⟩ := ih fun u mem => reported u (mem_cons_of_mem usage mem)
    obtain ⟨p,c⟩ := reported usage mem_cons_self
    exact ⟨Int.add_nonneg p prompt,Int.add_nonneg c completion⟩

theorem publishSums_fit_iff {usage : CompletionUsage} (nonneg : 0 ≤ usage.completionTokens.toInt) :
    (∀ sum ∈ publishSums usage, Fits sum) ↔
      usage.promptTokens.toInt + usage.completionTokens.toInt ≤ i32Max := by
  unfold publishSums
  split
  · rename_i none
    rw [none.1, none.2]
    simp [i32Max]
  · rw [forall_mem_singleton, fits_iff nonneg]

theorem usageSums_fit_iff (env : ClientEnv) (s : ClientStream) {prompt completion : Int}
    (reported : ∀ usage ∈ usages, Clamped usage)
    (prompted : s.totalPromptTokensUsed.toInt = prompt)
    (completed : s.totalCompletionTokens.toInt = completion)
    (nonneg : 0 ≤ prompt ∧ 0 ≤ completion) :
    (∀ sum ∈ usageSums env s usages, Fits sum) ↔ completion + completionTotal usages ≤ i32Max ∧
      (if 0 < prompt + promptTotal usages then prompt + promptTotal usages
        else env.totalPromptTokens.toInt) +
        (completion + completionTotal usages) ≤ i32Max := by
  induction usages generalizing s prompt completion with
  | nil =>
    have small : completion ≤ i32Max := completed ▸ Int.le_sub_one_of_lt (Int32.toInt_lt _)
    have positive : 0 < s.totalPromptTokensUsed ↔ 0 < prompt := prompted ▸ Int32.lt_iff_toInt_lt
    rw [usageSums, forall_mem_singleton, fits_iff (completed.symm ▸ nonneg.2), completed]
    simp only [promptTotal, completionTotal, map_nil, sum_nil,
      Int.add_zero, small, true_and, positive]
    split
    · rw [prompted]
    · rfl
  | cons usage rest ih =>
    have later : ∀ u ∈ rest, Clamped u := fun u mem => reported u (mem_cons_of_mem usage mem)
    obtain ⟨p,c⟩ := reported usage mem_cons_self
    obtain ⟨ps,cs⟩ := totals_nonneg later
    have prompts : promptTotal (usage :: rest) = usage.promptTokens.toInt + promptTotal rest := rfl
    have completions : completionTotal (usage :: rest) =
      usage.completionTokens.toInt + completionTotal rest := rfl
    -- while both additions are in range, the totals of the stream are the sums
    have next (promptFits : Fits (s.totalPromptTokensUsed,usage.promptTokens))
        (completionFits : Fits (s.totalCompletionTokens,usage.completionTokens)) :=
      ih (s.receive env (.usage usage.promptTokens usage.completionTokens)) later
        (promptFits.trans (congrArg (· + _) prompted))
          (completionFits.trans (congrArg (· + _) completed))
        ⟨Int.add_nonneg nonneg.1 p,Int.add_nonneg nonneg.2 c⟩
    rw [usageSums, forall_mem_append, forall_mem_append, publishSums_fit_iff c, forall_mem_cons,
      forall_mem_singleton, prompts,
      completions, ← Int.add_assoc prompt, ← Int.add_assoc completion]
    constructor
    · rintro ⟨⟨-,promptFits,completionFits⟩,others⟩
      exact (next promptFits completionFits).mp others
    · rintro ⟨low,total⟩
      have published : usage.promptTokens.toInt + usage.completionTokens.toInt ≤ i32Max := by
        split at total <;> omega
      have promptFits : Fits (s.totalPromptTokensUsed,_) :=
        (fits_iff p).mpr (by split at total <;> omega)
      have completionFits : Fits (s.totalCompletionTokens,_) := (fits_iff c).mpr (by omega)
      exact ⟨⟨published,promptFits,completionFits⟩,(next promptFits completionFits).mpr ⟨low,total⟩⟩

end

/-- Whatever the providers report, in however many turns: no sum overflows if and only if the
    totals of the response, and what stands for the prompt at its end, fit together. -/
theorem usage_sums_fit_iff (env : ClientEnv) (usages : List CompletionUsage)
    (reported : ∀ usage ∈ usages, ∃ json, extractUsage json = some usage) :
    (∀ sum ∈ usageSums env (ClientStream.start env) usages, Fits sum) ↔
      completionTotal usages ≤ i32Max ∧
      (if 0 < promptTotal usages then promptTotal usages else env.totalPromptTokens.toInt) +
        completionTotal usages ≤ i32Max := by
  have clamped : ∀ usage ∈ usages, Clamped usage := by
    intro usage mem
    obtain ⟨json,read⟩ := reported usage mem
    exact extractUsage_clamped read
  have zero : (ClientStream.start env).totalPromptTokensUsed.toInt = 0 ∧
      (ClientStream.start env).totalCompletionTokens.toInt = 0 := ⟨rfl,rfl⟩
  simpa only [Int.zero_add] using usageSums_fit_iff env (ClientStream.start env)
    clamped zero.1 zero.2 (by decide)

def usageJson (promptTokens completionTokens : String) : Json :=
  .obj [("usage",.obj [("prompt_tokens",.number promptTokens.toList),
    ("completion_tokens",.number completionTokens.toList)])]

/-- A single turn at the limit of the range, and one token more. -/
theorem one_turn_overflows : ∃ usage, extractUsage (usageJson "2147483647" "1") = some usage ∧
    ∃ sum ∈ usageSums plainClient (ClientStream.start plainClient) [usage], ¬ Fits sum :=
  ⟨⟨2147483647,1,none⟩,by decide +kernel,(2147483647,1),by decide +kernel,by decide +kernel⟩

theorem two_turns_fit :
    (usageSums plainClient (ClientStream.start plainClient) [⟨700,80,none⟩,⟨900,20,none⟩]).all
      (decide <| Fits ·) = true := by
  refine all_eq_true.mpr fun sum mem => decide_eq_true ?_
  refine (usage_sums_fit_iff plainClient [⟨700,80,none⟩,⟨900,20,none⟩] ?_).mpr
    (by decide) sum mem
  rw [forall_mem_cons, forall_mem_singleton]
  exact ⟨⟨usageJson "700" "80",by decide +kernel⟩,⟨usageJson "900" "20",by decide +kernel⟩⟩

end OpenSecret.Responses
