import Mathlib.Algebra.GroupWithZero.Nat
import Mathlib.Data.List.Basic

/-!
Keeping the recent end of a message list within a token budget. Token counts are
machine words, so sums wrap; the lemmas that need exact sums assume that the
whole list is small enough.
-/
namespace Truncation
open List

variable {α β : Type}

def usizeAdd (a b : Nat) : Nat := (a + b) % 2 ^ 64

def usizeSum (tokens : List Nat) : Nat := tokens.foldl usizeAdd 0

theorem usizeAdd_eq {a b : Nat} (small : a + b < 2 ^ 64) : usizeAdd a b = a + b :=
  Nat.mod_eq_of_lt small

theorem foldl_usizeAdd_eq {tokens : List Nat} {start : Nat} (small : start + tokens.sum < 2 ^ 64) :
    tokens.foldl usizeAdd start = start + tokens.sum := by
  induction tokens generalizing start with
  | nil => rfl
  | cons t tokens ih =>
    rw [sum_cons] at small ⊢
    rw [foldl_cons, usizeAdd_eq (by omega), ih (by omega)]
    omega

theorem usizeSum_eq {tokens : List Nat} (small : tokens.sum < 2 ^ 64) :
    usizeSum tokens = tokens.sum := by
  have exact : usizeSum tokens = 0 + tokens.sum := foldl_usizeAdd_eq (by omega)
  rwa [zero_add] at exact

theorem usizeAdd_mod (a b : Nat) : usizeAdd (a % 2 ^ 64) b = (a + b) % 2 ^ 64 :=
  Nat.mod_add_mod a (2 ^ 64) b

theorem usizeSum_mod (tokens : List Nat) : usizeSum tokens = tokens.sum % 2 ^ 64 := by
  have running : ∀ (start : Nat), tokens.foldl usizeAdd (start % 2 ^ 64) =
      (start + tokens.sum) % 2 ^ 64 := by
    induction tokens with
    | nil =>
      intro start
      rw [sum_nil, add_zero]
      rfl
    | cons t tokens ih =>
      intro start
      rw [foldl_cons, usizeAdd_mod, ih, sum_cons, add_assoc]
  have whole := running 0
  rwa [zero_add] at whole

section
variable (tok : α → Nat) (available : Nat)

def tokens (messages : List α) : Nat := (messages.map tok).sum

/-- Newest first: messages are taken until one does not fit. -/
def fill : (used : Nat) → List α → List α
  | _, [] => []
  | used, m :: older =>
    if usizeAdd used (tok m) > available then []
    else m :: fill (usizeAdd used (tok m)) older

/-- The most recent message, whatever its size, and those before it that fit. -/
def recent (messages : List α) : List α :=
  match messages.reverse with
  | [] => []
  | last :: older => (last :: fill tok available (usizeAdd 0 (tok last)) older).reverse

variable {tok available}

@[simp] theorem tokens_nil : tokens tok [] = 0 := rfl

@[simp] theorem tokens_cons (m : α) (rest : List α) :
    tokens tok (m :: rest) = tok m + tokens tok rest := by
  simp [tokens]

@[simp] theorem tokens_append (a b : List α) :
    tokens tok (a ++ b) = tokens tok a + tokens tok b := by
  simp [tokens]

@[simp] theorem tokens_reverse (a : List α) : tokens tok a.reverse = tokens tok a := by
  simp [tokens, sum_reverse]

theorem tokens_sublist {a b : List α} (sub : a.Sublist b) : tokens tok a ≤ tokens tok b := by
  induction sub with
  | slnil => exact Nat.le_refl _
  | cons m _ ih =>
    rw [tokens_cons]
    omega
  | cons_cons m _ ih =>
    rw [tokens_cons, tokens_cons]
    omega

variable {messages : List α} {used : Nat} {taken rest kept : List α}

theorem tok_le_tokens {m : α} (mem : m ∈ messages) :
    tok m ≤ tokens tok messages := by
  have alone : tokens tok [m] ≤ tokens tok messages := tokens_sublist (singleton_sublist.mpr mem)
  rwa [tokens_cons, tokens_nil, add_zero] at alone

theorem fill_initial (used : Nat) (older : List α) : fill tok available used older <+: older := by
  induction older generalizing used with
  | nil => exact prefix_refl _
  | cons m older ih =>
    unfold fill
    split
    · exact nil_prefix
    · exact cons_prefix_cons.mpr ⟨rfl,ih _⟩

theorem fill_fits {older : List α} (small : used + tokens tok older < 2 ^ 64)
    (some_fit : fill tok available used older ≠ []) :
    used + tokens tok (fill tok available used older) ≤ available := by
  induction older generalizing used with
  | nil => exact absurd rfl some_fit
  | cons m older ih =>
    rw [tokens_cons] at small
    have exact := usizeAdd_eq (a := used) (b := tok m) (by omega)
    unfold fill at some_fit ⊢
    rw [exact] at some_fit ⊢
    split
    · rename_i exceeds
      rw [if_pos exceeds] at some_fit
      exact absurd rfl some_fit
    · by_cases more : fill tok available (used + tok m) older = []
      · rw [more, tokens_cons, tokens_nil]
        omega
      · have rest := ih (by omega) more
        rw [tokens_cons]
        omega

theorem fill_eq (small : used + tokens tok (taken ++ rest) < 2 ^ 64)
    (fits : taken ≠ [] → used + tokens tok taken ≤ available)
    (stop : ∀ m older, rest = m :: older → available < used + tokens tok taken + tok m) :
    fill tok available used (taken ++ rest) = taken := by
  induction taken generalizing used with
  | nil =>
    cases rest with
    | nil => rfl
    | cons m older =>
      have exceeds := stop m older rfl
      simp only [nil_append, tokens_cons, tokens_nil] at small exceeds ⊢
      unfold fill
      rw [usizeAdd_eq (by omega), if_pos (by omega)]
  | cons t taken ih =>
    simp only [cons_append, tokens_cons] at small fits stop ⊢
    have enough := fits (by simp)
    unfold fill
    rw [usizeAdd_eq (by omega), if_neg (by omega)]
    rw [ih (by omega) (fun _ => by omega) (fun m older same => by have := stop m older same; omega)]

theorem fill_map (f : α → β) (tok' : β → Nat) (used : Nat) (older : List α) :
    fill tok' available used (older.map f) = (fill (tok' ∘ f) available used older).map f := by
  induction older generalizing used with
  | nil => rfl
  | cons m older ih =>
    simp only [map_cons, fill, Function.comp_apply]
    split
    · rfl
    · rw [map_cons, ← ih]

theorem recent_map (f : α → β) (tok' : β → Nat) (messages : List α) :
    recent tok' available (messages.map f) = (recent (tok' ∘ f) available messages).map f := by
  unfold recent
  rw [← map_reverse]
  cases messages.reverse with
  | nil => rfl
  | cons last older =>
    simp only [map_cons, fill_map, map_reverse, Function.comp_apply]

theorem recent_suffix (messages : List α) : recent tok available messages <:+ messages := by
  unfold recent
  split
  · exact nil_suffix
  · rename_i last older reversed
    have taken : last :: fill tok available (usizeAdd 0 (tok last)) older <+: last :: older :=
      cons_prefix_cons.mpr ⟨rfl,fill_initial _ older⟩
    rw [← reversed] at taken
    exact reverse_prefix.mp (by rwa [reverse_reverse])

theorem recent_nil : recent tok available ([] : List α) = [] := rfl

theorem recent_concat (older : List α) (last : α) :
    recent tok available (older ++ [last]) =
      (fill tok available (usizeAdd 0 (tok last)) older.reverse).reverse ++ [last] := by
  simp [recent]

theorem recent_fits (small : tokens tok messages < 2 ^ 64)
    (several : 2 ≤ (recent tok available messages).length) :
    tokens tok (recent tok available messages) ≤ available := by
  rcases eq_nil_or_concat' messages with rfl | ⟨older,last,rfl⟩
  · simp [recent_nil] at several
  · rw [tokens_append, tokens_cons, tokens_nil] at small
    have first := usizeAdd_eq (a := 0) (b := tok last) (by omega)
    rw [recent_concat, first, zero_add] at several ⊢
    have more : fill tok available (tok last) older.reverse ≠ [] := by
      intro none
      simp [none] at several
    have fits := fill_fits (by rw [tokens_reverse]; omega) more
    rw [tokens_append, tokens_reverse, tokens_cons, tokens_nil]
    omega

theorem recent_getLast? (messages : List α) :
    (recent tok available messages).getLast? = messages.getLast? := by
  rcases eq_nil_or_concat' messages with rfl | ⟨older,last,rfl⟩
  · rfl
  · rw [recent_concat, getLast?_concat, getLast?_concat]

theorem recent_single {last : α} (isLast : messages.getLast? = some last)
    (single : (recent tok available messages).length < 2) :
    recent tok available messages = [last] := by
  obtain ⟨older,rfl⟩ := getLast?_eq_some_iff.mp isLast
  rw [recent_concat] at single ⊢
  simp only [length_append, length_reverse, length_cons, length_nil] at single
  rw [length_eq_zero_iff.mp (by omega : (fill tok available _ older.reverse).length = 0)]
  rfl

theorem recent_eq {before : List α} (small : tokens tok (before ++ kept) < 2 ^ 64)
    (nonempty : kept ≠ []) (fits : 2 ≤ kept.length → tokens tok kept ≤ available)
    (stop : ∀ earlier m, before = earlier ++ [m] → available < tok m + tokens tok kept) :
    recent tok available (before ++ kept) = kept := by
  obtain ⟨older,last,rfl⟩ := eq_nil_or_concat' kept |>.resolve_left nonempty
  simp only [tokens_append, tokens_cons, tokens_nil] at small fits stop
  have taken : fill tok available (tok last) (older.reverse ++ before.reverse) = older.reverse := by
    refine fill_eq ?_ ?_ ?_
    · rw [tokens_append, tokens_reverse, tokens_reverse]
      omega
    · intro some_older
      have := fits (by
        cases older with
        | nil => simp at some_older
        | cons => simp)
      rw [tokens_reverse]
      omega
    · intro m earlier reversed
      have := stop earlier.reverse m (by
        rw [← reverse_reverse before, reversed, reverse_cons])
      rw [tokens_reverse]
      omega
  rw [← append_assoc, recent_concat, usizeAdd_eq (by omega), zero_add, reverse_append,
    taken, reverse_reverse]

/-- Every end of two messages or more is within what is available. -/
def EndsFit (tok : α → Nat) (available : Nat) (messages : List α) : Prop :=
  ∀ ending, ending <:+ messages → 2 ≤ ending.length → usizeSum (ending.map tok) ≤ available

theorem taken_initial_iff {start : Nat} :
    taken <+: fill tok available (start % 2 ^ 64) (taken ++ rest) ↔
      ∀ newest, newest <+: taken → newest ≠ [] →
        (start + tokens tok newest) % 2 ^ 64 ≤ available := by
  induction taken generalizing start with
  | nil =>
    constructor
    · intro _ newest none nonempty
      exact absurd (prefix_nil.mp none) nonempty
    · intro _
      exact nil_prefix
  | cons m taken ih =>
    rw [cons_append, fill, usizeAdd_mod]
    constructor
    · intro kept newest first nonempty
      split at kept
      · exact absurd (prefix_nil.mp kept) (cons_ne_nil m taken)
      · rename_i fits
        have later := ih.mp (cons_prefix_cons.mp kept).2
        cases newest with
        | nil => exact absurd rfl nonempty
        | cons x newest =>
          obtain ⟨rfl,shorter⟩ := cons_prefix_cons.mp first
          rw [tokens_cons, ← add_assoc]
          by_cases alone : newest = []
          · rw [alone, tokens_nil, add_zero]
            omega
          · exact later newest shorter alone
    · intro fits
      have first := fits [m] (cons_prefix_cons.mpr ⟨rfl, nil_prefix⟩) (cons_ne_nil m [])
      rw [tokens_cons, tokens_nil, add_zero] at first
      rw [if_neg (by omega)]
      apply cons_prefix_cons.mpr
      constructor
      · rfl
      · apply ih.mpr
        intro newest shorter nonempty
        have both := fits (m :: newest) (cons_prefix_cons.mpr ⟨rfl,shorter⟩) (cons_ne_nil m newest)
        rwa [tokens_cons, ← add_assoc] at both

/-- An end of the list is kept exactly when every shorter end fits. -/
theorem suffix_recent_iff (tok : α → Nat) (available : Nat) (before : List α)
    (nonempty : kept ≠ []) :
    kept <:+ recent tok available (before ++ kept) ↔ EndsFit tok available kept := by
  obtain ⟨older,last,rfl⟩ := eq_nil_or_concat' kept |>.resolve_left nonempty
  have first : usizeAdd 0 (tok last) = tok last % 2 ^ 64 := by rw [usizeAdd, zero_add]
  rw [← append_assoc, recent_concat, first, reverse_append, suffix_append_inj_of_length_eq rfl,
    and_iff_left rfl, ← reverse_prefix, reverse_reverse, taken_initial_iff]
  constructor
  · intro fits ending suffix several
    obtain ⟨shorter,x,rfl⟩ :=
      eq_nil_or_concat' ending |>.resolve_left (by rintro rfl; simp at several)
    obtain ⟨inside,same⟩ :=
      (suffix_append_inj_of_length_eq (show [x].length = [last].length from rfl)).mp suffix
    cases same
    have within := fits shorter.reverse ( reverse_prefix.mpr inside) (by
      intro none
      rw [reverse_eq_nil_iff.mp none] at several
      simp at several)
    rw [tokens_reverse, add_comm] at within
    rw [usizeSum_mod, map_append, sum_append]
    simpa [tokens] using within
  · intro fits newest shorter some
    have within := fits (newest.reverse ++ [last]) ?_ ?_
    · rw [usizeSum_mod, map_append, sum_append] at within
      have sum : (newest.reverse.map tok).sum = tokens tok newest := tokens_reverse newest
      rw [sum, add_comm] at within
      simpa using within
    · apply (suffix_append_inj_of_length_eq rfl).mpr
      constructor
      · rw [← reverse_prefix, reverse_reverse]
        exact shorter
      · rfl
    · have length := length_pos_iff.mpr some
      simp only [length_append, length_reverse, length_cons, length_nil]
      omega

theorem endsFit_single (m : α) : EndsFit tok available [m] := by
  intro ending suffix several
  have single : ending.length ≤ 1 := suffix.length_le
  omega

theorem endsFit_iff (small : tokens tok messages < 2 ^ 64) :
    EndsFit tok available messages ↔ messages.length < 2 ∨ tokens tok messages ≤ available := by
  constructor
  · intro fits
    by_cases several : 2 ≤ messages.length
    · have whole := fits messages suffix_rfl several
      rw [usizeSum_eq small] at whole
      exact .inr whole
    · exact .inl (by omega)
  · intro either ending suffix several
    have shorter : ending.length ≤ messages.length := suffix.length_le
    have fewer : tokens tok ending ≤ tokens tok messages := tokens_sublist suffix.sublist
    rcases either with single | fits
    · omega
    · rw [usizeSum_eq (show (ending.map tok).sum < 2 ^ 64 from Nat.lt_of_le_of_lt fewer small)]
      exact Nat.le_trans fewer fits

end

section
variable (isUser : α → Bool)

/-- A tail starts with a user message: what stands before the first one goes. -/
def fromUser (messages : List α) : List α := messages.dropWhile fun m => !isUser m

def firstUser (messages : List α) : List α := (messages.find? isUser).toList

variable {isUser}

theorem fromUser_suffix (messages : List α) : fromUser isUser messages <:+ messages :=
  dropWhile_suffix _

variable {messages rest : List α} {m : α} {before after : List α}

theorem fromUser_head (h : fromUser isUser messages = m :: rest) :
    isUser m = true := by
  have first := head?_dropWhile_not (fun m => !isUser m) messages
  rw [fromUser] at h
  rw [h] at first
  simpa using first

theorem fromUser_eq_nil :
    fromUser isUser messages = [] ↔ ∀ m ∈ messages, isUser m = false := by
  unfold fromUser
  induction messages with
  | nil => simp
  | cons m rest ih => by_cases user : isUser m = true <;> simp [user, ih]

theorem mem_fromUser (mem : m ∈ messages) (user : isUser m = true) :
    m ∈ fromUser isUser messages := by
  induction messages with
  | nil => cases mem
  | cons x rest ih =>
    rw [fromUser, dropWhile_cons]
    split
    · rename_i other
      rcases mem_cons.mp mem with rfl | later
      · simp [user] at other
      · exact ih later
    · exact mem

theorem fromUser_of_head (split : messages = m :: rest)
    (user : isUser m = true) : fromUser isUser messages = messages := by
  rw [split, fromUser, dropWhile_cons_of_neg (by simp [user])]

theorem fromUser_map (f : α → β) (isUser' : β → Bool) (messages : List α) :
    fromUser isUser' (messages.map f) = (fromUser (isUser' ∘ f) messages).map f := by
  simp only [fromUser, dropWhile_map]
  rfl

theorem firstUser_map (f : α → β) (isUser' : β → Bool) (messages : List α) :
    firstUser isUser' (messages.map f) = (firstUser (isUser' ∘ f) messages).map f := by
  rw [firstUser, find?_map, firstUser]
  cases List.find? (isUser' ∘ f) messages <;> rfl

theorem firstUser_split (none : ∀ b ∈ before, isUser b = false)
    (user : isUser m = true) : firstUser isUser (before ++ m :: after) = [m] := by
  rw [firstUser, find?_append, find?_eq_none.mpr fun b mem => by simp [none b mem],
    find?_cons_of_pos user]
  rfl

theorem fromUser_split (none : ∀ b ∈ before, isUser b = false)
    (user : isUser m = true) : fromUser isUser (before ++ m :: after) = m :: after := by
  rw [fromUser, dropWhile_append_of_pos fun b mem => by simp [none b mem],
    dropWhile_cons_of_neg (by simp [user])]

theorem split_at_user (isUser : α → Bool) (messages : List α) :
    (∀ m ∈ messages, isUser m = false) ∨ ∃ before m after, messages = before ++ m :: after ∧
      (∀ b ∈ before, isUser b = false) ∧ isUser m = true := by
  cases found : messages.find? isUser with
  | none => exact .inl fun m mem => by simpa using find?_eq_none.mp found m mem
  | some m =>
    obtain ⟨user,before,after,split,none⟩ := find?_eq_some_iff_append.mp found
    exact .inr ⟨before,m,after,split,fun b mem => by simpa using none b mem,user⟩

/-- A suffix, cut back to a user message, has none, starts with the first one of
    the list or lies behind it. -/
theorem fromUser_of_suffix {tail : List α} (none : ∀ b ∈ before, isUser b = false)
    (user : isUser m = true) (suffix : tail <:+ before ++ m :: after) :
    fromUser isUser tail = m :: after ∨ fromUser isUser tail <:+ after := by
  obtain ⟨dropped,split⟩ := suffix
  rcases append_eq_append_iff.mp split with ⟨kept,rfl,rfl⟩ | ⟨more,rfl,rest⟩
  · exact .inl (fromUser_split (fun b mem => none b (by simp [mem])) user)
  · cases more with
    | nil =>
      rw [nil_append] at rest
      exact .inl (by rw [← rest, fromUser_of_head rfl user])
    | cons first more =>
      obtain ⟨-,rfl⟩ := cons.inj rest
      exact .inr ((fromUser_suffix _).trans (suffix_append more tail))

section
variable {tok : α → Nat} {available : Nat}

theorem fill_concat (tok : α → Nat) (available used : Nat) (older : List α) (m : α) :
    fill tok available used (older ++ [m]) = fill tok available used older ∨
      (fill tok available used older = older ∧ fill tok available used (older ++ [m]) =
        older ++ [m]) := by
  induction older generalizing used with
  | nil =>
    by_cases exceeds : usizeAdd used (tok m) > available
    · exact .inl (by simp [fill, exceeds])
    · exact .inr (by simp [fill, exceeds])
  | cons first older ih =>
    by_cases exceeds : usizeAdd used (tok first) > available
    · exact .inl (by simp [fill, exceeds])
    · rcases ih (usizeAdd used (tok first)) with same | ⟨all,more⟩
      · exact .inl (by simp [fill, exceeds, same])
      · exact .inr (by simp [fill, exceeds, all, more])

theorem recent_cons (tok : α → Nat) (available : Nat) (m : α) {messages : List α}
    (nonempty : messages ≠ []) :
    recent tok available (m :: messages) = recent tok available messages ∨
      recent tok available (m :: messages) = m :: recent tok available messages := by
  obtain ⟨older,last,rfl⟩ := eq_nil_or_concat' messages |>.resolve_left nonempty
  rw [← cons_append, recent_concat, recent_concat, reverse_cons]
  rcases fill_concat tok available (usizeAdd 0 (tok last)) older.reverse m with same | ⟨all,more⟩
  · exact .inl (by rw [same])
  · exact .inr (by rw [all, more]; simp)

theorem fromUser_recent_cons {m : α} (other : isUser m = false) (messages : List α) :
    fromUser isUser (recent tok available (m :: messages)) =
      fromUser isUser (recent tok available messages) := by
  have skip : ∀ rest, fromUser isUser (m :: rest) = fromUser isUser rest := fun rest => by
    rw [fromUser, dropWhile_cons_of_pos (by simp [other]), fromUser]
  cases messages with
  | nil => exact skip []
  | cons first rest =>
    rcases recent_cons tok available m (cons_ne_nil first rest) with same | more
    · rw [same]
    · rw [more, skip]

end

end

end Truncation
