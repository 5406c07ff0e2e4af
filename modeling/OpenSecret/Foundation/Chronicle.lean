import Mathlib.Data.List.Basic

/-!
A chronicle lists events newest first. Each event is judged against the events
before it, so every suffix of a chronicle is one.
-/
namespace Chronicle
variable {ε : Type}

def Justified (judge : List ε → ε → Prop) : List ε → Prop
  | [] => True
  | event :: older => judge older event ∧ Justified judge older

variable {judge : List ε → ε → Prop} {events older newer : List ε}

theorem justified_append (h : Justified judge (newer ++ older)) : Justified judge older := by
  induction newer with
  | nil => exact h
  | cons event newer ih => exact ih h.2

variable {event : ε}

theorem justified_at (h : Justified judge events) (split : events = newer ++ event :: older) :
    judge older event := by
  subst split
  exact (justified_append h).1

theorem justified_mem (h : Justified judge events) (mem : event ∈ events) :
    ∃ newer older, events = newer ++ event :: older ∧ judge older event := by
  obtain ⟨newer,older,split⟩ := List.append_of_mem mem
  exact ⟨newer,older,split,justified_at h split⟩

end Chronicle
