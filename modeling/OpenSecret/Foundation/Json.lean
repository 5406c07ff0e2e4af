import OpenSecret.Foundation.Framing

/-!
JSON values as a program handles them after parsing. An object maps keys to
values; the order of its keys is not observed.
-/
open Framing

inductive Json where
  | null
  | bool (value : Bool)
  | number (literal : Text)
  | str (value : Text)
  | arr (items : List Json)
  | obj (fields : List (Text × Json))

namespace Json

def lookup (key : Text) : List (Text × Json) → Option Json
  | [] => none
  | (k,v) :: rest => if k = key then some v else lookup key rest

/-- Replaces the value of a key, or adds the key. -/
def update (key : Text) (value : Json) : List (Text × Json) → List (Text × Json)
  | [] => [(key,value)]
  | (k,v) :: rest => if k = key then (k,value) :: rest else (k,v) :: update key value rest

theorem lookup_update (key other : Text) (value : Json) (fields : List (Text × Json)) :
    lookup other (update key value fields) = if key = other then some value
      else lookup other fields := by
  induction fields with
  | nil => rfl
  | cons field rest ih =>
    obtain ⟨k,v⟩ := field
    by_cases here : k = key
    · subst here
      simp only [update, lookup, if_true]
      split <;> rfl
    · simp only [update, if_neg here, lookup, ih]
      by_cases first : k = other
      · have differs : key ≠ other := fun same => here (first.trans same.symm)
        simp [first, differs]
      · simp [first]

def get (message : Json) (key : Text) : Option Json :=
  match message with
  | .obj fields => lookup key fields
  | _ => none

/-- Only objects take a key. -/
def set (message : Json) (key : Text) (value : Json) : Json :=
  match message with
  | .obj fields => .obj (update key value fields)
  | other => other

def asStr : Json → Option Text
  | .str value => some value
  | _ => none

def asArray : Json → Option (List Json)
  | .arr items => some items
  | _ => none

def index (message : Json) (i : Nat) : Option Json := message.asArray.bind (·[i]?)

def digitsValue (digits : Text) : Option Nat :=
  if digits ≠ [] ∧ digits.all Char.isDigit then
    some (digits.foldl (fun n c => 10 * n + (c.toNat - '0'.toNat)) 0)
  else none

/-- An integer literal that does not fit becomes a float and is not an integer any more. -/
def asU64 : Json → Option Nat
  | .number literal => (digitsValue literal).filter (· < 2 ^ 64)
  | _ => none

/-- An integer literal of any size. -/
def asInteger : Json → Option Int
  | .number ('-' :: digits) => (digitsValue digits).map fun n => -(n : Int)
  | .number literal => (digitsValue literal).map fun n => (n : Int)
  | _ => none

/-- A negative zero is a float, and so is an integer that does not fit. -/
def asI64 : Json → Option Int
  | .number ('-' :: digits) =>
    ((digitsValue digits).filter fun n => 0 < n ∧ n ≤ 2 ^ 63).map fun n => -(n : Int)
  | .number literal => ((digitsValue literal).filter (· < 2 ^ 63)).map fun n => (n : Int)
  | _ => none

def isNull : Json → Bool
  | .null => true
  | _ => false

def isObject : Json → Bool
  | .obj _ => true
  | _ => false

variable {message : Json} {key : Text}

theorem get_set (object : message.isObject = true) (key other : Text) (value : Json) :
    (message.set key value).get other = if key = other then some value else message.get other := by
  cases message with
  | obj fields => exact lookup_update key other value fields
  | _ => cases object

theorem get_set_of_ne {other : Text} (differs : key ≠ other) (message value : Json) :
    (message.set key value).get other = message.get other := by
  cases message with
  | obj fields =>
    rw [get_set rfl, if_neg differs]
  | _ => rfl

theorem isObject_of_get {value : Json} (h : message.get key = some value) :
    message.isObject = true := by
  cases message with
  | obj fields => rfl
  | _ => cases h

def text (message : Json) (key : Text) : Option Text := (message.get key).bind asStr

end Json
