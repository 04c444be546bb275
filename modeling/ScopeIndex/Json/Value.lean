import ScopeIndex.Number.Double

/-!
# JSON values

A JSON value whose objects keep their members in the order in which they were written.  A number is an
integer of any size, or a number of double precision when it was written with a fraction or an exponent.
Settings files of another format may also hold dates and times of day, so these are values too.

An escape can write half of a character.  A text that holds a half without its other one is no text of
characters; it is told apart, as a value and as the name of a member.

## Main definitions

* `Json` — the values.
* `Members.get?`, `Members.put` — look-up and insertion among the members of an object.
-/

namespace ScopeIndex

/-- A JSON value. -/
inductive Json where
  /-- The value `null`. -/
  | null
  /-- A truth value. -/
  | bool (b : Bool)
  /-- An integer. -/
  | int (n : Int)
  /-- A number written with a fraction or an exponent. -/
  | real (x : Double)
  /-- A text. -/
  | text (s : String)
  /-- A text with half of a character in it, by its code points. -/
  | torn (points : List Nat)
  /-- A date, a time of day or both, as it was written. -/
  | moment (spelling : String)
  /-- An array. -/
  | list (items : List Json)
  /-- An object, its members in order. -/
  | object (members : List (String × Json))
  /-- The value of a member whose name has half of a character in it. -/
  | misnamed (value : Json)
  deriving Inhabited, Repr

/-- Members of an object, or of any table that keeps the order of its keys. -/
abbrev Members (α : Type) := List (String × α)

namespace Members

variable {α : Type}

/-- The value under a key. -/
def get? (ms : Members α) (key : String) : Option α :=
  (ms.find? (·.1 = key)).map (·.2)

/-- Set the value under a key.  A known key keeps its place, a new one goes to the end. -/
def put (key : String) (value : α) : Members α → Members α
  | [] => [(key, value)]
  | (k, v) :: ms => if k = key then (k, value) :: ms else (k, v) :: put key value ms

/-- The keys, in order. -/
def keys (ms : Members α) : List String := ms.map (·.1)

/-- The members with repeated keys settled: the last value of a key counts, at the first place. -/
def settle (ms : Members α) : Members α := ms.foldl (fun acc m => put m.1 m.2 acc) []

@[simp] theorem put_nil (key : String) (value : α) : put key value [] = [(key, value)] := rfl

/-- What was put under a key is found there. -/
theorem get?_put_self (ms : Members α) (key : String) (value : α) :
    get? (put key value ms) key = some value := by
  induction ms with
  | nil => simp [get?]
  | cons m ms ih =>
      obtain ⟨k, v⟩ := m
      by_cases h : k = key
      · simp [put, get?, h]
      · simpa [put, get?, h] using ih

/-- Other keys are not touched. -/
theorem get?_put_of_ne (ms : Members α) {key other : String} (h : other ≠ key) (value : α) :
    get? (put key value ms) other = get? ms other := by
  induction ms with
  | nil => simp [get?, Ne.symm h]
  | cons m ms ih =>
      obtain ⟨k, v⟩ := m
      by_cases hk : k = key
      · subst hk
        simp [put, get?, Ne.symm h]
      · by_cases ho : k = other
        · subst ho
          simp [put, get?, h]
        · simpa [put, get?, hk, ho] using ih

/-- A known key keeps its place and a new one goes to the end. -/
theorem keys_put (ms : Members α) (key : String) (value : α) :
    keys (put key value ms) = if key ∈ keys ms then keys ms else keys ms ++ [key] := by
  induction ms with
  | nil => simp [keys]
  | cons m ms ih =>
      obtain ⟨k, v⟩ := m
      by_cases h : k = key
      · simp [put, keys, h]
      · simp only [keys] at ih
        by_cases hm : key ∈ ms.map (·.1) <;> simp [put, keys, h, Ne.symm h, ih, hm]

end Members

namespace Json

/-- The member of an object under a key. -/
def get? : Json → String → Option Json
  | object ms, key => Members.get? ms key
  | _, _ => none

/-- The text of a text value. -/
def text? : Json → Option String
  | text s => some s
  | _ => none

/-- The number of an integer value. -/
def int? : Json → Option Int
  | int n => some n
  | _ => none

/-- The truth value of a truth value. -/
def bool? : Json → Option Bool
  | bool b => some b
  | _ => none

/-- The items of an array. -/
def list? : Json → Option (List Json)
  | list vs => some vs
  | _ => none

/-- The members of an object. -/
def object? : Json → Option (Members Json)
  | object ms => some ms
  | _ => none

/-- Does a value count as true?  Nothing, zero and what is empty do not. -/
def isTruthy : Json → Bool
  | .null => false
  | .bool b => b
  | .int n => n ≠ 0
  | .real x => x.integer? ≠ some 0
  | .text s => !s.isEmpty
  | .list vs => !vs.isEmpty
  | .object ms => !ms.isEmpty
  | _ => true

end Json

/-- The members that hold texts. -/
def Members.texts (ms : Members Json) : Members String :=
  ms.filterMap fun m => m.2.text?.map fun s => (m.1, s)

end ScopeIndex
