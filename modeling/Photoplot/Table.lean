/-! # Tables

A finite map as a list of entries, at most one for each key. -/

namespace Photoplot

structure Table (Key Value : Type) where
  entries : List (Key × Value)
  deriving DecidableEq, Repr

namespace Table

variable {Key Value : Type} [DecidableEq Key]

def empty : Table Key Value := ⟨[]⟩

def find? (table : Table Key Value) (key : Key) : Option Value := table.entries.lookup key

def contains (table : Table Key Value) (key : Key) : Bool := (table.find? key).isSome

def insert (table : Table Key Value) (key : Key) (value : Value) : Table Key Value :=
  ⟨(key, value) :: table.entries.filter fun entry => entry.1 ≠ key⟩

@[simp] theorem find?_empty (key : Key) : (empty : Table Key Value).find? key = none :=
    rfl

@[simp] theorem find?_insert_self (table : Table Key Value) (key : Key) (value : Value) :
    (table.insert key value).find? key = some value := by
  simp [find?, insert]

theorem find?_insert_of_ne (table : Table Key Value) {key other : Key} (value : Value)
    (different : other ≠ key) :
    (table.insert key value).find? other = table.find? other := by
  have skipped : ∀ entries : List (Key × Value),
      (entries.filter fun entry => entry.1 ≠ key).lookup other =
        entries.lookup other := by
    intro entries
    induction entries with
    | nil => rfl
    | cons entry rest induction =>
        obtain ⟨own, held⟩ := entry
        by_cases same : own = key
        · subst same
          have missed : (other == own) = false := by simp [different]
          simpa [List.lookup_cons, missed] using induction
        · simp only [ne_eq, decide_not] at induction
          simp [same, List.lookup_cons, induction]
  have missed : (other == key) = false := by simp [different]
  simp only [find?, insert, List.lookup_cons, missed, skipped]

end Table

end Photoplot
