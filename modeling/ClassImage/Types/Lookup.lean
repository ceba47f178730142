/-!
Finite maps that are only added to. What a map answers for a key is the value
that was entered under it last; in which order it keeps its entries is of no
concern outside this file.
-/

namespace ClassImage

structure Lookup (κ ι : Type) where
  entries : List (κ × ι) := []

namespace Lookup

variable {κ ι : Type} [DecidableEq κ]

def find? (lookup : Lookup κ ι) (key : κ) : Option ι := lookup.entries.lookup key

def insert (lookup : Lookup κ ι) (key : κ) (value : ι) : Lookup κ ι :=
  ⟨(key, value) :: lookup.entries⟩

@[simp] theorem find?_empty (key : κ) : ({} : Lookup κ ι).find? key = none := rfl

theorem find?_insert (lookup : Lookup κ ι) (key other : κ) (value : ι) :
    (lookup.insert key value).find? other = if other = key then some value else lookup.find? other := by
  by_cases same : other = key
  · simp [find?, insert, same]
  · simp [find?, insert, List.lookup_cons, beq_false_of_ne same, same]

end Lookup

end ClassImage
