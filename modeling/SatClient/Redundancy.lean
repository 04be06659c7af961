/-!
# Redundancy of clauses

* `Redundancy`: whether a solver may forget a clause, with `Redundancy.native`, `Redundancy.name`
-/

namespace SatClient

/-- Whether, and why, a solver may forget a clause. -/
inductive Redundancy where
  /-- The clause is part of the formula. -/
  | none
  | forgettable
  /-- Satisfiability stays the same without the clause. -/
  | equisatisfiable
  /-- The models stay the same without the clause. -/
  | equivalent
  deriving DecidableEq, Repr

namespace Redundancy

instance : Inhabited Redundancy := ⟨none⟩

/-- The integer by which the solver interface knows the tag. -/
def native : Redundancy → Int32
  | none => 0
  | forgettable => 1
  | equisatisfiable => 2
  | equivalent => 3

def name : Redundancy → String
  | none => "None"
  | forgettable => "Forgettable"
  | equisatisfiable => "Equisatisfiable"
  | equivalent => "Equivalent"

end Redundancy
end SatClient
