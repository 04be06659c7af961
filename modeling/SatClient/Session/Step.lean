import SatClient.Solver.Callbacks
import SatClient.Solver.Options
import SatClient.Solver.Solve

/-!
# Steps of a client

* `Lit`, `Lits`: a literal, and literals, in either form
* `Step`: what a client can do
-/

namespace SatClient

/-- A literal in either form. -/
inductive Lit where
  | integer (n : Int32)
  | signed (l : SignedVar)
  deriving DecidableEq, Repr

/-- Literals in either form. -/
inductive Lits where
  | integers (given : Given Int32)
  | signed (given : Given SignedVar)
  deriving Repr

/-- What a client can do. A solver is named by its key, an integer. -/
inductive Step where
  | create (key : Int)
  | signature
  | origin
  | cloneInterface
  | dropInterface
  | countKeepers
  | add (key : Int) (lits : Lits) (redundancy : Redundancy)
  | assume (key : Int) (lits : Lits)
  | solve (key : Int)
  | val (key : Int) (lit : Lit)
  | failed (key : Int) (lit : Lit)
  | setTerminate (key : Int) (closure : Closure)
  | setExport (key : Int) (listener : Listener) (maxLength : Int32)
  | clearTerminate (key : Int)
  | clearExport (key : Int)
  | getOptions (key : Int)
  /-- Gets an option, and keeps it if it is given a key. -/
  | getOption (key : Int) (name : String) (keep : Option String)
  | hasOption (key : Int) (name : String)
  | setOption (key : Int) (option : String) (value index : Int64)
  | setByName (key : Int) (name : String) (value index : Int64)
  | optionsEqual (a b : String)
  | configure (key : Int) (texts : List String)
  | release (key : Int)
  | drop (key : Int)
  deriving Repr

/-! ## Literals in either form -/

namespace Solver

variable {σ : Type}

/-- Adds a clause given in either form. -/
def addLits (N : Native σ) (lits : Lits) (redundancy : Redundancy) : Act (Focus σ) Unit :=
  match lits with
  | .integers given => addClause N given redundancy
  | .signed given => addClause N given redundancy

def solveLits (N : Native σ) : Lits → Act (Focus σ) TriState
  | .integers given => solveUnder N given
  | .signed given => solveUnder N given

def valueOfLit (N : Native σ) : Lit → Act (Focus σ) TriState
  | .integer n => litValue N n
  | .signed l => litValue N l

def litFailed (N : Native σ) : Lit → Act (Focus σ) Bool
  | .integer n => assumptionFailed N n
  | .signed l => assumptionFailed N l

end Solver
end SatClient
