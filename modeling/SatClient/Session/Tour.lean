import SatClient.Constant
import SatClient.Session.Run
import SatClient.Session.Trace
import SatClient.Shelf

/-!
# A tour of a loaded library

* `Tour.steps`: each operation of the library once
* `Tour.take`: loads a library by any linker and takes the tour, with any native solver
* `Tour.run`: a tour of the constant solver
-/

namespace SatClient.Tour

/-- Integers as they are given by a client in a vector. -/
def vector (lits : List Int32) : Lits := .integers (.sequence ⟨.vector, .listed lits⟩)

def idle : Closure := { tag := "", script := [] }

/-- The steps of the tour, with a clause to add for each list of literals. -/
def steps (clauses : List (List Int32)) : List Step :=
  [.origin, .signature, .create 1] ++
  clauses.map (fun clause => .add 1 (vector clause) .none) ++
  [.solve 1, .assume 1 (vector [-1]), .val 1 (.integer 5), .failed 1 (.integer (-5)),
    .hasOption 1 "any", .setTerminate 1 idle, .setExport 1 ⟨idle, .integer⟩ 1, .release 1]

/-- Loads the library at a path and takes the tour, unless it cannot be loaded. The trace is that of all. -/
def take {ρ σ : Type} (L : Linker ρ) (N : Native σ) (native : σ) (path : String)
    (clauses : List (List Int32)) : Except Failure (List Report) × List Event :=
  match Session.loadFrom L path native with
  | (.loaded (.error e), s) => (.error e, s.trace)
  | (_, s) =>
    let (reports, _) := runAll (fun t => Session.report (·.step N t)) (steps clauses) s
    (.ok reports, s.trace ++ reports.flatMap Report.trace)

/-- A tour of the constant solver, in a library from the shelf. -/
def run (path : String) (clauses : List (List Int32)) :
    Except Failure (List Report) × List Event :=
  take Shelf.linker Constant.native 0 path clauses

end SatClient.Tour
