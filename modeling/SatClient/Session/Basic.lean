import SatClient.Library
import SatClient.Session.Answer

/-!
# Sessions

A session is the use of the library by one client. The client keeps solvers and options under keys,
and holds any number of interfaces to one library.

* `Session`: the state of a client
* `Session.leave`: the library goes with the last who uses it
* `Session.create`, `Session.releaseSolver`, `Session.dropSolver`: beginning and end of a solver
* `Session.runOn`: an operation on a solver
* `Session.converse`: a native solver calls back of its own accord
-/

namespace SatClient

/-- The state of a client and of the world around it. -/
structure Session (σ : Type) where
  world : World σ
  /-- The library, while anyone uses it. -/
  library : Option Library
  /-- The number of interfaces held. -/
  interfaces : Nat
  /-- Whether the client gave something to be kept alive. -/
  keeps : Bool := false
  solvers : Keyed Int Solver := []
  /-- The handle of the solver last made under each key. -/
  handles : Keyed Int Handle := []
  /-- The options that are kept, newest first. -/
  options : List (String × SolverOption) := []

namespace Session

variable {σ : Type} {α : Type}

/-! ## Interfaces -/

/-- The library, if an interface to it is held. -/
def interface? (s : Session σ) : Option Library := if s.interfaces = 0 then none else s.library

def note (events : List Event) (s : Session σ) : Session σ :=
  { s with world := s.world.note events }

/-- One user less has the library; it goes with the last. -/
def leave (s : Session σ) : Session σ :=
  match s.library with
  | none => s
  | some l =>
    let s' := { s with library := l.leave }
    if l.leave.isSome then s' else s'.note [.unloaded]

/-- Drops an interface, if one is held. -/
def dropInterface (s : Session σ) : Session σ :=
  if s.interfaces = 0 then s else { s.leave with interfaces := s.interfaces - 1 }

/-- How many keep alive what the client gave for that; the library keeps it once. -/
def keepers (s : Session σ) : Option Nat :=
  if s.keeps then some (if s.library.isSome then 1 else 0) else none

/-- Does something with the interface held last. -/
def onInterface (s : Session σ) (f : Library → Answer × Session σ) : Answer × Session σ :=
  match s.interface? with
  | none => (.refused .noInterface, s)
  | some l => f l

/-! ## Solvers -/

/-- The handle of the solver last made under a key, the null handle if there was none. -/
def handleOf (key : Int) (s : Session σ) : Handle := (s.handles.get? key).getD 0

/-- Does something with the solver under a key. -/
def onSolver (key : Int) (s : Session σ) (f : Solver → Answer × Session σ) :
    Answer × Session σ :=
  match s.solvers.get? key with
  | none => (.refused .noSolver, s)
  | some solver => f solver

/-- Runs a dialogue which a native solver begins of its own accord. -/
def converse {β : Type} (d : Dialogue β) (s : Session σ) : β × Session σ :=
  let (b, client) := d.run s.world.client
  (b, { s with world := { s.world with client } })

/-- Runs an operation on the solver under a key. -/
def runOn (key : Int) (x : Act (Focus σ) α) (answer : Except Stop α → Answer)
    (s : Session σ) : Answer × Session σ :=
  s.onSolver key fun solver =>
    let (result, f) := x ⟨solver, s.world⟩
    (answer result, { s with world := f.world, solvers := s.solvers.set key f.solver })

/-- The session after the end of the solver under a key, which leaves the world given. The library
is left by the solver last of all. -/
def afterEnd (key : Int) (world : World σ) (s : Session σ) : Session σ :=
  leave { s with world, solvers := s.solvers.erase key }

def dropSolver (N : Native σ) (key : Int) (s : Session σ) : Session σ :=
  match s.solvers.get? key with
  | none => s
  | some solver => s.afterEnd key (Solver.drop N ⟨solver, s.world⟩)

def releaseSolver (N : Native σ) (key : Int) (s : Session σ) : Answer × Session σ :=
  s.onSolver key fun solver =>
    let (result, world) := Solver.release N ⟨solver, s.world⟩
    (.ofUnit result, s.afterEnd key world)

/-- Keeps a new solver under a key; a solver that was there is dropped. -/
def keepSolver (N : Native σ) (l : Library) (key : Int) (solver : Solver) (s : Session σ) :
    Session σ :=
  let s := { s with library := some l.share }.dropSolver N key
  { s with
    solvers := s.solvers.set key solver, handles := s.handles.set key solver.handle }

def create (N : Native σ) (key : Int) (s : Session σ) : Answer × Session σ :=
  s.onInterface fun l =>
    let (result, world) := Solver.create N l.symbols s.world
    let s := { s with world }
    match result with
    | .error e => (.stopped e, s)
    | .ok solver => (.done (.created (solver.handle == 0)), s.keepSolver N l key solver)

end Session
end SatClient
