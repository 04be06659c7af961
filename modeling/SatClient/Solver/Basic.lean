import SatClient.World

/-!
# Solvers

A solver of a client: a native solver with a handle, a bridge, a scratch buffer, and the options
once they are known. It is made by one init and ends with one release.

* `Symbols`: where the functions of the interface are found
* `SolverOption`, `Discovered`: options as a client sees them
* `Solver`, `Focus`: a solver, and the solver with the world
* `Solver.create`, `Solver.close`
* `Solver.invoke`, `Solver.update`: what the operations on a solver are made of
-/

namespace SatClient

/-- Where the functions of the interface are found. -/
abbrev Symbols := EntryPoint → Address

/-- An option as a client sees it. It remembers which solver described it, and at which position. -/
structure SolverOption where
  name : String
  min : Int64
  max : Int64
  /-- The last state of a solver in which the option may be set. -/
  maxState : Int32
  tunable : Bool
  indexed : Bool
  owner : Nat
  position : Nat
  deriving DecidableEq, Repr

/-- The options of a solver, and the places of their descriptions in the same order. -/
structure Discovered where
  options : List SolverOption
  descriptors : List Descriptor
  deriving DecidableEq, Repr

/-- A solver of a client. -/
structure Solver where
  /-- No two solvers of a client have the same identity. -/
  identity : Nat
  handle : Handle
  symbols : Symbols
  buffer : List Int32 := []
  /-- What the one look for the options has found, once it has been made. -/
  options : Option (Except Failure Discovered) := none

/-- A solver and the world around it. -/
structure Focus (σ : Type) where
  solver : Solver
  world : World σ

namespace Solver

variable {σ : Type} {α : Type}

/-- An operation on the world around a solver. -/
def around (x : Act (World σ) α) : Act (Focus σ) α :=
  .within Focus.world (fun w f => { f with world := w }) x

def current : Act (Focus σ) Solver := fun f => (.ok f.solver, f)

def update (g : Solver → Solver) : Act (Focus σ) Unit :=
  .change fun f => { f with solver := g f.solver }

def tell (n : Notice) : Act (Focus σ) Unit := around (World.tell n)

def record (events : List Event) : Act (Focus σ) Unit := around (World.record events)

/-- Calls a function of the native solver, at the address which the solver has for it. -/
def invoke (N : Native σ) (c : Call) : Act (Focus σ) Reply := do
  let s ← current
  around (World.invoke N (some s.identity) (s.symbols c.entry) c)

def check (e : EntryPoint) (code : Code) : Act (Focus σ) Unit := around (World.check e code)

def ownBridge : Act (Focus σ) Bridge := fun f =>
  (.ok (f.world.client.bridge f.solver.identity), f)

def changeBridge (g : Nat → Bridge → Bridge × List Event) : Act (Focus σ) Unit := do
  let s ← current
  let b ← ownBridge
  let (after, events) := g s.identity b
  around (.change fun w => { w with client := w.client.setBridge s.identity after })
  record events

/-- Makes a solver. It is there only if the init succeeds; the handle is the one which the init
leaves, whichever that is. -/
def create (N : Native σ) (symbols : Symbols) : Act (World σ) Solver := do
  let reply ← World.invoke N none (symbols .init) .init
  World.check .init reply.code
  World.tell .created
  let w ← .state
  let identity := w.nextIdentity
  .change fun w =>
    { w with nextIdentity := identity + 1, client := w.client.setBridge identity {} }
  World.record [.opened identity reply.handle]
  pure { identity, handle := reply.handle, symbols }

/-- The end of a solver: its bridge goes, and with it the closures and what the cell holds. -/
def close (f : Focus σ) : World σ :=
  let owner := f.solver.identity
  let b := f.world.client.bridge owner
  let client := { f.world.client with bridges := f.world.client.bridges.erase owner }
  let events := b.dropEvents owner .terminate ++ b.dropEvents owner .exporter ++
    b.discardEvents owner ++ [.closed owner]
  { f.world with client := client.note events }

def releaseNative (N : Native σ) : Act (Focus σ) Unit := do
  let s ← current
  let reply ← invoke N (.release s.handle)
  tell (.released reply.code)
  check .release reply.code

/-- Releases a solver and says whether that succeeded. The solver ends in any case. -/
def release (N : Native σ) (f : Focus σ) : Except Stop Unit × World σ :=
  let (outcome, f) := releaseNative N f
  (outcome, close f)

/-- Releases the native solver of a solver that goes out of use. -/
def dropNative (N : Native σ) : Act (Focus σ) Unit := do
  let s ← current
  let reply ← invoke N (.release s.handle)
  tell (.dropped reply.code)

/-- Drops a solver: it ends, and only the log tells whether the release succeeded. -/
def drop (N : Native σ) (f : Focus σ) : World σ :=
  close (dropNative N f).2

end Solver
end SatClient
