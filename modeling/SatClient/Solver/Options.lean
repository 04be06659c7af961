import SatClient.Solver.Basic

/-!
# Options of a solver

The options are looked for once, by the first operation that needs them, and what is found stays, a
failure too. An option can be set only on the solver that described it.

* `Description.option`, `Discovered.ofTable`, `Discovered.position?`: the options of a table
* `Solver.discover`, `Solver.getOptions`, `Solver.getOption`, `Solver.hasOption`
* `Solver.setOption`, `Solver.setByName`, `Solver.configure`
-/

namespace SatClient

def Description.option (d : Description) (owner position : Nat) : SolverOption where
  name := Text.ofTerminated (d.name.getD [])
  min := d.min
  max := d.max
  maxState := d.maxState
  tunable := d.tunable != 0
  indexed := d.indexed != 0
  owner := owner
  position := position

def SolverOption.text (o : SolverOption) : String :=
  o.name ++ " [" ++ toString o.min.toInt ++ ", " ++ toString o.max.toInt ++ "]"

/-- The descriptions in a table: those before the first without a name. -/
def OptionTable.described (t : OptionTable) : List Description :=
  t.rows.takeWhile fun d => d.name.isSome

namespace Discovered

/-- The options of a table, none if there is no table. -/
def ofTable (owner : Nat) : Option OptionTable → Discovered
  | none => ⟨[], []⟩
  | some t =>
    let rows := t.described
    ⟨rows.mapIdx fun i d => d.option owner i, rows.mapIdx fun i _ => ⟨t.address, i⟩⟩

def position? (d : Discovered) (name : String) : Option Nat :=
  d.options.findIdx? fun o => o.name == name

/-- The first option with a name. -/
def find? (d : Discovered) (name : String) : Option SolverOption :=
  d.options.find? fun o => o.name == name

end Discovered

namespace Solver

variable {σ : Type}

def keepOptions (found : Except Failure Discovered) : Act (Focus σ) Unit :=
  update fun s => { s with options := some found }

/-- Looks for the options of the native solver. -/
def lookForOptions (N : Native σ) : Act (Focus σ) Discovered := do
  let s ← current
  let reply ← invoke N (.options s.handle)
  if reply.code.isOk then
    let found := Discovered.ofTable s.identity reply.table
    tell (.discovered found.options.length)
    keepOptions (.ok found)
    pure found
  else
    keepOptions (.error (.callFailed EntryPoint.options.name reply.code))
    check .options reply.code
    pure ⟨[], []⟩

/-- The options of the solver, which are looked for unless that has been done before. -/
def discover (N : Native σ) : Act (Focus σ) Discovered := do
  let s ← current
  match s.options with
  | some found => .orFail found
  | none => lookForOptions N

def getOptions (N : Native σ) : Act (Focus σ) (List SolverOption) := do
  let found ← discover N
  pure found.options

def getOption (N : Native σ) (name : String) : Act (Focus σ) SolverOption := do
  let found ← discover N
  match found.find? name with
  | some o => pure o
  | none => .fail (.unknownOption name)

def hasOption (N : Native σ) (name : String) : Act (Focus σ) Bool := do
  let found ← discover N
  pure (found.position? name).isSome

def setDescribed (N : Native σ) (descriptor : Descriptor) (name : String)
    (value index : Int64) : Act (Focus σ) Unit := do
  tell (.assigning name value index)
  let s ← current
  let reply ← invoke N (.setOption s.handle (some descriptor) value index)
  check .setOption reply.code

/-- Sets an option, which must be one of this solver. -/
def setOption (N : Native σ) (option : SolverOption) (value index : Int64) :
    Act (Focus σ) Unit := do
  let s ← current
  let found ← discover N
  match if option.owner = s.identity then found.descriptors[option.position]? else none with
  | some descriptor => setDescribed N descriptor option.name value index
  | none => .fail (.unknownOption option.name)

def setByName (N : Native σ) (name : String) (value index : Int64) : Act (Focus σ) Unit := do
  let found ← discover N
  match (found.position? name).bind fun i => found.descriptors[i]? with
  | some descriptor => setDescribed N descriptor name value index
  | none => .fail (.unknownOption name)

/-- Applies settings in order, up to the first that fails. -/
def configure (N : Native σ) : List Setting → Act (Focus σ) Unit
  | [] => pure ()
  | s :: rest => do
    tell (.applying s)
    setByName N s.name s.value s.index
    configure N rest

end Solver
end SatClient
