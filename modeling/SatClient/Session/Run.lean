import SatClient.Session.Basic
import SatClient.Session.Step

/-!
# The course of a session

* `Session.load`, `Session.loadFrom`, `Session.start`: the beginning of a session
* `Session.step`: a step of the client
* `Session.finish`: everything is dropped
* `Session.report`, `runAll`: a step with its report, and steps one after the other
-/

namespace SatClient

namespace Session

variable {σ : Type}

/-! ## Options -/

def option? (key : String) (s : Session σ) : Option SolverOption := s.options.lookup key

/-- Gets an option of a solver, and keeps it if a key is given. -/
def getOption (N : Native σ) (key : Int) (name : String) (keep : Option String)
    (s : Session σ) : Answer × Session σ :=
  match s.runOn key (Solver.getOption N name) (.ofResult .option) with
  | (.done (.option o), s) =>
    (.done (.option o),
      { s with options := keep.toList.map (·, o) ++ s.options })
  | other => other

/-- Sets an option that is kept. -/
def setOption (N : Native σ) (key : Int) (option : String) (value index : Int64)
    (s : Session σ) : Answer × Session σ :=
  s.onSolver key fun _ =>
    match s.option? option with
    | none => (.refused .noOption, s)
    | some o => s.runOn key (Solver.setOption N o value index) .ofUnit

def optionsEqual (a b : String) (s : Session σ) : Answer :=
  match s.option? a, s.option? b with
  | some a, some b => .done (.flag (a == b))
  | _, _ => .refused .noOption

/-- Applies settings to a solver, provided that every text is a setting. -/
def configure (N : Native σ) (key : Int) (texts : List String) (s : Session σ) :
    Answer × Session σ :=
  s.onSolver key fun _ =>
    match texts.mapM Setting.read with
    | .error m => (.malformed m, s)
    | .ok settings => s.runOn key (Solver.configure N settings) (.configured settings)

/-! ## Steps -/

def step (N : Native σ) (action : Step) (s : Session σ) : Answer × Session σ :=
  match action with
  | .create key => s.create N key
  | .signature => s.onInterface fun l =>
    let (result, world) := l.signature N s.world
    (.ofResult .text result, { s with world })
  | .origin => s.onInterface fun l => (.done (.origin l.origin l.shown), s)
  | .cloneInterface => s.onInterface fun l =>
    (.done (.count (s.interfaces + 1)),
      { s with library := some l.share, interfaces := s.interfaces + 1 })
  | .dropInterface =>
    let s := s.dropInterface
    (.done (.count s.interfaces), s)
  | .countKeepers => (.done (.keepers s.keepers), s)
  | .add key lits redundancy => s.runOn key (Solver.addLits N lits redundancy) .ofUnit
  | .assume key lits => s.runOn key (Solver.solveLits N lits) (.ofResult .state)
  | .solve key => s.runOn key (Solver.solve N) (.ofResult .state)
  | .val key lit => s.runOn key (Solver.valueOfLit N lit) (.ofResult .state)
  | .failed key lit => s.runOn key (Solver.litFailed N lit) (.ofResult .flag)
  | .setTerminate key closure => s.runOn key (Solver.setTerminate N closure) .ofUnit
  | .setExport key listener maxLength =>
    s.runOn key (Solver.setExport N listener maxLength) .ofUnit
  | .clearTerminate key => s.runOn key (Solver.clearTerminate N) .ofUnit
  | .clearExport key => s.runOn key (Solver.clearExport N) .ofUnit
  | .getOptions key => s.runOn key (Solver.getOptions N) (.ofResult .options)
  | .getOption key name keep => s.getOption N key name keep
  | .hasOption key name => s.runOn key (Solver.hasOption N name) (.ofResult .flag)
  | .setOption key option value index => s.setOption N key option value index
  | .setByName key name value index =>
    s.runOn key (Solver.setByName N name value index) .ofUnit
  | .optionsEqual a b => (s.optionsEqual a b, s)
  | .configure key texts => s.configure N key texts
  | .release key => s.releaseSolver N key
  | .drop key => s.onSolver key fun _ => (.done .nothing, s.dropSolver N key)

/-- Drops all solvers in order of their keys, and then all interfaces. -/
def finish (N : Native σ) (s : Session σ) : Session σ :=
  let keys := s.solvers.keys.mergeSort fun a b => decide (a ≤ b)
  let s := keys.foldl (fun s key => s.dropSolver N key) s
  Nat.repeat dropInterface s.interfaces s

/-! ## Beginning -/

/-- How a client comes by an interface. -/
inductive Opening where
  /-- The functions are known beforehand. -/
  | known
  /-- The functions are found by name, by one who answers each name in one way; something may be
  given to be kept alive. -/
  | resolved (path : String) (keeps : Bool) (answer : String → Except String Address)

/-- Functions at addresses that are known beforehand. -/
def knownSymbols : Symbols := fun e => EntryPoint.all.idxOf e + 1

/-- The world before anything has happened in it. -/
def freshWorld (native : σ) : World σ := { native }

/-- Whoever gives one answer to each name. -/
def answering (answer : String → Except String Address) : Resolver Unit where
  ask symbol r := (answer symbol, r)

/-- A session with an interface to the functions that a resolver finds, unless it does not find one; the
answer to that, and the resolver afterwards. -/
def load {ρ : Type} (R : Resolver ρ) (path : String) (keeps : Bool) (r : ρ) (native : σ) :
    (Answer × Session σ) × ρ :=
  let (outcome, events, r) := Symbols.resolve R path r
  let world := (freshWorld native).note events
  match outcome with
  | .error e => ((.loaded (.error e), { world, library := none, interfaces := 0, keeps }), r)
  | .ok symbols =>
    ((.loaded (.ok ()),
      { world, library := some ⟨symbols, some path, keeps, 1⟩, interfaces := 1, keeps }), r)

/-- A session with an interface to the library at a path, which is kept open, unless it cannot be loaded;
and the answer to that. -/
def loadFrom {ρ : Type} (L : Linker ρ) (path : String) (native : σ) : Answer × Session σ :=
  let (outcome, events) := Library.load L path
  let world := (freshWorld native).note events
  match outcome with
  | .error e => (.loaded (.error e), { world, library := none, interfaces := 0, keeps := true })
  | .ok l => (.loaded (.ok ()), { world, library := some l, interfaces := 1, keeps := true })

/-- A session with an interface, unless a function is not found; and the answer to that. -/
def start (opening : Opening) (native : σ) : Answer × Session σ :=
  match opening with
  | .known =>
    (.loaded (.ok ()),
      { world := freshWorld native, library := some ⟨knownSymbols, none, false, 1⟩, interfaces := 1 })
  | .resolved path keeps answer => (load (answering answer) path keeps () native).1

/-! ## Reports -/

/-- A session with an empty trace. -/
def forget (s : Session σ) : Session σ :=
  { s with world := { s.world with client := { s.world.client with trace := [] } } }

/-- What has happened since the trace was empty. -/
def trace (s : Session σ) : List Event := s.world.client.trace

/-- A step with the report of it. -/
def report (step : Session σ → Answer × Session σ) (s : Session σ) : Report × Session σ :=
  let (answer, s) := step s.forget
  (⟨answer, s.trace⟩, s)

end Session

/-- Steps one after the other, and the report of each. -/
def runAll {S τ : Type} (step : τ → S → Report × S) : List τ → S → List Report × S
  | [], s => ([], s)
  | t :: rest, s =>
    let (r, s) := step t s
    let (rs, s) := runAll step rest s
    (r :: rs, s)

end SatClient
