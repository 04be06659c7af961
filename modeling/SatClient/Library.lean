import SatClient.Solver.Basic

/-!
# Libraries of solvers

A library offers the functions of the solver interface under their names. It is of use only if all
of them are found.

* `Resolver`: whoever finds the address of a name, asked one name at a time
* `Symbols.resolve`: asks for the names in order, up to the first that is not found
* `Library`: the functions, shared by the interfaces and solvers that use them
* `Library.signature`: the name and version of the solver
* `Linker`, `Library.load`: whoever opens what is at a path, and a library that is loaded from its path
-/

namespace SatClient

/-- Finds addresses of names. Each answer may depend on what was asked before; one who finds
nothing says why. -/
structure Resolver (ρ : Type) where
  ask : String → ρ → Except String Address × ρ

/-- An answer of a resolver which is of use: an address other than null. -/
def foundAddress (symbol : String) : Except String Address → Except Absence Address
  | .error detail => .error (.symbol symbol detail)
  | .ok 0 => .error (.null symbol)
  | .ok address => .ok address

namespace Symbols

variable {ρ : Type}

def set (symbols : Symbols) (e : EntryPoint) (address : Address) : Symbols :=
  fun x => if x = e then address else symbols x

/-- Asks for functions one after the other. The events tell what was asked and what was found. -/
def resolveAll (R : Resolver ρ) (path : String) :
    List EntryPoint → Symbols → ρ → Except Failure Symbols × List Event × ρ
  | [], symbols, r => (.ok symbols, [], r)
  | e :: rest, symbols, r =>
    let (answer, r) := R.ask e.name r
    match foundAddress e.name answer with
    | .error reason =>
      (.error (.notLoaded path reason),
        [.requested e.name, .notice (.missing e.name path)], r)
    | .ok address =>
      let (outcome, events, r) := resolveAll R path rest (symbols.set e address) r
      (outcome, .requested e.name :: .notice (.resolved e.name) :: events, r)

/-- The functions which a resolver finds, if it finds them all. -/
def resolve (R : Resolver ρ) (path : String) (r : ρ) :
    Except Failure Symbols × List Event × ρ :=
  resolveAll R path EntryPoint.all (fun _ => 0) r

end Symbols

/-- The functions of a solver, shared by all that use them. With the last user they go, and what
was to be kept alive for them. -/
structure Library where
  symbols : Symbols
  /-- Where the functions were found, if they were looked for. -/
  origin : Option String
  /-- Whether something is kept alive for the functions. -/
  keeps : Bool
  users : Nat

namespace Library

def share (l : Library) : Library := { l with users := l.users + 1 }

/-- A library with one user less; without users there is no library. -/
def leave (l : Library) : Option Library :=
  if l.users ≤ 1 then none else some { l with users := l.users - 1 }

def shown (l : Library) : String :=
  "Ipasir2 \x7b origin: " ++
    (match l.origin with
      | none => "None"
      | some path => "Some(" ++ Text.quoted path ++ ")") ++
    ", .. \x7d"

/-- The name and version of the solver. -/
def signature {σ : Type} (N : Native σ) (l : Library) : Act (World σ) String := do
  let reply ← World.invoke N none (l.symbols .signature) .signature
  World.check .signature reply.code
  match reply.text with
  | none => .fail (.violation .nullSignature)
  | some text => pure (Text.ofTerminated text)

end Library

/-- Opens what is at a path, to be asked for its functions by their names. One who cannot open it says
why. -/
structure Linker (ρ : Type) where
  openAt : String → Except String ρ
  resolver : Resolver ρ

/-- Loads the library at a path, which is kept open for its functions. The events tell what was asked and
found. -/
def Library.load {ρ : Type} (L : Linker ρ) (path : String) : Except Failure Library × List Event :=
  match L.openAt path with
  | .error detail =>
    (.error (.notLoaded path (.library detail)),
      [.notice (.loading path), .notice (.notOpened path)])
  | .ok r =>
    let (outcome, events, _) := Symbols.resolve L.resolver path r
    let told := .notice (.loading path) :: events
    match outcome with
    | .error e => (.error e, told)
    | .ok symbols => (.ok ⟨symbols, some path, true, 1⟩, told ++ [.notice (.loaded path)])

end SatClient
