import SatClient.Solver.Basic
import SatClient.TriState

/-!
# Clauses, solves and models

* `Solver.prepare`, `Solver.nativeLength`: literals on their way to the native solver
* `Solver.addClause`, `Solver.solveUnder`, `Solver.solve`
* `Solver.resume`: a panic of a closure goes on when the solve has returned
* `Solver.litValue`, `Solver.assumptionFailed`
-/

namespace SatClient

/-- The greatest number of literals that a solver can be given at once. -/
def maxLength : Nat := 0x7FFFFFFF

/-- The result of a solve as a solver reports it. -/
def solveResult (result : Int32) : TriState :=
  if result = 10 then .holds else if result = 20 then .fails else .unknown

/-- The value of a literal, from the literal which a solver names: itself, its negation or zero. -/
def valueOf (asked given : Int32) : Except Failure TriState :=
  if given = 0 then .ok .unknown
  else if given = asked then .ok .holds
  else if given = -asked then .ok .fails
  else .error (.violation (.value given asked))

/-- Whether an assumption failed, from the integer which a solver gives for it. -/
def failedOf (asked given : Int32) : Except Failure Bool :=
  if given = 0 then .ok false
  else if given = 1 then .ok true
  else .error (.violation (.failed given asked))

namespace Solver

variable {σ : Type} {L : Type} [Literal L]

/-- The view of literals, through the buffer of the solver where one is needed. -/
def prepare (given : Given L) : Act (Focus σ) View := do
  let s ← current
  let (view, buffer) := given.view s.buffer
  update fun s => { s with buffer }
  .orPanic view

/-- The number of literals as the native solver takes it. -/
def nativeLength (v : View) : Act (Focus σ) Int32 :=
  let n := v.natives.length
  if n ≤ maxLength then pure (Int32.ofNat n) else .fail (.tooLong n)

def addClause (N : Native σ) (given : Given L) (redundancy : Redundancy) :
    Act (Focus σ) Unit := do
  let v ← prepare given
  let length ← nativeLength v
  tell (.adding v.natives.toList redundancy)
  let s ← current
  let reply ← invoke N
    (.add s.handle (some (Buffer.ofView v s.buffer)) length redundancy.native)
  check .add reply.code

/-- Lets a panic go on which a closure has left in the cell of the bridge. -/
def resume : Act (Focus σ) Unit := do
  let b ← ownBridge
  match b.failure with
  | none => pure ()
  | some payload =>
    changeBridge fun owner b => ({ b with failure := none }, [.resumed owner payload])
    tell .resuming
    .panic payload

/-- Solves under assumptions. A panic of a closure comes before a code of the native solver, and a
code before a result. -/
def solveUnder (N : Native σ) (given : Given L) : Act (Focus σ) TriState := do
  let v ← prepare given
  let length ← nativeLength v
  tell (.solving v.natives.toList)
  let s ← current
  let reply ← invoke N (.solve s.handle (some (Buffer.ofView v s.buffer)) length)
  resume
  check .solve reply.code
  let result := reply.result.getD 0
  tell (.solved result)
  pure (solveResult result)

def solve (N : Native σ) : Act (Focus σ) TriState :=
  solveUnder N (.sequence (⟨.slice, .listed []⟩ : Sequence Int32))

/-- The value of a literal in the model that was found last. -/
def litValue (N : Native σ) (l : L) : Act (Focus σ) TriState := do
  let asked ← .orPanic (Literal.toNative l)
  let s ← current
  let reply ← invoke N (.val s.handle asked)
  check .val reply.code
  .orFail (valueOf asked (reply.result.getD 0))

/-- Whether an assumption is among those which rule out a model. -/
def assumptionFailed (N : Native σ) (l : L) : Act (Focus σ) Bool := do
  let asked ← .orPanic (Literal.toNative l)
  let s ← current
  let reply ← invoke N (.failed s.handle asked)
  check .failed reply.code
  .orFail (failedOf asked (reply.result.getD 0))

end Solver
end SatClient
