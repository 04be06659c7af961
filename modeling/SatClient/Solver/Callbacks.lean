import SatClient.Solver.Basic

/-!
# Registration of closures

A closure that is to be called back is put on the bridge, and the bridge is registered with the
native solver. If that fails the slot is left empty, since nobody knows which registration the
native solver has kept.

* `Solver.setTerminate`, `Solver.clearTerminate`
* `Solver.setExport`, `Solver.clearExport`
-/

namespace SatClient.Solver

variable {σ : Type}

/-- Puts a closure into the slot for termination if its registration succeeded, and drops it
otherwise. -/
def settleTerminate (closure : Closure) (code : Code) : Act (Focus σ) Unit := do
  changeBridge fun owner b => b.setTerminate owner (if code.isOk then some closure else none)
  let s ← current
  if code.isOk then pure () else record [.dropped s.identity .terminate closure.tag]

/-- Puts a closure into the slot for clauses if its registration succeeded, and drops it
otherwise. -/
def settleExporter (listener : Listener) (code : Code) : Act (Focus σ) Unit := do
  changeBridge fun owner b => b.setExporter owner (if code.isOk then some listener else none)
  let s ← current
  if code.isOk then pure () else record [.dropped s.identity .exporter listener.closure.tag]

/-- Sets the closure that is asked whether to stop. The native solver already polls the bridge if
there is such a closure, and is then not called. -/
def setTerminate (N : Native σ) (closure : Closure) : Act (Focus σ) Unit := do
  let s ← current
  record [.taken s.identity .terminate closure.tag]
  let b ← ownBridge
  if b.terminate.isSome then
    tell .replaced
    changeBridge fun owner b => b.setTerminate owner (some closure)
  else
    let reply ← invoke N (.setTerminate s.handle (some s.identity) (some .trampoline))
    tell (.setTerminate reply.code)
    settleTerminate closure reply.code
    check .setTerminate reply.code

/-- Clears the closure that is asked whether to stop. -/
def clearTerminate (N : Native σ) : Act (Focus σ) Unit := do
  let s ← current
  let reply ← invoke N (.setTerminate s.handle none none)
  tell (.clearedTerminate reply.code)
  changeBridge fun owner b => b.setTerminate owner none
  check .setTerminate reply.code

/-- Sets the closure that is handed clauses of at most a length. The native solver keeps the length
and is called each time. -/
def setExport (N : Native σ) (listener : Listener) (maxLength : Int32) :
    Act (Focus σ) Unit := do
  let s ← current
  record [.taken s.identity .exporter listener.closure.tag]
  let reply ← invoke N
    (.setExport s.handle (some s.identity) maxLength (some .trampoline))
  tell (.setExport maxLength reply.code)
  settleExporter listener reply.code
  check .setExport reply.code

/-- Clears the closure that is handed clauses. -/
def clearExport (N : Native σ) : Act (Focus σ) Unit := do
  let s ← current
  let reply ← invoke N (.setExport s.handle none 0 none)
  tell (.clearedExport reply.code)
  changeBridge fun owner b => b.setExporter owner none
  check .setExport reply.code

end SatClient.Solver
