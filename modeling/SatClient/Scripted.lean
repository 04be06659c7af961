import SatClient.World

/-!
# The scripted solver

A solver without a mind of its own: what it returns, writes and calls back is written down
beforehand. It keeps the callbacks which a client registers, for each handle.

* `Scripted.Request`, `Scripted.Response`: what it is to do
* `Scripted`, `Scripted.native`
* `Scripted.perform`: calling back
-/

namespace SatClient

namespace Scripted

/-- A call back to the client. -/
inductive Request where
  | poll
  /-- Hands out integers, after which a zero stands in memory, or a null pointer. -/
  | offer (integers : Option (List Int32))
  deriving DecidableEq, Repr

/-- What a call returns, writes and does. -/
structure Response where
  code : Code := .ok
  /-- The signature that is given; without it a null pointer is. -/
  text : Option Text.Bytes := none
  /-- Whether an init leaves no handle. -/
  leavesNull : Bool := false
  during : List Request := []
  result : Option Int32 := none
  rows : Option (List Description) := none
  /-- Whether a registration is kept; if nothing is said it is kept on success. -/
  stores : Option Bool := none
  deriving Repr

end Scripted

/-- The scripted solver. Handles and tables are counted as they are given out. -/
structure Scripted where
  handles : Nat := 0
  tables : Nat := 0
  terminate : Keyed Nat Hook := []
  exporter : Keyed Nat Hook := []
  /-- The responses to the next calls of each function; to any further one there is nothing to
  say. -/
  script : EntryPoint → List Scripted.Response := fun _ => []

namespace Scripted

/-- The response to the next call of a function, which is then used up. -/
def next (e : EntryPoint) (s : Scripted) : Response × Scripted :=
  match s.script e with
  | [] => ({}, s)
  | r :: rest => (r, { s with script := fun x => if x = e then rest else s.script x })

def perform {α : Type} (s : Scripted) (h : Handle) : List Request → Dialogue α → Dialogue α
  | [], last => last
  | .poll :: rest, last =>
    match s.terminate.get? h with
    | none => .unregistered .terminate (perform s h rest last)
    | some hook => .poll hook fun _ => perform s h rest last
  | .offer integers :: rest, last =>
    match s.exporter.get? h with
    | none => .unregistered .exporter (perform s h rest last)
    | some hook => .offer hook (integers.map (· ++ [0])) (perform s h rest last)

/-- The registrations after one more; a null callback removes what was registered. -/
def register (r : Response) (h : Handle) (data : Option Nat) (callback : Option Callback)
    (hooks : Keyed Nat Hook) : Keyed Nat Hook :=
  if h ≠ 0 ∧ r.stores.getD r.code.isOk then
    match callback with
    | some callback => hooks.set h ⟨callback, data.getD 0⟩
    | none => hooks.erase h
  else hooks

def respond (call : Call) (s : Scripted) : Dialogue (Reply × Scripted) :=
  let (r, s) := s.next call.entry
  match call with
  | .signature => .done ({ code := r.code, text := r.text }, s)
  | .init =>
    if r.leavesNull then .done ({ code := r.code }, s)
    else
      let h := s.handles + 1
      .done ({ code := r.code, handle := h }, { s with handles := h })
  | .release h =>
    .done ({ code := r.code },
      { s with terminate := s.terminate.erase h, exporter := s.exporter.erase h })
  | .solve h _ _ => s.perform h r.during (.done ({ code := r.code, result := r.result }, s))
  | .val _ _ | .failed _ _ => .done ({ code := r.code, result := r.result }, s)
  | .options _ =>
    match r.rows with
    | none => .done ({ code := r.code }, s)
    | some rows =>
      .done ({ code := r.code, table := some ⟨s.tables, rows ++ [.last]⟩ },
        { s with tables := s.tables + 1 })
  | .add .. | .setOption .. => .done ({ code := r.code }, s)
  | .setTerminate h data callback =>
    .done ({ code := r.code }, { s with terminate := register r h data callback s.terminate })
  | .setExport h data _ callback =>
    .done ({ code := r.code }, { s with exporter := register r h data callback s.exporter })

/-- The scripted solver, which is the same at every address. -/
def native : Native Scripted := ⟨fun _ => respond⟩

end Scripted
end SatClient
