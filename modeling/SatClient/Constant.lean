import SatClient.World

/-!
# The constant solver

A solver whose answers depend on nothing but the call.

* `Constant.native`: the solver
-/

namespace SatClient.Constant

def respond (call : Call) (inits : Nat) : Dialogue (Reply × Nat) :=
  match call with
  | .signature => .done ({ text := some "constant solver 1.0".toUTF8.toList }, inits)
  | .init => .done ({ handle := inits + 1 }, inits + 1)
  | .add _ _ length _ => .done ({ code := ⟨if 3 < length then 6 else 0⟩ }, inits)
  | .solve _ _ length => .done ({ result := some (if length = 0 then 10 else 20) }, inits)
  | .val _ lit => .done ({ result := some lit }, inits)
  | .failed _ lit => .done ({ result := some (if lit < 0 then 1 else 0) }, inits)
  | .options _ => .done ({ code := ⟨2⟩ }, inits)
  | .setOption .. => .done ({ code := ⟨4⟩ }, inits)
  | .release _ | .setTerminate .. | .setExport .. => .done ({}, inits)

/-- The constant solver; its state counts the handles. -/
def native : Native Nat := ⟨fun _ => respond⟩

end SatClient.Constant
