/-!
# The functions of the solver interface

* `EntryPoint`: the eleven functions by which a solver is used
* `EntryPoint.name`, `EntryPoint.all`: their names, and the order in which they are looked for
-/

namespace SatClient

/-- A function of the solver interface. -/
inductive EntryPoint where
  | init
  | release
  | add
  | solve
  | val
  | failed
  | options
  | setOption
  | setTerminate
  | setExport
  | signature
  deriving DecidableEq, Repr

namespace EntryPoint

def name : EntryPoint → String
  | init => "ipasir2_init"
  | release => "ipasir2_release"
  | add => "ipasir2_add"
  | solve => "ipasir2_solve"
  | val => "ipasir2_val"
  | failed => "ipasir2_failed"
  | options => "ipasir2_options"
  | setOption => "ipasir2_set_option"
  | setTerminate => "ipasir2_set_terminate"
  | setExport => "ipasir2_set_export"
  | signature => "ipasir2_signature"

/-- Every function, in the order in which they are looked for in a library. -/
def all : List EntryPoint :=
  [init, release, add, solve, val, failed, options, setOption, setTerminate, setExport, signature]

theorem mem_all (e : EntryPoint) : e ∈ all := by cases e <;> decide

theorem nodup_all : all.Nodup := by decide

end EntryPoint
end SatClient
