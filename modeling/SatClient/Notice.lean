import SatClient.Call
import SatClient.Redundancy
import SatClient.Setting
import SatClient.Text.Concealed
import SatClient.Text.Quoted

/-!
# Notices

What the library tells whoever keeps a log of it.

* `Notice`: the things told
* `Notice.level`, `Notice.topic`, `Notice.message`, `Notice.line`

Addresses and handles are not told; `Notice.place` stands for each of them, also in what a client
wrote. Why a file could not be opened is not told either.
-/

namespace SatClient

/-- Something told to a log. -/
inductive Notice where
  | loading (path : String)
  | notOpened (path : String)
  | resolved (symbol : String)
  | missing (symbol path : String)
  | loaded (path : String)
  | created
  | returned (entry : EntryPoint) (code : Code)
  | adding (lits : List Int32) (redundancy : Redundancy)
  | solving (lits : List Int32)
  | solved (result : Int32)
  | resuming
  | released (code : Code)
  | dropped (code : Code)
  | captured (slot : Slot)
  | replaced
  | setTerminate (code : Code)
  | clearedTerminate (code : Code)
  | setExport (maxLength : Int32) (code : Code)
  | clearedExport (code : Code)
  | discovered (count : Nat)
  | assigning (name : String) (value index : Int64)
  | applying (setting : Setting)
  deriving DecidableEq, Repr

/-- How much a notice matters, from little to much. -/
inductive Level where
  | trace
  | debug
  | info
  | warn
  deriving DecidableEq, Repr

def Level.name : Level → String
  | trace => "TRACE"
  | debug => "DEBUG"
  | info => "INFO"
  | warn => "WARN"

def Slot.name : Slot → String
  | terminate => "terminate"
  | exporter => "export"

def listedInts (ns : List Int32) : String := Text.listed (ns.map fun n => toString n.toInt)

namespace Notice

/-- How much the notice matters. A release on the way out matters more if it fails, since nobody
is told otherwise. -/
def level : Notice → Level
  | loaded _ => .info
  | notOpened _ | missing .. => .warn
  | dropped code => if code.isOk then .debug else .warn
  | resolved _ | returned .. | adding .. | solving _ | solved _ | assigning .. => .trace
  | _ => .debug

def topic : Notice → String
  | loading _ | notOpened _ | resolved _ | missing .. | loaded _ => "loader"
  | created | returned .. | adding .. | solving _ | solved _ | released _ | dropped _ => "solver"
  | resuming | captured _ | replaced | setTerminate _ | clearedTerminate _ | setExport ..
  | clearedExport _ => "callbacks"
  | discovered _ | assigning .. | applying _ => "options"

/-- What is told of an address or a handle. -/
def place : String := "0x*"

def message : Notice → String
  | loading path => "Loading " ++ Text.concealed path
  | notOpened path => Text.withoutReason ("Could not open " ++ Text.concealed path)
  | resolved symbol => "Resolved " ++ symbol ++ " at " ++ place
  | missing symbol path => "Symbol " ++ symbol ++ " not found in " ++ Text.concealed path
  | loaded path => "Loaded " ++ Text.concealed path
  | created => "Created solver " ++ place
  | returned entry code => entry.name ++ " returned " ++ code.text
  | adding lits redundancy =>
    EntryPoint.add.name ++ " " ++ listedInts lits ++ " (" ++ redundancy.name ++ ")"
  | solving lits => EntryPoint.solve.name ++ " assuming " ++ listedInts lits
  | solved result => EntryPoint.solve.name ++ " result: " ++ toString result.toInt
  | resuming => "Resuming a panic from a callback"
  | released code => "Released solver " ++ place ++ ": " ++ code.text
  | dropped code =>
    if code.isOk then "Released solver " ++ place
    else "Release of solver " ++ place ++ " failed with " ++ code.text
  | captured slot => "Captured a panic from the " ++ slot.name ++ " callback"
  | replaced => "Replaced terminate callback"
  | setTerminate code => "Set terminate callback: " ++ code.text
  | clearedTerminate code => "Cleared terminate callback: " ++ code.text
  | setExport maxLength code =>
    "Set export callback (max length " ++ toString maxLength.toInt ++ "): " ++ code.text
  | clearedExport code => "Cleared export callback: " ++ code.text
  | discovered count => "Discovered " ++ toString count ++ " options"
  | assigning name value index =>
    EntryPoint.setOption.name ++ " " ++ Text.concealed name ++ " = " ++ toString value.toInt ++
      " (index " ++ toString index.toInt ++ ")"
  | applying setting => "Applying " ++ Text.concealed setting.text

def line (n : Notice) : String := n.level.name ++ " " ++ n.topic ++ ": " ++ n.message

end Notice
end SatClient
