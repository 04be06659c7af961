import SatClient.Mock.Expectation

/-!
# The mock solver

A solver that knows which calls to expect. Each instance has an identifier, given before the
instance is made, and a queue of expected calls. What is not as expected is kept as a fault.

* `Mock.Instance`, `Mock.Pending`, `Mock`: the state
* `Mock.Trouble`: why an operation of a test panics
* `Mock.expectInit`, `Mock.expectInitFailure`, `Mock.expectCall`
* `Mock.setSignature`, `Mock.setOptions`, `Mock.testOptions`
* `Mock.isOutstanding`, `Mock.verify`, `Mock.dropped`
-/

namespace SatClient

namespace Mock

/-- An instance of the solver, made or yet to be made. -/
structure Instance where
  initialised : Bool := false
  released : Bool := false
  expected : List Expected := []
  /-- The position of its options among the tables of the mock. -/
  table : Option Nat := none
  terminate : Option Hook := none
  exporter : Option Hook := none
  deriving DecidableEq, Repr

/-- An init that is expected: the instance to be made, if it is to make one, and the code. -/
structure Pending where
  instance? : Option Nat
  returns : Code
  deriving DecidableEq, Repr

end Mock

/-- The mock solver. The handle of an instance is its position among the handles, from one on. -/
structure Mock where
  instances : Keyed Nat Mock.Instance := []
  handles : List Nat := []
  pending : Option Mock.Pending := none
  signature : Option (Option Text.Bytes × Code) := none
  faults : List Mock.Fault := []
  tables : List (List Description) := []
  deriving Repr

namespace Mock

/-- Why an operation of a test panics. -/
inductive Trouble where
  | initPending
  | alreadyMade (id : Nat)
  /-- A zero byte in a text that may not have one: its position, and the bytes. -/
  | zeroByte (what : String) (position : Nat) (bytes : Text.Bytes)
  | noCallback (slot : Slot) (id : Nat)
  | faults (fs : List Fault)
  | outstanding
  | mockExists
  deriving DecidableEq, Repr

def Trouble.payload : Trouble → Payload
  | initPending => .fixed "an init call is already expected"
  | alreadyMade id => .composed ("instance " ++ toString id ++ " has already been created")
  | zeroByte what position bytes =>
    .composed ("a " ++ what ++ " without nul: NulError(" ++ toString position ++ ", " ++
      Text.listed (bytes.map fun b => toString b.toNat) ++ ")")
  | noCallback slot id =>
    .composed ("no " ++ slot.name ++ " callback is registered for instance " ++ toString id)
  | faults fs =>
    .composed ("mock failures: " ++ Text.listed (fs.map fun f => Text.quoted f.text))
  | outstanding => .fixed "outstanding expected calls"
  | mockExists => .fixed "a mock already exists on this thread"

/-- The instance with an identifier; one that nothing is known of is there to be made. -/
def instanceOf (m : Mock) (id : Nat) : Instance := (m.instances.get? id).getD {}

def change (id : Nat) (f : Instance → Instance) (m : Mock) : Mock :=
  { m with instances := m.instances.set id (f (m.instanceOf id)) }

def fault (f : Fault) (m : Mock) : Mock := { m with faults := m.faults ++ [f] }

/-! ## What a test tells the mock -/

/-- Expects an init that makes an instance. -/
def expectInit (id : Nat) (m : Mock) : Except Trouble Mock :=
  if m.pending.isSome then .error .initPending
  else if ((m.instances.get? id).map Instance.initialised).getD false then
    .error (.alreadyMade id)
  else .ok { m with pending := some ⟨some id, .ok⟩ }

/-- Expects an init that returns a code and makes nothing. It takes the place of any other. -/
def expectInitFailure (code : Code) (m : Mock) : Mock := { m with pending := some ⟨none, code⟩ }

/-- Expects a call to an instance, after those which are expected of it already. -/
def expectCall (id : Nat) (e : Expected) (m : Mock) : Mock :=
  m.change id fun i => { i with expected := i.expected ++ [e] }

/-- The bytes of a text, which may have no zero among them. -/
def bytesOf (what : String) (text : String) : Except Trouble Text.Bytes :=
  let bytes := text.toUTF8.toList
  match bytes.findIdx? (· == 0) with
  | some position => .error (.zeroByte what position bytes)
  | none => .ok bytes

/-- Says what the signature is, and the code that comes with it. -/
def setSignature (text : Option String) (code : Code) (m : Mock) : Except Trouble Mock :=
  match text with
  | none => .ok { m with signature := some (none, code) }
  | some text => do
    let bytes ← bytesOf "signature" text
    .ok { m with signature := some (some bytes, code) }

/-- An option that the mock describes. -/
structure Offer where
  name : String
  min : Int64
  max : Int64
  maxState : Int32
  tunable : Bool
  indexed : Bool
  deriving DecidableEq, Repr

/-- One for true. -/
def oneIf (b : Bool) : Int32 := if b then 1 else 0

def Offer.description (o : Offer) : Except Trouble Description := do
  let bytes ← bytesOf "name" o.name
  .ok ⟨some bytes, o.min, o.max, o.maxState, oneIf o.tunable, oneIf o.indexed⟩

/-- Two options for tests. -/
def testOptions : List Offer := [
  ⟨"test_option_1", -1000, 1000, 0, true, false⟩,
  ⟨"test_option_2", 0, 100, 4, false, true⟩]

/-- Adds a table of descriptions for an instance. -/
def addTable (id : Nat) (rows : List Description) (m : Mock) : Mock :=
  let m := { m with tables := m.tables ++ [rows ++ [Description.last]] }
  m.change id fun i => { i with table := some (m.tables.length - 1) }

/-- Says which options an instance describes. -/
def setOptions (id : Nat) (offers : List Offer) (m : Mock) : Except Trouble Mock := do
  let rows ← offers.mapM Offer.description
  .ok (m.addTable id rows)

/-! ## What a test asks of the mock -/

/-- Whether an expected call is still to come, or an instance is yet to be released. -/
def isOutstanding (m : Mock) : Bool :=
  m.pending.isSome ||
    m.instances.values.any fun i => !i.expected.isEmpty || (i.initialised && !i.released)

/-- Insists that there are no faults, and that nothing is outstanding. -/
def verify (m : Mock) : Except Trouble Unit :=
  if !m.faults.isEmpty then .error (.faults m.faults)
  else if m.isOutstanding then .error .outstanding
  else .ok ()

/-- Insists that there are no faults, when the mock is dropped. -/
def dropped (m : Mock) : Except Trouble Unit :=
  if !m.faults.isEmpty then .error (.faults m.faults) else .ok ()

/-- The callback that an instance has registered. -/
def hook (slot : Slot) (id : Nat) (m : Mock) : Except Trouble Hook :=
  let registered := match slot with
    | .terminate => (m.instanceOf id).terminate
    | .exporter => (m.instanceOf id).exporter
  match registered with
  | some hook => .ok hook
  | none => .error (.noCallback slot id)

end Mock
end SatClient
