import SatClient.World

/-!
# Expected calls

A mock solver is told beforehand which calls it will get, and how to answer each.

* `Mock.Scene`: a call back which the mock makes during a solve
* `Mock.Expectation`, `Mock.Expected`: a call that is expected, and its answer
* `Mock.Fault`: what was not as expected, with `Mock.Fault.text`
-/

namespace SatClient.Mock

/-- A call back during a solve. -/
inductive Scene where
  /-- Polls, and expects an answer. -/
  | poll (expect : Bool)
  | offer (clause : List Int32)
  deriving DecidableEq, Repr

/-- A call that is expected, with what is written for the caller. -/
inductive Expectation where
  | add (clause : List Int32) (redundancy : Int32)
  | solve (assumptions : List Int32) (result : Int32) (during : List Scene)
  | val (lit result : Int32)
  | failed (lit result : Int32)
  | options
  | setOption (name : String) (value index : Int64)
  /-- The callback is set, or else cleared. -/
  | setTerminate (registers : Bool)
  | setExport (registers : Bool) (maxLength : Int32)
  deriving DecidableEq, Repr

def Expectation.entry : Expectation → EntryPoint
  | add .. => .add
  | solve .. => .solve
  | val .. => .val
  | failed .. => .failed
  | options => .options
  | setOption .. => .setOption
  | setTerminate .. => .setTerminate
  | setExport .. => .setExport

/-- A call that is expected, with the code it returns. -/
structure Expected where
  call : Expectation
  returns : Code := .ok
  deriving DecidableEq, Repr

/-- What was not as expected. -/
inductive Fault where
  /-- The instance is released, or was never made. -/
  | notLive
  | noInstance
  | releaseNotLive
  | releaseNoInstance
  /-- Calls are still expected when the instance is released. -/
  | unfinished
  | nullSolver (e : EntryPoint)
  | unexpected (e : EntryPoint)
  | noneExpected (e : EntryPoint)
  | otherExpected (e expected : EntryPoint)
  | nullBuffer (e : EntryPoint) (length : Int32)
  | negativeLength (e : EntryPoint) (length : Int32)
  | clause (actual expected : List Int32)
  | redundancy (actual : Int32)
  | assumptions (actual expected : List Int32)
  | stopped (stop : Bool)
  | noCallback (scene : Scene)
  | value (actual expected result : Int32) (returns : Code)
  | failed (actual expected result : Int32) (returns : Code)
  | optionName (actual expected : String)
  | optionValue (actual : Int64)
  | optionIndex (actual : Int64)
  | maxLength (actual : Int32)
  | cleared (e : EntryPoint)
  | notCleared (e : EntryPoint)
  deriving DecidableEq, Repr

/-- A fault of a function, in words. -/
def blame (e : EntryPoint) (text : String) : String := e.name ++ "(): " ++ text

def truthText (b : Bool) : String := if b then "true" else "false"

def Scene.shown : Scene → String
  | poll expect => "Terminate \x7b expect: " ++ truthText expect ++ " \x7d"
  | offer clause => "Export(" ++ listedInts clause ++ ")"

/-- An expected query of a literal as a record. -/
def queryShown (name : String) (lit result : Int32) (returns : Code) : String :=
  name ++ " \x7b literal: " ++ toString lit.toInt ++ ", result: " ++ toString result.toInt ++
    ", returns: ipasir2_errorcode(" ++ toString returns.value.toInt ++ ") \x7d"

def notLiveText : String := "function called for a released or uninitialised solver"

def noInstanceText : String := "function called for an unknown solver"

def Fault.text : Fault → String
  | notLive => notLiveText
  | noInstance => noInstanceText
  | releaseNotLive => blame .release notLiveText
  | releaseNoInstance => blame .release noInstanceText
  | unfinished => blame .release "called with outstanding expected calls"
  | nullSolver e => blame e "called with a null solver"
  | unexpected e => blame e "called unexpectedly"
  | noneExpected e => blame e "called, but no further calls expected"
  | otherExpected e expected => blame e ("called, but " ++ expected.name ++ " expected")
  | nullBuffer e length =>
    blame e ("called with a null buffer of length " ++ toString length.toInt)
  | negativeLength e length => blame e ("called with length " ++ toString length.toInt)
  | clause actual expected =>
    blame .add
      ("unexpected clause " ++ listedInts actual ++ ", expected " ++ listedInts expected)
  | redundancy actual =>
    blame .add ("unexpected redundancy ipasir2_redundancy(" ++ toString actual.toInt ++ ")")
  | assumptions actual expected =>
    blame .solve
      ("unexpected assumptions " ++ listedInts actual ++ ", expected " ++ listedInts expected)
  | stopped stop => blame .solve ("terminate callback returned " ++ truthText stop)
  | noCallback scene => blame .solve ("no callback registered for " ++ scene.shown)
  | value actual expected result returns =>
    blame .val ("unexpected literal " ++ toString actual.toInt ++ ", expected " ++
      queryShown "Val" expected result returns)
  | failed actual expected result returns =>
    blame .failed ("unexpected literal " ++ toString actual.toInt ++ ", expected " ++
      queryShown "Failed" expected result returns)
  | optionName actual expected =>
    blame .setOption ("unexpected option '" ++ actual ++ "', expected '" ++ expected ++ "'")
  | optionValue actual => blame .setOption ("unexpected value " ++ toString actual.toInt)
  | optionIndex actual => blame .setOption ("unexpected index " ++ toString actual.toInt)
  | maxLength actual => blame .setExport ("unexpected max length " ++ toString actual.toInt)
  | cleared e => blame e "expected a callback, but it was cleared"
  | notCleared e => blame e "expected the callback to be cleared"

end SatClient.Mock
