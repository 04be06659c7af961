import SatClient.Text.Blank
import SatClient.Text.Integer

/-!
# Settings of options

A setting is written `name=value`, or `name[index]=value` for an option with an index. The values
`true` and `false` stand for one and zero. Blanks around each part do not count.

* `Setting`, `Setting.plain`, `Setting.text`
* `Setting.Malformed`: why a text is no setting, with `Malformed.message`
* `Setting.read`: reads a setting
-/

namespace SatClient

/-- A value for an option. -/
structure Setting where
  name : String
  value : Int64
  /-- Zero unless the option is indexed. -/
  index : Int64
  deriving DecidableEq, Repr

namespace Setting

def plain (name : String) (value : Int64) : Setting := ⟨name, value, 0⟩

/-- The setting as it is written; the index zero is left out. -/
def text (s : Setting) : String :=
  if s.index = 0 then s.name ++ "=" ++ toString s.value.toInt
  else s.name ++ "[" ++ toString s.index.toInt ++ "]=" ++ toString s.value.toInt

/-- Why a text is no setting. -/
inductive Malformed where
  | noValue
  | noName
  | value (text : String)
  | index (text : String)
  deriving DecidableEq, Repr

def Malformed.message : Malformed → String
  | noValue => "expected a setting of the form name=value"
  | noName => "the setting has no name"
  | value text => "'" ++ text ++ "' is not a value"
  | index text => "'" ++ text ++ "' is not an index"

/-- The texts before and after the first occurrence of a character. -/
def splitAtFirst (c : Char) : List Char → Option (List Char × List Char)
  | [] => none
  | x :: xs =>
    if x = c then some ([], xs)
    else (splitAtFirst c xs).map fun p => (x :: p.1, p.2)

/-- Reads a value: a word for one or zero, or an integer. -/
def value? (cs : List Char) : Option Int64 :=
  if cs = "true".toList then some 1
  else if cs = "false".toList then some 0
  else Text.int64? cs

/-- The name and the text of the index, if the left side ends with an index. -/
def splitIndex (cs : List Char) : Option (List Char × List Char) :=
  match cs.reverse with
  | ']' :: body => splitAtFirst '[' body.reverse
  | _ => none

/-- Reads the left side of a setting: a name, and an index after it. -/
def readTarget (cs : List Char) : Except Malformed (List Char × Int64) :=
  match splitIndex cs with
  | none => .ok (cs, 0)
  | some (name, inside) =>
    match Text.int64? (Text.trim inside) with
    | some i => .ok (Text.trimEnd name, i)
    | none => .error (.index (String.ofList inside))

/-- Reads a setting from its characters. -/
def readChars (cs : List Char) : Except Malformed Setting :=
  match splitAtFirst '=' cs with
  | none => .error .noValue
  | some (left, right) =>
    match value? (Text.trim right) with
    | none => .error (.value (String.ofList (Text.trim right)))
    | some v =>
      match readTarget (Text.trim left) with
      | .error e => .error e
      | .ok (name, i) =>
        if name = [] then .error .noName else .ok ⟨String.ofList name, v, i⟩

/-- Reads a setting. A value that is none counts before an index that is none, and both before a
name that is missing. -/
def read (s : String) : Except Malformed Setting := readChars s.toList

end Setting
end SatClient
