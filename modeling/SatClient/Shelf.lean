import SatClient.Library

/-!
# Libraries on a shelf

A linker that opens a few files in the current directory, and no others.

* `Shelf.libraries`: the files, with the functions which each offers
* `Shelf.unterminated?`, `Shelf.fileOf?`: the file to which a path leads
* `Shelf.offered?`: the functions that are offered at a path
* `Shelf.linker`: the linker
-/

namespace SatClient.Shelf

/-- The name of the library which lacks one function. -/
def fileWithout (e : EntryPoint) : String := "no_" ++ String.ofList (e.name.toList.drop 8) ++ ".so"

/-- Libraries by the name of their file, with the functions which each offers: a complete one, and for each
function one that lacks it. -/
def libraries : List (String × List EntryPoint) :=
  ("full.so", EntryPoint.all) ::
    EntryPoint.all.map fun e => (fileWithout e, EntryPoint.all.filter (· ≠ e))

/-- The file in the current directory to which a path leads. A path without a slash is looked for
elsewhere, and one that starts with a slash leads elsewhere. -/
def fileOf? (path : String) : Option String :=
  match path.splitOn "/" with
  | [] | [_] | "" :: _ => none
  | parts =>
    match parts.dropWhile fun part => part = "." ∨ part = "" with
    | [file] => some file
    | _ => none

/-- Characters without the NUL that may end them. There must be no other NUL. -/
def unterminated? : List Char → Option (List Char)
  | [] | ['\x00'] => some []
  | c :: rest => if c = '\x00' then none else (unterminated? rest).map (c :: ·)

/-- The number of bytes which a path must not reach. -/
def pathLimit : Nat := 4096

/-- The functions offered at a path without a NUL, if a library can be opened there. The empty path
names the running program, which offers none. -/
def offeredAt? (path : String) : Option (List EntryPoint) :=
  if path = "" then some []
  else if path.utf8ByteSize < pathLimit then
    (fileOf? path).bind fun file => libraries.lookup file
  else none

/-- The functions offered at a path, if a library can be opened there. A path may end with a NUL
and holds none elsewhere. -/
def offered? (path : String) : Option (List EntryPoint) :=
  (unterminated? path.toList).bind fun cs => offeredAt? (String.ofList cs)

/-- Finds functions in a list of those that are offered. The address is the place in the list, from one
on. -/
def resolver : Resolver (List EntryPoint) where
  ask symbol entries :=
    match entries.findIdx? fun e => e.name = symbol with
    | some i => (.ok (i + 1), entries)
    | none => (.error "", entries)

def linker : Linker (List EntryPoint) where
  openAt path :=
    match offered? path with
    | none => .error ""
    | some entries => .ok entries
  resolver := resolver

end SatClient.Shelf
