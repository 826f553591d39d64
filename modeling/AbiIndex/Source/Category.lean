import AbiIndex.Text.Case
import AbiIndex.Tree.Path

/-!
# Categories of source files

A file is sorted by its path: tests, libraries, and contracts for all the rest.
-/

namespace AbiIndex.Source

/-- What kind of file a source is. -/
inductive Category where
  | contracts
  | libs
  | tests
  /-- A category of the caller's own. -/
  | custom (name : String)
deriving DecidableEq

namespace Category

def name : Category → String
  | contracts => "contracts"
  | libs => "libs"
  | tests => "tests"
  | custom name => name

def ofName : String → Category
  | "contracts" => contracts
  | "libs" => libs
  | "tests" => tests
  | name => custom name

/-- The category of a path. Backslashes count as slashes. A name that ends in `.t.sol`, or a
directory called `test` or `tests` in any case, makes a test; a directory called `lib` or
`libraries` makes a library. -/
def ofPath (path : String) : Category :=
  let p := Path.parse (String.ofList (path.toList.map fun c => if c = '\\' then '/' else c))
  let dirs := p.names.dropLast.map fun part => String.ofList (Text.lower part.toList)
  if p.name.endsWith ".t.sol" || dirs.any (· ∈ ["test", "tests"]) then tests
  else if dirs.any (· ∈ ["lib", "libraries"]) then libs
  else contracts

end Category

end AbiIndex.Source
