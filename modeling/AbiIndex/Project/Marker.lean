import AbiIndex.Project.Info

/-!
# Markers

The files that tell for which tool a directory is laid out. If several are there, the one that
comes first in the list below counts.
-/

namespace AbiIndex.Project

/-- The name of the file that configures a Foundry project. -/
def foundryMarker : String := "foundry.toml"

/-- The names of marker files in the order of their precedence. -/
def markers : List (Layout × String) :=
  [(.foundry, foundryMarker), (.hardhat, "hardhat.config.js"), (.hardhat, "hardhat.config.ts"),
   (.hardhat, "hardhat.config.cjs"), (.hardhat, "hardhat.config.mjs"),
   (.truffle, "truffle-config.js"), (.truffle, "truffle.js")]

/-- The marker with the highest precedence among some names. -/
def findMarker (names : List String) : Option (Layout × String) :=
  markers.find? (·.2 ∈ names)

end AbiIndex.Project
