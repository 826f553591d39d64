/-!
# Type references

Types as they are written in a source, before any name in them is looked up.
-/

namespace AbiIndex.Source

/-- A type as it is written. -/
inductive TypeRef where
  /-- A built-in type. -/
  | elementary (name : String)
  /-- The name of a struct, enum, value type or contract, with its qualifiers in front. -/
  | user (path : List String)
  /-- An array; the length is the text between its brackets, if there is any. -/
  | array (base : TypeRef) (length : Option String)
  | mapping (key value : TypeRef)
  /-- A function type, word for word. -/
  | function (text : String)
  /-- No type at all. -/
  | absent
deriving DecidableEq

namespace TypeRef

/-- The written form of a type. -/
def render : TypeRef → String
  | elementary name => name
  | user path => ".".intercalate path
  | array base length => base.render ++ "[" ++ length.getD "" ++ "]"
  | mapping key value => "mapping(" ++ key.render ++ " => " ++ value.render ++ ")"
  | function text => text
  | absent => "None"

end TypeRef

end AbiIndex.Source
