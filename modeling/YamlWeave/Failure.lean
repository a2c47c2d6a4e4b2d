import YamlWeave.Value.Merge
import YamlWeave.World

/-!
# Failures

Why a load has no result, as causes, with one wording for each.
-/

set_option autoImplicit false

namespace YamlWeave

/-- The shape of a document: how it can be put together with others. -/
inductive Kind where
  | sequence
  | mapping
  /-- Neither a sequence nor a mapping. -/
  | scalar
deriving DecidableEq

namespace Kind

def name : Kind → String
  | .sequence => "sequence"
  | .mapping => "mapping"
  | .scalar => "scalar"

end Kind

/-- Why a value is not of the type that was asked for. -/
inductive Mismatch where
  | wrongType (found expected : String)
  /-- The value is of the right type, but out of its range. -/
  | outOfRange (found expected : String)
  /-- A field that has to be there is not. -/
  | missingField (name : String)
deriving DecidableEq

namespace Mismatch

def message : Mismatch → String
  | .wrongType found expected => "invalid type: " ++ found ++ ", expected " ++ expected
  | .outOfRange found expected => "invalid value: " ++ found ++ ", expected " ++ expected
  | .missingField name => "missing field `" ++ name ++ "`"

end Mismatch

inductive Failure where
  | unreadable (path : Path) (fault : ReadFault)
  | notYaml (path : Path)
  /-- The merge keys of the document cannot be resolved. -/
  | unmergeable (path : Path) (fault : MergeFault)
  /-- The document is not of the type that was asked for. -/
  | mistyped (path : Path) (mismatch : Mismatch)
  | unknownTag (tag : String)
  /-- The node under the tag has a tag of its own. -/
  | malformedTag (tag : String)
  /-- The node under the tag has the wrong shape. -/
  | wrongOperand (tag reason : String)
  /-- The node that should name a file does not. -/
  | wrongFileName (node reason : String)
  | emptyInclude
  | mixedInclude (first found : Kind) (path : Path)
  | scalarInclude (path : Path)
  /-- The file is being loaded already. -/
  | circularInclude (path : Path)
deriving DecidableEq

namespace Failure

/-- The failure in words. What is wrong with a text that has no value is not told. -/
def message : Failure → String
  | .unreadable path fault => "failed to read file " ++ path.text ++ ": " ++ fault.message
  | .notYaml path => "failed to parse YAML in " ++ path.text
  | .unmergeable path fault =>
    "failed to apply merge keys in " ++ path.text ++ ": " ++ fault.message
  | .mistyped path mismatch => "failed to deserialize " ++ path.text ++ ": " ++ mismatch.message
  | .unknownTag tag => "unknown tag '" ++ tag ++ "'"
  | .malformedTag tag => "malformed node for tag '" ++ tag ++ "'"
  | .wrongOperand tag reason => "invalid value for tag '" ++ tag ++ "': " ++ reason
  | .wrongFileName node reason => "invalid include path '" ++ node ++ "': " ++ reason
  | .emptyInclude => "include list is empty"
  | .mixedInclude first found path =>
    "found mixed data types in include: " ++ path.text ++ " is a " ++ found.name ++
      ", expected a " ++ first.name
  | .scalarInclude path =>
    "included file " ++ path.text ++ " is a scalar and cannot be merged"
  | .circularInclude path => "circular include detected: " ++ path.text

def isNotFound : Failure → Bool
  | .unreadable _ .notFound => true
  | _ => false

end Failure

end YamlWeave
