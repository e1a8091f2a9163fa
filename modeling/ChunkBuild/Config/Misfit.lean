/-!
# Misfits

What can be wrong with a value at a place of the configuration.
-/
namespace ChunkBuild.Config

inductive Place where
  | key (name : String)
  | item (position : Nat)
  deriving DecidableEq, Repr

inductive Misfit where
  | missing
  | notText
  /-- A text with halves of characters, where what it writes is asked for. -/
  | halved
  | notList
  | notSection
  | notFlag
  | unreadableFlag
  | notInteger
  | unreadableInteger
  | oversizedInteger
  | fractional
  | notFinite
  | tooSmall
  | notMember
  | rejected
  deriving DecidableEq, Repr

def Misfit.code : Misfit → String
  | .missing => "missing"
  | .notText => "string_type"
  | .halved => "string_unicode"
  | .notList => "list_type"
  | .notSection => "model_type"
  | .notFlag => "bool_type"
  | .unreadableFlag => "bool_parsing"
  | .notInteger => "int_type"
  | .unreadableInteger => "int_parsing"
  | .oversizedInteger => "int_parsing_size"
  | .fractional => "int_from_float"
  | .notFinite => "finite_number"
  | .tooSmall => "greater_than_equal"
  | .notMember => "enum"
  | .rejected => "value_error"

structure InvalidField where
  place : List Place
  misfit : Misfit
  deriving DecidableEq, Repr

end ChunkBuild.Config
