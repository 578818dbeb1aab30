import ChainWeaver.Flow

/-!
# Model fields

What `explain_flow` and `compile_flow` read off a model class: its fields with
their annotations, and which of them are required.
-/

namespace ChainWeaver

/-- A class by its qualified name. -/
abbrev PyClass := String

/-- `cls.__name__`. -/
def PyClass.name (cls : PyClass) : String :=
  String.ofList (cls.toList.reverse.takeWhile (· ≠ '.')).reverse

def noneType : PyClass := "types.NoneType"

/-- An annotation as `typing.get_origin` and `typing.get_args` take it apart. -/
inductive Annotation
  | cls (c : PyClass)
  /-- A subscripted generic, with its origin where that is a class. -/
  | generic (origin : Option PyClass)
  /-- `Union[…]`, `Optional[…]` or `X | Y`. -/
  | union (args : List Annotation)
  /-- None of these: `Any`, a type variable, or no annotation. -/
  | other

namespace Annotation

def isNone : Annotation → Bool
  | .cls c => c = noneType
  | _ => false

/-- `_get_field_type`: `none` where the type is unknown. -/
def fieldType : Annotation → Option PyClass
  | .cls c => some c
  | .generic origin => origin
  | .union args =>
    match args.filter (!·.isNone) with
    | [.cls c] => some c
    | _ => none
  | .other => none

example : (union [.cls "builtins.int", .cls noneType]).fieldType = some "builtins.int" := by decide

end Annotation

/-- `text` is what `_schema_field_shape` shows of the annotation. -/
structure FieldInfo where
  annotation : Annotation
  text : String
  isRequired : Bool := true

/-- What the interpreter tells about model classes and values. -/
structure Reflection where
  /-- `model_fields`. -/
  modelFields : Schema → OrderedDict FieldInfo
  repr : Value → String

/-- `_schema_field_shape`. -/
def Reflection.schemaFieldShape (reflection : Reflection) (schema : Schema) : OrderedDict String :=
  (reflection.modelFields schema).mapValues FieldInfo.text

end ChainWeaver
