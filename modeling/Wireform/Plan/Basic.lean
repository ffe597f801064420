import Wireform.Directive
import Wireform.KeyMap

set_option autoImplicit false

namespace Wireform

inductive Container where
  | single
  | list
  | mapValues
deriving DecidableEq, Repr, Inhabited

structure EnumName where
  name : String
  number : Int
  wire : String
deriving DecidableEq, Repr, Inhabited

structure Variant where
  field : String
  jsonName : String
  value : String
  messageType : Option String
  childKeys : List String
deriving DecidableEq, Repr, Inhabited

/-- A single deviation from the usual form. -/
inductive Transform where
  | unwrapRoot (elementType : Option String) (isMap : Bool)
  | unwrapValues (elementType : Option String) (valueField : String)
  | nullable
  | integerAsNumber (unsigned : Bool)
  | enumCustomNames (enumType : String) (table : List EnumName)
  | enumAsNumber (enumType : String) (table : List EnumName)
  | timestampAs (format : TimestampFormat)
  | bytesAs (encoding : BytesEncoding)
  | emptyValueAs (behavior : EmptyBehavior)
  | nested (messageType : String)
  | flatten (messageType pre : String) (childKeys : List String)
  | oneofDiscriminator (discriminator : String) (flatten : Bool) (variants : List Variant)
deriving DecidableEq, Repr, Inhabited

inductive TransformTag where
  | unwrap
  | nullable
  | integerAsNumber
  | enumCustomNames
  | enumAsNumber
  | timestampAs
  | bytesAs
  | emptyValueAs
  | nested
  | flatten
  | oneofDiscriminator
deriving DecidableEq, Repr, Inhabited

namespace TransformTag

def all : List TransformTag :=
  [.unwrap, .nullable, .integerAsNumber, .enumCustomNames, .enumAsNumber, .timestampAs, .bytesAs,
    .emptyValueAs, .nested, .flatten, .oneofDiscriminator]

def name : TransformTag → String
  | .unwrap => "Unwrap"
  | .nullable => "Nullable"
  | .integerAsNumber => "IntegerAsNumber"
  | .enumCustomNames => "EnumCustomNames"
  | .enumAsNumber => "EnumAsNumber"
  | .timestampAs => "TimestampAs"
  | .bytesAs => "BytesAs"
  | .emptyValueAs => "EmptyValueAs"
  | .nested => "Nested"
  | .flatten => "Flatten"
  | .oneofDiscriminator => "OneofDiscriminator"

def key : TransformTag → String
  | .unwrap => "unwrap"
  | .nullable => "nullable"
  | .integerAsNumber => "integer_as_number"
  | .enumCustomNames => "enum_custom_names"
  | .enumAsNumber => "enum_as_number"
  | .timestampAs => "timestamp_as"
  | .bytesAs => "bytes_as"
  | .emptyValueAs => "empty_value_as"
  | .nested => "nested"
  | .flatten => "flatten"
  | .oneofDiscriminator => "oneof_discriminator"

def directive : TransformTag → String
  | .unwrap => Directive.unwrap.name
  | .nullable => Directive.nullable.name
  | .integerAsNumber => Directive.int64Encoding.name
  | .enumCustomNames => Directive.enumValue.name
  | .enumAsNumber => Directive.enumEncoding.name
  | .timestampAs => Directive.timestampFormat.name
  | .bytesAs => Directive.bytesEncoding.name
  | .emptyValueAs => Directive.emptyBehavior.name
  | .nested => "nested"
  | .flatten => Directive.flatten.name
  | .oneofDiscriminator => Directive.oneofConfig.name

end TransformTag

namespace Transform

def tag : Transform → TransformTag
  | .unwrapRoot _ _ => .unwrap
  | .unwrapValues _ _ => .unwrap
  | .nullable => .nullable
  | .integerAsNumber _ => .integerAsNumber
  | .enumCustomNames _ _ => .enumCustomNames
  | .enumAsNumber _ _ => .enumAsNumber
  | .timestampAs _ => .timestampAs
  | .bytesAs _ => .bytesAs
  | .emptyValueAs _ => .emptyValueAs
  | .nested _ => .nested
  | .flatten _ _ _ => .flatten
  | .oneofDiscriminator _ _ _ => .oneofDiscriminator

def isRootUnwrap : Transform → Bool
  | .unwrapRoot _ _ => true
  | _ => false

end Transform

structure Step where
  field : String
  jsonName : String
  container : Container
  transform : Transform
deriving DecidableEq, Repr, Inhabited

/-- The steps of one message. Encoding takes them in order, decoding in reverse; a root unwrap comes
last. -/
structure Plan where
  message : String
  steps : List Step
deriving DecidableEq, Repr, Inhabited

namespace Plan

def rootUnwrap? (plan : Plan) : Option Step := plan.steps.find? (·.transform.isRootUnwrap)

def tags (plan : Plan) : List TransformTag :=
  TransformTag.all.filter fun tag => plan.steps.any (·.transform.tag == tag)

def nestedMessages (plan : Plan) : List String :=
  plan.steps.filterMap fun step =>
    match step.transform with
    | .nested messageType => some messageType
    | _ => none

def fieldsWith (plan : Plan) (tag : TransformTag) : List String :=
  (plan.steps.filter (·.transform.tag == tag)).map (·.field)

end Plan

abbrev PlanSet := KeyMap Plan

end Wireform
