import Wireform.Annotations
import Wireform.Index.Types
import Wireform.Settings

set_option autoImplicit false

namespace Wireform

inductive FindingKind where
  | incompatibleDirective
  | incompleteEnumMapping
  | conflictingTransform
  | unresolvedReference
  | unrecognizedTransform
deriving DecidableEq, Repr, Inhabited

namespace FindingKind

def code : FindingKind → String
  | .incompatibleDirective => "E101"
  | .incompleteEnumMapping => "E102"
  | .conflictingTransform => "E103"
  | .unresolvedReference => "E104"
  | .unrecognizedTransform => "E105"

def name : FindingKind → String
  | .incompatibleDirective => "IncompatibleDirective"
  | .incompleteEnumMapping => "IncompleteEnumMapping"
  | .conflictingTransform => "ConflictingTransform"
  | .unresolvedReference => "UnresolvedCrossFileReference"
  | .unrecognizedTransform => "UnrecognizedTransform"

def key : FindingKind → String
  | .incompatibleDirective => "incompatible_directive"
  | .incompleteEnumMapping => "incomplete_enum_mapping"
  | .conflictingTransform => "conflicting_transform"
  | .unresolvedReference => "unresolved_cross_file_reference"
  | .unrecognizedTransform => "unrecognized_transform"

end FindingKind

inductive MapEntryDefect where
  | noScalarKey
  | noValue
  | badValueType
deriving DecidableEq, Repr

def MapEntryDefect.text : MapEntryDefect → String
  | .noScalarKey => "has no scalar key field"
  | .noValue => "has no value field"
  | .badValueType => "has an invalid value type"

inductive Issue where
  | missingImport (file : String)
  | undefinedType (type : String)
  | unimportedType (type file : String)
  | badMapEntry (entry : String) (defect : MapEntryDefect)
  | malformed (malformed : Malformed)
  | timestampOn (described : String)
  | bytesOn (described : String)
  | int64On (described : String)
  | enumOn (described : String)
  | numbersWithNames (type : String)
  | nullableMessage
  | nullableOn (described : String)
  | emptyOn (described : String)
  | unwrapOn (described : String)
  | unusedPrefix
  | strayOneofValue
  | manyStructural (directives : List Directive)
  | flattenOn (described : String)
  | flattenRootUnwrap (child : String)
  | flattenInOneof (oneof : String)
  | flattenWith (other : Directive)
  | secondUnwrap (first : String)
  | unwrapMapBesideFields
  | rootUnwrapWith (other : Directive)
  | repeatedVariantValue (value previous : String)
  | emptyInOneof (oneof : String)
  | variantRootUnwrap (child : String)
  | variantOn (oneof described : String)
  | keyCollision (key : String) (directive : Directive)
  | flattenCycle (cycle : List String) (directive : Directive)
  | missingCustomName (value : String) (number : Int)
  | repeatedCustomName (custom previous : String)
  | shadowingCustomName (custom shadowed : String) (number : Int)
  | unsupported (target : Target) (tag directive : String)

namespace Issue

def kind : Issue → FindingKind
  | .missingImport _ | .undefinedType _ | .unimportedType _ _ | .badMapEntry _ _ =>
    .unresolvedReference
  | .numbersWithNames _ | .manyStructural _ | .flattenRootUnwrap _ | .flattenWith _
  | .secondUnwrap _ | .rootUnwrapWith _ | .repeatedVariantValue _ _ | .emptyInOneof _
  | .variantRootUnwrap _ | .keyCollision _ _ | .flattenCycle _ _ | .repeatedCustomName _ _
  | .shadowingCustomName _ _ _ => .conflictingTransform
  | .missingCustomName _ _ => .incompleteEnumMapping
  | .unsupported _ _ _ => .unrecognizedTransform
  | .malformed _ | .timestampOn _ | .bytesOn _ | .int64On _ | .enumOn _ | .nullableMessage
  | .nullableOn _ | .emptyOn _ | .unwrapOn _ | .unusedPrefix | .strayOneofValue | .flattenOn _
  | .flattenInOneof _ | .unwrapMapBesideFields | .variantOn _ _ => .incompatibleDirective

def directive : Issue → String
  | .missingImport _ => "import"
  | .undefinedType _ | .unimportedType _ _ | .badMapEntry _ _ => "type"
  | .malformed m => m.directive.name
  | .timestampOn _ => Directive.timestampFormat.name
  | .bytesOn _ => Directive.bytesEncoding.name
  | .int64On _ => Directive.int64Encoding.name
  | .enumOn _ | .numbersWithNames _ => Directive.enumEncoding.name
  | .nullableMessage | .nullableOn _ => Directive.nullable.name
  | .emptyOn _ | .emptyInOneof _ => Directive.emptyBehavior.name
  | .unwrapOn _ | .secondUnwrap _ | .unwrapMapBesideFields | .rootUnwrapWith _ =>
    Directive.unwrap.name
  | .unusedPrefix => Directive.flattenPrefix.name
  | .strayOneofValue | .repeatedVariantValue _ _ => Directive.oneofValue.name
  | .manyStructural directives => "+".intercalate (directives.map Directive.name)
  | .flattenOn _ | .flattenRootUnwrap _ | .flattenInOneof _ | .flattenWith _ =>
    Directive.flatten.name
  | .variantRootUnwrap _ | .variantOn _ _ => Directive.oneofConfig.name
  | .keyCollision _ directive | .flattenCycle _ directive => directive.name
  | .missingCustomName _ _ | .repeatedCustomName _ _ | .shadowingCustomName _ _ _ =>
    Directive.enumValue.name
  | .unsupported _ _ directive => directive

def got (rule described : String) : String := rule ++ " (got " ++ described ++ ")"

def reason : Issue → String
  | .missingImport file => "imported file '" ++ file ++ "' is not in the descriptor set"
  | .undefinedType type => "type '" ++ type ++ "' is not defined in any file of the run"
  | .unimportedType type file =>
    "type '" ++ type ++ "' is defined in '" ++ file
      ++ "', which is not imported by this run's files"
  | .badMapEntry entry defect => "map entry '" ++ entry ++ "' " ++ defect.text
  | .malformed m => m.malformation.reason
  | .timestampOn described =>
    got "timestamp_format is only valid on google.protobuf.Timestamp fields" described
  | .bytesOn described => got "bytes_encoding is only valid on bytes fields" described
  | .int64On described =>
    got "int64_encoding is only valid on int64, sint64, sfixed64, uint64 and fixed64 fields"
      described
  | .enumOn described => got "enum_encoding is only valid on enum fields" described
  | .numbersWithNames type =>
    "enum_encoding=NUMBER conflicts with the enum_value names declared on " ++ type
  | .nullableMessage => "nullable is only valid on primitive fields, not message fields"
  | .nullableOn described => got "nullable is only valid on proto3 optional fields" described
  | .emptyOn described => got "empty_behavior is only valid on singular message fields" described
  | .unwrapOn described =>
    got "unwrap is only valid on repeated or map fields whose element type is a message" described
  | .unusedPrefix => "flatten_prefix requires flatten=true on the same field"
  | .strayOneofValue =>
    "oneof_value is only valid on members of a oneof with a oneof_config discriminator"
  | .manyStructural directives =>
    got "a field carries at most one structural directive"
      (" and ".intercalate (directives.map Directive.name))
  | .flattenOn described =>
    got "flatten is only valid on singular, non-well-known message fields" described
  | .flattenRootUnwrap child =>
    "cannot flatten " ++ child ++ ": its root unwrap serializes it as a bare array or map"
  | .flattenInOneof oneof => "flatten is not valid on members of oneof '" ++ oneof ++ "'"
  | .flattenWith other => "flatten cannot be combined with " ++ other.name
  | .secondUnwrap first =>
    "only one field per message can have the unwrap annotation (already on '" ++ first ++ "')"
  | .unwrapMapBesideFields =>
    "map fields with unwrap require the message to have exactly one field (root unwrap)"
  | .rootUnwrapWith other =>
    "root-level unwrap cannot be combined with " ++ other.name
      ++ ": the wrapping document is discarded"
  | .repeatedVariantValue value previous =>
    "discriminator value \"" ++ value ++ "\" is already used by '" ++ previous ++ "'"
  | .emptyInOneof oneof =>
    "empty_behavior cannot rewrite a variant of discriminated oneof '" ++ oneof ++ "'"
  | .variantRootUnwrap child =>
    "cannot flatten variant " ++ child ++ ": its root unwrap serializes it as a bare array or map"
  | .variantOn oneof described =>
    got ("flattened oneof '" ++ oneof ++ "' requires every variant to be a non-well-known message")
      described
  | .keyCollision key _ => "wire key '" ++ key ++ "' collides with another field"
  | .flattenCycle cycle _ => "flatten cycle: " ++ " -> ".intercalate cycle
  | .missingCustomName value number =>
    "no custom name for " ++ value ++ " (number " ++ toString number
      ++ "); every value of an enum with enum_value names needs one"
  | .repeatedCustomName custom previous =>
    "custom name \"" ++ custom ++ "\" is already used by " ++ previous
  | .shadowingCustomName custom shadowed number =>
    "custom name \"" ++ custom ++ "\" is the proto name of " ++ shadowed ++ " (number "
      ++ toString number ++ ")"
  | .unsupported target tag _ => "the " ++ target.name ++ " emitter does not implement " ++ tag

end Issue

structure Finding where
  file : String
  message : String
  field : String
  issue : Issue

namespace Finding

def kind (f : Finding) : FindingKind := f.issue.kind

def directive (f : Finding) : String := f.issue.directive

def reason (f : Finding) : String := f.issue.reason

def text (f : Finding) : String :=
  let place := if f.field.isEmpty then f.message else f.message ++ "." ++ f.field
  f.file ++ ": " ++ place ++ ": " ++ f.kind.name ++ " [" ++ f.directive ++ "] " ++ f.reason

end Finding

/-- A 64-bit integer that is written as a number, which is allowed but loses precision in some
readers. -/
structure Warning where
  file : String
  message : String
  field : String
deriving DecidableEq, Repr

namespace Warning

def directive (_ : Warning) : String := Directive.int64Encoding.name

def reason (_ : Warning) : String :=
  "NUMBER encoding loses precision for values beyond 2^53 in JavaScript clients"

def text (w : Warning) : String :=
  w.file ++ ": " ++ w.message ++ "." ++ w.field ++ ": [" ++ w.directive ++ "] " ++ w.reason

end Warning

end Wireform
