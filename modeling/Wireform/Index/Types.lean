import Wireform.Schema

set_option autoImplicit false

namespace Wireform

inductive Scalar where
  | double
  | float
  | int32
  | int64
  | uint32
  | uint64
  | sint32
  | sint64
  | fixed32
  | fixed64
  | sfixed32
  | sfixed64
  | bool
  | string
  | bytes
deriving DecidableEq, Repr, Inhabited

namespace Scalar

def ofKind? : Schema.FieldKind → Option Scalar
  | .double => some .double
  | .float => some .float
  | .int32 => some .int32
  | .int64 => some .int64
  | .uint32 => some .uint32
  | .uint64 => some .uint64
  | .sint32 => some .sint32
  | .sint64 => some .sint64
  | .fixed32 => some .fixed32
  | .fixed64 => some .fixed64
  | .sfixed32 => some .sfixed32
  | .sfixed64 => some .sfixed64
  | .bool => some .bool
  | .string => some .string
  | .bytes => some .bytes
  | .message => none
  | .group => none
  | .enum => none

def name : Scalar → String
  | .double => "double"
  | .float => "float"
  | .int32 => "int32"
  | .int64 => "int64"
  | .uint32 => "uint32"
  | .uint64 => "uint64"
  | .sint32 => "sint32"
  | .sint64 => "sint64"
  | .fixed32 => "fixed32"
  | .fixed64 => "fixed64"
  | .sfixed32 => "sfixed32"
  | .sfixed64 => "sfixed64"
  | .bool => "bool"
  | .string => "string"
  | .bytes => "bytes"

def is64Bit : Scalar → Bool
  | .int64 | .uint64 | .sint64 | .fixed64 | .sfixed64 => true
  | _ => false

def isUnsigned : Scalar → Bool
  | .uint32 | .uint64 | .fixed32 | .fixed64 => true
  | _ => false

end Scalar

inductive ValueType where
  | scalar (scalar : Scalar)
  | enum (name : String)
  | message (name : String)
deriving DecidableEq, Repr, Inhabited

namespace ValueType

def message? : ValueType → Option String
  | .message name => some name
  | _ => none

def enum? : ValueType → Option String
  | .enum name => some name
  | _ => none

def describe : ValueType → String
  | .scalar s => s.name
  | .enum name => "enum " ++ name
  | .message name => name

end ValueType

inductive Cardinality where
  | singular
  | optional
  | repeated
  | map (key : Scalar)
deriving DecidableEq, Repr, Inhabited

namespace Cardinality

def isList : Cardinality → Bool
  | .repeated => true
  | _ => false

def isMap : Cardinality → Bool
  | .map _ => true
  | _ => false

def isSingular : Cardinality → Bool
  | .singular | .optional => true
  | _ => false

def describe (cardinality : Cardinality) (type : ValueType) : String :=
  match cardinality with
  | .singular => type.describe
  | .optional => "optional " ++ type.describe
  | .repeated => "repeated " ++ type.describe
  | .map key => "map<" ++ key.name ++ ", " ++ type.describe ++ ">"

end Cardinality

end Wireform
