import Wireform.Bytes.Base64
import Wireform.Bytes.Hex
import Wireform.Directive

set_option autoImplicit false

namespace Wireform

namespace BytesEncoding

def scheme? : BytesEncoding → Option Base64.Scheme
  | .unspecified => some .standard
  | .base64 => some .standard
  | .base64Raw => some .standardRaw
  | .base64Url => some .url
  | .base64UrlRaw => some .urlRaw
  | .hex => none

def label : BytesEncoding → String
  | .unspecified => "base64"
  | .base64 => "base64"
  | .base64Raw => "unpadded base64"
  | .base64Url => "base64url"
  | .base64UrlRaw => "unpadded base64url"
  | .hex => "hex"

def encode (encoding : BytesEncoding) (bytes : List UInt8) : String :=
  String.ofList
    (match encoding.scheme? with
      | some scheme => scheme.encode bytes
      | none => Hex.encode bytes)

inductive Fault where
  | base64 (encoding : BytesEncoding) (fault : Base64.Fault)
  | hex (fault : Hex.Fault)
deriving DecidableEq, Repr

def Fault.message : Fault → String
  | .base64 encoding fault => "invalid " ++ encoding.label ++ ": " ++ fault.message
  | .hex fault => "invalid hex: " ++ fault.message

def decode (encoding : BytesEncoding) (text : String) : Except Fault (List UInt8) :=
  match encoding.scheme? with
  | some scheme => (scheme.decode text).mapError (.base64 encoding)
  | none => (Hex.decode text).mapError .hex

end BytesEncoding

end Wireform
