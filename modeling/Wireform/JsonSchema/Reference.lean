import Wireform.Text.Split

/-!
References from one schema to another: texts in the general form of resource identifiers. A document stands
at the root of a scheme of its own, so that few references without a fragment alone lead back into it.
-/

set_option autoImplicit false

namespace Wireform

structure Reference where
  scheme : Option String
  authority : Option String
  path : String
  query : Option String
  fragment : Option String
deriving DecidableEq, Repr

namespace Reference

def isPlain (c : Char) : Bool := c.isAlphanum || "-._~!$&'()*+,;=:@".toList.contains c

def isHexDigit (c : Char) : Bool :=
  c.isDigit || ('a' ≤ c && c ≤ 'f') || ('A' ≤ c && c ≤ 'F')

def holdsOnly (allowed : Char → Bool) : List Char → Bool
  | [] => true
  | '%' :: high :: low :: rest => isHexDigit high && isHexDigit low && holdsOnly allowed rest
  | c :: rest => c != '%' && allowed c && holdsOnly allowed rest

def isScheme (text : String) : Bool :=
  match text.toList with
  | [] => false
  | c :: rest => c.isAlpha && rest.all fun c => c.isAlphanum || "+-.".toList.contains c

def divide (mark : Char) (text : String) : String × Option String :=
  match Text.cut? mark text with
  | some (before, behind) => (before, some behind)
  | none => (text, none)

def authorityOf (text : String) : Option String × String :=
  match text.toList with
  | '/' :: '/' :: rest =>
    (some (String.ofList (rest.takeWhile (· != '/'))), String.ofList (rest.dropWhile (· != '/')))
  | _ => (none, text)

def isWellFormed (r : Reference) : Bool :=
  let only (extra : String) (text : String) : Bool :=
    holdsOnly (fun c => isPlain c || extra.toList.contains c) text.toList
  r.scheme.all isScheme && r.authority.all (only "[]") && only "/" r.path
    && r.query.all (only "/?") && r.fragment.all (only "/?")

def parse? (text : String) : Option Reference :=
  let (text, fragment) := divide '#' text
  let (text, query) := divide '?' text
  let (scheme, rest) :=
    match divide ':' text with
    | (before, some behind) =>
      if before.toList.contains '/' then (none, text) else (some before, behind)
    | (_, none) => (none, text)
  let (authority, path) := authorityOf rest
  let reference : Reference := ⟨scheme, authority, path, query, fragment⟩
  if reference.isWellFormed then some reference else none

def followed : List String → List String → List String
  | done, [] => done.reverse
  | done, [name] =>
    (if name = "." then "" :: done else if name = ".." then "" :: done.drop 1 else name :: done).reverse
  | done, name :: rest =>
    if name = "." then followed done rest
    else if name = ".." then followed (done.drop 1) rest
    else followed (name :: done) rest

def isRoot (path : String) : Bool :=
  let names := Text.split '/' path
  followed [] (if Text.startsWith "/" path then names.drop 1 else names) == [""]

def documentScheme : String := "json-schema"

def isLocal (r : Reference) : Bool :=
  r.query.isNone &&
    match r.scheme, r.authority with
    | none, none => isRoot r.path
    | none, some authority => authority.isEmpty && isRoot r.path
    | some scheme, authority =>
      scheme == documentScheme && authority == some "" && isRoot r.path

def definitionsPath : String := "#/$defs/"

/-- The name of the place that a text refers to: a component has its own, which holds no number sign, and
any other place the reference itself. -/
def name? (text : String) : Option String := do
  let r ← parse? text
  let fragment := "#" ++ r.fragment.getD ""
  if r.isLocal then
    if Text.startsWith definitionsPath fragment then
      return String.ofList (fragment.toList.drop definitionsPath.length)
    else return fragment
  else if r.fragment.isSome then return text
  else return text ++ "#"

def ofName? (name : String) : Option Reference :=
  parse? (if name.toList.contains '#' then name else definitionsPath ++ name)

def dialectHost : String := "json-schema.org"

def oldDialects : String := "http" ++ "://" ++ dialectHost ++ "/draft-"

def newDialects : String := "https" ++ "://" ++ dialectHost ++ "/draft/"

/-- Whether a schema may hold a reference, even one that nothing leads to: other documents cannot be had,
but dialects are known without looking. -/
def isAllowed (text : String) : Bool :=
  Text.startsWith "#" text || Text.startsWith oldDialects text || Text.startsWith newDialects text
    || (parse? text).any isLocal

end Reference

end Wireform
