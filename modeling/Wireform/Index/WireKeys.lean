import Wireform.Index.Basic

/-!
The keys that a message occupies on the wire, once the keys of flattened children and of discriminated
oneofs are laid out in it.
-/

set_option autoImplicit false

namespace Wireform.Index

/-- The keys, or a chain of messages that comes back to one of its members. -/
abbrev KeyLayout := Except (List String) (List String)

def addNew (keys more : List String) : List String :=
  more.foldl (fun all key => if all.contains key then all else all ++ [key]) keys

/-- The keys of the members of a discriminated oneof; members that lift the same key share it. -/
def variantKeys (child : String → String → KeyLayout) (flatten : Bool) (pre : String) :
    List String → List Field → KeyLayout
  | keys, [] => .ok keys
  | keys, member :: rest =>
    match flatten, member.message? with
    | true, some type => do
      let lifted ← child type pre
      variantKeys child flatten pre (addNew keys lifted) rest
    | _, _ => variantKeys child flatten pre (keys ++ [pre ++ member.jsonName]) rest

/-- The keys of one field. A discriminated oneof is laid out as a whole at its first member. -/
def fieldKeys (child : String → String → KeyLayout) (message : Message) (pre : String)
    (field : Field) : KeyLayout :=
  match message.groupOf? field with
  | some (oneof, config) =>
    if oneof.members.head? = some field.name then do
      let keys ← variantKeys child config.flatten pre [] (message.oneofMembers oneof)
      return (pre ++ config.discriminator) :: keys
    else .ok []
  | none =>
    match field.annotations.flatten, field.message?, field.isSingular with
    | true, some type, true => child type (pre ++ field.annotations.flattenPrefix.getD "")
    | _, _, _ => .ok [pre ++ field.jsonName]

def fieldsKeys (child : String → String → KeyLayout) (message : Message) (pre : String) :
    List Field → KeyLayout
  | [] => .ok []
  | field :: rest => do
    let keys ← fieldKeys child message pre field
    return keys ++ (← fieldsKeys child message pre rest)

/-- The keys of a message under a prefix; `openNames` are the messages being laid out, outermost
first. A message that is not in the index has no keys. -/
def keysWithin (index : Index) : Nat → List String → String → String → KeyLayout
  | 0, _, _, _ => .ok []
  | levels + 1, openNames, name, pre =>
    if openNames.contains name then .error (openNames ++ [name])
    else
      match index.message? name with
      | none => .ok []
      | some message =>
        fieldsKeys (fun type pre => keysWithin index levels (openNames ++ [name]) type pre)
          message pre message.fields

-- Messages being laid out are distinct, so nesting ends at their number; the outermost may be named
-- with points in front.
def levels (index : Index) : Nat := index.messages.size + 2

def flattenedKeys (index : Index) (name : String) : KeyLayout :=
  keysWithin index (levels index) [] name ""

end Wireform.Index
