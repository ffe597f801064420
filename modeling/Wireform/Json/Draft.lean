import Wireform.Json.Token

/-!
JSON text as far as it can be read. A draft keeps every member, repeated keys too, in the order of the
text, and marks the place where the text breaks off, so that a reader of any shape meets the faults
of the text and its own objections in the order in which they stand.
-/

set_option autoImplicit false

namespace Wireform.Json

/-- A place where text breaks off, as two kinds of reader see it. -/
structure Break where
  wanted : Fault
  skipped : Fault

namespace Break

def same (cause : Cause) (place : Place) : Break := ⟨⟨cause, place⟩, ⟨cause, place⟩⟩

def ofFault (fault : Fault) : Break := ⟨fault, fault⟩

end Break

structure Span where
  here : List Char
  after : List Char

def Span.none : Span := ⟨[], []⟩

structure Key where
  literal : Literal String
  after : List Char

inductive Draft where
  | null (span : Span)
  | bool (value : Bool) (span : Span)
  | num (literal : Literal Number) (span : Span)
  | str (literal : Literal String) (span : Span)
  | arr (items : List Draft) (stop : Option Break) (span : Span)
  | obj (members : List (Key × Draft)) (stop : Option Break) (span : Span)
  | broken (stop : Break) (span : Span)

instance : Inhabited Draft := ⟨.null .none⟩

structure Document where
  body : Draft
  trailing : Option Fault

namespace Draft

def span : Draft → Span
  | .null span => span
  | .bool _ span => span
  | .num _ span => span
  | .str _ span => span
  | .arr _ _ span => span
  | .obj _ _ span => span
  | .broken _ span => span

inductive Frame where
  | arr (here : List Char) (items : List Draft)
  | obj (here : List Char) (members : List (Key × Draft))
  | member (here : List Char) (members : List (Key × Draft)) (key : Key)

def Frame.put (value : Draft) : Frame → Frame
  | .arr here items => .arr here (value :: items)
  | .obj here members => .obj here members
  | .member here members key => .obj here ((key, value) :: members)

def Frame.close (after : List Char) : Frame → Draft
  | .arr here items => .arr items.reverse none ⟨here, after⟩
  | .obj here members => .obj members.reverse none ⟨here, after⟩
  | .member here members _ => .obj members.reverse none ⟨here, after⟩

def Frame.abandon (stop : Break) : Frame → Draft
  | .arr here items => .arr items.reverse (some stop) ⟨here, []⟩
  | .obj here members => .obj members.reverse (some stop) ⟨here, []⟩
  | .member here members key =>
    .obj ((key, .broken stop ⟨[], []⟩) :: members).reverse (some stop) ⟨here, []⟩

inductive Expected where
  | value
  | item
  | itemOrClose
  | keyOrClose
  | key
  | colon
  | commaOrClose

def abandon (stop : Break) : List Frame → Draft
  | [] => .broken stop ⟨[], []⟩
  | frame :: outer =>
    outer.foldl (fun inner frame => (frame.put inner).abandon stop) (frame.abandon stop)

def abandonValue (stop : Break) (here : List Char) : List Frame → Draft
  | [] => .broken stop ⟨here, []⟩
  | frame :: rest => abandon stop (frame.put (.broken stop ⟨here, []⟩) :: rest)

def endBreak (expected : Expected) (frames : List Frame) : Break :=
  let same (cause : Cause) : Break := .same cause .ending
  match expected, frames with
  | .value, _ | .item, _ => same .endInValue
  | .key, _ => ⟨⟨.endInValue, .ending⟩, ⟨.endInObject, .ending⟩⟩
  | .itemOrClose, _ => same .endInList
  | .commaOrClose, .arr _ _ :: _ => same .endInList
  | _, _ => same .endInObject

def tokenBreak (expected : Expected) (frames : List Frame) (token : PlacedToken) : Break :=
  let place := Place.past token.here
  match expected, token.token, frames with
  | .item, .closeList, _ => ⟨⟨.trailingComma, place⟩, ⟨.wantsValue, place⟩⟩
  | .value, .bad fault, _ | .item, .bad fault, _ | .itemOrClose, .bad fault, _ => .ofFault fault
  | .value, _, _ | .item, _, _ | .itemOrClose, _, _ => .same .wantsValue place
  | .key, .closeRecord, _ => ⟨⟨.trailingComma, place⟩, ⟨.wantsKey, place⟩⟩
  | .key, _, _ | .keyOrClose, _, _ => .same .wantsKey place
  | .colon, _, _ => .same .wantsColon place
  | .commaOrClose, _, .arr _ _ :: _ => .same .wantsListEnd place
  | .commaOrClose, _, _ => .same .wantsObjectEnd place

def finish (value : Draft) (rest : List PlacedToken) : Document :=
  ⟨value, rest.head?.map fun token => ⟨.trailing, .past token.here⟩⟩

def build : List PlacedToken → Expected → List Frame → Document
  | [], .value, frames => ⟨abandonValue (endBreak .value frames) [] frames, none⟩
  | [], .item, frames => ⟨abandonValue (endBreak .item frames) [] frames, none⟩
  | [], expected, frames => ⟨abandon (endBreak expected frames) frames, none⟩
  | token :: rest, expected, frames =>
    let span : Span := ⟨token.here, token.after⟩
    let deliver (value : Draft) (frames : List Frame) : Document :=
      match frames with
      | [] => finish value rest
      | frame :: outer => build rest .commaOrClose (frame.put value :: outer)
    let wrong : Break := tokenBreak expected frames token
    let start : Document :=
      match token.token with
      | .null => deliver (.null span) frames
      | .bool b => deliver (.bool b span) frames
      | .num literal =>
        match literal.stop, frames with
        | none, _ => deliver (.num literal span) frames
        | some fault, [] => ⟨.num literal span, some fault⟩
        | some fault, frame :: outer =>
          ⟨abandon (.ofFault fault) (frame.put (.num literal span) :: outer), none⟩
      | .str literal =>
        match literal.stop, frames with
        | none, _ => deliver (.str literal span) frames
        | some fault, [] => ⟨.str literal span, some fault⟩
        | some fault, frame :: outer =>
          ⟨abandon (.ofFault fault) (frame.put (.str literal span) :: outer), none⟩
      | .openList => build rest .itemOrClose (.arr token.here [] :: frames)
      | .openRecord => build rest .keyOrClose (.obj token.here [] :: frames)
      | _ => ⟨abandonValue wrong token.here frames, none⟩
    let member (literal : Literal String) : Document :=
      match frames with
      | .obj here members :: outer =>
        let frame : Frame := .member here members ⟨literal, token.after⟩
        match literal.stop with
        | none => build rest .colon (frame :: outer)
        | some fault => ⟨abandon (.ofFault fault) (frame :: outer), none⟩
      | _ => ⟨abandon wrong frames, none⟩
    match expected, token.token, frames with
    | .value, _, _ => start
    | .item, _, _ => start
    | .itemOrClose, .closeList, frame :: outer => deliver (frame.close token.after) outer
    | .itemOrClose, _, _ => start
    | .keyOrClose, .closeRecord, frame :: outer => deliver (frame.close token.after) outer
    | .keyOrClose, .str literal, _ => member literal
    | .key, .str literal, _ => member literal
    | .colon, .colon, _ => build rest .value frames
    | .commaOrClose, .comma, .arr _ _ :: _ => build rest .item frames
    | .commaOrClose, .comma, .obj _ _ :: _ => build rest .key frames
    | .commaOrClose, .closeList, .arr here items :: outer =>
      deliver ((Frame.arr here items).close token.after) outer
    | .commaOrClose, .closeRecord, .obj here members :: outer =>
      deliver ((Frame.obj here members).close token.after) outer
    | _, _, _ => ⟨abandon wrong frames, none⟩

def ofJson : Json → Draft
  | .null => .null .none
  | .bool b => .bool b .none
  | .num n => .num (.pure n) .none
  | .str s => .str (.pure s) .none
  | .arr items => .arr (ofItems items) none .none
  | .obj entries => .obj (ofEntries entries) none .none
where
  ofItems : List Json → List Draft
    | [] => []
    | item :: rest => ofJson item :: ofItems rest
  ofEntries : List (String × Json) → List (Key × Draft)
    | [] => []
    | (k, v) :: rest => (⟨.pure k, []⟩, ofJson v) :: ofEntries rest

def height : Draft → Nat
  | .arr items _ _ => heights items + 1
  | .obj members _ _ => memberHeights members + 1
  | _ => 0
where
  heights : List Draft → Nat
    | [] => 0
    | item :: rest => max (height item) (heights rest)
  memberHeights : List (Key × Draft) → Nat
    | [] => 0
    | (_, value) :: rest => max (height value) (memberHeights rest)

def stopped : Option Fault → Except Fault Unit
  | none => .ok ()
  | some fault => .error fault

def skip : Draft → Except Fault Unit
  | .num literal _ => stopped literal.stop
  | .str literal _ => stopped literal.stop
  | .arr items stop _ => do skipItems items; stopped (stop.map (·.skipped))
  | .obj members stop _ => do skipMembers members; stopped (stop.map (·.skipped))
  | .broken stop _ => .error stop.skipped
  | _ => .ok ()
where
  skipItems : List Draft → Except Fault Unit
    | [] => .ok ()
    | item :: rest => do skip item; skipItems rest
  skipMembers : List (Key × Draft) → Except Fault Unit
    | [] => .ok ()
    | (key, value) :: rest => do stopped key.literal.stop; skip value; skipMembers rest

def tooDeep (span : Span) : Fault := ⟨.tooDeep, .past span.here⟩

/-- The value of a draft whose containers nest no deeper than allowed. Of a repeated key the last
value stands, in the place of the first. -/
def toJson (allowance : Nat) : Draft → Except Fault Json
  | .null _ => .ok .null
  | .bool b _ => .ok (.bool b)
  | .num literal _ => literal.value.map .num
  | .str literal _ => literal.value.map .str
  | .arr items stop span =>
    if allowance = 0 then .error (tooDeep span)
    else do
      let values ← toItems (allowance - 1) items
      stopped (stop.map (·.wanted))
      return .arr values
  | .obj members stop span =>
    if allowance = 0 then .error (tooDeep span)
    else do
      let entries ← toMembers (allowance - 1) [] members
      stopped (stop.map (·.wanted))
      return .obj entries
  | .broken stop _ => .error stop.wanted
where
  toItems (allowance : Nat) : List Draft → Except Fault (List Json)
    | [] => .ok []
    | item :: rest => do
      let value ← toJson allowance item
      return value :: (← toItems allowance rest)
  toMembers (allowance : Nat) (entries : Entries Json) :
      List (Key × Draft) → Except Fault (Entries Json)
    | [] => .ok entries
    | (key, value) :: rest => do
      let key ← key.literal.value
      let value ← toJson allowance value
      toMembers allowance (entries.insert key value) rest

end Draft

namespace Document

def ofText (text : String) : Document := Draft.build (tokens text) .value []

def nesting : Nat := 127

end Document

def parse (text : String) : Except Fault Json := do
  let document := Document.ofText text
  let value ← document.body.toJson Document.nesting
  Draft.stopped document.trailing
  return value

end Wireform.Json
