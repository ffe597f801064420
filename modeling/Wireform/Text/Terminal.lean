/-!
Text for a terminal, in which control sequences set styles. Where no styles can be shown, the sequences are
left out, and with them all control characters that do not set words apart.
-/

set_option autoImplicit false

namespace Wireform.Terminal

/-- Text in a style by its number. What ends the style also ends a sequence that the text leaves open. -/
def styled (style : Nat) (text : String) : String :=
  "\x1b[" ++ toString style ++ "m" ++ text ++ "\x1b[0m"

inductive Context where
  | text
  | escape
  | escapeBytes
  | control
  | device
  | deviceParameters
  | deviceBytes
  | data
  | command
deriving DecidableEq, Repr

def isBlankControl (n : Nat) : Bool := n == 9 || n == 10 || n == 12 || n == 13

def Context.after (n : Nat) : Context → Context
  | .text => .text
  | .escape =>
    if n < 0x20 || n == 0x7F then .escape
    else if n < 0x30 then .escapeBytes
    else if n == '['.toNat then .control
    else if n == ']'.toNat then .command
    else if n == 'P'.toNat then .device
    else if n == 'X'.toNat || n == '^'.toNat || n == '_'.toNat then .data
    else .text
  | .escapeBytes => if n < 0x30 || n == 0x7F then .escapeBytes else .text
  | .control => if n < 0x40 || n == 0x7F then .control else .text
  | .device =>
    if n < 0x20 || n == 0x7F then .device
    else if n < 0x30 then .deviceBytes
    else if n < 0x40 then .deviceParameters
    else .data
  | .deviceParameters =>
    if n < 0x20 || n == 0x7F then .deviceParameters
    else if n < 0x30 then .deviceBytes
    else if n < 0x3C then .deviceParameters
    else .data
  | .deviceBytes => if n < 0x30 || n == 0x7F then .deviceBytes else .data
  | .data => .data
  | .command => if n == 7 then .text else .command

def step (context : Context) (c : Char) : Context × Bool :=
  let n := c.toNat
  if 128 ≤ n then
    match context with
    | .text => (.text, true)
    | .data => (if (String.utf8EncodeChar c).contains 0x9C then .text else .data, false)
    | context => (context, false)
  else if n = 0x1B then (.escape, false)
  else if n = 0x18 ∨ n = 0x1A then (.text, false)
  else
    match context with
    | .text => (.text, (0x20 ≤ n && n < 0x7F) || isBlankControl n)
    | .escape | .escapeBytes | .control =>
      if isBlankControl n then (.text, true) else (context.after n, false)
    | context => (context.after n, false)

def shown (context : Context) : List Char → List Char
  | [] => []
  | c :: rest =>
    let (next, isShown) := step context c
    if isShown then c :: shown next rest else shown next rest

def plain (text : String) : String := String.ofList (shown .text text.toList)

example : plain (styled 1 "a\x7fb\x1b[3") = "ab" ∧ plain "\x1b]x\n" = "" := by decide +kernel

end Wireform.Terminal
