import Wireform.CommandLine.Parameter
import Wireform.Text.Split

set_option autoImplicit false

namespace Wireform.CommandLine

inductive Misuse where
  | unexpected (argument : String)
  | unknownCommand (name : String)
  | noArguments
  | noCommand
  | missing (parameters : List Parameter)
  | repeated (parameter : Parameter)
  | noValue (parameter : Parameter)
  | unneededValue (parameter : Parameter) (value : String)
  | invalidValue (parameter : Parameter) (value reason : String)
deriving DecidableEq, Repr

inductive Stop where
  | misuse (misuse : Misuse)
  | help (command : Option Command)
  | version
deriving DecidableEq, Repr

def refuse {α : Type} (misuse : Misuse) : Except Stop α := .error (.misuse misuse)

abbrev Given := List (Parameter × String)

namespace Given

def has (given : Given) (p : Parameter) : Bool := given.any (·.1 == p)

def values (given : Given) (p : Parameter) : List String :=
  (given.filter (·.1 == p)).map (·.2)

def value? (given : Given) (p : Parameter) : Option String :=
  (given.values p).head?.or p.default?

def add (given : Given) (p : Parameter) (value : String) : Except Stop Given :=
  if p.shape = .single ∧ given.has p then refuse (.repeated p)
  else if p.isPath ∧ value.isEmpty then refuse (.noValue p)
  else
    match p.fault? value with
    | some reason => refuse (.invalidValue p value reason)
    | none => .ok (given ++ [(p, value)])

def raise (context : Option Command) (given : Given) (p : Parameter) : Except Stop Given :=
  match p with
  | .help => .error (.help context)
  | .version => .error .version
  | p => if p.shape = .flag ∧ given.has p then refuse (.repeated p) else .ok (given ++ [(p, "")])

end Given

structure State where
  given : Given
  /-- The parameter before, with its value if that has come. It is looked at only when the next one
  turns out to be one, so that a word that is no parameter is reported first. -/
  pending : Option (Parameter × Option String)
  places : List Parameter

namespace State

def start (context : Option Command) : State :=
  ⟨[], none, (Command.parameters context).filter fun p => p.shape == .positional⟩

def settle (state : State) : Except Stop Given :=
  match state.pending with
  | none => .ok state.given
  | some (p, none) => refuse (.noValue p)
  | some (p, some value) => state.given.add p value

def option? (context : Option Command) (matching : Parameter → Bool) : Option Parameter :=
  (Command.parameters context).find? fun p => p.shape != .positional && matching p

def long (context : Option Command) (state : State) (name : String) (value : Option String) :
    Except Stop State :=
  match option? context (·.name == name) with
  | none => refuse (.unexpected ("--" ++ name))
  | some p =>
    match p.takesValue, value with
    | true, some value => do return ⟨← (← state.settle).add p value, none, state.places⟩
    | true, none => do return ⟨← state.settle, some (p, none), state.places⟩
    | false, some value => refuse (.unneededValue p value)
    | false, none => do return ⟨← (← state.settle).raise context p, none, state.places⟩

def letter (context : Option Command) (state : State) (c : Char) : Except Stop State :=
  match option? context (·.letter? == some c) with
  | none => refuse (.unexpected ("-" ++ String.singleton c))
  | some p => do return ⟨← (← state.settle).raise context p, none, state.places⟩

def place (state : State) (word : String) : Except Stop State :=
  match state.places with
  | [] => refuse (.unexpected word)
  | p :: others => do return ⟨← state.settle, some (p, some word), others⟩

def word (state : State) (word : String) : Except Stop State :=
  match state.pending with
  | some (p, none) => .ok { state with pending := some (p, some word) }
  | _ => state.place word

end State

inductive Form where
  | divider
  | long (name : String) (value : Option String)
  | letters (cs : List Char)
  | word
deriving DecidableEq, Repr

def formOf (argument : String) : Form :=
  match argument.toList with
  | ['-', '-'] => .divider
  | '-' :: '-' :: name =>
    match Text.cut? '=' (String.ofList name) with
    | some (name, value) => .long name (some value)
    | none => .long (String.ofList name) none
  | '-' :: c :: cs => .letters (c :: cs)
  | _ => .word

def helpOn : Option Command → List String → Stop
  | command, [] => .help command
  | none, name :: rest =>
    if name = "help" then
      match rest with
      | [] => .help none
      | topic :: _ => .misuse (.unknownCommand topic)
    else
      match Command.ofName? name with
      | some command => helpOn (some command) rest
      | none => .misuse (.unknownCommand name)
  | some _, name :: _ => .misuse (.unknownCommand name)

def scan (context : Option Command) (divided : Bool) (state : State) :
    List String → Except Stop (Option Command × Given)
  | [] => do return (context, ← state.settle)
  | argument :: rest =>
    match if divided then Form.word else formOf argument with
    | .divider => scan context true state rest
    | .long name value => do scan context divided (← state.long context name value) rest
    | .letters cs => do scan context divided (← cs.foldlM (State.letter context) state) rest
    | .word =>
      match context, Command.ofName? argument with
      | some _, _ => do
        let next ← if divided then state.place argument else state.word argument
        scan context divided next rest
      | none, some command =>
        if divided then refuse (.unexpected argument)
        else scan (some command) false (State.start (some command)) rest
      | none, none =>
        if argument = "help" ∧ divided = false then .error (helpOn none rest)
        else if argument = "help" then refuse (.unexpected argument)
        else refuse (.unknownCommand argument)

def parse (arguments : List String) : Except Stop (Command × Given) := do
  match ← scan none false (State.start none) arguments with
  | (none, []) => refuse .noArguments
  | (none, _) => refuse .noCommand
  | (some command, given) =>
    match command.required.filter fun p => !given.has p with
    | [] => return (command, given)
    | missing => refuse (.missing missing)

end Wireform.CommandLine
