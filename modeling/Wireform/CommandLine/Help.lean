import Wireform.CommandLine.Parser
import Wireform.Text.Terminal

set_option autoImplicit false

namespace Wireform.CommandLine

def program : String := "protowire"

def version : String := program ++ " 0.4.0"

namespace Help

def about : Option Command → String
  | none => "Annotation-driven JSON wire encoding for protobuf schemas"
  | some command => command.meaning

def usage : Option Command → String
  | none => program ++ " [OPTIONS] <COMMAND>"
  | some command =>
    let (places, options) := command.required.partition fun p => p.shape == .positional
    " ".intercalate ([program, command.name, "[OPTIONS]"] ++ (options ++ places).map Parameter.text)

def lineWidth : Nat := 100

def glossary (entries : List (String × String)) : String :=
  let widest := (entries.map (·.1.length)).foldl max 0
  let taken := widest + 12
  let wraps :=
    2 * lineWidth < 5 * taken && entries.any fun entry => lineWidth < taken + entry.2.length
  String.join (entries.map fun (term, meaning) =>
    if wraps then "  " ++ term ++ "\n" ++ "          " ++ meaning ++ "\n"
    else
      "  " ++ term ++ String.ofList (List.replicate (widest - term.length + 2) ' ') ++ meaning
        ++ "\n")

def option (p : Parameter) : String × String :=
  let letter :=
    match p.letter? with
    | some c => "-" ++ String.singleton c ++ ", "
    | none => "    "
  let meaning :=
    match p.default? with
    | some value => p.meaning ++ " [default: " ++ value ++ "]"
    | none => p.meaning
  (letter ++ p.text, meaning)

def group (title : String) : List (String × String) → String
  | [] => ""
  | entries => "\n" ++ title ++ ":\n" ++ glossary entries

def commands : List (String × String) :=
  Command.all.map (fun command => (command.name, command.meaning))
    ++ [("help", "Print this message or the help of the given subcommand(s)")]

def text (context : Option Command) : String :=
  let (places, options) := (Command.parameters context).partition fun p => p.shape == .positional
  about context ++ "\n\nUsage: " ++ usage context ++ "\n"
    ++ group "Commands" (if context.isNone then commands else [])
    ++ group "Arguments" (places.map fun p => (p.text, p.meaning))
    ++ group "Options" (options.map option)

end Help

namespace Misuse

def wrong (text : String) : String := "'" ++ Terminal.styled 33 text ++ "'"

def literal (text : String) : String := "'" ++ Terminal.styled 1 text ++ "'"

def message : Misuse → String
  | .unexpected argument => "unexpected argument " ++ wrong argument ++ " found"
  | .unknownCommand name => "unrecognized subcommand " ++ wrong name
  | .noArguments | .noCommand =>
    wrong program ++ " requires a subcommand but one was not provided"
  | .missing _ => "the following required arguments were not provided:"
  | .repeated p => "the argument " ++ wrong p.text ++ " cannot be used multiple times"
  | .noValue p => "a value is required for " ++ wrong p.text ++ " but none was supplied"
  | .unneededValue p value =>
    "unexpected value " ++ wrong value ++ " for " ++ literal p.text
      ++ " found; no more were expected"
  | .invalidValue p value reason =>
    "invalid value " ++ wrong value ++ " for " ++ literal p.text ++ ": " ++ reason

def details : Misuse → String
  | .missing parameters => String.join (parameters.map fun p => "  " ++ p.text ++ "\n")
  | .noCommand => "  [subcommands: " ++ ", ".intercalate (Help.commands.map (·.1)) ++ "]\n"
  | _ => ""

def text : Misuse → String
  | .noArguments => Help.text none
  | misuse =>
    Terminal.plain (Terminal.styled 31 "error:" ++ " " ++ misuse.message ++ "\n" ++ misuse.details
      ++ "\nFor more information, try " ++ literal "--help" ++ ".\n")

end Misuse

end Wireform.CommandLine
