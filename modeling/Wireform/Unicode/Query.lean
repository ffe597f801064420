import Wireform.Unicode.Property
import Wireform.Unicode.Script

set_option autoImplicit false

namespace Wireform.Unicode

inductive Query where
  | any
  | ascii
  | assigned
  | categories (members : List Category)
  | property (p : Property)
  | script (s : Script)
  | usedWith (s : Script)
deriving DecidableEq, Repr, Inhabited

namespace Query

def holds (c : Char) : Query → Bool
  | .any => true
  | .ascii => c.toNat < 128
  | .assigned => Category.of c != .unassigned
  | .categories members => members.contains (.of c)
  | .property p => p.holds c
  | .script s => s.holds c
  | .usedWith s => s.isUsedWith c

/-- Names are compared in this form. What starts with `is` is not taken for `c`. -/
def plainName (name : String) : String :=
  let lower (cs : List Char) : List Char :=
    ((cs.filter fun c => c != ' ' && c != '_' && c != '-' && c.toNat < 128)).map Char.toLower
  match name.toList with
  | first :: second :: rest =>
    if first.toLower = 'i' ∧ second.toLower = 's' then
      String.ofList (if lower rest = ['c'] then "isc".toList else lower rest)
    else String.ofList (lower (first :: second :: rest))
  | cs => String.ofList (lower cs)

def categoryGroups : List (List String × List Category) :=
  let cased : List Category := [.uppercaseLetter, .lowercaseLetter, .titlecaseLetter]
  [(["l", "letter"], Category.group 'L'), (["lc", "casedletter"], cased),
    (["m", "mark", "combiningmark"], Category.group 'M'), (["n", "number"], Category.group 'N'),
    (["p", "punctuation", "punct"], Category.group 'P'), (["s", "symbol"], Category.group 'S'),
    (["z", "separator"], Category.group 'Z'), (["c", "other"], Category.group 'C'),
    (["lu", "uppercaseletter"], [.uppercaseLetter]), (["ll", "lowercaseletter"], [.lowercaseLetter]),
    (["lt", "titlecaseletter"], [.titlecaseLetter]), (["lm", "modifierletter"], [.modifierLetter]),
    (["lo", "otherletter"], [.otherLetter]), (["mn", "nonspacingmark"], [.nonspacingMark]),
    (["mc", "spacingmark"], [.spacingMark]), (["me", "enclosingmark"], [.enclosingMark]),
    (["nd", "decimalnumber", "digit"], [.decimalNumber]), (["nl", "letternumber"], [.letterNumber]),
    (["no", "othernumber"], [.otherNumber]),
    (["pc", "connectorpunctuation"], [.connectorPunctuation]),
    (["pd", "dashpunctuation"], [.dashPunctuation]), (["ps", "openpunctuation"], [.openPunctuation]),
    (["pe", "closepunctuation"], [.closePunctuation]),
    (["pi", "initialpunctuation"], [.initialPunctuation]),
    (["pf", "finalpunctuation"], [.finalPunctuation]),
    (["po", "otherpunctuation"], [.otherPunctuation]), (["sm", "mathsymbol"], [.mathSymbol]),
    (["sc", "currencysymbol"], [.currencySymbol]), (["sk", "modifiersymbol"], [.modifierSymbol]),
    (["so", "othersymbol"], [.otherSymbol]), (["zs", "spaceseparator"], [.spaceSeparator]),
    (["zl", "lineseparator"], [.lineSeparator]), (["zp", "paragraphseparator"], [.paragraphSeparator]),
    (["cc", "control", "cntrl"], [.control]), (["cf", "format"], [.format]),
    (["co", "privateuse"], [.privateUse]), (["cn", "unassigned"], [.unassigned])]

def category? (plain : String) : Option Query :=
  match plain with
  | "any" => some .any
  | "ascii" => some .ascii
  | "assigned" => some .assigned
  | plain => (categoryGroups.find? fun group => group.1.contains plain).map fun group => .categories group.2

def property? (plain : String) : Option Query :=
  let named (p : Property) : Bool :=
    plainName p.name == plain || plainName p.short == plain
      || (p.name == "White_Space" && plain == "space")
  (Property.all.find? named).map .property

def script? (plain : String) : Option Script :=
  Script.all.find? fun s =>
    plainName s.code == plain || plainName s.name == plain
      || s.otherCode?.any fun code => plainName code == plain

def ofName? (name : String) : Option Query :=
  let plain := plainName name
  (property? plain).or ((category? plain).or ((script? plain).map .script))

def ofValue? (property value : String) : Option Query :=
  let value := plainName value
  match plainName property with
  | "gc" | "generalcategory" => category? value
  | "sc" | "script" => (script? value).map .script
  | "scx" | "scriptextensions" => (script? value).map .usedWith
  | _ => none

end Query

end Wireform.Unicode
