import Wireform.Text.Split

set_option autoImplicit false

namespace Wireform.Text

def words (text : String) : List String :=
  (split ' ' (String.ofList (text.toList.map fun c => if c.isAlphanum then c else ' '))).filter
    (!·.isEmpty)

def capitalize (word : String) : String :=
  match word.toList with
  | [] => ""
  | c :: rest => String.ofList (c.toUpper :: rest)

def pascalCase (text : String) : String := String.join ((words text).map capitalize)

end Wireform.Text
