import Registrar.Table
import Registrar.Text.Split
set_option autoImplicit false

namespace Registrar.Scenario

abbrev Saved := Table String (List (String × String))

namespace Saved

def fieldAt (s : Saved) (ref : List Char) : List Char :=
  match cut (· == '.') ref with
  | (name, some field) =>
    match (s.get? (String.ofList name)).bind (·.lookup (String.ofList field)) with
    | some text => text.toList
    | none => []
  | _ => []

/-- Puts the fields of earlier results in the place of references to them. The count bounds the
length of the text. -/
def fillChars (s : Saved) : Nat → List Char → List Char
  | 0, cs => cs
  | _, [] => []
  | n + 1, '$' :: '\x7b' :: cs =>
    match cut (· == '\x7d') cs with
    | (ref, some rest) => fieldAt s ref ++ fillChars s n rest
    | (_, none) => '$' :: '\x7b' :: cs
  | n + 1, c :: cs => c :: fillChars s n cs

def fill (s : Saved) (text : String) : String :=
  String.ofList (fillChars s text.length text.toList)

def keep (s : Saved) (name : Option String) (fields : List (String × String)) : Saved :=
  match name with
  | some name => s.insert name fields
  | none => s

end Saved

end Registrar.Scenario
