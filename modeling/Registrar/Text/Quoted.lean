import Registrar.Text.Hidden
import Registrar.Text.Numeral
set_option autoImplicit false

namespace Registrar.Quoted

def escaped : Char → List Char
  | '\x00' => ['\\', '0']
  | '\t' => ['\\', 't']
  | '\r' => ['\\', 'r']
  | '\n' => ['\\', 'n']
  | '"' => ['\\', '"']
  | '\\' => ['\\', '\\']
  | c => if isHidden c then '\\' :: 'u' :: '\x7b' :: Nat.toDigits 16 c.toNat ++ ['\x7d'] else [c]

def text (s : String) : String := String.ofList ('"' :: s.toList.flatMap escaped ++ ['"'])

end Registrar.Quoted
