set_option autoImplicit false

namespace Registrar

def isBlank (c : Char) : Bool :=
  let n := c.toNat
  (9 ≤ n && n ≤ 13) || n == 0x20 || n == 0x85 || n == 0xA0 || n == 0x1680 ||
    (0x2000 ≤ n && n ≤ 0x200A) || n == 0x2028 || n == 0x2029 || n == 0x202F || n == 0x205F ||
    n == 0x3000

/-- The words of a text, each read backwards into the accumulator. -/
def wordsFrom (word : List Char) : List Char → List String
  | [] => if word = [] then [] else [String.ofList word.reverse]
  | c :: cs =>
    if isBlank c then
      if word = [] then wordsFrom [] cs else String.ofList word.reverse :: wordsFrom [] cs
    else wordsFrom (c :: word) cs

def words (s : String) : List String := wordsFrom [] s.toList

end Registrar
