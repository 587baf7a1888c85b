set_option autoImplicit false

namespace Registrar

/-- What stands before the first separator, and what follows it if there is one. -/
def cut (p : Char → Bool) (cs : List Char) : List Char × Option (List Char) :=
  match cs.span (!p ·) with
  | (before, _ :: rest) => (before, some rest)
  | (before, []) => (before, none)

/-- The stretches between separators, the first read backwards into the accumulator. -/
def stretchesFrom (p : Char → Bool) (acc : List Char) : List Char → List (List Char)
  | [] => [acc.reverse]
  | c :: cs => if p c then acc.reverse :: stretchesFrom p [] cs else stretchesFrom p (c :: acc) cs

def stretches (p : Char → Bool) (cs : List Char) : List (List Char) := stretchesFrom p [] cs

end Registrar
