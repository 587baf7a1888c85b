import Registrar.Text.Json
set_option autoImplicit false

namespace Registrar

structure Subject where
  name : String
  deriving DecidableEq, Repr

namespace Subject

def ofJson? (s : String) : Option Subject := (Json.parse? s >>= Json.text?).map Subject.mk

def json (s : Subject) : Json := .text s.name

/-- By code points, which is also the order of the UTF-8 forms. -/
def le (a b : Subject) : Bool := decide (a.name ≤ b.name)

def sort (ss : List Subject) : List Subject := ss.mergeSort le

end Subject

end Registrar
