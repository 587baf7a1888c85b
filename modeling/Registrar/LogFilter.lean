import Registrar.Text.Blank
import Registrar.Text.Numeral
import Registrar.Text.Split
set_option autoImplicit false

namespace Registrar.LogFilter

inductive Fault where
  | malformed
  | unknownLevel
  deriving DecidableEq, Repr

def Fault.message : Fault → String
  | .malformed => "invalid filter directive"
  | .unknownLevel =>
    "error parsing level filter: expected one of \"off\", \"error\", \"warn\", \"info\", " ++
      "\"debug\", \"trace\", or a number 0-5"

def levels : List String := ["off", "error", "warn", "info", "debug", "trace"]

def isLevel (cs : List Char) : Bool :=
  levels.contains (String.ofList (cs.map Char.toLower)) ||
    match Numeral.nat64 cs with
    | .ok n => n < levels.length
    | .error _ => false

/-- The level after an equals sign, which may be left out. A directive with a level has to be bare:
no blank may stand around it. -/
def levelFault? (bare : Bool) (cs : List Char) : Option Fault :=
  if bare ∧ (cs = [] ∨ isLevel cs) then none else some .unknownLevel

def afterSpan (bare : Bool) : List Char → Option Fault
  | [] => none
  | '=' :: cs => levelFault? bare cs
  | _ => some .malformed

/-- Fields, one character at least, up to the braces and brackets that close them. -/
def fieldsFault? (bare : Bool) (cs : List Char) : Option Fault :=
  match cut (· == '\x7d') cs with
  | (_ :: _, some (']' :: rest)) => afterSpan bare rest
  | _ => some .malformed

def spanFault? (bare : Bool) : List Char → Option Fault
  | [] => some .malformed
  | ']' :: cs => afterSpan bare cs
  | '\x7b' :: cs => fieldsFault? bare cs
  | _ :: cs => spanFault? bare cs

/-- A target after its first character. What is no level by itself is a target. -/
def targetFault? (bare : Bool) : List Char → Option Fault
  | [] => none
  | '=' :: cs => levelFault? bare cs
  | '[' :: cs => spanFault? bare cs
  | _ :: cs => targetFault? bare cs

def isTargetStart (c : Char) : Bool :=
  c.isAlphanum || c == '_' || c == ':' || c == '-' || 127 < c.toNat

def trimmed (cs : List Char) : List Char :=
  ((cs.dropWhile isBlank).reverse.dropWhile isBlank).reverse

def directiveFault? (cs : List Char) : Option Fault :=
  let bare := trimmed cs = cs
  match trimmed cs with
  | [] => some .malformed
  | '[' :: rest => spanFault? bare rest
  | c :: rest => if isTargetStart c then targetFault? bare rest else some .malformed

/-- What is wrong with the first directive that is not well formed. Empty ones do not matter. -/
def fault? (s : String) : Option Fault :=
  ((stretches (· == ',') s.toList).filter (!·.isEmpty)).findSome? directiveFault?

end Registrar.LogFilter
