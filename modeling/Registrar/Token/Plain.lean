import Registrar.Subject
import Registrar.Time.Instant
/-!
Plain tokens: claims written out for all to read, unsigned. The parts are set apart by colons, and
the subject comes last so that it may hold colons of its own.
-/
set_option autoImplicit false

namespace Registrar

structure AccessClaims where
  accessId : String
  refreshId : String
  subject : Subject
  expiry : Instant
  deriving DecidableEq, Repr

structure RefreshClaims where
  refreshId : String
  subject : Subject
  expiry : Instant
  deriving DecidableEq, Repr

inductive TokenRefusal where
  | invalid
  | expired
  deriving DecidableEq, Repr

def TokenRefusal.message : TokenRefusal → String
  | .invalid => "token invalid"
  | .expired => "token expired"

namespace Plain

def accessHead : List Char := "fake-access-token:".toList
def refreshHead : List Char := "fake-refresh-token:".toList

def strip? : List Char → List Char → Option (List Char)
  | [], cs => some cs
  | _ :: _, [] => none
  | h :: hs, c :: cs => if h = c then strip? hs cs else none

def part? : List Char → Option (List Char × List Char)
  | [] => none
  | c :: cs => if c = ':' then some ([], cs) else (part? cs).map fun (p, r) => (c :: p, r)

def expiryChars (t : Instant) : List Char := Numeral.signed t.millis

def readExpiry (now : Instant) (cs : List Char) : Except TokenRefusal Instant :=
  match Numeral.int64? cs >>= Instant.ofMillis? with
  | none => .error .invalid
  | some t => if t ≤ now then .error .expired else .ok t

end Plain

namespace AccessClaims

open Plain

def chars (c : AccessClaims) : List Char :=
  accessHead ++ c.accessId.toList ++ ':' :: c.refreshId.toList ++ ':' :: expiryChars c.expiry ++
    ':' :: c.subject.name.toList

def token (c : AccessClaims) : String := String.ofList c.chars

def ofChars (now : Instant) (cs : List Char) : Except TokenRefusal AccessClaims :=
  match strip? accessHead cs >>= part? with
  | none => .error .invalid
  | some (accessId, cs) =>
    match part? cs with
    | none => .error .invalid
    | some (refreshId, cs) =>
      match part? cs with
      | none => .error .invalid
      | some (expiry, subject) =>
        if accessId = [] ∨ refreshId = [] ∨ subject = [] then .error .invalid
        else (readExpiry now expiry).map fun t =>
          ⟨String.ofList accessId, String.ofList refreshId, ⟨String.ofList subject⟩, t⟩

/-- The claims of a token, if it is well formed and still good. -/
def ofToken (now : Instant) (token : String) : Except TokenRefusal AccessClaims :=
  ofChars now token.toList

end AccessClaims

namespace RefreshClaims

open Plain

def chars (c : RefreshClaims) : List Char :=
  refreshHead ++ c.refreshId.toList ++ ':' :: expiryChars c.expiry ++ ':' :: c.subject.name.toList

def token (c : RefreshClaims) : String := String.ofList c.chars

def ofChars (now : Instant) (cs : List Char) : Except TokenRefusal RefreshClaims :=
  match strip? refreshHead cs >>= part? with
  | none => .error .invalid
  | some (refreshId, cs) =>
    match part? cs with
    | none => .error .invalid
    | some (expiry, subject) =>
      if refreshId = [] ∨ subject = [] then .error .invalid
      else (readExpiry now expiry).map fun t =>
        ⟨String.ofList refreshId, ⟨String.ofList subject⟩, t⟩

def ofToken (now : Instant) (token : String) : Except TokenRefusal RefreshClaims :=
  ofChars now token.toList

end RefreshClaims

end Registrar
