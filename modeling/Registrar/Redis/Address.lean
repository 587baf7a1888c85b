import Registrar.Text.Numeral
import Registrar.Text.Split
set_option autoImplicit false

namespace Registrar.Redis

inductive AddressFault where
  | malformed
  | noHost
  | badDatabase
  | encrypted
  deriving DecidableEq, Repr

def AddressFault.message : AddressFault → String
  | .malformed => "Redis URL did not parse- InvalidClientConfig"
  | .noHost => "Missing hostname- InvalidClientConfig"
  | .badDatabase => "Invalid database number- InvalidClientConfig"
  | .encrypted => "can't connect with TLS, the feature is not enabled- InvalidClientConfig"

structure Address where
  host : String
  port : Nat
  database : Int
  deriving DecidableEq, Repr

namespace Address

def standardPort : Nat := 6379

def upTo (p : Char → Bool) (cs : List Char) : List Char := cs.takeWhile (!p ·)

def afterLast (c : Char) (cs : List Char) : List Char :=
  (upTo (· == c) cs.reverse).reverse

def readHost (cs : List Char) : Except AddressFault (List Char × Nat) :=
  let inBrackets := cs.head? = some '['
  let host := if inBrackets then upTo (· == ']') cs ++ [']'] else upTo (· == ':') cs
  match cs.drop host.length with
  | [] | [':'] => if host = [] ∧ cs ≠ [] then .error .malformed else .ok (host, standardPort)
  | ':' :: ds =>
    match Numeral.nat? ds with
    | some n => if host = [] ∨ 65535 < n then .error .malformed else .ok (host, n)
    | none => .error .malformed
  | _ => .error .malformed

def trimSlashes (cs : List Char) : List Char :=
  ((cs.dropWhile (· == '/')).reverse.dropWhile (· == '/')).reverse

def readDatabase (cs : List Char) : Except AddressFault Int :=
  match trimSlashes cs with
  | [] => .ok 0
  | ds =>
    match Numeral.int64? ds with
    | some n => .ok n
    | none => .error .badDatabase

def isEnd (c : Char) : Bool := c == '/' || c == '?' || c == '#'

def readPlace (encrypted : Bool) : List Char → Except AddressFault Address
  | '/' :: '/' :: cs => do
    let authority := upTo isEnd cs
    let login := authority.contains '@'
    let (host, port) ← readHost (afterLast '@' authority)
    if host = [] then .error (if login then .malformed else .noHost)
    else if encrypted then .error .encrypted
    else do
      let path := upTo (fun c => c == '?' || c == '#') (cs.drop authority.length)
      let database ← readDatabase path
      .ok ⟨String.ofList host, port, database⟩
  | _ => .error .noHost

def ofText (s : String) : Except AddressFault Address :=
  match cut (· == ':') s.toList with
  | (_, none) => .error .malformed
  | (scheme, some cs) =>
    match String.ofList (scheme.map Char.toLower) with
    | "redis" | "valkey" => readPlace false cs
    | "rediss" | "valkeys" => readPlace true cs
    | _ => .error .malformed

end Address

end Registrar.Redis
