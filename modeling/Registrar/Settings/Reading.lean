import Registrar.Settings
import Registrar.Settings.Tree
import Registrar.Text.Quoted
set_option autoImplicit false

namespace Registrar

/-- Why there are no settings. Paths lead to a field from the outside in. -/
inductive SettingsError where
  | noFile (name : String)
  | unknownFormat (name : String)
  | unreadable (name : String)
  | missing (path : List String)
  | wrongType (found expected : String) (path : List String) (file : String)
  | wrongShape (fault : String) (path : List String)
  deriving DecidableEq, Repr

namespace SettingsError

def joined (path : List String) : String := ".".intercalate path

def message : SettingsError → String
  | .noFile name => "configuration file \"" ++ name ++ "\" not found"
  | .unknownFormat name => "configuration file \"" ++ name ++ "\" is not of a registered file format"
  | .unreadable name => "configuration file \"" ++ name ++ "\" could not be parsed"
  | .missing path => "missing configuration field " ++ Quoted.text (joined path)
  | .wrongType found expected path file =>
    "invalid type: " ++ found ++ ", expected " ++ expected ++ " for key \x60" ++ joined path ++
      "\x60 in " ++ file
  | .wrongShape fault path => fault ++ " for key \x60" ++ joined path ++ "\x60"

def inside (name : String) : SettingsError → SettingsError
  | .missing path => .missing (name :: path)
  | .wrongType found expected path file => .wrongType found expected (name :: path) file
  | .wrongShape fault path => .wrongShape fault (name :: path)
  | e => e

/-- A field that is missing at this level is noticed after all else. -/
def comesLate : SettingsError → Bool
  | .missing [_] => true
  | _ => false

end SettingsError

namespace Settings

def called : Tree → String
  | .nil => "unit value"
  | .bool b => "boolean \x60" ++ (if b then "true" else "false") ++ "\x60"
  | .int n => "integer \x60" ++ String.ofList (Numeral.signed n) ++ "\x60"
  | .double d => "floating point \x60" ++ d.text ++ "\x60"
  | .text s => "string " ++ Quoted.text s
  | .list _ => "sequence"
  | .table _ => "map"

/-- The fields of a section, with the name and the size that it should have. -/
structure Section where
  name : String
  size : Nat
  file : String
  content : Tree

namespace Section

def field (s : Section) (place : Nat) (name : String) : Except SettingsError Tree :=
  match s.content with
  | .table fields =>
    match fields.lookup name with
    | some v => .ok v
    | none => .error (.missing [name])
  | .list items =>
    match items[place]? with
    | some v => .ok v
    | none => .error (.wrongShape ("invalid length " ++ String.ofList (Numeral.decimal place) ++
        ", expected struct " ++ s.name ++ " with " ++ String.ofList (Numeral.decimal s.size) ++
        (if s.size = 1 then " element" else " elements")) [])
  | v => .error (.wrongShape ("invalid type: " ++ called v ++ ", expected struct " ++ s.name) [])

def wrongType {α : Type} (s : Section) (v : Tree) (expected name : String) :
    Except SettingsError α := .error (.wrongType (called v) expected [name] s.file)

def word (s : Section) (place : Nat) (name : String) : Except SettingsError UInt64 := do
  let v ← s.field place name
  match v.word? with
  | some n => .ok n
  | none => s.wrongType v "an unsigned 64 bit or less integer" name

def text (s : Section) (place : Nat) (name : String) : Except SettingsError String := do
  let v ← s.field place name
  match v.text? with
  | some t => .ok t
  | none => s.wrongType v "a string" name

end Section

def failure? {α : Type} : Except SettingsError α → Option SettingsError
  | .ok _ => none
  | .error e => some e

/-- A result built from parts, or the part that is reported to have failed. -/
def settle {α : Type} (failures : List (Option SettingsError)) (r : Except SettingsError α) :
    Except SettingsError α :=
  match (failures.filterMap id).find? (!·.comesLate) with
  | some e => .error e
  | none => r

def readAuth (s : Section) : Except SettingsError Auth :=
  let codec := s.text 0 "codec"
  let access := s.word 1 "access_ttl_secs"
  let refresh := s.word 2 "refresh_ttl_secs"
  settle [failure? codec, failure? access, failure? refresh]
    (do pure ⟨← codec, ← access, ← refresh⟩)

def readLocking (s : Section) : Except SettingsError Locking :=
  let lease := s.word 0 "lease_ms"
  let patience := s.word 1 "acquire_timeout_ms"
  let first := s.word 2 "initial_backoff_ms"
  let longest := s.word 3 "max_backoff_ms"
  settle [failure? lease, failure? patience, failure? first, failure? longest]
    (do pure ⟨← lease, ← patience, ← first, ← longest⟩)

def readSequence (s : Section) : Except SettingsError Sequence :=
  let lockName := s.text 0 "lock_name"
  let stem := s.text 1 "counter_prefix"
  settle [failure? lockName, failure? stem] (do pure ⟨← lockName, ← stem⟩)

def readStorage (s : Section) : Except SettingsError Storage :=
  let backend := s.text 0 "backend"
  let address := s.text 1 "redis_dsn"
  let keySpace := s.text 2 "key_prefix"
  settle [failure? backend, failure? address, failure? keySpace]
    (do pure ⟨← backend, ← address, ← keySpace⟩)

def readSection {α : Type} (file : String) (fields : List (String × Tree)) (key name : String)
    (size : Nat) (read : Section → Except SettingsError α) : Except SettingsError α :=
  match fields.lookup key with
  | none => .error (.missing [key])
  | some content => (read ⟨name, size, file, content⟩).mapError (.inside key)

def ofFields (file : String) (fields : List (String × Tree)) : Except SettingsError Settings :=
  let auth := readSection file fields "auth" "Auth" 3 readAuth
  let lock := readSection file fields "lock" "Lock" 4 readLocking
  let log := readSection file fields "log" "Log" 1 (·.text 0 "filter")
  let request := readSection file fields "request" "Request" 1 (·.word 0 "timeout_ms")
  let sequence := readSection file fields "sequence" "Sequence" 2 readSequence
  let store := readSection file fields "store" "Store" 3 readStorage
  settle [failure? auth, failure? lock, failure? log, failure? request, failure? sequence,
      failure? store]
    (do pure ⟨← auth, ← lock, ← log, ← request, ← sequence, ← store⟩)

end Settings

end Registrar
