import Registrar.Settings.Reading
import Registrar.Text.Quantity
import Registrar.Text.Split
import Registrar.Toml.Document
/-!
Settings files: how a name leads to a file, and the two formats. A name leads to the file of that
very name, whose extension gives the format, or else to one with an extension added to it.
-/
set_option autoImplicit false

namespace Registrar

abbrev Files := List (String × String)

namespace Settings

inductive Format where
  | toml
  | json
  deriving DecidableEq, Repr

def Format.suffix : Format → String
  | .toml => "toml"
  | .json => "json"

def formats : List Format := [.toml, .json]

def parts (path : String) : List String := (stretches (· == '/') path.toList).map String.ofList

/-- Follows the parts down from the directory given, innermost first; nothing outside is known. -/
def follow : List String → List String → Option (List String)
  | dir, [] => some dir.reverse
  | dir, "" :: ps | dir, "." :: ps => follow dir ps
  | _ :: dir, ".." :: ps => follow dir ps
  | [], ".." :: _ => none
  | dir, p :: ps => follow (p :: dir) ps

/-- A path in its plain form; one that begins with a slash leads elsewhere. -/
def plain? (path : String) : Option (List String) :=
  if path.toList.head? = some '/' then none else follow [] (parts path)

def endsAsDirectory (path : String) : Bool :=
  match (parts path).getLast? with
  | some last => last == "" || last == "." || last == ".."
  | none => true

def content? (files : Files) (path : List String) : Option String :=
  (files.find? fun (name, _) => plain? name == some path).map (·.2)

/-- What follows the last point of a name, unless the name has no other character before it. -/
def extension? (name : String) : Option String :=
  match cut (· == '.') name.toList.reverse with
  | (ext, some (_ :: _)) => some (String.ofList ext.reverse)
  | _ => none

def formatOf? (path : List String) : Option Format :=
  path.getLast? >>= extension? >>= fun ext => formats.find? fun f => f.suffix == ext

def extended (f : Format) : List String → Option (List String)
  | [] => none
  | [p] => some [p ++ "." ++ f.suffix]
  | p :: ps => (extended f ps).map (p :: ·)

def findExtended (files : Files) (path : List String) : List Format → Option (Format × String)
  | [] => none
  | f :: fs =>
    match extended f path >>= content? files with
    | some text => some (f, text)
    | none => findExtended files path fs

def candidates (name : String) : List (List String) :=
  match plain? name with
  | none => []
  | some path => path :: formats.filterMap (extended · path)

def find (files : Files) (name : String) : Except SettingsError (Format × String) :=
  match plain? name with
  | none => .error (.noFile name)
  | some path =>
    match if endsAsDirectory name then none else content? files path with
    | some text =>
      match formatOf? path with
      | some f => .ok (f, text)
      | none => .error (.unknownFormat name)
    | none =>
      match findExtended files path formats with
      | some found => .ok found
      | none => .error (.noFile name)

def lastOnly : List (String × Tree) → List (String × Tree)
  | [] => []
  | (k, v) :: fs => if fs.any (·.1 == k) then lastOnly fs else (k, v) :: lastOnly fs

mutual

def treeOf? : Json → Option Tree
  | .null => some .nil
  | .bool b => some (.bool b)
  | .text s => some (.text s)
  | .number s => (Quantity.ofNumeral? s).map fun
    | .int n => .int n
    | .double d => .double d
  | .list items => (treesOf? items).map .list
  | .object fields => (fieldsOf? fields).map fun fs => .table (lastOnly fs)

def treesOf? : List Json → Option (List Tree)
  | [] => some []
  | j :: js => do pure ((← treeOf? j) :: (← treesOf? js))

def fieldsOf? : List (String × Json) → Option (List (String × Tree))
  | [] => some []
  | (k, j) :: fs => do pure ((k, ← treeOf? j) :: (← fieldsOf? fs))

end

/-- A mark at the beginning that gives the order of bytes says nothing here. -/
def withoutMark (s : String) : String :=
  match s.toList with
  | '\uFEFF' :: cs => String.ofList cs
  | cs => String.ofList cs

def Format.read? (f : Format) (s : String) : Option (List (String × Tree)) :=
  match f with
  | .toml => Toml.parse? (withoutMark s)
  | .json =>
    match Json.parse? (withoutMark s) >>= treeOf? with
    | some (.table fields) => some fields
    | _ => none

def isNameChar (c : Char) : Bool := c.isAlphanum || c == '_' || c == '-'

/-- The parts of a name between points, if it is made of such parts; else the name itself. -/
def pathOf (name : String) : List String :=
  let ps := (stretches (· == '.') name.toList).map String.ofList
  if ps.all fun p => p ≠ "" && p.toList.all isNameChar then ps else [name]

def fieldsOf : Option Tree → List (String × Tree)
  | some (.table fs) => fs
  | _ => []

def putField (name : String) (v : Tree) : List (String × Tree) → List (String × Tree)
  | [] => [(name, v)]
  | (k, w) :: fs => if k = name then (k, v) :: fs else (k, w) :: putField name v fs

mutual

def setField (name : String) : Tree → List (String × Tree) → List (String × Tree)
  | .table fs, root => putField name (.table (setFields fs (fieldsOf (root.lookup name)))) root
  | v, root => putField name v root

def setFields : List (String × Tree) → List (String × Tree) → List (String × Tree)
  | [], root => root
  | (k, v) :: fs, root => setFields fs (setField k v root)

end

def setAt : List String → Tree → List (String × Tree) → List (String × Tree)
  | [], _, root => root
  | [k], v, root => setField k v root
  | k :: ks, v, root => putField k (.table (setAt ks v (fieldsOf (root.lookup k)))) root

def spread : List (String × Tree) → List (String × Tree) → List (String × Tree)
  | [], root => root
  | (name, v) :: fs, root => spread fs (setAt (pathOf name) v root)

def load (files : Files) (name : String) : Except SettingsError Settings := do
  let (f, text) ← find files name
  match f.read? text with
  | none => .error (.unreadable name)
  | some fields => ofFields name (spread fields [])

def standardName : String := "settings/dev.toml"

end Settings

end Registrar
