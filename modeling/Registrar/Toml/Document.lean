import Registrar.Toml.Scalar
set_option autoImplicit false

namespace Registrar.Toml

/-- How a table has come about: on the way to another header, through a key with points, or by a
header of its own. -/
inductive Origin where
  | passing
  | dotted
  | header
  deriving DecidableEq, Repr

/-- The items of a list of tables have the last first. -/
inductive Node where
  | value (v : Tree)
  | table (origin : Origin) (fields : List (String × Node))
  | tables (items : List (List (String × Node)))
  deriving Inhabited

abbrev Fields := List (String × Node)

/-- Puts a node in the place of the one of that name, or at the end. -/
def put (name : String) (node : Node) : Fields → Fields
  | [] => [(name, node)]
  | (k, v) :: fs => if k = name then (k, node) :: fs else (k, v) :: put name node fs

/-- Changes the table at the end of a path. Tables that are not there yet are made on the way; in a
list of tables the last one is meant. A key with points does not lead through a table that has a
header. -/
def within (dotted : Bool) (f : Origin → Fields → Option (Origin × Fields)) :
    List String → Origin → Fields → Option (Origin × Fields)
  | [], o, fs => f o fs
  | k :: ks, o, fs =>
    match fs.lookup k with
    | none => do
      let (o', fs') ← within dotted f ks (if dotted then .dotted else .passing) []
      pure (o, put k (.table o' fs') fs)
    | some (.value _) | some (.tables []) => none
    | some (.tables (last :: items)) => do
      let (_, fs') ← within dotted f ks .header last
      pure (o, put k (.tables (fs' :: items)) fs)
    | some (.table o' fs') => do
      if dotted ∧ o' = .header then none
      let (o', fs') ← within dotted f ks o' fs'
      pure (o, put k (.table o' fs') fs)

/-- A new field. Only a key with points adds to a table that came about through one. -/
def addValue (viaPath : Bool) (name : String) (v : Tree) (o : Origin) (fs : Fields) :
    Option (Origin × Fields) :=
  if (o = .dotted) = viaPath ∧ (fs.lookup name).isNone then some (o, put name (.value v) fs)
  else none

def splitLast : List String → Option (List String × String)
  | [] => none
  | [k] => some ([], k)
  | k :: ks => (splitLast ks).map fun (front, last) => (k :: front, last)

def assign (path : List String) (v : Tree) (o : Origin) (fs : Fields) : Option (Origin × Fields) :=
  do
  let (front, last) ← splitLast path
  within true (addValue (!front.isEmpty) last v) front o fs

def openTable (name : String) (o : Origin) (fs : Fields) : Option (Origin × Fields) :=
  match fs.lookup name with
  | none => some (o, put name (.table .header []) fs)
  | some (.table .passing fs') => some (o, put name (.table .header fs') fs)
  | _ => none

def openItem (name : String) (o : Origin) (fs : Fields) : Option (Origin × Fields) :=
  match fs.lookup name with
  | none => some (o, put name (.tables [[]]) fs)
  | some (.tables items) => some (o, put name (.tables ([] :: items)) fs)
  | _ => none

mutual

def Node.tree : Node → Tree
  | .value v => v
  | .table _ fs => .table (fieldTrees fs)
  | .tables items => .list (itemTrees items).reverse

def fieldTrees : List (String × Node) → List (String × Tree)
  | [] => []
  | (k, n) :: fs => (k, n.tree) :: fieldTrees fs

def itemTrees : List (List (String × Node)) → List Tree
  | [] => []
  | fs :: rest => .table (fieldTrees fs) :: itemTrees rest

end

/-- Blanks, line ends and comments between items or pairs; the count bounds the comments. -/
def skipGap : Nat → List Char → List Char
  | 0, cs => cs
  | n + 1, cs =>
    match skipLines cs with
    | '#' :: rest => skipGap n (rest.dropWhile (!isControl ·))
    | rest => rest

/-- Items up to the closing bracket; the count bounds their number. -/
def itemsTail (value : List Char → Option (Tree × List Char)) :
    Nat → List Tree → List Char → Option (Tree × List Char)
  | 0, _, _ => none
  | n + 1, acc, cs =>
    match skipGap cs.length cs with
    | ']' :: rest => some (.list acc.reverse, rest)
    | cs => do
      let (v, cs) ← value cs
      match skipGap cs.length cs with
      | ',' :: cs => itemsTail value n (v :: acc) cs
      | ']' :: cs => some (.list (v :: acc).reverse, cs)
      | _ => none

def pair (value : List Char → Option (Tree × List Char)) (cs : List Char) :
    Option ((List String × Tree) × List Char) := do
  let (path, cs) ← keyPath cs.length cs
  match cs with
  | '=' :: cs =>
    let (v, cs) ← value (skipSpace cs)
    pure ((path, v), cs)
  | _ => none

def pairsTail (value : List Char → Option (Tree × List Char)) :
    Nat → Fields → List Char → Option (Tree × List Char)
  | 0, _, _ => none
  | n + 1, fs, cs =>
    match skipGap cs.length cs with
    | '\x7d' :: rest => some (.table (fieldTrees fs), rest)
    | cs => do
      let ((path, v), cs) ← pair value cs
      let (_, fs) ← assign path v .header fs
      match skipGap cs.length cs with
      | ',' :: cs => pairsTail value n fs cs
      | '\x7d' :: cs => some (.table (fieldTrees fs), cs)
      | _ => none

/-- A value whose lists and tables nest at most so many levels deep. -/
def valueAt : Nat → List Char → Option (Tree × List Char)
  | d + 1, '[' :: cs => itemsTail (valueAt d) (cs.length + 1) [] cs
  | d + 1, '\x7b' :: cs => pairsTail (valueAt d) (cs.length + 1) [] cs
  | _, cs => scalar cs

def depth : Nat := 80

/-- A document as far as it has been read, and the path of the table that pairs go into. -/
structure Document where
  root : Fields
  current : List String

namespace Document

def change (d : Document) (r : Option (Origin × Fields)) : Option Document :=
  r.map fun (_, fs) => { d with root := fs }

def assign (d : Document) (path : List String) (v : Tree) : Option Document :=
  d.change (within false (Toml.assign path v) d.current .header d.root)

def enter (d : Document) (path : List String)
    (opening : String → Origin → Fields → Option (Origin × Fields)) : Option Document := do
  let (front, last) ← splitLast path
  let d ← d.change (within false (opening last) front .header d.root)
  pure { d with current := path }

end Document

def restOfLine (cs : List Char) : Option (List Char) := do
  match ← skipComment (skipSpace cs) with
  | [] => some []
  | cs => lineEnd? cs

/-- One line, from its first character that is no blank. -/
def line (d : Document) : List Char → Option (Document × List Char)
  | '[' :: '[' :: cs => do
    let (path, cs) ← keyPath cs.length cs
    match cs with
    | ']' :: ']' :: cs => pure (← d.enter path openItem, ← restOfLine cs)
    | _ => none
  | '[' :: cs => do
    let (path, cs) ← keyPath cs.length cs
    match cs with
    | ']' :: cs => pure (← d.enter path openTable, ← restOfLine cs)
    | _ => none
  | cs =>
    if cs = [] ∨ cs.head? = some '#' ∨ (lineEnd? cs).isSome then (restOfLine cs).map (d, ·)
    else do
      let ((path, v), cs) ← pair (valueAt depth) cs
      pure (← d.assign path v, ← restOfLine cs)

def lines : Nat → Document → List Char → Option Document
  | _, d, [] => some d
  | 0, _, _ :: _ => none
  | n + 1, d, cs => do
    let (d, cs) ← line d (skipSpace cs)
    lines n d cs

def parse? (s : String) : Option (List (String × Tree)) :=
  (lines (s.length + 1) ⟨[], []⟩ s.toList).map fun d => fieldTrees d.root

end Registrar.Toml
