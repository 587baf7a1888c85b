import Registrar.Text.Numeral
set_option autoImplicit false

namespace Registrar

inductive Json where
  | null
  | bool (value : Bool)
  | number (text : String)
  | text (value : String)
  | list (items : List Json)
  | object (fields : List (String × Json))
  deriving Repr, Inhabited

namespace Json

def int (n : Int) : Json := .number (String.ofList (Numeral.signed n))

def nat (n : Nat) : Json := int n

def field? (name : String) : Json → Option Json
  | .object fields => (fields.find? fun f => f.1 == name).map (·.2)
  | _ => none

def text? : Json → Option String
  | .text s => some s
  | _ => none

def bool? : Json → Option Bool
  | .bool b => some b
  | _ => none

def list? : Json → Option (List Json)
  | .list items => some items
  | _ => none

def int? : Json → Option Int
  | .number s => Numeral.int? s.toList
  | _ => none

def nat? (j : Json) : Option Nat := j.int?.map Int.toNat

def hexDigit (n : Nat) : Char := (Nat.digitChar (n % 16))

/-- Quotes, backslashes and control characters are escaped, all else stands for itself. -/
def escaped : Char → List Char
  | '"' => ['\\', '"']
  | '\\' => ['\\', '\\']
  | '\n' => ['\\', 'n']
  | '\r' => ['\\', 'r']
  | '\t' => ['\\', 't']
  | '\x08' => ['\\', 'b']
  | '\x0c' => ['\\', 'f']
  | c => if c.toNat < 32 then ['\\', 'u', '0', '0', hexDigit (c.toNat / 16), hexDigit c.toNat]
    else [c]

def quoted (s : String) : String :=
  String.ofList ('"' :: s.toList.flatMap escaped ++ ['"'])

mutual

def compact : Json → String
  | .null => "null"
  | .bool b => if b then "true" else "false"
  | .number s => s
  | .text s => quoted s
  | .list items => "[" ++ ",".intercalate (compactItems items) ++ "]"
  | .object fields => "\x7b" ++ ",".intercalate (compactFields fields) ++ "\x7d"

def compactItems : List Json → List String
  | [] => []
  | j :: js => compact j :: compactItems js

def compactFields : List (String × Json) → List String
  | [] => []
  | (name, j) :: fs => (quoted name ++ ":" ++ compact j) :: compactFields fs

end

def margin (depth : Nat) : String := String.ofList (List.replicate (2 * depth) ' ')

/-- Parts on lines of their own between two brackets; without parts the brackets touch. -/
def block (opening closing : String) (depth : Nat) : List String → String
  | [] => opening ++ closing
  | parts => opening ++ "\n" ++ ",\n".intercalate (parts.map (margin (depth + 1) ++ ·)) ++
      "\n" ++ margin depth ++ closing

mutual

def indented (depth : Nat) : Json → String
  | .list items => block "[" "]" depth (indentedItems (depth + 1) items)
  | .object fields => block "\x7b" "\x7d" depth (indentedFields (depth + 1) fields)
  | .null => "null"
  | .bool b => if b then "true" else "false"
  | .number s => s
  | .text s => quoted s

def indentedItems (depth : Nat) : List Json → List String
  | [] => []
  | j :: js => indented depth j :: indentedItems depth js

def indentedFields (depth : Nat) : List (String × Json) → List String
  | [] => []
  | (name, j) :: fs => (quoted name ++ ": " ++ indented depth j) :: indentedFields depth fs

end

def pretty (j : Json) : String := indented 0 j

def skipBlanks : List Char → List Char
  | ' ' :: cs | '\n' :: cs | '\t' :: cs | '\r' :: cs => skipBlanks cs
  | cs => cs

def hexValue? (c : Char) : Option Nat :=
  if c.isDigit then some (c.toNat - 48)
  else if 'a' ≤ c ∧ c ≤ 'f' then some (c.toNat - 87)
  else if 'A' ≤ c ∧ c ≤ 'F' then some (c.toNat - 55)
  else none

def unit? (a b c d : Char) : Option Nat := do
  pure (((← hexValue? a) * 16 + (← hexValue? b)) * 256 + (← hexValue? c) * 16 + (← hexValue? d))

def simpleEscape? : Char → Option Char
  | '"' => some '"'
  | '\\' => some '\\'
  | '/' => some '/'
  | 'b' => some '\x08'
  | 'f' => some '\x0c'
  | 'n' => some '\n'
  | 'r' => some '\r'
  | 't' => some '\t'
  | _ => none

/-- The rest of a text after its opening quote. Two escaped halves of a surrogate pair make one
character, and a half that stands alone is refused. -/
def textTail (acc : List Char) : List Char → Option (String × List Char)
  | '"' :: cs => some (String.ofList acc.reverse, cs)
  | '\\' :: 'u' :: a :: b :: c :: d :: cs =>
    match unit? a b c d with
    | none => none
    | some hi =>
      if hi < 0xD800 ∨ 0xDFFF < hi then textTail (Char.ofNat hi :: acc) cs
      else if 0xDC00 ≤ hi then none
      else match cs with
        | '\\' :: 'u' :: e :: f :: g :: h :: cs =>
          match unit? e f g h with
          | none => none
          | some lo =>
            if 0xDC00 ≤ lo ∧ lo ≤ 0xDFFF then
              textTail (Char.ofNat (0x10000 + (hi - 0xD800) * 0x400 + (lo - 0xDC00)) :: acc) cs
            else none
        | _ => none
  | '\\' :: c :: cs =>
    match simpleEscape? c with
    | some d => textTail (d :: acc) cs
    | none => none
  | c :: cs => if c.toNat < 32 then none else textTail (c :: acc) cs
  | [] => none

def digits1 (cs : List Char) : Option (List Char × List Char) :=
  match cs.span Char.isDigit with
  | ([], _) => none
  | r => some r

/-- No leading zeros, no plus sign, digits on both sides of a point. -/
def numeral (cs : List Char) : Option (List Char × List Char) := do
  let (sign, cs) := match cs with
    | '-' :: r => (['-'], r)
    | r => ([], r)
  let (whole, cs) ← digits1 cs
  if whole.length > 1 ∧ whole.head? = some '0' then none
  let (frac, cs) ← match cs with
    | '.' :: r => (digits1 r).map fun (d, r) => ('.' :: d, r)
    | r => some ([], r)
  let (expo, cs) ← match cs with
    | e :: r =>
      if e = 'e' ∨ e = 'E' then
        match r with
        | '+' :: r => (digits1 r).map fun (d, r) => (e :: '+' :: d, r)
        | '-' :: r => (digits1 r).map fun (d, r) => (e :: '-' :: d, r)
        | r => (digits1 r).map fun (d, r) => (e :: d, r)
      else some ([], e :: r)
    | [] => some ([], [])
  pure (sign ++ whole ++ frac ++ expo, cs)

/-- Items parted by commas up to the closing bracket; the first count bounds the number of items. -/
def itemsTail {α : Type} (item : List Char → Option (α × List Char)) (closing : Char) :
    Nat → List α → List Char → Option (List α × List Char)
  | 0, _, _ => none
  | n + 1, acc, cs => do
    let (a, cs) ← item (skipBlanks cs)
    match skipBlanks cs with
    | ',' :: cs => itemsTail item closing n (a :: acc) cs
    | c :: cs => if c = closing then pure ((a :: acc).reverse, cs) else none
    | [] => none

def items {α : Type} (item : List Char → Option (α × List Char)) (closing : Char)
    (cs : List Char) : Option (List α × List Char) :=
  match skipBlanks cs with
  | c :: r => if c = closing then some ([], r) else itemsTail item closing cs.length [] cs
  | [] => none

def member (value : List Char → Option (Json × List Char)) :
    List Char → Option ((String × Json) × List Char)
  | '"' :: cs => do
    let (name, cs) ← textTail [] cs
    match skipBlanks cs with
    | ':' :: cs =>
      let (j, cs) ← value (skipBlanks cs)
      pure ((name, j), cs)
    | _ => none
  | _ => none

def valueAt : Nat → List Char → Option (Json × List Char)
  | _, 'n' :: 'u' :: 'l' :: 'l' :: cs => some (.null, cs)
  | _, 't' :: 'r' :: 'u' :: 'e' :: cs => some (.bool true, cs)
  | _, 'f' :: 'a' :: 'l' :: 's' :: 'e' :: cs => some (.bool false, cs)
  | _, '"' :: cs => (textTail [] cs).map fun (s, r) => (.text s, r)
  | d + 1, '[' :: cs => (items (valueAt d) ']' cs).map fun (js, r) => (.list js, r)
  | d + 1, '\x7b' :: cs => (items (member (valueAt d)) '\x7d' cs).map fun (fs, r) => (.object fs, r)
  | _, cs => (numeral cs).map fun (s, r) => (.number (String.ofList s), r)

/-- The whole text is one value with blanks around it; lists and objects nest 127 deep at most. -/
def parse? (s : String) : Option Json :=
  match valueAt 127 (skipBlanks s.toList) with
  | some (j, cs) => if skipBlanks cs = [] then some j else none
  | none => none

end Json

end Registrar
