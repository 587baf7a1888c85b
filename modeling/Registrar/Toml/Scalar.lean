import Registrar.Settings.Tree
import Registrar.Text.Json
import Registrar.Text.Split
import Registrar.Time.Day
import Registrar.Time.Span
set_option autoImplicit false

namespace Registrar.Toml

def skipSpace : List Char → List Char
  | ' ' :: cs | '\t' :: cs => skipSpace cs
  | cs => cs

def lineEnd? : List Char → Option (List Char)
  | '\n' :: cs | '\r' :: '\n' :: cs => some cs
  | _ => none

/-- Control characters stand nowhere but in line ends, the tab excepted. -/
def isControl (c : Char) : Bool := (c.toNat < 32 && c != '\t') || c.toNat == 127

def skipComment : List Char → Option (List Char)
  | '#' :: cs => some (cs.dropWhile (!isControl ·))
  | cs => some cs

/-- The character with a number in hexadecimal digits, if there is one. -/
def scalar? (digits : List Char) : Option Char := do
  let n ← digits.foldlM (fun n c => (Json.hexValue? c).map (16 * n + ·)) 0
  if n < 0xD800 ∨ (0xDFFF < n ∧ n < 0x110000) then some (Char.ofNat n) else none

def escape? : List Char → Option (Char × List Char)
  | 'b' :: cs => some ('\x08', cs)
  | 't' :: cs => some ('\t', cs)
  | 'n' :: cs => some ('\n', cs)
  | 'f' :: cs => some ('\x0c', cs)
  | 'r' :: cs => some ('\r', cs)
  | 'e' :: cs => some ('\x1b', cs)
  | '"' :: cs => some ('"', cs)
  | '\\' :: cs => some ('\\', cs)
  | 'x' :: a :: b :: cs => (scalar? [a, b]).map (·, cs)
  | 'u' :: a :: b :: c :: d :: cs => (scalar? [a, b, c, d]).map (·, cs)
  | 'U' :: a :: b :: c :: d :: e :: f :: g :: h :: cs =>
    (scalar? [a, b, c, d, e, f, g, h]).map (·, cs)
  | _ => none

/-- The rest of a text in double quotes. Each step takes a character at least. -/
def basicTail : Nat → List Char → List Char → Option (String × List Char)
  | 0, _, _ => none
  | _, _, [] => none
  | _, acc, '"' :: cs => some (String.ofList acc.reverse, cs)
  | n + 1, acc, '\\' :: cs => do
    let (c, cs) ← escape? cs
    basicTail n (c :: acc) cs
  | n + 1, acc, c :: cs => if isControl c then none else basicTail n (c :: acc) cs

def literalTail (acc : List Char) : List Char → Option (String × List Char)
  | [] => none
  | '\'' :: cs => some (String.ofList acc.reverse, cs)
  | c :: cs => if isControl c then none else literalTail (c :: acc) cs

def skipLines : List Char → List Char
  | ' ' :: cs | '\t' :: cs | '\n' :: cs | '\r' :: '\n' :: cs => skipLines cs
  | cs => cs

/-- The end of a text in tripled quotes, which may hold two more of them before its end. -/
def tripleEnd? (q : Char) : List Char → Option (List Char × List Char)
  | a :: b :: c :: cs =>
    if a = q ∧ b = q ∧ c = q then
      match cs with
      | d :: e :: cs' =>
        if d = q ∧ e = q then some ([q, q], cs')
        else if d = q then some ([q], e :: cs')
        else some ([], cs)
      | [d] => if d = q then some ([q], []) else some ([], cs)
      | [] => some ([], [])
    else none
  | _ => none

/-- The rest of a text in tripled double quotes. A backslash at the end of a line takes away all
blanks up to the next character. -/
def longBasicTail : Nat → List Char → List Char → Option (String × List Char)
  | 0, _, _ => none
  | n + 1, acc, cs =>
    match tripleEnd? '"' cs, cs with
    | some (quotes, rest), _ => some (String.ofList (acc.reverse ++ quotes), rest)
    | none, [] => none
    | none, '\\' :: cs =>
      match lineEnd? (skipSpace cs) with
      | some rest => longBasicTail n acc (skipLines rest)
      | none =>
        match escape? cs with
        | some (c, rest) => longBasicTail n (c :: acc) rest
        | none => none
    | none, c :: rest =>
      match lineEnd? cs with
      | some rest => longBasicTail n ('\n' :: acc) rest
      | none => if isControl c then none else longBasicTail n (c :: acc) rest

def longLiteralTail : Nat → List Char → List Char → Option (String × List Char)
  | 0, _, _ => none
  | n + 1, acc, cs =>
    match tripleEnd? '\'' cs, cs with
    | some (quotes, rest), _ => some (String.ofList (acc.reverse ++ quotes), rest)
    | none, [] => none
    | none, c :: rest =>
      match lineEnd? cs with
      | some rest => longLiteralTail n ('\n' :: acc) rest
      | none => if isControl c then none else longLiteralTail n (c :: acc) rest

def skipLineEnd (cs : List Char) : List Char := (lineEnd? cs).getD cs

def shortText : List Char → Option (String × List Char)
  | '"' :: cs => basicTail cs.length [] cs
  | '\'' :: cs => literalTail [] cs
  | _ => none

def anyText : List Char → Option (String × List Char)
  | '"' :: '"' :: '"' :: cs => longBasicTail (cs.length + 1) [] (skipLineEnd cs)
  | '\'' :: '\'' :: '\'' :: cs => longLiteralTail (cs.length + 1) [] (skipLineEnd cs)
  | cs => shortText cs

def isBare (c : Char) : Bool := c.isAlphanum || c == '_' || c == '-'

def simpleKey (cs : List Char) : Option (String × List Char) :=
  match cs.span isBare with
  | ([], _) => shortText cs
  | (name, rest) => some (String.ofList name, rest)

def keyPath : Nat → List Char → Option (List String × List Char)
  | 0, _ => none
  | n + 1, cs => do
    let (key, cs) ← simpleKey (skipSpace cs)
    match skipSpace cs with
    | '.' :: cs =>
      let (keys, cs) ← keyPath n cs
      pure (key :: keys, cs)
    | cs => pure ([key], cs)

def digitRun (isDigit : Char → Bool) : List Char → Option (List Char)
  | [] => none
  | [c] => if isDigit c then some [c] else none
  | c :: '_' :: cs => if isDigit c then (digitRun isDigit cs).map (c :: ·) else none
  | c :: cs => if isDigit c then (digitRun isDigit cs).map (c :: ·) else none

def wholeDigits (cs : List Char) : Option (List Char) :=
  (digitRun Char.isDigit cs).filter fun ds => ds.length = 1 || ds.head? != some '0'

def splitSign : List Char → Bool × List Char
  | '-' :: cs => (true, cs)
  | '+' :: cs => (false, cs)
  | cs => (false, cs)

def inRange? (n : Int) : Option Tree :=
  if Numeral.minInt64 ≤ n ∧ n ≤ Numeral.maxInt64 then some (.int n) else none

def isBinary (c : Char) : Bool := c == '0' || c == '1'
def isOctal (c : Char) : Bool := '0' ≤ c && c ≤ '7'
def isHex (c : Char) : Bool := (Json.hexValue? c).isSome

def based (base : Nat) (isDigit : Char → Bool) (cs : List Char) : Option Tree := do
  let ds ← digitRun isDigit cs
  inRange? (ds.foldl (fun n c => base * n + (Json.hexValue? c).getD 0) (0 : Nat))

def integer (cs : List Char) : Option Tree :=
  match cs with
  | '0' :: 'x' :: ds => based 16 isHex ds
  | '0' :: 'o' :: ds => based 8 isOctal ds
  | '0' :: 'b' :: ds => based 2 isBinary ds
  | cs => do
    let (negative, ds) := splitSign cs
    let ds ← wholeDigits ds
    let n : Int := Numeral.value ds
    inRange? (if negative then -n else n)

def exponent : Option (List Char) → Option Int
  | none => some 0
  | some cs => do
    let (negative, ds) := splitSign cs
    let ds ← digitRun Char.isDigit ds
    let n : Int := Numeral.value ds
    some (if negative then -n else n)

def fraction : Option (List Char) → Option (List Char)
  | none => some []
  | some cs => digitRun Char.isDigit cs

/-- A number with a point or an exponent. One beyond the largest is no number. -/
def decimal (cs : List Char) : Option Tree := do
  let (negative, cs) := splitSign cs
  let (mantissa, expo) := cut (fun c => c == 'e' || c == 'E') cs
  let (whole, frac) := cut (· == '.') mantissa
  if expo.isNone ∧ frac.isNone then none
  let whole ← wholeDigits whole
  let frac ← fraction frac
  let power ← exponent expo
  let d := Double.ofDecimal negative (whole ++ frac) (power - frac.length)
  if d.isInfinite then none else some (.double d)

def special (cs : List Char) : Option Tree :=
  let (negative, word) := splitSign cs
  if word = "inf".toList then some (.double (.infinite negative))
  else if word = "nan".toList then some (.double .nan)
  else none

def twoDigits (least most : Nat) : List Char → Option (List Char × List Char)
  | a :: b :: cs =>
    if a.isDigit ∧ b.isDigit ∧ least ≤ Numeral.value [a, b] ∧ Numeral.value [a, b] ≤ most then
      some ([a, b], cs)
    else none
  | _ => none

/-- The given character, and what is read after it. -/
def after {α : Type} (c : Char) (f : List Char → Option (α × List Char)) :
    List Char → Option (α × List Char)
  | d :: cs => if d = c then f cs else none
  | [] => none

def date (cs : List Char) : Option (List Char × List Char) := do
  let year := cs.take 4
  if year.length < 4 ∨ ¬ year.all Char.isDigit then none
  let (month, cs) ← after '-' (twoDigits 1 12) (cs.drop 4)
  let (day, cs) ← after '-' (twoDigits 1 31) cs
  let _ ← Day.ofCivil? (Numeral.value year) (Numeral.value month) (Numeral.value day)
  pure (year ++ '-' :: month ++ '-' :: day, cs)

/-- A part of a second has nine places at most, and is written without zeros at its end. -/
def partOfSecond : List Char → Option (List Char × List Char)
  | '.' :: cs =>
    match cs.span Char.isDigit with
    | ([], _) => none
    | (ds, rest) =>
      let ds := Span.trimZeros (ds.take 9)
      some (if ds = [] then [] else '.' :: ds, rest)
  | cs => some ([], cs)

def seconds : List Char → Option (List Char × List Char)
  | ':' :: cs => do
    let (second, cs) ← twoDigits 0 60 cs
    let (part, cs) ← partOfSecond cs
    pure (':' :: second ++ part, cs)
  | cs => some ([], cs)

def time (cs : List Char) : Option (List Char × List Char) := do
  let (hour, cs) ← twoDigits 0 23 cs
  let (minute, cs) ← after ':' (twoDigits 0 59) cs
  let (second, cs) ← seconds cs
  pure (hour ++ ':' :: minute ++ second, cs)

/-- The distance from UTC; none is shown as positive. -/
def zone : List Char → Option (List Char × List Char)
  | [] => some ([], [])
  | 'Z' :: cs | 'z' :: cs => some (['Z'], cs)
  | sign :: cs => do
    if sign ≠ '+' ∧ sign ≠ '-' then none
    let (hour, cs) ← twoDigits 0 23 cs
    let (minute, cs) ← after ':' (twoDigits 0 59) cs
    let zero := Numeral.value (hour ++ minute) = 0
    pure ((if zero then '+' else sign) :: hour ++ ':' :: minute, cs)

def isTimeMark (c : Char) : Bool := c == 'T' || c == 't' || c == ' '

/-- A date, a time, or both with or without a zone, in their plain form. -/
def moment (cs : List Char) : Option Tree :=
  match date cs with
  | some (d, []) => some (.text (String.ofList d))
  | some (d, c :: cs) =>
    if isTimeMark c then do
      let (t, cs) ← time cs
      let (z, cs) ← zone cs
      if cs = [] then some (.text (String.ofList (d ++ 'T' :: t ++ z))) else none
    else none
  | none =>
    match time cs with
    | some (t, []) => some (.text (String.ofList t))
    | _ => none

def isRunChar (c : Char) : Bool :=
  c.isAlphanum || c == '+' || c == '-' || c == '_' || c == '.' || c == ':'

def startsTime : List Char → Bool
  | ' ' :: a :: b :: _ => a.isDigit && b.isDigit
  | _ => false

/-- A run, with the time that follows a date after one blank. -/
def run (cs : List Char) : List Char × List Char :=
  let (word, rest) := cs.span isRunChar
  if startsTime rest ∧ (date word).map (·.2) = some [] then
    let (more, rest') := (rest.drop 1).span isRunChar
    (word ++ ' ' :: more, rest')
  else (word, rest)

def ofRun (cs : List Char) : Option Tree :=
  if cs = "true".toList then some (.bool true)
  else if cs = "false".toList then some (.bool false)
  else special cs <|> integer cs <|> decimal cs <|> moment cs

def scalar (cs : List Char) : Option (Tree × List Char) :=
  match cs with
  | '"' :: _ | '\'' :: _ => (anyText cs).map fun (s, rest) => (.text s, rest)
  | cs =>
    let (word, rest) := run cs
    (ofRun word).map (·, rest)

end Registrar.Toml
