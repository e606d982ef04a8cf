import ComponentGlue.Document
import ComponentGlue.Table
import ComponentGlue.Text

set_option autoImplicit false
set_option relaxedAutoImplicit false

namespace ComponentGlue

namespace Json

open Text (Scan)

def isSpace (c : Char) : Bool := c = ' ' || c = '\t' || c = '\n' || c = '\r'

def skipSpace (s : List Char) : List Char := s.dropWhile isSpace

def scanUnit : Scan Nat
  | a :: b :: c :: d :: rest => (Text.number? 16 [a, b, c, d]).map fun n => (n, rest)
  | _ => none

/-- What follows a backslash. A unit of a surrogate pair needs its partner. -/
def scanEscape : Scan Char
  | '"' :: rest => some ('"', rest)
  | '\\' :: rest => some ('\\', rest)
  | '/' :: rest => some ('/', rest)
  | 'b' :: rest => some ('\x08', rest)
  | 'f' :: rest => some ('\x0c', rest)
  | 'n' :: rest => some ('\n', rest)
  | 'r' :: rest => some ('\r', rest)
  | 't' :: rest => some ('\t', rest)
  | 'u' :: rest => do
    let (high, rest) ← scanUnit rest
    if high < 0xD800 || 0xDFFF < high then return (Char.ofNat high, rest)
    else
      match rest with
      | '\\' :: 'u' :: rest =>
        let (low, rest) ← scanUnit rest
        if high < 0xDC00 && 0xDC00 ≤ low && low ≤ 0xDFFF then
          return (Char.ofNat (0x10000 + (high - 0xD800) * 0x400 + (low - 0xDC00)), rest)
        else none
      | _ => none
  | _ => none

def scanChar (before : List Char) : Scan (List Char)
  | '\\' :: rest => (scanEscape rest).map fun (c, rest) => (c :: before, rest)
  | c :: rest => if c.toNat < 0x20 then none else some (c :: before, rest)
  | [] => none

def closingQuote (_ : List Char) : List Char → Option (List Char)
  | '"' :: rest => some rest
  | _ => none

def scanString : Scan String := fun s =>
  (Scan.foldUntil closingQuote scanChar [] s).map fun (chars, rest) =>
    (String.ofList chars.reverse, rest)

def scanDigits : Scan (List Char) := fun s =>
  match Scan.run Char.isDigit s with
  | ([], _) => none
  | found => some found

def scanNat : Scan Nat := fun s => do
  let (ds, rest) ← scanDigits s
  return (← Text.number? 10 ds, rest)

def scanFraction : Scan (Option (List Char))
  | '.' :: rest => (scanDigits rest).map fun (ds, rest) => (some ds, rest)
  | s => some (none, s)

/-- The exponent, if there is one. -/
def scanExponent : Scan (Option Int)
  | e :: rest =>
    if e = 'e' || e = 'E' then
      match rest with
      | '-' :: rest => (scanNat rest).map fun (n, rest) => (some (-(n : Int)), rest)
      | '+' :: rest => (scanNat rest).map fun (n, rest) => (some (n : Int), rest)
      | rest => (scanNat rest).map fun (n, rest) => (some (n : Int), rest)
    else some (none, e :: rest)
  | [] => some (none, [])

/-- A number without its sign. A whole number is an integer, save for a negative zero. -/
def scanMagnitude (negative : Bool) : Scan Document := fun s => do
  let (whole, rest) ← scanDigits s
  if whole.head? = some '0' && whole.length > 1 then none
  else
    let (fraction, rest) ← scanFraction rest
    let (exponent, rest) ← scanExponent rest
    let decimals := fraction.getD []
    let n : Int := (← Text.number? 10 whole)
    if !Text.inDoubleRange (whole ++ decimals) (exponent.getD 0 - decimals.length) then none
    else if fraction.isNone && exponent.isNone && !(negative && n = 0) then
      return (.int (if negative then -n else n), rest)
    else
      let written := s.take (s.length - rest.length)
      return (.real (String.ofList (if negative then '-' :: written else written)), rest)

def scanNumber : Scan Document
  | '-' :: rest => scanMagnitude true rest
  | s => scanMagnitude false s

def closing {α : Type} (bracket : Char) (_ : α) (s : List Char) : Option (List Char) :=
  match skipSpace s with
  | c :: rest => if c = bracket then some rest else none
  | [] => none

def scanSeparator (first : Bool) (s : List Char) : Option (List Char) :=
  if first then some s
  else
    match skipSpace s with
    | ',' :: rest => some rest
    | _ => none

def scanItem (value : Scan Document) (before : List Document) : Scan (List Document) := fun s => do
  let rest ← scanSeparator before.isEmpty s
  let (v, rest) ← value rest
  return (v :: before, rest)

/-- One field of an object, written into those before it. -/
def scanField (value : Scan Document) (before : List (String × Document)) :
    Scan (List (String × Document)) := fun s => do
  let rest ← scanSeparator before.isEmpty s
  match skipSpace rest with
  | '"' :: rest =>
    let (name, rest) ← scanString rest
    match skipSpace rest with
    | ':' :: rest =>
      let (v, rest) ← value rest
      return (upsert name v before, rest)
    | _ => none
  | _ => none

/-- A value with less than `depth` containers around one another. -/
def scanValue : Nat → Scan Document
  | 0 => fun _ => none
  | depth + 1 => fun s =>
    match skipSpace s with
    | 'n' :: 'u' :: 'l' :: 'l' :: rest => some (.null, rest)
    | 't' :: 'r' :: 'u' :: 'e' :: rest => some (.bool true, rest)
    | 'f' :: 'a' :: 'l' :: 's' :: 'e' :: rest => some (.bool false, rest)
    | '"' :: rest => (scanString rest).map fun (text, rest) => (.str text, rest)
    | '[' :: rest =>
      if depth = 0 then none
      else
        (Scan.foldUntil (closing ']') (scanItem (scanValue depth)) [] rest).map
          fun (items, rest) => (.arr items.reverse, rest)
    | '\x7b' :: rest =>
      if depth = 0 then none
      else
        (Scan.foldUntil (closing '\x7d') (scanField (scanValue depth)) [] rest).map
          fun (fields, rest) => (.obj fields, rest)
    | s => scanNumber s

def depthLimit : Nat := 128

end Json

namespace Document

/-- The document that a JSON text holds. -/
def ofJson? (text : String) : Option Document :=
  match Json.scanValue Json.depthLimit text.toList with
  | some (d, rest) => if (Json.skipSpace rest).isEmpty then some d else none
  | none => none

end Document

end ComponentGlue
