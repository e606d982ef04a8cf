import ComponentGlue.Document
import ComponentGlue.Text

set_option autoImplicit false
set_option relaxedAutoImplicit false

namespace ComponentGlue.Toml

section Text

open Text (Scan)

def isBlank (c : Char) : Bool := c = ' ' || c = '\t'

def skipBlanks (s : List Char) : List Char := s.dropWhile isBlank

/-- Characters that may stand in comments and strings: tabs and all that are no control
characters. -/
def isPlain (c : Char) : Bool := c = '\t' || (0x20 ≤ c.toNat && c.toNat ≠ 0x7F)

def after? (c : Char) : List Char → Option (List Char)
  | d :: rest => if d = c then some rest else none
  | [] => none

def afterNewline : List Char → Option (List Char)
  | '\n' :: rest => some rest
  | '\r' :: '\n' :: rest => some rest
  | _ => none

def skipComment : List Char → List Char
  | '#' :: rest => rest.dropWhile isPlain
  | s => s

/-- What follows the end of a line, before which there may be blanks and a comment. The end of the text
ends a line too. -/
def afterLine (s : List Char) : Option (List Char) :=
  match skipComment (skipBlanks s) with
  | [] => some []
  | rest => afterNewline rest

def skipLines (s : List Char) : List Char :=
  let line : Scan Unit := fun s => (afterNewline (skipComment (skipBlanks s))).map ((), ·)
  skipBlanks (Scan.many line s).2

def charOf? (n : Nat) : Option Char :=
  if n < 0xD800 || (0xDFFF < n && n ≤ 0x10FFFF) then some (Char.ofNat n) else none

def scanCode (digits : Nat) : Scan Char := fun s =>
  if (s.take digits).length < digits then none
  else ((Text.number? 16 (s.take digits)).bind charOf?).map fun c => (c, s.drop digits)

/-- What follows a backslash. -/
def scanEscape : Scan Char
  | 'b' :: rest => some ('\x08', rest)
  | 't' :: rest => some ('\t', rest)
  | 'n' :: rest => some ('\n', rest)
  | 'f' :: rest => some ('\x0c', rest)
  | 'r' :: rest => some ('\r', rest)
  | '"' :: rest => some ('"', rest)
  | '\\' :: rest => some ('\\', rest)
  | 'e' :: rest => some ('\x1b', rest)
  | 'x' :: rest => scanCode 2 rest
  | 'u' :: rest => scanCode 4 rest
  | 'U' :: rest => scanCode 8 rest
  | _ => none

def closing (quote : Char) (_ : List Char) : List Char → Option (List Char)
  | c :: rest => if c = quote then some rest else none
  | [] => none

def scanBasicChar (before : List Char) : Scan (List Char)
  | '\\' :: rest => (scanEscape rest).map fun (c, rest) => (c :: before, rest)
  | c :: rest => if isPlain c then some (c :: before, rest) else none
  | [] => none

def scanLiteralChar (before : List Char) : Scan (List Char)
  | c :: rest => if isPlain c then some (c :: before, rest) else none
  | [] => none

def quoteCount (quote : Char) (s : List Char) : Nat := (s.takeWhile (· = quote)).length

def closingRun (quote : Char) (_ : List Char) (s : List Char) : Option (List Char) :=
  if quoteCount quote s = 3 then some (s.drop 3) else none

/-- One character of a string of several lines, where up to two quotes may stand before the closing
ones. -/
def scanRunChar (quote : Char) (char : List Char → Scan (List Char)) (before : List Char) :
    Scan (List Char) := fun s =>
  if quoteCount quote s > 5 then none
  else
    match s with
    | '\n' :: rest => some ('\n' :: before, rest)
    | '\r' :: '\n' :: rest => some ('\n' :: '\r' :: before, rest)
    | _ => char before s

def skipEmptyLines (s : List Char) : List Char :=
  let line : Scan Unit := fun s => (afterNewline (skipBlanks s)).map ((), ·)
  skipBlanks (Scan.many line s).2

/-- One character of a basic string of several lines. A backslash at the end of a line takes all
blanks and line ends after it away. -/
def scanBasicRunChar (before : List Char) : Scan (List Char)
  | '\\' :: rest =>
    match afterNewline (skipBlanks rest) with
    | some rest => some (before, skipEmptyLines rest)
    | none => scanBasicChar before ('\\' :: rest)
  | s => scanBasicChar before s

def skipFirstNewline (s : List Char) : List Char := (afterNewline s).getD s

def scanChars (stop : List Char → List Char → Option (List Char))
    (char : List Char → Scan (List Char)) : Scan String := fun s =>
  (Scan.foldUntil stop char [] s).map fun (chars, rest) => (String.ofList chars.reverse, rest)

def scanLineString : Scan String
  | '"' :: rest => scanChars (closing '"') scanBasicChar rest
  | '\'' :: rest => scanChars (closing '\'') scanLiteralChar rest
  | _ => none

def scanString : Scan String
  | '"' :: '"' :: '"' :: rest =>
    scanChars (closingRun '"') (scanRunChar '"' scanBasicRunChar) (skipFirstNewline rest)
  | '\'' :: '\'' :: '\'' :: rest =>
    scanChars (closingRun '\'') (scanRunChar '\'' scanLiteralChar) (skipFirstNewline rest)
  | s => scanLineString s

end Text

section Moment

open Text (Scan)

def scanFixed (count : Nat) : Scan Nat := fun s =>
  if (s.take count).length < count then none
  else (Text.number? 10 (s.take count)).map fun n => (n, s.drop count)

def padded (count n : Nat) : List Char :=
  let digits := Nat.toDigits 10 n
  List.replicate (count - digits.length) '0' ++ digits

structure Date where
  year : Nat
  month : Nat
  day : Nat

namespace Date

def isLeapYear (year : Nat) : Bool := year % 4 = 0 && (year % 100 ≠ 0 || year % 400 = 0)

def daysIn (year month : Nat) : Nat :=
  if month = 2 then if isLeapYear year then 29 else 28
  else if month = 4 || month = 6 || month = 9 || month = 11 then 30
  else 31

def scan : Scan Date := fun s => do
  let (year, s) ← scanFixed 4 s
  let (month, s) ← scanFixed 2 (← after? '-' s)
  let (day, s) ← scanFixed 2 (← after? '-' s)
  if 1 ≤ month && month ≤ 12 && 1 ≤ day && day ≤ daysIn year month then
    return (⟨year, month, day⟩, s)
  else none

def isWritten (s : List Char) : Bool :=
  match scan s with
  | some (_, rest) => rest.isEmpty
  | none => false

def text (d : Date) : List Char := padded 4 d.year ++ '-' :: padded 2 d.month ++ '-' :: padded 2 d.day

end Date

/-- A time of day; a second that is left out is zero. -/
structure TimeOfDay where
  hour : Nat
  minute : Nat
  second : Nat
  nanosecond : Nat

namespace TimeOfDay

def nanoseconds? (digits : List Char) : Option Nat :=
  if digits.isEmpty then none
  else Text.number? 10 ((digits ++ List.replicate 9 '0').take 9)

def scanFraction : Scan Nat
  | '.' :: rest => do
    return (← nanoseconds? (rest.takeWhile Char.isDigit), rest.dropWhile Char.isDigit)
  | s => some (0, s)

def scanSeconds : Scan (Nat × Nat)
  | ':' :: rest => do
    let (second, s) ← scanFixed 2 rest
    let (nanosecond, s) ← scanFraction s
    return ((second, nanosecond), s)
  | s => some ((0, 0), s)

def scan : Scan TimeOfDay := fun s => do
  let (hour, s) ← scanFixed 2 s
  let (minute, s) ← scanFixed 2 (← after? ':' s)
  let ((second, nanosecond), s) ← scanSeconds s
  if hour ≤ 23 && minute ≤ 59 && second ≤ 60 then return (⟨hour, minute, second, nanosecond⟩, s)
  else none

def fractionText (nanosecond : Nat) : List Char :=
  if nanosecond = 0 then []
  else '.' :: ((padded 9 nanosecond).reverse.dropWhile (· = '0')).reverse

def text (t : TimeOfDay) : List Char :=
  padded 2 t.hour ++ ':' :: padded 2 t.minute ++ ':' :: padded 2 t.second ++ fractionText t.nanosecond

end TimeOfDay

/-- The offset from universal time. -/
inductive Offset where
  | universal
  | minutes (n : Int)

namespace Offset

def scanMinutes : Scan Nat := fun s => do
  let (hour, s) ← scanFixed 2 s
  let (minute, s) ← scanFixed 2 (← after? ':' s)
  if minute ≤ 59 && hour * 60 + minute ≤ 24 * 60 then return (hour * 60 + minute, s)
  else none

/-- An offset, if there is one. -/
def scan : Scan (Option Offset)
  | [] => some (none, [])
  | 'Z' :: rest => some (some .universal, rest)
  | 'z' :: rest => some (some .universal, rest)
  | '+' :: rest => (scanMinutes rest).map fun (n, rest) => (some (.minutes n), rest)
  | '-' :: rest => (scanMinutes rest).map fun (n, rest) => (some (.minutes (-(n : Int))), rest)
  | _ => none

def text : Offset → List Char
  | .universal => ['Z']
  | .minutes n =>
    (if n < 0 then '-' else '+') ::
      (padded 2 (n.natAbs / 60) ++ ':' :: padded 2 (n.natAbs % 60))

end Offset

/-- A date, a time of day, or both with an offset if one is given. -/
inductive Moment where
  | date (d : Date)
  | time (t : TimeOfDay)
  | both (d : Date) (t : TimeOfDay) (offset : Option Offset)

namespace Moment

def isDivider (c : Char) : Bool := c = 'T' || c = 't' || c = ' '

def scanTimed (d : Date) : Scan Moment := fun s => do
  let (t, s) ← TimeOfDay.scan s
  let (offset, s) ← Offset.scan s
  return (.both d t offset, s)

def scan : Scan Moment := fun s =>
  match Date.scan s with
  | some (d, []) => some (.date d, [])
  | some (d, c :: rest) => if isDivider c then scanTimed d rest else none
  | none => (TimeOfDay.scan s).map fun (t, s) => (.time t, s)

def ofText? (s : List Char) : Option Moment :=
  match scan s with
  | some (m, []) => some m
  | _ => none

def text : Moment → List Char
  | .date d => d.text
  | .time t => t.text
  | .both d t none => d.text ++ 'T' :: t.text
  | .both d t (some offset) => d.text ++ 'T' :: t.text ++ offset.text

def fieldName : String := "$__toml_private_datetime"

def toDocument (m : Moment) : Document := .obj [(fieldName, .str (String.ofList m.text))]

end Moment

end Moment

def grouped? (base : Nat) (s : List Char) : Option Nat :=
  let groups := Text.splitAll '_' s
  if groups.any List.isEmpty then none else Text.number? base groups.flatten

def decimal? : List Char → Option Nat
  | ['0'] => some 0
  | '0' :: _ => none
  | s => grouped? 10 s

def splitSign : List Char → Bool × List Char
  | '-' :: rest => (true, rest)
  | '+' :: rest => (false, rest)
  | s => (false, s)

def fitsWide (i : Int) : Bool := -Int.pow 2 127 ≤ i && i < Int.pow 2 128

def integer? (s : List Char) : Option Int :=
  let value : Option Int :=
    match s with
    | '0' :: 'x' :: digits => (grouped? 16 digits).map Int.ofNat
    | '0' :: 'o' :: digits => (grouped? 8 digits).map Int.ofNat
    | '0' :: 'b' :: digits => (grouped? 2 digits).map Int.ofNat
    | _ =>
      let (negative, digits) := splitSign s
      (decimal? digits).map fun n => if negative then -(n : Int) else n
  value.filter fitsWide

def isGrouped (c : Char) : Bool := c.isDigit || c = '_'

/-- The exponent at the end of a number; the empty text is the exponent zero. -/
def exponent? : List Char → Option Int
  | [] => some 0
  | e :: rest =>
    if e = 'e' || e = 'E' then
      let (negative, digits) := splitSign rest
      (grouped? 10 digits).map fun n => if negative then -(n : Int) else n
    else none

/-- The digits of the fraction of a number, and what follows them. A number without a fraction has an
exponent. -/
def splitFraction : List Char → Option (List Char × List Char)
  | [] => none
  | '.' :: rest =>
    let digits := rest.takeWhile isGrouped
    (grouped? 10 digits).map fun _ => (digits, rest.dropWhile isGrouped)
  | rest => some ([], rest)

/-- Whether a text without sign is a floating-point number in the range of doubles. -/
def isFinite (s : List Char) : Bool :=
  let whole := s.takeWhile isGrouped
  match splitFraction (s.dropWhile isGrouped) with
  | none => false
  | some (fraction, rest) =>
    match decimal? whole, exponent? rest with
    | some _, some exponent =>
      let decimals := fraction.filter (· ≠ '_')
      Text.inDoubleRange (whole.filter (· ≠ '_') ++ decimals) (exponent - decimals.length)
    | _, _ => false

def isFloat (s : List Char) : Bool :=
  let body := (splitSign s).2
  body = "inf".toList || body = "nan".toList || isFinite body

/-- The value of an unquoted text. -/
def scalar? (s : List Char) : Option Document :=
  if s = "true".toList then some (.bool true)
  else if s = "false".toList then some (.bool false)
  else
    match integer? s with
    | some i => some (.int i)
    | none =>
      if isFloat s then some (.real (String.ofList s))
      else (Moment.ofText? s).map fun m => m.toDocument

def isScalarChar (c : Char) : Bool :=
  c.isAlphanum || c = '+' || c = '-' || c = '.' || c = '_' || c = ':'

/-- The text of an unquoted value, and what follows it. A blank may stand between a date and a
time. -/
def splitScalar (s : List Char) : List Char × List Char :=
  let (found, rest) := (s.takeWhile isScalarChar, s.dropWhile isScalarChar)
  match rest with
  | ' ' :: c :: tail =>
    if c.isDigit && Date.isWritten found then
      (found ++ ' ' :: (c :: tail).takeWhile isScalarChar, (c :: tail).dropWhile isScalarChar)
    else (found, rest)
  | _ => (found, rest)

end ComponentGlue.Toml
