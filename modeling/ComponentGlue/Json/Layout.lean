import ComponentGlue.Document

set_option autoImplicit false
set_option relaxedAutoImplicit false

namespace ComponentGlue.Json

def hexDigit (n : Nat) : Char :=
  if n < 10 then Char.ofNat (n + 0x30) else Char.ofNat (n - 10 + 0x61)

/-- A character inside quotes. Control characters are escaped by a letter where there is one and else
by four hexadecimal digits. -/
def escapeChar (c : Char) : List Char :=
  if c = '"' then ['\\', '"']
  else if c = '\\' then ['\\', '\\']
  else if c = '\n' then ['\\', 'n']
  else if c = '\r' then ['\\', 'r']
  else if c = '\t' then ['\\', 't']
  else if c.toNat = 0x08 then ['\\', 'b']
  else if c.toNat = 0x0C then ['\\', 'f']
  else if c.toNat < 0x20 then
    ['\\', 'u', '0', '0', hexDigit (c.toNat / 16), hexDigit (c.toNat % 16)]
  else [c]

def quote (s : String) : String := String.ofList ('"' :: s.toList.flatMap escapeChar ++ ['"'])

end ComponentGlue.Json

namespace ComponentGlue

namespace Document

open Json (quote)

def lineBreak (depth : Nat) : String := "\n" ++ String.ofList (List.replicate (2 * depth) ' ')

mutual
/-- The document, its continuation lines indented for nesting depth `depth`. -/
def layoutAt (depth : Nat) : Document → String
  | .null => "null"
  | .bool b => if b then "true" else "false"
  | .int i => toString i
  | .real text => text
  | .str s => quote s
  | .arr [] => "[]"
  | .arr (item :: items) =>
    "[" ++ lineBreak (depth + 1) ++ item.layoutAt (depth + 1) ++ layoutItems (depth + 1) items ++
      lineBreak depth ++ "]"
  | .obj [] => "\x7b\x7d"
  | .obj ((name, value) :: fields) =>
    "\x7b" ++ lineBreak (depth + 1) ++ quote name ++ ": " ++ value.layoutAt (depth + 1) ++
      layoutFields (depth + 1) fields ++ lineBreak depth ++ "\x7d"

def layoutItems (depth : Nat) : List Document → String
  | [] => ""
  | item :: items => "," ++ lineBreak depth ++ item.layoutAt depth ++ layoutItems depth items

def layoutFields (depth : Nat) : List (String × Document) → String
  | [] => ""
  | (name, value) :: fields =>
    "," ++ lineBreak depth ++ quote name ++ ": " ++ value.layoutAt depth ++
      layoutFields depth fields
end

def layout (d : Document) : String := d.layoutAt 0

mutual
/-- The document on one line, without blanks between its parts. -/
def compact : Document → String
  | .null => "null"
  | .bool b => if b then "true" else "false"
  | .int i => toString i
  | .real text => text
  | .str s => quote s
  | .arr items => "[" ++ ",".intercalate (compactItems items) ++ "]"
  | .obj fields => "\x7b" ++ ",".intercalate (compactFields fields) ++ "\x7d"

def compactItems : List Document → List String
  | [] => []
  | item :: items => item.compact :: compactItems items

def compactFields : List (String × Document) → List String
  | [] => []
  | (name, value) :: fields => (quote name ++ ":" ++ value.compact) :: compactFields fields
end

end Document

end ComponentGlue
