import ComponentGlue.Text

set_option autoImplicit false
set_option relaxedAutoImplicit false

namespace ComponentGlue

inductive Primitive where
  | void
  | boolean
  | byte
  | char
  | short
  | int
  | long
  | float
  | double
  deriving DecidableEq, Inhabited

namespace Primitive

def all : List Primitive :=
  [.void, .boolean, .byte, .char, .short, .int, .long, .float, .double]

def keyword : Primitive → String
  | .void => "void"
  | .boolean => "boolean"
  | .byte => "byte"
  | .char => "char"
  | .short => "short"
  | .int => "int"
  | .long => "long"
  | .float => "float"
  | .double => "double"

def ofKeyword? (s : String) : Option Primitive := all.find? (fun p => p.keyword == s)

theorem ofKeyword?_keyword (p : Primitive) : ofKeyword? p.keyword = some p := by cases p <;> decide

end Primitive

inductive TypeRef where
  | primitive (name : Primitive)
  | named (name : String)
  | generic (base : String) (args : List TypeRef)
  | array (element : TypeRef)

namespace TypeRef

instance : Inhabited TypeRef := ⟨.primitive .void⟩

def void : TypeRef := .primitive .void

def boolean : TypeRef := .primitive .boolean

def string : TypeRef := .named "java.lang.String"

def isVoid : TypeRef → Bool
  | .primitive .void => true
  | _ => false

mutual
def text : TypeRef → String
  | .primitive p => p.keyword
  | .named name => name
  | .generic base args => base ++ "<" ++ textAll args ++ ">"
  | .array element => element.text ++ "[]"

def textAll : List TypeRef → String
  | [] => ""
  | [t] => t.text
  | t :: u :: rest => t.text ++ ", " ++ textAll (u :: rest)
end

instance : ToString TypeRef := ⟨text⟩

end TypeRef

namespace TypeRef

/-- Cut at the commas outside angle brackets; `depth` counts the open brackets and never goes below
zero. -/
def splitArgs (depth : Nat) : List Char → List (List Char)
  | [] => [[]]
  | c :: s =>
    if c = ',' ∧ depth = 0 then [] :: splitArgs 0 s
    else
      let inner := if c = '<' then depth + 1 else if c = '>' then depth - 1 else depth
      match splitArgs inner s with
      | [] => [[c]]
      | piece :: pieces => (c :: piece) :: pieces

theorem length_le_of_mem_splitArgs {depth : Nat} {s piece : List Char}
    (h : piece ∈ splitArgs depth s) : piece.length ≤ s.length := by
  induction s generalizing depth piece with
  | nil =>
    simp only [splitArgs, List.mem_singleton] at h
    simp [h]
  | cons c s ih =>
    rw [splitArgs] at h
    split at h
    · rcases List.mem_cons.1 h with rfl | h
      · simp
      · exact Nat.le_succ_of_le (ih h)
    · dsimp only at h
      split at h
      · simp only [List.mem_singleton] at h
        simp [h]
      · next first others hs =>
        rcases List.mem_cons.1 h with rfl | h
        · have := @ih _ first (hs ▸ List.mem_cons_self)
          simpa using this
        · exact Nat.le_succ_of_le (ih (hs ▸ List.mem_cons_of_mem _ h))

/-- The base and the inside of the brackets of a text that opens a bracket and ends by closing
one. -/
def genericParts? (s : List Char) : Option (List Char × List Char) :=
  match Text.splitAtChar? '<' s with
  | none => none
  | some (base, rest) => (Text.beforeSuffix? ['>'] rest).map fun inside => (base, inside)

theorem eq_of_genericParts? {s base inside : List Char}
    (h : genericParts? s = some (base, inside)) : s = base ++ '<' :: inside ++ ['>'] := by
  rw [genericParts?] at h
  split at h
  · simp at h
  · next b r hs =>
    obtain ⟨i, hi, hp⟩ := Option.map_eq_some_iff.1 h
    cases hp
    rw [Text.eq_append_of_splitAtChar? hs, Text.beforeSuffix?_eq_some_iff.1 hi]
    simp

/-- Read a type from a list of characters. -/
def ofChars (source : List Char) : TypeRef :=
  match _hArray : Text.beforeSuffix? ['[', ']'] (Text.trim source) with
  | some element => .array (ofChars element)
  | none =>
    match Primitive.ofKeyword? (String.ofList (Text.trim source)) with
    | some p => .primitive p
    | none =>
      match _hGeneric : genericParts? (Text.trim source) with
      | some (base, inside) =>
        .generic (String.ofList (Text.trim base))
          ((splitArgs 0 inside).attach.map fun piece => ofChars (Text.trim piece.1))
      | none => .named (String.ofList (Text.trim source))
termination_by source.length
decreasing_by
  · have ht := Text.length_trim_le source
    have hs := congrArg List.length (Text.beforeSuffix?_eq_some_iff.1 _hArray)
    simp only [List.length_append, List.length_cons, List.length_nil] at hs
    omega
  · have ht := Text.length_trim_le source
    have hs := congrArg List.length (eq_of_genericParts? _hGeneric)
    have hp := length_le_of_mem_splitArgs piece.2
    have hq := Text.length_trim_le piece.1
    simp only [List.length_append, List.length_cons, List.length_nil] at hs
    omega

/-- One step of reading, with the pieces of a generic type read in turn. -/
theorem ofChars_eq (source : List Char) :
    ofChars source =
      match Text.beforeSuffix? ['[', ']'] (Text.trim source) with
      | some element => .array (ofChars element)
      | none =>
        match Primitive.ofKeyword? (String.ofList (Text.trim source)) with
        | some p => .primitive p
        | none =>
          match genericParts? (Text.trim source) with
          | some (base, inside) =>
            .generic (String.ofList (Text.trim base))
              ((splitArgs 0 inside).map fun piece => ofChars (Text.trim piece))
          | none => .named (String.ofList (Text.trim source)) := by
  rw [ofChars]
  split
  · next h => simp [h]
  · next h =>
    simp only [h]
    cases Primitive.ofKeyword? (String.ofList (Text.trim source)) with
    | some p => rfl
    | none =>
      dsimp only
      split
      · next h' => simp [h']
      · next h' => simp [h']

def parse (source : String) : TypeRef := ofChars source.toList

end TypeRef

end ComponentGlue
