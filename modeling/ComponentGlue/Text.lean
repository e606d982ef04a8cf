set_option autoImplicit false
set_option relaxedAutoImplicit false

namespace ComponentGlue.Text

/-- The characters with the Unicode property White_Space. -/
def isBlank (c : Char) : Bool :=
  let n := c.toNat
  (0x09 ≤ n && n ≤ 0x0D) || n == 0x20 || n == 0x85 || n == 0xA0 || n == 0x1680 ||
    (0x2000 ≤ n && n ≤ 0x200A) || n == 0x2028 || n == 0x2029 || n == 0x202F || n == 0x205F ||
    n == 0x3000

def trimFront (s : List Char) : List Char := s.dropWhile isBlank

def trimBack (s : List Char) : List Char := (trimFront s.reverse).reverse

def trim (s : List Char) : List Char := trimBack (trimFront s)

theorem length_dropWhile_le {α : Type} (p : α → Bool) (l : List α) :
    (l.dropWhile p).length ≤ l.length := by
  induction l with
  | nil => simp
  | cons a l ih =>
    rw [List.dropWhile_cons]
    split
    · exact Nat.le_succ_of_le ih
    · exact Nat.le_refl _

theorem length_trimFront_le (s : List Char) : (trimFront s).length ≤ s.length :=
  length_dropWhile_le isBlank s

theorem length_trimBack_le (s : List Char) : (trimBack s).length ≤ s.length := by
  simpa [trimBack] using length_trimFront_le s.reverse

theorem length_trim_le (s : List Char) : (trim s).length ≤ s.length :=
  Nat.le_trans (length_trimBack_le _) (length_trimFront_le s)

def hexValue? (c : Char) : Option Nat :=
  let n := c.toNat
  if 0x30 ≤ n && n ≤ 0x39 then some (n - 0x30)
  else if 0x61 ≤ n && n ≤ 0x66 then some (n - 0x61 + 10)
  else if 0x41 ≤ n && n ≤ 0x46 then some (n - 0x41 + 10)
  else none

def digitValue? (base : Nat) (c : Char) : Option Nat := (hexValue? c).filter (· < base)

def numberOf (base : Nat) (digits : List Nat) : Nat := digits.foldl (fun n d => n * base + d) 0

def number? (base : Nat) (s : List Char) : Option Nat :=
  (s.mapM (digitValue? base)).map (numberOf base)

/-- The midpoint between the largest double and the power of two after it. Numbers from here on are
rounded to no finite double. -/
def doubleBound : Nat := Nat.pow 2 1024 - Nat.pow 2 970

/-- Whether a decimal number rounds to a finite double. The number is given by its digits and the
power of ten they are multiplied by; how many digits there are before the point decides all but the
numbers close to the bound. -/
def inDoubleRange (digits : List Char) (exponent : Int) : Bool :=
  let significant := digits.dropWhile (· = '0')
  let magnitude : Int := significant.length + exponent
  if significant.isEmpty || magnitude < 309 then true
  else if 309 < magnitude then false
  else
    match number? 10 significant with
    | none => false
    | some n => n * Nat.pow 10 exponent.toNat < doubleBound * Nat.pow 10 (-exponent).toNat

/-- What a scanner has read and what it has left, or none when the text does not start as it
should. -/
abbrev Scan (α : Type) := List Char → Option (α × List Char)

namespace Scan

variable {α σ : Type}

def run (p : Char → Bool) (s : List Char) : List Char × List Char := (s.takeWhile p, s.dropWhile p)

/-- Up to `limit` items. -/
def manyUpTo (item : Scan α) : Nat → List Char → List α × List Char
  | 0, s => ([], s)
  | limit + 1, s =>
    match item s with
    | none => ([], s)
    | some (a, rest) =>
      let (more, last) := manyUpTo item limit rest
      (a :: more, last)

def many (item : Scan α) (s : List Char) : List α × List Char := manyUpTo item s.length s

/-- Up to `limit` items before a text from which `stop` reads. -/
def foldUpTo (stop : σ → List Char → Option (List Char)) (item : σ → Scan σ) :
    Nat → σ → Scan σ
  | 0, state, s => (stop state s).map fun rest => (state, rest)
  | limit + 1, state, s =>
    match stop state s with
    | some rest => some (state, rest)
    | none =>
      match item state s with
      | none => none
      | some (next, rest) => foldUpTo stop item limit next rest

def foldUntil (stop : σ → List Char → Option (List Char)) (item : σ → Scan σ) (state : σ) :
    Scan σ := fun s => foldUpTo stop item s.length state s

end Scan

def afterPrefix? : List Char → List Char → Option (List Char)
  | [], s => some s
  | _ :: _, [] => none
  | c :: front, d :: s => if c = d then afterPrefix? front s else none

theorem afterPrefix?_eq_some_iff {front s rest : List Char} :
    afterPrefix? front s = some rest ↔ s = front ++ rest := by
  induction front generalizing s with
  | nil => simp [afterPrefix?]
  | cons c front ih =>
    cases s with
    | nil => simp [afterPrefix?]
    | cons d s =>
      by_cases h : c = d
      · simp [afterPrefix?, h, ih]
      · simp [afterPrefix?, h, Ne.symm h]

def beforeSuffix? (back s : List Char) : Option (List Char) :=
  (afterPrefix? back.reverse s.reverse).map List.reverse

theorem beforeSuffix?_eq_some_iff {back s rest : List Char} :
    beforeSuffix? back s = some rest ↔ s = rest ++ back := by
  simp only [beforeSuffix?, Option.map_eq_some_iff, afterPrefix?_eq_some_iff]
  constructor
  · rintro ⟨t, h, rfl⟩
    simpa using congrArg List.reverse h
  · rintro rfl
    exact ⟨rest.reverse, by simp, by simp⟩

def splitAtFirst? (pattern : List Char) : List Char → Option (List Char × List Char)
  | [] => (afterPrefix? pattern []).map ([], ·)
  | c :: s =>
    match afterPrefix? pattern (c :: s) with
    | some rest => some ([], rest)
    | none => (splitAtFirst? pattern s).map fun (before, rest) => (c :: before, rest)

theorem eq_append_of_splitAtFirst? {pattern s before rest : List Char}
    (h : splitAtFirst? pattern s = some (before, rest)) : s = before ++ pattern ++ rest := by
  induction s generalizing before with
  | nil =>
    simp only [splitAtFirst?, Option.map_eq_some_iff, afterPrefix?_eq_some_iff] at h
    obtain ⟨t, ht, hp⟩ := h
    cases hp
    simpa using ht
  | cons c s ih =>
    rw [splitAtFirst?] at h
    split at h
    · next t ht =>
      cases h
      simpa using afterPrefix?_eq_some_iff.1 ht
    · obtain ⟨⟨b, r⟩, hr, hp⟩ := Option.map_eq_some_iff.1 h
      cases hp
      simp [ih hr]

def splitAtChar? (sep : Char) : List Char → Option (List Char × List Char)
  | [] => none
  | c :: s =>
    if c = sep then some ([], s)
    else (splitAtChar? sep s).map fun (before, rest) => (c :: before, rest)

theorem eq_append_of_splitAtChar? {sep : Char} {s before rest : List Char}
    (h : splitAtChar? sep s = some (before, rest)) : s = before ++ sep :: rest := by
  induction s generalizing before with
  | nil => simp [splitAtChar?] at h
  | cons c s ih =>
    rw [splitAtChar?] at h
    split at h
    · next hc =>
      cases h
      simp [hc]
    · obtain ⟨⟨b, r⟩, hr, hp⟩ := Option.map_eq_some_iff.1 h
      cases hp
      simp [ih hr]

/-- All pieces between separators; a text without separator is one piece. -/
def splitAll (sep : Char) : List Char → List (List Char)
  | [] => [[]]
  | c :: s =>
    if c = sep then [] :: splitAll sep s
    else
      match splitAll sep s with
      | [] => [[c]]
      | piece :: pieces => (c :: piece) :: pieces

def joinWith (sep : String) (items : List String) : String := sep.intercalate items

end ComponentGlue.Text

namespace ComponentGlue

/-- The last segment of a dotted name. -/
def simpleName (qualified : String) : String :=
  String.ofList (qualified.toList.reverse.takeWhile (· ≠ '.')).reverse

def packageOf (qualified : String) : String :=
  String.ofList ((qualified.toList.reverse.dropWhile (· ≠ '.')).drop 1).reverse

def startsIdentifier (c : Char) : Bool := c.isAlpha || c = '_' || c = '$'

def continuesIdentifier (c : Char) : Bool := c.isAlphanum || c = '_' || c = '$'

def isIdentifierChars : List Char → Bool
  | [] => false
  | c :: s => startsIdentifier c && s.all continuesIdentifier

def isIdentifier (s : String) : Bool := isIdentifierChars s.toList

def isQualifiedName (s : String) : Bool := (Text.splitAll '.' s.toList).all isIdentifierChars

end ComponentGlue
