import ComponentGlue.Catalog
import ComponentGlue.Host.Declaration
import ComponentGlue.Marker
import ComponentGlue.Project
import ComponentGlue.Run.Diagnostic

/-!
Validation. The verdict, the owners and the diagnostics of a check are all read off its findings. A
declaration is accepted when every validator of its kind accepts it and every owner it needs is accepted.
-/

set_option autoImplicit false
set_option relaxedAutoImplicit false

namespace ComponentGlue

def validationPhase : String := "validate"

/-- A declaration that another one needs: the element and the marker it must carry. -/
structure Owner where
  element : String
  marker : Marker
  deriving DecidableEq

def Declaration.asOwner (d : Declaration) : Owner := ⟨d.qualifiedName, d.marker⟩

/-- What a run's checks may read. -/
structure ValidationContext where
  extracted : DeclarationModel
  /-- Absent when the project has no usable symbol table. -/
  catalog : Option Catalog
  project : Project

/-- A declaration under check, with what the check may read. -/
structure Subject where
  context : ValidationContext
  declaration : Declaration

inductive Finding where
  | error (message : String)
  | warning (message : String)
  | needs (owner : Owner)
  | lookedUp (key : ResourceKey)
  deriving DecidableEq

namespace Finding

def isError : Finding → Bool
  | .error _ => true
  | .warning _ | .needs _ | .lookedUp _ => false

def diagnostic? (d : Declaration) : Finding → Option Diagnostic
  | .error message => some ((Diagnostic.error validationPhase message).about d)
  | .warning message => some ((Diagnostic.warning validationPhase message).about d)
  | .needs _ | .lookedUp _ => none

def owner? : Finding → Option Owner
  | .needs owner => some owner
  | .error _ | .warning _ | .lookedUp _ => none

def key? : Finding → Option ResourceKey
  | .lookedUp key => some key
  | .error _ | .warning _ | .needs _ => none

end Finding

def appendDistinct {α : Type} [DecidableEq α] (found : List α) : List α → List α
  | [] => found
  | a :: rest =>
    if a ∈ found then appendDistinct found rest else appendDistinct (found ++ [a]) rest

abbrev Findings := List Finding

namespace Findings

def rejects (fs : Findings) : Bool := fs.any Finding.isError

def owners (fs : Findings) : List Owner := appendDistinct [] (fs.filterMap Finding.owner?)

def diagnostics (d : Declaration) (fs : Findings) : List Diagnostic :=
  fs.filterMap (Finding.diagnostic? d)

def lookups (fs : Findings) : List ResourceKey := fs.filterMap Finding.key?

end Findings

/-- A check's answer together with the findings made on the way to it. -/
structure Checked (α : Type) where
  value : α
  findings : Findings

namespace Checked

variable {α β : Type}

instance : Monad Checked where
  pure a := ⟨a, []⟩
  bind x f := ⟨(f x.value).value, x.findings ++ (f x.value).findings⟩

@[simp] theorem findings_pure (a : α) : (pure a : Checked α).findings = [] := rfl

@[simp] theorem findings_bind (x : Checked α) (f : α → Checked β) :
    (x >>= f).findings = x.findings ++ (f x.value).findings := rfl

instance : LawfulMonad Checked :=
  LawfulMonad.mk' Checked (fun _ => by simp [Functor.map])
    (fun _ _ => by simp [bind, pure]) (fun _ _ _ => by simp [bind, List.append_assoc])

def find (f : Finding) : Checked Unit := ⟨(), [f]⟩

def error (message : String) : Checked Unit := find (.error message)

def warning (message : String) : Checked Unit := find (.warning message)

def require (condition : Bool) (message : String) : Checked Bool :=
  if condition then pure true else do
    error message
    return false

def each (items : List α) (check : α → Checked Unit) : Checked Unit :=
  match items with
  | [] => pure ()
  | a :: rest => do
    check a
    each rest check

end Checked

namespace Subject

open Checked (error require find)

def element (s : Subject) : Element := s.declaration.element

def marker (s : Subject) : Marker := s.declaration.marker

def elementKind (s : Subject) (kinds : List ElementKind) : Checked Bool :=
  let expected := Text.joinWith " or " (kinds.map ElementKind.text)
  require (kinds.contains s.element.kind)
    s!"{s.marker} can only be used on a {expected}, found {s.element.kind}"

def without (s : Subject) (modifier : Modifier) : Checked Bool :=
  require (!s.element.hasModifier modifier)
    s!"{s.marker} cannot be used on a {modifier.text} {s.element.kind}"

def returnsVoid (s : Subject) : Checked Bool :=
  require s.element.returnsVoid s!"{s.marker} method must return void"

def noParams (s : Subject) : Checked Bool :=
  require s.element.params.isEmpty
    s!"{s.marker} method must have no parameters, found {s.element.params.length}"

def noThrows (s : Subject) : Checked Bool :=
  let thrown := Text.joinWith ", " s.element.throws
  require s.element.throws.isEmpty
    s!"{s.marker} method must not declare checked exceptions ({thrown})"

def dependsOn (element : String) (marker : Marker) : Checked Unit := find (.needs ⟨element, marker⟩)

def enclosedBy (s : Subject) (kind : Marker) : Checked Bool :=
  let enclosing := s.element.enclosingType?.getD ""
  if s.context.extracted.isAnnotated enclosing kind then do
    dependsOn enclosing kind
    return true
  else require false s!"{s.marker} can only be used in a type marked {kind}"

/-- The element carries the other marker too. -/
def alsoMarked (s : Subject) (kind : Marker) : Checked Bool :=
  let qualified := s.declaration.qualifiedName
  if s.context.extracted.isAnnotated qualified kind then do
    dependsOn qualified kind
    return true
  else require false s!"{s.marker} requires the {s.element.kind} to also be marked {kind}"

def notCombinedWith (s : Subject) (other : Marker) : Checked Bool :=
  require (!s.context.extracted.isAnnotated s.declaration.qualifiedName other)
    s!"{s.marker} cannot be combined with {other}"

/-- The value an argument has when read by `read?`; a present argument that it cannot read is an
error. -/
def optionalArg {α : Type} (s : Subject) (name expected : String) (read? : Argument → Option α) :
    Checked (Option α) :=
  match s.declaration.arg? name with
  | none => pure none
  | some value =>
    match read? value with
    | some a => pure (some a)
    | none => do
      error s!"{s.marker} argument '{name}' must be {expected}, found {value}"
      return none

def optionalStr (s : Subject) (name : String) : Checked (Option String) :=
  s.optionalArg name "a string" Argument.str?

def optionalStrings (s : Subject) (name : String) : Checked (Option (List String)) :=
  s.optionalArg name "a string or a list of strings" Argument.strings?

def optionalInt (s : Subject) (name : String) : Checked (Option Int) :=
  s.optionalArg name "an integer" Argument.int?

def strOr (s : Subject) (name default : String) : Checked (Option String) :=
  match s.declaration.arg? name with
  | none => pure (some default)
  | some _ => s.optionalStr name

def stringsOr (s : Subject) (name : String) (default : List String) :
    Checked (Option (List String)) :=
  match s.declaration.arg? name with
  | none => pure (some default)
  | some _ => s.optionalStrings name

def fieldType (s : Subject) : Checked (Option String) :=
  match s.element.type with
  | some type => pure (some type)
  | none => do
    error s!"{s.marker} field has no declared type"
    return none

/-- Look a resource up; without catalog nothing is found. -/
def resource (s : Subject) (type : ResourceType) (name : String) : Checked (Option ResourceRef) := do
  find (.lookedUp ⟨type, name⟩)
  match s.context.catalog with
  | none => do
    error s!"cannot resolve R.{type}.{name}: resource catalog unavailable"
    return none
  | some catalog =>
    match catalog.lookup ⟨type, name⟩ with
    | .ok ref => pure (some ref)
    | .error e => do
      error e.text
      return none

def resources (s : Subject) (type : ResourceType) (names : List String) : Checked Unit :=
  Checked.each names fun name => do let _ ← s.resource type name

/-- A member of this kind that a subclass of its enhanced component can reach. -/
def componentMember (s : Subject) (kind : ElementKind) : Checked Bool := do
  if ← s.elementKind [kind] then
    let enclosed ← s.enclosedBy .enhancedComponent
    let reachable ← s.without .privateAccess
    return reachable && enclosed
  else
    return false

end Subject

/-- What a check found and what cut it short, if anything did. -/
structure Verdict where
  findings : Findings
  interruption : Option Interruption

/-- A check bound to one marker kind. -/
structure Validator where
  kind : Marker
  description : String
  /-- Without a catalog such a validator rejects every declaration unchecked. -/
  requiresCatalog : Bool
  check : Subject → Verdict

def Checked.verdict (c : Checked Unit) : Verdict := ⟨c.findings, none⟩

/-- Work that reports diagnostics and may be interrupted; the diagnostics outlive an
interruption. -/
structure Reported (α : Type) where
  diagnostics : List Diagnostic
  result : Except Interruption α

namespace Reported

variable {α β : Type}

def andThen (x : Reported α) (f : α → Reported β) : Reported β :=
  match x.result with
  | .error e => ⟨x.diagnostics, .error e⟩
  | .ok a => ⟨x.diagnostics ++ (f a).diagnostics, (f a).result⟩

instance : Monad Reported where
  pure a := ⟨[], .ok a⟩
  bind := andThen

def report (d : Diagnostic) : Reported Unit := ⟨[d], .ok ()⟩

end Reported

/-- The joint judgement of several validators on one declaration. -/
structure Judgement where
  accepted : Bool
  owners : List Owner

/-- An accepted declaration with the owners it needs. -/
structure Candidate where
  declaration : Declaration
  owners : List Owner

namespace Candidate

def missingOwner? (handled : Marker → Bool) (present : List Owner) (c : Candidate) :
    Option Owner :=
  c.owners.find? fun owner => handled owner.marker && !present.contains owner

def dropWarning (c : Candidate) (owner : Owner) : Diagnostic :=
  (Diagnostic.warning validationPhase
    s!"{c.declaration.marker} skipped: {owner.marker} {owner.element} was rejected").about
      c.declaration

/-- One pass of pruning: the candidates whose owners are all present, and a warning for each other
one. -/
def prunePass (handled : Marker → Bool) (present : List Owner) :
    List Candidate → List Candidate × List Diagnostic
  | [] => ([], [])
  | c :: rest =>
    let (kept, warnings) := prunePass handled present rest
    match c.missingOwner? handled present with
    | none => (c :: kept, warnings)
    | some owner => (kept, c.dropWarning owner :: warnings)

def present (cs : List Candidate) : List Owner := cs.map fun c => c.declaration.asOwner

/-- Drop candidates with a missing owner until no owner is missing. -/
def prune (handled : Marker → Bool) (cs : List Candidate) : List Candidate × List Diagnostic :=
  if (prunePass handled (present cs) cs).1.length < cs.length then
    let rest := prune handled (prunePass handled (present cs) cs).1
    (rest.1, (prunePass handled (present cs) cs).2 ++ rest.2)
  else prunePass handled (present cs) cs
termination_by cs.length

end Candidate

namespace Validator

/-- The diagnostics and the judgement of one validator on one declaration. -/
def judge (v : Validator) (s : Subject) : Reported Judgement :=
  if v.requiresCatalog && s.context.catalog.isNone then
    ⟨[(Diagnostic.error validationPhase
      s!"cannot validate {s.declaration.marker}: resource catalog unavailable").about
        s.declaration], .ok ⟨false, []⟩⟩
  else
    let verdict := v.check s
    match verdict.interruption with
    | some (.panic message) => ⟨[], .error (.panic message)⟩
    | some (.fault f) =>
      ⟨verdict.findings.diagnostics s.declaration,
        .error (.fault (.during (.validating s.declaration) f))⟩
    | none =>
      ⟨verdict.findings.diagnostics s.declaration,
        .ok ⟨!verdict.findings.rejects, verdict.findings.owners⟩⟩

def judgeAll (s : Subject) : List Validator → Reported Judgement
  | [] => pure ⟨true, []⟩
  | v :: vs => do
    let first ← v.judge s
    let others ← judgeAll s vs
    return ⟨first.accepted && others.accepted, first.owners ++ others.owners⟩

/-- The accepted ones among declarations of one kind. -/
def candidates (context : ValidationContext) (vs : List Validator) :
    List Declaration → Reported (List Candidate)
  | [] => pure []
  | d :: ds => do
    let judgement ← judgeAll ⟨context, d⟩ vs
    let others ← candidates context vs ds
    return if judgement.accepted then ⟨d, judgement.owners⟩ :: others else others

def handles (vs : List Validator) (kind : Marker) : Bool := vs.any fun v => v.kind = kind

/-- The accepted declarations of one kind; a kind without validators is ignored with a warning. -/
def candidatesOfKind (vs : List Validator) (context : ValidationContext) (kind : Marker) :
    Reported (List Candidate) :=
  if handles vs kind then
    candidates context (vs.filter fun v => v.kind = kind) (context.extracted.declarations kind)
  else do
    let count := (context.extracted.declarations kind).length
    Reported.report (Diagnostic.warning validationPhase
      s!"{count} declaration(s) marked {kind} ignored: no validator is registered for this kind")
    return []

/-- The accepted declarations of all kinds, before owners are looked at. -/
def candidatesOfKinds (vs : List Validator) (context : ValidationContext) :
    List Marker → Reported (List Candidate)
  | [] => pure []
  | kind :: kinds => do
    let first ← candidatesOfKind vs context kind
    let others ← candidatesOfKinds vs context kinds
    return first ++ others

/-- Validate every extracted declaration. -/
def validate (vs : List Validator) (context : ValidationContext) : Reported DeclarationModel := do
  let candidates ← candidatesOfKinds vs context context.extracted.kinds
  let pruned := Candidate.prune (handles vs) candidates
  ⟨pruned.2, .ok (DeclarationModel.ofList (pruned.1.map Candidate.declaration))⟩

end Validator

end ComponentGlue
