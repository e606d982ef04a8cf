import Mathlib.Logic.Function.Basic
import ComponentGlue.Code.GeneratedType

/-!
What generated code does when it runs. Its surroundings answer the calls that it makes and give a meaning
to objects; which calls are made, in which order and with which values, is said here.
-/

set_option autoImplicit false
set_option relaxedAutoImplicit false

namespace ComponentGlue

/-- A value of generated code. Objects are those of its surroundings. -/
inductive Value (α : Type) where
  | null
  | int (i : Int)
  | bool (b : Bool)
  | str (s : String)
  | object (o : α)
  deriving DecidableEq

def Literal.value {α : Type} : Literal → Value α
  | .str s => .str s
  | .int i => .int i
  | .bool b => .bool b

/-- What a method is called on. -/
inductive Receiver (α : Type) where
  /-- The enclosing object. -/
  | here
  | super
  | value (v : Value α)

abbrev Locals (α : Type) := String → Value α

/-- What surrounds generated code, over states that its calls may change. -/
structure Surroundings (α σ : Type) where
  /-- Answer a call. One on `Receiver.here` is a call by name on the enclosing object: where a generated
  method overrides that name, the call reaches the override. -/
  call : Receiver α → String → List (Value α) → σ → Value α × σ
  /-- The value of an expression on objects: a field, an instance, a joined text. -/
  object : Expr → Locals α → σ → Value α × σ
  store : Expr → Value α → Locals α → σ → σ

/-- How a statement ends: the next one goes on with the locals, or the method returns. -/
inductive Outcome (α : Type) where
  | continues (locals : Locals α)
  | returns (value : Option (Value α))

namespace Outcome

variable {α : Type}

/-- Locals of a nested body are not seen behind it. -/
def leaving (locals : Locals α) : Outcome α → Outcome α
  | .continues _ => .continues locals
  | .returns value => .returns value

/-- What a method answers that ends so. -/
def answer : Outcome α → Option (Value α)
  | .continues _ => none
  | .returns value => value

end Outcome

section Run

variable {α σ : Type} [DecidableEq α] (w : Surroundings α σ)

mutual
/-- The value of an expression; operands are evaluated from left to right. -/
def Expr.eval (locals : Locals α) : Expr → σ → Value α × σ
  | .null, s => (.null, s)
  | .ident name, s => (locals name, s)
  | .literal value, s => (value.value, s)
  | .resource ref, s => (.int ref.id, s)
  | .call target method args, s =>
    let receiver := Expr.evalTarget locals target s
    let values := Expr.evalAll locals args receiver.2
    w.call receiver.1 method values.1 values.2
  | .cast _ e, s => Expr.eval locals e s
  | .notNull e, s =>
    let value := Expr.eval locals e s
    (.bool (value.1 ≠ .null), value.2)
  | .equals left right, s =>
    let first := Expr.eval locals left s
    let second := Expr.eval locals right first.2
    (.bool (first.1 = second.1), second.2)
  | .this, s => w.object .this locals s
  | .super, s => w.object .super locals s
  | .field target name, s => w.object (.field target name) locals s
  | .staticField owner name, s => w.object (.staticField owner name) locals s
  | .new type args, s => w.object (.new type args) locals s
  | .classLiteral type, s => w.object (.classLiteral type) locals s
  | .concat parts, s => w.object (.concat parts) locals s
  | .anonymous implements methods, s => w.object (.anonymous implements methods) locals s

def Expr.evalTarget (locals : Locals α) : Option Expr → σ → Receiver α × σ
  | none, s => (.here, s)
  | some .super, s => (.super, s)
  | some e, s =>
    let value := Expr.eval locals e s
    (.value value.1, value.2)

def Expr.evalAll (locals : Locals α) : List Expr → σ → List (Value α) × σ
  | [], s => ([], s)
  | e :: es, s =>
    let value := Expr.eval locals e s
    let values := Expr.evalAll locals es value.2
    (value.1 :: values.1, values.2)
end

mutual
/-- Run a statement. The cleanup of a guarded body runs however the body ends. -/
def Statement.exec : Statement → Locals α → σ → Outcome α × σ
  | .run e, locals, s => (.continues locals, (e.eval w locals s).2)
  | .assign target value, locals, s =>
    let value := value.eval w locals s
    (.continues locals, w.store target value.1 locals value.2)
  | .declare _ name value, locals, s =>
    let value := value.eval w locals s
    (.continues (Function.update locals name value.1), value.2)
  | .ret none, _, s => (.returns none, s)
  | .ret (some e), locals, s =>
    let value := e.eval w locals s
    (.returns (some value.1), value.2)
  | .branch condition body, locals, s =>
    let value := condition.eval w locals s
    if value.1 = .bool true then
      let last := Statement.execAll body locals value.2
      (last.1.leaving locals, last.2)
    else (.continues locals, value.2)
  | .tryFinally body cleanup, locals, s =>
    let last := Statement.execAll body locals s
    match Statement.execAll cleanup locals last.2 with
    | (.continues _, s) => (last.1.leaving locals, s)
    | (.returns value, s) => (.returns value, s)
  | .labelled _ body, locals, s => Statement.execAll body locals s

/-- Run statements in turn until one returns. -/
def Statement.execAll : List Statement → Locals α → σ → Outcome α × σ
  | [], locals, s => (.continues locals, s)
  | first :: rest, locals, s =>
    match Statement.exec first locals s with
    | (.continues locals, s) => Statement.execAll rest locals s
    | (.returns value, s) => (.returns value, s)
end

def Method.bind (m : Method) (values : List (Value α)) : Locals α := fun name =>
  ((m.params.zip values).find? fun x => x.1.name == name).elim .null Prod.snd

/-- What a call of the method answers. -/
def Method.exec (m : Method) (values : List (Value α)) (s : σ) : Option (Value α) × σ :=
  let last := Statement.execAll w m.body (m.bind values) s
  (last.1.answer, last.2)

variable {w} {locals : Locals α} {s s' : σ} {first : Statement} {rest : List Statement}

theorem Statement.execAll_of_continues {locals' : Locals α}
    (h : first.exec w locals s = (.continues locals', s')) :
    Statement.execAll w (first :: rest) locals s = Statement.execAll w rest locals' s' := by
  rw [Statement.execAll, h]

theorem Statement.execAll_of_returns {value : Option (Value α)}
    (h : first.exec w locals s = (.returns value, s')) :
    Statement.execAll w (first :: rest) locals s = (.returns value, s') := by
  rw [Statement.execAll, h]

end Run

end ComponentGlue
