import Dialogue.Catalog
import Dialogue.Value

/-!
# Bindings

A binding is a function of the host that expressions can call. Its signature gives the
categories of its parameters and of its result; a call checks both the arguments and
what the function returns against it.
-/

namespace Dialogue

/-- The categories of the parameters and of the result of a binding. -/
structure Signature where
  /-- The categories of the parameters, in order. -/
  params : List Category
  /-- The category of the result. -/
  result : Category
  deriving DecidableEq

/-- A function of the host. -/
structure Binding where
  /-- What it takes and what it promises to return. -/
  signature : Signature
  /-- The function. -/
  run : List Value → Value

/-- The functions that can be called, by name. -/
abbrev Bindings := Catalog Binding

/-- Why an expression has no value. -/
inductive EvalError where
  /-- The variable has no value. -/
  | undefined (name : String)
  /-- The variable, the argument or the result has another category. -/
  | mismatch (name : String) (expected found : Category)
  /-- There is no such binding. -/
  | unknownBinding (name : String)
  /-- The binding takes another number of arguments. -/
  | argumentCount (name : String) (expected found : Nat)
  deriving DecidableEq

/-- The error in words. -/
def EvalError.message : EvalError → String
  | undefined name => s!"variable \"{name}\" has no value"
  | mismatch name expected found =>
    let expected := expected.name
    let found := found.name
    s!"\"{name}\" is a {found} where a {expected} was expected"
  | unknownBinding name => s!"no binding named \"{name}\""
  | argumentCount name expected found =>
    s!"binding \"{name}\" takes {expected} argument(s), got {found}"

namespace Bindings

/-- The signature of a binding. -/
def signature? (bs : Bindings) (name : String) : Option Signature :=
  (bs.get? name).map (·.signature)

/-- The first argument of another category than its parameter, with what was expected. -/
def misfit? : List Category → List Value → Option (Category × Category)
  | k :: ks, v :: vs => if v.category = k then misfit? ks vs else some (k, v.category)
  | _, _ => none

/-- Calls a binding. -/
def call (bs : Bindings) (name : String) (args : List Value) : Except EvalError Value :=
  match bs.get? name with
  | none => .error (.unknownBinding name)
  | some b =>
    if args.length ≠ b.signature.params.length then
      .error (.argumentCount name b.signature.params.length args.length)
    else
      match misfit? b.signature.params args with
      | some (expected, found) => .error (.mismatch name expected found)
      | none =>
        let v := b.run args
        if v.category = b.signature.result then .ok v
        else .error (.mismatch name b.signature.result v.category)

end Bindings

end Dialogue
