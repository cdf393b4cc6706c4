/-
Code that is written while a value is worked out.  An emission is a value together with everything
that came with it, in order: faults, statements and the helpers that the statements need.  A fault
never ends an emission, so all that is wrong with an instruction is found at once; the value is then
any value at all, since nothing is made of faulty code.
-/
import ShaderLift.Fault
import ShaderLift.Glsl.Statement

namespace ShaderLift.Glsl

/-- A value, and the faults, statements and helpers that came with it. -/
structure Emission (α : Type) where
  value : α
  faults : List Fault := []
  code : List Stmt := []
  helpers : List Helper := []
  deriving Repr

namespace Emission

variable {α β : Type}

def andThen (a : Emission α) (f : α → Emission β) : Emission β where
  value := (f a.value).value
  faults := a.faults ++ (f a.value).faults
  code := a.code ++ (f a.value).code
  helpers := a.helpers ++ (f a.value).helpers

instance : Monad Emission where
  pure x := { value := x }
  bind := andThen

theorem pure_def (x : α) : (pure x : Emission α) = { value := x } := rfl

theorem bind_def (a : Emission α) (f : α → Emission β) : a >>= f = a.andThen f := rfl

instance : LawfulMonad Emission := LawfulMonad.mk' Emission
  (fun a => by simp [Functor.map, andThen])
  (fun x f => by simp [bind_def, pure_def, andThen])
  (fun a f g => by simp [bind_def, andThen])

def fault (f : Fault) : Emission Unit := { value := (), faults := [f] }

def noExpr (f : Fault) : Emission Expr := { value := .zero, faults := [f] }

def write (c : Stmt) : Emission Unit := { value := (), code := [c] }

def require (h : Helper) : Emission Unit := { value := (), helpers := [h] }

end Emission

end ShaderLift.Glsl
