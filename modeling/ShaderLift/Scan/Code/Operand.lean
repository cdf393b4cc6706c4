/-
Operands in generated code.  A source becomes an expression for the components asked for; a
destination becomes the target of an assignment.
-/
import ShaderLift.Glsl.Emission
import ShaderLift.Instruction
import ShaderLift.Scan.State

namespace ShaderLift

open Glsl

namespace Scan

/-! ### Sources -/

/-- What a source modifier does to an expression; division by a component cannot be written. -/
def modifierExpr : SourceModifier → Except Fault (Expr → Expr)
  | .plain => .ok id
  | .negate => .ok fun e => .negate e
  | .bias => .ok fun e => .group (.sub e .half)
  | .biasNegate => .ok fun e => .negate (.group (.sub e .half))
  | .sign => .ok fun e => .group (.mul (.group (.sub e .half)) .two)
  | .signNegate => .ok fun e => .negate (.group (.mul (.group (.sub e .half)) .two))
  | .complement => .ok fun e => .group (.sub .one e)
  | .double => .ok fun e => .group (.mul e .two)
  | .doubleNegate => .ok fun e => .negate (.group (.mul e .two))
  | .divideByZ => .error .divideByZ
  | .divideByW => .error .divideByW
  | .abs => .ok fun e => .call1 "abs" e
  | .absNegate => .ok fun e => .negate (.call1 "abs" e)
  | .not => .ok fun e => .not e

def indexExpr (index : RelativeIndex) : Expr :=
  if index.register.file = .loop then .name .loopCounter
  else .lanes (.register index.register) [index.lane]

/-- Element `delta` of an array, counted from an index on.  The arrays that the host provides start
somewhere in the packed array. -/
def arrayElement (a : ConstantArray) (delta : Nat) (index : Expr) : Expr :=
  let offset : Expr := .number (toString delta)
  if a.isLiteral then
    .element (.constArray a.index a.count) (if delta = 0 then index else .add offset index)
  else
    let base : Expr := .name (.arrayBase a.index)
    .element (.packed .float)
      (.add (if delta = 0 then base else .group (.add base offset)) index)

/-- What a source reads, before its components are picked. -/
def variableOf (sh : Shader) (s : Scan) (a : Source) : Except Fault Expr :=
  if (a.register.spelling? sh).isNone then .error .sourceUnnamed
  else
    match a.relative with
    | none => .ok (.register a.register)
    | some index =>
      match a.register.file with
      | .input => .ok (.element .inputArray (indexExpr index))
      | .const =>
        match index.array.bind fun place => s.arrays[place]? with
        | none => .error .relativeOutsideArrays
        | some array =>
          .ok (arrayElement array (a.register.number - array.index) (indexExpr index))
      | _ => .error .relativeFile

/-- The components of a source that go with the components `mask` of the result. -/
def pick (sh : Shader) (s : Scan) (a : Source) (mask : WriteMask) (e : Expr) : Expr :=
  if s.isScalar sh a.register then e else e.select a.swizzle mask

def sourceExpr (sh : Shader) (s : Scan) (a : Source) (mask : WriteMask) : Except Fault Expr := do
  let apply ← modifierExpr a.modifier
  let e ← variableOf sh s a
  return apply (pick sh s a mask e)

def sourceAt (sh : Shader) (s : Scan) (a : Source) (mask : WriteMask) : Emission Expr :=
  match sourceExpr sh s a mask with
  | .ok e => pure e
  | .error f => Emission.noExpr f

/-! ### Destinations -/

def shifted (code : Nat) (e : Expr) : Expr :=
  match code with
  | 1 => .mul (.group e) (.number "2.0")
  | 2 => .mul (.group e) (.number "4.0")
  | 3 => .mul (.group e) (.number "8.0")
  | 13 => .div (.group e) (.number "8.0")
  | 14 => .div (.group e) (.number "4.0")
  | 15 => .div (.group e) (.number "2.0")
  | _ => e

/-- Bounds a result of `n` components by zero and one. -/
def saturated (n : Nat) (e : Expr) : Expr :=
  if n = 1 then .call3 "clamp" e .zero .one
  else .call3 "clamp" e (.call1 (floatCast n) .zero) (.call1 (floatCast n) .one)

def finished (d : Dest) (e : Expr) : Expr :=
  let e := shifted d.shift e
  if d.modifiers.saturate then saturated d.mask.size e else e

/-- Assigns a result to a destination.  Nothing is assigned to no component. -/
def assignTo (sh : Shader) (s : Scan) (i : Instruction) (d : Dest) (e : Expr) : Emission Unit :=
  if d.mask.isEmpty then pure ()
  else if i.predicated then Emission.fault .predicatedDest
  else if (d.register.spelling? sh).isNone then Emission.fault .destUnnamed
  else Emission.write (.assign ⟨d.register, d.mask, s.isScalar sh d.register⟩ (finished d e))

end Scan

end ShaderLift
