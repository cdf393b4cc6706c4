/-
How many components are assigned.  The width of an expression (`Glsl.Expr.width`) is the number of its
components.  An expression that mixes widths where the language forbids it has none.

Moves, and the instructions that apply a function to every component, assign an expression made of one
source.  Modifiers, functions and bounds keep its width, so the two sides of the assignment agree exactly
if the source has as many components as are assigned.  A scalar register goes with one component only: see
`movedFace`.
-/
import ShaderLift.Proofs.Written

namespace ShaderLift

namespace Glsl

/-! ### Widths -/

/-- The functions that are applied to each component of their arguments. -/
def componentFunctions : List String :=
  ["abs", "clamp", "exp2", "log2", "fract", "sign", "dFdx", "dFdy"]

def casts : List (String × Nat) := [("float", 1), ("vec2", 2), ("vec3", 3), ("vec4", 4)]

def callWidth (function : String) (n : Nat) : Option Nat :=
  if function ∈ componentFunctions then some n
  else if n = 1 then casts.lookup function
  else none

/-- The width of what is computed from two operands: both have the same width, or one is a number. -/
def operationWidth (n m : Nat) : Option Nat :=
  if n = m ∨ m = 1 then some n else if n = 1 then some m else none

/-- The number of components of an expression.  The registers that `scalar` tells have one.  Tests, choices
and lookups are left aside. -/
def Expr.width (scalar : Register → Bool) : Expr → Option Nat
  | .number _ | .name .loopCounter | .name (.arrayBase _) => some 1
  | .name (.register r) => some (if scalar r then 1 else 4)
  | .lanes e ls => (e.width scalar).bind fun n => if 1 < n then some ls.length else none
  | .element _ index => (index.width scalar).bind fun n => if n = 1 then some 4 else none
  | .negate e | .not e | .group e => e.width scalar
  | .binary (.compare _) _ _ => none
  | .binary _ a b => (a.width scalar).bind fun n => (b.width scalar).bind (operationWidth n)
  | .call function arguments => (arguments.width scalar).bind (callWidth function)
  | .args a b =>
    (a.width scalar).bind fun n => (b.width scalar).bind fun m => if n = m then some n else none
  | _ => none

variable {scalar : Register → Bool} {e : Expr} {n : Nat}

namespace Expr

variable (a b : Expr)

@[simp] theorem width_number (text : String) : (number text).width scalar = some 1 := rfl

@[simp] theorem width_arrayBase (base : Nat) : (name (.arrayBase base)).width scalar = some 1 := rfl

@[simp] theorem width_register (r : Register) :
    (register r).width scalar = some (if scalar r then 1 else 4) := rfl

@[simp] theorem width_lanes (e : Expr) (ls : List Lane) : (lanes e ls).width scalar =
    (e.width scalar).bind fun n => if 1 < n then some ls.length else none := rfl

@[simp] theorem width_element (array : Ident) (index : Expr) : (element array index).width scalar =
    (index.width scalar).bind fun n => if n = 1 then some 4 else none := rfl

@[simp] theorem width_negate (e : Expr) : (negate e).width scalar = e.width scalar := rfl

@[simp] theorem width_not (e : Expr) : (not e).width scalar = e.width scalar := rfl

@[simp] theorem width_group (e : Expr) : (group e).width scalar = e.width scalar := rfl

@[simp] theorem width_add : (add a b).width scalar =
    (a.width scalar).bind fun n => (b.width scalar).bind (operationWidth n) := rfl

@[simp] theorem width_sub : (sub a b).width scalar =
    (a.width scalar).bind fun n => (b.width scalar).bind (operationWidth n) := rfl

@[simp] theorem width_mul : (mul a b).width scalar =
    (a.width scalar).bind fun n => (b.width scalar).bind (operationWidth n) := rfl

@[simp] theorem width_div : (div a b).width scalar =
    (a.width scalar).bind fun n => (b.width scalar).bind (operationWidth n) := rfl

@[simp] theorem width_call (function : String) (arguments : Expr) :
    (call function arguments).width scalar = (arguments.width scalar).bind (callWidth function) := rfl

@[simp] theorem width_args : (args a b).width scalar =
    (a.width scalar).bind fun n => (b.width scalar).bind fun m => if n = m then some n else none := rfl

end Expr

@[simp] theorem operationWidth_one_right (n : Nat) : operationWidth n 1 = some n :=
  if_pos (.inr rfl)

@[simp] theorem operationWidth_one_left (n : Nat) : operationWidth 1 n = some n := by
  unfold operationWidth
  split
  next hone => rw [hone.elim id Eq.symm]
  next => rfl

theorem width_call1 {function : String} (h : function ∈ componentFunctions)
    (he : e.width scalar = some n) : (Expr.call1 function e).width scalar = some n := by
  simp [Expr.call1, he, callWidth, h]

theorem width_floatCast (hpos : 0 < n) (hle : n ≤ 4) (text : String) :
    (Expr.call1 (floatCast n) (.number text)).width scalar = some n := by
  have hall : ∀ m < 4, callWidth (floatCast (m + 1)) 1 = some (m + 1) := by decide +kernel
  obtain ⟨m, rfl⟩ := Nat.exists_eq_add_one.mpr hpos
  exact hall m hle

end Glsl

open Glsl

theorem WriteMask.size_le (m : WriteMask) : m.size ≤ 4 := List.length_filter_le m.has Lane.all

theorem WriteMask.size_pos {m : WriteMask} (h : m.isEmpty = false) : 0 < m.size :=
  List.length_pos_iff.mpr (of_decide_eq_false h)

theorem WriteMask.size_of_isXyzw {m : WriteMask} (h : m.isXyzw = true) : m.size = 4 :=
  congrArg List.length (show m.lanes = Lane.all from of_decide_eq_true h)

/-! ### Operands -/

namespace Scan

variable {sh : Shader} {s : Scan} {a : Source} {d : Dest} {mask : WriteMask} {e : Expr} {n : Nat}
variable {scalar : Register → Bool}

theorem width_indexExpr (sh : Shader) (s : Scan) {index : RelativeIndex} (ha : a.IsIndexed)
    (h : a.relative = some index) :
    (indexExpr index).width (s.isScalar sh) = some 1 := by
  unfold indexExpr
  split
  · rfl
  next hloop => simp [isScalar_index ha h hloop]

theorem width_variableOf (ha : a.IsIndexed) (he : variableOf sh s a = .ok e) :
    e.width (s.isScalar sh) = some (if s.isScalar sh a.register then 1 else 4) := by
  rcases variableOf_cases he with ⟨-, rfl⟩ | ⟨index, hrelative, hread⟩
  · rfl
  · have hone := width_indexExpr sh s ha hrelative
    rw [isScalar_of_relative he hrelative]
    rcases hread with ⟨-, rfl⟩ | ⟨-, array, delta, rfl⟩
    · simp [hone]
    · unfold arrayElement
      dsimp only
      split <;> split <;> simp [hone]

theorem width_pick (he : e.width (s.isScalar sh) = some (if s.isScalar sh a.register then 1 else 4)) :
    (pick sh s a mask e).width (s.isScalar sh) =
      some (if s.isScalar sh a.register then 1 else mask.size) := by
  unfold pick
  cases hscalar : s.isScalar sh a.register with
  | true =>
    rw [hscalar] at he
    exact he
  | false =>
    rw [hscalar, if_neg Bool.false_ne_true] at he
    simp only [Bool.false_eq_true, if_false]
    unfold Expr.select
    split
    next hall => rw [he, WriteMask.size_of_isXyzw (Bool.and_eq_true _ _ ▸ hall).2]
    next => simp [he, WriteMask.size]

theorem width_modifierExpr {m : SourceModifier} {f : Expr → Expr} (hf : modifierExpr m = .ok f)
    (he : e.width scalar = some n) : (f e).width scalar = some n := by
  have habs : (Expr.call1 "abs" e).width scalar = some n := width_call1 (by decide) he
  cases m <;> cases hf <;>
    simp [Expr.half, Expr.one, Expr.two, he, habs]

theorem width_sourceExpr (ha : a.IsIndexed) (he : sourceExpr sh s a mask = .ok e) :
    e.width (s.isScalar sh) = some (if s.isScalar sh a.register then 1 else mask.size) := by
  obtain ⟨f, x, hf, hx, rfl⟩ := exists_variableOf he
  exact width_modifierExpr hf (width_pick (width_variableOf ha hx))

theorem width_shifted (code : Nat) (he : e.width scalar = some n) :
    (shifted code e).width scalar = some n := by
  unfold shifted
  split <;> simp [he]

theorem width_saturated {k : Nat} (hpos : 0 < k) (hle : k ≤ 4) (he : e.width scalar = some n) :
    (saturated k e).width scalar = if n = k then some n else none := by
  have hclamp : ∀ {low high : Expr}, low.width scalar = some k → high.width scalar = some k →
      (Expr.call3 "clamp" e low high).width scalar = if n = k then some n else none := by
    intro low high hlow hhigh
    have hmem : "clamp" ∈ componentFunctions := by decide
    by_cases hn : n = k <;> simp [Expr.call3, he, hlow, hhigh, callWidth, hmem, hn]
  unfold saturated
  split
  next hk =>
    subst hk
    exact hclamp rfl rfl
  next => exact hclamp (width_floatCast hpos hle _) (width_floatCast hpos hle _)

theorem width_finished (hsome : d.mask.isEmpty = false) (he : e.width scalar = some n) :
    (finished d e).width scalar = some d.mask.size ↔ n = d.mask.size := by
  have hshifted := width_shifted d.shift he
  unfold finished
  dsimp only
  split
  · rw [width_saturated (WriteMask.size_pos hsome) d.mask.size_le hshifted]
    by_cases hn : n = d.mask.size <;> simp [hn]
  · rw [hshifted, Option.some_inj]

theorem width_target {r : Register} (hnarrow : s.isScalar sh r = true → mask = .x) :
    (⟨r, mask, s.isScalar sh r⟩ : Target).expr.width (s.isScalar sh) = some mask.size := by
  unfold Target.expr
  dsimp only
  cases hscalar : s.isScalar sh r with
  | true =>
    rw [hnarrow hscalar]
    simp only [Bool.true_or, if_true, Expr.width_register, hscalar]
    rfl
  | false =>
    rw [Bool.false_or]
    split
    next hall => simp [hscalar, WriteMask.size_of_isXyzw hall]
    next => simp [hscalar, WriteMask.size]

end Scan

/-! ### Assignments -/

/-- Moves, and the instructions that apply a function to every component of one source. -/
def Opcode.isComponentwise : Opcode → Bool
  | .mov | .abs | .frc | .sgn | .exp | .expP | .log | .logP | .dsx | .dsy => true
  | _ => false

theorem Instruction.code_of_isComponentwise {i : Instruction} (h : i.opcode.isComponentwise = true)
    (sh : Shader) (s : Scan) :
    ∃ f : Expr → Expr, Scan.instructionCode sh s i = Scan.unaryCode sh s i f ∧
      ∀ {scalar : Register → Bool} {e : Expr} {n : Nat}, e.width scalar = some n →
        (f e).width scalar = some n := by
  have hfunction : ∀ g : String, g ∈ componentFunctions →
      ∀ {scalar : Register → Bool} {e : Expr} {n : Nat}, e.width scalar = some n →
        (Expr.call1 g e).width scalar = some n := fun _ hg _ _ _ => width_call1 hg
  unfold Scan.instructionCode
  cases e : i.opcode with
  | mov => exact ⟨id, rfl, id⟩
  | abs => exact ⟨_, rfl, hfunction _ (by decide)⟩
  | frc => exact ⟨_, rfl, hfunction _ (by decide)⟩
  | sgn => exact ⟨_, rfl, hfunction _ (by decide)⟩
  | exp | expP => exact ⟨_, rfl, hfunction _ (by decide)⟩
  | log | logP => exact ⟨_, rfl, hfunction _ (by decide)⟩
  | dsx => exact ⟨_, rfl, hfunction _ (by decide)⟩
  | dsy => exact ⟨_, rfl, hfunction _ (by decide)⟩
  | _ =>
    rw [e] at h
    cases h

/-- **Both sides of an assignment have the same width unless a scalar is assigned to more.**  This is about
moves and functions of one source; the left side has as many components as the mask has lanes. -/
theorem assigned_width_agrees_iff (v : Visit) (i : Instruction) (h : v.instruction? = some i)
    (accepted : v.after.failing = false) (hop : i.opcode.isComponentwise = true) :
    (i.dest.mask.isEmpty = true → v.written = []) ∧
      (i.dest.mask.isEmpty = false → ∃ t e, v.written = [.assign t e] ∧
        t.expr.width (v.after.isScalar v.env.toShader) = some i.dest.mask.size ∧
        (e.width (v.after.isScalar v.env.toShader) = some i.dest.mask.size ↔
          v.after.isScalar v.env.toShader (i.source 0).register = false ∨ i.dest.mask.size = 1)) := by
  obtain ⟨t, hcode⟩ := Visit.generates h accepted
  have hscalar := hcode.isScalar_eq v.env.toShader
  obtain ⟨hcount, hshape, hother⟩ : 0 < i.opcode.info.shape.sourceCount v.env.toShader ∧
      i.opcode.info.shape.hasDest = true ∧ i.opcode ≠ .dcl := by
    cases e : i.opcode <;> first | exact ⟨Nat.succ_pos _, rfl, nofun⟩ | (rw [e] at hop; cases hop)
  obtain ⟨f, hunary, hwidth⟩ := Instruction.code_of_isComponentwise hop v.env.toShader t
  have hsound := hcode.sound
  rw [hcode.code]
  rw [hunary] at hsound ⊢
  unfold Scan.unaryCode at hsound ⊢
  obtain ⟨a, ha, hrest⟩ := Scan.bind_sourceAt hsound
  rw [hrest] at hsound ⊢
  constructor
  · intro hempty
    rw [Scan.assignTo, if_pos hempty]
    rfl
  · intro hsome
    rw [Scan.assignTo_eq hsound hsome, ← hscalar]
    refine ⟨_, _, rfl, Scan.width_target (hcode.mask hshape hother), ?_⟩
    have hsource := hwidth (Scan.width_sourceExpr (hcode.indexed 0 hcount) ha)
    rw [Scan.width_finished hsome hsource]
    cases t.isScalar v.env.toShader (i.source 0).register with
    | true => simp [eq_comm]
    | false => simp

/-- A pixel shader that moves the face it is on into the components of a temporary that a word says. -/
def movedFace (dest : Word) : List Word :=
  [0xFFFF0300,
    0x0200001F, 0x80000000, 0x900F1001,
    0x02000001, dest, 0x90E41001,
    0x02000001, 0x800F0800, 0x80E40000,
    0xFFFF]

theorem movedFace_width_agrees :
    ∃ v ∈ unitsOf {} (movedFace 0x80010000), ∃ i, v.instruction? = some i ∧ v.after.failing = false ∧
      i.opcode.isComponentwise = true ∧
      v.after.isScalar v.env.toShader (i.source 0).register = true ∧
      (i.dest.mask.isEmpty = true → v.written = []) ∧
      (i.dest.mask.isEmpty = false → ∃ t e, v.written = [.assign t e] ∧
        t.expr.width (v.after.isScalar v.env.toShader) = some i.dest.mask.size ∧
        (e.width (v.after.isScalar v.env.toShader) = some i.dest.mask.size ↔
          v.after.isScalar v.env.toShader (i.source 0).register = false ∨ i.dest.mask.size = 1)) := by
  have hfound : ((unitsOf {} (movedFace 0x80010000)).any fun v => v.instruction?.any fun i =>
      decide (v.after.failing = false ∧ i.opcode.isComponentwise = true ∧
        v.after.isScalar v.env.toShader (i.source 0).register = true)) = true := by
    decide +kernel
  obtain ⟨v, hv, i, hi, hfacts⟩ := exists_instruction hfound
  obtain ⟨haccepted, hop, hscalar⟩ := of_decide_eq_true hfacts
  exact ⟨v, hv, i, hi, haccepted, hop, hscalar, assigned_width_agrees_iff v i hi haccepted hop⟩

/-- Moved into all four components, the face is still one number. -/
theorem movedFace_width_differs :
    (liftWords .glsl110 {} (movedFace 0x800F0000)).errors = [] ∧
      ∃ v ∈ unitsOf {} (movedFace 0x800F0000), ∃ i, v.instruction? = some i ∧ v.after.failing = false ∧
        i.opcode = .mov ∧ ∃ t e, v.written = [.assign t e] ∧
          t.expr.width (v.after.isScalar v.env.toShader) = some 4 ∧
          e.width (v.after.isScalar v.env.toShader) = some 1 := by
  refine ⟨by decide +kernel, ?_⟩
  have hfound : ((unitsOf {} (movedFace 0x800F0000)).any fun v => v.instruction?.any fun i =>
      decide (v.after.failing = false ∧ i.opcode = .mov ∧
        v.written = [.assign ⟨⟨.temp, 0⟩, .xyzw, false⟩ (.register ⟨.misc, 1⟩)] ∧
        v.after.isScalar v.env.toShader ⟨.temp, 0⟩ = false ∧
        v.after.isScalar v.env.toShader ⟨.misc, 1⟩ = true)) = true := by
    decide +kernel
  obtain ⟨v, hv, i, hi, hfacts⟩ := exists_instruction hfound
  obtain ⟨haccepted, hop, hwritten, htemp, hface⟩ := of_decide_eq_true hfacts
  refine ⟨v, hv, i, hi, haccepted, hop, _, _, hwritten, ?_, ?_⟩
  · show some (if _ then 1 else 4) = _
    rw [htemp]
    rfl
  · show some (if _ then 1 else 4) = _
    rw [hface]
    rfl

end ShaderLift
