/-
The code of an instruction.  Code is written only for an instruction without a fault, but faults can
still come up here: operands that have no expression, lookups through samplers that nothing is known
about, and instructions that no code is known for.
-/
import ShaderLift.Scan.Code.Texture

namespace ShaderLift

open Glsl

namespace Scan

/-! ### Arithmetic -/

def unaryCode (sh : Shader) (s : Scan) (i : Instruction) (f : Expr → Expr) : Emission Unit := do
  let a ← sourceAt sh s (i.source 0) i.dest.mask
  assignTo sh s i i.dest (f a)

def binaryCode (sh : Shader) (s : Scan) (i : Instruction) (f : Expr → Expr → Expr) :
    Emission Unit := do
  let a ← sourceAt sh s (i.source 0) i.dest.mask
  let b ← sourceAt sh s (i.source 1) i.dest.mask
  assignTo sh s i i.dest (f a b)

def ternaryCode (sh : Shader) (s : Scan) (i : Instruction) (f : Expr → Expr → Expr → Expr) :
    Emission Unit := do
  let a ← sourceAt sh s (i.source 0) i.dest.mask
  let b ← sourceAt sh s (i.source 1) i.dest.mask
  let c ← sourceAt sh s (i.source 2) i.dest.mask
  assignTo sh s i i.dest (f a b c)

/-- Assigns a function of one component, which for zero is the largest number. -/
def guardedCode (sh : Shader) (s : Scan) (i : Instruction) (f : Expr → Expr) : Emission Unit := do
  Emission.require .largest
  let a ← sourceAt sh s (i.source 0) .x
  assignTo sh s i i.dest
    (.call1 (floatCast i.dest.mask.size)
      (.choose (.group (.compare .equal a .zero)) (.number "FLT_MAX") (f a)))

def dotCode (sh : Shader) (s : Scan) (i : Instruction) (mask : WriteMask) : Emission Unit := do
  let a ← sourceAt sh s (i.source 0) mask
  let b ← sourceAt sh s (i.source 1) mask
  assignTo sh s i i.dest (.call1 (floatCast i.dest.mask.size) (.dot a b))

def dot2AddCode (sh : Shader) (s : Scan) (i : Instruction) : Emission Unit := do
  let a ← sourceAt sh s (i.source 0) .xy
  let b ← sourceAt sh s (i.source 1) .xy
  let c ← sourceAt sh s (i.source 2) .x
  assignTo sh s i i.dest (.call1 (floatCast i.dest.mask.size) (.add (.dot a b) c))

/-- Dot products of a source with the rows of a matrix. -/
def productsCode (sh : Shader) (s : Scan) (mask : WriteMask) (a : Expr) :
    List Source → Emission (List Expr)
  | [] => pure []
  | row :: rows => do
    let b ← sourceAt sh s row mask
    let products ← productsCode sh s mask a rows
    return .dot a b :: products

/-- Assigns a product with a matrix, of whose rows the components `mask` count. -/
def matrixCode (sh : Shader) (s : Scan) (i : Instruction) (mask : WriteMask) (form : MatrixForm) :
    Emission Unit := do
  let a ← sourceAt sh s (i.source 0) mask
  let products ← productsCode sh s mask a (i.matrixRows form.rows)
  assignTo sh s i i.dest (.call (floatCast form.rows) (Expr.listOf products))

def compareCode (sh : Shader) (s : Scan) (i : Instruction) (c : Comparison) : Emission Unit :=
  binaryCode sh s i fun a b =>
    if i.dest.mask.size = 1 then .call1 "float" (.compare c a b)
    else .call1 (floatCast i.dest.mask.size) (.call2 c.vectorFunction a b)

def lightingCode (sh : Shader) (s : Scan) (i : Instruction) : Emission Unit := do
  Emission.require .lighting
  let a ← sourceAt sh s (i.source 0) .xyzw
  assignTo sh s i i.dest ((Expr.call1 "LIT" a).select .identity i.dest.mask)

def distanceCode (sh : Shader) (s : Scan) (i : Instruction) : Emission Unit := do
  let aY ← sourceAt sh s (i.source 0) .y
  let bY ← sourceAt sh s (i.source 1) .y
  let aZ ← sourceAt sh s (i.source 0) .z
  let bW ← sourceAt sh s (i.source 1) .w
  assignTo sh s i i.dest
    ((Expr.call4 "vec4" .one (.mul aY bY) aZ bW).select .identity i.dest.mask)

def crossCode (sh : Shader) (s : Scan) (i : Instruction) : Emission Unit := do
  let a ← sourceAt sh s (i.source 0) .xyz
  let b ← sourceAt sh s (i.source 1) .xyz
  let e := Expr.call2 "cross" a b
  assignTo sh s i i.dest (if i.dest.mask.isXyz then e else .lanes e i.dest.mask.lanes)

def sinCosCode (sh : Shader) (s : Scan) (i : Instruction) : Emission Unit := do
  let a ← sourceAt sh s (i.source 0) .x
  let cos : Expr := .call1 "cos" a
  let sin : Expr := .call1 "sin" a
  assignTo sh s i i.dest
    (if i.dest.mask.isX then cos else if i.dest.mask.isY then sin else .call2 "vec2" cos sin)

/-- Assigns the nearest integers, halves away from zero. -/
def roundCode (sh : Shader) (s : Scan) (i : Instruction) : Emission Unit :=
  let n := i.dest.mask.size
  unaryCode sh s i fun a =>
    let half : Expr := if n = 1 then .half else .call1 (floatCast n) .half
    .call1 (if n = 1 then "int" else s!"ivec{n}")
      (.mul (.call1 "floor" (.add (.call1 "abs" a) half)) (.call1 "sign" a))

/-! ### Choices -/

/-- Groups lanes that a swizzle maps to the same component: each group with its first lane. -/
def laneGroups (swizzle : Swizzle) (ls : List Lane) : List (Lane × List Lane) :=
  let together (l : Lane) := ls.filter fun k => swizzle.lane k = swizzle.lane l
  let isFirst (l : Lane) : Bool := (together l).head? = some l
  (ls.filter isFirst).map fun l => (l, together l)

/-- Assigns some lanes of the second or third source, as one lane of the first one says. -/
def chooseGroupCode (sh : Shader) (s : Scan) (i : Instruction) (test : Expr → Expr)
    (group : Lane × List Lane) : Emission Unit := do
  let mask := WriteMask.ofLanes group.2
  let a ← sourceAt sh s (i.source 0) (.single group.1)
  let b ← sourceAt sh s (i.source 1) mask
  let c ← sourceAt sh s (i.source 2) mask
  assignTo sh s i { i.dest with mask } (.group (.choose (.group (test a)) b c))

def chooseGroupsCode (sh : Shader) (s : Scan) (i : Instruction) (test : Expr → Expr) :
    List (Lane × List Lane) → Emission Unit
  | [] => pure ()
  | group :: groups => do
    chooseGroupCode sh s i test group
    chooseGroupsCode sh s i test groups

/-- Assigns the second source where the first one passes a test, and the third one elsewhere: one
conditional for all lanes that read the same component of the first. -/
def chooseCode (sh : Shader) (s : Scan) (i : Instruction) (test : Expr → Expr) : Emission Unit :=
  chooseGroupsCode sh s i test (laneGroups (i.source 0).swizzle i.dest.mask.lanes)

/-! ### Control flow -/

def conditionCode (sh : Shader) (s : Scan) (a : Source) (f : Expr → Stmt) : Emission Unit := do
  let test ← sourceAt sh s a .x
  Emission.write (f test)

def comparisonCode (sh : Shader) (s : Scan) (i : Instruction) (f : Expr → Stmt) : Emission Unit :=
  match Comparison.ofCode? i.controls with
  | none => Emission.fault .comparisonControls
  | some c => do
    let a ← sourceAt sh s (i.source 0) .x
    let b ← sourceAt sh s (i.source 1) .x
    Emission.write (f (.compare c a b))

/-- Assigns the outcome of a comparison to a predicate. -/
def predicateCode (sh : Shader) (s : Scan) (i : Instruction) : Emission Unit :=
  match Comparison.ofCode? i.controls with
  | none => Emission.fault .comparisonControls
  | some c =>
    binaryCode sh s i fun a b =>
      if i.dest.mask.size = 1 then .group (.compare c a b) else .call2 c.vectorFunction a b

/-- Whether the body of the entry point is not closed yet. -/
def inMain (s : Scan) : Bool := !s.code.contains .closeFunction

/-- Whether the colour of a pixel is what the first temporary holds at the end. -/
def colorFromTemp (sh : Shader) : Bool := sh.isPixel && !sh.atLeast 2 0

/-- The colour of a pixel shader before shader model 2 is copied at the end of the entry point. -/
def copyColor : Stmt := .assign ⟨⟨.colorOut, 0⟩, .xyzw, false⟩ (.register ⟨.temp, 0⟩)

def closeCode (sh : Shader) (s : Scan) : Emission Unit := do
  if s.inMain && colorFromTemp sh then
    Emission.write copyColor
  Emission.write .closeFunction

/-! ### Instructions -/

def instructionCode (sh : Shader) (s : Scan) (i : Instruction) : Emission Unit :=
  let function (f : String) := unaryCode sh s i fun a => .call1 f a
  let label := (i.source 0).register.number
  let counted : Bool := 0 < s.loops
  match i.opcode with
  | .nop | .dcl | .texM3x2Pad | .texM3x3Pad | .defF | .defI | .defB | .reserved _ => pure ()
  | .mov => unaryCode sh s i id
  | .add => binaryCode sh s i .add
  | .sub => binaryCode sh s i .sub
  | .mul => binaryCode sh s i .mul
  | .mad => ternaryCode sh s i fun a b c => .add (.group (.mul a b)) c
  | .rcp => guardedCode sh s i fun a => .div .one a
  | .rsq => guardedCode sh s i fun a => .call1 "inversesqrt" (.call1 "abs" a)
  | .dp3 => dotCode sh s i .xyz
  | .dp4 => dotCode sh s i .xyzw
  | .dp2Add => dot2AddCode sh s i
  | .min => binaryCode sh s i (.call2 "min")
  | .max => binaryCode sh s i (.call2 "max")
  | .pow => binaryCode sh s i fun a b => .call2 "pow" (.call1 "abs" a) b
  | .slt => compareCode sh s i .less
  | .sge => compareCode sh s i .greaterEqual
  | .exp | .expP => function "exp2"
  | .log | .logP => function "log2"
  | .frc => function "fract"
  | .sgn => function "sign"
  | .abs => function "abs"
  | .nrm => function "normalize"
  | .dsx => function "dFdx"
  | .dsy => function "dFdy"
  | .lit => lightingCode sh s i
  | .dst => distanceCode sh s i
  | .lrp => ternaryCode sh s i fun a b c => .call3 "mix" c b a
  | .m4x4 => matrixCode sh s i .xyzw .m4x4
  | .m4x3 => matrixCode sh s i .xyzw .m4x3
  | .m3x4 => matrixCode sh s i .xyz .m3x4
  | .m3x3 => matrixCode sh s i .xyz .m3x3
  | .m3x2 => matrixCode sh s i .xyz .m3x2
  | .crs => crossCode sh s i
  | .sinCos => sinCosCode sh s i
  | .movA => roundCode sh s i
  | .call => Emission.write (.call label counted)
  | .callNz => conditionCode sh s (i.source 1) fun test => .callIf test label counted
  | .loop => Emission.write (.openLoop (i.source 1).register)
  | .endLoop => Emission.write .closeLoop
  | .rep => conditionCode sh s (i.source 0) fun count => .openRep s.reps count
  | .endRep | .endIf => Emission.write .closeBlock
  | .ret => closeCode sh s
  -- the operand was recorded when it was read, so the label is known here and its function is never left out
  | .label => Emission.write (.openFunction label (s.callsOf label = .inLoop))
  | .ifBool => conditionCode sh s (i.source 0) .openIf
  | .ifCompare => comparisonCode sh s i .openIf
  | .otherwise => Emission.write .openElse
  | .leave => Emission.write .leave
  | .leaveCompare => comparisonCode sh s i .leaveIf
  | .leavePredicate => conditionCode sh s (i.source 0) .leaveIf
  | .setP => predicateCode sh s i
  | .cnd => chooseCode sh s i fun a => .compare .greater a .half
  | .cmp => chooseCode sh s i fun a => .compare .greaterEqual a .zero
  | .texKill => Emission.write (.killIfNegative i.dest.register)
  | .texLd => loadCode sh s i
  | .texLdd => gradientLoadCode sh s i
  | .texLdl => levelLoadCode sh s i
  | .texBem => bumpCode sh s i false
  | .texBemL => bumpCode sh s i true
  | .texM3x2Tex => matrix2Code sh s i
  | .texM3x3Tex => matrix3LookupCode sh s i
  | .texM3x3 => matrix3Code sh s i
  | .texM3x3Spec => reflectionCode sh s i false
  | .texM3x3VSpec => reflectionCode sh s i true
  | .texCrd | .texReg2Ar | .texReg2Gb | .texReg2Rgb | .texDp3Tex | .texM3x2Depth | .texDp3
  | .texDepth | .bem => Emission.fault (.unimplemented i.opcode)

end Scan

end ShaderLift
