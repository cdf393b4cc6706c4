/-
The translation of a shader.  Reading and writing go hand in hand: as soon as a unit is read its text is
put out, in the words of a dialect and as the caller wishes, and where a function is closed the section
that text goes to says whether it is the entry point.  The declarations follow after the last unit, each
one as soon as its place is known.  The data of `Scan` and `Interface` are made out on the way.
-/
import ShaderLift.Glsl.Buffer
import ShaderLift.Glsl.Program

namespace ShaderLift

open Glsl

/-- All that a translation has to go by: the dialect, what the caller wishes, and what the version word says. -/
structure Task where
  profile : Profile
  options : Options
  shader : Shader
  versionWord : Word

namespace Task

def ofWord? (p : Profile) (o : Options) (w : Word) : Option Task :=
  (Shader.ofWord? w).map fun sh => ⟨p, o, sh, w⟩

def env (k : Task) : Env where
  toShader := k.shader
  versionWord := k.versionWord
  swizzles := k.options.swizzles
  samplers := k.options.samplers
  knownSize := k.options.knownSize

def declLayout (k : Task) (ds : List Decl) : List Layout :=
  Layout.lines (ds.flatMap (Decl.lines k.profile k.shader))

end Task

structure Translation where
  scan : Scan
  output : Buffer := {}

namespace Translation

variable (k : Task)

def onScan (t : Translation) (f : Scan → Scan) : Translation := { t with scan := f t.scan }

def onOutput (t : Translation) (f : Buffer → Buffer) : Translation := { t with output := f t.output }

/-! ### Code -/

/-- Puts the version and the head of the entry point out. -/
def begin (t : Translation) : Translation :=
  t.onOutput fun b =>
    let b := b.redirect .preface (Layout.lines (k.profile.versionLines k.shader))
    let b := b.redirect .intro [.line ("void " ++ k.options.entryPoint ++ "()"), .line "\x7b"]
    (b.set .main).put [.indent]

/-- Where the text of a helper goes.  The largest number is a constant that is declared at the end. -/
def helperText (h : Helper) : Option (Section × List Layout) :=
  match h with
  | .textureLevels =>
    some (.preface, Layout.lines (levelLines k.profile k.shader) ++ [.blank])
  | .largest => none
  | .lighting | .reflection => some (.helpers, h.layout)

/-- Asks for a helper.  Its text is put out the first time. -/
def require (t : Translation) (h : Helper) : Translation :=
  if t.scan.helpers.contains h then t
  else
    let t := t.onScan fun s => { s with helpers := addHelper s.helpers h }
    match helperText k h with
    | none => t
    | some (target, steps) => t.onOutput fun b => b.redirect target steps

def write (t : Translation) (code : List Stmt) : Translation :=
  (t.onScan fun s => { s with code := s.code ++ code }).onOutput fun b =>
    b.put (code.flatMap (Stmt.layout k.shader))

/-- Takes over what the code of an instruction is. -/
def emit (t : Translation) (e : Emission Unit) : Translation :=
  ((e.helpers.foldl (require k) t).write k e.code).onScan fun s => s.failAll e.faults

def define (t : Translation) (i : Instruction) : Translation :=
  match i.constant? with
  | none => t
  | some c => t.onOutput fun b => b.redirect .globals (k.declLayout [.literal c])

def conclude (t : Translation) : Translation :=
  if Scan.colorFromTemp k.shader then
    (t.onScan fun s => s.markUsed ⟨.colorOut, 0⟩ true).write k [Scan.copyColor]
  else t.onOutput fun b => b.put (epilogue k.options k.shader)

/-- Closes the function that is open.  Subroutines come next. -/
def close (t : Translation) : Translation :=
  let t := if t.output.current = .main then t.conclude k else t
  (t.write k [.closeFunction]).onOutput fun b => b.set .subroutines

/-! ### Units -/

def generate (t : Translation) (i : Instruction) : Translation :=
  if t.scan.failing then t
  else if i.opcode = .ret then t.close k
  else (t.emit k (Scan.instructionCode k.shader t.scan i)).define k i

def execute (t : Translation) (i : Instruction) : Translation :=
  let t := t.onScan fun s => (Scan.judge k.env s i).charge i.opcode.info.slots
  (t.generate k i).onScan fun s =>
    { s with
      pads := if i.opcode.closesMatrix then {} else s.pads
      previous := some i.opcode }

def readInstruction (t : Translation) (op : Opcode) (w : InstructionWord) (ws : List Word) :
    Translation × Nat :=
  let s := t.scan.failIf w.highBit .instructionHighBit
  if op.isReserved then ({ t with scan := s.fail .unknownOpcode }, w.length + 1)
  else
    let start := s.position
    let s := (s.failAll (Scan.headFaults k.env op w)).advance
    let (i, count, s) := Scan.readOperands k.env op w s ws
    let t := { t with scan := s.moveTo start }.execute k i
    let (s, length) := Scan.settleLength k.env op w t.scan count
    ({ t with scan := s }, length)

/-- Translates the unit that starts with `w`, with `ws` after it, and says how many words it takes.  Units
other than instructions and the end mark have no text. -/
def readUnit (t : Translation) (w : Word) (ws : List Word) : Translation × Nat :=
  match UnitHead.ofWord w with
  | .finish =>
    let t := t.onScan fun s =>
      { s with ended := true }.failIf (k.env.knownSize && !ws.isEmpty) .earlyEnd
    (if t.scan.failing || t.scan.previous = some .ret then t else t.close k, 1)
  | .instruction op fields => t.readInstruction k op fields ws
  | _ =>
    let (s, length) := Scan.readUnit k.env t.scan w ws
    ({ t with scan := s }, length)

def readUnits (t : Translation) (n : Nat) : List Word → Translation
  | [] => t
  | w :: ws =>
    let (t, length) := (t.onScan fun s => s.startUnit (.word n)).readUnit k w ws
    if ws.length + 1 < length then
      t.onScan fun s => { s.fail .truncated with truncated := true }
    else if Scan.stopsAt k.env w then t
    else readUnits t (n + length) (ws.drop (length - 1))
termination_by ws => ws.length
decreasing_by
  simp only [List.length_drop, List.length_cons]
  omega

def start : Translation :=
  let t : Translation := { scan := Scan.start k.env }
  if t.scan.failing then t else t.begin k

def ofUnits (ws : List Word) : Translation :=
  ((start k).readUnits k 1 ws).onScan (Scan.finish k.env)

end Translation

/-! ### Declarations -/

/-- A translation whose declarations are made. -/
structure Declaring extends Translation where
  interface : Interface := {}
  /-- The constants that have no place yet. -/
  unplaced : List (ConstantKind × Nat) := []

namespace Declaring

variable (k : Task)

def fail (d : Declaring) (fs : List Fault) : Declaring := { d with scan := d.scan.failAll fs }

def declare (d : Declaring) (ds : List Decl) : Declaring :=
  { d with output := d.output.redirect .globals (k.declLayout ds) }

/-- Puts a declaration out at the start of the entry point. -/
def declareLocal (d : Declaring) (x : Local) : Declaring :=
  { d with output := d.output.redirect .intro [.indent, .line (x.line k.shader)] }

/-- Accounts for a register that the code neither declares nor defines. -/
def addRegister (d : Declaring) (r : Register) : Declaring :=
  if Interface.isVariable r then
    { d.declare k (variableDecls k.shader r) with
      interface := { d.interface with globals := d.interface.globals ++ [r] } }
  else
    match Interface.constantKind? r with
    | some kind => { d with unplaced := d.unplaced ++ [(kind, r.number)] }
    | none =>
      match Interface.impliedAttribute? k.shader r with
      | some a => { d with scan := d.scan.setAttribute r a }
      | none => d.fail [.undefinable]

def addArray (d : Declaring) (a : ConstantArray) : Declaring :=
  let slots := d.interface.slots
  let placed : PlacedArray := ⟨a, if a.isLiteral then none else some slots.float⟩
  { d.declare k [arrayDecl placed] with
    interface := { d.interface with
      arrays := d.interface.arrays ++ [placed]
      slots := if a.isLiteral then slots else slots.add a.count .float } }

def addConstant (d : Declaring) (c : ConstantKind × Nat) : Declaring :=
  let slots := d.interface.slots
  let (place, slots) :=
    match Interface.arrayOf? d.interface.arrays c.1 c.2 with
    | some a => (Interface.placeIn a c.2, slots)
    | none => (.own (slots.count c.1), slots.add 1 c.1)
  let placed : PlacedConstant := ⟨c.1, c.2, place⟩
  { d.declare k [.constant placed] with
    interface := { d.interface with constants := d.interface.constants ++ [placed], slots } }

def addSampler (d : Declaring) (e : Register × SamplerUse) : Declaring :=
  let slots := d.interface.slots
  let placed : PlacedSampler :=
    ⟨e.1.number, e.2.kind, if e.2.bump then some slots.float else none⟩
  { (d.fail (Interface.samplerFaults e)).declare k (samplerDecls placed) with
    interface := { d.interface with
      samplers := d.interface.samplers ++ [placed]
      slots := if e.2.bump then slots.add 2 .float else slots } }

def addAttribute (many : Bool) (d : Declaring) (e : Register × Attribute) : Declaring :=
  let d := (d.fail (Interface.attributeFaults k.shader e)).declare k
    (attributeDecls k.shader many e.1 e.2)
  (attributeLocals k.shader e.1).foldl (declareLocal k) d

/-- Puts out what depends on how many places there are. -/
def finish (d : Declaring) : Declaring :=
  let d := { d with output := d.output.redirect .globals [.blank] }
  if d.scan.relativeInput then d.fail [.relativeInputUnsupported]
  else
    let steps := sizeLayout k.options k.shader d.scan.helpers d.interface.slots
    { d with output := d.output.redirect .preface steps }

/-- Makes all declarations but those of registers. -/
def addRest (d : Declaring) : Declaring :=
  let many := d.scan.used.registers.any fun r => r.file = .colorOut && 0 < r.number
  let d := (Interface.usedArrays d.scan).foldl (addArray k) d
  let d := d.unplaced.foldl (addConstant k) d
  let d := d.scan.samplers.entries.foldl (addSampler k) d
  let attributes := d.scan.attributes.entries
  let d := attributes.foldl (addAttribute k many) d
  { d with interface := { d.interface with attributes, manyColors := many } }

/-- Makes all declarations.  An output that has to be declared and is not hides all that follows. -/
def addAll (d : Declaring) : List Register → Declaring
  | [] => d.addRest k
  | r :: rs =>
    if Interface.needsDeclaration k.shader r then d.fail [.undeclaredOutput]
    else addAll (d.addRegister k r) rs

def ofTranslation (t : Translation) : Declaring :=
  let d := addAll k { toTranslation := t } (Interface.undeclared t.scan)
  if d.scan.faults.isEmpty then d.finish k else d

end Declaring

end ShaderLift
