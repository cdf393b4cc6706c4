/-
Whether an instruction may stand where it stands, and what it leaves behind.  `violations` lists what an
instruction does wrong.  `account` is what the instruction does to the state whether it is right or not:
it defines constants, gives registers their meaning, opens and closes blocks and takes up extra
instruction slots. The two are independent, so a faulty instruction still counts for those that follow.
-/
import ShaderLift.Instruction
import ShaderLift.Scan.State

namespace ShaderLift

def faultIf (b : Bool) (f : Fault) : List Fault := if b then [f] else []

/-- The first fault of a list whose condition holds. -/
def firstFault (rules : List (Bool × Fault)) : List Fault :=
  ((rules.find? Prod.fst).map Prod.snd).toList

/-- The components that a product with a matrix of this form has. -/
def MatrixForm.mask : MatrixForm → WriteMask
  | .m4x4 | .m3x4 => .xyzw
  | .m4x3 | .m3x3 => .xyz
  | .m3x2 => .xy

/-- Whether an opcode takes up the waiting rows of a texture matrix. -/
def Opcode.closesMatrix : Opcode → Bool
  | .texM3x2Tex | .texM3x3 | .texM3x3Tex | .texM3x3Spec | .texM3x3VSpec => true
  | _ => false

/-- Of the opcodes that address textures by other textures: the kind of texture looked up, if one is. -/
def Opcode.lookupKind? : Opcode → Option TextureKind
  | .texBem | .texBemL | .texM3x2Tex => some .plane
  | .texM3x3Tex | .texM3x3Spec | .texM3x3VSpec => some .cube
  | _ => none

def isLoadControl (controls : Nat) : Bool := controls ≤ 2

namespace Scan

/-! ### Rules -/

def replicateFaults (i : Instruction) (n : Nat) (f : Fault) : List Fault :=
  faultIf (!(i.source n).swizzle.isReplicate) f

/-- The highest label number. -/
def labelLimit (sh : Shader) : Nat := if sh.atLeast 2 255 then 2047 else 15

def labelFaults (sh : Shader) (i : Instruction) (use : LabelUse) : List Fault :=
  let r := (i.source 0).register
  faultIf (r.file != .label) (.labelFile use)
    ++ faultIf (!sh.atLeast 2 0) (.labelModel use)
    ++ faultIf (labelLimit sh < r.number) (.labelRange (labelLimit sh))

/-- Whether the current place is inside a counted loop. -/
def callContext (s : Scan) : CallContext :=
  if 0 < s.loops then .inLoop else .outsideLoop

/-- All calls of a label have to stand inside of loops, or all outside. -/
def callFaults (s : Scan) (label : Nat) : List Fault :=
  match s.used.find? ⟨.label, label⟩ with
  | none => [.labelUnknown]
  | some u =>
    if u.calls = .none || u.calls = s.callContext then []
    else if s.callContext = .inLoop then [.callInLoop]
    else [.callOutsideLoop]

/-- Definitions stand before the first instruction that takes a slot. -/
def defineFaults (s : Scan) (i : Instruction) (kind : ConstantKind) : List Fault :=
  firstFault [
    (0 < s.slots, .defineLate kind),
    (i.dest.register.file != kind.file, .defineInvalid kind)]

/-- Declarations stand before the first instruction that takes a slot. -/
def declareFaults (s : Scan) (i : Instruction) : List Fault :=
  firstFault [
    (0 < s.slots, .declareLate),
    (i.dest.register.file != .sampler && i.declared.usage.isNone, .declareUsage)]

def frcFaults (sh : Shader) (i : Instruction) : List Fault :=
  firstFault [
    (i.dest.modifiers.saturate, .frcSaturate),
    (!sh.atLeast 2 0 && !i.dest.mask.isY && !i.dest.mask.isXy, .frcMask)]

/-- A product with a matrix has one component a row. -/
def matrixFaults (i : Instruction) (form : MatrixForm) : List Fault :=
  faultIf (!i.dest.mask.same form.mask) (.matrixMask form)

/-- Before shader model 1.4 there are at most three comparisons, none of which writes a register that it
reads. -/
def cmpFaults (sh : Shader) (s : Scan) (i : Instruction) : List Fault :=
  if sh.atLeast 1 4 then []
  else
    faultIf (3 ≤ s.compares) .cmpCount
      ++ [0, 1, 2].flatMap fun n => faultIf ((i.source n).register = i.dest.register) .cmpAlias

def cndFaults (sh : Shader) (i : Instruction) : List Fault :=
  let a := i.source 0
  firstFault [
    (sh.atLeast 2 0, .cndModel),
    (!sh.atLeast 1 4 && (a.register != ⟨.temp, 0⟩ || a.swizzle != .replicate .w), .cndSource)]

/-- Before shader model 3 two distinct constants come with the angle. -/
def sinCosFaults (sh : Shader) (i : Instruction) : List Fault :=
  let mask := i.dest.mask
  let file (n : Nat) := (i.source n).register.file
  let old := !sh.atLeast 3 0
  firstFault [
    (!mask.isX && !mask.isY && !mask.isXy, .sinCosMask),
    (!(i.source 0).swizzle.isReplicate, .sinCosSwizzle),
    (i.dest.modifiers.saturate, .sinCosSaturate),
    (old && file 1 != .const, .sinCosHelper 1),
    (old && file 2 != .const, .sinCosHelper 2),
    (old && (i.source 1).register.number = (i.source 2).register.number, .sinCosSameHelper)]

/-- Textures are addressed by textures with lower numbers. -/
def textureFaults (i : Instruction) : List Fault :=
  let d := i.dest.register
  let r := (i.source 0).register
  faultIf (d.file != .texture) (.texOpDest i.opcode)
    ++ faultIf (r.file != .texture) (.texOpSource i.opcode)
    ++ faultIf (d.number ≤ r.number) (.texOpOrder i.opcode)

def bumpFaults (env : Env) (i : Instruction) : List Fault :=
  faultIf (env.atLeast 1 4) (.opcodeAfterModel13 i.opcode)
    ++ faultIf (!env.atLeast 1 2 && (i.source 0).modifier = .sign) (.texBemSign i.opcode)
    ++ textureFaults i

def padFaults (env : Env) (i : Instruction) : List Fault :=
  faultIf (env.atLeast 1 4) (.opcodeAfterModel13 i.opcode) ++ textureFaults i

def matrix2Faults (env : Env) (s : Scan) (i : Instruction) : List Fault :=
  faultIf (env.atLeast 1 4) (.opcodeAfterModel13 i.opcode)
    ++ faultIf s.pads.m3x2.isNone .texM3x2TexUnpaired
    ++ textureFaults i
    ++ faultIf (env.textureKind i.dest.register.number (some .plane) != some .plane)
        .texM3x2TexSampler

def matrix3Faults (env : Env) (s : Scan) (i : Instruction) : List Fault :=
  faultIf (env.atLeast 1 4) (.opcodeAfterModel13 i.opcode)
    ++ faultIf s.pads.m3x3Second.isNone (.texM3x3Unpaired i.opcode)
    ++ textureFaults i
    ++ match i.opcode.lookupKind? with
      | none => []
      | some kind =>
        let behind := env.textureKind i.dest.register.number (some kind)
        faultIf (behind != some .volume && behind != some .cube) (.texM3x3Sampler i.opcode)

/-- Texture loads name their sampler from shader model 2 on. -/
def loadFaults (sh : Shader) (i : Instruction) : List Fault :=
  let a := i.source 0
  let b := i.source 1
  if sh.atLeast 2 0 then
    firstFault [
      (a.modifier != .plain, .texLdSourceModifier),
      (b.register.file != .sampler, .texLdSampler),
      (b.modifier != .plain, .texLdSamplerModifier),
      (!isLoadControl i.controls, .texLdControls)]
    ++ if sh.atLeast 3 0 then []
      else firstFault [
        (!a.swizzle.isIdentity, .texLdSourceSwizzle),
        (!b.swizzle.isIdentity, .texLdSamplerSwizzle)]
  else
    faultIf (!sh.atLeast 1 4 && i.dest.register.file != .texture) .texRegister

def violations (env : Env) (s : Scan) (i : Instruction) : List Fault :=
  let sh := env.toShader
  let file (n : Nat) := (i.source n).register.file
  let replicated (n : Nat) := (i.source n).swizzle.isReplicate
  match i.opcode with
  | .defF => defineFaults s i .float
  | .defI => defineFaults s i .int
  | .defB => defineFaults s i .bool
  | .dcl => declareFaults s i
  | .texCrd => faultIf (sh.atLeast 2 0) .texCrdModel
  | .frc => frcFaults sh i
  | .m4x4 => matrixFaults i .m4x4
  | .m4x3 => matrixFaults i .m4x3
  | .m3x4 => matrixFaults i .m3x4
  | .m3x3 => matrixFaults i .m3x3
  | .m3x2 => matrixFaults i .m3x2
  | .ret => faultIf (0 < s.loops) .retInLoop ++ faultIf (0 < s.reps) .retInRep
  | .label => faultIf (s.previous != some .ret) .labelPlace ++ labelFaults sh i .label
  | .call => labelFaults sh i .call ++ callFaults s (i.source 0).register.number
  | .callNz =>
    faultIf (file 1 != .constBool && file 1 != .predicate) .callNzArgument
      ++ labelFaults sh i .callNz ++ callFaults s (i.source 0).register.number
  | .movA => faultIf (i.dest.register.file != .address) .movADest
  | .rcp => replicateFaults i 0 .rcpSwizzle
  | .rsq => replicateFaults i 0 .rsqSwizzle
  | .loop => firstFault [(file 0 != .loop, .loopCounter), (file 1 != .constInt, .loopCount)]
  | .endLoop => faultIf (s.loops = 0) .endLoopUnmatched
  | .leavePredicate =>
    firstFault [
      (file 0 != .predicate, .leavePredicateFile),
      (!replicated 0, .leavePredicateSwizzle),
      (!s.inLoop, .leavePredicateOutside)]
  | .leave => faultIf (!s.inLoop) .leaveOutside
  | .setP => faultIf (i.dest.register.file != .predicate) .setPDest
  | .rep => faultIf (file 0 != .constInt) .repCount
  | .endRep => faultIf (s.reps = 0) .endRepUnmatched
  | .cmp => cmpFaults sh s i
  | .cnd => cndFaults sh i
  | .pow => firstFault [(!replicated 0, .powSwizzle 0), (!replicated 1, .powSwizzle 1)]
  | .log => replicateFaults i 0 .logSwizzle
  | .logP => replicateFaults i 0 .logPSwizzle
  | .sinCos => sinCosFaults sh i
  | .ifBool => faultIf (file 0 != .predicate && file 0 != .constBool) .ifArgument
  | .ifCompare =>
    firstFault [(!replicated 0, .ifCompareSwizzle 0), (!replicated 1, .ifCompareSwizzle 1)]
  | .otherwise => faultIf (s.ifs = 0) .elseUnmatched
  | .endIf => faultIf (s.ifs = 0) .endIfUnmatched
  | .leaveCompare =>
    firstFault [
      (!replicated 0, .leaveCompareSwizzle 0),
      (!replicated 1, .leaveCompareSwizzle 1),
      (!s.inLoop, .leaveCompareOutside)]
  | .texKill =>
    firstFault [
      (!i.dest.mask.isXyzw, .texKillMask),
      (i.dest.register.file != .temp && i.dest.register.file != .texture, .texKillFile)]
  | .texBem | .texBemL => bumpFaults env i
  | .texM3x2Pad | .texM3x3Pad => padFaults env i
  | .texM3x2Tex => matrix2Faults env s i
  | .texM3x3 => faultIf (!sh.atLeast 1 2) .texM3x3Model ++ matrix3Faults env s i
  | .texM3x3Tex | .texM3x3VSpec => matrix3Faults env s i
  | .texM3x3Spec => matrix3Faults env s i ++ faultIf (file 1 != .const) .texM3x3SpecArgument
  | .texLd => loadFaults sh i
  | .texLdl =>
    firstFault [(!sh.atLeast 3 0, .texLdlModel), (file 1 != .sampler, .texLdlSampler)]
  | .dp2Add => replicateFaults i 2 .dp2AddSwizzle
  | _ => []

/-! ### Consequences -/

def addConstant (s : Scan) (c : Constant) : Scan :=
  { s with constants := s.constants ++ [c] }

/-- Records a definition unless it breaks its rules. -/
def define (s : Scan) (i : Instruction) (kind : ConstantKind) : Scan :=
  if (defineFaults s i kind).isEmpty then
    (s.addConstant ⟨kind, i.dest.register.number, i.literals⟩).markDefined i.dest.register
  else s

/-- Records a declaration.  One that comes late still accounts for its register. -/
def declare (s : Scan) (env : Env) (i : Instruction) : Scan :=
  let r := i.dest.register
  if 0 < s.slots then s.markDefined r
  else if r.file = .sampler then (s.addSampler env r.number i.declared.kind false).markDefined r
  else
    match i.declared.usage with
    | none => s
    | some usage =>
      (s.setAttribute r ⟨usage, i.declared.index, i.dest.modifiers.centroid⟩).markDefined r

def useRows (s : Scan) (i : Instruction) (form : MatrixForm) : Scan :=
  ((i.matrixRows form.rows).drop 1).foldl (fun s row => s.markUsed row.register false) s

def recordCall (s : Scan) (label : Nat) : Scan :=
  let r : Register := ⟨.label, label⟩
  if s.used.contains r then
    { s with
      used := s.used.update r {} fun u =>
        if u.calls = .none then { u with calls := s.callContext } else u }
  else s

/-- Gives a texture register its meaning: the texture coordinates with its number. -/
def declareTexture (s : Scan) (number : Nat) : Scan :=
  s.setAttribute ⟨.texture, number⟩ ⟨.texCoord, number, false⟩

/-- Records the textures that an instruction uses. -/
def useTextures (s : Scan) (env : Env) (i : Instruction) (bump : Bool) : Scan :=
  let d := i.dest.register.number
  let s := match i.opcode.lookupKind? with
    | some kind => s.addSampler env d (some kind) bump
    | none => s
  (s.declareTexture d).declareTexture (i.source 0).register.number

def padOf (i : Instruction) : Pad := ⟨(i.source 0).register.number, i.dest.register.number⟩

def addPad2 (s : Scan) (i : Instruction) : Scan :=
  { s with pads := { s.pads with m3x2 := some (padOf i) } }

/-- Lets a row of a three-row texture matrix wait; only the first two count. -/
def addPad3 (s : Scan) (i : Instruction) : Scan :=
  match s.pads.m3x3First, s.pads.m3x3Second with
  | none, _ => { s with pads := { s.pads with m3x3First := some (padOf i) } }
  | some _, none => { s with pads := { s.pads with m3x3Second := some (padOf i) } }
  | some _, some _ => s

/-- Lookups in cube textures take three more slots. -/
def chargeLookup (s : Scan) (stage : Nat) : Scan :=
  if s.textureKind stage = some .cube then s.charge 3 else s

/-- What an instruction does to the state, its slots in the table apart. -/
def account (env : Env) (s : Scan) (i : Instruction) : Scan :=
  let file (n : Nat) := (i.source n).register.file
  match i.opcode with
  | .defF => s.define i .float
  | .defI => s.define i .int
  | .defB => s.define i .bool
  | .dcl => s.declare env i
  | .m4x4 => s.useRows i .m4x4
  | .m4x3 => s.useRows i .m4x3
  | .m3x4 => s.useRows i .m3x4
  | .m3x3 => s.useRows i .m3x3
  | .m3x2 => s.useRows i .m3x2
  | .label => s.markDefined ⟨.label, (i.source 0).register.number⟩
  | .call | .callNz => s.recordCall (i.source 0).register.number
  | .loop =>
    if file 0 = .loop && file 1 = .constInt then { s with loops := s.loops + 1 } else s
  | .endLoop => { s with loops := s.loops - 1 }
  | .rep => { s with reps := s.reps + 1 }
  | .endRep => { s with reps := s.reps - 1 }
  | .ifBool | .ifCompare => { s with ifs := s.ifs + 1 }
  | .endIf => { s with ifs := s.ifs - 1 }
  | .cmp =>
    let s := { s with compares := s.compares + 1 }
    if env.atLeast 1 4 then s else s.charge 1
  | .dp4 => if env.atLeast 1 4 then s else s.charge 1
  | .texBem | .texBemL => s.useTextures env i true
  | .texM3x2Pad => (s.useTextures env i false).addPad2 i
  | .texM3x3Pad => (s.useTextures env i false).addPad3 i
  | .texM3x2Tex | .texM3x3 | .texM3x3Tex | .texM3x3Spec | .texM3x3VSpec =>
    s.useTextures env i false
  | .texLd =>
    if env.atLeast 2 0 then s.chargeLookup (i.source 1).register.number
    else if env.atLeast 1 4 then s
    else s.addSampler env i.dest.register.number (some .plane) false
  | .texLdl =>
    if env.atLeast 3 0 && file 1 = .sampler then s.chargeLookup (i.source 1).register.number else s
  | _ => s

/-- Judges an instruction and takes its consequences over. -/
def judge (env : Env) (s : Scan) (i : Instruction) : Scan :=
  account env (s.failAll (violations env s i)) i

end Scan

end ShaderLift
