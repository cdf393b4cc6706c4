/-
What can be wrong with a shader.  A fault is a cause; its wording is `Fault.message` and nothing else in
the library knows it.  Reading goes on after a fault, so faults are collected together with the
position at which each of them came up, and a fault with its position becomes a `Diagnostic`.
-/
import ShaderLift.Constant
import ShaderLift.Opcode
import ShaderLift.Text.Hex

namespace ShaderLift

/-! ### Causes -/

inductive LabelUse where
  | label
  | call
  | callNz
  deriving Repr, DecidableEq

def LabelUse.mnemonic : LabelUse → String
  | .label => "LABEL"
  | .call => "CALL"
  | .callNz => "CALLNZ"

inductive MatrixForm where
  | m4x4
  | m4x3
  | m3x4
  | m3x3
  | m3x2
  deriving Repr, DecidableEq

namespace MatrixForm

def rows : MatrixForm → Nat
  | .m4x4 | .m3x4 => 4
  | .m4x3 | .m3x3 => 3
  | .m3x2 => 2

/-- The opcode, and how its rule on the write mask is worded. -/
def maskRule : MatrixForm → String
  | .m4x4 => "M4X4 writemask must be full"
  | .m4x3 => "M4X3 writemask must be .xyz"
  | .m3x4 => "M3X4 writemask must be .xyzw"
  | .m3x3 => "M3X3 writemask must be .xyz"
  | .m3x2 => "M3X2 writemask must be .xy"

end MatrixForm

/-- The causes of faults. -/
inductive Fault where
  -- the stream of units
  | noVersion
  | notAShader
  | unsupportedModel (v : Version)
  | truncated
  | noEnd
  | colorNeverWritten
  | unknownWord (w : Word)
  | commentHighBit
  | repeatedPreshader
  | earlyEnd
  | phaseNotAllowed
  | instructionHighBit
  | unknownOpcode
  | coissueStage
  | coissueModel
  | wrongStage (op : Opcode)
  | lengthNotZero
  | wrongLength (read stated : Nat) (op : Opcode)
  -- literals and declarations
  | defineWrongFile (kind : ConstantKind)
  | defineRelative (kind : ConstantKind)
  | declareUnmarked
  | declareShift
  | declareRelative
  | faceMask
  | faceModifiers
  | faceShift
  | samplerKind (stage : Stage)
  | texCoordIndex
  | colorIndex (stage : Stage)
  | textureUsage
  | declareFile
  | declareReserved
  -- destinations
  | destMissing
  | destReservedLow
  | destUnmarked
  | destRelativeStage
  | destRelativeModel
  | relativeWithoutTable
  | destRelative
  | shiftStage
  | shiftModel
  | shiftRange
  | partialPrecisionStage
  | centroidStage
  | centroidPlace
  | fileRange
  -- sources
  | sourceMissing
  | sourceReservedLow
  | sourceUnmarked
  | relativeMissing
  | modifierModel
  | notModifier
  | unknownModifier
  | uninitializedTemp (number : Nat)
  | relativePixel
  | relativeUnmarked
  | relativeReserved
  | relativeRegister
  | relativeSwizzle
  | relativeInput
  | relativeNoArray
  | predicateRegister
  | predicateModifier
  | predicateSwizzle
  | predicateRelative
  -- legality of instructions
  | texCrdModel
  | retInLoop
  | retInRep
  | labelPlace
  | labelFile (use : LabelUse)
  | labelModel (use : LabelUse)
  | labelRange (limit : Nat)
  | labelUnknown
  | callInLoop
  | callOutsideLoop
  | callNzArgument
  | movADest
  | rcpSwizzle
  | rsqSwizzle
  | loopCounter
  | loopCount
  | endLoopUnmatched
  | leavePredicateFile
  | leavePredicateSwizzle
  | leavePredicateOutside
  | leaveOutside
  | setPDest
  | repCount
  | endRepUnmatched
  | powSwizzle (operand : Nat)
  | logSwizzle
  | logPSwizzle
  | ifArgument
  | ifCompareSwizzle (operand : Nat)
  | elseUnmatched
  | endIfUnmatched
  | leaveCompareSwizzle (operand : Nat)
  | leaveCompareOutside
  | texKillMask
  | texKillFile
  | opcodeAfterModel13 (op : Opcode)
  | texM3x3Model
  | texM3x3SpecArgument
  | texLdlModel
  | texLdlSampler
  | dp2AddSwizzle
  | defineLate (kind : ConstantKind)
  | defineInvalid (kind : ConstantKind)
  | declareLate
  | declareUsage
  | frcSaturate
  | frcMask
  | matrixMask (form : MatrixForm)
  | cmpCount
  | cmpAlias
  | cndModel
  | cndSource
  | sinCosMask
  | sinCosSwizzle
  | sinCosSaturate
  | sinCosHelper (operand : Nat)
  | sinCosSameHelper
  | texOpDest (op : Opcode)
  | texOpSource (op : Opcode)
  | texOpOrder (op : Opcode)
  | texBemSign (op : Opcode)
  | texM3x2TexUnpaired
  | texM3x2TexSampler
  | texM3x3Unpaired (op : Opcode)
  | texM3x3Sampler (op : Opcode)
  | texLdSourceModifier
  | texLdSampler
  | texLdSamplerModifier
  | texLdControls
  | texLdSourceSwizzle
  | texLdSamplerSwizzle
  | texRegister
  -- symbol tables
  | repeatedTable
  | truncatedTable
  | corruptTable
  | unknownClass (code : Nat)
  | unknownType (code : Nat)
  | endlessType
  -- preshaders
  | preshaderVersion
  | preshaderData
  | preshaderSection
  | preshaderRepeated (id : Word)
  | preshaderNoTable
  | preshaderNoCode
  | preshaderNoLiterals
  | preshaderLiterals
  | preshaderOutputs
  | preshaderCode
  | preshaderOpcode
  | preshaderLiteralIndex
  | preshaderInputIndex
  | preshaderOutputIndex
  -- emission
  | divideByZ
  | divideByW
  | sourceUnnamed
  | relativeOutsideArrays
  | relativeFile
  | predicatedDest
  | destUnnamed
  | comparisonControls
  | textureKindUnknown
  | texLdModel14
  | lookupUndeclared (op : Opcode)
  | projectedCube
  | unimplemented (op : Opcode)
  -- declarations
  | undeclaredOutput
  | undefinable
  | samplerUndefinable
  | vertexAttribute
  | pixelAttribute
  | centroidUnsupported
  | relativeInputUnsupported
  deriving Repr, DecidableEq

namespace Fault

/-- The wording of a fault; a few name the profile that code is written for. -/
def message (profile : String) : Fault → String
  | .noVersion => "Expected version token, got none at all."
  | .notAShader => "Unsupported shader type or not a shader at all"
  | .unsupportedModel v =>
    s!"Shader Model {v.major}.{v.minor} is currently unsupported."
  | .truncated => "Corrupted or truncated shader"
  | .noEnd => "shader has no end token"
  | .colorNeverWritten => "r0 (pixel shader 1.x color output) never written to"
  | .unknownWord w => "unknown token (0x" ++ Hex.upper w.toNat 1 ++ ")"
  | .commentHighBit => "comment token high bit must be zero."
  | .repeatedPreshader => "Shader has multiple preshaders"
  | .earlyEnd => "end token before end of stream"
  | .phaseNotAllowed => "phase token only available in 1.4 pixel shaders"
  | .instructionHighBit => "instruction token high bit must be zero."
  | .unknownOpcode => "Unknown opcode."
  | .coissueStage => "coissue instruction on non-pixel shader"
  | .coissueModel => "coissue instruction in Shader Model >= 2.0"
  | .wrongStage op => "opcode '" ++ op.mnemonic ++ "' not available in this shader type."
  | .lengthNotZero => "instruction token count must be zero"
  | .wrongLength read stated op =>
    s!"wrong token count ({read}, not {stated}) for opcode '" ++ op.mnemonic ++ "'."
  | .defineWrongFile kind =>
    match kind with
    | .float => "DEF using non-CONST register"
    | .int => "DEFI using non-CONSTINT register"
    | .bool => "DEFB using non-CONSTBOOL register"
  | .defineRelative kind => "relative addressing in " ++ kind.mnemonic
  | .declareUnmarked => "Bit #31 in DCL token must be one"
  | .declareShift => "shift scale in DCL"
  | .declareRelative => "relative addressing in DCL"
  | .faceMask => "DCL face writemask must be full"
  | .faceModifiers => "DCL face result modifier must be zero"
  | .faceShift => "DCL face shift scale must be zero"
  | .samplerKind stage =>
    match stage with
    | .pixel => "unknown sampler texture type"
    | .vertex => "Unknown sampler texture type"
  | .texCoordIndex => "DCL texcoord usage must have 0-7 index"
  | .colorIndex stage =>
    match stage with
    | .pixel => "DCL color usage must have 0 index"
    | .vertex => "DCL texcoord usage must have 0 index"
  | .textureUsage => "Invalid DCL texture usage"
  | .declareFile => "invalid DCL register type for this shader model"
  | .declareReserved => "reserved bits in DCL dword aren't zero"
  | .destMissing => "Out of tokens in destination parameter"
  | .destReservedLow => "Reserved bit #1 in destination token must be zero"
  | .destUnmarked => "Reserved bit #2 in destination token must be one"
  | .destRelativeStage => "Relative addressing in non-vertex shader"
  | .destRelativeModel => "Relative addressing in vertex shader version < 3.0"
  | .relativeWithoutTable => "relative addressing unsupported without a CTAB"
  | .destRelative => "Relative addressing of dest tokens is unsupported"
  | .shiftStage => "Result shift scale in non-pixel shader"
  | .shiftModel => "Result shift scale in pixel shader version >= 2.0"
  | .shiftRange => "Result shift scale isn't 1 to 3, or 13 to 15."
  | .partialPrecisionStage => "Partial precision result mod in non-pixel shader"
  | .centroidStage => "Centroid result mod in non-pixel shader"
  | .centroidPlace => "Centroid modifier not allowed here"
  | .fileRange => "Register type is out of range"
  | .sourceMissing => "Out of tokens in source parameter"
  | .sourceReservedLow => "Reserved bits #1 in source token must be zero"
  | .sourceUnmarked => "Reserved bit #2 in source token must be one"
  | .relativeMissing => "Out of tokens in relative source parameter"
  | .modifierModel => "illegal source mod for this Shader Model."
  | .notModifier => "NOT only allowed on bool registers."
  | .unknownModifier => "Unknown source modifier"
  | .uninitializedTemp number => s!"Temp register r{number} used uninitialized"
  | .relativePixel => "Relative addressing in pixel shader version < 3.0"
  | .relativeUnmarked => "bit #31 in relative address must be set"
  | .relativeReserved => "relative address reserved bit must be zero"
  | .relativeRegister => "invalid register for relative address"
  | .relativeSwizzle => "relative address needs replicate swizzle"
  | .relativeInput => "relative addressing of input registers not supported in this shader model"
  | .relativeNoArray => "relative addressing of indeterminate array"
  | .predicateRegister => "Predicated instruction but not predicate register!"
  | .predicateModifier => "Predicated instruction register is not NONE or NOT"
  | .predicateSwizzle => "Predicated instruction register has wrong swizzle"
  | .predicateRelative => "relative addressing in predicated token"
  | .texCrdModel => "TEXCRD in Shader Model >= 2.0"
  | .retInLoop => "LOOP without ENDLOOP"
  | .retInRep => "REP without ENDREP"
  | .labelPlace => "LABEL not followed by a RET"
  | .labelFile use => use.mnemonic ++ " with a non-label register specified"
  | .labelModel use => use.mnemonic ++ " not supported in Shader Model 1"
  | .labelRange limit => s!"label register number must be <= {limit}"
  | .labelUnknown => "Invalid label for CALL"
  | .callInLoop => "CALL to this label must be wrapped in LOOP/ENDLOOP"
  | .callOutsideLoop => "CALL to this label must not be wrapped in LOOP/ENDLOOP"
  | .callNzArgument => "CALLNZ argument isn't constbool or predicate register"
  | .movADest => "MOVA argument isn't address register"
  | .rcpSwizzle => "RCP without replicate swizzle"
  | .rsqSwizzle => "RSQ without replicate swizzle"
  | .loopCounter => "LOOP argument isn't loop register"
  | .loopCount => "LOOP argument isn't constint register"
  | .endLoopUnmatched => "ENDLOOP without LOOP"
  | .leavePredicateFile => "BREAKP argument isn't predicate register"
  | .leavePredicateSwizzle => "BREAKP without replicate swizzle"
  | .leavePredicateOutside => "BREAKP outside LOOP/ENDLOOP or REP/ENDREP"
  | .leaveOutside => "BREAK outside LOOP/ENDLOOP or REP/ENDREP"
  | .setPDest => "SETP argument isn't predicate register"
  | .repCount => "REP argument isn't constint register"
  | .endRepUnmatched => "ENDREP without REP"
  | .powSwizzle operand => s!"POW src{operand} must have replicate swizzle"
  | .logSwizzle => "LOG src0 must have replicate swizzle"
  | .logPSwizzle => "LOGP src0 must have replicate swizzle"
  | .ifArgument => "IF src0 must be CONSTBOOL or PREDICATE"
  | .ifCompareSwizzle operand => s!"IFC src{operand} must have replicate swizzle"
  | .elseUnmatched => "ELSE without IF"
  | .endIfUnmatched => "ENDIF without IF"
  | .leaveCompareSwizzle operand => s!"BREAKC src{operand + 1} must have replicate swizzle"
  | .leaveCompareOutside => "BREAKC outside LOOP/ENDLOOP or REP/ENDREP"
  | .texKillMask => "TEXKILL writemask must be .xyzw"
  | .texKillFile => "TEXKILL must use a temp or texture register"
  | .opcodeAfterModel13 op => op.mnemonic ++ " opcode not available after Shader Model 1.3"
  | .texM3x3Model => "TEXM3X3 opcode not available in Shader Model 1.1"
  | .texM3x3SpecArgument => "TEXM3X3SPEC final arg must be a constant register"
  | .texLdlModel => "TEXLDL in version < Shader Model 3.0"
  | .texLdlSampler => "TEXLDL src1 must be sampler register"
  | .dp2AddSwizzle => "DP2ADD src2 must have replicate swizzle"
  | .defineLate kind => kind.mnemonic ++ " token must come before any instructions"
  | .defineInvalid kind => kind.mnemonic ++ " token using invalid register"
  | .declareLate => "DCL token must come before any instructions"
  | .declareUsage => "unknown DCL usage"
  | .frcSaturate => "FRC destination can't use saturate modifier"
  | .frcMask => "FRC writemask must be .y or .xy for shader model 1.x"
  | .matrixMask form => form.maskRule
  | .cmpCount => "only 3 CMP instructions allowed in this shader model"
  | .cmpAlias => "CMP dest can't match sources in this shader model"
  | .cndModel => "CND not allowed in this shader model"
  | .cndSource => "CND src must be r0.a in this shader model"
  | .sinCosMask => "SINCOS write mask must be .x or .y or .xy"
  | .sinCosSwizzle => "SINCOS src0 must have replicate swizzle"
  | .sinCosSaturate => "SINCOS destination can't use saturate modifier"
  | .sinCosHelper operand => s!"SINCOS src{operand} must be constfloat"
  | .sinCosSameHelper => "SINCOS src1 and src2 must be different registers"
  | .texOpDest op => op.mnemonic ++ " destination must be a texture register"
  | .texOpSource op => op.mnemonic ++ " source must be a texture register"
  | .texOpOrder op => op.mnemonic ++ " dest must be a higher register than source"
  | .texBemSign op => op.mnemonic ++ " forbids _bx2 on source reg before ps_1_2"
  | .texM3x2TexUnpaired => "TEXM3X2TEX opcode without matching TEXM3X2PAD"
  | .texM3x2TexSampler => "TEXM3X2TEX needs a 2D sampler"
  | .texM3x3Unpaired op => op.mnemonic ++ " opcode without matching TEXM3X3PADs"
  | .texM3x3Sampler op => op.mnemonic ++ " needs a 3D or Cubemap sampler"
  | .texLdSourceModifier => "TEXLD src0 must have no modifiers"
  | .texLdSampler => "TEXLD src1 must be sampler register"
  | .texLdSamplerModifier => "TEXLD src1 must have no modifiers"
  | .texLdControls => "TEXLD has unknown control bits"
  | .texLdSourceSwizzle => "TEXLD src0 must not swizzle"
  | .texLdSamplerSwizzle => "TEXLD src1 must not swizzle"
  | .texRegister => "TEX param must be a texture register"
  | .repeatedTable => "Shader has multiple CTAB sections"
  | .truncatedTable => "Truncated CTAB data"
  | .corruptTable => "Shader has corrupt CTAB data"
  | .unknownClass code => "Unknown parameter class (0x" ++ Hex.upper code 1 ++ ")"
  | .unknownType code => "Unknown parameter type (0x" ++ Hex.upper code 1 ++ ")"
  | .endlessType => "Possible infinite loop in CTAB structure."
  | .preshaderVersion => "Unsupported preshader version."
  | .preshaderData => "Bogus preshader data."
  | .preshaderSection => "Bogus preshader section."
  | .preshaderRepeated id => "Multiple " ++ Hex.upper id.toNat 1 ++ " preshader blocks."
  | .preshaderNoTable => "No CTAB block in preshader."
  | .preshaderNoCode => "No FXLC block in preshader."
  | .preshaderNoLiterals => "No CLIT block in preshader."
  | .preshaderLiterals => "Bogus CLIT block in preshader."
  | .preshaderOutputs => "Bogus preshader PRSI data"
  | .preshaderCode => "Bogus preshader FXLC block."
  | .preshaderOpcode => "Unknown preshader opcode."
  | .preshaderLiteralIndex => "Bogus preshader literal index."
  | .preshaderInputIndex => "Bogus preshader input index."
  | .preshaderOutputIndex => "Bogus preshader output index."
  | .divideByZ => "SRCMOD_DZ unsupported"
  | .divideByW => "SRCMOD_DW unsupported"
  | .sourceUnnamed => "Unknown source register type."
  | .relativeOutsideArrays => "relative address outside of any constant array"
  | .relativeFile => "Relative addressing of this register type is unsupported."
  | .predicatedDest => "predicated destinations unsupported"
  | .destUnnamed => "unknown register type"
  | .comparisonControls => "unknown comparison control"
  | .textureKindUnknown => "unexpected texture type"
  | .texLdModel14 => "TEXLD == Shader Model 1.4 unimplemented."
  | .lookupUndeclared op => op.mnemonic ++ " using undeclared sampler"
  | .projectedCube => "TEXLDP on a cubemap"
  | .unimplemented op => op.mnemonic ++ " unimplemented in " ++ profile ++ " profile"
  | .undeclaredOutput => "vs_3 can't use output registers without declaring them first."
  | .undefinable => "BUG: we used a register we don't know how to define."
  | .samplerUndefinable => "BUG: used a sampler we don't know how to define."
  | .vertexAttribute => "unknown vertex shader attribute register"
  | .pixelAttribute => "unknown pixel shader attribute register"
  | .centroidUnsupported => "centroid unsupported in " ++ profile ++ " profile"
  | .relativeInputUnsupported => "Relative addressing of input registers not supported."

end Fault

/-! ### Positions and diagnostics -/

inductive Position where
  | none
  /-- Before the code is looked at, that is, at its version word. -/
  | before
  | after
  | offset (bytes : Nat)
  deriving Repr, DecidableEq

namespace Position

def word (n : Nat) : Position := .offset (4 * n)

def toInt : Position → Int
  | .none => -3
  | .before => -2
  | .after => -1
  | .offset n => n

end Position

structure Diagnostic where
  message : String
  filename : Option String
  position : Position
  deriving Repr, DecidableEq

namespace Diagnostic

/-- The line written for a diagnostic: the position stands there twice, the second time as 32 bits. -/
def text (d : Diagnostic) : String :=
  let n := d.position.toInt
  d.message ++ " in " ++ d.filename.getD "<unknown>" ++ " at " ++ toString n
    ++ " (0x" ++ Hex.upper (n % 4294967296).toNat 8 ++ ")"

end Diagnostic

structure LocatedFault where
  position : Position
  fault : Fault
  deriving Repr, DecidableEq

def LocatedFault.diagnostic (profile : String) (filename : Option String) (f : LocatedFault) :
    Diagnostic :=
  ⟨f.fault.message profile, filename, f.position⟩

end ShaderLift
