/-
The instructions: for every opcode its mnemonic, what operands follow it, how many instruction slots
it takes and in which stages it may stand.
-/
import ShaderLift.Version

namespace ShaderLift

/-- The operands that follow an opcode: a destination and so many sources, or a form of its own. -/
inductive Shape where
  | sources (count : Nat)
  | dest (sources : Nat)
  | declaration
  /-- Two helper constants follow before shader model 3. -/
  | sinCos
  | defineBool
  | defineInt
  | defineFloat
  /-- A source follows from shader model 1.4 on. -/
  | texCoord
  /-- A source follows from shader model 1.4 on, and a sampler from 2.0 on. -/
  | texLoad
  deriving Repr, DecidableEq

/-- The opcodes.  A number without an instruction is `reserved`. -/
inductive Opcode where
  | nop | mov | add | sub | mad | mul | rcp | rsq | dp3 | dp4 | min | max | slt | sge | exp | log
  | lit | dst | lrp | frc | m4x4 | m4x3 | m3x4 | m3x3 | m3x2 | call | callNz | loop | ret | endLoop
  | label | dcl | pow | crs | sgn | abs | nrm | sinCos | rep | endRep | ifBool | ifCompare
  | otherwise | endIf | leave | leaveCompare | movA | defB | defI | texCrd | texKill | texLd | texBem
  | texBemL | texReg2Ar | texReg2Gb | texM3x2Pad | texM3x2Tex | texM3x3Pad | texM3x3Tex
  | texM3x3Spec | texM3x3VSpec | expP | logP | cnd | defF | texReg2Rgb | texDp3Tex | texM3x2Depth
  | texDp3 | texM3x3 | texDepth | cmp | bem | dp2Add | dsx | dsy | texLdd | setP | texLdl
  | leavePredicate
  | reserved (code : Nat)
  deriving Repr, DecidableEq

/-- What is known about an opcode before any operand is seen. -/
structure OpcodeInfo where
  mnemonic : String
  slots : Nat
  shape : Shape
  stages : StageSet := .any
  deriving Repr, DecidableEq

namespace Opcode

/-- The opcode with the given number; from 97 on there is none. -/
def ofCode? : Nat → Option Opcode
  | 0 => some .nop
  | 1 => some .mov
  | 2 => some .add
  | 3 => some .sub
  | 4 => some .mad
  | 5 => some .mul
  | 6 => some .rcp
  | 7 => some .rsq
  | 8 => some .dp3
  | 9 => some .dp4
  | 10 => some .min
  | 11 => some .max
  | 12 => some .slt
  | 13 => some .sge
  | 14 => some .exp
  | 15 => some .log
  | 16 => some .lit
  | 17 => some .dst
  | 18 => some .lrp
  | 19 => some .frc
  | 20 => some .m4x4
  | 21 => some .m4x3
  | 22 => some .m3x4
  | 23 => some .m3x3
  | 24 => some .m3x2
  | 25 => some .call
  | 26 => some .callNz
  | 27 => some .loop
  | 28 => some .ret
  | 29 => some .endLoop
  | 30 => some .label
  | 31 => some .dcl
  | 32 => some .pow
  | 33 => some .crs
  | 34 => some .sgn
  | 35 => some .abs
  | 36 => some .nrm
  | 37 => some .sinCos
  | 38 => some .rep
  | 39 => some .endRep
  | 40 => some .ifBool
  | 41 => some .ifCompare
  | 42 => some .otherwise
  | 43 => some .endIf
  | 44 => some .leave
  | 45 => some .leaveCompare
  | 46 => some .movA
  | 47 => some .defB
  | 48 => some .defI
  | 64 => some .texCrd
  | 65 => some .texKill
  | 66 => some .texLd
  | 67 => some .texBem
  | 68 => some .texBemL
  | 69 => some .texReg2Ar
  | 70 => some .texReg2Gb
  | 71 => some .texM3x2Pad
  | 72 => some .texM3x2Tex
  | 73 => some .texM3x3Pad
  | 74 => some .texM3x3Tex
  | 76 => some .texM3x3Spec
  | 77 => some .texM3x3VSpec
  | 78 => some .expP
  | 79 => some .logP
  | 80 => some .cnd
  | 81 => some .defF
  | 82 => some .texReg2Rgb
  | 83 => some .texDp3Tex
  | 84 => some .texM3x2Depth
  | 85 => some .texDp3
  | 86 => some .texM3x3
  | 87 => some .texDepth
  | 88 => some .cmp
  | 89 => some .bem
  | 90 => some .dp2Add
  | 91 => some .dsx
  | 92 => some .dsy
  | 93 => some .texLdd
  | 94 => some .setP
  | 95 => some .texLdl
  | 96 => some .leavePredicate
  | n => if n < 97 then some (.reserved n) else none

def isReserved : Opcode → Bool
  | .reserved _ => true
  | _ => false

def info : Opcode → OpcodeInfo
  | .nop => ⟨"NOP", 1, .sources 0, .any⟩
  | .mov => ⟨"MOV", 1, .dest 1, .any⟩
  | .add => ⟨"ADD", 1, .dest 2, .any⟩
  | .sub => ⟨"SUB", 1, .dest 2, .any⟩
  | .mad => ⟨"MAD", 1, .dest 3, .any⟩
  | .mul => ⟨"MUL", 1, .dest 2, .any⟩
  | .rcp => ⟨"RCP", 1, .dest 1, .any⟩
  | .rsq => ⟨"RSQ", 1, .dest 1, .any⟩
  | .dp3 => ⟨"DP3", 1, .dest 2, .any⟩
  | .dp4 => ⟨"DP4", 1, .dest 2, .any⟩
  | .min => ⟨"MIN", 1, .dest 2, .any⟩
  | .max => ⟨"MAX", 1, .dest 2, .any⟩
  | .slt => ⟨"SLT", 1, .dest 2, .any⟩
  | .sge => ⟨"SGE", 1, .dest 2, .any⟩
  | .exp => ⟨"EXP", 1, .dest 1, .any⟩
  | .log => ⟨"LOG", 1, .dest 1, .any⟩
  | .lit => ⟨"LIT", 3, .dest 1, .any⟩
  | .dst => ⟨"DST", 1, .dest 2, .vertexOnly⟩
  | .lrp => ⟨"LRP", 2, .dest 3, .any⟩
  | .frc => ⟨"FRC", 1, .dest 1, .any⟩
  | .m4x4 => ⟨"M4X4", 4, .dest 2, .any⟩
  | .m4x3 => ⟨"M4X3", 3, .dest 2, .any⟩
  | .m3x4 => ⟨"M3X4", 4, .dest 2, .any⟩
  | .m3x3 => ⟨"M3X3", 3, .dest 2, .any⟩
  | .m3x2 => ⟨"M3X2", 2, .dest 2, .any⟩
  | .call => ⟨"CALL", 2, .sources 1, .any⟩
  | .callNz => ⟨"CALLNZ", 3, .sources 2, .any⟩
  | .loop => ⟨"LOOP", 3, .sources 2, .any⟩
  | .ret => ⟨"RET", 1, .sources 0, .any⟩
  | .endLoop => ⟨"ENDLOOP", 2, .sources 0, .any⟩
  | .label => ⟨"LABEL", 0, .sources 1, .any⟩
  | .dcl => ⟨"DCL", 0, .declaration, .any⟩
  | .pow => ⟨"POW", 3, .dest 2, .any⟩
  | .crs => ⟨"CRS", 2, .dest 2, .any⟩
  | .sgn => ⟨"SGN", 3, .dest 3, .any⟩
  | .abs => ⟨"ABS", 1, .dest 1, .any⟩
  | .nrm => ⟨"NRM", 3, .dest 1, .any⟩
  | .sinCos => ⟨"SINCOS", 8, .sinCos, .any⟩
  | .rep => ⟨"REP", 3, .sources 1, .any⟩
  | .endRep => ⟨"ENDREP", 2, .sources 0, .any⟩
  | .ifBool => ⟨"IF", 3, .sources 1, .any⟩
  | .ifCompare => ⟨"IF", 3, .sources 2, .any⟩
  | .otherwise => ⟨"ELSE", 1, .sources 0, .any⟩
  | .endIf => ⟨"ENDIF", 1, .sources 0, .any⟩
  | .leave => ⟨"BREAK", 1, .sources 0, .any⟩
  | .leaveCompare => ⟨"BREAK", 3, .sources 2, .any⟩
  | .movA => ⟨"MOVA", 1, .dest 1, .vertexOnly⟩
  | .defB => ⟨"DEFB", 0, .defineBool, .any⟩
  | .defI => ⟨"DEFI", 0, .defineInt, .any⟩
  | .texCrd => ⟨"TEXCRD", 1, .texCoord, .pixelOnly⟩
  | .texKill => ⟨"TEXKILL", 2, .dest 0, .pixelOnly⟩
  | .texLd => ⟨"TEXLD", 1, .texLoad, .pixelOnly⟩
  | .texBem => ⟨"TEXBEM", 1, .dest 1, .pixelOnly⟩
  | .texBemL => ⟨"TEXBEML", 2, .dest 1, .pixelOnly⟩
  | .texReg2Ar => ⟨"TEXREG2AR", 1, .dest 1, .pixelOnly⟩
  | .texReg2Gb => ⟨"TEXREG2GB", 1, .dest 1, .pixelOnly⟩
  | .texM3x2Pad => ⟨"TEXM3X2PAD", 1, .dest 1, .pixelOnly⟩
  | .texM3x2Tex => ⟨"TEXM3X2TEX", 1, .dest 1, .pixelOnly⟩
  | .texM3x3Pad => ⟨"TEXM3X3PAD", 1, .dest 1, .pixelOnly⟩
  | .texM3x3Tex => ⟨"TEXM3X3TEX", 1, .dest 1, .pixelOnly⟩
  | .texM3x3Spec => ⟨"TEXM3X3SPEC", 1, .dest 2, .pixelOnly⟩
  | .texM3x3VSpec => ⟨"TEXM3X3VSPEC", 1, .dest 1, .pixelOnly⟩
  | .expP => ⟨"EXPP", 1, .dest 1, .any⟩
  | .logP => ⟨"LOGP", 1, .dest 1, .any⟩
  | .cnd => ⟨"CND", 1, .dest 3, .pixelOnly⟩
  | .defF => ⟨"DEF", 0, .defineFloat, .any⟩
  | .texReg2Rgb => ⟨"TEXREG2RGB", 1, .dest 1, .pixelOnly⟩
  | .texDp3Tex => ⟨"TEXDP3TEX", 1, .dest 1, .pixelOnly⟩
  | .texM3x2Depth => ⟨"TEXM3X2DEPTH", 1, .dest 1, .pixelOnly⟩
  | .texDp3 => ⟨"TEXDP3", 1, .dest 1, .pixelOnly⟩
  | .texM3x3 => ⟨"TEXM3X3", 1, .dest 1, .pixelOnly⟩
  | .texDepth => ⟨"TEXDEPTH", 1, .dest 0, .pixelOnly⟩
  | .cmp => ⟨"CMP", 1, .dest 3, .pixelOnly⟩
  | .bem => ⟨"BEM", 2, .dest 2, .pixelOnly⟩
  | .dp2Add => ⟨"DP2ADD", 2, .dest 3, .pixelOnly⟩
  | .dsx => ⟨"DSX", 2, .dest 1, .pixelOnly⟩
  | .dsy => ⟨"DSY", 2, .dest 1, .pixelOnly⟩
  | .texLdd => ⟨"TEXLDD", 3, .dest 4, .pixelOnly⟩
  | .setP => ⟨"SETP", 1, .dest 2, .any⟩
  | .texLdl => ⟨"TEXLDL", 2, .dest 2, .any⟩
  | .leavePredicate => ⟨"BREAKP", 3, .sources 1, .any⟩
  | .reserved _ => ⟨"", 0, .sources 0, .none⟩

def mnemonic (op : Opcode) : String := op.info.mnemonic

end Opcode

end ShaderLift
