/-
Preshaders: small programs, carried in a comment of the code, that the host runs once before a draw to
compute constants.  Their operands are single components of literals, inputs, outputs and temporaries.
-/
import ShaderLift.Symbol

namespace ShaderLift

namespace Preshader

inductive Opcode where
  | mov | neg | rcp | frc | exp | log | rsq | sin | cos | asin | acos | atan | min | max | lt | ge
  | add | mul | atan2 | div | cmp | movC | dot | noise | minScalar | maxScalar | ltScalar | geScalar
  | addScalar | mulScalar | atan2Scalar | divScalar | dotScalar | noiseScalar
  deriving Repr, DecidableEq

def Opcode.ofCode? : Nat → Option Opcode
  | 0x1000 => some .mov
  | 0x1010 => some .neg
  | 0x1030 => some .rcp
  | 0x1040 => some .frc
  | 0x1050 => some .exp
  | 0x1060 => some .log
  | 0x1070 => some .rsq
  | 0x1080 => some .sin
  | 0x1090 => some .cos
  | 0x10A0 => some .asin
  | 0x10B0 => some .acos
  | 0x10C0 => some .atan
  | 0x2000 => some .min
  | 0x2010 => some .max
  | 0x2020 => some .lt
  | 0x2030 => some .ge
  | 0x2040 => some .add
  | 0x2050 => some .mul
  | 0x2060 => some .atan2
  | 0x2080 => some .div
  | 0x3000 => some .cmp
  | 0x3010 => some .movC
  | 0x5000 => some .dot
  | 0x5020 => some .noise
  | 0xA000 => some .minScalar
  | 0xA010 => some .maxScalar
  | 0xA020 => some .ltScalar
  | 0xA030 => some .geScalar
  | 0xA040 => some .addScalar
  | 0xA050 => some .mulScalar
  | 0xA060 => some .atan2Scalar
  | 0xA080 => some .divScalar
  | 0xD000 => some .dotScalar
  | 0xD020 => some .noiseScalar
  | _ => none

inductive Storage where
  | literal
  | input
  | output
  | temp
  | unknown (code : Word)
  deriving Repr, DecidableEq

def Storage.ofCode (w : Word) : Storage :=
  if w = 1 then .literal
  else if w = 2 then .input
  else if w = 4 then .output
  else if w = 7 then .temp
  else .unknown w

structure Operand where
  storage : Storage
  /-- The component: four times its register, plus its place in the register. -/
  index : Word
  /-- For an indexed input, the components its arrays start at. -/
  arrayBases : List Word := []
  deriving Repr, DecidableEq

/-- An instruction; one with an unknown number has no operation. -/
structure Instruction where
  opcode : Option Opcode
  elementCount : Nat
  operands : List Operand
  deriving Repr, DecidableEq

end Preshader

/-- A preshader; its literals are given by the bits of double-precision numbers. -/
structure Preshader where
  literals : List UInt64
  tempCount : Word
  symbols : List Symbol
  instructions : List Preshader.Instruction
  deriving Repr

end ShaderLift
