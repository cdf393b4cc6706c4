/-
Instructions with their operands decoded.
-/
import ShaderLift.Constant
import ShaderLift.Opcode
import ShaderLift.Operand
import ShaderLift.Semantic

namespace ShaderLift

/-- What a declaration says about its register. -/
structure Declared where
  /-- The usage; there is none if its number is not that of a usage. -/
  usage : Option Usage := some .position
  index : Nat := 0
  /-- For a sampler, the kind of its texture. -/
  kind : Option TextureKind := none
  deriving Repr, DecidableEq

structure Arguments where
  dest : Dest := {}
  sources : List Source := []
  literals : Quad Word := ⟨0, 0, 0, 0⟩
  declared : Declared := {}
  deriving Repr, DecidableEq

structure Instruction extends Arguments where
  opcode : Opcode
  controls : Nat
  predicated : Bool
  deriving Repr, DecidableEq

namespace Instruction

def source (i : Instruction) (n : Nat) : Source := i.sources.getD n {}

/-- The rows of the matrix that the second source names the first row of. -/
def matrixRows (i : Instruction) (rows : Nat) : List Source :=
  (List.range rows).map (i.source 1).shift

/-- The constant that an instruction defines, if it is a definition. -/
def constant? (i : Instruction) : Option Constant :=
  let constant (kind : ConstantKind) : Constant := ⟨kind, i.dest.register.number, i.literals⟩
  match i.opcode with
  | .defF => some (constant .float)
  | .defI => some (constant .int)
  | .defB => some (constant .bool)
  | _ => none

end Instruction

/-- The fields of an instruction's first word. -/
structure InstructionWord where
  opcodeCode : Nat
  controls : Nat
  /-- How many words are said to follow. -/
  length : Nat
  predicated : Bool
  coissue : Bool
  /-- Bit 31, which has to be zero. -/
  highBit : Bool
  deriving Repr, DecidableEq

def InstructionWord.ofWord (w : Word) : InstructionWord where
  opcodeCode := Word.field w 0 16
  controls := Word.field w 16 8
  length := Word.field w 24 4
  predicated := Word.flag w 28
  coissue := Word.flag w 30
  highBit := Word.flag w 31

end ShaderLift
