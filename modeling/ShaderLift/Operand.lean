/-
Operands of instructions.  An operand is one word, a relative source in shader model 2 and later two:
`DestWord`, `SourceWord` and `RelativeWord` name the fields of those words, and `Dest` and `Source` are
the operands after their registers have been resolved.
-/
import ShaderLift.Register
import ShaderLift.Swizzle

namespace ShaderLift

/-! ### Modifiers -/

/-- What is done to a source before it is used. -/
inductive SourceModifier where
  | plain
  | negate
  | bias
  | biasNegate
  | sign
  | signNegate
  | complement
  | double
  | doubleNegate
  | divideByZ
  | divideByW
  | abs
  | absNegate
  | not
  deriving Repr, DecidableEq

namespace SourceModifier

def all : List SourceModifier :=
  [.plain, .negate, .bias, .biasNegate, .sign, .signNegate, .complement, .double, .doubleNegate,
    .divideByZ, .divideByW, .abs, .absNegate, .not]

def ofCode? (n : Nat) : Option SourceModifier := all[n]?

/-- Whether only shader model 1 has this modifier. -/
def isModelOneOnly : SourceModifier → Bool
  | .bias | .biasNegate | .sign | .signNegate | .complement | .double | .doubleNegate
  | .divideByZ | .divideByW => true
  | .plain | .negate | .abs | .absNegate | .not => false

end SourceModifier

/-- What is done to a result before it is written. -/
structure ResultModifiers where
  saturate : Bool := false
  partialPrecision : Bool := false
  centroid : Bool := false
  deriving Repr, DecidableEq

def ResultModifiers.isEmpty (m : ResultModifiers) : Bool := m = {}

/-! ### Fields of operand words -/

/-- The code of the register file: its lower three bits are bits 28 to 30 of the word, its upper two
are bits 11 and 12. -/
def Word.fileCode (w : Word) : Nat :=
  Word.field w 28 3 + 8 * Word.field w 11 2

structure DestWord where
  number : Nat
  fileCode : Nat
  relative : Bool
  mask : WriteMask
  modifiers : ResultModifiers
  shift : Nat
  /-- Bits 14 and 15, which have to be zero. -/
  reservedLow : Nat
  /-- Bit 31, which has to be set. -/
  marked : Bool
  deriving Repr, DecidableEq

def DestWord.ofWord (w : Word) : DestWord where
  number := Word.field w 0 11
  fileCode := Word.fileCode w
  relative := Word.flag w 13
  mask := ⟨UInt8.ofNat (Word.field w 16 4)⟩
  modifiers := ⟨Word.flag w 20, Word.flag w 21, Word.flag w 22⟩
  shift := Word.field w 24 4
  reservedLow := Word.field w 14 2
  marked := Word.flag w 31

structure SourceWord where
  number : Nat
  fileCode : Nat
  relative : Bool
  swizzle : Swizzle
  modifierCode : Nat
  /-- Bits 14 and 15, which have to be zero. -/
  reservedLow : Nat
  /-- Bit 31, which has to be set. -/
  marked : Bool
  deriving Repr, DecidableEq

def SourceWord.ofWord (w : Word) : SourceWord where
  number := Word.field w 0 11
  fileCode := Word.fileCode w
  relative := Word.flag w 13
  swizzle := .ofCode (Word.field w 16 8)
  modifierCode := Word.field w 24 4
  reservedLow := Word.field w 14 2
  marked := Word.flag w 31

/-- The fields of the second word of a relative source. -/
structure RelativeWord where
  number : Nat
  fileCode : Nat
  swizzle : Swizzle
  /-- Whether some bit is set that has to be zero: bits 13 to 15 and 24 to 27. -/
  reserved : Bool
  /-- Bit 31, which has to be set. -/
  marked : Bool
  deriving Repr, DecidableEq

def RelativeWord.ofWord (w : Word) : RelativeWord where
  number := Word.field w 0 11
  fileCode := Word.fileCode w
  swizzle := .ofCode (Word.field w 16 8)
  reserved := Word.meets w 0x0F00E000
  marked := Word.flag w 31

/-! ### Operands -/

structure Dest where
  register : Register := ⟨.temp, 0⟩
  relative : Bool := false
  /-- The components written: just `x` for a scalar register. -/
  mask : WriteMask := ⟨0⟩
  /-- The components the word names. -/
  statedMask : WriteMask := ⟨0⟩
  modifiers : ResultModifiers := {}
  shift : Nat := 0
  deriving Repr, DecidableEq

/-- How the register of a relative source is found: an index register is added to its number. -/
structure RelativeIndex where
  register : Register
  lane : Lane
  /-- The constant array the source reads from, by its place in the list of arrays. -/
  array : Option Nat
  deriving Repr, DecidableEq

structure Source where
  register : Register := ⟨.temp, 0⟩
  swizzle : Swizzle := .identity
  modifier : SourceModifier := .plain
  relative : Option RelativeIndex := none
  deriving Repr, DecidableEq

def Source.shift (s : Source) (n : Nat) : Source :=
  { s with register := ⟨s.register.file, s.register.number + n⟩ }

/-! ### Comparisons -/

/-- The comparison that the control bits of an instruction select. -/
inductive Comparison where
  | greater
  | equal
  | greaterEqual
  | less
  | notEqual
  | lessEqual
  deriving Repr, DecidableEq

namespace Comparison

def ofCode? : Nat → Option Comparison
  | 1 => some .greater
  | 2 => some .equal
  | 3 => some .greaterEqual
  | 4 => some .less
  | 5 => some .notEqual
  | 6 => some .lessEqual
  | _ => none

def operator : Comparison → String
  | .greater => ">"
  | .equal => "=="
  | .greaterEqual => ">="
  | .less => "<"
  | .notEqual => "!="
  | .lessEqual => "<="

def vectorFunction : Comparison → String
  | .greater => "greaterThan"
  | .equal => "equal"
  | .greaterEqual => "greaterThanEqual"
  | .less => "lessThan"
  | .notEqual => "notEqual"
  | .lessEqual => "lessThanEqual"

end Comparison

end ShaderLift
