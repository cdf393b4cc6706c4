/-
Constants that the code itself defines, and arrays of constant registers.  A relative read does not
name the register it reads, so it has to be taken to read some array: a range that the symbol table
declares, or a run of consecutive registers that the code defines.
-/
import ShaderLift.Decimal.Single
import ShaderLift.Register

namespace ShaderLift

/-! ### Literals -/

inductive ConstantKind where
  | float
  | int
  | bool
  deriving Repr, DecidableEq

namespace ConstantKind

def file : ConstantKind → RegisterFile
  | .float => .const
  | .int => .constInt
  | .bool => .constBool

/-- The mnemonic of the instruction that defines a constant of this kind. -/
def mnemonic : ConstantKind → String
  | .float => "DEF"
  | .int => "DEFI"
  | .bool => "DEFB"

end ConstantKind

structure Quad (α : Type) where
  x : α
  y : α
  z : α
  w : α
  deriving Repr, DecidableEq

namespace Quad

variable {α β : Type}

def map (f : α → β) (q : Quad α) : Quad β := ⟨f q.x, f q.y, f q.z, f q.w⟩

def toList (q : Quad α) : List α := [q.x, q.y, q.z, q.w]

end Quad

/-- A constant that the code defines: the bits of the value of one constant register. -/
structure Constant where
  kind : ConstantKind
  index : Nat
  value : Quad Word
  deriving Repr, DecidableEq

namespace Constant

def ints (c : Constant) : Quad Int :=
  c.value.map fun w => w.toInt32.toInt

def truth (c : Constant) : Bool := c.value.x != 0

def singles (c : Constant) : Quad Single := c.value.map Single.mk

/-- Puts a constant in front of the first one that does not come before it. -/
def insert (c : Constant) : List Constant → List Constant
  | [] => [c]
  | d :: ds => if c.index ≤ d.index then c :: d :: ds else d :: insert c ds

/-- Constants in the order of their registers, those of one register as they came. -/
def inOrder (cs : List Constant) : List Constant := cs.foldr insert []

end Constant

/-! ### Arrays -/

/-- A range of constant registers that is read as an array. -/
structure ConstantArray where
  kind : ConstantKind
  index : Nat
  count : Nat
  /-- The literals of an array that the code defines; none if the host provides the values. -/
  constants : List Constant := []
  /-- Whether some relative read is taken to read this array. -/
  used : Bool := false
  deriving Repr, DecidableEq

namespace ConstantArray

def contains (a : ConstantArray) (number : Nat) : Bool :=
  a.index ≤ number && number < a.index + a.count

def isLiteral (a : ConstantArray) : Bool := !a.constants.isEmpty

def ofRun (run : List Constant) : ConstantArray where
  kind := .float
  index := (run.head?.map Constant.index).getD 0
  count := run.length
  constants := run

/-- The arrays that constants make up: the floats by register, cut wherever one does not follow its
predecessor. -/
def ofConstants (cs : List Constant) : List ConstantArray :=
  let floats := cs.filter fun c => c.kind = .float
  ((Constant.inOrder floats).splitBy fun a b => b.index == a.index + 1).map ofRun

/-- The place of the newest array in a list that satisfies `p`. -/
def newest? (p : ConstantArray → Bool) (as : List ConstantArray) : Option Nat :=
  (as.zipIdx.reverse.find? fun e => p e.1).map Prod.snd

end ConstantArray

end ShaderLift
