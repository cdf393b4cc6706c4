/-
Components of a four-component register: which component a source reads in each of its four lanes
(a swizzle), and which components a destination writes (a write mask).  In a word a swizzle takes two
bits a lane and a write mask one bit a component, both starting at `x`.
-/

namespace ShaderLift

/-- One of the four components of a register. -/
inductive Lane where
  | x
  | y
  | z
  | w
  deriving Repr, DecidableEq

namespace Lane

def all : List Lane := [.x, .y, .z, .w]

/-- The lane a number stands for, by its lowest two bits. -/
def ofIndex (n : Nat) : Lane :=
  match n % 4 with
  | 0 => .x
  | 1 => .y
  | 2 => .z
  | _ => .w

def index : Lane → Nat
  | .x => 0
  | .y => 1
  | .z => 2
  | .w => 3

def letter : Lane → Char
  | .x => 'x'
  | .y => 'y'
  | .z => 'z'
  | .w => 'w'

@[simp] theorem ofIndex_index (l : Lane) : ofIndex l.index = l := by
  cases l <;> rfl

end Lane

/-! ### Swizzles -/

structure Swizzle where
  x : Lane
  y : Lane
  z : Lane
  w : Lane
  deriving Repr, DecidableEq

namespace Swizzle

def identity : Swizzle := ⟨.x, .y, .z, .w⟩

def replicate (c : Lane) : Swizzle := ⟨c, c, c, c⟩

/-- The swizzle with the given encoding, two bits a lane. -/
def ofCode (n : Nat) : Swizzle :=
  ⟨.ofIndex n, .ofIndex (n / 4), .ofIndex (n / 16), .ofIndex (n / 64)⟩

def code (s : Swizzle) : Nat :=
  s.x.index + 4 * s.y.index + 16 * s.z.index + 64 * s.w.index

def lane (s : Swizzle) : Lane → Lane
  | .x => s.x
  | .y => s.y
  | .z => s.z
  | .w => s.w

def setLane (s : Swizzle) (l c : Lane) : Swizzle :=
  match l with
  | .x => { s with x := c }
  | .y => { s with y := c }
  | .z => { s with z := c }
  | .w => { s with w := c }

def map (f : Lane → Lane) (s : Swizzle) : Swizzle :=
  ⟨f s.x, f s.y, f s.z, f s.w⟩

def isIdentity (s : Swizzle) : Bool := s = identity

def isReplicate (s : Swizzle) : Bool := s = replicate s.x

def letters (s : Swizzle) : String :=
  String.ofList [s.x.letter, s.y.letter, s.z.letter, s.w.letter]

end Swizzle

/-! ### Write masks -/

/-- The components a destination writes; bit 0 stands for `x`.  Only the lower four bits count. -/
structure WriteMask where
  bits : UInt8
  deriving Repr, DecidableEq

namespace WriteMask

def ofBools (x y z w : Bool) : WriteMask :=
  ⟨UInt8.ofNat (x.toNat + 2 * y.toNat + 4 * z.toNat + 8 * w.toNat)⟩

def x : WriteMask := ⟨1⟩

def y : WriteMask := ⟨2⟩

def z : WriteMask := ⟨4⟩

def w : WriteMask := ⟨8⟩

def xy : WriteMask := ⟨3⟩

def xyz : WriteMask := ⟨7⟩

def xyzw : WriteMask := ⟨15⟩

def single : Lane → WriteMask
  | .x => x
  | .y => y
  | .z => z
  | .w => w

def has (m : WriteMask) (l : Lane) : Bool :=
  m.bits.toNat.testBit l.index

def lanes (m : WriteMask) : List Lane :=
  Lane.all.filter m.has

def size (m : WriteMask) : Nat := m.lanes.length

def ofLanes (ls : List Lane) : WriteMask :=
  ofBools (ls.contains .x) (ls.contains .y) (ls.contains .z) (ls.contains .w)

/-- Whether both masks write the same components. -/
def same (m n : WriteMask) : Bool := m.lanes = n.lanes

def isEmpty (m : WriteMask) : Bool := m.lanes = []

def isX (m : WriteMask) : Bool := m.same x

def isY (m : WriteMask) : Bool := m.same y

def isXy (m : WriteMask) : Bool := m.same xy

def isXyz (m : WriteMask) : Bool := m.same xyz

def isXyzw (m : WriteMask) : Bool := m.same xyzw

end WriteMask

end ShaderLift
