/-
What kind of shader a code is: its stage and its shader model.  Models are ordered by one number, the
packed version; a minor version of 255 marks a software model and counts as minor version 1.
-/
import ShaderLift.Word

namespace ShaderLift

/-! ### Stages -/

inductive Stage where
  | pixel
  | vertex
  deriving Repr, DecidableEq

/-- A set of stages, as an opcode's availability names them. -/
structure StageSet where
  pixel : Bool
  vertex : Bool
  geometry : Bool
  deriving Repr, DecidableEq

namespace StageSet

/-- The stages whose bit is set: pixel is bit 0, vertex bit 1, geometry bit 2. -/
def ofBits (w : Word) : StageSet :=
  ⟨Word.flag w 0, Word.flag w 1, Word.flag w 2⟩

def any : StageSet := ⟨true, true, true⟩

def none : StageSet := ⟨false, false, false⟩

def pixelOnly : StageSet := ⟨true, false, false⟩

def vertexOnly : StageSet := ⟨false, true, false⟩

def contains (s : StageSet) : Stage → Bool
  | .pixel => s.pixel
  | .vertex => s.vertex

def shortName : StageSet → String
  | ⟨true, false, false⟩ => "ps"
  | ⟨false, true, false⟩ => "vs"
  | ⟨false, false, true⟩ => "gs"
  | _ => "??"

end StageSet

namespace Stage

/-- The two letters that start every register's name in this stage. -/
def shortName : Stage → String
  | .pixel => "ps"
  | .vertex => "vs"

def bits : Stage → Nat
  | .pixel => 1
  | .vertex => 2

end Stage

/-! ### Shader models -/

structure Version where
  major : Nat
  minor : Nat
  deriving Repr, DecidableEq

namespace Version

/-- The number that orders shader models. -/
def packed (v : Version) : Nat :=
  v.major * 65536 + (if v.minor = 255 then 1 else v.minor)

/-- Whether this model is `major.minor` or a later one. -/
def atLeast (v : Version) (major minor : Nat) : Bool :=
  (Version.mk major minor).packed ≤ v.packed

/-- Whether this model can be read at all: nothing above 3.255 can. -/
def isSupported (v : Version) : Bool :=
  v.packed ≤ (Version.mk 3 255).packed

end Version

/-! ### The version word -/

structure Shader where
  stage : Stage
  version : Version
  deriving Repr, DecidableEq

namespace Shader

def isPixel (sh : Shader) : Bool := sh.stage = .pixel

def isVertex (sh : Shader) : Bool := sh.stage = .vertex

def atLeast (sh : Shader) (major minor : Nat) : Bool :=
  sh.version.atLeast major minor

def shortName (sh : Shader) : String := sh.stage.shortName

/-- Reads a version word; its upper half names the stage. -/
def ofWord? (w : Word) : Option Shader :=
  let version : Version := ⟨Word.field w 8 8, Word.field w 0 8⟩
  if Word.field w 16 16 = 0xFFFF then some ⟨.pixel, version⟩
  else if Word.field w 16 16 = 0xFFFE then some ⟨.vertex, version⟩
  else none

end Shader

end ShaderLift
