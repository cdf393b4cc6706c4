/-
The state of reading a shader.  A shader is read unit by unit, and `Scan` holds everything that a later
unit, the declarations or the result can still depend on: which registers came up and how, what the
code declares and defines, the open blocks, the code generated so far and the faults found.  All of it
changes through the small operations of this file; reading never stops at a fault.
-/
import ShaderLift.Glsl.Statement
import ShaderLift.Options
import ShaderLift.Preshader
import ShaderLift.Register.Table
import ShaderLift.Symbol.Table

namespace ShaderLift

/-! ### What is known about registers -/

/-- Where the calls of a label stand: a subroutine is given the loop counter or not, so all of them
have to agree. -/
inductive CallContext where
  | none
  | inLoop
  | outsideLoop
  deriving Repr, DecidableEq

/-- What is known about a register that came up. -/
structure Use where
  written : Bool := false
  /-- For a label, where its calls stand. -/
  calls : CallContext := .none
  deriving Repr, DecidableEq

/-- The meaning of an input or output register. -/
structure Attribute where
  usage : Usage := .unknown
  index : Nat := 0
  centroid : Bool := false
  deriving Repr, DecidableEq

/-- What is known about a sampler. -/
structure SamplerUse where
  kind : Option TextureKind := none
  /-- Whether it is used for bump mapping. -/
  bump : Bool := false
  deriving Repr, DecidableEq

/-- One row of a texture matrix: the coordinates in one texture register are multiplied by those in
another. -/
structure Pad where
  source : Nat
  dest : Nat
  deriving Repr, DecidableEq

/-- The rows of texture matrices that wait for the last row.  Each is kept whole, so that a row waits with
both of its registers by construction. -/
structure Pads where
  m3x2 : Option Pad := none
  m3x3First : Option Pad := none
  m3x3Second : Option Pad := none
  deriving Repr, DecidableEq

/-! ### State -/

/-- What stays the same while a shader is read. -/
structure Env extends Shader where
  versionWord : Word
  swizzles : List SwizzleOverride
  samplers : List SamplerOverride
  knownSize : Bool
  deriving Repr, DecidableEq

/-- The kind of texture that is behind a sampler for which the code states `kind`: an override goes
before what the code says. -/
def Env.textureKind (env : Env) (stage : Nat) (kind : Option TextureKind) : Option TextureKind :=
  match env.samplers.find? fun o => o.index = stage with
  | some o => o.kind
  | none => kind

/-- The state of reading a shader. -/
structure Scan where
  /-- Where a fault found now is said to be. -/
  position : Position
  /-- Whether a fault was found in the current unit. -/
  failing : Bool := false
  faults : List LocatedFault := []
  used : RegisterTable Use := .empty
  /-- The registers that a declaration or definition accounts for. -/
  defined : List Register := []
  attributes : RegisterTable Attribute := .empty
  samplers : RegisterTable SamplerUse := .empty
  constants : List Constant := []
  arrays : List ConstantArray := []
  /-- Whether the arrays of the constants defined have been made out. -/
  grouped : Bool := false
  haveTable : Bool := false
  symbols : List Symbol := []
  preshader : Option Preshader := none
  slots : Nat := 0
  previous : Option Opcode := none
  loops : Nat := 0
  reps : Nat := 0
  ifs : Nat := 0
  compares : Nat := 0
  pads : Pads := {}
  relativeInput : Bool := false
  /-- Whether the end mark was read. -/
  ended : Bool := false
  /-- Whether the last unit is longer than what is left of the code. -/
  truncated : Bool := false
  helpers : List Glsl.Helper := []
  code : List Glsl.Stmt := []
  deriving Repr

namespace Scan

/-! ### Faults and positions -/

def fail (s : Scan) (f : Fault) : Scan :=
  { s with failing := true, faults := s.faults ++ [⟨s.position, f⟩] }

def failIf (s : Scan) (b : Bool) (f : Fault) : Scan :=
  if b then s.fail f else s

def failAll (s : Scan) (fs : List Fault) : Scan :=
  fs.foldl fail s

def advance (s : Scan) : Scan :=
  match s.position with
  | .offset n => { s with position := .offset (n + 4) }
  | _ => s

def moveTo (s : Scan) (p : Position) : Scan := { s with position := p }

def startUnit (s : Scan) (p : Position) : Scan :=
  { s with position := p, failing := false }

def absorb {α : Type} (s : Scan) (a : Attempt α) : Scan := s.failAll a.faults

/-! ### Registers -/

/-- Records that a register came up, and whether it was written. -/
def markUsed (s : Scan) (r : Register) (written : Bool) : Scan :=
  { s with used := s.used.update r {} fun u => { u with written := u.written || written } }

def markDefined (s : Scan) (r : Register) : Scan :=
  { s with defined := s.defined ++ [r] }

def isDefined (s : Scan) (r : Register) : Bool := s.defined.contains r

def wasWritten (s : Scan) (r : Register) : Bool :=
  match s.used.find? r with
  | some u => u.written
  | none => false

/-- Whether a register holds one component only.  A general output does if it was declared for a point
size or fog factor. -/
def isScalar (s : Scan) (sh : Shader) (r : Register) : Bool :=
  if r.file = .output then
    match s.attributes.find? r with
    | some a => a.usage = .pointSize || a.usage = .fog
    | none => false
  else r.isScalarIn sh

def setAttribute (s : Scan) (r : Register) (a : Attribute) : Scan :=
  { s with attributes := s.attributes.update r {} fun _ => a }

def addSampler (s : Scan) (env : Env) (stage : Nat) (kind : Option TextureKind) (bump : Bool) :
    Scan :=
  { s with
    samplers := s.samplers.update (Glsl.sampler stage) {} fun u =>
      ⟨env.textureKind stage kind, u.bump || bump⟩ }

def textureKind (s : Scan) (stage : Nat) : Option TextureKind :=
  (s.samplers.find? (Glsl.sampler stage)).bind SamplerUse.kind

def callsOf (s : Scan) (label : Nat) : CallContext :=
  match s.used.find? ⟨.label, label⟩ with
  | some u => u.calls
  | none => .none

/-! ### Constant arrays -/

/-- Makes the arrays of the constants defined out, unless that was done before. -/
def groupConstants (s : Scan) : Scan :=
  if s.grouped then s
  else { s with grouped := true, arrays := s.arrays ++ ConstantArray.ofConstants s.constants }

/-- The newest array of floats that has the given register. -/
def floatArray? (s : Scan) (number : Nat) : Option Nat :=
  ConstantArray.newest? (fun a => a.kind = .float && a.contains number) s.arrays

def markArrayUsed (s : Scan) (place : Nat) : Scan :=
  { s with arrays := s.arrays.modify place fun a => { a with used := true } }

/-! ### Blocks -/

def inLoop (s : Scan) : Bool := 0 < s.loops || 0 < s.reps

def charge (s : Scan) (n : Nat) : Scan := { s with slots := s.slots + n }

end Scan

end ShaderLift
