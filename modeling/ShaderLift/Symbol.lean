/-
Symbols: the named constants that a high-level compiler declared, with the registers they live in and
a description of their types.
-/
import ShaderLift.Constant

namespace ShaderLift

namespace Symbol

inductive RegisterSet where
  | bool
  | int4
  | float4
  | sampler
  deriving Repr, DecidableEq

namespace RegisterSet

def ofCode? : Nat → Option RegisterSet
  | 0 => some .bool
  | 1 => some .int4
  | 2 => some .float4
  | 3 => some .sampler
  | _ => none

/-- The kind of constant registers of this set; samplers are no constants. -/
def kind? : RegisterSet → Option ConstantKind
  | .bool => some .bool
  | .int4 => some .int
  | .float4 => some .float
  | .sampler => none

def reportName : RegisterSet → String
  | .bool => "Bool"
  | .int4 => "Int4"
  | .float4 => "Float4"
  | .sampler => "Sampler"

end RegisterSet

/-- How the components of a type are arranged. -/
inductive Arrangement where
  | scalar
  | vector
  | matrixRows
  | matrixColumns
  | object
  | struct
  deriving Repr, DecidableEq

def Arrangement.all : List Arrangement :=
  [.scalar, .vector, .matrixRows, .matrixColumns, .object, .struct]

def Arrangement.ofCode? (n : Nat) : Option Arrangement := all[n]?

inductive BaseType where
  | void
  | bool
  | int
  | float
  | string
  | texture
  | texture1D
  | texture2D
  | texture3D
  | textureCube
  | sampler
  | sampler1D
  | sampler2D
  | sampler3D
  | samplerCube
  | pixelShader
  | vertexShader
  | pixelFragment
  | vertexFragment
  | unsupported
  deriving Repr, DecidableEq

def BaseType.all : List BaseType :=
  [.void, .bool, .int, .float, .string, .texture, .texture1D, .texture2D, .texture3D, .textureCube,
    .sampler, .sampler1D, .sampler2D, .sampler3D, .samplerCube, .pixelShader, .vertexShader,
    .pixelFragment, .vertexFragment, .unsupported]

def BaseType.ofCode? (n : Nat) : Option BaseType := all[n]?

/-- The description of a type; the members of a structure have names and types of their own. -/
inductive TypeInfo where
  | mk (arrangement : Arrangement) (base : BaseType) (rows columns elements : Nat)
      (members : List (String × TypeInfo))
  deriving Repr

end Symbol

structure Symbol where
  name : String
  registerSet : Symbol.RegisterSet
  registerIndex : Nat
  registerCount : Nat
  type : Symbol.TypeInfo
  deriving Repr

end ShaderLift
