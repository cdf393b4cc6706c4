/-
What the values in a shader's inputs, outputs and samplers mean: the usage of a vertex element, and
the kind of texture behind a sampler.
-/

namespace ShaderLift

/-! ### Usages -/

/-- The declared meaning of an input or output. -/
inductive Usage where
  | unknown
  | position
  | blendWeight
  | blendIndices
  | normal
  | pointSize
  | texCoord
  | tangent
  | binormal
  | tessFactor
  | positionT
  | color
  | fog
  | depth
  | sample
  deriving Repr, DecidableEq

namespace Usage

def ofCode? : Nat → Option Usage
  | 0 => some .position
  | 1 => some .blendWeight
  | 2 => some .blendIndices
  | 3 => some .normal
  | 4 => some .pointSize
  | 5 => some .texCoord
  | 6 => some .tangent
  | 7 => some .binormal
  | 8 => some .tessFactor
  | 9 => some .positionT
  | 10 => some .color
  | 11 => some .fog
  | 12 => some .depth
  | 13 => some .sample
  | _ => none

/-- The number of a usage in a declaration; the unknown usage has none. -/
def code? : Usage → Option Nat
  | .unknown => none
  | .position => some 0
  | .blendWeight => some 1
  | .blendIndices => some 2
  | .normal => some 3
  | .pointSize => some 4
  | .texCoord => some 5
  | .tangent => some 6
  | .binormal => some 7
  | .tessFactor => some 8
  | .positionT => some 9
  | .color => some 10
  | .fog => some 11
  | .depth => some 12
  | .sample => some 13

def text : Usage → String
  | .unknown => "unknown"
  | .position => "position"
  | .blendWeight => "blendweight"
  | .blendIndices => "blendindices"
  | .normal => "normal"
  | .pointSize => "psize"
  | .texCoord => "texcoord"
  | .tangent => "tangent"
  | .binormal => "binormal"
  | .tessFactor => "tessfactor"
  | .positionT => "positiont"
  | .color => "color"
  | .fog => "fog"
  | .depth => "depth"
  | .sample => "sample"

def all : List Usage :=
  [.unknown, .position, .blendWeight, .blendIndices, .normal, .pointSize, .texCoord, .tangent,
    .binormal, .tessFactor, .positionT, .color, .fog, .depth, .sample]

def ofText? (s : String) : Option Usage :=
  all.find? fun u => u.text == s

theorem code?_ofCode? {n : Nat} {u : Usage} (h : ofCode? n = some u) : u.code? = some n := by
  unfold ofCode? at h
  split at h <;> simp_all <;> subst h <;> rfl

/-- Before shader model 2 the number of a vertex input fixes its usage and usage index. -/
def ofVertexInput? (number : Nat) : Option (Usage × Nat) :=
  match number with
  | 0 => some (.position, 0)
  | 1 => some (.blendWeight, 0)
  | 2 => some (.blendIndices, 0)
  | 3 => some (.normal, 0)
  | 4 => some (.pointSize, 0)
  | 5 => some (.color, 0)
  | 6 => some (.color, 1)
  | 15 => some (.position, 1)
  | 16 => some (.normal, 1)
  | n => if 7 ≤ n ∧ n ≤ 14 then some (.texCoord, n - 7) else none

end Usage

/-! ### Textures -/

/-- The shape of the texture behind a sampler. -/
inductive TextureKind where
  | plane
  | cube
  | volume
  deriving Repr, DecidableEq

namespace TextureKind

def ofCode? : Nat → Option TextureKind
  | 2 => some .plane
  | 3 => some .cube
  | 4 => some .volume
  | _ => none

def code : TextureKind → Nat
  | .plane => 2
  | .cube => 3
  | .volume => 4

/-- The name of a sampler's kind in reports; a sampler may be of no known kind. -/
def reportName : Option TextureKind → String
  | none => "Unknown"
  | some .plane => "TwoD"
  | some .cube => "Cube"
  | some .volume => "Volume"

end TextureKind

end ShaderLift
