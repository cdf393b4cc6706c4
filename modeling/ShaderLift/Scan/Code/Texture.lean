/-
The code of texture lookups.  The function that looks a texture up follows from what is known about
its sampler at the instruction.
-/
import ShaderLift.Scan.Code.Operand

namespace ShaderLift

open Glsl

namespace Scan

/-- The components of coordinates that a plain lookup takes. -/
def coordinateMask : TextureKind → WriteMask
  | .plane => .xy
  | .cube | .volume => .xyz

def textureLanes (number : Nat) (ls : List Lane) : Expr :=
  .lanes (.register ⟨.texture, number⟩) ls

def textureXyz (number : Nat) : Expr := textureLanes number [.x, .y, .z]

/-! ### Loads -/

/-- The load of the first pixel shaders: the register holds the coordinates and takes the colour. -/
def oldLoadCode (sh : Shader) (s : Scan) (i : Instruction) : Emission Unit :=
  let d := i.dest.register
  match s.textureKind d.number with
  | none => Emission.fault .textureKindUnknown
  | some kind =>
    assignTo sh s i i.dest
      (.lookup kind .implicit d.number (.lanes (.register d) (coordinateMask kind).lanes))

/-- Assigns what a lookup finds, with the swizzle of the sampler. -/
def assignLookup (sh : Shader) (s : Scan) (i : Instruction) (kind : TextureKind) (form : LookupForm)
    (arguments : Expr) : Emission Unit :=
  let stage := i.source 1
  assignTo sh s i i.dest
    ((Expr.lookup kind form stage.register.number arguments).select stage.swizzle i.dest.mask)

/-- A load through a sampler: plain, with projected coordinates, or with a bias in the last
component. -/
def loadCode (sh : Shader) (s : Scan) (i : Instruction) : Emission Unit :=
  if !sh.atLeast 1 4 then oldLoadCode sh s i
  else if !sh.atLeast 2 0 then Emission.fault .texLdModel14
  else
    match s.textureKind (i.source 1).register.number with
    | none => Emission.fault (.lookupUndeclared .texLd)
    | some kind =>
      if i.controls = 1 then
        if kind = .cube then Emission.fault .projectedCube
        else do
          let coordinates ← sourceAt sh s (i.source 0) .xyzw
          assignLookup sh s i kind .projected coordinates
      else do
        let coordinates ← sourceAt sh s (i.source 0) (coordinateMask kind)
        if i.controls = 2 then
          let bias ← sourceAt sh s (i.source 0) .w
          assignLookup sh s i kind .implicit (.args coordinates bias)
        else assignLookup sh s i kind .implicit coordinates

def gradientLoadCode (sh : Shader) (s : Scan) (i : Instruction) : Emission Unit :=
  match s.textureKind (i.source 1).register.number with
  | none => Emission.fault (.lookupUndeclared .texLdd)
  | some kind => do
    Emission.require .textureLevels
    let coordinates ← sourceAt sh s (i.source 0) (coordinateMask kind)
    let dx ← sourceAt sh s (i.source 2) (coordinateMask kind)
    let dy ← sourceAt sh s (i.source 3) (coordinateMask kind)
    assignLookup sh s i kind .gradient (.args coordinates (.args dx dy))

def levelLoadCode (sh : Shader) (s : Scan) (i : Instruction) : Emission Unit :=
  match s.textureKind (i.source 1).register.number with
  | none => Emission.fault (.lookupUndeclared .texLdl)
  | some kind => do
    Emission.require .textureLevels
    let coordinates ← sourceAt sh s (i.source 0) (coordinateMask kind)
    let level ← sourceAt sh s (i.source 0) .w
    assignLookup sh s i kind .level (.args coordinates level)

/-! ### Bump mapping -/

/-- One coordinate of a bumped lookup: `lane` of the register, moved by the other texture as the
components `a` and `b` of the matrix say. -/
def bumpedCoordinate (d : Register) (other : Nat) (lane a b : Lane) : Expr :=
  let matrix (l : Lane) : Expr := .lanes (.name (.bumpMatrix d.number)) [l]
  .add
    (.add (.lanes (.register d) [lane]) (.group (.mul (matrix a) (textureLanes other [.x]))))
    (.group (.mul (matrix b) (textureLanes other [.y])))

/-- A lookup in a flat texture whose coordinates another texture moves. -/
def bumpCode (sh : Shader) (s : Scan) (i : Instruction) (luminance : Bool) : Emission Unit := do
  let d := i.dest.register
  let other := (i.source 0).register.number
  let scale (l : Lane) : Expr := .lanes (.name (.bumpLuminance d.number)) [l]
  assignTo sh s i i.dest
    (.lookup .plane .implicit d.number
      (.call2 "vec2" (bumpedCoordinate d other .x .x .z) (bumpedCoordinate d other .y .y .w)))
  if luminance then
    assignTo sh s i i.dest
      (.mul (.register d)
        (.group (.add (.group (.mul (textureLanes other [.z]) (scale .x))) (scale .y))))

/-! ### Texture matrices -/

def padProduct (p : Pad) : Expr := .dot (textureXyz p.source) (textureXyz p.dest)

/-- A lookup with the two products of a texture matrix. -/
def matrix2Code (sh : Shader) (s : Scan) (i : Instruction) : Emission Unit :=
  match s.pads.m3x2 with
  | none => pure ()
  | some pad =>
    let d := i.dest.register
    assignTo sh s i i.dest
      (.lookup .plane .implicit d.number
        (.call2 "vec2" (padProduct pad)
          (.dot (textureXyz (i.source 0).register.number) (.lanes (.register d) [.x, .y, .z]))))

/-- The rows of a three-row texture matrix that wait. -/
def matrix3Pads? (s : Scan) : Option (Pad × Pad) := do
  let first ← s.pads.m3x3First
  let second ← s.pads.m3x3Second
  return (first, second)

def matrix3Products (i : Instruction) (pads : Pad × Pad) : Expr × Expr × Expr :=
  (padProduct pads.1, padProduct pads.2,
    .dot (.lanes (.register i.dest.register) [.x, .y, .z])
      (textureXyz (i.source 0).register.number))

def matrix3Vector (i : Instruction) (pads : Pad × Pad) : Expr :=
  let (a, b, c) := matrix3Products i pads
  .call3 "vec3" a b c

def matrix3Code (sh : Shader) (s : Scan) (i : Instruction) : Emission Unit :=
  match s.matrix3Pads? with
  | none => pure ()
  | some pads =>
    let (a, b, c) := matrix3Products i pads
    assignTo sh s i i.dest (.call4 "vec4" a b c .one)

/-- The kind of a texture that is looked up in three dimensions. -/
def spatialKind? (s : Scan) (stage : Nat) : Option TextureKind :=
  match s.textureKind stage with
  | some .cube => some .cube
  | some .volume => some .volume
  | _ => none

def matrix3LookupCode (sh : Shader) (s : Scan) (i : Instruction) : Emission Unit :=
  let d := i.dest.register
  match s.matrix3Pads? with
  | none => pure ()
  | some pads =>
    match s.spatialKind? d.number with
    | none => Emission.fault .textureKindUnknown
    | some kind => assignTo sh s i i.dest (.lookup kind .implicit d.number (matrix3Vector i pads))

/-- A lookup with an eye ray reflected at the normal that a texture matrix gives.  The eye ray is a
constant, or stands in the last components of the rows. -/
def reflectionCode (sh : Shader) (s : Scan) (i : Instruction) (variableEye : Bool) :
    Emission Unit :=
  let d := i.dest.register
  match s.matrix3Pads? with
  | none => pure ()
  | some pads =>
    match s.spatialKind? d.number with
    | none => Emission.fault .textureKindUnknown
    | some kind => do
      Emission.require .reflection
      if variableEye then
        Emission.write (.vector3 (.eyeRay d)
          (.call3 "vec3" (textureLanes pads.1.dest [.w]) (textureLanes pads.2.dest [.w])
            (.lanes (.register d) [.w])))
      let eye : Expr :=
        if variableEye then .name (.eyeRay d)
        else .lanes (.register ⟨.const, (i.source 1).register.number⟩) [.x, .y, .z]
      Emission.write (.vector3 (.normal d) (.call1 "normalize" (matrix3Vector i pads)))
      assignTo sh s i i.dest
        (.lookup kind .implicit d.number
          (.call2 "TEXM3X3SPEC_reflection" (.name (.normal d)) eye))

end Scan

end ShaderLift
