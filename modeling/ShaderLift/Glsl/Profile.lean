/-
The dialects of GLSL that code can be written in, and what they differ in: how the version is stated,
whether arrays can be constants, which variables are built in, and how values are passed from one stage
to the next.
-/
import ShaderLift.Semantic
import ShaderLift.Version

namespace ShaderLift.Glsl

/-- The dialects. -/
inductive Profile where
  | glsl110
  | glsl120
  | es100
  | glsl400
  deriving Repr, DecidableEq

namespace Profile

def name : Profile → String
  | .glsl110 => "glsl"
  | .glsl120 => "glsl120"
  | .es100 => "glsles"
  | .glsl400 => "glsl400"

def all : List Profile := [.glsl110, .glsl120, .es100, .glsl400]

/-- The dialect with the given name; upper and lower case of ASCII letters count as the same. -/
def ofName? (s : String) : Option Profile :=
  all.find? fun p => s.toList.map Char.toLower = p.name.toList

def hasArrayConstants : Profile → Bool
  | .glsl120 | .glsl400 => true
  | .glsl110 | .es100 => false

def hasFixedFunction : Profile → Bool
  | .glsl110 | .glsl120 => true
  | .es100 | .glsl400 => false

def versionLines (p : Profile) (sh : Shader) : List String :=
  match p with
  | .glsl110 => ["#version 110"]
  | .glsl120 => ["#version 120"]
  | .es100 =>
    ["#version 100",
      if sh.isVertex then "precision highp float;" else "precision mediump float;",
      "precision mediump int;"]
  | .glsl400 => ["#version 400"]

def attributeQualifier : Profile → String
  | .glsl400 => "in"
  | _ => "attribute"

/-- How a variable is declared that a vertex shader passes on, or that a pixel shader is passed. -/
def varyingQualifier (p : Profile) (stage : Stage) : String :=
  match p, stage with
  | .glsl400, .vertex => "out"
  | .glsl400, .pixel => "in"
  | .es100, .vertex => "varying highp"
  | _, _ => "varying"

end Profile

/-! ### Built-in variables and varyings -/

/-- The built-in variables that carry inputs and outputs. -/
inductive Builtin where
  | position
  | pointSize
  | frontColor
  | frontSecondaryColor
  | color
  | secondaryColor
  | fogCoordinate
  | texCoord (index : Nat)
  deriving Repr, DecidableEq

def Builtin.text : Builtin → String
  | .position => "gl_Position"
  | .pointSize => "gl_PointSize"
  | .frontColor => "gl_FrontColor"
  | .frontSecondaryColor => "gl_FrontSecondaryColor"
  | .color => "gl_Color"
  | .secondaryColor => "gl_SecondaryColor"
  | .fogCoordinate => "gl_FogFragCoord"
  | .texCoord index => s!"gl_TexCoord[{index}]"

/-- A variable that a vertex shader passes to a pixel shader, named for its meaning. -/
structure Varying where
  usage : Usage
  index : Nat
  scalar : Bool
  deriving Repr, DecidableEq

namespace Varying

def text (v : Varying) : String :=
  match v.usage.code? with
  | some code => s!"io_{code}_{v.index}"
  | none => s!"io_unknown_{v.index}"

def declaration (p : Profile) (stage : Stage) (v : Varying) : String :=
  p.varyingQualifier stage ++ " " ++ (if v.scalar then "float" else "vec4") ++ " " ++ v.text ++ ";"

end Varying

/-- The variable that an input or output is bound to. -/
inductive Binding where
  | builtin (b : Builtin)
  | varying (v : Varying)
  deriving Repr, DecidableEq

namespace Binding

def vertexBuiltin? (p : Profile) (usage : Usage) (index : Nat) : Option Builtin :=
  match usage, index with
  | .position, 0 => some .position
  | .pointSize, 0 => some .pointSize
  | .color, 0 => if p.hasFixedFunction then some .frontColor else none
  | .color, 1 => if p.hasFixedFunction then some .frontSecondaryColor else none
  | .fog, 0 => if p.hasFixedFunction then some .fogCoordinate else none
  | .texCoord, i => if p.hasFixedFunction && i < 4 then some (.texCoord i) else none
  | _, _ => none

def pixelBuiltin? (p : Profile) (usage : Usage) (index : Nat) : Option Builtin :=
  if p.hasFixedFunction then
    match usage, index with
    | .color, 0 => some .color
    | .color, 1 => some .secondaryColor
    | .texCoord, i => if i < 4 then some (.texCoord i) else none
    | _, _ => none
  else none

def ofVertexOutput (p : Profile) (usage : Usage) (index : Nat) : Binding :=
  match vertexBuiltin? p usage index with
  | some b => .builtin b
  | none => .varying ⟨usage, index, usage = .fog || usage = .pointSize⟩

def ofPixelInput (p : Profile) (usage : Usage) (index : Nat) : Binding :=
  match pixelBuiltin? p usage index with
  | some b => .builtin b
  | none => .varying ⟨usage, index, false⟩

/-- The lines that make a name stand for the variable. -/
def lines (p : Profile) (stage : Stage) (name : String) : Binding → List String
  | .builtin b => ["#define " ++ name ++ " " ++ b.text]
  | .varying v => [v.declaration p stage, "#define " ++ name ++ " " ++ v.text]

end Binding

end ShaderLift.Glsl
