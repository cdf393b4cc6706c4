/-
The declarations of a program.  They follow from what was read and from the interface; only their text
depends on the dialect.
-/
import ShaderLift.Glsl.Profile
import ShaderLift.Interface

namespace ShaderLift.Glsl

/-! ### Declarations -/

inductive Decl where
  /-- A constant that the code defines. -/
  | literal (c : Constant)
  | vector (r : Register)
  | integers (r : Register)
  | truth (r : Register)
  | truths (r : Register)
  /-- A texture register, which holds texture coordinates to begin with. -/
  | coordinates (number : Nat)
  | arrayBase (base slot : Nat)
  | literalArray (a : ConstantArray)
  | constant (c : PlacedConstant)
  | sampler (stage : Nat) (kind : TextureKind)
  /-- The two places for bump mapping. -/
  | bump (stage slot : Nat)
  | vertexInput (r : Register)
  | vertexOutput (r : Register) (usage : Usage) (index : Nat)
  | pixelInput (r : Register) (usage : Usage) (index : Nat)
  /-- A colour; there may be many of them. -/
  | color (number : Nat) (many : Bool)
  | depth (r : Register)
  /-- The scale and offset of the vertical position of a pixel. -/
  | positionFlip
  deriving Repr, DecidableEq

/-- Declarations at the start of the entry point. -/
inductive Local where
  | face (r : Register)
  | position (r : Register)
  deriving Repr, DecidableEq

/-! ### Text -/

def vectorText (type : String) (q : Quad String) : String :=
  type ++ "(" ++ ", ".intercalate q.toList ++ ")"

def literalText (c : Constant) : String :=
  match c.kind with
  | .float => vectorText "vec4" (c.singles.map Single.literal)
  | .int => vectorText "ivec4" (c.ints.map fun n => toString n)
  | .bool => if c.truth then "true" else "false"

def elementText (sh : Shader) (array : Ident) (n : Nat) : String :=
  array.text sh ++ s!"[{n}]"

def placeText (sh : Shader) (kind : ConstantKind) : Place → String
  | .own slot => elementText sh (.packed kind) slot
  | .shared slot => elementText sh (.packed .float) slot
  | .literal base count element => elementText sh (.constArray base count) element

def defineLine (name value : String) : String := "#define " ++ name ++ " " ++ value

def samplerType : TextureKind → String
  | .plane => "sampler2D"
  | .cube => "samplerCube"
  | .volume => "sampler3D"

/-- The texture coordinates that a texture register holds to begin with. -/
def coordinateLines (p : Profile) (sh : Shader) (number : Nat) : List String :=
  let var := Register.name sh ⟨.texture, number⟩
  let v : Varying := ⟨.texCoord, number, false⟩
  if p.hasFixedFunction && number < 4 then
    ["vec4 " ++ var ++ " = " ++ (Builtin.texCoord number).text ++ ";"]
  else [v.declaration p sh.stage, "vec4 " ++ var ++ " = " ++ v.text ++ ";"]

/-- An array that the code defines; where arrays cannot be constants the host has to provide it. -/
def literalArrayLine (p : Profile) (sh : Shader) (a : ConstantArray) : String :=
  let name := (Ident.constArray a.index a.count).text sh
  let count := s!"[{a.count}]"
  if p.hasArrayConstants then
    "const vec4 " ++ name ++ count ++ " = vec4" ++ count ++ "("
      ++ ", ".intercalate (a.constants.map fun c => vectorText "vec4" (c.singles.map Single.literal))
      ++ ");"
  else "uniform vec4 " ++ name ++ count ++ ";"

def Decl.lines (p : Profile) (sh : Shader) : Decl → List String
  | .literal c =>
    ["const " ++ constantType c.kind ++ " " ++ Register.name sh ⟨c.kind.file, c.index⟩ ++ " = "
      ++ literalText c ++ ";"]
  | .vector r => ["vec4 " ++ r.name sh ++ ";"]
  | .integers r => ["ivec4 " ++ r.name sh ++ ";"]
  | .truth r => ["bool " ++ r.name sh ++ ";"]
  | .truths r => ["bvec4 " ++ r.name sh ++ ";"]
  | .coordinates number => coordinateLines p sh number
  | .arrayBase base slot => [defineLine ((Ident.arrayBase base).text sh) (toString slot)]
  | .literalArray a => [literalArrayLine p sh a]
  | .constant c => [defineLine (c.register.name sh) (placeText sh c.kind c.place)]
  | .sampler stage kind =>
    ["uniform " ++ samplerType kind ++ " " ++ (Glsl.sampler stage).name sh ++ ";"]
  | .bump stage slot =>
    [defineLine ((Ident.bumpMatrix stage).text sh) (elementText sh (.packed .float) slot),
      defineLine ((Ident.bumpLuminance stage).text sh) (elementText sh (.packed .float) (slot + 1))]
  | .vertexInput r => [p.attributeQualifier ++ " vec4 " ++ r.name sh ++ ";"]
  | .vertexOutput r usage index =>
    (Binding.ofVertexOutput p usage index).lines p sh.stage (r.name sh)
  | .pixelInput r usage index => (Binding.ofPixelInput p usage index).lines p sh.stage (r.name sh)
  | .color number many =>
    [defineLine (Register.name sh ⟨.colorOut, number⟩)
      (if many then s!"gl_FragData[{number}]" else "gl_FragColor")]
  | .depth r => [defineLine (r.name sh) "gl_FragDepth"]
  | .positionFlip => ["uniform vec2 vposFlip;"]

def Local.line (sh : Shader) : Local → String
  | .face r => "float " ++ r.name sh ++ " = gl_FrontFacing ? 1.0 : -1.0;"
  | .position r =>
    "vec4 " ++ r.name sh ++ " = vec4(gl_FragCoord.x, "
      ++ "(gl_FragCoord.y * vposFlip.x) + vposFlip.y, gl_FragCoord.z, gl_FragCoord.w);"

/-! ### The declarations of a shader -/

/-- The declaration of a register as a variable.  Texture registers of later pixel shaders are inputs,
loop counters and labels are declared where they are used. -/
def variableDecls (sh : Shader) (r : Register) : List Decl :=
  match r.file with
  | .address =>
    if sh.isVertex then [.integers r]
    else if sh.atLeast 1 4 then []
    else [.coordinates r.number]
  | .predicate => [if r.isScalarIn sh then .truth r else .truths r]
  | .temp => [.vector r]
  | _ => []

def arrayDecl (p : PlacedArray) : Decl :=
  match p.slot with
  | some slot => .arrayBase p.array.index slot
  | none => .literalArray p.array

def samplerDecls (s : PlacedSampler) : List Decl :=
  (s.kind.map (Decl.sampler s.stage)).toList ++ (s.bumpSlot.map (Decl.bump s.stage)).toList

/-- The meaning of an output of a vertex shader: before shader model 3 the register itself has one. -/
def outputMeaning (sh : Shader) (r : Register) (a : Attribute) : Usage × Nat :=
  if sh.atLeast 3 0 then (a.usage, a.index)
  else
    match r.file with
    | .rastOut =>
      (if Interface.outputUsage r = .unknown then a.usage else Interface.outputUsage r, 0)
    | .attrOut => (.color, r.number)
    | .texCoordOut => (.texCoord, r.number)
    | _ => (a.usage, a.index)

def attributeDecls (sh : Shader) (many : Bool) (r : Register) (a : Attribute) : List Decl :=
  match sh.stage with
  | .vertex =>
    if r.file = .input then [.vertexInput r]
    else
      let (usage, index) := outputMeaning sh r a
      [.vertexOutput r usage index]
  | .pixel =>
    match r.file with
    | .colorOut => [.color r.number many]
    | .depthOut => [.depth r]
    | .address =>
      if a.usage = .texCoord && !sh.atLeast 1 4 then [] else [.pixelInput r a.usage a.index]
    | .input => [.pixelInput r a.usage a.index]
    | .misc => if r.number = Register.miscPosition then [.positionFlip] else []
    | _ => []

def attributeLocals (sh : Shader) (r : Register) : List Local :=
  if sh.isPixel && r.file = .misc then
    if r.number = Register.miscFace then [.face r]
    else if r.number = Register.miscPosition then [.position r]
    else []
  else []

def declarations (l : LinkedShader) : List Decl :=
  let sh := l.env.toShader
  let i := l.interface
  l.scan.constants.map .literal
    ++ i.globals.flatMap (variableDecls sh)
    ++ i.arrays.map arrayDecl
    ++ i.constants.map .constant
    ++ i.samplers.flatMap samplerDecls
    ++ i.attributes.flatMap fun e => attributeDecls sh i.manyColors e.1 e.2

def localDeclarations (l : LinkedShader) : List Local :=
  l.interface.attributes.flatMap fun e => attributeLocals l.env.toShader e.1

end ShaderLift.Glsl
