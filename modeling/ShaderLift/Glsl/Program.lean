/-
The text of a program.  Its parts come in a fixed order: version and packed constants, declarations,
helper functions, subroutines, and the entry point.  The entry point is what the code has up to the
first end of a function; the depth at which its last line stands is where the subroutines go on.
-/
import ShaderLift.Glsl.Declaration

namespace ShaderLift.Glsl

/-! ### Helpers -/

/-- The names of lookups with gradients and levels. -/
def levelLines (p : Profile) (sh : Shader) : List String :=
  if p = .glsl400 then
    ["#define texture2DGrad textureGrad",
      "#define texture2DProjGrad textureProjGrad",
      "#define textureCubeGrad textureGrad",
      "#define texture3DGrad textureGrad",
      "#define texture2DLod textureLod",
      "#define textureCubeLod textureLod",
      "#define texture3DLod textureLod"]
  else
    let inPixel (line : String) : List String := if sh.isPixel then [line] else []
    ["#if GL_ARB_shader_texture_lod",
      "#extension GL_ARB_shader_texture_lod : enable",
      "#define texture2DGrad texture2DGradARB",
      "#define texture2DProjGrad texture2DProjGradARB"]
    ++ inPixel "#define texture2DLod texture2DLodARB"
    ++ ["#elif GL_EXT_gpu_shader4",
      "#define texture2DGrad texture2DGradEXT",
      "#define texture2DProjGrad texture2DProjGradEXT"]
    ++ inPixel "#define texture2DLod texture2DLodEXT"
    ++ ["#else",
      "#define texture2DGrad(a,b,c,d) texture2D(a,b)",
      "#define texture2DProjGrad(a,b,c,d) texture2DProj(a,b)"]
    ++ inPixel "#define texture2DLod(a,b,c) texture2D(a,b)"
    ++ ["#endif"]

def Helper.layout : Helper → List Layout
  | .lighting =>
    [.line "vec4 LIT(const vec4 src)", .line "\x7b", .indent,
      .line "float power = clamp(src.w, -127.9961, 127.9961);",
      .line "vec4 retval = vec4(1.0, 0.0, 0.0, 1.0);",
      .line "if (src.x > 0.0) \x7b", .indent,
      .line "retval.y = src.x;",
      .line "if (src.y > 0.0) \x7b", .indent,
      .line "retval.z = pow(src.y, power);", .outdent,
      .line "\x7d", .outdent,
      .line "\x7d",
      .line "return retval;", .outdent,
      .line "\x7d", .blank]
  | .reflection =>
    [.line "vec3 TEXM3X3SPEC_reflection(const vec3 normal, const vec3 eyeray)",
      .line "\x7b", .indent,
      .line "return (2.0 * ((normal * eyeray) / (normal * normal)) * normal) - eyeray;", .outdent,
      .line "\x7d", .blank]
  | .textureLevels | .largest => []

/-! ### Parts -/

/-- The declaration of the packed constants of a kind; there is none without a constant. -/
def packedLines (sh : Shader) (slots : Slots) (kind : ConstantKind) : List String :=
  let count := slots.count kind
  if count = 0 then []
  else ["uniform " ++ constantType kind ++ " " ++ (Ident.packed kind).text sh ++ s!"[{count}];"]

/-- The packed constants, and the names that the end of the entry point and the helpers need. -/
def sizeLayout (o : Options) (sh : Shader) (helpers : List Helper) (slots : Slots) : List Layout :=
  Layout.lines (packedLines sh slots .float ++ packedLines sh slots .int
      ++ packedLines sh slots .bool)
    ++ (if o.flipRenderTarget && sh.isVertex then [.line "uniform float vpFlip;"] else [])
    ++ if helpers.contains .largest then [.line "const float FLT_MAX = 1e38;"] else []

def preface (p : Profile) (o : Options) (l : LinkedShader) : List Layout :=
  let sh := l.env.toShader
  Layout.lines (p.versionLines sh)
    ++ (if l.scan.helpers.contains .textureLevels then
        Layout.lines (levelLines p sh) ++ [.blank]
      else [])
    ++ sizeLayout o sh l.scan.helpers l.interface.slots

def globals (p : Profile) (l : LinkedShader) : List Layout :=
  Layout.lines ((declarations l).flatMap (Decl.lines p l.env.toShader)) ++ [.blank]

/-- The head of the entry point with its local declarations. -/
def intro (o : Options) (l : LinkedShader) : List Layout :=
  [.line ("void " ++ o.entryPoint ++ "()"), .line "\x7b", .indent]
    ++ Layout.lines ((localDeclarations l).map (Local.line l.env.toShader))

/-- What a caller wants done at the end of a vertex shader. -/
def epilogue (o : Options) (sh : Shader) : List Layout :=
  if sh.isVertex then
    (if o.flipRenderTarget then [.line "gl_Position.y = gl_Position.y * vpFlip;"] else [])
      ++ if o.depthClipping then
        [.line "gl_Position.z = gl_Position.z * 2.0 - gl_Position.w;"]
      else []
  else []

/-- Divides the code of a shader: the statements before the first end of a function, and those from
there on. -/
def mainBody (code : List Stmt) : List Stmt × List Stmt :=
  code.span fun c => c != .closeFunction

/-- The rest of the entry point, and the subroutines. -/
def bodies (o : Options) (sh : Shader) (code : List Stmt) : List Layout × List Layout :=
  let (main, rest) := mainBody code
  (main.flatMap (Stmt.layout sh) ++ epilogue o sh ++ (rest.take 1).flatMap (Stmt.layout sh),
    (rest.drop 1).flatMap (Stmt.layout sh))

/-! ### The program -/

def program (p : Profile) (o : Options) (l : LinkedShader) : String :=
  let (main, subroutines) := bodies o l.env.toShader l.scan.code
  let (mainText, depth) := Layout.run main 1
  (Layout.run (preface p o l) 0).1
    ++ (Layout.run (globals p l) 0).1
    ++ (Layout.run (l.scan.helpers.flatMap Helper.layout) 0).1
    ++ (Layout.run subroutines depth).1
    ++ (Layout.run (intro o l) 0).1
    ++ mainText

end ShaderLift.Glsl
