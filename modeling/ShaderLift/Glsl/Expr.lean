/-
Expressions of generated code.  Code is built as data and becomes text only at the very end, so what an
expression reads can be told from the expression itself.  Names are kept by what they stand for, too:
the register, array or macro.  Arguments of a call are one expression, joined by `args`.
-/
import ShaderLift.Constant
import ShaderLift.Operand
import ShaderLift.Semantic

namespace ShaderLift.Glsl

/-! ### Names -/

def constantType : ConstantKind → String
  | .float => "vec4"
  | .int => "ivec4"
  | .bool => "bool"

/-- What a name of generated code stands for. -/
inductive Ident where
  | register (r : Register)
  /-- The array that all constants of a kind provided by the host are packed into. -/
  | packed (kind : ConstantKind)
  | constArray (base count : Nat)
  /-- The place of an array in the packed array. -/
  | arrayBase (base : Nat)
  /-- The inputs of a vertex shader, taken as an array. -/
  | inputArray
  | loopCounter
  /-- The matrix that bump mapping applies to the coordinates of a sampler. -/
  | bumpMatrix (stage : Nat)
  /-- The scale and offset that bump mapping applies to the luminance of a sampler. -/
  | bumpLuminance (stage : Nat)
  /-- The eye ray that the reflection in a texture register is computed with. -/
  | eyeRay (r : Register)
  /-- The normal that the reflection in a texture register is computed with. -/
  | normal (r : Register)
  deriving Repr, DecidableEq

def sampler (stage : Nat) : Register := ⟨.sampler, stage⟩

def Ident.text (sh : Shader) : Ident → String
  | .register r => r.name sh
  | .packed kind => sh.shortName ++ "_uniforms_" ++ constantType kind
  | .constArray base count => sh.shortName ++ s!"_const_array_{base}_{count}"
  | .arrayBase base => s!"ARRAYBASE_{base}"
  | .inputArray => "vertex_input_array"
  | .loopCounter => "aL"
  | .bumpMatrix stage => (sampler stage).name sh ++ "_texbem"
  | .bumpLuminance stage => (sampler stage).name sh ++ "_texbeml"
  | .eyeRay r => r.name sh ++ "_eyeray"
  | .normal r => r.name sh ++ "_normal"

/-! ### Texture lookups -/

inductive LookupForm where
  | implicit
  | projected
  | gradient
  | level
  deriving Repr, DecidableEq

def lookupFunction (kind : TextureKind) (form : LookupForm) : String :=
  (match kind with
    | .plane => "texture2D"
    | .cube => "textureCube"
    | .volume => "texture3D")
  ++ match form with
    | .implicit => ""
    | .projected => "Proj"
    | .gradient => "Grad"
    | .level => "Lod"

/-! ### Expressions -/

inductive BinaryOp where
  | add
  | sub
  | mul
  | div
  | compare (c : Comparison)
  deriving Repr, DecidableEq

def BinaryOp.text : BinaryOp → String
  | .add => "+"
  | .sub => "-"
  | .mul => "*"
  | .div => "/"
  | .compare c => c.operator

/-- Expressions. -/
inductive Expr where
  /-- A number or a predefined constant, as it is written. -/
  | number (text : String)
  | name (i : Ident)
  | lanes (e : Expr) (ls : List Lane)
  | element (array : Ident) (index : Expr)
  | negate (e : Expr)
  | not (e : Expr)
  | group (e : Expr)
  | binary (op : BinaryOp) (a b : Expr)
  /-- The value of `a` where `test` holds, of `b` elsewhere. -/
  | choose (test a b : Expr)
  | call (function : String) (arguments : Expr)
  /-- The texture lookup on the sampler `stage`. -/
  | lookup (kind : TextureKind) (form : LookupForm) (stage : Nat) (arguments : Expr)
  /-- Two arguments, or more if one of them is joined itself. -/
  | args (a b : Expr)
  deriving Repr, DecidableEq

def lettersOf (ls : List Lane) : String :=
  String.ofList (ls.map Lane.letter)

namespace Expr

def text (sh : Shader) : Expr → String
  | .number t => t
  | .name i => i.text sh
  | .lanes e ls => e.text sh ++ "." ++ lettersOf ls
  | .element array index => array.text sh ++ "[" ++ index.text sh ++ "]"
  | .negate e => "-" ++ e.text sh
  | .not e => "!" ++ e.text sh
  | .group e => "(" ++ e.text sh ++ ")"
  | .binary op a b => a.text sh ++ " " ++ op.text ++ " " ++ b.text sh
  | .choose test a b => test.text sh ++ " ? " ++ a.text sh ++ " : " ++ b.text sh
  | .call function arguments => function ++ "(" ++ arguments.text sh ++ ")"
  | .lookup kind form stage arguments =>
    lookupFunction kind form ++ "(" ++ (sampler stage).name sh ++ ", " ++ arguments.text sh ++ ")"
  | .args a b => a.text sh ++ ", " ++ b.text sh

/-! ### Short forms -/

def register (r : Register) : Expr := .name (.register r)

def zero : Expr := .number "0.0"

def half : Expr := .number "0.5"

def one : Expr := .number "1.0"

def two : Expr := .number "2.0"

def add (a b : Expr) : Expr := .binary .add a b

def sub (a b : Expr) : Expr := .binary .sub a b

def mul (a b : Expr) : Expr := .binary .mul a b

def div (a b : Expr) : Expr := .binary .div a b

def compare (c : Comparison) (a b : Expr) : Expr := .binary (.compare c) a b

def call1 (f : String) (a : Expr) : Expr := .call f a

def call2 (f : String) (a b : Expr) : Expr := .call f (.args a b)

def call3 (f : String) (a b c : Expr) : Expr := .call f (.args a (.args b c))

def call4 (f : String) (a b c d : Expr) : Expr := .call f (.args a (.args b (.args c d)))

def listOf : List Expr → Expr
  | [] => .number ""
  | [e] => e
  | e :: es => .args e (listOf es)

def dot (a b : Expr) : Expr := call2 "dot" a b

/-- Some components of a vector, all four of them in their order being the vector itself. -/
def select (e : Expr) (swizzle : Swizzle) (mask : WriteMask) : Expr :=
  if swizzle.isIdentity && mask.isXyzw then e
  else .lanes e (mask.lanes.map swizzle.lane)

end Expr

/-- The function that makes a vector of `n` components, or a number if `n` is one. -/
def floatCast (n : Nat) : String :=
  if n ≤ 1 then "float" else s!"vec{n}"

end ShaderLift.Glsl
