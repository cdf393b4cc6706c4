/-
Registers: a register is a number in one of the register files.  Code can name constants in four
separate files of 2048 registers each; `Register.normalize` puts them into one file.
-/
import ShaderLift.Version

namespace ShaderLift

/-- The register files, in the order of their codes. -/
inductive RegisterFile where
  | temp
  | input
  | const
  | address
  | rastOut
  | attrOut
  | texCoordOut
  | constInt
  | colorOut
  | depthOut
  | sampler
  | const2
  | const3
  | const4
  | constBool
  | loop
  | tempHalf
  | misc
  | label
  | predicate
  deriving Repr, DecidableEq

namespace RegisterFile

/-- In pixel shaders the address file holds the texture coordinates `t#`. -/
abbrev texture : RegisterFile := .address

/-- From vertex shader model 3 on the texture coordinate outputs are the general outputs `o#`. -/
abbrev output : RegisterFile := .texCoordOut

def all : List RegisterFile :=
  [.temp, .input, .const, .address, .rastOut, .attrOut, .texCoordOut, .constInt, .colorOut,
    .depthOut, .sampler, .const2, .const3, .const4, .constBool, .loop, .tempHalf, .misc, .label,
    .predicate]

def ofCode? (n : Nat) : Option RegisterFile := all[n]?

def code : RegisterFile → Nat
  | .temp => 0
  | .input => 1
  | .const => 2
  | .address => 3
  | .rastOut => 4
  | .attrOut => 5
  | .texCoordOut => 6
  | .constInt => 7
  | .colorOut => 8
  | .depthOut => 9
  | .sampler => 10
  | .const2 => 11
  | .const3 => 12
  | .const4 => 13
  | .constBool => 14
  | .loop => 15
  | .tempHalf => 16
  | .misc => 17
  | .label => 18
  | .predicate => 19

theorem ofCode?_code (f : RegisterFile) : ofCode? f.code = some f := by
  cases f <;> rfl

/-- Whether registers of this file carry what the shader puts out. -/
def isOutput : RegisterFile → Bool
  | .rastOut | .attrOut | .texCoordOut | .colorOut | .depthOut => true
  | _ => false

end RegisterFile

structure Register where
  file : RegisterFile
  number : Nat
  deriving Repr, DecidableEq

namespace Register

/-- The rasterizer output that holds the position. -/
abbrev positionOut : Nat := 0

/-- The rasterizer output that holds the fog factor. -/
abbrev fogOut : Nat := 1

/-- The rasterizer output that holds the point size. -/
abbrev pointSizeOut : Nat := 2

/-- The miscellaneous input that holds the pixel's position. -/
abbrev miscPosition : Nat := 0

/-- The miscellaneous input that tells front faces from back faces. -/
abbrev miscFace : Nat := 1

/-- Puts the registers of the further constant files behind those of the first one. -/
def normalize (r : Register) : Register :=
  match r.file with
  | .const2 => ⟨.const, r.number + 2048⟩
  | .const3 => ⟨.const, r.number + 4096⟩
  | .const4 => ⟨.const, r.number + 6144⟩
  | _ => r

/-- Registers are ordered by file, then by number. -/
def before (a b : Register) : Bool :=
  a.file.code < b.file.code || (a.file.code == b.file.code && a.number < b.number)

/-- Whether a register holds one component only, whatever is declared for it. -/
def isScalarIn (sh : Shader) (r : Register) : Bool :=
  match r.file with
  | .rastOut => r.number = fogOut || r.number = pointSizeOut
  | .depthOut | .constBool | .loop => true
  | .misc => r.number = miscFace
  | .predicate => sh.isPixel
  | _ => false

/-- The assembly spelling of a register; some have none. -/
def spelling? (sh : Shader) (r : Register) : Option String :=
  let numbered (letters : String) := some (letters ++ toString r.number)
  match r.file with
  | .temp => numbered "r"
  | .input => numbered "v"
  | .const => numbered "c"
  | .address => numbered (if sh.isVertex then "a" else "t")
  | .rastOut =>
    if r.number = positionOut then some "oPos"
    else if r.number = fogOut then some "oFog"
    else if r.number = pointSizeOut then some "oPts"
    else none
  | .attrOut => numbered "oD"
  | .texCoordOut => numbered (if sh.isVertex && sh.atLeast 3 0 then "o" else "oT")
  | .constInt => numbered "i"
  | .colorOut => numbered "oC"
  | .depthOut => some "oDepth"
  | .sampler => numbered "s"
  | .constBool => numbered "b"
  | .loop => some "aL"
  | .misc =>
    if r.number = miscPosition then some "vPos"
    else if r.number = miscFace then some "vFace"
    else none
  | .label => numbered "l"
  | .predicate => numbered "p"
  | .const2 | .const3 | .const4 | .tempHalf => none

/-- The name of a register in generated code: the stage's letters, then its spelling. -/
def name (sh : Shader) (r : Register) : String :=
  sh.shortName ++ "_" ++ (r.spelling? sh).getD "???"

end Register

end ShaderLift
