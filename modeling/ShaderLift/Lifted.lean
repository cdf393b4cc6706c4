/-
The result of lifting a shader: the text of the program, and what the host has to know to run it.  It
is all or nothing: with a fault nothing but the faults is given.
-/
import ShaderLift.Translation

namespace ShaderLift

open Glsl (Profile)

/-! ### What the host has to know -/

/-- A constant or an array of constants that the program reads. -/
structure Uniform where
  kind : ConstantKind
  index : Nat
  /-- How many registers an array has; zero for a single register. -/
  arrayCount : Nat
  /-- Whether the code itself defines the array. -/
  constant : Bool
  name : String
  deriving Repr, DecidableEq

structure SamplerBinding where
  kind : Option TextureKind
  index : Nat
  name : String
  /-- Whether the host has to provide the constants of bump mapping, too. -/
  bump : Bool
  deriving Repr, DecidableEq

structure AttributeBinding where
  usage : Usage
  index : Nat
  name : String
  deriving Repr, DecidableEq

/-- The constants and arrays that a program reads: arrays first, then the registers with a place of
their own. -/
def Interface.uniforms (sh : Shader) (i : Interface) : List Uniform :=
  let ofArray (p : PlacedArray) : Uniform :=
    { kind := .float
      index := p.array.index
      arrayCount := p.array.count
      constant := p.array.isLiteral
      name := (Glsl.Ident.constArray p.array.index p.array.count).text sh }
  let ofConstant (c : PlacedConstant) : Option Uniform :=
    match c.place with
    | .own _ => some ⟨c.kind, c.number, 0, false, c.register.name sh⟩
    | _ => none
  i.arrays.map ofArray ++ i.constants.filterMap ofConstant

def Interface.samplerBindings (sh : Shader) (i : Interface) : List SamplerBinding :=
  i.samplers.map fun s => ⟨s.kind, s.stage, (Glsl.sampler s.stage).name sh, s.bumpSlot.isSome⟩

def Interface.attributeBindings (sh : Shader) (i : Interface) (outputs : Bool) :
    List AttributeBinding :=
  (i.attributes.filter fun e => e.1.file.isOutput == outputs).map fun e =>
    ⟨e.2.usage, e.2.index, e.1.name sh⟩

/-! ### The result -/

structure Lifted where
  profile : Profile
  output : String := ""
  instructionCount : Nat := 0
  stage : Option Stage := none
  version : Version := ⟨0, 0⟩
  mainName : String := ""
  uniforms : List Uniform := []
  constants : List Constant := []
  samplers : List SamplerBinding := []
  attributes : List AttributeBinding := []
  outputs : List AttributeBinding := []
  swizzles : List SwizzleOverride := []
  symbols : List Symbol := []
  preshader : Option Preshader := none
  errors : List Diagnostic := []

def Lifted.isOk (l : Lifted) : Bool := l.errors.isEmpty

def Lifted.failed (p : Profile) (o : Options) (faults : List LocatedFault) : Lifted :=
  { profile := p, errors := faults.map (LocatedFault.diagnostic p.name o.filename) }

def LinkedShader.liftedAs (p : Profile) (o : Options) (l : LinkedShader) (output : String) : Lifted :=
  let sh := l.env.toShader
  { profile := p
    output
    instructionCount := l.scan.slots
    stage := some sh.stage
    version := sh.version
    mainName := o.entryPoint
    uniforms := l.interface.uniforms sh
    constants := l.scan.constants
    samplers := l.interface.samplerBindings sh
    attributes := l.interface.attributeBindings sh false
    outputs := l.interface.attributeBindings sh true
    swizzles := o.swizzles
    symbols := l.scan.symbols
    preshader := l.scan.preshader }

def LinkedShader.lifted (p : Profile) (o : Options) (l : LinkedShader) : Lifted :=
  l.liftedAs p o (Glsl.program p o l)

/-- The result of a translation that reads all units of a shader. -/
def Task.lifted (k : Task) (ws : List Word) : Lifted :=
  let t := Translation.ofUnits k ws
  if !t.scan.faults.isEmpty then .failed k.profile k.options t.scan.faults
  else
    let d := Declaring.ofTranslation k t
    if !d.scan.faults.isEmpty then .failed k.profile k.options d.scan.faults
    else
      let l : LinkedShader := { env := k.env, scan := d.scan, interface := d.interface }
      l.liftedAs k.profile k.options d.output.joined

def liftWords (p : Profile) (o : Options) : List Word → Lifted
  | [] => .failed p o [⟨.before, .noVersion⟩]
  | w :: ws =>
    match Task.ofWord? p o w with
    | none => .failed p o [⟨.before, .notAShader⟩]
    | some k => k.lifted ws

def unknownProfile (name : String) : String := "unknown profile `" ++ name ++ "`"

/-- Lifts a shader given as words, with the dialect named `profile`. -/
def lift? (profile : String) (o : Options) (ws : List Word) : Option Lifted :=
  (Profile.ofName? profile).map fun p => liftWords p o ws

end ShaderLift
