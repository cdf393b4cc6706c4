/-
What a shader has to do with the world around it, made out after all of its code has been read: the
variables it needs, the inputs and outputs with their meaning, and the constants that the host has to
provide.  Constants are packed: the arrays come first, the newest of them first, then the single
registers in order, and after them two places for every sampler that is used for bump mapping.
-/
import ShaderLift.Scan.Stream

namespace ShaderLift

/-! ### Data -/

/-- An array of constants that is read; one that the host provides has a place in the packed
constants. -/
structure PlacedArray where
  array : ConstantArray
  slot : Option Nat
  deriving Repr, DecidableEq

/-- Where the value of a constant register is found. -/
inductive Place where
  /-- In a place of its own in the packed constants. -/
  | own (slot : Nat)
  /-- In a place that belongs to an array. -/
  | shared (slot : Nat)
  /-- In an array that the code defines. -/
  | literal (base count element : Nat)
  deriving Repr, DecidableEq

/-- A constant register that the code reads and does not define. -/
structure PlacedConstant where
  kind : ConstantKind
  number : Nat
  place : Place
  deriving Repr, DecidableEq

def PlacedConstant.register (c : PlacedConstant) : Register := ⟨c.kind.file, c.number⟩

/-- A sampler; one for bump mapping has two places from `bumpSlot` on. -/
structure PlacedSampler where
  stage : Nat
  kind : Option TextureKind
  bumpSlot : Option Nat
  deriving Repr, DecidableEq

/-- How many places the packed constants of each kind have. -/
structure Slots where
  float : Nat := 0
  int : Nat := 0
  bool : Nat := 0
  deriving Repr, DecidableEq

namespace Slots

def count (s : Slots) : ConstantKind → Nat
  | .float => s.float
  | .int => s.int
  | .bool => s.bool

def add (s : Slots) (n : Nat) : ConstantKind → Slots
  | .float => { s with float := s.float + n }
  | .int => { s with int := s.int + n }
  | .bool => { s with bool := s.bool + n }

end Slots

/-- What a shader has to do with the world around it. -/
structure Interface where
  /-- The registers that become global variables. -/
  globals : List Register := []
  arrays : List PlacedArray := []
  constants : List PlacedConstant := []
  samplers : List PlacedSampler := []
  attributes : List (Register × Attribute) := []
  slots : Slots := {}
  /-- Whether more than one colour is put out. -/
  manyColors : Bool := false
  deriving Repr

namespace Interface

/-! ### Registers that nothing accounts for yet -/

/-- The registers used that the code neither declares nor defines. -/
def undeclared (s : Scan) : List Register :=
  s.used.registers.filter fun r => !s.isDefined r

/-- Whether a register may not be used undeclared. -/
def needsDeclaration (sh : Shader) (r : Register) : Bool :=
  r.file.isOutput && sh.isVertex && sh.atLeast 3 0

def outputUsage (r : Register) : Usage :=
  match r.file with
  | .rastOut =>
    if r.number = Register.positionOut then .position
    else if r.number = Register.fogOut then .fog
    else if r.number = Register.pointSizeOut then .pointSize
    else .unknown
  | .attrOut | .colorOut => .color
  | .texCoordOut => .texCoord
  | _ => .depth

/-- The meaning that a register has without a declaration: outputs have one, and in shader model 1
inputs, too. -/
def impliedAttribute? (sh : Shader) (r : Register) : Option Attribute :=
  if r.file.isOutput then some ⟨outputUsage r, r.number, false⟩
  else if r.file = .input && !sh.atLeast 2 0 then
    match sh.stage with
    | .pixel => some ⟨.color, r.number, false⟩
    | .vertex => (Usage.ofVertexInput? r.number).map fun m => ⟨m.1, m.2, false⟩
  else none

def isVariable (r : Register) : Bool :=
  match r.file with
  | .address | .predicate | .temp | .loop | .label => true
  | _ => false

/-- The kind of constants that a register belongs to. -/
def constantKind? (r : Register) : Option ConstantKind :=
  match r.file with
  | .const => some .float
  | .constInt => some .int
  | .constBool => some .bool
  | _ => none

/-- A register that can neither be a variable nor a constant nor have a meaning. -/
def registerFaults (sh : Shader) (r : Register) : List Fault :=
  faultIf (!isVariable r && (constantKind? r).isNone && (impliedAttribute? sh r).isNone) .undefinable

/-- What is wrong with the registers that nothing accounts for.  The list ends at the first output
that has to be declared. -/
def undeclaredFaults (sh : Shader) : List Register → List Fault
  | [] => []
  | r :: rs =>
    if needsDeclaration sh r then [.undeclaredOutput]
    else registerFaults sh r ++ undeclaredFaults sh rs

/-! ### Places of constants -/

def usedArrays (s : Scan) : List ConstantArray :=
  (s.groupConstants.arrays.filter ConstantArray.used).reverse

/-- Places arrays one after another, from a place on. -/
def placeArrays (slot : Nat) : List ConstantArray → List PlacedArray × Nat
  | [] => ([], slot)
  | a :: as =>
    if a.isLiteral then
      let (placed, free) := placeArrays slot as
      (⟨a, none⟩ :: placed, free)
    else
      let (placed, free) := placeArrays (slot + a.count) as
      (⟨a, some slot⟩ :: placed, free)

/-- The place of a constant in the array that has it. -/
def placeIn (p : PlacedArray) (number : Nat) : Place :=
  match p.slot with
  | some slot => .shared (number - p.array.index + slot)
  | none => .literal p.array.index p.array.count (number - p.array.index)

/-- The array that a constant is in: the newest that has it. -/
def arrayOf? (arrays : List PlacedArray) (kind : ConstantKind) (number : Nat) :
    Option PlacedArray :=
  if kind = .float then arrays.find? fun p => p.array.contains number else none

/-- Places single constants: in the array that has them, or else in the next free place. -/
def placeConstants (arrays : List PlacedArray) (slots : Slots) :
    List (ConstantKind × Nat) → List PlacedConstant × Slots
  | [] => ([], slots)
  | (kind, number) :: rest =>
    match arrayOf? arrays kind number with
    | some p =>
      let (placed, free) := placeConstants arrays slots rest
      (⟨kind, number, placeIn p number⟩ :: placed, free)
    | none =>
      let (placed, free) := placeConstants arrays (slots.add 1 kind) rest
      (⟨kind, number, .own (slots.count kind)⟩ :: placed, free)

/-- Places samplers: those for bump mapping take two places. -/
def placeSamplers (slots : Slots) : List (Register × SamplerUse) → List PlacedSampler × Slots
  | [] => ([], slots)
  | (r, u) :: rest =>
    let (placed, free) := placeSamplers (if u.bump then slots.add 2 .float else slots) rest
    (⟨r.number, u.kind, if u.bump then some slots.float else none⟩ :: placed, free)

/-! ### Meanings -/

/-- Meanings, and that of one more register if it has one without a declaration. -/
def imply (sh : Shader) (t : RegisterTable Attribute) (r : Register) : RegisterTable Attribute :=
  match impliedAttribute? sh r with
  | some a => t.update r {} fun _ => a
  | none => t

/-- The inputs and outputs: those declared, and those with a meaning of their own. -/
def attributesOf (sh : Shader) (s : Scan) : RegisterTable Attribute :=
  (undeclared s).foldl (imply sh) s.attributes

def isVertexAttribute (sh : Shader) (r : Register) : Bool :=
  match r.file with
  | .input | .texCoordOut => true
  | .rastOut | .attrOut => !sh.atLeast 3 0
  | _ => false

def isPixelAttribute (r : Register) : Bool :=
  match r.file with
  | .colorOut | .depthOut | .address | .input => true
  | .misc => r.number = Register.miscFace || r.number = Register.miscPosition
  | _ => false

def attributeFaults (sh : Shader) (e : Register × Attribute) : List Fault :=
  match sh.stage with
  | .vertex => faultIf (!isVertexAttribute sh e.1) .vertexAttribute
  | .pixel =>
    if e.2.centroid then [.centroidUnsupported]
    else faultIf (!isPixelAttribute e.1) .pixelAttribute

def samplerFaults (e : Register × SamplerUse) : List Fault :=
  faultIf e.2.kind.isNone .samplerUndefinable

/-! ### The interface -/

def ofScan (sh : Shader) (s : Scan) : Interface :=
  let names := undeclared s
  let constants := names.filterMap fun r => (constantKind? r).map fun kind => (kind, r.number)
  let (arrays, free) := placeArrays 0 (usedArrays s)
  let (constants, slots) := placeConstants arrays { float := free } constants
  let (samplers, slots) := placeSamplers slots s.samplers.entries
  { globals := names.filter isVariable
    arrays
    constants
    samplers
    attributes := (attributesOf sh s).entries
    slots
    manyColors := s.used.registers.any fun r => r.file = .colorOut && 0 < r.number }

/-- What is wrong with the interface.  An undeclared output hides all that follows, and inputs read as an
array show only if nothing else is wrong. -/
def faults (sh : Shader) (s : Scan) : List Fault :=
  let names := undeclared s
  let first := undeclaredFaults sh names
  let found :=
    if names.any (needsDeclaration sh) then first
    else
      first ++ s.samplers.entries.flatMap samplerFaults
        ++ (attributesOf sh s).entries.flatMap (attributeFaults sh)
  if found.isEmpty then faultIf s.relativeInput .relativeInputUnsupported else found

end Interface

structure LinkedShader extends ScannedShader where
  interface : Interface

/-- Makes the interface of a shader out, or says all that is wrong with it. -/
def ScannedShader.link (sc : ScannedShader) : Except (List LocatedFault) LinkedShader :=
  let sh := sc.env.toShader
  let found := Interface.faults sh sc.scan
  if found.isEmpty then .ok { sc with interface := Interface.ofScan sh sc.scan }
  else .error (found.map fun f => ⟨.after, f⟩)

def linkShader (o : Options) (ws : List Word) : Except (List LocatedFault) LinkedShader := do
  let scanned ← scanShader o ws
  scanned.link

end ShaderLift
