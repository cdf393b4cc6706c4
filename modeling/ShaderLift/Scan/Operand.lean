/-
Reading operands.  Every reader takes the words from its operand on, gives back the words after it, and
moves the position past each word before it judges that word.  A register comes to be known as used
only while the unit has no fault.
-/
import ShaderLift.Scan.State

namespace ShaderLift

namespace Scan

/-! ### Destinations -/

/-- Whether a result may be scaled by the power of two with this code. -/
def isShift (code : Nat) : Bool :=
  (1 ≤ code && code ≤ 3) || (13 ≤ code && code ≤ 15)

/-- The operand that a destination word stands for. -/
def destOfWord (env : Env) (s : Scan) (d : DestWord) : Dest :=
  let stated : Register := ⟨(RegisterFile.ofCode? d.fileCode).getD .temp, d.number⟩
  { register := stated.normalize
    relative := d.relative
    mask := if s.isScalar env.toShader stated then .x else d.mask
    statedMask := d.mask
    modifiers := d.modifiers
    shift := d.shift }

def checkDest (env : Env) (centroidAllowed : Bool) (d : DestWord) (s : Scan) : Scan :=
  let s := s.failIf (d.reservedLow != 0) .destReservedLow
    |>.failIf (!d.marked) .destUnmarked
  if d.relative then
    s.failIf (!env.isVertex) .destRelativeStage
      |>.failIf (!env.atLeast 3 0) .destRelativeModel
      |>.failIf (!s.haveTable) .relativeWithoutTable
      |>.fail .destRelative
  else
    let shifted := d.shift != 0
    s.failIf (shifted && !env.isPixel) .shiftStage
      |>.failIf (shifted && env.atLeast 2 0) .shiftModel
      |>.failIf (shifted && !isShift d.shift) .shiftRange
      |>.failIf (d.modifiers.partialPrecision && !env.isPixel) .partialPrecisionStage
      |>.failIf (d.modifiers.centroid && !env.isPixel) .centroidStage
      |>.failIf (d.modifiers.centroid && env.isPixel && !centroidAllowed) .centroidPlace
      |>.failIf (RegisterFile.ofCode? d.fileCode).isNone .fileRange

def readDest (env : Env) (centroidAllowed : Bool) (s : Scan) :
    List Word → Dest × List Word × Scan
  | [] => ({}, [], s.fail .destMissing)
  | w :: ws =>
    let d := DestWord.ofWord w
    let dest := destOfWord env s d
    let s := checkDest env centroidAllowed d s.advance
    (dest, ws, if s.failing then s else s.markUsed dest.register true)

/-! ### Sources -/

/-- The override for reads of a register: an input is looked up by its meaning, which before shader
model 2 follows from its number. -/
def override? (env : Env) (s : Scan) (r : Register) : Option SwizzleOverride := do
  if r.file = .input then
    let (usage, index) ←
      if env.atLeast 2 0 then (s.attributes.find? r).map fun a => (a.usage, a.index)
      else Usage.ofVertexInput? r.number
    if usage = .unknown then none
    else env.swizzles.find? fun o => o.usage = usage && o.index = index
  else none

/-- The swizzle of a read of `r`, with the override for it applied. -/
def adjustSwizzle (env : Env) (s : Scan) (r : Register) (swizzle : Swizzle) : Swizzle :=
  match override? env s r with
  | some o => swizzle.map o.lane
  | none => swizzle

def checkRelative (r : RelativeWord) (s : Scan) : Scan :=
  let file := RegisterFile.ofCode? r.fileCode
  s.failIf (!r.marked) .relativeUnmarked
    |>.failIf r.reserved .relativeReserved
    |>.failIf (file != some .loop && file != some .address) .relativeRegister
    |>.failIf (r.number != 0) .relativeRegister
    |>.failIf (file != some .loop && !r.swizzle.isReplicate) .relativeSwizzle

/-- Reads the index of a relative source: the address register in shader model 1, given by a word of
its own later. -/
def readIndex (env : Env) (s : Scan) : List Word → RelativeIndex × List Word × Scan
  | [] => (⟨⟨.address, 0⟩, .x, none⟩, [], s)
  | w :: ws =>
    if env.atLeast 2 0 then
      let r := RelativeWord.ofWord w
      let file := (RegisterFile.ofCode? r.fileCode).getD .address
      (⟨⟨file, r.number⟩, r.swizzle.x, none⟩, ws, checkRelative r s.advance)
    else (⟨⟨.address, 0⟩, .x, none⟩, w :: ws, s)

def resolveRelative (env : Env) (r : Register) (index : RelativeIndex) (s : Scan) :
    RelativeIndex × Scan :=
  match r.file with
  | .input =>
    let s := s.failIf (env.isPixel || !env.atLeast 3 0) .relativeInput
    (index, { s with relativeInput := true })
  | .const =>
    if s.haveTable then
      let s := s.groupConstants
      match s.floatArray? r.number with
      | some place =>
        ({ index with array := some place }, (s.markArrayUsed place).markUsed index.register false)
      | none => (index, s.fail .relativeNoArray)
    else (index, s.fail .relativeWithoutTable)
  | _ => (index, s)

def readRelative (env : Env) (r : Register) (s : Scan) (ws : List Word) :
    RelativeIndex × List Word × Scan :=
  let s := s.failIf (env.isPixel && !env.atLeast 3 0) .relativePixel
  let (index, ws, s) := readIndex env s ws
  let (index, s) := resolveRelative env r index s
  (index, ws, s)

def checkModifier (env : Env) (r : Register) (m : Option SourceModifier) (s : Scan) : Scan :=
  match m with
  | none => s.fail .unknownModifier
  | some .not =>
    s.failIf (env.atLeast 2 0 && r.file != .predicate && r.file != .constBool) .notModifier
  | some m => s.failIf (m.isModelOneOnly && env.atLeast 2 0) .modifierModel

/-- Records a read of `r`: a temporary has to be written before. -/
def markRead (s : Scan) (r : Register) : Scan :=
  if s.failing then s
  else
    let s := s.markUsed r false
    s.failIf (r.file = .temp && !s.wasWritten r) (.uninitializedTemp r.number)

def readSource (env : Env) (s : Scan) : List Word → Source × List Word × Scan
  | [] => ({}, [], s.fail .sourceMissing)
  | w :: ws =>
    let d := SourceWord.ofWord w
    let file := RegisterFile.ofCode? d.fileCode
    let r := Register.normalize ⟨file.getD .temp, d.number⟩
    let modifier := SourceModifier.ofCode? d.modifierCode
    let plain : Source :=
      { register := r
        swizzle := adjustSwizzle env s r d.swizzle
        modifier := modifier.getD .plain }
    let s := s.advance.failIf (d.reservedLow != 0) .sourceReservedLow
      |>.failIf (!d.marked) .sourceUnmarked
      |>.failIf file.isNone .fileRange
      |>.failIf (d.relative && ws.isEmpty) .relativeMissing
    if d.relative && !ws.isEmpty then
      let (index, ws, s) := readRelative env r s ws
      ({ plain with relative := some index }, ws, (checkModifier env r modifier s).markRead r)
    else (plain, ws, (checkModifier env r modifier s).markRead r)

def readSources (env : Env) (s : Scan) : (n : Nat) → List Word → List Source × List Word × Scan
  | 0, ws => ([], ws, s)
  | n + 1, ws =>
    let (a, ws, s) := readSource env s ws
    let (as, ws, s) := readSources env s n ws
    (a :: as, ws, s)

def readPredicate (env : Env) (s : Scan) (ws : List Word) : Scan :=
  let (p, _, s) := readSource env s ws
  if ws.isEmpty then s
  else
    s.failIf (p.register.file != .predicate) .predicateRegister
      |>.failIf (p.modifier != .plain && p.modifier != .not) .predicateModifier
      |>.failIf (!p.swizzle.isIdentity && !p.swizzle.isReplicate) .predicateSwizzle
      |>.failIf p.relative.isSome .predicateRelative

end Scan

end ShaderLift
