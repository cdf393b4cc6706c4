/-
Reading what follows an opcode.  Most opcodes are followed by a destination and sources; definitions are
followed by literals and declarations by a usage word.  Definitions and declarations always count as
many words as they should have, even where the code ends before.
-/
import ShaderLift.Instruction
import ShaderLift.Scan.Operand

namespace ShaderLift

namespace Scan

/-! ### Operands -/

def readDestSources (env : Env) (s : Scan) (n : Nat) (ws : List Word) :
    Arguments × List Word × Scan :=
  let (dest, ws, s) := readDest env false s ws
  let (sources, ws, s) := readSources env s n ws
  ({ dest, sources }, ws, s)

/-! ### Definitions -/

/-- Reads the destination of a definition; the words after it are its literals. -/
def readDefinition (env : Env) (kind : ConstantKind) (s : Scan) (ws : List Word) :
    Arguments × List Word × Scan :=
  let (dest, ws, s) := readDest env false s ws
  let s := s.failIf (dest.register.file != kind.file) (.defineWrongFile kind)
    |>.failIf dest.relative (.defineRelative kind)
  let word (n : Nat) : Word := ws.getD n 0
  let literals : Quad Word := match kind with
    | .bool => ⟨if word 0 = 0 then 0 else 0xFFFFFFFF, 0, 0, 0⟩
    | _ => ⟨word 0, word 1, word 2, word 3⟩
  ({ dest, literals }, ws, s)

/-! ### Declarations -/

/-- What a declaration of a register means: what it declares, which bits of its usage word have to be zero,
and what is wrong with it. -/
structure DeclarationRule where
  declared : Declared
  reserved : Word
  faults : List Fault := []

/-- Usage and index are given by fields of the usage word. -/
def declareUsage (w : Word) : Declared :=
  { usage := Usage.ofCode? (Word.field w 0 4), index := Word.field w 16 4 }

/-- The bits of a usage word that hold neither usage nor index. -/
def usageReserved : Word := 0x7FF0FFE0

/-- What is wrong with a usage of a texture register. -/
def textureUsageFaults (stage : Stage) (d : Declared) : List Fault :=
  match d.usage with
  | some .texCoord => if 7 < d.index then [.texCoordIndex] else []
  | some .color => if d.index != 0 then [.colorIndex stage] else []
  | _ => [.textureUsage]

def usageRule (w : Word) : DeclarationRule :=
  { declared := declareUsage w, reserved := usageReserved }

def textureRule (stage : Stage) (w : Word) : DeclarationRule :=
  { declared := declareUsage w
    reserved := usageReserved
    faults := textureUsageFaults stage (declareUsage w) }

def samplerRule (stage : Stage) (reserved : Word) (w : Word) : DeclarationRule :=
  let kind := TextureKind.ofCode? (Word.field w 27 4)
  { declared := { kind }
    reserved
    faults := if kind.isNone then [.samplerKind stage] else [] }

/-- The declaration of a register whose number alone gives its meaning. -/
def fixedRule (usage : Usage) (index : Nat) : DeclarationRule :=
  { declared := { usage := some usage, index }, reserved := 0x7FFFFFFF }

def faceFaults (d : Dest) : List Fault :=
  (if d.statedMask.isXyzw then [] else [.faceMask])
    ++ (if d.modifiers.isEmpty then [] else [.faceModifiers])
    ++ (if d.shift = 0 then [] else [.faceShift])

/-- The rule for declaring `d` with the usage word `w`; with no rule, such a register cannot be
declared in this shader model. -/
def declarationRule (sh : Shader) (w : Word) (d : Dest) : Option DeclarationRule :=
  let number := d.register.number
  match sh.stage with
  | .pixel =>
    if sh.atLeast 3 0 then
      match d.register.file with
      | .input => some (usageRule w)
      | .misc =>
        if number = Register.miscPosition then some (fixedRule .unknown 0)
        else if number = Register.miscFace then
          some { fixedRule .unknown 0 with faults := faceFaults d }
        else none
      | .address => some (textureRule .pixel w)
      | .sampler => some (samplerRule .pixel 0x07FFFFFF w)
      | _ => none
    else if sh.atLeast 2 0 then
      match d.register.file with
      | .input => some (fixedRule .color number)
      | .address => some (fixedRule .texCoord number)
      | .sampler => some (samplerRule .pixel 0x07FFFFFF w)
      | _ => none
    else none
  | .vertex =>
    if sh.atLeast 3 0 then
      match d.register.file with
      | .input | .texCoordOut => some (usageRule w)
      | .address => some (textureRule .vertex w)
      | .sampler => some (samplerRule .vertex 0x0FFFFFFF w)
      | _ => none
    else if sh.atLeast 1 1 then
      match d.register.file with
      | .input => some (usageRule w)
      | _ => none
    else none

/-- What is declared where there is no rule: a miscellaneous input of a pixel shader has no known
usage, anything else counts as a position. -/
def declaredAnyway (sh : Shader) (d : Dest) : Declared :=
  if sh.isPixel && sh.atLeast 3 0 && d.register.file = .misc then { usage := some .unknown } else {}

/-- Reads a declaration: a usage word, then a destination. -/
def readDeclaration (env : Env) (s : Scan) (ws : List Word) : Arguments × List Word × Scan :=
  let w : Word := ws.headD 0
  let s := s.failIf (!Word.flag w 31) .declareUnmarked
  let (dest, ws, s) := readDest env true s.advance ws.tail
  let s := s.failIf (dest.shift != 0) .declareShift
    |>.failIf dest.relative .declareRelative
  match declarationRule env.toShader w dest with
  | some rule =>
    ({ dest, declared := rule.declared }, ws,
      (s.failAll rule.faults).failIf (Word.meets w rule.reserved) .declareReserved)
  | none =>
    ({ dest, declared := declaredAnyway env.toShader dest }, ws, s.fail .declareFile)

/-! ### Arguments -/

/-- Reads what follows an opcode, and counts the words read with that of the opcode; of definitions and
declarations the number is always the same. -/
def readArguments (env : Env) (shape : Shape) (s : Scan) (ws : List Word) :
    Arguments × Nat × List Word × Scan :=
  let counted (r : Arguments × List Word × Scan) : Arguments × Nat × List Word × Scan :=
    (r.1, 1 + (ws.length - r.2.1.length), r.2)
  let fixed (n : Nat) (r : Arguments × List Word × Scan) : Arguments × Nat × List Word × Scan :=
    (r.1, n, r.2)
  match shape with
  | .sources n =>
    let (sources, ws, s) := readSources env s n ws
    counted ({ sources }, ws, s)
  | .dest n => counted (readDestSources env s n ws)
  | .sinCos => counted (readDestSources env s (if env.atLeast 3 0 then 1 else 3) ws)
  | .texCoord => counted (readDestSources env s (if env.atLeast 1 4 then 1 else 0) ws)
  | .texLoad =>
    counted (readDestSources env s
      (if env.atLeast 2 0 then 2 else if env.atLeast 1 4 then 1 else 0) ws)
  | .defineFloat => fixed 6 (readDefinition env .float s ws)
  | .defineInt => fixed 6 (readDefinition env .int s ws)
  | .defineBool => fixed 3 (readDefinition env .bool s ws)
  | .declaration => fixed 3 (readDeclaration env s ws)

end Scan

end ShaderLift
