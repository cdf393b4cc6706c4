/-
Reading a whole shader.  After its version word a shader is a sequence of units: comments, phase marks,
the end mark and instructions.  A unit starts at the word after the one before it, and it takes at least
that word, so reading comes to an end.  Instructions take as many words as they say, or in shader
model 1, where they do not say it, as many as were read.
-/
import ShaderLift.Preshader.Decode
import ShaderLift.Scan.Arguments
import ShaderLift.Scan.Code
import ShaderLift.Scan.Legality

namespace ShaderLift

/-! ### Units -/

namespace Word

/-- The word that divides the two phases of a pixel shader of model 1.4. -/
def phaseMark : Word := 0x0000FFFD

end Word

inductive UnitHead where
  | comment (length : Nat)
  | finish
  | phase
  | instruction (op : Opcode) (fields : InstructionWord)
  | unknown
  deriving Repr, DecidableEq

def UnitHead.ofWord (w : Word) : UnitHead :=
  match Word.commentLength? w with
  | some length => .comment length
  | none =>
    if w = Word.endMark then .finish
    else if w = Word.phaseMark then .phase
    else
      let fields := InstructionWord.ofWord w
      match Opcode.ofCode? fields.opcodeCode with
      | some op => .instruction op fields
      | none => .unknown

namespace Scan

/-! ### Comments -/

def readTable (env : Env) (s : Scan) (payload : List Word) : Scan :=
  if s.haveTable then s.fail .repeatedTable
  else
    let a := Symbol.table payload env.versionWord
    let s := { s.absorb a with haveTable := true }
    match a.value with
    | none => s
    | some symbols =>
      { s with
        symbols
        arrays := s.arrays ++ (symbols.filterMap Symbol.range?).map Symbol.Range.array }

def readPreshader (s : Scan) (payload : List Word) : Scan :=
  if s.preshader.isSome then s.fail .repeatedPreshader
  else
    let a := Preshader.decode payload
    { s.absorb a with preshader := a.value }

/-- Reads the words of a comment: some comments hold a table or a preshader, the others nothing of
interest. -/
def readComment (env : Env) (s : Scan) : List Word → Scan
  | id :: word :: rest =>
    if id = Word.preshaderId then s.readPreshader (word :: rest)
    else if id = Word.symbolTableId then s.readTable env (word :: rest)
    else s
  | _ => s

/-! ### Instructions -/

def emit (s : Scan) (e : Glsl.Emission Unit) : Scan :=
  { s.failAll e.faults with
    code := s.code ++ e.code
    helpers := e.helpers.foldl Glsl.addHelper s.helpers }

/-- Records that the end of the entry point puts the colour out, where it does. -/
def markColor (env : Env) (s : Scan) : Scan :=
  if s.inMain && colorFromTemp env.toShader then s.markUsed ⟨.colorOut, 0⟩ true else s

def close (env : Env) (s : Scan) : Scan :=
  (s.markColor env).emit (closeCode env.toShader s)

/-- Writes the code of an instruction without a fault. -/
def generate (env : Env) (s : Scan) (i : Instruction) : Scan :=
  if s.failing then s
  else if i.opcode = .ret then s.close env
  else s.emit (instructionCode env.toShader s i)

def execute (env : Env) (s : Scan) (i : Instruction) : Scan :=
  let s := ((judge env s i).charge i.opcode.info.slots).generate env i
  { s with
    pads := if i.opcode.closesMatrix then {} else s.pads
    previous := some i.opcode }

/-- What is wrong with an instruction whatever its operands are. -/
def headFaults (env : Env) (op : Opcode) (w : InstructionWord) : List Fault :=
  faultIf (w.coissue && !env.isPixel) .coissueStage
    ++ faultIf (w.coissue && env.atLeast 2 0) .coissueModel
    ++ faultIf (!op.info.stages.contains env.stage) (.wrongStage op)

/-- Reads the operands of an instruction.  The number given back counts the words of the
instruction. -/
def readOperands (env : Env) (op : Opcode) (w : InstructionWord) (s : Scan) (ws : List Word) :
    Instruction × Nat × Scan :=
  let (arguments, count, rest, s) := readArguments env op.info.shape s ws
  let i : Instruction :=
    { arguments with opcode := op, controls := w.controls, predicated := w.predicated }
  if w.predicated then (i, count + 1, readPredicate env s rest) else (i, count, s)

def settleLength (env : Env) (op : Opcode) (w : InstructionWord) (s : Scan) (count : Nat) :
    Scan × Nat :=
  if !env.atLeast 2 0 then (s.failIf (w.length != 0) .lengthNotZero, count)
  else if count = w.length + 1 then (s, count)
  else (s.fail (.wrongLength count (w.length + 1) op), w.length + 1)

def readInstruction (env : Env) (s : Scan) (op : Opcode) (w : InstructionWord) (ws : List Word) :
    Scan × Nat :=
  let s := s.failIf w.highBit .instructionHighBit
  if op.isReserved then (s.fail .unknownOpcode, w.length + 1)
  else
    let start := s.position
    let (i, count, s) := readOperands env op w (s.failAll (headFaults env op w)).advance ws
    settleLength env op w (execute env (s.moveTo start) i) count

/-! ### The stream -/

/-- Reads the unit that starts with `w`, with `ws` after it, and says how many words it takes. -/
def readUnit (env : Env) (s : Scan) (w : Word) (ws : List Word) : Scan × Nat :=
  match UnitHead.ofWord w with
  | .comment length =>
    let s := s.failIf (Word.flag w 31) .commentHighBit
    (if length ≤ ws.length then s.readComment env (ws.take length) else s, length + 1)
  | .finish =>
    let s := { s with ended := true }
    let s := s.failIf (env.knownSize && !ws.isEmpty) .earlyEnd
    (if s.failing || s.previous = some .ret then s else s.close env, 1)
  | .phase =>
    (s.failIf (!(env.isPixel && env.version = ⟨1, 4⟩)) .phaseNotAllowed, 1)
  | .instruction op fields => readInstruction env s op fields ws
  | .unknown => (s.fail (.unknownWord w), 1)

/-- Whether reading stops after a word: the end mark ends a shader of unknown length. -/
def stopsAt (env : Env) (w : Word) : Bool := !env.knownSize && w = Word.endMark

def readUnits (env : Env) (s : Scan) (n : Nat) : List Word → Scan
  | [] => s
  | w :: ws =>
    let (s, length) := readUnit env (s.startUnit (.word n)) w ws
    if ws.length + 1 < length then { s.fail .truncated with truncated := true }
    else if stopsAt env w then s
    else readUnits env s (n + length) (ws.drop (length - 1))
termination_by ws => ws.length
decreasing_by
  simp only [List.length_drop, List.length_cons]
  omega

/-- What only shows after the last unit. -/
def finish (env : Env) (s : Scan) : Scan :=
  let s := s.moveTo .after
  s.failIf (!s.ended && !s.truncated) .noEnd
    |>.failIf (colorFromTemp env.toShader && !s.wasWritten ⟨.temp, 0⟩) .colorNeverWritten

def start (env : Env) : Scan :=
  let s : Scan := { position := .before }
  s.failIf (!env.version.isSupported) (.unsupportedModel env.version)

def ofUnits (env : Env) (ws : List Word) : Scan :=
  finish env (readUnits env (start env) 1 ws)

end Scan

/-! ### Shaders -/

/-- A shader that was read without a fault. -/
structure ScannedShader where
  env : Env
  scan : Scan

/-- What a version word and the wishes of a caller say about the reading of a shader. -/
def Env.ofWord? (o : Options) (w : Word) : Option Env :=
  (Shader.ofWord? w).map fun sh =>
    { toShader := sh
      versionWord := w
      swizzles := o.swizzles
      samplers := o.samplers
      knownSize := o.knownSize }

/-- Reads a shader: all that was found, or all that is wrong with it. -/
def scanShader (o : Options) : List Word → Except (List LocatedFault) ScannedShader
  | [] => .error [⟨.before, .noVersion⟩]
  | w :: ws =>
    match Env.ofWord? o w with
    | none => .error [⟨.before, .notAShader⟩]
    | some env =>
      let s := Scan.ofUnits env ws
      if s.faults.isEmpty then .ok ⟨env, s⟩ else .error s.faults

end ShaderLift
