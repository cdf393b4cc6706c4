/-
Decoding of preshaders: literals, output map and code are decoded from their blocks, in this order, and
the operands of the code are checked against the literals, the output map and the symbols.
-/
import ShaderLift.Preshader
import ShaderLift.Preshader.Block
import ShaderLift.Symbol.Table

namespace ShaderLift.Preshader

/-! ### Literals -/

/-- The double-precision numbers in a list of words, two words each, lower half first. -/
def doubles : List Word → List UInt64
  | lo :: hi :: rest => UInt64.ofNat (lo.toNat + 4294967296 * hi.toNat) :: doubles rest
  | _ => []

def literalPool : List Word → Attempt (List UInt64)
  | [] => Attempt.stop .preshaderLiterals
  | count :: ws =>
    if ws.length / 2 < count.toNat then Attempt.stop .preshaderLiterals
    else pure (doubles (ws.take (2 * count.toNat)))

/-! ### The output map -/

def pairs : List Word → List (Word × Word)
  | a :: b :: rest => (a, b) :: pairs rest
  | _ => []

/-- The output map: six words, the number of ranges, and two words for each range.  There has to be room for
one range more. -/
def outputMap (ws : List Word) : Attempt (List (Word × Word)) :=
  match ws.drop 6 with
  | [] => Attempt.stop .preshaderOutputs
  | count :: ranges =>
    if ranges.length < 2 * (count.toNat + 1) then Attempt.stop .preshaderOutputs
    else pure ((pairs ranges).take count.toNat)

/-! ### Code -/

/-- What the operands of the code are checked against. -/
structure Setting where
  literalCount : Nat
  symbols : List Symbol
  outputs : Option (List (Word × Word))

namespace Setting

def isInput (st : Setting) (index : Word) : Bool :=
  st.symbols.any fun s =>
    s.registerIndex * 4 ≤ index.toNat
      && index.toNat < s.registerIndex * 4 + s.registerCount * 4

/-- Whether a component may be written; anything may where there is no output map. -/
def isOutput (st : Setting) (index : Word) : Bool :=
  match st.outputs with
  | none => true
  | some ranges => ranges.any fun r => r.1 * 4 ≤ index && index < r.1 * 4 + r.2 * 4

end Setting

/-- The component that an array of an indexed input starts at. -/
def arrayBase (w : Word) : Word :=
  UInt32.ofNat (w.toNat / 16 * 4 + w.toNat / 4 % 4)

/-- The bases of `n` arrays, each in the second of two words, and the words after them. -/
def arrayBases : (n : Nat) → List Word → Option (List Word × List Word)
  | 0, ws => some ([], ws)
  | n + 1, _ :: w :: ws => (arrayBases n ws).map fun r => (arrayBase w :: r.1, r.2)
  | _ + 1, _ => none

def operand (st : Setting) : List Word → Attempt (Operand × List Word)
  | arrays :: kind :: index :: ws => do
    let storage := Storage.ofCode kind
    let plain : Operand × List Word := (⟨storage, index, []⟩, ws)
    match storage with
    | .literal =>
      Attempt.noteIf (st.literalCount < index.toNat) .preshaderLiteralIndex
      return plain
    | .input =>
      if st.isInput index then
        let (bases, ws) ← Attempt.ofOptionOr .preshaderCode (arrayBases arrays.toNat ws)
        return (⟨storage, index, bases⟩, ws)
      else
        Attempt.note .preshaderInputIndex
        return plain
    | .output =>
      Attempt.noteIf (!st.isOutput index) .preshaderOutputIndex
      return plain
    | .temp | .unknown _ => return plain
  | _ => Attempt.stop .preshaderCode

def operands (st : Setting) : (n : Nat) → List Word → Attempt (List Operand × List Word)
  | 0, ws => pure ([], ws)
  | n + 1, ws => do
    let (o, ws) ← operand st ws
    let (os, ws) ← operands st n ws
    return (o :: os, ws)

/-- An instruction and the words after it: operation and number of elements, the number of operands
less one, and the operands. -/
def instruction (st : Setting) : List Word → Attempt (Instruction × List Word)
  | head :: more :: ws => do
    let opcode := Opcode.ofCode? (Word.field head 16 16)
    Attempt.noteIf opcode.isNone .preshaderOpcode
    let count := more.toNat + 1
    if ws.length < count * 3 then Attempt.stop .preshaderCode
    else
      let (os, ws) ← operands st count ws
      return (⟨opcode, Word.field head 0 8, os⟩, ws)
  | _ => Attempt.stop .preshaderCode

/-- So many instructions; words after them are ignored. -/
def instructionList (st : Setting) : (n : Nat) → List Word → Attempt (List Instruction)
  | 0, _ => pure []
  | n + 1, ws => do
    let (i, ws) ← instruction st ws
    let is ← instructionList st n ws
    return i :: is

def code (st : Setting) : List Word → Attempt (List Instruction)
  | [] => Attempt.stop .preshaderCode
  | count :: ws =>
    if ws.length / 2 < count.toNat then Attempt.stop .preshaderCode
    else instructionList st count.toNat ws

/-! ### Preshaders -/

/-- The number of temporary components that instructions use: one more than the highest, as far as
words go. -/
def tempsUsed (is : List Instruction) : Word :=
  let temps := (is.flatMap Instruction.operands).filter fun o => o.storage = .temp
  temps.foldl (fun n o => max n (if o.index = 0xFFFFFFFF then o.index else o.index + 1)) 0

def roundToRegisters (n : Word) : Word := (n + 3) &&& 0xFFFFFFFC

def minVersion : Word := 0x46580200

def maxVersion : Word := 0x46580201

/-- The symbols of a preshader; a table that cannot be read has none. -/
def symbolsOf (payload : List Word) (version : Word) : Attempt (List Symbol) :=
  let t := Symbol.table payload version
  ⟨t.faults, some (t.value.getD [])⟩

def decode (ws : List Word) : Attempt Preshader := do
  let version := ws.headD 0
  if version < minVersion || maxVersion < version then Attempt.stop .preshaderVersion
  else
    let blocks ← collect {} ws.tail
    let table ← Attempt.ofOptionOr .preshaderNoTable blocks.table
    let codeBlock ← Attempt.ofOptionOr .preshaderNoCode blocks.code
    let literalBlock ← Attempt.ofOptionOr .preshaderNoLiterals blocks.literals
    let pool ← literalPool literalBlock
    let outputs ← match blocks.outputs with
      | none => pure none
      | some ws => some <$> outputMap ws
    let symbols ← symbolsOf table version
    let is ← code ⟨pool.length, symbols, outputs⟩ codeBlock
    return ⟨pool, roundToRegisters (tempsUsed is), symbols, is⟩

end ShaderLift.Preshader
