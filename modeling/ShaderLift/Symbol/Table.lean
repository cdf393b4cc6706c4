/-
The symbol table that a compiler leaves in a comment of the code.  It is a block of bytes: a header of 28
bytes, a record of 20 bytes for every symbol, and descriptions of types of 16 bytes each, all of which
refer to each other and to names by byte offsets.  No offset is followed before it is known to lie in the
block, and since descriptions may refer to each other in circles, structures may be nested only so deep.
-/
import ShaderLift.Attempt
import ShaderLift.Symbol
import ShaderLift.Text.Utf8

namespace ShaderLift.Symbol

/-! ### Reading bytes -/

abbrev Block := Array UInt8

namespace Block

def ofWords (ws : List Word) : Block := (ws.flatMap Word.bytes).toArray

def half? (b : Block) (offset : Nat) : Option Nat := do
  let lo ← b[offset]?
  let hi ← b[offset + 1]?
  return lo.toNat + 256 * hi.toNat

def word? (b : Block) (offset : Nat) : Option Nat := do
  let lo ← half? b offset
  let hi ← half? b (offset + 2)
  return lo + 65536 * hi

/-- The text at an offset, up to the next zero byte or the end of the block. -/
def text? (b : Block) (offset : Nat) : Option String :=
  if offset < b.size then
    some (Utf8.decode ((b.toList.drop offset).takeWhile (· != 0)))
  else none

end Block

/-! ### Type descriptions -/

/-- The deepest level at which a structure may still have members. -/
def maxDepth : Nat := 300

/-- The number that describes a type's arrangement; an unknown one counts as a scalar. -/
def arrangement (code : Nat) : Attempt Arrangement :=
  match Arrangement.ofCode? code with
  | some a => pure a
  | none => do
    Attempt.note (.unknownClass code)
    return .scalar

/-- The number that describes a type's components; an unknown one counts as an integer. -/
def baseType (code : Nat) : Attempt BaseType :=
  match BaseType.ofCode? code with
  | some t => pure t
  | none => do
    Attempt.note (.unknownType code)
    return .int

/-- What the 16 bytes of a description say. -/
structure Description where
  arrangement : Arrangement
  base : BaseType
  rows : Nat
  columns : Nat
  elements : Nat
  memberCount : Nat
  /-- Where the entries of the members start; they take 8 bytes each. -/
  memberOffset : Nat

def Description.typeInfo (d : Description) (members : List (String × TypeInfo)) : TypeInfo :=
  .mk d.arrangement d.base d.rows d.columns d.elements members

/-- The description at offset `pos`.  As many bytes have to follow it as its members' entries take,
wherever these are. -/
def description (b : Block) (pos : Nat) : Attempt Description := do
  Attempt.require (pos + 16 ≤ b.size)
  let classCode ← Attempt.ofOption (b.half? pos)
  let typeCode ← Attempt.ofOption (b.half? (pos + 2))
  let rows ← Attempt.ofOption (b.half? (pos + 4))
  let columns ← Attempt.ofOption (b.half? (pos + 6))
  let elements ← Attempt.ofOption (b.half? (pos + 8))
  let memberCount ← Attempt.ofOption (b.half? (pos + 10))
  let memberOffset ← Attempt.ofOption (b.word? (pos + 12))
  let a ← arrangement classCode
  let t ← baseType typeCode
  Attempt.require (pos + 16 + memberCount * 8 < b.size)
  return ⟨a, t, rows, columns, elements, memberCount, memberOffset⟩

/-- The member whose entry is at `offset`, with its type read by `read`.  A name outside of the block
counts as empty. -/
def member (b : Block) (read : Nat → Attempt TypeInfo) (offset : Nat) : Attempt (String × TypeInfo) := do
  let nameOffset ← Attempt.ofOption (b.word? offset)
  let infoOffset ← Attempt.ofOption (b.word? (offset + 4))
  let info ← read infoOffset
  return ((b.text? nameOffset).getD "", info)

/-- The type described at offset `pos`, whose members may be nested `levels` deep. -/
def typeInfo (b : Block) : (levels pos : Nat) → Attempt TypeInfo
  | 0, pos => do
    let d ← description b pos
    if d.memberCount = 0 then return d.typeInfo [] else Attempt.stop .endlessType
  | levels + 1, pos => do
    let d ← description b pos
    let members ← (List.range d.memberCount).mapM fun i =>
      member b (typeInfo b levels) (d.memberOffset + i * 8)
    return d.typeInfo members

/-! ### The table -/

/-- A range of constant registers that a table declares. -/
structure Range where
  kind : ConstantKind
  index : Nat
  count : Nat
  deriving Repr, DecidableEq

def Range.array (r : Range) : ConstantArray :=
  { kind := r.kind, index := r.index, count := r.count }

/-- The range of registers of a symbol; samplers have none. -/
def range? (s : Symbol) : Option Range :=
  s.registerSet.kind?.map fun kind => ⟨kind, s.registerIndex, s.registerCount⟩

def headerSize : Nat := 28

def recordSize : Nat := 20

def maxSymbols : Nat := 1000000

def record (b : Block) (base : Nat) : Attempt Symbol := do
  let nameOffset ← Attempt.ofOption (b.word? base)
  let setCode ← Attempt.ofOption (b.half? (base + 4))
  let index ← Attempt.ofOption (b.half? (base + 6))
  let count ← Attempt.ofOption (b.half? (base + 8))
  let typeOffset ← Attempt.ofOption (b.word? (base + 12))
  let defaultOffset ← Attempt.ofOption (b.word? (base + 16))
  let name ← Attempt.ofOption (b.text? nameOffset)
  Attempt.require (defaultOffset < b.size)
  let set ← Attempt.ofOption (RegisterSet.ofCode? setCode)
  let type ← typeInfo b (maxDepth + 1) typeOffset
  return ⟨name, set, index, count, type⟩

/-- The symbols of a block that has room for a header and was made for the version `version`. -/
def symbols (b : Block) (version : Word) : Attempt (List Symbol) := do
  let size ← Attempt.ofOption (b.word? 0)
  let creator ← Attempt.ofOption (b.word? 4)
  let madeFor ← Attempt.ofOption (b.word? 8)
  let count ← Attempt.ofOption (b.word? 12)
  let records ← Attempt.ofOption (b.word? 16)
  let target ← Attempt.ofOption (b.word? 24)
  Attempt.require (size = headerSize && count ≤ maxSymbols && madeFor = version.toNat
    && creator < b.size && records < b.size && records + count * recordSize ≤ b.size
    && target < b.size)
  (List.range count).mapM fun i => record b (records + i * recordSize)

/-- Reads the symbol table in the words `payload`.  Either all of it can be read, or a fault says that
none of it could. -/
def table (payload : List Word) (version : Word) : Attempt (List Symbol) :=
  let b := Block.ofWords payload
  if b.size < headerSize then Attempt.stop .truncatedTable
  else
    match symbols b version with
    | ⟨faults, some ss⟩ => ⟨faults, some ss⟩
    | ⟨faults, none⟩ => ⟨faults ++ [.corruptTable], none⟩

end ShaderLift.Symbol
