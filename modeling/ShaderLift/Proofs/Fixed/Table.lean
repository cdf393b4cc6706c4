/-
Symbol tables, decoded with numbers of 32 bits.  Offsets into a block are read from the block itself, so
they can be anything.  What keeps sums of them in range is that the room behind an offset is looked at
before anything is added to it, and that this is done by a difference: first the offset is compared with
the size, then what is left is compared with what is needed.
-/
import ShaderLift.Proofs.Fixed.Arithmetic
import ShaderLift.Proofs.SymbolTable

namespace ShaderLift.Fixed

open ShaderLift.Symbol

variable {b : Symbol.Block} {payload : List Word}

/-! ### Type descriptions -/

def description (b : Symbol.Block) (pos : Nat) : Decoder Description := do
  Attempt.require (pos < b.size)
  let room ← sub b.size pos
  Attempt.require (16 ≤ room)
  let classCode ← Attempt.ofOption (b.half? pos)
  let typeCode ← Attempt.ofOption (b.half? (← add 32 pos 2))
  let rows ← Attempt.ofOption (b.half? (← add 32 pos 4))
  let columns ← Attempt.ofOption (b.half? (← add 32 pos 6))
  let elements ← Attempt.ofOption (b.half? (← add 32 pos 8))
  let memberCount ← Attempt.ofOption (b.half? (← add 32 pos 10))
  let memberOffset ← Attempt.ofOption (b.word? (← add 32 pos 12))
  let a ← arrangement classCode
  let t ← baseType typeCode
  -- this sum is made of words of 64 bits
  let last ← add 64 (← add 64 pos 16) (← mul 64 memberCount 8)
  Attempt.require (last < b.size)
  return ⟨a, t, rows, columns, elements, memberCount, memberOffset⟩

/-- The `i`-th member, with its type read by `read`.  An entry whose offset has more than 32 bits is outside
of the block. -/
def member (b : Symbol.Block) (read : Nat → Decoder TypeInfo) (entries i : Nat) :
    Decoder (String × TypeInfo) := do
  let offset := entries + (← mul 32 i 8)
  let nameOffset ← Attempt.ofOption (b.word? offset)
  let infoOffset ← Attempt.ofOption (b.word? (offset + 4))
  let info ← read infoOffset
  return ((b.text? nameOffset).getD "", info)

def typeInfo (b : Symbol.Block) : (levels depth pos : Nat) → Decoder TypeInfo
  | 0, _, pos => do
    let d ← description b pos
    if d.memberCount = 0 then return d.typeInfo [] else Attempt.stop .endlessType
  | levels + 1, depth, pos => do
    let d ← description b pos
    let members ← (List.range d.memberCount).mapM fun i =>
      member b (fun info => do typeInfo b levels (← add 32 depth 1) info) d.memberOffset i
    return d.typeInfo members

theorem half_lt (b : Symbol.Block) (n : Nat) : b.half n < 65536 := by
  have hlow : b.byte n < 256 := UInt8.toNat_lt _
  have hhigh : b.byte (n + 1) < 256 := UInt8.toNat_lt _
  unfold Symbol.Block.half
  omega

theorem description_eq (small : b.size < 2 ^ 32) (pos : Nat) :
    description b pos = liftM (Symbol.description b pos) := by
  unfold description Symbol.description
  simp only [liftM_bind, liftM_pure]
  by_cases hroom : pos + 16 ≤ b.size
  · -- the description lies in the block, and so do all of its fields
    have hcount := half_lt b (pos + 10)
    have hmember : b.half? (pos + 10) = some (b.half (pos + 10)) := by
      rw [Symbol.Block.half?_eq, if_pos (by omega)]
    simp (disch := omega) only [sub_of_le, add_of_lt, mul_of_lt, decide_eq_true hroom,
      decide_eq_true (show pos < b.size by omega), decide_eq_true (show 16 ≤ b.size - pos by omega),
      hmember, Decoder.lift_some, Decoder.lift_require_true, Decoder.lift_ofOption_some, pure_bind]
  · rw [decide_eq_false hroom]
    by_cases hpos : pos < b.size
    · simp [hpos, sub_of_le (Nat.le_of_lt hpos), show ¬ 16 ≤ b.size - pos by omega]
    · rw [decide_eq_false hpos]
      simp

theorem memberCount_lt {pos : Nat} {d : Description} (h : (Symbol.description b pos).value = some d) :
    d.memberCount < 65536 := by
  have hexact := Symbol.exact_description b pos
  by_cases hok : pos + 16 + Symbol.memberCount b pos * 8 < b.size
  · rw [hexact.accepts hok] at h
    obtain rfl := Option.some.inj h
    exact half_lt b (pos + 10)
  · rw [hexact.rejects hok] at h
    cases h

theorem member_eq (b : Symbol.Block) {read : Nat → Decoder TypeInfo} {read' : Nat → Attempt TypeInfo}
    (hread : ∀ info, read info = liftM (read' info)) {i : Nat} (small : i < 65536) (entries : Nat) :
    member b read entries i = liftM (Symbol.member b read' (entries + i * 8)) := by
  unfold member Symbol.member
  simp (disch := omega) only [mul_of_lt, Decoder.some_bind, hread, liftM_bind, liftM_pure]

theorem typeInfo_eq (small : b.size < 2 ^ 32) {levels depth : Nat} (sum : depth + levels < 2 ^ 32)
    (pos : Nat) : typeInfo b levels depth pos = liftM (Symbol.typeInfo b levels pos) := by
  induction levels generalizing depth pos with
  | zero =>
    rw [typeInfo, Symbol.typeInfo, description_eq small, liftM_bind]
    congr 1
    funext d
    split <;> simp
  | succ levels ih =>
    rw [typeInfo, Symbol.typeInfo, description_eq small, liftM_bind]
    apply Decoder.lift_bind_congr
    intro d hd
    rw [liftM_bind]
    congr 1
    apply Decoder.mapM_lift
    intro i hi
    apply member_eq
    · intro info
      rw [add_of_lt (by omega), Decoder.some_bind]
      exact ih (by omega) info
    · have := List.mem_range.mp hi
      have := memberCount_lt hd
      omega

/-! ### Tables -/

def record (b : Symbol.Block) (base : Nat) : Decoder Symbol := do
  let nameOffset ← Attempt.ofOption (b.word? base)
  let setCode ← Attempt.ofOption (b.half? (← add 32 base 4))
  let index ← Attempt.ofOption (b.half? (← add 32 base 6))
  let count ← Attempt.ofOption (b.half? (← add 32 base 8))
  let typeOffset ← Attempt.ofOption (b.word? (← add 32 base 12))
  let defaultOffset ← Attempt.ofOption (b.word? (← add 32 base 16))
  let name ← Attempt.ofOption (b.text? nameOffset)
  Attempt.require (defaultOffset < b.size)
  let set ← Attempt.ofOption (RegisterSet.ofCode? setCode)
  let type ← typeInfo b (maxDepth + 1) 0 typeOffset
  return ⟨name, set, index, count, type⟩

def symbols (b : Symbol.Block) (version : Word) : Decoder (List Symbol) := do
  let size ← Attempt.ofOption (b.word? 0)
  let creator ← Attempt.ofOption (b.word? 4)
  let madeFor ← Attempt.ofOption (b.word? 8)
  let count ← Attempt.ofOption (b.word? 12)
  let records ← Attempt.ofOption (b.word? 16)
  let target ← Attempt.ofOption (b.word? 24)
  Attempt.require (size = headerSize && count ≤ maxSymbols && madeFor = version.toNat
    && creator < b.size && records < b.size)
  let room ← sub b.size records
  let needed ← mul 32 count recordSize
  Attempt.require (needed ≤ room && target < b.size)
  (List.range count).mapM fun i => do
    record b (← add 32 records (← mul 32 i recordSize))

def table (payload : List Word) (version : Word) : Option (Attempt (List Symbol)) := do
  let b := Symbol.Block.ofWords payload
  let size ← narrow 32 b.size
  if size < headerSize then return Attempt.stop .truncatedTable
  else
    match ← (symbols b version).outcome with
    | ⟨faults, some ss⟩ => return ⟨faults, some ss⟩
    | ⟨faults, none⟩ => return ⟨faults ++ [.corruptTable], none⟩

theorem record_eq (small : b.size < 2 ^ 32) {base : Nat} (room : base + 20 ≤ b.size) :
    record b base = liftM (Symbol.record b base) := by
  unfold record Symbol.record
  have hdepth : 0 + (maxDepth + 1) < 2 ^ 32 := by decide
  simp (disch := omega) only [add_of_lt, typeInfo_eq small hdepth, Decoder.some_bind,
    liftM_bind, liftM_pure]

/-- The records are as many as there is room for, so that each of them lies in the block. -/
theorem records_eq (small : b.size < 2 ^ 32) {records count : Nat}
    (room : records + count * recordSize ≤ b.size) :
    (List.range count).mapM
        (fun i => do record b (← add 32 records (← mul 32 i recordSize)) : Nat → Decoder Symbol) =
      liftM ((List.range count).mapM fun i => Symbol.record b (records + i * recordSize)) := by
  apply Decoder.mapM_lift
  intro i hi
  have hlt := List.mem_range.mp hi
  unfold recordSize at room ⊢
  rw [mul_of_lt (by omega), Decoder.some_bind, add_of_lt (by omega), Decoder.some_bind]
  exact record_eq small (by omega)

theorem symbols_eq (small : b.size < 2 ^ 32) (version : Word) :
    symbols b version = liftM (Symbol.symbols b version) := by
  unfold symbols Symbol.symbols
  simp only [liftM_bind]
  refine bind_congr fun size => bind_congr fun creator => bind_congr fun madeFor =>
    bind_congr fun count => bind_congr fun records => bind_congr fun target => ?_
  cases hfields : (decide (size = headerSize) && decide (count ≤ maxSymbols) &&
    decide (madeFor = version.toNat) && decide (creator < b.size) && decide (records < b.size)) with
  | false => simp
  | true =>
    -- the number of records is bounded before it is multiplied, and their place before it is
    -- subtracted
    simp only [Bool.and_eq_true, decide_eq_true_eq] at hfields
    have hcount : count ≤ 1000000 := hfields.1.1.1.2
    have hplace : records < b.size := hfields.2
    have hsize : count * recordSize < 2 ^ 32 := by
      unfold recordSize
      omega
    simp only [sub_of_le (Nat.le_of_lt hplace), mul_of_lt hsize, Decoder.some_bind,
      Decoder.lift_require_true, pure_bind, Bool.true_and]
    by_cases hroom : records + count * recordSize ≤ b.size
    · have hleft : count * recordSize ≤ b.size - records := by omega
      simp only [hroom, hleft, decide_true, Bool.true_and, records_eq small hroom]
    · have hleft : ¬ count * recordSize ≤ b.size - records := by omega
      simp [hroom, hleft]

theorem size_ofWords (ws : List Word) : (Symbol.Block.ofWords ws).size = 4 * ws.length := by
  unfold Symbol.Block.ofWords
  rw [List.size_toArray]
  induction ws with
  | nil => rfl
  | cons w ws ih =>
    rw [List.flatMap_cons, List.length_append, ih, List.length_cons]
    show 4 + _ = _
    omega

theorem table_eq (small : payload.length < 2 ^ 30) (version : Word) :
    table payload version = some (Symbol.table payload version) := by
  have hsize : (Symbol.Block.ofWords payload).size < 2 ^ 32 := by
    rw [size_ofWords]
    omega
  unfold table Symbol.table
  simp only [narrow_of_lt hsize, symbols_eq hsize, Decoder.outcome_lift, some_bind]
  split
  · rfl
  · rcases Symbol.symbols (Symbol.Block.ofWords payload) version with ⟨faults, _ | ss⟩ <;> rfl

/-! ### What a table can declare -/

theorem bounds_of_table {version : Word} {symbols : List Symbol}
    (h : (Symbol.table payload version).value = some symbols) :
    symbols.length * 20 ≤ 4 * payload.length ∧
      ∀ s ∈ symbols, s.registerIndex < 65536 ∧ s.registerCount < 65536 := by
  by_cases htable : IsTable (Symbol.Block.ofWords payload) version
  · rw [table_of_isTable htable] at h
    obtain rfl := Option.some.inj h
    constructor
    · have hroom := htable.room
      rw [size_ofWords, recordBase] at hroom
      rw [tableSymbols, List.length_map, List.length_range]
      omega
    · intro s hs
      obtain ⟨i, -, rfl⟩ := List.mem_map.mp hs
      exact ⟨half_lt _ _, half_lt _ _⟩
  · obtain ⟨faults, -, hnone⟩ := table_of_not_isTable htable
    rw [hnone] at h
    cases h

end ShaderLift.Fixed
