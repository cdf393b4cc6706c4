/-
Units on a machine of fixed width: instructions with their counters and the rows of their matrices,
comments with what they hold, and the stream of all units.  The numbers in the state are bounded by the
number of words before a unit (`Scan.Tally.Within`, `Scan.Bounded`), so a shader that has fewer than
2 ^ 28 words is read to its end with every counter in range.
-/
import ShaderLift.Proofs.Fixed.Operand
import ShaderLift.Proofs.Predicated

namespace ShaderLift

open Glsl (Expr)

namespace Scan

variable {env : Env} {s : Scan} {i : Instruction}

theorem arrays_account (env : Env) (s : Scan) (i : Instruction) :
    (account env s i).arrays = s.arrays := by
  have hdoes := Consequence.of_account env s i
  generalize account env s i = t at hdoes ⊢
  cases hdoes <;> rfl

end Scan

namespace Fixed

variable {env : Env} {s : Scan} {i : Instruction} {ws : List Word} {n : Nat}

/-! ### Consequences of instructions -/

def charge (s : Scan) (n : Nat) : Option Scan := do
  return { s with slots := ← add 32 s.slots n }

def chargeLookup (s : Scan) (stage : Nat) : Option Scan :=
  if s.textureKind stage = some .cube then charge s 3 else some s

def closeOne (n : Nat) : Option Nat := if n = 0 then some 0 else sub n 1

/-- A row of the matrix whose first row the second source names.  It gets a place among the sources. -/
def matrixRow (i : Instruction) (n : Nat) : Option Source := do
  let _ ← place 5 (← add 64 1 n)
  let first := i.source 1
  return { first with register := { first.register with number := ← add 32 first.register.number n } }

def matrixRows (i : Instruction) (rows : Nat) : Option (List Source) :=
  (List.range rows).mapM (matrixRow i)

def useRows (s : Scan) (i : Instruction) (form : MatrixForm) : Option Scan := do
  let rows ← matrixRows i form.rows
  return (rows.drop 1).foldl (fun s row => s.markUsed row.register false) s

/-- What an instruction does to the state.  Only counters and matrices need arithmetic. -/
def account (env : Env) (s : Scan) (i : Instruction) : Option Scan :=
  let file (n : Nat) := (i.source n).register.file
  match i.opcode with
  | .m4x4 => useRows s i .m4x4
  | .m4x3 => useRows s i .m4x3
  | .m3x4 => useRows s i .m3x4
  | .m3x3 => useRows s i .m3x3
  | .m3x2 => useRows s i .m3x2
  | .loop =>
    if file 0 = .loop && file 1 = .constInt then do return { s with loops := ← add 32 s.loops 1 }
    else some s
  | .endLoop => do return { s with loops := ← closeOne s.loops }
  | .rep => do return { s with reps := ← add 32 s.reps 1 }
  | .endRep => do return { s with reps := ← closeOne s.reps }
  | .ifBool | .ifCompare => do return { s with ifs := ← add 32 s.ifs 1 }
  | .endIf => do return { s with ifs := ← closeOne s.ifs }
  | .cmp => do
    let s := { s with compares := ← add 32 s.compares 1 }
    if env.atLeast 1 4 then return s else charge s 1
  | .dp4 => if env.atLeast 1 4 then some s else charge s 1
  | .texLd =>
    if env.atLeast 2 0 then chargeLookup s (i.source 1).register.number
    else if env.atLeast 1 4 then some s
    else some (s.addSampler env i.dest.register.number (some .plane) false)
  | .texLdl =>
    if env.atLeast 3 0 && file 1 = .sampler then chargeLookup s (i.source 1).register.number
    else some s
  | _ => some (Scan.account env s i)

theorem charge_eq (h : s.slots + n < 2 ^ 32) : charge s n = some (s.charge n) := by
  rw [charge, add_of_lt h]
  rfl

theorem chargeLookup_eq (h : s.slots + 3 < 2 ^ 32) (stage : Nat) :
    chargeLookup s stage = some (s.chargeLookup stage) := by
  unfold chargeLookup Scan.chargeLookup
  split
  · exact charge_eq h
  · rfl

theorem closeOne_eq (n : Nat) : closeOne n = some (n - 1) := by
  unfold closeOne
  split
  next h => rw [h]
  next h => exact sub_of_le (Nat.one_le_iff_ne_zero.mpr h)

theorem matrixRows_eq (h : i.toArguments.Named) {rows : Nat} (hrows : rows ≤ 4) :
    matrixRows i rows = some (i.matrixRows rows) := by
  apply mapM_eq
  intro n hn
  have hlt : n < rows := List.mem_range.mp hn
  have hnumber := Instruction.number_source_lt h 1
  have hplace : 1 + n < 2 ^ 64 := by omega
  have hsum : (i.source 1).register.number + n < 2 ^ 32 := by omega
  have hfree : 1 + n < 5 := by omega
  simp only [matrixRow, add_of_lt hplace, add_of_lt hsum, place_of_lt hfree, some_bind]
  rfl

theorem rows_le (form : MatrixForm) : form.rows ≤ 4 := by cases form <;> decide

theorem useRows_eq (h : i.toArguments.Named) (s : Scan) (form : MatrixForm) :
    useRows s i form = some (s.useRows i form) := by
  rw [useRows, matrixRows_eq h (rows_le form)]
  rfl

theorem account_eq (h : s.tally.Within n) (hn : n < 2 ^ 28) (hnamed : i.toArguments.Named) :
    account env s i = some (Scan.account env s i) := by
  -- so few units bring no counter near its bound
  have hslots : s.slots + 3 < 2 ^ 32 := by
    have hwithin := h.slots
    show s.tally.slots + 3 < 2 ^ 32
    omega
  have hcharge : charge s 1 = some (s.charge 1) := charge_eq (by omega)
  have hloops : s.loops + 1 < 2 ^ 32 := Nat.lt_of_le_of_lt (Nat.succ_le_succ h.loops) (by omega)
  have hreps : s.reps + 1 < 2 ^ 32 := Nat.lt_of_le_of_lt (Nat.succ_le_succ h.reps) (by omega)
  have hifs : s.ifs + 1 < 2 ^ 32 := Nat.lt_of_le_of_lt (Nat.succ_le_succ h.ifs) (by omega)
  have hcompares : s.compares + 1 < 2 ^ 32 :=
    Nat.lt_of_le_of_lt (Nat.succ_le_succ h.compares) (by omega)
  unfold account
  cases hop : i.opcode with
  | m4x4 | m4x3 | m3x4 | m3x3 | m3x2 =>
    simp only [Scan.account, hop]
    exact useRows_eq hnamed s _
  | loop =>
    rw [Scan.account, hop, add_of_lt hloops]
    exact ite_eq_some rfl rfl
  | rep =>
    rw [Scan.account, hop, add_of_lt hreps]
    rfl
  | ifBool | ifCompare =>
    rw [Scan.account, hop, add_of_lt hifs]
    rfl
  | endLoop | endRep | endIf =>
    simp only [Scan.account, hop, closeOne_eq]
    rfl
  | cmp =>
    -- charged once the comparison has been counted
    have hmore : charge { s with compares := s.compares + 1 } 1 =
        some (Scan.charge { s with compares := s.compares + 1 } 1) :=
      charge_eq (show s.slots + 1 < 2 ^ 32 by omega)
    rw [Scan.account, hop, add_of_lt hcompares]
    cases env.atLeast 1 4 with
    | true => rfl
    | false => exact hmore
  | dp4 =>
    rw [Scan.account, hop]
    exact ite_eq_some rfl hcharge
  | texLd =>
    rw [Scan.account, hop]
    exact ite_eq_some (chargeLookup_eq hslots _) (ite_eq_some rfl rfl)
  | texLdl =>
    rw [Scan.account, hop]
    exact ite_eq_some (chargeLookup_eq hslots _) rfl
  | _ => rfl

/-! ### The code of instructions -/

/-- What a source reads.  A register of an array is counted from the first one. -/
def variableOf (sh : Shader) (s : Scan) (a : Source) : Option (Except Fault Expr) :=
  if (a.register.spelling? sh).isNone then some (.error .sourceUnnamed)
  else
    match a.relative with
    | none => some (.ok (.register a.register))
    | some index =>
      match a.register.file with
      | .input => some (.ok (.element .inputArray (Scan.indexExpr index)))
      | .const =>
        match index.array with
        | none => some (.error .relativeOutsideArrays)
        | some place => do
          let array ← item s.arrays place
          let delta ← sub a.register.number array.index
          return .ok (Scan.arrayElement array delta (Scan.indexExpr index))
      | _ => some (.error .relativeFile)

def readsOf (i : Instruction) : Option (List Source) :=
  match i.opcode.matrixForm? with
  | some form => do return i.sources ++ (← matrixRows i form.rows)
  | none => some i.sources

def generate (env : Env) (s : Scan) (i : Instruction) : Option Scan :=
  if s.failing then some s
  else if i.opcode = .ret then some (s.close env)
  else do
    let _ ← (← readsOf i).mapM (variableOf env.toShader s)
    return s.emit (Scan.instructionCode env.toShader s i)

def execute (env : Env) (s : Scan) (i : Instruction) : Option Scan := do
  let judged ← account env (s.failAll (Scan.violations env s i)) i
  let s ← generate env (← charge judged i.opcode.info.slots) i
  return { s with
    pads := if i.opcode.closesMatrix then {} else s.pads
    previous := some i.opcode }

theorem variableOf_eq {sh : Shader} {a : Source} (h : a.Placed s.arrays) :
    variableOf sh s a = some (Scan.variableOf sh s a) := by
  unfold variableOf Scan.variableOf
  split
  · rfl
  · cases hrelative : a.relative with
    | none => rfl
    | some index =>
      cases a.register.file with
      | const =>
        cases harray : index.array with
        | none => simp [harray]
        | some place =>
          have hplace : a.arrayPlace? = some place := by
            rw [Source.arrayPlace?, hrelative]
            exact harray
          obtain ⟨array, hfound, hle⟩ := h place hplace
          simp [harray, item, hfound, sub_of_le hle]
      | _ => rfl

theorem readsOf_eq (hnamed : i.toArguments.Named) : readsOf i = some i.reads := by
  unfold readsOf Instruction.reads
  cases i.opcode.matrixForm? with
  | none =>
    rw [Option.elim_none, List.append_nil]
  | some form =>
    simp only [matrixRows_eq hnamed (rows_le form)]
    rfl

theorem generate_eq (hnamed : i.toArguments.Named) (h : ∀ a ∈ i.sources, a.Placed s.arrays) :
    generate env s i = some (s.generate env i) := by
  have hvariables : i.reads.mapM (variableOf env.toShader s) = some _ :=
    mapM_eq fun a ha => variableOf_eq (Scan.placed_reads h a ha)
  simp only [generate, readsOf_eq hnamed, hvariables, some_bind]
  unfold Scan.generate
  split
  · rfl
  · split <;> rfl

theorem execute_eq (hcounts : s.tally.Within n) (hn : n < 2 ^ 28) (hnamed : i.toArguments.Named)
    (hplaced : ∀ a ∈ i.sources, a.Placed s.arrays) :
    execute env s i = some (Scan.execute env s i) := by
  -- faults change neither counters nor arrays
  have hfailed : (s.failAll (Scan.violations env s i)).tally.Within n :=
    (Scan.tally_failAll s _).symm ▸ hcounts
  have harrays : (s.failAll (Scan.violations env s i)).arrays = s.arrays :=
    congrArg Inventory.arrays (Scan.inventory_failAll s _)
  have hslots : (Scan.judge env s i).slots + i.opcode.info.slots < 2 ^ 32 := by
    have hlimit := Scan.slots_settled_le env (s.failAll (Scan.violations env s i)) i
    have hbefore : (s.failAll (Scan.violations env s i)).slots ≤ 8 * n := hfailed.slots
    show (Scan.account env _ i).slots + _ < 2 ^ 32
    omega
  have hjudged : ∀ a ∈ i.sources, a.Placed ((Scan.judge env s i).charge i.opcode.info.slots).arrays := by
    show ∀ a ∈ i.sources, a.Placed (Scan.account env _ i).arrays
    rw [Scan.arrays_account, harrays]
    exact hplaced
  have haccount : account env (s.failAll (Scan.violations env s i)) i = some (Scan.judge env s i) :=
    account_eq hfailed hn hnamed
  simp only [execute, haccount, some_bind, charge_eq hslots,
    generate_eq hnamed hjudged]
  rfl

/-! ### Instructions -/

def settleLength (env : Env) (op : Opcode) (w : InstructionWord) (s : Scan) (count : Nat) :
    Option (Scan × Nat) :=
  if !env.atLeast 2 0 then some (s.failIf (w.length != 0) .lengthNotZero, count)
  else do
    let stated ← add 64 w.length 1
    if count = stated then return (s, count)
    else return (s.fail (.wrongLength count stated op), stated)

def readInstruction (env : Env) (s : Scan) (op : Opcode) (w : InstructionWord) (ws : List Word) :
    Option (Scan × Nat) :=
  let s := s.failIf w.highBit .instructionHighBit
  if op.isReserved then do return (s.fail .unknownOpcode, ← add 64 w.length 1)
  else do
    let start := s.position
    let (i, count, s) ← readOperands env op w (← advance (s.failAll (Scan.headFaults env op w))) ws
    settleLength env op w (← execute env (s.moveTo start) i) count

theorem settleLength_eq {w : InstructionWord} (hw : w.length < 16) (env : Env) (op : Opcode)
    (s : Scan) (count : Nat) :
    settleLength env op w s count = some (Scan.settleLength env op w s count) := by
  have hstated : w.length + 1 < 2 ^ 64 := by omega
  simp only [settleLength, add_of_lt hstated, some_bind]
  unfold Scan.settleLength
  split
  · rfl
  · split <;> rfl

/-- A state between two units, in which the `n`-th word is read: its numbers and counters are small,
and it says where it is. -/
structure Ready (n : Nat) (s : Scan) : Prop where
  bounded : s.Bounded
  counts : s.tally.Within n
  position : s.position = .word n
  few : n < 2 ^ 28

theorem Ready.room (h : Ready n s) : Room 12 s where
  stored := h.bounded.toStored
  short := by
    have hconstants : s.constants.length ≤ n := h.counts.constants
    have hfew := h.few
    omega
  bytes := by
    have hfew := h.few
    rw [h.position]
    show 4 * n + 4 * 12 < 2 ^ 32
    omega

theorem readInstruction_eq (h : Ready n s) {w : InstructionWord} (hw : w.length < 16) (op : Opcode)
    (short : ws.length < 2 ^ 32) :
    readInstruction env s op w ws = some (Scan.readInstruction env s op w ws) := by
  have hstated : w.length + 1 < 2 ^ 64 := by omega
  have hhead : Room 12 ((s.failIf w.highBit .instructionHighBit).failAll
      (Scan.headFaults env op w)) :=
    (h.room.failIf _ _).failAll _
  have hoperands : readOperands env op w (Scan.operandState env s op w) ws = some _ :=
    readOperands_eq (k := 0) hhead.advance op w short
  -- the instruction is executed in the state that reading its operands leads to
  obtain ⟨-, hnamed⟩ := @Scan.Bounded.readOperands env s h.bounded op w ws
  have hplaced := Scan.placed_readOperands env op w (Scan.operandState env s op w) ws
  have hfetches : Scan.Fetches s
      (Scan.readOperands env op w (Scan.operandState env s op w) ws).2.2 :=
    (((Scan.Fetches.failIf .refl _ _).failAll _).advance).readOperands env op w ws
  have hcounts : ((Scan.readOperands env op w (Scan.operandState env s op w) ws).2.2.moveTo
      (s.failIf w.highBit .instructionHighBit).position).tally.Within n := by
    show (Scan.readOperands env op w _ ws).2.2.tally.Within n
    rw [hfetches.tally_eq]
    exact h.counts
  have hexecute : execute env _ _ = some _ := execute_eq hcounts h.few hnamed hplaced
  have hstate : ((s.failIf w.highBit .instructionHighBit).failAll (Scan.headFaults env op w)).advance =
      Scan.operandState env s op w := rfl
  unfold readInstruction Scan.readInstruction
  simp only [add_of_lt hstated, advance_eq hhead, hstate, hoperands, hexecute, settleLength_eq hw,
    some_bind, Option.pure_def]
  split <;> rfl

/-! ### Comments -/

def readTable (env : Env) (s : Scan) (payload : List Word) : Option Scan :=
  if s.haveTable then some (s.fail .repeatedTable)
  else do
    let a ← table payload env.versionWord
    let s := { s.absorb a with haveTable := true }
    match a.value with
    | none => return s
    | some symbols =>
      return { s with
        symbols
        arrays := s.arrays ++ (symbols.filterMap Symbol.range?).map Symbol.Range.array }

def readPreshader (s : Scan) (payload : List Word) : Option Scan :=
  if s.preshader.isSome then some (s.fail .repeatedPreshader)
  else do
    let a ← (decode payload).outcome
    return { s.absorb a with preshader := a.value }

/-- Reads a comment of so many words.  The words given start with the word before them. -/
def readComment (env : Env) (s : Scan) (words : List Word) (length : Nat) : Option Scan :=
  if 2 ≤ length && length < words.length then do
    let block ← slice words 0 (← add 64 length 1)
    let id ← item block 1
    let payload ← slice block 2 block.length
    if id = Word.preshaderId then readPreshader s payload
    else if id = Word.symbolTableId then readTable env s payload
    else return s
  else some s

theorem readTable_eq {payload : List Word} (short : payload.length < 2 ^ 30) :
    readTable env s payload = some (s.readTable env payload) := by
  simp only [readTable, table_eq short, some_bind]
  unfold Scan.readTable
  split
  · rfl
  · dsimp only
    cases (Symbol.table payload env.versionWord).value <;> rfl

theorem readPreshader_eq {payload : List Word} (short : payload.length < 2 ^ 30) :
    readPreshader s payload = some (s.readPreshader payload) := by
  simp only [readPreshader, decode_eq short, Decoder.outcome_lift, some_bind]
  unfold Scan.readPreshader
  split <;> rfl

theorem readComment_of_lt {length : Nat} (h : length < 2) (w : Word) (ws : List Word) :
    readComment env s (w :: ws) length =
      some (if length ≤ ws.length then s.readComment env (ws.take length) else s) := by
  have hnothing : s.readComment env (ws.take length) = s := by
    obtain rfl | rfl : length = 0 ∨ length = 1 := by omega
    · rfl
    · cases ws <;> rfl
  have htest : (decide (2 ≤ length) && decide (length < (w :: ws).length)) = false := by
    rw [decide_eq_false (Nat.not_le_of_lt h), Bool.false_and]
  rw [readComment, htest, hnothing, ite_self]
  rfl

theorem readComment_cons {length : Nat} (short : length + 2 < 2 ^ 30) (w id word : Word)
    (rest : List Word) (hfits : length ≤ rest.length) :
    readComment env s (w :: id :: word :: rest) (length + 2) =
      some (s.readComment env (id :: word :: rest.take length)) := by
  have hsum : length + 2 + 1 < 2 ^ 64 := by omega
  have htest : (decide (2 ≤ length + 2) &&
      decide (length + 2 < (w :: id :: word :: rest).length)) = true := by
    rw [Bool.and_eq_true, decide_eq_true_iff, decide_eq_true_iff]
    exact ⟨Nat.le_add_left 2 length, Nat.succ_le_succ (Nat.succ_le_succ (Nat.succ_le_succ hfits))⟩
  have hblock : slice (w :: id :: word :: rest) 0 (length + 2 + 1) =
      some (w :: id :: word :: rest.take length) :=
    slice_of_le (Nat.zero_le _) (Nat.succ_le_succ (Nat.succ_le_succ (Nat.succ_le_succ hfits)))
  have hid : item (w :: id :: word :: rest.take length) 1 = some id := rfl
  have hpayload : slice (w :: id :: word :: rest.take length) 2
      (w :: id :: word :: rest.take length).length = some (word :: rest.take length) := by
    rw [slice_of_le (by simp) (Nat.le_refl _), List.take_length]
    rfl
  have hlength : (word :: rest.take length).length < 2 ^ 30 := by
    rw [List.length_cons, List.length_take]
    omega
  rw [readComment, htest]
  simp only [if_true, add_of_lt hsum, hblock, hid, hpayload, readPreshader_eq hlength,
    readTable_eq hlength, some_bind, Scan.readComment]
  split
  · rfl
  · split <;> rfl

theorem readComment_eq {length : Nat} (short : length < 2 ^ 30) (w : Word) (ws : List Word) :
    readComment env s (w :: ws) length =
      some (if length ≤ ws.length then s.readComment env (ws.take length) else s) := by
  by_cases hsmall : length < 2
  · exact readComment_of_lt hsmall w ws
  · obtain ⟨k, rfl⟩ : ∃ k, length = k + 2 := ⟨length - 2, by omega⟩
    by_cases hfits : k + 2 ≤ ws.length
    · rw [if_pos hfits]
      obtain ⟨id, ws, rfl⟩ := List.exists_cons_of_length_pos (show 0 < ws.length by omega)
      have htail : k + 1 ≤ ws.length := Nat.le_of_succ_le_succ hfits
      obtain ⟨word, rest, rfl⟩ := List.exists_cons_of_length_pos (show 0 < ws.length by omega)
      exact readComment_cons short w id word rest (Nat.le_of_succ_le_succ htail)
    · have htest : (decide (2 ≤ k + 2) && decide (k + 2 < (w :: ws).length)) = false := by
        rw [List.length_cons, decide_eq_false (show ¬ k + 2 < ws.length + 1 by omega), Bool.and_false]
      rw [if_neg hfits, readComment, htest]
      rfl

/-! ### Units -/

def readUnit (env : Env) (s : Scan) (w : Word) (ws : List Word) : Option (Scan × Nat) :=
  match UnitHead.ofWord w with
  | .comment length => do
    let s ← readComment env (s.failIf (Word.flag w 31) .commentHighBit) (w :: ws) length
    return (s, ← add 64 length 1)
  | .instruction op fields => readInstruction env s op fields ws
  | _ => some (Scan.readUnit env s w ws)

def readUnits (env : Env) (s : Scan) (n : Nat) : List Word → Option Scan
  | [] => some s
  | w :: ws => do
    let (s, length) ← readUnit env (s.startUnit (.offset (← mul 32 4 n))) w ws
    if ws.length + 1 < length then return { s.fail .truncated with truncated := true }
    else do
      let next ← add 64 n length
      if Scan.stopsAt env w then return s
      else readUnits env s next (ws.drop (length - 1))
termination_by ws => ws.length
decreasing_by
  simp only [List.length_drop, List.length_cons]
  omega

def ofUnits (env : Env) (ws : List Word) : Option Scan := do
  return Scan.finish env (← readUnits env (Scan.start env) 1 ws)

theorem readUnit_eq (h : Ready n s) (short : ws.length < 2 ^ 32) (w : Word) :
    readUnit env s w ws = some (Scan.readUnit env s w ws) := by
  unfold readUnit Scan.readUnit
  cases hw : UnitHead.ofWord w with
  | comment length =>
    have hlength := commentLength?_lt (Scan.Bounded.commentLength?_of_ofWord hw)
    have hsum : length + 1 < 2 ^ 64 := by omega
    simp only [readComment_eq (show length < 2 ^ 30 by omega), add_of_lt hsum, some_bind, Option.pure_def]
  | instruction op fields =>
    have hfields : fields.length < 16 := by
      rw [Visit.fields_of_head hw]
      exact Word.field_lt w 24 4
    exact readInstruction_eq h hfields op short
  | finish | phase | unknown => rfl

/-- One unit of reading: the machine comes to the same state, and goes on at the same word. -/
theorem readUnits_cons (hs : s.Bounded) (hcounts : s.tally.Within n) {w : Word}
    (few : n + (w :: ws).length ≤ 2 ^ 28) :
    readUnits env s n (w :: ws) =
      if ws.length + 1 < (Scan.visit env s n w ws).length then
        some (Scan.visit env s n w ws).after.cutOff
      else if Scan.stopsAt env w then some (Scan.visit env s n w ws).after
      else readUnits env (Scan.visit env s n w ws).after (n + (Scan.visit env s n w ws).length)
        (Scan.visit env s n w ws).remainder := by
  rw [List.length_cons] at few
  have hready : Ready n (s.startUnit (.word n)) :=
    ⟨⟨{ hs.toStored with }, hs.used⟩, hcounts, rfl, by omega⟩
  have hread : readUnit env (s.startUnit (.offset (4 * n))) w ws =
      some ((Scan.visit env s n w ws).after, (Scan.visit env s n w ws).length) :=
    readUnit_eq hready (by omega) w
  rw [readUnits, mul_of_lt (show 4 * n < 2 ^ 32 by omega)]
  simp only [some_bind, hread]
  split
  · rfl
  next hfits =>
    rw [add_of_lt (show n + (Scan.visit env s n w ws).length < 2 ^ 64 by omega)]
    rfl

/-- **Reading a shader of fewer than 2 ^ 28 words stays in range at every unit.** -/
theorem readUnits_eq {t : Scan} {vs : List Visit} (r : Scan.Run env s n ws vs t)
    (hs : s.Bounded) (hcounts : s.tally.Within n) (few : n + ws.length ≤ 2 ^ 28) :
    readUnits env s n ws = some t := by
  induction r with
  | done => rw [readUnits]
  | cut s n w ws tooLong =>
    have hlong : ws.length + 1 < (Scan.visit env s n w ws).length := Nat.lt_of_not_le tooLong
    rw [readUnits_cons hs hcounts few, if_pos hlong]
  | stop s n w ws fits last =>
    have hfits : ¬ ws.length + 1 < (Scan.visit env s n w ws).length := Nat.not_lt_of_le fits
    rw [readUnits_cons hs hcounts few, if_neg hfits, if_pos last]
  | next s n w ws fits more _ ih =>
    have hfits : ¬ ws.length + 1 < (Scan.visit env s n w ws).length := Nat.not_lt_of_le fits
    rw [readUnits_cons hs hcounts few, if_neg hfits, if_neg more]
    -- the bounds hold again after the unit, as it takes at least one word
    have hlength := (Scan.visit env s n w ws).one_le_length
    have hbefore : (s.startUnit (.word n)).Bounded := ⟨{ hs.toStored with }, hs.used⟩
    have hafter : (Scan.visit env s n w ws).after.tally.Within (n + 1) :=
      Scan.Tally.Within.readUnit (s := s.startUnit (.word n)) hcounts w ws
    apply ih (hbefore.readUnit w ws) (hafter.mono (Nat.add_le_add_left hlength n))
    have hrest : (Scan.visit env s n w ws).remainder.length =
        ws.length - ((Scan.visit env s n w ws).length - 1) := List.length_drop
    rw [List.length_cons] at few
    omega

theorem ofUnits_eq (env : Env) (few : ws.length + 1 ≤ 2 ^ 28) :
    ofUnits env ws = some (Scan.ofUnits env ws) := by
  have hread := readUnits_eq (Scan.run_readUnits env (Scan.start env) 1 ws)
    (Scan.Bounded.start env) (Scan.Tally.Within.start env) (by omega)
  rw [ofUnits, hread]
  rfl

end Fixed

end ShaderLift
