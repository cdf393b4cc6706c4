/-
No number of the program is too large for a machine, and no place that it reaches for is missing.

The numbers come from different sides.  A register is named by eleven bits, by the file of constants it
belongs to, and by the row of a matrix; the range of a symbol has a first register and a length of 16 bits
each; a comment has room for so many symbols and no more.  `Scan.Bounded` brings these bounds together,
and `Scan.Tally.Within` bounds the counters by the number of words read.  With both, each operation of the
program in `Fixed` has a result.
-/
import ShaderLift.Proofs.Fixed.Program

namespace ShaderLift

/-! ### Units -/

namespace Visit

variable {v : Visit}

/-- The instruction of a unit and the state in which it is executed, if the unit is an instruction. -/
def execution? (v : Visit) : Option (Instruction × Scan) :=
  match UnitHead.ofWord v.word with
  | .instruction op fields =>
    let read := Scan.readOperands v.env op fields (Scan.operandState v.env v.before op fields) v.rest
    some (read.1, read.2.2)
  | _ => none

/-- All numbers are small around a unit, and what its instruction reads from an array is no register before
the array. -/
structure InRange (v : Visit) : Prop where
  before : v.before.Bounded
  after : v.after.Bounded
  executed : ∀ i s, v.execution? = some (i, s) → s.Bounded
  offsets : ∀ i s, v.execution? = some (i, s) → ∀ a ∈ i.reads, a.Placed s.arrays

theorem inRange_of_bounded (h : v.before.Bounded) : v.InRange := by
  have hexecution : ∀ i s, v.execution? = some (i, s) →
      s.Bounded ∧ ∀ a ∈ i.reads, a.Placed s.arrays := by
    intro i s hi
    unfold execution? at hi
    split at hi
    next op fields _ =>
      obtain ⟨rfl, rfl⟩ := Prod.mk.inj (Option.some.inj hi)
      exact ⟨(h.readOperands op fields v.rest).1,
        Scan.placed_reads (Scan.placed_readOperands v.env op fields _ v.rest)⟩
    next => cases hi
  exact ⟨h, h.readUnit v.word v.rest, fun i s hi => (hexecution i s hi).1,
    fun i s hi => (hexecution i s hi).2⟩

end Visit

/-! ### Interfaces -/

/-- All numbers of a shader with its interface are small, and the packed constants are few.  A constant
that is in an array does not lie before the array. -/
structure LinkedShader.InRange (l : LinkedShader) : Prop where
  scan : l.scan.Bounded
  globals : ∀ r ∈ l.interface.globals, r.number ≤ 8194
  attributes : ∀ e ∈ l.interface.attributes, e.1.number ≤ 8194
  constants : ∀ c ∈ l.interface.constants, c.number ≤ 8194
  arrays : ∀ p ∈ l.interface.arrays, p.array.index + p.array.count ≤ 131070
  offsets : ∀ c ∈ l.interface.constants, ∀ p,
    Interface.arrayOf? l.interface.arrays c.kind c.number = some p → p.array.index ≤ c.number
  slots : ∀ kind, l.interface.slots.count kind < 2 ^ 32

theorem LinkedShader.inRange_ofUnits (env : Env) (us : List Word) :
    (LinkedShader.ofUnits env us).InRange := by
  have hplaceable := Interface.placeable_ofUnits env us
  have hbounded := hplaceable.bounded
  have hundeclared : ∀ r ∈ Interface.undeclared (Scan.ofUnits env us), r.number ≤ 8194 :=
    fun r hr => hbounded.used r (List.mem_of_mem_filter hr)
  refine ⟨hbounded, ?_, ?_, ?_, ?_, ?_, hplaceable.count_slots_lt env.toShader⟩
  · exact fun r hr => hundeclared r (List.mem_of_mem_filter hr)
  · intro e he
    have hsorted := (Scan.tablesSorted_ofUnits env us).attributes
    rcases Interface.given_or_implied hsorted he with hgiven | ⟨himplied, -⟩
    · have hmem := hsorted.mem_entries_iff.mpr hgiven
      exact hbounded.attributes e.1 (List.mem_map_of_mem hmem)
    · exact hundeclared e.1 himplied
  · intro c hc
    have hmem := List.mem_map_of_mem (f := PlacedConstant.register) hc
    rw [show List.map PlacedConstant.register (LinkedShader.ofUnits env us).interface.constants = _ from
      Interface.map_register_ofScan env.toShader (Scan.ofUnits env us)] at hmem
    exact hundeclared _ (List.mem_of_mem_filter hmem)
  · exact fun p hp => (Fixed.smallArrays_usedArrays hplaceable p hp).1
  · intro c _ p hp
    have hcontains := (Interface.mem_of_arrayOf? hp).2
    rw [ConstantArray.contains, Bool.and_eq_true, decide_eq_true_iff] at hcontains
    exact hcontains.1

/-! ### Shaders -/

/-- **No number is out of range.**  A machine with words of 32 and 64 bits, on which nothing may leave its
range and no place may be looked up that is not there, has the result of the program for every shader of
fewer than 2 ^ 28 words.  The numbers in all states are bounded. -/
theorem lift_stays_in_range (p : Glsl.Profile) (o : Options) (ws : List Word)
    (few : ws.length < 2 ^ 28) :
    Fixed.liftWords p o ws = some (liftWords p o ws) ∧
      (∀ v ∈ unitsOf o ws, v.InRange) ∧
      ∀ w us env, ws = w :: us → Env.ofWord? o w = some env → (LinkedShader.ofUnits env us).InRange := by
  refine ⟨Fixed.liftWords_eq p o few, ?_, fun w us env _ _ => LinkedShader.inRange_ofUnits env us⟩
  intro v hv
  rcases run_unitsOf o ws with hnone | ⟨w, us, env, rfl, -, hrun⟩
  · rw [hnone] at hv
    exact absurd hv List.not_mem_nil
  · have hstates := (Scan.Bounded.run hrun (Scan.Bounded.start env)).1
    exact Visit.inRange_of_bounded (hstates v hv).1

/-- A vertex shader that multiplies its input by a matrix in an array of eight constants, at an index. -/
def boneMatrixCode : List Word :=
  [0xFFFE0101,
    -- a symbol table with one symbol, `bone`, in the registers 0 to 7
    0x0016FFFE, 0x42415443, 28, 0, 0xFFFE0101, 1, 28, 0, 0, 64, 2, 8, 48, 0, 0x00030001, 0x00040001,
    8, 0, 0x656E6F62, 115, 0, 0, 0,
    -- the first row is two registers behind the one that the input names
    1, 0xB0010000, 0x90000000,
    0x14, 0xC00F0000, 0x90E40000, 0xA0E42002,
    0xFFFF]

theorem boneMatrixCode_stays_in_range :
    boneMatrixCode.length < 2 ^ 28 ∧
      (liftWords .glsl110 {} boneMatrixCode).errors = [] ∧
      ((unitsOf {} boneMatrixCode).any fun v => v.execution?.any fun e =>
        e.1.reads.countP (fun a => a.arrayPlace? = some 0) = 5) = true ∧
      Fixed.liftWords .glsl110 {} boneMatrixCode = some (liftWords .glsl110 {} boneMatrixCode) ∧
      (∀ v ∈ unitsOf {} boneMatrixCode, v.InRange) ∧
      ∀ w us env, boneMatrixCode = w :: us → Env.ofWord? {} w = some env →
        (LinkedShader.ofUnits env us).InRange :=
  ⟨by decide, by decide +kernel, by decide +kernel,
    lift_stays_in_range .glsl110 {} boneMatrixCode (by decide)⟩

end ShaderLift
