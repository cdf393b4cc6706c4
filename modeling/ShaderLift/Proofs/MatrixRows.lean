/-
The rows of a matrix that is read relatively.  An instruction that multiplies by a matrix names its first
row; the others are in the registers that follow.  If the first row is a relative read of a constant, it
is taken to read the newest array of floats with its register, and the others are taken to read the same
array, whether their registers are in it or not.  Nothing checks this: the last two rows of `boneProduct
2` are behind the end of their array.
-/
import ShaderLift.Proofs.Accepted
import ShaderLift.Proofs.Relative

namespace ShaderLift

theorem ConstantArray.contains_iff {a : ConstantArray} {number : Nat} :
    a.contains number = true ↔ a.index ≤ number ∧ number < a.index + a.count := by
  rw [contains, Bool.and_eq_true, decide_eq_true_iff, decide_eq_true_iff]

/-- Where the program keeps an element of an array, if the bases of arrays stand for `bases`. -/
def ConstantArray.cellAt (a : ConstantArray) (bases : Nat → Nat) (n : Nat) : Glsl.Cell :=
  if a.isLiteral then .literal a.index a.count n else .packed (bases a.index + n)

theorem Glsl.cell?_arrayElement (a : ConstantArray) (bases : Nat → Nat) (delta : Nat)
    (index : RelativeIndex) :
    (Scan.arrayElement a delta (Scan.indexExpr index)).cell? bases 0 = some (a.cellAt bases delta) := by
  unfold ConstantArray.cellAt
  cases hliteral : a.isLiteral with
  | true => exact cell?_of_literal hliteral bases 0 delta index
  | false => exact cell?_of_host hliteral bases 0 delta index

/-! ### Rows -/

namespace Instruction

variable {i : Instruction} {rows : Nat}

theorem getElem?_matrixRows {k : Nat} (h : k < rows) :
    (i.matrixRows rows)[k]? = some ((i.source 1).shift k) := by
  rw [matrixRows, List.getElem?_map, List.getElem?_range h]
  rfl

theorem forall_contains_matrixRows {array : ConstantArray}
    (first : array.contains (i.source 1).register.number = true) (some : 0 < rows) :
    (∀ row ∈ i.matrixRows rows, array.contains row.register.number = true) ↔
      (i.source 1).register.number + rows ≤ array.index + array.count := by
  rw [ConstantArray.contains_iff] at first
  constructor
  · intro h
    have hlast := h _ (List.mem_of_getElem? (getElem?_matrixRows (Nat.sub_one_lt_of_lt some)))
    rw [ConstantArray.contains_iff] at hlast
    have hnumber : (i.source 1).register.number + (rows - 1) < array.index + array.count := hlast.2
    omega
  · intro h row hrow
    obtain ⟨k, hk, rfl⟩ := List.mem_map.mp hrow
    rw [List.mem_range] at hk
    refine ConstantArray.contains_iff.mpr ⟨Nat.le_trans first.1 (Nat.le_add_right _ k), ?_⟩
    show (i.source 1).register.number + k < _
    omega

end Instruction

theorem MatrixForm.rows_pos (form : MatrixForm) : 0 < form.rows := by
  cases form <;> decide

namespace Visit

variable {v : Visit} {i : Instruction}

/-- A row is taken to read `array`, the array at `place`.  With index zero this is the element that its
register would be. -/
structure ReadsRow (v : Visit) (place : Nat) (array : ConstantArray) (row : Source) : Prop where
  file : row.register.file = .const
  recorded : row.arrayPlace? = some place
  above : array.index ≤ row.register.number
  element : ∃ e, Scan.variableOf v.env.toShader v.after row = .ok e ∧
    ∀ bases, e.cell? bases 0 = some (array.cellAt bases (row.register.number - array.index))

theorem exists_array_of_relative (h : v.instruction? = some i) (accepted : v.after.failing = false)
    {n : Nat} (hn : n < i.opcode.info.shape.sourceCount v.env.toShader)
    (hconst : (i.source n).IsRelativeConstant) :
    ∃ place array, (i.source n).arrayPlace? = some place ∧ v.after.arrays[place]? = some array ∧
      array.kind = .float ∧ array.contains (i.source n).register.number = true := by
  obtain ⟨s, hexecutes⟩ := executes_alone accepted h
  have hsource : i.source n ∈ i.sources := by
    have hlength := hexecutes.fetchedArguments.length
    have hlt : n < i.sources.length := hlength ▸ hn
    rw [Instruction.source, List.getD_eq_getElem?_getD, List.getElem?_eq_getElem hlt]
    exact List.getElem_mem hlt
  obtain ⟨place, array, hplace, hresolved⟩ := hexecutes.taken.resolved hsource hconst
  obtain ⟨found, hfound, hfloat⟩ := ConstantArray.getElem?_of_newest? hresolved.newest
  obtain rfl : found = array := Option.some.inj (hfound.symm.trans hresolved.at_place)
  rw [Bool.and_eq_true, decide_eq_true_iff] at hfloat
  refine ⟨place, found, hplace, ?_, hfloat.1, hfloat.2⟩
  rw [show v.after.arrays = v.alone.after.arrays from (twin_after accepted).adds.2.2.1.symm,
    hexecutes.turn_after.2]
  exact hresolved.at_place

theorem readsRow_shift {a : Source} {place : Nat} {array : ConstantArray}
    (hconst : a.IsRelativeConstant) (hplace : a.arrayPlace? = some place)
    (harray : v.after.arrays[place]? = some array) (habove : array.index ≤ a.register.number) (k : Nat) :
    v.ReadsRow place array (a.shift k) := by
  have hshifted : (a.shift k).IsRelativeConstant := hconst
  have hrecorded : (a.shift k).arrayPlace? = some place := hplace
  obtain ⟨e, he, hvariable⟩ := Scan.variableOf_eq v.env.toShader hshifted hrecorded harray
  refine ⟨hconst.2, hplace, Nat.le_trans habove (Nat.le_add_right _ k), e, hvariable, fun bases => ?_⟩
  obtain ⟨index, -, rfl⟩ := Option.map_eq_some_iff.mp he
  exact Glsl.cell?_arrayElement array bases _ index

end Visit

/-! ### The main result -/

/-- **The rows of a matrix are inside their array if the last one is.**  An accepted product with a matrix
whose first row is a relative read of a constant has all its rows in one array of floats, one after another.
-/
theorem matrix_rows_inside_iff (v : Visit) (i : Instruction) (form : MatrixForm)
    (h : v.instruction? = some i) (accepted : v.after.failing = false)
    (hform : i.opcode.matrixForm? = some form) (hconst : (i.source 1).IsRelativeConstant) :
    ∃ place array, v.after.arrays[place]? = some array ∧ array.kind = .float ∧
      array.contains (i.source 1).register.number = true ∧
      (∀ k < form.rows, ∃ row, (i.matrixRows form.rows)[k]? = some row ∧
        row.register.number = (i.source 1).register.number + k ∧ v.ReadsRow place array row) ∧
      ((∀ row ∈ i.matrixRows form.rows, array.index ≤ row.register.number ∧
          row.register.number < array.index + array.count) ↔
        (i.source 1).register.number + form.rows ≤ array.index + array.count) := by
  have hone : 1 < i.opcode.info.shape.sourceCount v.env.toShader := by
    cases e : i.opcode <;> first | exact Nat.one_lt_two | (rw [e] at hform; cases hform)
  obtain ⟨place, array, hplace, harray, hfloat, hcontains⟩ :=
    Visit.exists_array_of_relative h accepted hone hconst
  have habove := (ConstantArray.contains_iff.mp hcontains).1
  refine ⟨place, array, harray, hfloat, hcontains, fun k hk => ?_, ?_⟩
  · exact ⟨_, Instruction.getElem?_matrixRows hk, rfl, Visit.readsRow_shift hconst hplace harray habove k⟩
  · simp only [← ConstantArray.contains_iff]
    exact Instruction.forall_contains_matrixRows hcontains form.rows_pos

/-- A vertex shader that multiplies its input by a matrix in an array of four constants, `first` registers
behind the one that the input names. -/
def boneProduct (first : Word) : List Word :=
  [0xFFFE0101,
    -- a symbol table with one symbol, `bones`, in the registers 0 to 3
    0x0016FFFE, 0x42415443, 28, 0, 0xFFFE0101, 1, 28, 0, 0, 64, 2, 4, 48, 0, 0x00030001, 0x00040001,
    4, 0, 0x656E6F62, 115, 0, 0, 0,
    1, 0xB0010000, 0x90000000,
    0x14, 0x800F0000, 0x90E40000, 0xA0E42000 + first,
    1, 0xC00F0000, 0x80E40000,
    0xFFFF]

theorem matrix_rows_inside_boneProduct :
    ∃ v ∈ unitsOf {} (boneProduct 0), ∃ i, v.instruction? = some i ∧ v.after.failing = false ∧
      i.opcode.matrixForm? = some .m4x4 ∧ (i.source 1).IsRelativeConstant ∧
      ∃ place array, v.after.arrays[place]? = some array ∧ array.kind = .float ∧
        array.contains (i.source 1).register.number = true ∧
        (∀ k < 4, ∃ row, (i.matrixRows 4)[k]? = some row ∧
          row.register.number = (i.source 1).register.number + k ∧ v.ReadsRow place array row) ∧
        ((∀ row ∈ i.matrixRows 4, array.index ≤ row.register.number ∧
            row.register.number < array.index + array.count) ↔
          (i.source 1).register.number + 4 ≤ array.index + array.count) := by
  have hfound : ((unitsOf {} (boneProduct 0)).any fun v => v.instruction?.any fun i =>
      decide (v.after.failing = false ∧ i.opcode.matrixForm? = some .m4x4 ∧
        (i.source 1).relative.isSome = true ∧ (i.source 1).register.file = .const)) = true := by
    decide +kernel
  obtain ⟨v, hv, i, hi, hfacts⟩ := exists_instruction hfound
  obtain ⟨haccepted, hform, hconst⟩ := of_decide_eq_true hfacts
  exact ⟨v, hv, i, hi, haccepted, hform, hconst,
    matrix_rows_inside_iff v i .m4x4 hi haccepted hform hconst⟩

/-- Two registers on, the last two rows are behind the end of the array, and no fault is found. -/
theorem boneProduct_two_leaves_array :
    (liftWords .glsl110 {} (boneProduct 2)).errors = [] ∧
      ∃ v ∈ unitsOf {} (boneProduct 2), ∃ i, v.instruction? = some i ∧ v.after.failing = false ∧
        i.opcode.matrixForm? = some .m4x4 ∧ (i.source 1).IsRelativeConstant ∧
        ∃ place array, (i.source 1).arrayPlace? = some place ∧ v.after.arrays[place]? = some array ∧
          ¬ ∀ row ∈ i.matrixRows 4, array.index ≤ row.register.number ∧
            row.register.number < array.index + array.count := by
  refine ⟨by decide +kernel, ?_⟩
  have hfound : ((unitsOf {} (boneProduct 2)).any fun v => v.instruction?.any fun i =>
      decide (v.after.failing = false ∧ i.opcode.matrixForm? = some .m4x4 ∧
        ((i.source 1).relative.isSome = true ∧ (i.source 1).register.file = .const) ∧
        (i.source 1).arrayPlace? = some 0 ∧ v.after.arrays[0]? = some ⟨.float, 0, 4, [], true⟩ ∧
        ¬ ∀ row ∈ i.matrixRows 4, 0 ≤ row.register.number ∧ row.register.number < 0 + 4)) = true := by
    decide +kernel
  obtain ⟨v, hv, i, hi, hfacts⟩ := exists_instruction hfound
  obtain ⟨haccepted, hform, hconst, hplace, harray, houtside⟩ := of_decide_eq_true hfacts
  exact ⟨v, hv, i, hi, haccepted, hform, hconst, 0, _, hplace, harray, houtside⟩

end ShaderLift
