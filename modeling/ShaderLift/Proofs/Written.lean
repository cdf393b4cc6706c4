/-
The code of one accepted instruction.  It is written by the functions of `Scan.Code` in a state that has
the meanings of outputs and the arrays that are known after the instruction (`Visit.generates`).  Since
there is no fault, every source has an expression, and what is assigned is assigned.
-/
import ShaderLift.Proofs.Accepted
import ShaderLift.Proofs.Scalars

namespace ShaderLift

open Glsl

/-! ### Operands without a fault -/

/-- The index of a relative source is the loop counter or a component of the address register. -/
def Source.IsIndexed (a : Source) : Prop := ∀ index, a.relative = some index →
  index.register.file = .loop ∨ index.register.file = .address

namespace Scan

variable {sh : Shader} {s t : Scan} {i : Instruction} {a : Source} {d : Dest} {mask : WriteMask}

/-- Code that goes on with the expression of a source does so only where the source has one. -/
theorem bind_sourceAt {α : Type} {f : Expr → Emission α}
    (sound : (sourceAt sh s a mask >>= f).faults = []) :
    ∃ e, sourceExpr sh s a mask = .ok e ∧ sourceAt sh s a mask >>= f = f e := by
  cases he : sourceExpr sh s a mask with
  | ok e =>
    have hsource : sourceAt sh s a mask = pure e := by rw [sourceAt, he]
    exact ⟨e, rfl, by rw [hsource, pure_bind]⟩
  | error fault =>
    have hsource : sourceAt sh s a mask = Emission.noExpr fault := by rw [sourceAt, he]
    rw [hsource] at sound
    cases sound

theorem assignTo_eq {e : Expr} (sound : (assignTo sh s i d e).faults = [])
    (some : d.mask.isEmpty = false) :
    assignTo sh s i d e =
      Emission.write (.assign ⟨d.register, d.mask, s.isScalar sh d.register⟩ (finished d e)) := by
  unfold assignTo at sound ⊢
  rw [some, if_neg Bool.false_ne_true] at sound ⊢
  cases hpredicated : i.predicated with
  | true =>
    rw [hpredicated, if_pos rfl] at sound
    cases sound
  | false =>
    rw [hpredicated, if_neg Bool.false_ne_true] at sound
    rw [if_neg Bool.false_ne_true]
    cases hname : (d.register.spelling? sh).isNone with
    | true =>
      rw [hname, if_pos rfl] at sound
      cases sound
    | false => rw [if_neg Bool.false_ne_true]

/-- An expression of a source is the one of its variable, with components and the modifier. -/
theorem exists_variableOf {e : Expr} (h : sourceExpr sh s a mask = .ok e) :
    ∃ f x, modifierExpr a.modifier = .ok f ∧ variableOf sh s a = .ok x ∧ e = f (pick sh s a mask x) := by
  unfold sourceExpr at h
  cases hf : modifierExpr a.modifier with
  | error fault =>
    rw [hf] at h
    cases h
  | ok f =>
    cases hx : variableOf sh s a with
    | error fault =>
      rw [hf, hx] at h
      cases h
    | ok x =>
      rw [hf, hx] at h
      cases h
      exact ⟨f, x, rfl, rfl, rfl⟩

theorem isScalar_of_relative {e : Expr} {index : RelativeIndex} (h : variableOf sh s a = .ok e)
    (hrelative : a.relative = some index) : s.isScalar sh a.register = false := by
  rcases variableOf_cases h with ⟨hnone, -⟩ | ⟨_, -, ⟨hfile, -⟩ | ⟨hfile, -⟩⟩
  · rw [hrelative] at hnone
    cases hnone
  all_goals exact isScalar_of_isVector (by rw [hfile]; rfl)

theorem isScalar_index {index : RelativeIndex} (ha : a.IsIndexed) (h : a.relative = some index)
    (hloop : index.register.file ≠ .loop) : s.isScalar sh index.register = false := by
  refine isScalar_of_isVector ?_
  rw [(ha index h).resolve_left hloop]
  rfl

theorem variableOf_congr (h : t.arrays = s.arrays) : variableOf sh t a = variableOf sh s a := by
  unfold variableOf
  rw [h]

end Scan

/-! ### Accepted instructions -/

namespace Visit

variable {v : Visit} {i : Instruction}

/-- The code of an accepted instruction, as the state `t` in which it is written has it. -/
structure Generates (v : Visit) (i : Instruction) (t : Scan) : Prop where
  code : v.written = (Scan.instructionCode v.env.toShader t i).code
  sound : (Scan.instructionCode v.env.toShader t i).faults = []
  attributes : t.attributes = v.after.attributes
  arrays : t.arrays = v.after.arrays
  indexed : ∀ n < i.opcode.info.shape.sourceCount v.env.toShader, (i.source n).IsIndexed
  /-- The mask of a scalar register is narrowed.  A declaration may make its register scalar after that. -/
  mask : i.opcode.info.shape.hasDest = true → i.opcode ≠ .dcl →
    t.isScalar v.env.toShader i.dest.register = true → i.dest.mask = .x

theorem Executes.isScalar_kept {s : Scan} (h : v.Executes i s) (this : v.instruction? = some i)
    (hop : i.opcode ≠ .dcl) (sh : Shader) (r : Register) :
    v.before.isScalar sh r = (Scan.settled v.env s i).isScalar sh r := by
  by_cases hfile : r.file = .output
  · have hother : v.declares r = false := by
      rw [declares, this]
      exact Bool.and_eq_false_iff.mpr (.inl (decide_eq_false hop))
    refine (Scan.isScalar_congr ?_).symm
    rw [h.attributes_settled]
    exact (h.means this).find?_kept (by rw [hfile]; decide) hother
  · rw [Scan.isScalar_of_ne_output hfile, Scan.isScalar_of_ne_output hfile]

theorem generates (h : v.instruction? = some i) (accepted : v.after.failing = false) :
    ∃ t, v.Generates i t := by
  obtain ⟨s, hexecutes⟩ := executes_alone accepted h
  have hafter := twin_after accepted
  refine ⟨Scan.settled v.env s i, ?_, hexecutes.sound, ?_, ?_, ?_, ?_⟩
  · rw [← written_alone accepted]
    exact written_eq hexecutes.code_after
  · obtain ⟨m, hm⟩ := hafter.eq
    exact hexecutes.attributes_settled.trans (by rw [hm]; rfl)
  · have hinventory : (Scan.settled v.env s i).inventory = v.alone.after.inventory := by
      rw [hexecutes.after, Scan.inventory_executed hexecutes.sound]
      rfl
    exact (congrArg Inventory.arrays hinventory).trans hafter.adds.2.2.1
  · exact fun n hn => (Scan.fetched_source hexecutes.fetchedArguments hn).indexFile
  · intro hdest hop hscalar
    rw [hexecutes.mask_eq hdest, hexecutes.isScalar_kept ((instruction?_alone accepted).trans h) hop]
    exact if_pos hscalar

theorem Generates.isScalar_eq {t : Scan} (h : v.Generates i t) (sh : Shader) :
    t.isScalar sh = v.after.isScalar sh :=
  funext fun _ => Scan.isScalar_congr (by rw [h.attributes])

end Visit

end ShaderLift
