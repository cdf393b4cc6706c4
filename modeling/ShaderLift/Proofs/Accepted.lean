/-
Instructions that are accepted.  Reading goes on after a fault, so there are units without a fault of
their own in shaders that are not without faults.  But what was found before is on the margin of a state,
which is never looked at: a unit without a fault of its own does what it would do as the first one,
`Visit.alone`, and whatever is known about the units of shaders without a fault (`Visit.Executes`) is
known about it, too.
-/
import ShaderLift.Proofs.Twins

namespace ShaderLift

namespace Visit

variable {v : Visit} {i : Instruction}

/-- The unit as it would be read if nothing had been found before it. -/
def alone (v : Visit) : Visit := { v with before := { v.before with faults := [] } }

theorem twin_before (v : Visit) : Scan.Twin .nothing v.before v.alone.before :=
  ⟨⟨{ v.before.margin with faults := [] }, rfl⟩, fun _ => rfl, rfl, rfl, rfl, rfl⟩

section

variable (accepted : v.after.failing = false)
include accepted

theorem twin_after : Scan.Twin .nothing v.after v.alone.after :=
  (v.twin_before.readUnit accepted (fun _ h => by cases h)).2

theorem instruction?_alone : v.alone.instruction? = v.instruction? := by
  have hhead : UnitHead.ofWord v.alone.word = UnitHead.ofWord v.word := rfl
  unfold instruction?
  rw [hhead]
  rw [after, Scan.readUnit] at accepted
  cases hword : UnitHead.ofWord v.word with
  | instruction op fields =>
    rw [hword] at accepted
    obtain ⟨-, hoperands, -⟩ := Scan.readInstruction_of_flag accepted
    exact congrArg some (v.twin_before.advance.readOperands hoperands).1
  | _ => rfl

/-- An instruction without a fault of its own is executed like one of a shader without faults. -/
theorem executes_alone (h : v.instruction? = some i) : ∃ s, v.alone.Executes i s := by
  have hafter : v.alone.after.failing = false := (twin_after accepted).failing_eq.trans accepted
  have hdoes := v.alone.does_of_clean (v.alone.records.flag hafter) (v.alone.records.faults_eq hafter)
  exact hdoes.executes ((instruction?_alone accepted).trans h)

theorem written_alone : v.alone.written = v.written := by
  obtain ⟨m, hm⟩ := (twin_after accepted).eq
  unfold written
  rw [hm]
  rfl

end

end Visit

theorem exists_instruction {o : Options} {ws : List Word} {p : Visit → Instruction → Bool}
    (h : ((unitsOf o ws).any fun v => v.instruction?.any (p v)) = true) :
    ∃ v ∈ unitsOf o ws, ∃ i, v.instruction? = some i ∧ p v i = true := by
  obtain ⟨v, hv, hany⟩ := List.any_eq_true.mp h
  exact ⟨v, hv, (Option.any_eq_true _ _).mp hany⟩

end ShaderLift
