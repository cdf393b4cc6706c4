/-
What a result owes to the dialect it is written in.  Many steps of a translation put out what the dialect
says, but two translations of a shader for different dialects stay in step: unit by unit they know the
same and go on in the same section (`stayInStep`).  So only the text of the program is another one, and a
few faults name the dialect: their wording is a text with gaps in which the name stands,
`Fault.exists_pieces`.
-/
import Mathlib.Data.List.Forall2
import ShaderLift.Proofs.AllOrNothing

namespace ShaderLift

/-! ### Faults that name the dialect -/

/-- The wording of a fault is fixed pieces of text with the name of the dialect between them. -/
theorem Fault.exists_pieces (f : Fault) :
    ∃ pieces : List String, ∀ name : String, f.message name = name.intercalate pieces := by
  cases f with
  | unimplemented op => exact ⟨[op.mnemonic ++ " unimplemented in ", " profile"], fun _ => rfl⟩
  | centroidUnsupported => exact ⟨["centroid unsupported in ", " profile"], fun _ => rfl⟩
  -- no other fault knows of a dialect, so that its wording is one piece
  | _ => exact ⟨[_], fun _ => rfl⟩

/-- Two diagnostics that tell of the same place in the same way, one with the name `x` where the other
has the name `y`. -/
structure Diagnostic.Renamed (x y : String) (a b : Diagnostic) : Prop where
  position : a.position = b.position
  filename : a.filename = b.filename
  message : ∃ pieces : List String, a.message = x.intercalate pieces ∧
    b.message = y.intercalate pieces

theorem LocatedFault.renamed (x y : String) (filename : Option String) (f : LocatedFault) :
    (f.diagnostic x filename).Renamed x y (f.diagnostic y filename) := by
  obtain ⟨pieces, hpieces⟩ := f.fault.exists_pieces
  exact ⟨rfl, rfl, pieces, hpieces x, hpieces y⟩

theorem renamed_map (x y : String) (filename : Option String) (faults : List LocatedFault) :
    List.Forall₂ (Diagnostic.Renamed x y) (faults.map (LocatedFault.diagnostic x filename))
      (faults.map (LocatedFault.diagnostic y filename)) := by
  rw [List.forall₂_map_left_iff, List.forall₂_map_right_iff, List.forall₂_same]
  intro f _
  exact f.renamed x y filename

/-! ### Results -/

/-- Two results that tell the host the same, for the dialects `p` and `q`. -/
structure Lifted.Agree (p q : Glsl.Profile) (r r' : Lifted) : Prop where
  profiles : r.profile = p ∧ r'.profile = q
  /-- Apart from the dialect, the program and the faults they are equal. -/
  fields : { r with profile := q, output := r'.output, errors := r'.errors } = r'
  success : r.errors = [] ↔ r'.errors = []
  errors : List.Forall₂ (Diagnostic.Renamed p.name q.name) r.errors r'.errors

theorem agree_failed (p q : Glsl.Profile) (o : Options) (faults : List LocatedFault) :
    Lifted.Agree p q (.failed p o faults) (.failed q o faults) where
  profiles := ⟨rfl, rfl⟩
  fields := rfl
  success := by
    show faults.map _ = [] ↔ faults.map _ = []
    rw [List.map_eq_nil_iff, List.map_eq_nil_iff]
  errors := renamed_map p.name q.name o.filename faults

theorem agree_lifted (p q : Glsl.Profile) (o : Options) (l : LinkedShader) :
    Lifted.Agree p q (l.lifted p o) (l.lifted q o) where
  profiles := ⟨rfl, rfl⟩
  fields := rfl
  success := Iff.rfl
  errors := .nil

/-- **The dialect does not matter to the host.**  The translations of a shader are in step after every unit,
and lifting gives results that agree on everything but the dialect, the text of the program and the name of
the dialect in the faults. -/
theorem lift_agrees_across_dialects (p q : Glsl.Profile) (o : Options) (ws : List Word) :
    StayInStep p q o o ws ∧
      ∃ r r', lift? p.name o ws = some r ∧ lift? q.name o ws = some r' ∧ Lifted.Agree p q r r' := by
  refine ⟨stayInStep (fun _ => rfl) p q ws, liftWords p o ws, liftWords q o ws, ?_, ?_, ?_⟩
  · rw [lift?, ofName?_name, Option.map_some]
  · rw [lift?, ofName?_name, Option.map_some]
  · -- both translations come to the shader that linking gives
    rw [liftWords_eq, liftWords_eq]
    cases linkShader o ws with
    | error faults => exact agree_failed p q o faults
    | ok l => exact agree_lifted p q o l

end ShaderLift
