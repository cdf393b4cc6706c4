/-
Lifting gives everything or nothing.  Three things tell of a failure: the list of faults, the flag of the
current unit, and whether there is a program at all.  The flag is cleared at the start of every unit, so
it cannot be what the result depends on; but it never says anything that the list does not say, and the
list never loses anything (`Scan.Records`).
-/
import ShaderLift.Proofs.Outputs

namespace ShaderLift

theorem ofName?_name (p : Glsl.Profile) : Glsl.Profile.ofName? p.name = some p := by
  cases p <;> decide

section Lifting

variable (p : Glsl.Profile) (o : Options) (ws : List Word)

theorem liftWords_of_errors (h : (liftWords p o ws).errors ≠ []) :
    liftWords p o ws = { profile := p, errors := (liftWords p o ws).errors } := by
  rw [liftWords_eq] at h ⊢
  cases hl : linkShader o ws with
  | error faults => rfl
  | ok l =>
    rw [hl] at h
    exact absurd rfl h

/-- There is no fault to tell of exactly if the flag was never up and the interface is in order. -/
theorem liftWords_errors_eq_nil_iff :
    (liftWords p o ws).errors = [] ↔ ∃ w us env, ws = w :: us ∧ Env.ofWord? o w = some env ∧
      Scan.everFailing env us = false ∧
      Interface.faults env.toShader (Scan.ofUnits env us) = [] := by
  have hlink := linking_linkShader o ws
  rw [liftWords_eq]
  generalize linkShader o ws = outcome at hlink ⊢
  cases hlink with
  | noVersion => simp [Lifted.failed]
  | notAShader other => simp [Lifted.failed, other]
  | badUnits version bad =>
    constructor
    · intro h
      exact absurd (List.map_eq_nil_iff.mp h) bad
    · rintro ⟨_, _, _, ⟨⟩, hv, hflag, -⟩
      obtain rfl := Option.some.inj (version.symm.trans hv)
      exact absurd ((Scan.ofUnits_faults_eq_nil_iff _ _).mpr hflag) bad
  | badInterface version good bad =>
    constructor
    · intro h
      exact absurd (List.map_eq_nil_iff.mp (List.map_eq_nil_iff.mp h)) bad
    · rintro ⟨_, _, _, ⟨⟩, hv, -, hfit⟩
      obtain rfl := Option.some.inj (version.symm.trans hv)
      exact absurd hfit bad
  | linked version good fit =>
    constructor
    · intro _
      exact ⟨_, _, _, rfl, version, (Scan.ofUnits_faults_eq_nil_iff _ _).mp good, fit⟩
    · intro _
      rfl

/-- The flag is down whenever a unit is come upon, and what was found up to its end is told. -/
theorem unitsOf_reported (v : Visit) (hv : v ∈ unitsOf o ws) :
    v.before.failing = false ∧
      v.after.faults.map (LocatedFault.diagnostic p.name o.filename) <+:
        (liftWords p o ws).errors := by
  have hlink := linking_linkShader o ws
  rw [liftWords_eq]
  generalize linkShader o ws = outcome at hlink ⊢
  cases hlink with
  | noVersion => simp [unitsOf] at hv
  | notAShader other => simp [unitsOf, other] at hv
  | @badUnits w us env version bad =>
    rw [unitsOf_cons o version] at hv
    refine ⟨(Scan.run_readUnits env _ 1 us).cleared v hv, ?_⟩
    exact (Scan.after_isPrefix_ofUnits env us v hv).map _
  | @badInterface w us env version good | @linked w us env version good =>
    rw [unitsOf_cons o version] at hv
    refine ⟨(Scan.run_readUnits env _ 1 us).cleared v hv, ?_⟩
    have hnone := Scan.after_isPrefix_ofUnits env us v hv
    rw [good, List.prefix_nil] at hnone
    rw [hnone]
    exact List.nil_prefix

theorem linkShader_of_no_errors (h : (liftWords p o ws).errors = []) :
    ∃ w us env, ws = w :: us ∧ Env.ofWord? o w = some env ∧ (Scan.ofUnits env us).faults = [] ∧
      linkShader o ws = .ok (.ofUnits env us) := by
  have hlink := linking_linkShader o ws
  rw [liftWords_eq] at h
  generalize linkShader o ws = outcome at hlink h ⊢
  cases hlink with
  | noVersion => simp [Lifted.failed] at h
  | notAShader other => simp [Lifted.failed] at h
  | badUnits version bad => exact absurd (List.map_eq_nil_iff.mp h) bad
  | badInterface version good bad =>
    exact absurd (List.map_eq_nil_iff.mp (List.map_eq_nil_iff.mp h)) bad
  | linked version good fit => exact ⟨_, _, _, rfl, version, good, rfl⟩

theorem liftWords_of_no_errors (h : (liftWords p o ws).errors = []) :
    (∃ text, (liftWords p o ws).output = "#version " ++ text) ∧
      ((liftWords p o ws).stage = some .pixel ∨ (liftWords p o ws).stage = some .vertex) ∧
      (liftWords p o ws).version.packed ≤ (Version.mk 3 255).packed ∧
      ∃ v ∈ unitsOf o ws, v.words = [Word.endMark] := by
  obtain ⟨w, us, env, rfl, version, good, hlink⟩ := linkShader_of_no_errors p o ws h
  obtain ⟨v, hv, hword⟩ := Scan.exists_endMark_of_ofUnits good
  rw [liftWords_eq, hlink, unitsOf_cons o version]
  refine ⟨Glsl.program_version p o _, ?_, ?_, v, hv, v.words_of_endMark hword⟩
  · cases hstage : env.stage with
    | pixel => exact .inl (congrArg some hstage)
    | vertex => exact .inr (congrArg some hstage)
  · exact of_decide_eq_true (Scan.isSupported_of_ofUnits good)

end Lifting

/-- **All or nothing.**  With a fault the result holds the faults and nothing else, and without one a
program.  No fault gets lost, although the flag is down at the start of every unit. -/
theorem lift_all_or_nothing (p : Glsl.Profile) (o : Options) (ws : List Word) :
    ∃ r, lift? p.name o ws = some r ∧ r.profile = p ∧
      (r.errors ≠ [] → r = { profile := p, errors := r.errors }) ∧
      (r.errors = [] →
        (∃ text, r.output = "#version " ++ text) ∧
        (r.stage = some .pixel ∨ r.stage = some .vertex) ∧
        r.version.packed ≤ (Version.mk 3 255).packed ∧
        ∃ v ∈ unitsOf o ws, v.words = [Word.endMark]) ∧
      (∀ v ∈ unitsOf o ws, v.before.failing = false ∧
        v.after.faults.map (LocatedFault.diagnostic p.name o.filename) <+: r.errors) ∧
      (r.errors = [] ↔ ∃ w us env, ws = w :: us ∧ Env.ofWord? o w = some env ∧
        Scan.everFailing env us = false ∧
        Interface.faults env.toShader (Scan.ofUnits env us) = []) := by
  refine ⟨liftWords p o ws, by rw [lift?, ofName?_name, Option.map_some], ?_,
    liftWords_of_errors p o ws, liftWords_of_no_errors p o ws, unitsOf_reported p o ws,
    liftWords_errors_eq_nil_iff p o ws⟩
  rw [liftWords_eq]
  split <;> rfl

end ShaderLift
