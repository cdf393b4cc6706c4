/-
How reading a shader and making its interface out can end.  `Linking` has one case for each way: there is
no version, it is not that of a shader, something is wrong with the units or with the interface, or
nothing is. A shader that is linked was read up to its end mark, and no unit of it has a fault.
-/
import ShaderLift.Proofs.Visits

namespace ShaderLift

namespace Scan

variable {s t : Scan} {env : Env} {n : Nat} {ws : List Word} {vs : List Visit}

theorem invariant_cutOff (env : Env) :
    Invariant env fun s => s.truncated = true → s.faults ≠ [] where
  move h hs ht := by
    rw [h.marks_eq.2] at ht
    exact h.records.faults_ne_nil (hs ht)
  startUnit _ hs := hs
  ended hs := hs
  cutOff _ _ := by simp [cutOff, fail]

theorem Run.exists_endMark (r : Run env s n ws vs t) (hs : s.ended = false) (ht : t.ended = true) :
    ∃ v ∈ vs, v.word = Word.endMark := by
  induction r with
  | done => exact absurd ht (by simp [hs])
  | cut s n w ws | stop s n w ws =>
    have h := (visit env s n w ws).ended_after
    rw [show (visit env s n w ws).after.ended = true from ht,
      show (visit env s n w ws).before.ended = false from hs] at h
    exact ⟨_, List.mem_cons_self, by simpa using h.symm⟩
  | next s n w ws _ _ _ ih =>
    by_cases hw : w = Word.endMark
    · exact ⟨_, List.mem_cons_self, hw⟩
    · have h : (visit env s n w ws).after.ended = false := by
        rw [Visit.ended_after, show (visit env s n w ws).before.ended = false from hs]
        exact beq_false_of_ne hw
      obtain ⟨v, hv, hword⟩ := ih h ht
      exact ⟨v, List.mem_cons_of_mem _ hv, hword⟩

/-! ### Whole shaders -/

/-- Whether the flag was up at any time: before the first unit, after one of them, or in the end. -/
def everFailing (env : Env) (ws : List Word) : Bool :=
  (start env).failing || (visits env (start env) 1 ws).any (fun v => v.after.failing)
    || (ofUnits env ws).failing

theorem start_flag (env : Env) : (start env).failing = true → (start env).faults ≠ [] :=
  (invariant_flag env).start (fun hb => nomatch hb)

/-- A shader has no fault exactly if the flag was never up. -/
theorem ofUnits_faults_eq_nil_iff (env : Env) (ws : List Word) :
    (ofUnits env ws).faults = [] ↔ everFailing env ws = false := by
  have hstart := (moves_start env).records.faults_eq_nil_iff (fun hb => nomatch hb)
  have hrun := (run_readUnits env (start env) 1 ws).faults_eq_nil_iff (start_flag env)
  have hflag := ((invariant_flag env).run (run_readUnits env (start env) 1 ws) (start_flag env)).2
  have hfinish := (moves_finish env (readUnits env (start env) 1 ws)).records.faults_eq_nil_iff hflag
  unfold everFailing
  rw [Bool.or_eq_false_iff, Bool.or_eq_false_iff, List.any_eq_false]
  simp only [Bool.not_eq_true]
  constructor
  · intro h
    obtain ⟨hread, hend⟩ := hfinish.mp h
    obtain ⟨hs, hvs, -⟩ := hrun.mp hread
    exact ⟨⟨(hstart.mp hs).2, hvs⟩, hend⟩
  · rintro ⟨⟨hs, hvs⟩, hend⟩
    -- the flag at the end of the last unit is still up at the very end
    have hread : (readUnits env (start env) 1 ws).failing = false := by
      obtain ⟨new, -, hb⟩ := (moves_finish env (readUnits env (start env) 1 ws)).records
      exact (Bool.or_eq_false_iff.mp (hb.symm.trans hend)).1
    exact hfinish.mpr ⟨hrun.mpr ⟨hstart.mpr ⟨rfl, hs⟩, hvs, hread⟩, hend⟩

/-- What was found up to some unit of a shader is what is found in the end, as far as it goes. -/
theorem after_isPrefix_ofUnits (env : Env) (ws : List Word) :
    ∀ v ∈ visits env (start env) 1 ws, v.after.faults <+: (ofUnits env ws).faults := by
  intro v hv
  refine ((run_readUnits env (start env) 1 ws).after_isPrefix v hv).trans ?_
  exact (moves_finish env _).records.isPrefix

theorem isSupported_of_ofUnits (h : (ofUnits env ws).faults = []) :
    env.version.isSupported = true := by
  have hs : (start env).faults <+: (ofUnits env ws).faults :=
    (invariant_isPrefix env _).moves (moves_finish env _)
      ((invariant_isPrefix env _).run (run_readUnits env (start env) 1 ws) (List.prefix_refl _)).2
  rw [h, List.prefix_nil] at hs
  cases hv : env.version.isSupported with
  | true => rfl
  | false => simp [start, failIf, fail, hv] at hs

theorem ended_of_finish (h : (finish env s).faults = []) :
    s.ended = true ∨ s.truncated = true := by
  have hn : ((s.moveTo .after).failIf (!s.ended && !s.truncated) .noEnd).faults = [] := by
    have hm : Moves env _ (finish env s) := .failIf .refl _ _
    exact hm.records.faults_eq_nil h
  cases he : s.ended with
  | true => exact .inl rfl
  | false =>
    cases ht : s.truncated with
    | true => exact .inr rfl
    | false => simp [failIf, fail, he, ht] at hn

theorem readUnits_of_ofUnits (h : (ofUnits env ws).faults = []) :
    (readUnits env (start env) 1 ws).faults = [] :=
  (moves_finish env _).records.faults_eq_nil h

theorem ended_of_ofUnits (h : (ofUnits env ws).faults = []) :
    (readUnits env (start env) 1 ws).ended = true := by
  rcases ended_of_finish h with hend | hcut
  · exact hend
  · have hkeep := ((invariant_cutOff env).run (run_readUnits env (start env) 1 ws)
      (fun ht => absurd ((moves_start env).marks_eq.2.symm.trans ht) (by simp))).2
    exact absurd (readUnits_of_ofUnits h) (hkeep hcut)

theorem exists_endMark_of_ofUnits (h : (ofUnits env ws).faults = []) :
    ∃ v ∈ visits env (start env) 1 ws, v.word = Word.endMark :=
  (run_readUnits env (start env) 1 ws).exists_endMark (moves_start env).marks_eq.1 (ended_of_ofUnits h)

end Scan

/-! ### Linking -/

/-- What the units of a shader and its interface make up. -/
def LinkedShader.ofUnits (env : Env) (us : List Word) : LinkedShader where
  env := env
  scan := Scan.ofUnits env us
  interface := Interface.ofScan env.toShader (Scan.ofUnits env us)

/-- How reading a shader and making its interface out can end. -/
inductive Linking (o : Options) : List Word → Except (List LocatedFault) LinkedShader → Prop
  | noVersion : Linking o [] (.error [⟨.before, .noVersion⟩])
  | notAShader {w : Word} {us : List Word} (other : Env.ofWord? o w = none) :
      Linking o (w :: us) (.error [⟨.before, .notAShader⟩])
  | badUnits {w : Word} {us : List Word} {env : Env} (version : Env.ofWord? o w = some env)
      (bad : (Scan.ofUnits env us).faults ≠ []) :
      Linking o (w :: us) (.error (Scan.ofUnits env us).faults)
  | badInterface {w : Word} {us : List Word} {env : Env} (version : Env.ofWord? o w = some env)
      (good : (Scan.ofUnits env us).faults = [])
      (bad : Interface.faults env.toShader (Scan.ofUnits env us) ≠ []) :
      Linking o (w :: us)
        (.error ((Interface.faults env.toShader (Scan.ofUnits env us)).map fun f => ⟨.after, f⟩))
  | linked {w : Word} {us : List Word} {env : Env} (version : Env.ofWord? o w = some env)
      (good : (Scan.ofUnits env us).faults = [])
      (fit : Interface.faults env.toShader (Scan.ofUnits env us) = []) :
      Linking o (w :: us) (.ok (.ofUnits env us))

theorem linkShader_eq_ok {o : Options} {w : Word} {us : List Word} {env : Env}
    (version : Env.ofWord? o w = some env) (good : (Scan.ofUnits env us).faults = [])
    (fit : Interface.faults env.toShader (Scan.ofUnits env us) = []) :
    linkShader o (w :: us) = .ok (.ofUnits env us) := by
  simp [linkShader, scanShader, version, good, bind, Except.bind, ScannedShader.link, fit,
    LinkedShader.ofUnits]

theorem interface_of_linkShader {o : Options} {w : Word} {us : List Word} {env : Env}
    {l : LinkedShader} (version : Env.ofWord? o w = some env)
    (good : (Scan.ofUnits env us).faults = []) (h : linkShader o (w :: us) = .ok l) :
    Interface.faults env.toShader (Scan.ofUnits env us) = [] := by
  by_cases hi : Interface.faults env.toShader (Scan.ofUnits env us) = []
  · exact hi
  · simp [linkShader, scanShader, version, good, bind, Except.bind, ScannedShader.link, hi] at h

theorem linking_linkShader (o : Options) (ws : List Word) : Linking o ws (linkShader o ws) := by
  cases ws with
  | nil => exact .noVersion
  | cons w us =>
    cases hv : Env.ofWord? o w with
    | none =>
      have h : linkShader o (w :: us) = .error [⟨.before, .notAShader⟩] := by
        simp [linkShader, scanShader, hv, bind, Except.bind]
      rw [h]
      exact .notAShader hv
    | some env =>
      by_cases hf : (Scan.ofUnits env us).faults = []
      · by_cases hi : Interface.faults env.toShader (Scan.ofUnits env us) = []
        · rw [linkShader_eq_ok hv hf hi]
          exact .linked hv hf hi
        · have h : linkShader o (w :: us) = .error
              ((Interface.faults env.toShader (Scan.ofUnits env us)).map fun f => ⟨.after, f⟩) := by
            simp [linkShader, scanShader, hv, hf, bind, Except.bind, ScannedShader.link, hi]
          rw [h]
          exact .badInterface hv hf hi
      · have h : linkShader o (w :: us) = .error (Scan.ofUnits env us).faults := by
          simp [linkShader, scanShader, hv, hf, bind, Except.bind]
        rw [h]
        exact .badUnits hv hf

end ShaderLift
