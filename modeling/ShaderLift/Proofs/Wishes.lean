/-
What a result owes to the wishes of a caller.  Swizzles, samplers and whether the length of the code is
known have a say in how a shader is read.  The others only come in where text is put out: the name of the
entry point before the first unit, two lines where the entry point of a vertex shader is closed, and a
uniform at the end; and the name of the file is copied to the diagnostics.  So two callers that agree on
the former three have translations that stay in step.
-/
import ShaderLift.Proofs.AllOrNothing

namespace ShaderLift

open Glsl

variable {l : LinkedShader} {o o' : Options} {faults : List LocatedFault}

/-- Two callers that want shaders to be read alike. -/
structure Options.ReadAlike (o o' : Options) : Prop where
  swizzles : o.swizzles = o'.swizzles
  samplers : o.samplers = o'.samplers
  knownSize : o.knownSize = o'.knownSize

/-! ### Reading -/

namespace Options.ReadAlike

variable {o o' : Options} (h : o.ReadAlike o')
include h

theorem ofWord?_eq (w : Word) : Env.ofWord? o w = Env.ofWord? o' w := by
  rw [Env.ofWord?, Env.ofWord?, h.swizzles, h.samplers, h.knownSize]

theorem linkShader_eq (ws : List Word) : linkShader o ws = linkShader o' ws := by
  cases ws with
  | nil => rfl
  | cons w us => rw [linkShader, linkShader, scanShader, scanShader, h.ofWord?_eq]

end Options.ReadAlike

theorem faults_of_linkShader {ws : List Word} (h : linkShader o ws = .error faults) : faults ≠ [] := by
  have hlinking := linking_linkShader o ws
  rw [h] at hlinking
  cases hlinking with
  | noVersion | notAShader => exact List.cons_ne_nil _ _
  | badUnits version bad => exact bad
  | badInterface version good bad => exact fun hnone => bad (List.map_eq_nil_iff.mp hnone)

/-! ### Text -/

theorem preface_of_not_vertex (h : l.env.isVertex = false) (p : Profile) (o o' : Options) :
    preface p o l = preface p o' l := by
  have hflip : ∀ q : Options, (q.flipRenderTarget && l.env.toShader.isVertex) = false := by
    intro q
    rw [h, Bool.and_false]
  unfold preface sizeLayout
  dsimp only
  rw [hflip o, hflip o']

theorem epilogue_of_not_vertex {sh : Shader} (h : sh.isVertex = false) (o : Options) :
    epilogue o sh = [] := by
  rw [epilogue, h, if_neg Bool.false_ne_true]

theorem intro_of_mainName (h : o.mainName = o'.mainName) (l : LinkedShader) :
    Glsl.intro o l = Glsl.intro o' l := by
  unfold Glsl.intro Options.entryPoint
  rw [h]

theorem program_of_not_vertex (h : l.env.isVertex = false) (hmain : o.mainName = o'.mainName)
    (p : Profile) : program p o l = program p o' l := by
  have hbodies : bodies o l.env.toShader l.scan.code = bodies o' l.env.toShader l.scan.code := by
    unfold bodies
    rw [epilogue_of_not_vertex h, epilogue_of_not_vertex h]
  unfold program
  rw [hbodies, preface_of_not_vertex h p o o', intro_of_mainName hmain]

/-! ### Results -/

/-- Two results that differ as the wishes `o` and `o'` do. -/
structure Lifted.DifferAs (o o' : Options) (r r' : Lifted) : Prop where
  success : r.errors = [] ↔ r'.errors = []
  /-- The diagnostics are equal but for the name of the file, which is the one given. -/
  errors : r'.errors = r.errors.map fun d => { d with filename := o'.filename }
  filename : ∀ d ∈ r.errors, d.filename = o.filename
  /-- All that the host is told is equal but for the name of the entry point. -/
  fields : r' = { r with output := r'.output, mainName := r'.mainName, errors := r'.errors }
  mainName : r.errors = [] → r.mainName = o.entryPoint ∧ r'.mainName = o'.entryPoint
  output : r.stage = some .pixel → o.mainName = o'.mainName → r.output = r'.output

theorem differAs_failed (p : Profile) (o o' : Options) (hfaults : faults ≠ []) :
    Lifted.DifferAs o o' (.failed p o faults) (.failed p o' faults) where
  success := by
    show faults.map _ = [] ↔ faults.map _ = []
    rw [List.map_eq_nil_iff, List.map_eq_nil_iff]
  errors := by
    show faults.map _ = (faults.map _).map _
    rw [List.map_map]
    rfl
  filename := by
    intro d hd
    obtain ⟨f, -, rfl⟩ := List.mem_map.mp hd
    rfl
  fields := rfl
  mainName hnone := absurd (List.map_eq_nil_iff.mp hnone) hfaults
  output _ _ := rfl

theorem differAs_lifted (p : Profile) (h : o.ReadAlike o') (l : LinkedShader) :
    Lifted.DifferAs o o' (l.lifted p o) (l.lifted p o') where
  success := Iff.rfl
  errors := rfl
  filename := by
    intro d hd
    cases hd
  fields := by
    unfold LinkedShader.lifted LinkedShader.liftedAs
    rw [h.swizzles]
  mainName _ := ⟨rfl, rfl⟩
  output hpixel hmain := by
    refine program_of_not_vertex ?_ hmain p
    have hstage : l.env.stage = .pixel := Option.some.inj hpixel
    rw [Shader.isVertex, hstage]
    rfl

/-- **Cosmetic wishes change the text alone.**  Callers that agree on swizzles, samplers and whether the
length of the code is known have translations that stay in step and get results that are equal but for the
text and the names of the file and of the entry point; the text of a pixel shader is equal if the latter
name is. -/
theorem lift_ignores_cosmetic_wishes (profile : String) (o o' : Options) (h : o.ReadAlike o')
    (ws : List Word) :
    (∀ p, StayInStep p p o o' ws) ∧
      ((lift? profile o ws = none ∧ lift? profile o' ws = none) ∨
        ∃ r r', lift? profile o ws = some r ∧ lift? profile o' ws = some r' ∧
          Lifted.DifferAs o o' r r') := by
  refine ⟨fun p => stayInStep h.ofWord?_eq p p ws, ?_⟩
  unfold lift?
  cases Profile.ofName? profile with
  | none => exact .inl ⟨rfl, rfl⟩
  | some p =>
    refine .inr ⟨_, _, rfl, rfl, ?_⟩
    -- both translations come to the same shader; its text is looked at afterwards
    dsimp only
    rw [liftWords_eq, liftWords_eq, ← h.linkShader_eq]
    cases hlink : linkShader o ws with
    | error faults => exact differAs_failed p o o' (faults_of_linkShader hlink)
    | ok l => exact differAs_lifted p h l

def uniformColor : List Word := [0xFFFF0200, 0x02000001, 0x800F0800, 0xA0E40000, 0xFFFF]

/-- Two callers with different cosmetic wishes. -/
def flipping : Options := { filename := some "a", flipRenderTarget := true }

def clipping : Options := { filename := some "b", depthClipping := true }

theorem wishes_ignored_in_uniformColor :
    flipping.ReadAlike clipping ∧ StayInStep .glsl110 .glsl110 flipping clipping uniformColor ∧
      ∃ r r', lift? "glsl" flipping uniformColor = some r ∧
      lift? "glsl" clipping uniformColor = some r' ∧ Lifted.DifferAs flipping clipping r r' ∧
      r.errors = [] ∧ r.output = r'.output := by
  have halike : flipping.ReadAlike clipping := ⟨rfl, rfl, rfl⟩
  have hpixel : (lift? "glsl" flipping uniformColor).map (fun r => (r.stage, r.errors.length)) =
      some (some .pixel, 0) := by decide +kernel
  obtain ⟨hstep, hresults⟩ := lift_ignores_cosmetic_wishes "glsl" flipping clipping halike uniformColor
  rcases hresults with ⟨hnone, -⟩ | ⟨r, r', hr, hr', hdiffer⟩
  · rw [hnone] at hpixel
    cases hpixel
  · rw [hr] at hpixel
    obtain ⟨hstage, hlength⟩ := Prod.mk.inj (Option.some.inj hpixel)
    exact ⟨halike, hstep _, r, r', hr, hr', hdiffer, List.length_eq_zero_iff.mp hlength,
      hdiffer.output hstage rfl⟩

end ShaderLift
