/-
What a vertex shader passes to a pixel shader.  The two are lifted apart from each other, and each binds
its outputs or inputs to variables on its own account.  From shader model 3 on an output and an input
belong together if they are declared with the same usage and index, and then the variables should be
`Linked`.

They are, with three exceptions (`Binding.linked_iff`).  Position and point size are meant for the
rasterizer.  The third is fog: a vertex shader passes one number, in the variable that is built in for it
if there is one, and a pixel shader takes four from a varying.
-/
import ShaderLift.Proofs.DeclaredOnce

namespace ShaderLift

namespace Glsl

/-! ### Variables of both stages -/

/-- A variable of a vertex shader and one of a pixel shader through which a value is passed: a built-in
variable and its counterpart, or two varyings with one name and type. -/
inductive Linked : Binding → Binding → Prop
  | color : Linked (.builtin .frontColor) (.builtin .color)
  | secondaryColor : Linked (.builtin .frontSecondaryColor) (.builtin .secondaryColor)
  | fogCoordinate : Linked (.builtin .fogCoordinate) (.builtin .fogCoordinate)
  | texCoord (index : Nat) : Linked (.builtin (.texCoord index)) (.builtin (.texCoord index))
  | varying {v v' : Varying} (name : v.text = v'.text) (type : v.scalar = v'.scalar) :
      Linked (.varying v) (.varying v')

def IsPassed (usage : Usage) (index : Nat) : Prop :=
  usage ≠ .fog ∧ usage ≠ .pointSize ∧ (usage, index) ≠ (.position, 0)

namespace Binding

variable {p : Profile} {usage : Usage} {index : Nat}

theorem pixelBuiltin?_eq_none (p : Profile) (index : Nat) (hcolor : usage ≠ .color)
    (htexCoord : usage ≠ .texCoord) : pixelBuiltin? p usage index = none := by
  unfold pixelBuiltin?
  split
  · split
    · exact absurd rfl hcolor
    · exact absurd rfl hcolor
    · exact absurd rfl htexCoord
    · rfl
  · rfl

theorem not_isPassed_of_builtin {b : Builtin} (h : vertexBuiltin? p usage index = some b)
    (hcolor : usage ≠ .color) (htexCoord : usage ≠ .texCoord) : ¬ IsPassed usage index := by
  rintro ⟨hfog, hsize, hposition⟩
  unfold vertexBuiltin? at h
  split at h
  · exact hposition rfl
  · exact hsize rfl
  · exact hcolor rfl
  · exact hcolor rfl
  · exact hfog rfl
  · exact htexCoord rfl
  · cases h

theorem linked_varyings_iff (hvertex : vertexBuiltin? p usage index = none)
    (hpixel : pixelBuiltin? p usage index = none) :
    Linked (ofVertexOutput p usage index) (ofPixelInput p usage index) ↔ IsPassed usage index := by
  have hposition : (usage, index) ≠ (.position, 0) := by
    rintro ⟨⟩
    cases hvertex
  rw [ofVertexOutput, ofPixelInput, hvertex, hpixel]
  constructor
  · intro h
    cases h with
    | varying name type =>
      have htype : ¬ usage = .fog ∧ ¬ usage = .pointSize := by simpa using type
      exact ⟨htype.1, htype.2, hposition⟩
  · rintro ⟨hfog, hsize, -⟩
    refine .varying rfl ?_
    simp [hfog, hsize]

theorem linked_color (p : Profile) (index : Nat) :
    Linked (ofVertexOutput p .color index) (ofPixelInput p .color index) := by
  match index with
  | 0 => cases p <;> first | exact .color | exact .varying rfl rfl
  | 1 => cases p <;> first | exact .secondaryColor | exact .varying rfl rfl
  | index + 2 => cases p <;> exact .varying rfl rfl

theorem linked_texCoord (p : Profile) (index : Nat) :
    Linked (ofVertexOutput p .texCoord index) (ofPixelInput p .texCoord index) := by
  unfold ofVertexOutput ofPixelInput vertexBuiltin? pixelBuiltin?
  cases p.hasFixedFunction with
  | false => exact .varying rfl rfl
  | true =>
    by_cases hindex : index < 4
    · simp only [hindex, decide_true, Bool.and_self, if_true]
      exact .texCoord index
    · simp only [hindex, decide_false, Bool.and_false, if_true, if_false, Bool.false_eq_true]
      exact .varying rfl rfl

theorem linked_iff (p : Profile) (usage : Usage) (index : Nat) :
    Linked (ofVertexOutput p usage index) (ofPixelInput p usage index) ↔ IsPassed usage index := by
  by_cases hcolor : usage = .color
  · subst hcolor
    exact iff_of_true (linked_color p index) (by simp [IsPassed])
  by_cases htexCoord : usage = .texCoord
  · subst htexCoord
    exact iff_of_true (linked_texCoord p index) (by simp [IsPassed])
  have hpixel := pixelBuiltin?_eq_none p index hcolor htexCoord
  cases hvertex : vertexBuiltin? p usage index with
  | none => exact linked_varyings_iff hvertex hpixel
  | some b =>
    refine iff_of_false ?_ (not_isPassed_of_builtin hvertex hcolor htexCoord)
    rw [ofVertexOutput, ofPixelInput, hvertex, hpixel]
    intro h
    cases h

end Binding

/-! ### Outputs and inputs of shader model 3 -/

section Clean

variable {env : Env} {us : List Word} {e : Register × Attribute}

theorem declared_output (clean : (Scan.ofUnits env us).faults = [])
    (fits : Interface.Fits env.toShader (Scan.ofUnits env us)) (hstage : env.stage = .vertex)
    (hmodel : env.atLeast 3 0 = true)
    (he : e ∈ (LinkedShader.ofUnits env us).interface.attributes) (hout : e.1.file.isOutput = true) :
    e.1.file = .output ∧ e.2.usage ≠ .unknown := by
  have hsorted := (Scan.tablesSorted_ofUnits env us).attributes
  have hvertex : env.isVertex = true := by simp [Shader.isVertex, hstage]
  have hfile : e.1.file = .output := by
    have hknown := Interface.isVertexAttribute_of_faults (fits.attributes e he) hstage
    unfold Interface.isVertexAttribute at hknown
    cases hf : e.1.file <;> simp [hf, hmodel, RegisterFile.isOutput] at hknown hout ⊢
  refine ⟨hfile, ?_⟩
  rcases Interface.given_or_implied hsorted he with hgiven | ⟨hundeclared, -⟩
  · cases Scan.given_ofUnits clean _ _ hgiven with
    | declared d w rule register allowed sound usage index =>
      have hrule : Scan.declarationRule env.toShader w d = some (Scan.usageRule w) := by
        simp [Scan.declarationRule, hstage, hmodel, register, hfile]
      rw [hrule] at allowed
      cases allowed
      intro hunknown
      rw [hunknown] at usage
      exact absurd (Usage.code?_ofCode? usage) (by simp [Usage.code?])
    | coordinates h => exact absurd (hfile.symm.trans h.1) (by decide)
  · have hneeds := fits.outputs _ hundeclared
    simp [Interface.needsDeclaration, hvertex, hmodel, hout] at hneeds

theorem decls_output (hstage : env.stage = .vertex) (hmodel : env.atLeast 3 0 = true) (many : Bool)
    (hfile : e.1.file = .output) :
    attributeDecls env.toShader many e.1 e.2 = [.vertexOutput e.1 e.2.usage e.2.index] := by
  have hinput : ¬ e.1.file = .input := by
    rw [hfile]
    decide
  have hmeaning : outputMeaning env.toShader e.1 e.2 = (e.2.usage, e.2.index) := if_pos hmodel
  unfold attributeDecls
  rw [hstage, hmeaning]
  exact if_neg hinput

theorem usage_of_misc (hstage : env.stage = .pixel) (hmodel : env.atLeast 3 0 = true) {d : Dest} {w : Word}
    {rule : Scan.DeclarationRule} (hfile : d.register.file = .misc)
    (h : Scan.declarationRule env.toShader w d = some rule) : rule.declared.usage = some .unknown := by
  unfold Scan.declarationRule at h
  simp only [hstage, hmodel, hfile, if_true] at h
  split at h
  · cases h
    rfl
  · split at h
    · cases h
      rfl
    · cases h

theorem declared_input (clean : (Scan.ofUnits env us).faults = [])
    (fits : Interface.Fits env.toShader (Scan.ofUnits env us)) (hstage : env.stage = .pixel)
    (hmodel : env.atLeast 3 0 = true)
    (he : e ∈ (LinkedShader.ofUnits env us).interface.attributes) (hin : e.1.file.isOutput = false)
    (husage : e.2.usage ≠ .unknown) : e.1.file = .input ∨ e.1.file = .texture := by
  have hsorted := (Scan.tablesSorted_ofUnits env us).attributes
  have hknown := Interface.isPixelAttribute_of_faults (fits.attributes e he) hstage
  unfold Interface.isPixelAttribute at hknown
  cases hf : e.1.file with
  | input => exact .inl rfl
  | address => exact .inr rfl
  | misc =>
    exfalso
    -- Position and side are declared with a usage that is not known, and nothing is implied for them.
    rcases Interface.given_or_implied hsorted he with hgiven | ⟨-, himplied⟩
    · cases Scan.given_ofUnits clean _ _ hgiven with
      | declared d w rule register allowed sound usage index =>
        rw [usage_of_misc hstage hmodel (register ▸ hf) allowed] at usage
        exact husage (Option.some.inj usage).symm
      | coordinates h => exact absurd (hf.symm.trans h.1) (by decide)
    · simp [Interface.impliedAttribute?, hf, RegisterFile.isOutput] at himplied
  | colorOut | depthOut => simp [hf, RegisterFile.isOutput] at hin
  | _ => simp [hf] at hknown

theorem decls_input (hstage : env.stage = .pixel) (hmodel : env.atLeast 3 0 = true) (many : Bool)
    (hfile : e.1.file = .input ∨ e.1.file = .texture) :
    attributeDecls env.toShader many e.1 e.2 = [.pixelInput e.1 e.2.usage e.2.index] := by
  have hlater : env.atLeast 1 4 = true := by
    cases hold : env.atLeast 1 4 with
    | true => rfl
    | false =>
      rw [env.atLeast_eq_false_of_le hold (by decide)] at hmodel
      cases hmodel
  unfold attributeDecls
  rcases hfile with hfile | hfile
  · simp only [hstage, hfile]
  · simp only [hstage, hfile, hlater, Bool.not_true, Bool.and_false, if_false, Bool.false_eq_true]

end Clean

/-! ### Names of variables -/

/-- The program of a shader makes a name stand for a variable: it has the lines that do so, and no other
of its lines before the functions introduces the name. -/
def StandsFor (p : Profile) (o : Options) (ws : List Word) (name : String) (b : Binding) : Prop :=
  ∃ l, linkShader o ws = .ok l ∧
    (liftWords p o ws).output = unlines (sectionLines p o l) ++ functionsText o l ∧
    (∀ line ∈ b.lines p l.env.stage name, line ∈ sectionLines p o l) ∧
    ∀ branch, (introducedNames branch (sectionLines p o l)).count name = 1

section StandsFor

variable {env : Env} {us : List Word} (clean : (Scan.ofUnits env us).faults = [])
  (fits : Interface.Fits env.toShader (Scan.ofUnits env us))
include clean fits

theorem count_introducedNames {r : Register} {letters : String}
    (hr : r ∈ (declarations (.ofUnits env us)).filterMap Decl.register?)
    (hletters : r.file.letters? env.toShader = some letters)
    (hkind : Interface.constantKind? r = none) (branch : Nat) (p : Profile) (o : Options) :
    (introducedNames branch (sectionLines p o (.ofUnits env us))).count (r.name env.toShader) = 1 := by
  have hmem := (mem_programNames_iff branch p o (.ofUnits env us)).mpr hr
  have hknown := known_programNames fits branch p o
  -- Homonyms lack letters of their own, so no other name is spelled like this one.
  have honly : ∀ n ∈ programNames branch p o (.ofUnits env us),
      some (n.text env.toShader) = some (r.name env.toShader) → n = .register r := by
    intro n hn htext
    rcases Name.eq_or_homonyms (hknown n hn) (hknown _ hmem) (Option.some.inj htext) with
      rfl | ⟨x, y, rfl, hy, hhomonyms⟩
    · rfl
    · cases hy
      rw [hhomonyms.letters?_eq_none] at hletters
      cases hletters
  have honce : ¬ (introducedNames branch (sectionLines p o (.ofUnits env us))).Duplicate
      (r.name env.toShader) := by
    rw [introducedNames_sectionLines, ← List.filterMap_eq_map, duplicate_filterMap_iff]
    rintro (⟨n, htext, hduplicate⟩ | ⟨n, hn, m, hm, hne, htext, htext'⟩)
    -- Only registers of constants are introduced twice.
    · rw [honly n hduplicate.mem htext, duplicate_register_iff clean fits] at hduplicate
      obtain ⟨c, -, rfl⟩ := List.mem_map.mp hduplicate.mem
      unfold Constant.register Interface.constantKind? at hkind
      cases hc : c.kind <;> simp [hc, ConstantKind.file] at hkind
    · exact hne ((honly n hn htext).trans (honly m hm htext').symm)
  have hpos : 0 < (introducedNames branch (sectionLines p o (.ofUnits env us))).count
      (r.name env.toShader) := by
    rw [List.count_pos_iff, introducedNames_sectionLines]
    exact List.mem_map.mpr ⟨_, hmem, rfl⟩
  rw [List.duplicate_iff_two_le_count] at honce
  omega

theorem standsFor_of_mem {p : Profile} {o : Options} {ws : List Word}
    (hlink : linkShader o ws = .ok (.ofUnits env us)) {d : Decl} {r : Register} {letters : String}
    (hd : d ∈ declarations (.ofUnits env us)) (hregister : d.register? = some r)
    (hletters : r.file.letters? env.toShader = some letters)
    (hkind : Interface.constantKind? r = none) {b : Binding}
    (hlines : d.lines p env.toShader = b.lines p env.stage (r.name env.toShader)) :
    StandsFor p o ws (r.name env.toShader) b := by
  have hr : r ∈ (declarations (.ofUnits env us)).filterMap Decl.register? :=
    List.mem_filterMap.mpr ⟨d, hd, hregister⟩
  refine ⟨_, hlink, output_eq_sections hlink, fun line hline => ?_, fun branch => ?_⟩
  · have hglobal : line ∈ declarationLines p (.ofUnits env us) :=
      List.mem_flatMap.mpr ⟨d, hd, hlines ▸ hline⟩
    rw [sectionLines, textLines_globals]
    simp [hglobal]
  · exact count_introducedNames clean fits hr hletters hkind branch p o

end StandsFor

end Glsl

/-! ### Programs -/

/-- The result for a shader without a fault, of model 3 or a later one. -/
structure Lifted.IsModern (l : Lifted) (stage : Stage) : Prop where
  clean : l.errors = []
  stage : l.stage = some stage
  model : l.version.atLeast 3 0 = true

namespace Glsl

variable {p : Profile} {o : Options} {ws : List Word}

theorem linked_of_isModern {stage : Stage} (h : (liftWords p o ws).IsModern stage) :
    ∃ env us, linkShader o ws = .ok (.ofUnits env us) ∧ (Scan.ofUnits env us).faults = [] ∧
      Interface.Fits env.toShader (Scan.ofUnits env us) ∧ env.stage = stage ∧
      env.atLeast 3 0 = true := by
  obtain ⟨env, us, hlink, hclean, hfits⟩ := linked_of_no_errors h.clean
  have hlifted : liftWords p o ws = (LinkedShader.ofUnits env us).lifted p o := by
    rw [liftWords_eq, hlink]
  refine ⟨env, us, hlink, hclean, hfits, ?_, ?_⟩
  · have hstage := h.stage
    rw [hlifted] at hstage
    exact Option.some.inj hstage
  · have hmodel := h.model
    rw [hlifted] at hmodel
    exact hmodel

/-- An output of a vertex shader stands for the variable that its usage and index give. -/
theorem standsFor_output (h : (liftWords p o ws).IsModern .vertex) {a : AttributeBinding}
    (ha : a ∈ (liftWords p o ws).outputs) :
    a.usage ≠ .unknown ∧ StandsFor p o ws a.name (.ofVertexOutput p a.usage a.index) := by
  obtain ⟨env, us, hlink, hclean, hfits, hstage, hmodel⟩ := linked_of_isModern h
  rw [liftWords_eq, hlink] at ha
  obtain ⟨e, he, rfl⟩ := List.mem_map.mp ha
  obtain ⟨he, hout⟩ := List.mem_filter.mp he
  obtain ⟨hfile, husage⟩ := declared_output hclean hfits hstage hmodel he (by simpa using hout)
  have hd := mem_declarations_of_attribute he (decls_output hstage hmodel _ hfile)
  have hkind : Interface.constantKind? e.1 = none := by simp [Interface.constantKind?, hfile]
  obtain ⟨letters, hletters⟩ : ∃ letters, e.1.file.letters? env.toShader = some letters :=
    ⟨_, by rw [hfile]; rfl⟩
  exact ⟨husage, standsFor_of_mem hclean hfits hlink hd rfl hletters hkind rfl⟩

/-- An input of a pixel shader stands for the variable that its usage and index give, if they are
known. -/
theorem standsFor_input (h : (liftWords p o ws).IsModern .pixel) {a : AttributeBinding}
    (ha : a ∈ (liftWords p o ws).attributes) (husage : a.usage ≠ .unknown) :
    StandsFor p o ws a.name (.ofPixelInput p a.usage a.index) := by
  obtain ⟨env, us, hlink, hclean, hfits, hstage, hmodel⟩ := linked_of_isModern h
  rw [liftWords_eq, hlink] at ha
  obtain ⟨e, he, rfl⟩ := List.mem_map.mp ha
  obtain ⟨he, hin⟩ := List.mem_filter.mp he
  have hfile := declared_input hclean hfits hstage hmodel he (by simpa using hin) husage
  have hd := mem_declarations_of_attribute he (decls_input hstage hmodel _ hfile)
  have hkind : Interface.constantKind? e.1 = none := by
    rcases hfile with hfile | hfile <;> simp [Interface.constantKind?, hfile]
  obtain ⟨letters, hletters⟩ : ∃ letters, e.1.file.letters? env.toShader = some letters := by
    rcases hfile with hfile | hfile <;> exact ⟨_, by rw [hfile]; rfl⟩
  exact standsFor_of_mem hclean hfits hlink hd rfl hletters hkind rfl

end Glsl

open Glsl in
/-- **From stage to stage.**  If an output of a vertex shader and an input of a pixel shader, both of model
3, have the same usage and index, each program makes a name stand for one variable, and these two are linked
exactly if the usage is neither fog nor the point size and they are not the first position. -/
theorem lift_stages_linked_iff (p : Profile) (o o' : Options) (ws ws' : List Word)
    (vertex : (liftWords p o ws).IsModern .vertex) (pixel : (liftWords p o' ws').IsModern .pixel)
    (a b : AttributeBinding) (ha : a ∈ (liftWords p o ws).outputs)
    (hb : b ∈ (liftWords p o' ws').attributes) (usage : a.usage = b.usage) (index : a.index = b.index) :
    ∃ x y, StandsFor p o ws a.name x ∧ StandsFor p o' ws' b.name y ∧
      (Linked x y ↔ IsPassed a.usage a.index) := by
  obtain ⟨husage, houtput⟩ := standsFor_output vertex ha
  have hinput := standsFor_input pixel hb (usage ▸ husage)
  rw [← usage, ← index] at hinput
  exact ⟨_, _, houtput, hinput, Binding.linked_iff p a.usage a.index⟩

/-- A vertex shader that puts out a position and the sixth texture coordinates. -/
def texturedVertex : List Word :=
  [0xFFFE0300, 0x0200001F, 0x80000000, 0xE00F0000, 0x0200001F, 0x80050005, 0xE00F0001,
    0x02000001, 0xE00F0000, 0xA0E40000, 0x02000001, 0xE00F0001, 0xA0E40001, 0xFFFF]

/-- A pixel shader that takes the sixth texture coordinates for a colour. -/
def coordinateColor : List Word :=
  [0xFFFF0300, 0x0200001F, 0x80050005, 0x900F0003, 0x02000001, 0x800F0800, 0x90E40003, 0xFFFF]

open Glsl in
theorem stages_linked_iff_coordinateColor :
    (liftWords .glsl110 {} texturedVertex).IsModern .vertex ∧
      (liftWords .glsl110 {} coordinateColor).IsModern .pixel ∧
      ⟨.texCoord, 5, "vs_o1"⟩ ∈ (liftWords .glsl110 {} texturedVertex).outputs ∧
      ⟨.texCoord, 5, "ps_v3"⟩ ∈ (liftWords .glsl110 {} coordinateColor).attributes ∧
      ∃ x y, StandsFor .glsl110 {} texturedVertex "vs_o1" x ∧
        StandsFor .glsl110 {} coordinateColor "ps_v3" y ∧ (Linked x y ↔ IsPassed .texCoord 5) := by
  have vertex : (liftWords .glsl110 {} texturedVertex).IsModern .vertex :=
    ⟨by decide +kernel, by decide +kernel, by decide +kernel⟩
  have pixel : (liftWords .glsl110 {} coordinateColor).IsModern .pixel :=
    ⟨by decide +kernel, by decide +kernel, by decide +kernel⟩
  have ha : ⟨.texCoord, 5, "vs_o1"⟩ ∈ (liftWords .glsl110 {} texturedVertex).outputs := by
    decide +kernel
  have hb : ⟨.texCoord, 5, "ps_v3"⟩ ∈ (liftWords .glsl110 {} coordinateColor).attributes := by
    decide +kernel
  exact ⟨vertex, pixel, ha, hb,
    lift_stages_linked_iff .glsl110 {} {} texturedVertex coordinateColor vertex pixel
      ⟨.texCoord, 5, "vs_o1"⟩ ⟨.texCoord, 5, "ps_v3"⟩ ha hb rfl rfl⟩

/-- A vertex shader that puts fog out. -/
def fogOutput : List Word :=
  [0xFFFE0300, 0x0200001F, 0x8000000B, 0xE00F0000, 0x02000001, 0xE00F0000, 0xA0E40000, 0xFFFF]

/-- A pixel shader that takes fog for a colour. -/
def fogInput : List Word :=
  [0xFFFF0300, 0x0200001F, 0x8000000B, 0x900F0000, 0x02000001, 0x800F0800, 0x90E40000, 0xFFFF]

open Glsl in
/-- Fog is put out through the variable that is built in for it, but not taken from there. -/
theorem fogInput_not_linked :
    (liftWords .glsl110 {} fogOutput).IsModern .vertex ∧
      (liftWords .glsl110 {} fogInput).IsModern .pixel ∧
      ⟨.fog, 0, "vs_o0"⟩ ∈ (liftWords .glsl110 {} fogOutput).outputs ∧
      ⟨.fog, 0, "ps_v0"⟩ ∈ (liftWords .glsl110 {} fogInput).attributes ∧
      StandsFor .glsl110 {} fogOutput "vs_o0" (.builtin .fogCoordinate) ∧
      StandsFor .glsl110 {} fogInput "ps_v0" (.varying ⟨.fog, 0, false⟩) ∧
      ¬ Linked (.builtin .fogCoordinate) (.varying ⟨.fog, 0, false⟩) := by
  have vertex : (liftWords .glsl110 {} fogOutput).IsModern .vertex :=
    ⟨by decide +kernel, by decide +kernel, by decide +kernel⟩
  have pixel : (liftWords .glsl110 {} fogInput).IsModern .pixel :=
    ⟨by decide +kernel, by decide +kernel, by decide +kernel⟩
  have ha : ⟨.fog, 0, "vs_o0"⟩ ∈ (liftWords .glsl110 {} fogOutput).outputs := by decide +kernel
  have hb : ⟨.fog, 0, "ps_v0"⟩ ∈ (liftWords .glsl110 {} fogInput).attributes := by decide +kernel
  refine ⟨vertex, pixel, ha, hb, (standsFor_output vertex ha).2, standsFor_input pixel hb ?_, ?_⟩
  · simp
  · intro h
    cases h

end ShaderLift
