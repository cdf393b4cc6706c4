/-
The registers that code names, and their declarations.  The code of a shader names registers that are
recorded in the end (`Scan.Run.bound`).  Each of these has a declaration of some kind: a constant that the
code defines, a variable, a constant of the host, a sampler, or an input or output with its meaning.
There are two exceptions (`Stray`): the counter of a loop where it is an operand of its own, and a texture
register of a later pixel shader that the code does not declare.  Where the counter is an index it has no
name as a register; `Proofs/Scopes` is about that.
-/
import ShaderLift.Proofs.Names
import ShaderLift.Proofs.Packing

namespace ShaderLift

theorem Shader.isVertex_eq_not_isPixel (sh : Shader) : sh.isVertex = !sh.isPixel := by
  cases h : sh.stage <;> simp [isVertex, isPixel, h]

/-! ### The registers that code names -/

namespace Glsl

/-- The register that a name is the name of.  The counter of a loop has a name of its own. -/
def Ident.registers : Ident → List Register
  | .register r => [r]
  | _ => []

/-- The registers whose names are in the text of an expression. -/
def Expr.registers : Expr → List Register
  | .number _ => []
  | .name n => n.registers
  | .lanes e _ | .negate e | .not e | .group e | .call _ e => e.registers
  | .element array index => array.registers ++ index.registers
  | .binary _ a b | .args a b => a.registers ++ b.registers
  | .choose test a b => test.registers ++ a.registers ++ b.registers
  | .lookup _ _ stage a => sampler stage :: a.registers

def Stmt.registers : Stmt → List Register
  | .assign t e => t.register :: e.registers
  | .vector3 n e => n.registers ++ e.registers
  | .call label _ | .openFunction label _ => [⟨.label, label⟩]
  | .callIf e label _ => e.registers ++ [⟨.label, label⟩]
  | .openLoop r | .killIfNegative r => [r]
  | .openRep _ e | .openIf e | .leaveIf e => e.registers
  | .closeLoop | .openElse | .closeBlock | .leave | .closeFunction => []

section Within

variable {K : Register → Prop}

theorem Ident.Within.registers {n : Ident} (h : n.Within K) : ∀ r ∈ n.registers, K r := by
  cases n with
  | register x =>
    intro r hr
    rw [List.mem_singleton.mp hr]
    exact h
  | _ => exact fun r hr => absurd hr List.not_mem_nil

theorem Expr.Within.registers {e : Expr} (h : e.Within K) : ∀ r ∈ e.registers, K r := by
  induction e with
  | number t => exact fun r hr => absurd hr List.not_mem_nil
  | name n => exact Ident.Within.registers h
  | lanes e ls ih | negate e ih | not e ih | group e ih => exact ih h
  | element array index ih => exact List.forall_mem_append.mpr ⟨h.1.registers, ih h.2⟩
  | binary op a b iha ihb | args a b iha ihb =>
    exact List.forall_mem_append.mpr ⟨iha h.1, ihb h.2⟩
  | choose test a b ih iha ihb =>
    have htest := List.forall_mem_append.mpr ⟨ih h.1, iha h.2.1⟩
    exact List.forall_mem_append.mpr ⟨htest, ihb h.2.2⟩
  | call f a ih => exact ih h.2
  | lookup kind form stage a ih => exact List.forall_mem_cons.mpr ⟨h.1, ih h.2⟩

theorem Stmt.Within.registers {c : Stmt} (h : c.Within K) :
    ∀ r ∈ c.registers, r.file ≠ .label → K r := by
  intro r hr hfile
  have hlabel : ∀ label, r ≠ ⟨.label, label⟩ := by
    rintro label rfl
    exact hfile rfl
  cases c with
  | assign t e =>
    rcases List.mem_cons.mp hr with rfl | hr
    · exact h.1
    · exact h.2.registers r hr
  | vector3 n e =>
    rcases List.mem_append.mp hr with hr | hr
    · cases n with
      | register x => exact absurd rfl (h.1 x)
      | _ => cases hr
    · exact h.2.registers r hr
  | call label counter | openFunction label counter =>
    exact absurd (List.mem_singleton.mp hr) (hlabel label)
  | callIf e label counter =>
    rcases List.mem_append.mp hr with hr | hr
    · exact Expr.Within.registers h r hr
    · exact absurd (List.mem_singleton.mp hr) (hlabel label)
  | openLoop x | killIfNegative x =>
    rw [List.mem_singleton.mp hr]
    exact h
  | openRep depth e | openIf e | leaveIf e => exact Expr.Within.registers h r hr
  | closeLoop | openElse | closeBlock | leave | closeFunction => cases hr

end Within

/-! ### The registers that declarations introduce -/

def Local.register : Local → Register
  | .face r | .position r => r

def declarators : List String :=
  ["vec4", "ivec4", "bool", "bvec4", "float", "const vec4", "const ivec4", "const bool",
    "uniform sampler2D", "uniform samplerCube", "uniform sampler3D", "attribute vec4", "in vec4"]

/-- The line makes a name known: as a variable, as one with a value, or as a macro. -/
inductive Introduces (name line : String) : Prop
  | plain (type : String) (known : type ∈ declarators) (eq : line = type ++ " " ++ name ++ ";")
  | valued (type value : String) (known : type ∈ declarators)
      (eq : line = type ++ " " ++ name ++ " = " ++ value ++ ";")
  | defined (value : String) (eq : line = defineLine name value)

section Introduces

variable (p : Profile) (sh : Shader) {r : Register}

theorem introduces_coordinateLines (number : Nat) :
    ∃ line ∈ coordinateLines p sh number,
      Introduces (Register.name sh ⟨.texture, number⟩) line := by
  have hvec : "vec4 " = "vec4" ++ " " := rfl
  unfold coordinateLines
  dsimp only
  rw [hvec]
  split
  · exact ⟨_, List.mem_cons_self, .valued "vec4" _ (by decide) rfl⟩
  · exact ⟨_, List.mem_cons_of_mem _ List.mem_cons_self, .valued "vec4" _ (by decide) rfl⟩

theorem introduces_binding (stage : Stage) (name : String) (b : Binding) :
    ∃ line ∈ b.lines p stage name, Introduces name line := by
  cases b with
  | builtin b => exact ⟨_, List.mem_cons_self, .defined b.text rfl⟩
  | varying v => exact ⟨_, List.mem_cons_of_mem _ List.mem_cons_self, .defined v.text rfl⟩

theorem Decl.introduces {d : Decl} (h : d.register? = some r) :
    ∃ line ∈ d.lines p sh, Introduces (r.name sh) line := by
  cases d with
  | literal c =>
    cases h
    have hknown : "const " ++ constantType c.kind ∈ declarators := by cases c.kind <;> decide
    exact ⟨_, List.mem_cons_self, .valued _ (literalText c) hknown rfl⟩
  | vector x => cases h; exact ⟨_, List.mem_cons_self, .plain "vec4" (by decide) rfl⟩
  | integers x => cases h; exact ⟨_, List.mem_cons_self, .plain "ivec4" (by decide) rfl⟩
  | truth x => cases h; exact ⟨_, List.mem_cons_self, .plain "bool" (by decide) rfl⟩
  | truths x => cases h; exact ⟨_, List.mem_cons_self, .plain "bvec4" (by decide) rfl⟩
  | coordinates number => cases h; exact introduces_coordinateLines p sh number
  | constant c => cases h; exact ⟨_, List.mem_cons_self, .defined _ rfl⟩
  | sampler stage kind =>
    cases h
    refine ⟨_, List.mem_cons_self, .plain ("uniform " ++ samplerType kind) ?_ rfl⟩
    cases kind <;> decide
  | vertexInput x =>
    cases h
    refine ⟨_, List.mem_cons_self, .plain (p.attributeQualifier ++ " vec4") ?_ ?_⟩
    · cases p <;> decide
    · simp only [String.append_assoc]
      rfl
  | vertexOutput x usage index => cases h; exact introduces_binding p sh.stage _ _
  | pixelInput x usage index => cases h; exact introduces_binding p sh.stage _ _
  | color number many => cases h; exact ⟨_, List.mem_cons_self, .defined _ rfl⟩
  | depth x => cases h; exact ⟨_, List.mem_cons_self, .defined _ rfl⟩
  | arrayBase _ _ | literalArray _ | bump _ _ | positionFlip => cases h

theorem Local.introduces (d : Local) : Introduces (d.register.name sh) (d.line sh) := by
  cases d with
  | face x =>
    refine .valued "float" "gl_FrontFacing ? 1.0 : -1.0" (by decide) ?_
    simp only [String.append_assoc]
    rfl
  | position x =>
    refine .valued "vec4" ("vec4(gl_FragCoord.x, "
      ++ "(gl_FragCoord.y * vposFlip.x) + vposFlip.y, gl_FragCoord.z, gl_FragCoord.w)") (by decide) ?_
    simp only [line, String.append_assoc]
    rfl

end Introduces

/-- A declaration of the program introduces the register. -/
def Declares (l : LinkedShader) (r : Register) : Prop :=
  (∃ d ∈ declarations l, d.register? = some r) ∨ ∃ d ∈ localDeclarations l, d.register = r

instance (l : LinkedShader) (r : Register) : Decidable (Declares l r) :=
  inferInstanceAs (Decidable (_ ∨ _))

/-- A register that a declaration introduces has a line that makes its name known. -/
theorem Declares.introduces (p : Profile) (o : Options) {l : LinkedShader} {r : Register}
    (h : Declares l r) :
    ∃ line, Introduces (r.name l.env.toShader) line ∧ HasLine (program p o l) line := by
  rcases h with ⟨d, hd, hr⟩ | ⟨d, hd, rfl⟩
  · obtain ⟨line, hline, hintroduces⟩ := d.introduces p l.env.toShader hr
    have hlines : line ∈ declarationLines p l := List.mem_flatMap.mpr ⟨d, hd, hline⟩
    exact ⟨line, hintroduces, hasLine_program_of_declaration p o hlines⟩
  · exact ⟨_, d.introduces l.env.toShader, hasLine_program_of_local p o hd⟩

/-! ### The declarations of a shader by their registers -/

section Declarations

variable {l : LinkedShader} {r : Register}
variable {e : Register × Attribute} {sh : Shader} {x : Register} {d : Decl}

theorem declares_of_literal {c : Constant} (h : c ∈ l.scan.constants) : Declares l c.register :=
  .inl ⟨_, mem_declarations .literal (List.mem_map_of_mem h), rfl⟩

theorem declares_of_variableDecl (h : x ∈ l.interface.globals)
    (hd : d ∈ variableDecls l.env.toShader x) (hr : d.register? = some r) : Declares l r :=
  .inl ⟨d, mem_declarations .global (List.mem_flatMap.mpr ⟨x, h, hd⟩), hr⟩

theorem declares_of_constant {c : PlacedConstant} (h : c ∈ l.interface.constants) :
    Declares l c.register :=
  .inl ⟨_, mem_declarations .constant (List.mem_map_of_mem h), rfl⟩

theorem declares_of_sampler {s : PlacedSampler} (h : s ∈ l.interface.samplers)
    (hkind : s.kind.isSome = true) : Declares l (sampler s.stage) := by
  obtain ⟨kind, hkind⟩ := Option.isSome_iff_exists.mp hkind
  have hd : .sampler s.stage kind ∈ samplerDecls s := mem_samplerDecls_iff.mpr (.inl ⟨kind, hkind, rfl⟩)
  exact .inl ⟨_, mem_declarations .sampler (List.mem_flatMap.mpr ⟨s, h, hd⟩), rfl⟩

theorem declares_of_attributeDecl (h : e ∈ l.interface.attributes)
    (hd : d ∈ attributeDecls l.env.toShader l.interface.manyColors e.1 e.2)
    (hr : d.register? = some r) : Declares l r :=
  .inl ⟨d, mem_declarations .inOut (List.mem_flatMap.mpr ⟨e, h, hd⟩), hr⟩

theorem declares_of_attributeLocal {d : Local} (h : e ∈ l.interface.attributes)
    (hd : d ∈ attributeLocals l.env.toShader e.1) (hr : d.register = r) : Declares l r :=
  .inr ⟨d, List.mem_flatMap.mpr ⟨e, h, hd⟩, hr⟩

theorem file_of_mem_variableDecls (h : d ∈ variableDecls sh x) :
    x.file ≠ .loop ∧ (x.file = .texture → sh.isPixel = true → sh.atLeast 1 4 = false) := by
  obtain ⟨file, number⟩ := x
  cases file with
  | address =>
    refine ⟨by simp, fun _ hpixel => ?_⟩
    cases hmodel : sh.atLeast 1 4 with
    | false => rfl
    | true => simp [variableDecls, sh.isVertex_eq_not_isPixel, hpixel, hmodel] at h
  | predicate | temp => simp
  | _ => cases h

theorem register_of_mem_attributeLocals {d : Local} (h : d ∈ attributeLocals sh x) :
    d.register = x := by
  unfold attributeLocals at h
  split at h
  · split at h
    · rw [List.mem_singleton.mp h]
      rfl
    · split at h
      · rw [List.mem_singleton.mp h]
        rfl
      · cases h
  · cases h

end Declarations

end Glsl

/-! ### Interfaces with nothing wrong -/

namespace Interface

variable {sh : Shader} {s : Scan} {r : Register}
variable {e : Register × Attribute}

/-- What it takes for nothing to be wrong with the interface of a shader. -/
structure Fits (sh : Shader) (s : Scan) : Prop where
  outputs : ∀ r ∈ undeclared s, needsDeclaration sh r = false
  definable : ∀ r ∈ undeclared s,
    isVariable r = true ∨ (constantKind? r).isSome = true ∨ (impliedAttribute? sh r).isSome = true
  samplers : ∀ e ∈ s.samplers.entries, e.2.kind.isSome = true
  attributes : ∀ e ∈ (attributesOf sh s).entries, attributeFaults sh e = []
  relativeInput : s.relativeInput = false

theorem registerFaults_of_undeclaredFaults {rs : List Register} (h : undeclaredFaults sh rs = [])
    (hr : r ∈ rs) : needsDeclaration sh r = false ∧ registerFaults sh r = [] := by
  induction rs with
  | nil => cases hr
  | cons x rs ih =>
    rw [undeclaredFaults] at h
    split at h
    next => cases h
    next hneeds =>
      obtain ⟨hx, hrs⟩ := List.append_eq_nil_iff.mp h
      rcases List.mem_cons.mp hr with rfl | hr
      · exact ⟨eq_false_of_ne_true hneeds, hx⟩
      · exact ih hrs hr

theorem eq_nil_of_ite_isEmpty {found last : List Fault}
    (h : (if found.isEmpty then last else found) = []) : found = [] ∧ last = [] := by
  cases found with
  | nil => exact ⟨rfl, h⟩
  | cons f found => cases h

theorem fits_of_faults (h : faults sh s = []) : Fits sh s := by
  obtain ⟨hfound, hinput⟩ := eq_nil_of_ite_isEmpty h
  have hundeclared : undeclaredFaults sh (undeclared s) = [] := by
    split at hfound
    next => exact hfound
    next => exact (List.append_eq_nil_iff.mp (List.append_eq_nil_iff.mp hfound).1).1
  have hneeds : ¬ (undeclared s).any (needsDeclaration sh) = true := by
    intro hany
    obtain ⟨r, hr, hneeds⟩ := List.any_eq_true.mp hany
    rw [(registerFaults_of_undeclaredFaults hundeclared hr).1] at hneeds
    cases hneeds
  rw [if_neg hneeds] at hfound
  obtain ⟨hothers, hattributes⟩ := List.append_eq_nil_iff.mp hfound
  refine ⟨fun r hr => (registerFaults_of_undeclaredFaults hundeclared hr).1, fun r hr => ?_,
    fun e he => ?_, List.flatMap_eq_nil_iff.mp hattributes, faultIf_eq_nil hinput⟩
  · have hnone := faultIf_eq_nil (registerFaults_of_undeclaredFaults hundeclared hr).2
    cases hvariable : isVariable r with
    | true => exact .inl rfl
    | false =>
      cases hkind : constantKind? r with
      | some kind => exact .inr (.inl rfl)
      | none =>
        cases himplied : impliedAttribute? sh r with
        | some a => exact .inr (.inr rfl)
        | none => simp [hvariable, hkind, himplied] at hnone
  · have hkind := List.flatMap_eq_nil_iff.mp (List.append_eq_nil_iff.mp hothers).2 e he
    simpa using faultIf_eq_nil hkind

theorem mem_attributesOf (h : r ∈ s.attributes.registers ∨
      (r ∈ undeclared s ∧ (impliedAttribute? sh r).isSome = true)) :
    r ∈ (attributesOf sh s).registers := by
  unfold attributesOf
  generalize undeclared s = rs at h ⊢
  generalize s.attributes = table at h ⊢
  induction rs generalizing table with
  | nil =>
    rcases h with h | ⟨h, -⟩
    · exact h
    · cases h
  | cons x rs ih =>
    apply ih
    rcases h with hdeclared | ⟨hmem, himplied⟩
    · left
      unfold imply
      split
      · exact Scan.mem_registers_update_of_mem hdeclared _ _ _
      · exact hdeclared
    · rcases List.mem_cons.mp hmem with rfl | hmem
      · obtain ⟨a, ha⟩ := Option.isSome_iff_exists.mp himplied
        rw [imply, ha]
        exact .inl ((RegisterTable.mem_registers_update _ _ _ _ _).mpr (.inl rfl))
      · exact .inr ⟨hmem, himplied⟩

theorem isPixelAttribute_of_faults (h : attributeFaults sh e = []) (hstage : sh.stage = .pixel) :
    isPixelAttribute e.1 = true := by
  rw [attributeFaults, hstage] at h
  dsimp only at h
  split at h
  · cases h
  · simpa using faultIf_eq_nil h

theorem isVertexAttribute_of_faults (h : attributeFaults sh e = []) (hstage : sh.stage = .vertex) :
    isVertexAttribute sh e.1 = true := by
  rw [attributeFaults, hstage] at h
  simpa using faultIf_eq_nil h

theorem file_ne_loop (h : attributeFaults sh e = []) : e.1.file ≠ .loop := by
  intro hloop
  cases hstage : sh.stage with
  | vertex => simpa [isVertexAttribute, hloop] using isVertexAttribute_of_faults h hstage
  | pixel => simpa [isPixelAttribute, hloop] using isPixelAttribute_of_faults h hstage

theorem mem_placeSamplers {e : Register × SamplerUse} {entries : List (Register × SamplerUse)}
    (h : e ∈ entries) (slots : Slots) :
    ∃ placed ∈ (placeSamplers slots entries).1, placed.stage = e.1.number ∧ placed.kind = e.2.kind := by
  induction entries generalizing slots with
  | nil => cases h
  | cons x entries ih =>
    rcases List.mem_cons.mp h with rfl | h
    · exact ⟨_, List.mem_cons_self, rfl, rfl⟩
    · obtain ⟨placed, hplaced, heq⟩ :=
        ih h (if x.2.bump then slots.add 2 .float else slots)
      exact ⟨placed, List.mem_cons_of_mem _ hplaced, heq⟩

theorem mem_samplers_ofScan {e : Register × SamplerUse} (h : e ∈ s.samplers.entries) (sh : Shader) :
    ∃ placed ∈ (ofScan sh s).samplers, placed.stage = e.1.number ∧ placed.kind = e.2.kind :=
  mem_placeSamplers h _

end Interface

/-! ### Declared or stray -/

/-- A register that no declaration introduces: the counter of a loop, or a texture register of a later
pixel shader that is no input. -/
def Stray (l : LinkedShader) (r : Register) : Prop :=
  r.file = .loop ∨
    (l.env.isPixel = true ∧ l.env.atLeast 1 4 = true ∧ r.file = .texture ∧
      ∀ e ∈ l.interface.attributes, e.1 ≠ r)

section Declared

variable {env : Env} {us : List Word} {r : Register}

open Glsl

variable {l : LinkedShader}

theorem declares_of_mem_attributes {e : Register × Attribute} (h : e ∈ l.interface.attributes)
    (hfits : Interface.attributeFaults l.env.toShader e = [])
    (htexture : l.env.isPixel = true → e.1.file = .texture → l.env.atLeast 1 4 = true) :
    Declares l e.1 := by
  have hdecl : ∀ d, d ∈ attributeDecls l.env.toShader l.interface.manyColors e.1 e.2 →
      d.register? = some e.1 → Declares l e.1 := fun d => declares_of_attributeDecl h
  have hlocal : ∀ d, d ∈ attributeLocals l.env.toShader e.1 → d.register = e.1 → Declares l e.1 :=
    fun d => declares_of_attributeLocal h
  obtain ⟨⟨file, number⟩, a⟩ := e
  cases hstage : l.env.stage with
  | vertex =>
    obtain ⟨d, heq, -, hregister⟩ :=
      attributeDecls_of_vertex hstage l.interface.manyColors ⟨file, number⟩ a
    exact hdecl d (heq ▸ List.mem_cons_self) hregister
  | pixel =>
    have hpixel : l.env.isPixel = true := by simp [Shader.isPixel, hstage]
    have hknown := Interface.isPixelAttribute_of_faults hfits hstage
    cases file with
    | colorOut =>
      refine hdecl (.color number l.interface.manyColors) ?_ rfl
      simp [attributeDecls, hstage]
    | depthOut =>
      refine hdecl (.depth _) ?_ rfl
      simp [attributeDecls, hstage]
    | address =>
      -- before 1.4 it would be declared as a variable
      refine hdecl (.pixelInput _ a.usage a.index) ?_ rfl
      simp [attributeDecls, hstage, htexture hpixel rfl]
    | input =>
      refine hdecl (.pixelInput _ a.usage a.index) ?_ rfl
      simp [attributeDecls, hstage]
    | misc =>
      -- the face and the position are declared where they are read
      by_cases hface : number = Register.miscFace
      · refine hlocal (.face _) ?_ rfl
        simp [attributeLocals, hpixel, hface]
      · have hposition : number = Register.miscPosition := by
          simpa [Interface.isPixelAttribute, hface] using hknown
        refine hlocal (.position _) ?_ rfl
        simp [attributeLocals, hpixel, hposition]
    | _ => cases hknown

theorem not_stray_of_file (hloop : r.file ≠ .loop) (htexture : r.file ≠ .texture) : ¬ Stray l r := by
  rintro (h | ⟨-, -, h, -⟩)
  · exact hloop h
  · exact htexture h

theorem not_stray_of_constant (l : LinkedShader) (kind : ConstantKind) (number : Nat) :
    ¬ Stray l ⟨kind.file, number⟩ := by
  cases kind <;> exact not_stray_of_file (by simp [ConstantKind.file]) (by simp [ConstantKind.file])

section Linked

variable (fits : Interface.Fits env.toShader (Scan.ofUnits env us))
include fits

theorem declares_of_mem_samplers (h : r ∈ (Scan.ofUnits env us).samplers.registers) :
    Declares (.ofUnits env us) r := by
  obtain ⟨e, he, rfl⟩ := List.mem_map.mp h
  obtain ⟨placed, hplaced, hstage, hkind⟩ := Interface.mem_samplers_ofScan he env.toShader
  have hdeclares : Declares (.ofUnits env us) (sampler placed.stage) :=
    declares_of_sampler hplaced (hkind ▸ fits.samplers e he)
  have hregister : sampler placed.stage = e.1 := by
    rw [sampler, hstage, ← Scan.file_of_sampler h]
  exact hregister ▸ hdeclares

theorem declares_of_attribute
    (h : r ∈ (Interface.attributesOf env.toShader (Scan.ofUnits env us)).registers)
    (htexture : env.isPixel = true → r.file = .texture → env.atLeast 1 4 = true) :
    Declares (.ofUnits env us) r := by
  obtain ⟨e, he, rfl⟩ := List.mem_map.mp h
  exact declares_of_mem_attributes (l := .ofUnits env us) he (fits.attributes e he) htexture

theorem declares_of_variable (h : r ∈ Interface.undeclared (Scan.ofUnits env us))
    (hvariable : Interface.isVariable r = true) (hlabel : r.file ≠ .label)
    (hstray : ¬ Stray (.ofUnits env us) r) : Declares (.ofUnits env us) r := by
  have hglobal : r ∈ (LinkedShader.ofUnits env us).interface.globals :=
    List.mem_filter.mpr ⟨h, hvariable⟩
  have hdecl : ∀ d, d ∈ variableDecls env.toShader r → d.register? = some r →
      Declares (.ofUnits env us) r := fun d => declares_of_variableDecl hglobal
  cases hfile : r.file with
  | address =>
    have hregister : (⟨.address, r.number⟩ : Register) = r := by rw [← hfile]
    cases hpixel : env.isPixel with
    | false =>
      refine hdecl (.integers r) ?_ rfl
      simp [variableDecls, hfile, Shader.isVertex_eq_not_isPixel, hpixel]
    | true =>
      cases hmodel : env.atLeast 1 4 with
      | false =>
        refine hdecl (.coordinates r.number) ?_ (congrArg some hregister)
        simp [variableDecls, hfile, Shader.isVertex_eq_not_isPixel, hpixel, hmodel]
      | true =>
        -- a later texture register that is not stray is an input
        have hinput : ∃ e ∈ (LinkedShader.ofUnits env us).interface.attributes, e.1 = r := by
          by_contra hnone
          exact hstray (.inr ⟨hpixel, hmodel, hfile, fun e he heq => hnone ⟨e, he, heq⟩⟩)
        exact declares_of_attribute fits (List.mem_map.mpr hinput) fun _ _ => hmodel
  | predicate =>
    cases hscalar : r.isScalarIn env.toShader with
    | true => exact hdecl (.truth r) (by simp [variableDecls, hfile, hscalar]) rfl
    | false => exact hdecl (.truths r) (by simp [variableDecls, hfile, hscalar]) rfl
  | temp => exact hdecl (.vector r) (by simp [variableDecls, hfile]) rfl
  | loop => exact absurd (.inl hfile) hstray
  | label => exact absurd hfile hlabel
  | _ => simp [Interface.isVariable, hfile] at hvariable

/-- A register that is recorded is declared, unless it is a label or stray. -/
theorem declares_of_recorded
    (hdefined : ∀ r ∈ (Scan.ofUnits env us).defined,
      r.file = .label ∨ Scan.Backed env (Scan.ofUnits env us) r)
    (hr : r ∈ (Scan.ofUnits env us).used.registers ∨ r ∈ (Scan.ofUnits env us).samplers.registers)
    (hlabel : r.file ≠ .label) (hstray : ¬ Stray (.ofUnits env us) r) :
    Declares (.ofUnits env us) r := by
  rcases hr with hused | hsampler
  · by_cases hdef : r ∈ (Scan.ofUnits env us).defined
    · rcases (hdefined r hdef).resolve_left hlabel with ⟨c, hc, rfl⟩ | hsampler | ⟨hattribute, hmodel⟩
      · exact declares_of_literal hc
      · exact declares_of_mem_samplers fits hsampler
      · exact declares_of_attribute fits (Interface.mem_attributesOf (.inl hattribute)) fun hpixel _ =>
          env.atLeast_of_le (hmodel hpixel) (by decide)
    · have hundeclared : r ∈ Interface.undeclared (Scan.ofUnits env us) := by
        refine List.mem_filter.mpr ⟨hused, ?_⟩
        simpa [Scan.isDefined] using hdef
      rcases fits.definable r hundeclared with hvariable | hconstant | himplied
      · exact declares_of_variable fits hundeclared hvariable hlabel hstray
      · have hplaced : r ∈ (LinkedShader.ofUnits env us).interface.constants.map
            PlacedConstant.register := by
          rw [LinkedShader.ofUnits, Interface.map_register_ofScan]
          exact List.mem_filter.mpr ⟨hundeclared, hconstant⟩
        obtain ⟨c, hc, rfl⟩ := List.mem_map.mp hplaced
        exact declares_of_constant hc
      · refine declares_of_attribute fits
          (Interface.mem_attributesOf (.inr ⟨hundeclared, himplied⟩)) fun _ hfile => ?_
        -- texture registers have no meaning of their own
        simp [Interface.impliedAttribute?, hfile, RegisterFile.isOutput] at himplied
  · exact declares_of_mem_samplers fits hsampler

theorem not_stray_of_attribute {e : Register × Attribute}
    (he : e ∈ (LinkedShader.ofUnits env us).interface.attributes) : ¬ Stray (.ofUnits env us) e.1 := by
  rintro (hloop | ⟨-, -, -, hnone⟩)
  · exact Interface.file_ne_loop (fits.attributes e he) hloop
  · exact hnone e he rfl

theorem not_stray_of_declares (h : Declares (.ofUnits env us) r) : ¬ Stray (.ofUnits env us) r := by
  rcases h with ⟨d, hd, hr⟩ | ⟨d, hd, rfl⟩
  · obtain ⟨origin, hintroduction⟩ := introduction_of_mem_declarations hd hr
    cases hintroduction with
    | @literal c | @constant c => exact not_stray_of_constant _ c.kind _
    | global _ hd =>
      obtain ⟨hloop, htexture⟩ := file_of_mem_variableDecls hd
      rintro (h | ⟨hpixel, hmodel, hfile, -⟩)
      · exact hloop h
      · exact absurd (htexture hfile hpixel) (by simp [hmodel])
    | sampler => exact not_stray_of_file (by simp [sampler]) (by simp [sampler])
    | inOut he => exact not_stray_of_attribute fits he
  · obtain ⟨e, he, hx⟩ := List.mem_flatMap.mp hd
    rw [register_of_mem_attributeLocals hx]
    exact not_stray_of_attribute fits he

end Linked

end Declared

/-! ### Closed programs -/

open Glsl in
/-- A register that the code names is declared, unless it is a label or stray. -/
theorem declares_of_mem_registers {p : Profile} {o : Options} {ws : List Word} {l : LinkedShader}
    (clean : (liftWords p o ws).errors = []) (hlink : linkShader o ws = .ok l) {c : Stmt}
    (hc : c ∈ l.scan.code) {r : Register} (hr : r ∈ c.registers) (hlabel : r.file ≠ .label)
    (hstray : ¬ Stray l r) : Declares l r := by
  obtain ⟨w, us, env, t, rfl, hlinked, -, hscan, hfaults, hcolor⟩ := run_of_no_errors clean
  cases hlinked.symm.trans hlink
  have hbound : Scan.Bound env (Scan.ofUnits env us) := bound_of_no_errors clean hlink
  have fits := Interface.fits_of_faults hfaults
  refine declares_of_recorded fits hbound.defined ?_ hlabel hstray
  rcases (hbound.code c hc).registers r hr hlabel fits.relativeInput with
    hused | hsampler | ⟨rfl, hcopied⟩
  · exact .inl hused
  · exact .inr hsampler
  · -- the colour is copied from a register that was written
    left
    rw [hscan]
    have hwritten := hcolor hcopied
    unfold Scan.wasWritten at hwritten
    split at hwritten
    next use hfind => exact RegisterTable.mem_registers_of_find? hfind
    next => cases hwritten

end ShaderLift
