/-
What the declarations of a shader are made for: for a constant that the code defines, for a register that
is a variable, for an array, a constant of the host, a sampler, or an input or output.  A declaration
shows its origin, so the declarations of one origin are found among all of them, and where a register is
introduced the origin says what it is introduced as (`Introduction`).
-/
import ShaderLift.Glsl.Declaration
import ShaderLift.Proofs.Registers

namespace ShaderLift.Glsl

inductive Decl.Origin where
  | literal
  | global
  | array
  | constant
  | sampler
  | inOut
  deriving DecidableEq

def Decl.origin : Decl → Origin
  | .literal _ => .literal
  | .vector _ | .integers _ | .truth _ | .truths _ | .coordinates _ => .global
  | .arrayBase _ _ | .literalArray _ => .array
  | .constant _ => .constant
  | .sampler _ _ | .bump _ _ => .sampler
  | .vertexInput _ | .vertexOutput _ _ _ | .pixelInput _ _ _ | .color _ _ | .depth _
  | .positionFlip => .inOut

def Decl.register? : Decl → Option Register
  | .literal c => some c.register
  | .vector r | .integers r | .truth r | .truths r | .vertexInput r | .vertexOutput r _ _
  | .pixelInput r _ _ | .depth r => some r
  | .coordinates number => some ⟨.texture, number⟩
  | .constant c => some c.register
  | .sampler stage _ => some (Glsl.sampler stage)
  | .color number _ => some ⟨.colorOut, number⟩
  | .arrayBase _ _ | .literalArray _ | .bump _ _ | .positionFlip => none

def declarationsOf (l : LinkedShader) : Decl.Origin → List Decl
  | .literal => l.scan.constants.map .literal
  | .global => l.interface.globals.flatMap (variableDecls l.env.toShader)
  | .array => l.interface.arrays.map arrayDecl
  | .constant => l.interface.constants.map .constant
  | .sampler => l.interface.samplers.flatMap samplerDecls
  | .inOut => l.interface.attributes.flatMap fun e =>
      attributeDecls l.env.toShader l.interface.manyColors e.1 e.2

theorem declarations_eq (l : LinkedShader) :
    declarations l = declarationsOf l .literal ++ declarationsOf l .global ++ declarationsOf l .array
      ++ declarationsOf l .constant ++ declarationsOf l .sampler ++ declarationsOf l .inOut := rfl

/-! ### The declarations of one thing -/

theorem variableDecls_cases (sh : Shader) (r : Register) :
    variableDecls sh r = [] ∨
      ∃ d, variableDecls sh r = [d] ∧ d.origin = .global ∧ d.register? = some r := by
  obtain ⟨file, number⟩ := r
  unfold variableDecls
  cases file with
  | address =>
    dsimp only
    split
    · exact .inr ⟨_, rfl, rfl, rfl⟩
    · split
      · exact .inl rfl
      · exact .inr ⟨_, rfl, rfl, rfl⟩
  | predicate =>
    refine .inr ⟨_, rfl, ?_⟩
    split <;> exact ⟨rfl, rfl⟩
  | temp => exact .inr ⟨_, rfl, rfl, rfl⟩
  | _ => exact .inl rfl

theorem attributeDecls_of_vertex {sh : Shader} (hstage : sh.stage = .vertex) (many : Bool) (r : Register)
    (a : Attribute) :
    ∃ d, attributeDecls sh many r a = [d] ∧ d.origin = .inOut ∧ d.register? = some r := by
  unfold attributeDecls
  rw [hstage]
  -- what an output means goes by the version, which is of no matter here
  generalize outputMeaning sh r a = meaning
  obtain ⟨usage, index⟩ := meaning
  by_cases hinput : r.file = .input
  · exact ⟨.vertexInput r, if_pos hinput, rfl, rfl⟩
  · exact ⟨.vertexOutput r usage index, if_neg hinput, rfl, rfl⟩

theorem attributeDecls_cases (sh : Shader) (many : Bool) (r : Register) (a : Attribute) :
    attributeDecls sh many r a = [] ∨
      ∃ d, attributeDecls sh many r a = [d] ∧ d.origin = .inOut ∧
        (d.register? = some r ∨ d = .positionFlip) := by
  cases hstage : sh.stage with
  | vertex =>
    obtain ⟨d, hone, horigin, hregister⟩ := attributeDecls_of_vertex hstage many r a
    exact .inr ⟨d, hone, horigin, .inl hregister⟩
  | pixel =>
    rw [attributeDecls, hstage]
    obtain ⟨file, number⟩ := r
    cases file with
    | colorOut | depthOut | input => exact .inr ⟨_, rfl, rfl, .inl rfl⟩
    | address =>
      dsimp only
      split
      · exact .inl rfl
      · exact .inr ⟨_, rfl, rfl, .inl rfl⟩
    | misc =>
      dsimp only
      split
      · exact .inr ⟨_, rfl, rfl, .inr rfl⟩
      · exact .inl rfl
    | _ => exact .inl rfl

section Members

variable {l : LinkedShader} {origin : Decl.Origin} {d : Decl} {r : Register}

theorem mem_variableDecls {sh : Shader} (h : d ∈ variableDecls sh r) :
    d.origin = .global ∧ d.register? = some r := by
  rcases variableDecls_cases sh r with hnone | ⟨d', hone, hd⟩
  · rw [hnone] at h
    cases h
  · rw [hone] at h
    rw [List.mem_singleton.mp h]
    exact hd

theorem mem_attributeDecls {sh : Shader} {many : Bool} {a : Attribute}
    (h : d ∈ attributeDecls sh many r a) :
    d.origin = .inOut ∧ (d.register? = some r ∨ d = .positionFlip) := by
  rcases attributeDecls_cases sh many r a with hnone | ⟨d', hone, hd⟩
  · rw [hnone] at h
    cases h
  · rw [hone] at h
    rw [List.mem_singleton.mp h]
    exact hd

theorem mem_samplerDecls_iff {x : PlacedSampler} :
    d ∈ samplerDecls x ↔ (∃ kind, x.kind = some kind ∧ .sampler x.stage kind = d) ∨
      ∃ slot, x.bumpSlot = some slot ∧ .bump x.stage slot = d := by
  simp only [samplerDecls, List.mem_append, Option.mem_toList, Option.map_eq_some_iff]

/-! ### All declarations -/

theorem origin_of_mem_declarationsOf (h : d ∈ declarationsOf l origin) : d.origin = origin := by
  cases origin with
  | literal | constant =>
    obtain ⟨c, -, rfl⟩ := List.mem_map.mp h
    rfl
  | global =>
    obtain ⟨r, -, hd⟩ := List.mem_flatMap.mp h
    exact (mem_variableDecls hd).1
  | array =>
    obtain ⟨q, -, rfl⟩ := List.mem_map.mp h
    unfold arrayDecl
    split <;> rfl
  | sampler =>
    obtain ⟨x, -, hd⟩ := List.mem_flatMap.mp h
    rcases mem_samplerDecls_iff.mp hd with ⟨kind, -, rfl⟩ | ⟨slot, -, rfl⟩ <;> rfl
  | inOut =>
    obtain ⟨e, -, hd⟩ := List.mem_flatMap.mp h
    exact (mem_attributeDecls hd).1

theorem mem_declarationsOf (h : d ∈ declarations l) : d ∈ declarationsOf l d.origin := by
  rw [declarations_eq] at h
  simp only [List.mem_append] at h
  rcases h with ((((h | h) | h) | h) | h) | h
  all_goals
    rw [origin_of_mem_declarationsOf h]
    exact h

theorem mem_declarations (origin : Decl.Origin) (h : d ∈ declarationsOf l origin) :
    d ∈ declarations l := by
  rw [declarations_eq]
  cases origin <;> simp [h]

theorem mem_declarations_of_attribute {e : Register × Attribute} (he : e ∈ l.interface.attributes)
    (h : attributeDecls l.env.toShader l.interface.manyColors e.1 e.2 = [d]) : d ∈ declarations l :=
  mem_declarations .inOut (List.mem_flatMap.mpr ⟨e, he, h ▸ List.mem_cons_self⟩)

theorem flatMap_declarations (origin : Decl.Origin) {β : Type} {g : Decl → List β}
    (h : ∀ d, d.origin ≠ origin → g d = []) (l : LinkedShader) :
    (declarations l).flatMap g = (declarationsOf l origin).flatMap g := by
  have hnil : ∀ other, other ≠ origin → (declarationsOf l other).flatMap g = [] := by
    intro other hne
    rw [List.flatMap_eq_nil_iff]
    intro d hd
    apply h
    rw [origin_of_mem_declarationsOf hd]
    exact hne
  rw [declarations_eq]
  simp only [List.flatMap_append]
  cases origin <;> simp [hnil]

/-! ### Introductions -/

/-- A declaration that introduces a register, by what it is made for. -/
inductive Introduction (l : LinkedShader) : Decl.Origin → Decl → Register → Prop
  | literal {c : Constant} (hc : c ∈ l.scan.constants) :
      Introduction l .literal (.literal c) c.register
  | global {d : Decl} {r : Register} (hr : r ∈ l.interface.globals)
      (hd : d ∈ variableDecls l.env.toShader r) : Introduction l .global d r
  | constant {c : PlacedConstant} (hc : c ∈ l.interface.constants) :
      Introduction l .constant (.constant c) c.register
  | sampler {x : PlacedSampler} {kind : TextureKind} (hx : x ∈ l.interface.samplers) :
      Introduction l .sampler (.sampler x.stage kind) (Glsl.sampler x.stage)
  | inOut {d : Decl} {e : Register × Attribute} (he : e ∈ l.interface.attributes)
      (hd : d ∈ attributeDecls l.env.toShader l.interface.manyColors e.1 e.2) :
      Introduction l .inOut d e.1

theorem introduction_of_mem (hd : d ∈ declarationsOf l origin) (hr : d.register? = some r) :
    Introduction l origin d r := by
  cases origin with
  | literal =>
    obtain ⟨c, hc, rfl⟩ := List.mem_map.mp hd
    cases hr
    exact .literal hc
  | global =>
    obtain ⟨x, hx, hd⟩ := List.mem_flatMap.mp hd
    cases hr.symm.trans (mem_variableDecls hd).2
    exact .global hx hd
  | array =>
    obtain ⟨q, -, rfl⟩ := List.mem_map.mp hd
    unfold arrayDecl at hr
    split at hr <;> cases hr
  | constant =>
    obtain ⟨c, hc, rfl⟩ := List.mem_map.mp hd
    cases hr
    exact .constant hc
  | sampler =>
    obtain ⟨x, hx, hd⟩ := List.mem_flatMap.mp hd
    rcases mem_samplerDecls_iff.mp hd with ⟨kind, -, rfl⟩ | ⟨slot, -, rfl⟩
    · cases hr
      exact .sampler hx
    · cases hr
  | inOut =>
    obtain ⟨e, he, hd⟩ := List.mem_flatMap.mp hd
    rcases (mem_attributeDecls hd).2 with hregister | rfl
    · cases hr.symm.trans hregister
      exact .inOut he hd
    · cases hr

theorem introduction_of_mem_declarations (hd : d ∈ declarations l) (hr : d.register? = some r) :
    ∃ origin, Introduction l origin d r :=
  ⟨_, introduction_of_mem (mem_declarationsOf hd) hr⟩

end Members

end ShaderLift.Glsl
