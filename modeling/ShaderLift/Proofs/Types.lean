/-
The types of what a program declares.  A declaration gives its register a type (`Decl.type?`): the one
that its line states, or for a macro the one of the variable that the macro stands for.  `Typed` reads the
type of a name off the text of a program, without a look at registers.  The two agree
(`typed_of_declaredAs`).
-/
import ShaderLift.Proofs.DeclaredOnce

namespace ShaderLift

namespace Glsl

/-! ### Types -/

inductive VarType where
  | float
  | bool
  | vec4
  | ivec4
  | bvec4
  | sampler (kind : TextureKind)
  deriving Repr, DecidableEq

namespace VarType

def text : VarType → String
  | .float => "float"
  | .bool => "bool"
  | .vec4 => "vec4"
  | .ivec4 => "ivec4"
  | .bvec4 => "bvec4"
  | .sampler kind => samplerType kind

def isScalar : VarType → Bool
  | .float | .bool => true
  | .vec4 | .ivec4 | .bvec4 | .sampler _ => false

def ofConstant : ConstantKind → VarType
  | .float => .vec4
  | .int => .ivec4
  | .bool => .bool

theorem text_ofConstant (kind : ConstantKind) : (ofConstant kind).text = constantType kind := by
  cases kind <;> rfl

end VarType

/-- The type that a built-in variable has in every dialect that has it. -/
def Builtin.type : Builtin → VarType
  | .pointSize | .fogCoordinate => .float
  | _ => .vec4

def Varying.type (v : Varying) : VarType := if v.scalar then .float else .vec4

def Binding.type : Binding → VarType
  | .builtin b => b.type
  | .varying v => v.type

def Decl.type? (p : Profile) : Decl → Option VarType
  | .literal c => some (.ofConstant c.kind)
  | .constant c => some (.ofConstant c.kind)
  | .vector _ | .coordinates _ | .vertexInput _ | .color _ _ => some .vec4
  | .integers _ => some .ivec4
  | .truth _ => some .bool
  | .truths _ => some .bvec4
  | .sampler _ kind => some (.sampler kind)
  | .vertexOutput _ usage index => some (Binding.ofVertexOutput p usage index).type
  | .pixelInput _ usage index => some (Binding.ofPixelInput p usage index).type
  | .depth _ => some .float
  | .arrayBase _ _ | .literalArray _ | .bump _ _ | .positionFlip => none

def Local.type : Local → VarType
  | .face _ => .float
  | .position _ => .vec4

/-- A declaration of the program introduces the register as one of the type. -/
def DeclaredAs (p : Profile) (l : LinkedShader) (r : Register) (type : VarType) : Prop :=
  (∃ d ∈ declarations l, d.register? = some r ∧ d.type? p = some type) ∨
    ∃ d ∈ localDeclarations l, d.register = r ∧ d.type = type

theorem Declares.declaredAs (p : Profile) {l : LinkedShader} {r : Register} (h : Declares l r) :
    ∃ type, DeclaredAs p l r type := by
  rcases h with ⟨d, hd, hr⟩ | ⟨d, hd, hr⟩
  · have htype : ∃ type, d.type? p = some type := by
      cases d <;> first | exact ⟨_, rfl⟩ | cases hr
    obtain ⟨type, htype⟩ := htype
    exact ⟨type, .inl ⟨d, hd, hr, htype⟩⟩
  · exact ⟨d.type, .inr ⟨d, hd, hr, rfl⟩⟩

/-! ### Types of names -/

def qualifiers : List String :=
  ["", "const ", "uniform ", "attribute ", "in ", "out ", "varying ", "varying highp "]

/-- What can stand after the name in a declaration: nothing more, or a value. -/
inductive DeclarationEnd : String → Prop
  | plain : DeclarationEnd ";"
  | valued (value : String) : DeclarationEnd (" = " ++ value ++ ";")

/-- The name has the type in a program of this text. -/
inductive Typed (text : String) : String → VarType → Prop
  | declared {name : String} {type : VarType} (qualifier rest : String) (known : qualifier ∈ qualifiers)
      (tail : DeclarationEnd rest)
      (line : HasLine text (qualifier ++ type.text ++ " " ++ name ++ rest)) : Typed text name type
  /-- An element of an array has the type that the array is declared with. -/
  | element {array : String} {type : VarType} (qualifier size rest index : String)
      (known : qualifier ∈ qualifiers) (tail : DeclarationEnd rest)
      (line : HasLine text (qualifier ++ type.text ++ " " ++ array ++ "[" ++ size ++ "]" ++ rest)) :
      Typed text (array ++ "[" ++ index ++ "]") type
  | builtin (b : Builtin) : Typed text b.text b.type
  | color : Typed text "gl_FragColor" .vec4
  | colors (n : Nat) : Typed text ("gl_FragData[" ++ toString n ++ "]") .vec4
  | depth : Typed text "gl_FragDepth" .float
  /-- A macro has the type of what it stands for. -/
  | defined {name target : String} {type : VarType} (line : HasLine text (defineLine name target))
      (h : Typed text target type) : Typed text name type

section Lines

variable {p : Profile} {o : Options} {l : LinkedShader}

theorem hasLine_of_decl {d : Decl} (hd : d ∈ declarations l) {line : String}
    (h : line ∈ d.lines p l.env.toShader) : HasLine (program p o l) line :=
  hasLine_program_of_declaration p o (List.mem_flatMap.mpr ⟨d, hd, h⟩)

theorem hasLine_of_decl_lines {d : Decl} (hd : d ∈ declarations l) {line : String}
    (h : d.lines p l.env.toShader = [line]) : HasLine (program p o l) line :=
  hasLine_of_decl hd (by rw [h]; exact List.mem_cons_self)

theorem typed_varying {v : Varying} (h : HasLine (program p o l) (v.declaration p l.env.stage)) :
    Typed (program p o l) v.text v.type := by
  have hline : v.declaration p l.env.stage =
      p.varyingQualifier l.env.stage ++ " " ++ v.type.text ++ " " ++ v.text ++ ";" := by
    unfold Varying.declaration Varying.type
    cases v.scalar <;> rfl
  have hknown : p.varyingQualifier l.env.stage ++ " " ∈ qualifiers := by
    cases p <;> cases l.env.stage <;> decide
  exact .declared _ ";" hknown .plain (hline ▸ h)

theorem typed_binding {d : Decl} (hd : d ∈ declarations l) {name : String} {b : Binding}
    (h : d.lines p l.env.toShader = b.lines p l.env.stage name) :
    Typed (program p o l) name b.type := by
  cases b with
  | builtin b => exact .defined (hasLine_of_decl_lines hd h) (.builtin b)
  | varying v =>
    have hvarying : HasLine (program p o l) (v.declaration p l.env.stage) :=
      hasLine_of_decl hd (by rw [h]; exact List.mem_cons_self)
    have hmacro : HasLine (program p o l) (defineLine name v.text) :=
      hasLine_of_decl hd (by rw [h]; exact List.mem_cons_of_mem _ List.mem_cons_self)
    exact .defined hmacro (typed_varying hvarying)

theorem typed_coordinates {number : Nat} (hd : .coordinates number ∈ declarations l) :
    Typed (program p o l) (Register.name l.env.toShader ⟨.texture, number⟩) .vec4 := by
  have hline : ∃ value, HasLine (program p o l)
      ("vec4 " ++ Register.name l.env.toShader ⟨.texture, number⟩ ++ " = " ++ value ++ ";") := by
    by_cases hbuiltin : (p.hasFixedFunction && decide (number < 4)) = true
    · refine ⟨(Builtin.texCoord number).text, hasLine_of_decl hd ?_⟩
      show _ ∈ coordinateLines p l.env.toShader number
      rw [coordinateLines, if_pos hbuiltin]
      exact List.mem_cons_self
    · refine ⟨(Varying.mk .texCoord number false).text, hasLine_of_decl hd ?_⟩
      show _ ∈ coordinateLines p l.env.toShader number
      rw [coordinateLines, if_neg hbuiltin]
      exact List.mem_cons_of_mem _ List.mem_cons_self
  obtain ⟨value, hline⟩ := hline
  refine .declared "" (" = " ++ value ++ ";") (by decide) (.valued value) ?_
  have hvec : "vec4 " = "" ++ VarType.vec4.text ++ " " := rfl
  rw [hvec] at hline
  simpa only [String.append_assoc] using hline

theorem typed_packed {kind : ConstantKind} (hcount : l.interface.slots.count kind ≠ 0) (index : String) :
    Typed (program p o l) ((Ident.packed kind).text l.env.toShader ++ "[" ++ index ++ "]")
      (.ofConstant kind) := by
  have hmem : "uniform " ++ constantType kind ++ " " ++ (Ident.packed kind).text l.env.toShader
      ++ s!"[{l.interface.slots.count kind}];" ∈ sizeLines l.env.toShader l.interface.slots := by
    have hlines : packedLines l.env.toShader l.interface.slots kind =
        ["uniform " ++ constantType kind ++ " " ++ (Ident.packed kind).text l.env.toShader
          ++ s!"[{l.interface.slots.count kind}];"] := if_neg hcount
    unfold sizeLines
    cases kind with
    | float =>
      refine List.mem_append_left _ (List.mem_append_left _ ?_)
      rw [hlines]
      exact List.mem_cons_self
    | int =>
      refine List.mem_append_left _ (List.mem_append_right _ ?_)
      rw [hlines]
      exact List.mem_cons_self
    | bool =>
      refine List.mem_append_right _ ?_
      rw [hlines]
      exact List.mem_cons_self
  refine .element "uniform " (toString (l.interface.slots.count kind)) ";" index (by decide) .plain ?_
  have hend : s!"[{l.interface.slots.count kind}];" =
      "[" ++ toString (l.interface.slots.count kind) ++ ("]" ++ ";") := rfl
  have hline := hasLine_program_of_size p o hmem
  rw [hend, ← VarType.text_ofConstant] at hline
  simpa only [String.append_assoc] using hline

theorem typed_literalArray {a : ConstantArray} (hd : .literalArray a ∈ declarations l) (index : String) :
    Typed (program p o l) ((Ident.constArray a.index a.count).text l.env.toShader ++ "[" ++ index ++ "]")
      .vec4 := by
  have hline : HasLine (program p o l) (literalArrayLine p l.env.toShader a) :=
    hasLine_of_decl_lines hd rfl
  have hcount : s!"[{a.count}]" = "[" ++ toString a.count ++ "]" := rfl
  unfold literalArrayLine at hline
  dsimp only at hline
  split at hline
  · have hconst : "const vec4 " = "const " ++ VarType.vec4.text ++ " " := rfl
    have hvalue : " = vec4" = " = " ++ "vec4" := rfl
    have hclose : ");" = ")" ++ ";" := rfl
    refine .element "const " (toString a.count) (" = " ++ ("vec4" ++ s!"[{a.count}]" ++ "("
      ++ ", ".intercalate (a.constants.map fun c => vectorText "vec4" (c.singles.map Single.literal))
      ++ ")") ++ ";") index (by decide) (.valued _) ?_
    rw [hconst, hvalue, hclose, hcount] at hline
    simpa only [hcount, String.append_assoc] using hline
  · have huniform : "uniform vec4 " = "uniform " ++ VarType.vec4.text ++ " " := rfl
    refine .element "uniform " (toString a.count) ";" index (by decide) .plain ?_
    rw [huniform, hcount] at hline
    simpa only [String.append_assoc] using hline

end Lines

/-! ### Places of constants -/

theorem count_ne_zero_of_entry {i : Interface} {sh : Shader} {kind : ConstantKind}
    {e : Uniform × Option Nat} {slot : Nat}
    (htaken : (i.packing sh).taken kind = List.range (i.slots.count kind))
    (he : e ∈ (i.packing sh).entries) (hkind : e.1.kind = kind) (hslot : e.2 = some slot)
    (hwidth : 0 < e.1.width) : i.slots.count kind ≠ 0 := by
  have hmem : slot ∈ Packing.entrySlots kind e := by
    rw [Packing.entrySlots, hslot]
    simpa [hkind] using hwidth
  have hrange : slot ∈ List.range (i.slots.count kind) := by
    rw [← htaken]
    exact List.mem_append_left _ (List.mem_flatMap.mpr ⟨e, he, hmem⟩)
  exact Nat.ne_zero_of_lt (List.mem_range.mp hrange)

theorem typed_constant (p : Profile) (o : Options) {env : Env} {us : List Word} {c : PlacedConstant}
    (hc : c ∈ (LinkedShader.ofUnits env us).interface.constants) :
    Typed (program p o (.ofUnits env us)) (c.register.name env.toShader) (.ofConstant c.kind) := by
  have hplaced := wellPlaced_ofUnits env us
  have htaken := taken_packing ((LinkedShader.ofUnits env us).lifted p o)
  rw [packing_lifted] at htaken
  have hd : .constant c ∈ declarations (.ofUnits env us) :=
    mem_declarations .constant (List.mem_map_of_mem hc)
  refine .defined (hasLine_of_decl_lines (l := .ofUnits env us) hd rfl) ?_
  rcases hplaced.settled c hc with ⟨q, hq, hplace⟩ | ⟨-, slot, hplace⟩
  · -- the newest array that has the constant, so it is one of floats
    rw [hplace, Interface.placeIn]
    unfold Interface.arrayOf? at hq
    split at hq
    next hkind =>
      have hmem := List.mem_of_find?_eq_some hq
      rw [hkind]
      cases hslot : q.slot with
      | some slot =>
        -- its elements are slots of the uniform array of floats
        have hwidth : 0 < (Interface.arrayUniform env.toShader q).width := by
          have hcount := hplaced.nonempty q hmem
          have hhost : q.array.isLiteral = false := by
            rw [← Bool.not_eq_true, ← Interface.isLiteral_of_placeArrays hmem, hslot]
            simp
          simp [Interface.arrayUniform, Uniform.width, hhost, Nat.ne_of_gt hcount, hcount]
        have hentry : (Interface.arrayUniform env.toShader q, q.slot) ∈
            ((LinkedShader.ofUnits env us).interface.packing env.toShader).entries :=
          List.mem_append_left _ (List.mem_map_of_mem hmem)
        show Typed _ (elementText env.toShader (.packed .float) _) _
        rw [Interface.elementText_eq]
        exact typed_packed (count_ne_zero_of_entry (htaken .float) hentry rfl hslot hwidth) _
      | none =>
        -- an array of literals stands under a name of its own
        have harray : .literalArray q.array ∈ declarations (.ofUnits env us) := by
          have hdecl : arrayDecl q = .literalArray q.array := by rw [arrayDecl, hslot]
          exact hdecl ▸ mem_declarations .array (List.mem_map_of_mem hmem)
        show Typed _ (elementText env.toShader (.constArray q.array.index q.array.count) _) _
        rw [Interface.elementText_eq]
        exact typed_literalArray harray _
    next => cases hq
  · -- a constant alone is a slot of the uniform array of its kind
    have hown := Interface.ownUniform?_of_own env.toShader hplace
    have hentry : (⟨c.kind, c.number, 0, false, c.register.name env.toShader⟩, some slot) ∈
        ((LinkedShader.ofUnits env us).interface.packing env.toShader).entries :=
      List.mem_append_right _ (List.mem_filterMap.mpr ⟨c, hc, hown⟩)
    have hcount : (LinkedShader.ofUnits env us).interface.slots.count c.kind ≠ 0 :=
      count_ne_zero_of_entry (htaken c.kind) hentry rfl rfl Nat.one_pos
    rw [hplace]
    show Typed _ (elementText env.toShader (.packed c.kind) slot) _
    rw [Interface.elementText_eq]
    exact typed_packed (l := .ofUnits env us) hcount _

/-! ### Types of declarations -/

/-- **A register has the type that it is declared with.** -/
theorem typed_of_declaredAs {p : Profile} (o : Options) {env : Env} {us : List Word} {r : Register}
    {type : VarType} (h : DeclaredAs p (.ofUnits env us) r type) :
    Typed (program p o (.ofUnits env us)) (r.name env.toShader) type := by
  rcases h with ⟨d, hd, hr, htype⟩ | ⟨d, hd, rfl, rfl⟩
  · have hsingle : ∀ {line : String}, d.lines p env.toShader = [line] →
        HasLine (program p o (.ofUnits env us)) line := hasLine_of_decl_lines (l := .ofUnits env us) hd
    cases d with
    | literal c =>
      cases hr; cases htype
      -- a constant of the code comes with its value
      refine .declared "const " (" = " ++ literalText c ++ ";") (by decide) (.valued _) ?_
      have hline : HasLine _ ("const " ++ constantType c.kind ++ " " ++ c.register.name env.toShader
        ++ " = " ++ literalText c ++ ";") := hsingle rfl
      rw [← VarType.text_ofConstant] at hline
      simpa only [String.append_assoc] using hline
    | vector x | integers x | truth x | truths x =>
      cases hr; cases htype
      exact .declared "" ";" (by decide) .plain (hsingle rfl)
    | coordinates number =>
      cases hr; cases htype
      exact typed_coordinates (l := .ofUnits env us) hd
    | constant c =>
      cases hr; cases htype
      obtain ⟨c', hc', heq⟩ := List.mem_map.mp (mem_declarationsOf hd)
      cases heq
      exact typed_constant p o hc'
    | sampler stage kind =>
      cases hr; cases htype
      exact .declared "uniform " ";" (by decide) .plain (hsingle rfl)
    | vertexInput x =>
      cases hr; cases htype
      -- the qualifier depends on the profile, the type does not
      refine .declared (p.attributeQualifier ++ " ") ";" (by cases p <;> decide) .plain ?_
      have hline := hsingle rfl
      have hvec : " vec4 " = " " ++ VarType.vec4.text ++ " " := rfl
      rw [hvec] at hline
      simpa only [String.append_assoc] using hline
    | vertexOutput x usage index | pixelInput x usage index =>
      cases hr; cases htype
      exact typed_binding (l := .ofUnits env us) hd rfl
    | color number many =>
      cases hr; cases htype
      -- one of several colours is an element of an array
      refine .defined (hsingle rfl) ?_
      cases many with
      | true => exact .colors number
      | false => exact .color
    | depth x =>
      cases hr; cases htype
      exact .defined (hsingle rfl) .depth
    -- these declare no register
    | arrayBase _ _ | literalArray _ | bump _ _ | positionFlip => cases hr
  · -- the face and the position are the only registers among the locals
    have hline := hasLine_program_of_local p o hd
    cases d with
    | face x =>
      have heq : (Local.face x).line env.toShader = "" ++ VarType.float.text ++ " "
          ++ x.name env.toShader ++ (" = " ++ "gl_FrontFacing ? 1.0 : -1.0" ++ ";") := by
        simp only [Local.line, String.append_assoc]
        rfl
      exact .declared "" _ (by decide) (.valued _) (heq ▸ hline)
    | position x =>
      have heq : (Local.position x).line env.toShader = "" ++ VarType.vec4.text ++ " "
          ++ x.name env.toShader ++ (" = " ++ ("vec4(gl_FragCoord.x, "
            ++ "(gl_FragCoord.y * vposFlip.x) + vposFlip.y, gl_FragCoord.z, gl_FragCoord.w)") ++ ";") := by
        simp only [Local.line, String.append_assoc]
        rfl
      exact .declared "" _ (by decide) (.valued _) (heq ▸ hline)

end Glsl

end ShaderLift
