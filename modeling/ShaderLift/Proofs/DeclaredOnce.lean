/-
Which names a program introduces twice.  Of the registers only those that the code defines can be declared
more than once: the others are declared for one thing, which goes by their file, and once for it
(`originOf`). Varyings come from the inputs and outputs that are bound to them, and from texture
registers.

So a name comes up twice in one of four ways (`Clash`): the code defines a constant more than once, two
arrays that the host provides begin with the same register, two inputs or outputs are bound to the same
varying, or two outputs are homonyms.
-/
import ShaderLift.Proofs.Families
import ShaderLift.Proofs.Meanings
import ShaderLift.Proofs.Requests

namespace ShaderLift

namespace Glsl

/-! ### Registers -/

/-- What a register is declared for, by its file. -/
def originOf (sh : Shader) (r : Register) : Decl.Origin :=
  match r.file with
  | .temp | .predicate => .global
  | .address => if sh.isPixel && sh.atLeast 1 4 then .inOut else .global
  | .const | .constInt | .constBool => .constant
  | .sampler => .sampler
  | _ => .inOut

section Registers

variable {l : LinkedShader} {r : Register}

theorem registers_array (l : LinkedShader) :
    (declarationsOf l .array).filterMap Decl.register? = [] := by
  rw [List.filterMap_eq_nil_iff]
  intro d hd
  have horigin := origin_of_mem_declarationsOf hd
  cases d <;> first | rfl | cases horigin

theorem registers_literal (l : LinkedShader) :
    (declarationsOf l .literal).filterMap Decl.register? = l.scan.constants.map Constant.register := by
  show (l.scan.constants.map Decl.literal).filterMap _ = _
  rw [List.filterMap_map]
  exact congrFun List.filterMap_eq_map _

theorem registers_constant (l : LinkedShader) :
    (declarationsOf l .constant).filterMap Decl.register? =
      l.interface.constants.map PlacedConstant.register := by
  show (l.interface.constants.map Decl.constant).filterMap _ = _
  rw [List.filterMap_map]
  exact congrFun List.filterMap_eq_map _

theorem registers_global_sublist (l : LinkedShader) :
    ((declarationsOf l .global).filterMap Decl.register?).Sublist l.interface.globals := by
  show ((l.interface.globals.flatMap _).filterMap _).Sublist _
  rw [List.filterMap_flatMap]
  nth_rewrite 2 [← List.map_id l.interface.globals]
  refine flatMap_sublist_map (fun r => ?_) _
  rcases variableDecls_cases l.env.toShader r with hnone | ⟨d, hone, -, hregister⟩
  · rw [hnone]
    exact List.nil_sublist _
  · rw [hone, List.filterMap_cons_some hregister]
    exact .refl _

theorem registers_sampler_sublist (l : LinkedShader) :
    ((declarationsOf l .sampler).filterMap Decl.register?).Sublist
      (l.interface.samplers.map fun x => Glsl.sampler x.stage) := by
  show ((l.interface.samplers.flatMap _).filterMap _).Sublist _
  rw [List.filterMap_flatMap]
  refine flatMap_sublist_map (fun x => ?_) _
  unfold samplerDecls
  cases x.kind <;> cases x.bumpSlot <;> simp [Decl.register?]

theorem registers_inOut_sublist (l : LinkedShader) :
    ((declarationsOf l .inOut).filterMap Decl.register?).Sublist
      (l.interface.attributes.map Prod.fst) := by
  show ((l.interface.attributes.flatMap _).filterMap _).Sublist _
  rw [List.filterMap_flatMap]
  refine flatMap_sublist_map (fun e => ?_) _
  rcases attributeDecls_cases l.env.toShader l.interface.manyColors e.1 e.2 with
    hnone | ⟨d, hone, -, hregister | rfl⟩
  · rw [hnone]
    exact List.nil_sublist _
  · rw [hone, List.filterMap_cons_some hregister]
    exact .refl _
  · rw [hone]
    exact List.nil_sublist _

end Registers

/-! ### Registers of a shader without a fault -/

section Clean

variable {env : Env} {us : List Word}
variable {e : Register × Attribute}

theorem originOf_global {sh : Shader} {r : Register} {d : Decl} (h : d ∈ variableDecls sh r) :
    originOf sh r = .global := by
  obtain ⟨file, number⟩ := r
  unfold originOf
  cases file with
  | temp | predicate => rfl
  | address =>
    obtain ⟨-, hold⟩ := file_of_mem_variableDecls h
    cases hpixel : sh.isPixel with
    | false => rfl
    | true =>
      rw [hold rfl hpixel]
      rfl
  | _ => cases h

/-- The inputs and outputs of a pixel shader before model 2: colours, outputs with a meaning of their own,
and texture registers with their coordinates. -/
theorem attributes_of_old (clean : (Scan.ofUnits env us).faults = []) (hpixel : env.isPixel = true)
    (hmodel : env.atLeast 2 0 = false) (he : e ∈ (LinkedShader.ofUnits env us).interface.attributes) :
    Scan.IsCoordinates e.1 e.2 ∨ Interface.impliedAttribute? env.toShader e.1 = some e.2 := by
  have hsorted := (Scan.tablesSorted_ofUnits env us).attributes
  rcases Interface.given_or_implied hsorted he with hgiven | ⟨-, himplied⟩
  · exact .inl (Scan.coordinates_ofUnits clean hpixel hmodel _ _ hgiven)
  · exact .inr himplied

theorem originOf_inOut (clean : (Scan.ofUnits env us).faults = [])
    (fits : Interface.Fits env.toShader (Scan.ofUnits env us))
    (he : e ∈ (LinkedShader.ofUnits env us).interface.attributes) {many : Bool} {d : Decl}
    (hd : d ∈ attributeDecls env.toShader many e.1 e.2) (hregister : d.register? = some e.1) :
    originOf env.toShader e.1 = .inOut := by
  have hfaults := fits.attributes e he
  obtain ⟨⟨file, number⟩, a⟩ := e
  unfold originOf
  cases hstage : env.stage with
  | vertex =>
    have hfile := Interface.isVertexAttribute_of_faults hfaults hstage
    cases file <;> first | rfl | cases hfile
  | pixel =>
    have hfile := Interface.isPixelAttribute_of_faults hfaults hstage
    cases file with
    | address =>
      have hpixel : env.isPixel = true := by
        unfold Shader.isPixel
        rw [hstage]
        rfl
      cases hmodel : env.atLeast 1 4 with
      | true =>
        dsimp only
        rw [hpixel]
        rfl
      | false =>
        -- then all that texture registers mean are coordinates, which are declared as variables
        exfalso
        have hold : env.atLeast 2 0 = false := env.atLeast_eq_false_of_le hmodel (by decide)
        have husage : a.usage = .texCoord := by
          rcases attributes_of_old clean hpixel hold he with ⟨-, ha⟩ | himplied
          · dsimp only at ha
            rw [ha]
          · simp [Interface.impliedAttribute?, RegisterFile.isOutput] at himplied
        unfold attributeDecls at hd
        rw [hstage] at hd
        dsimp only at hd
        rw [husage, hmodel] at hd
        cases hd
    | _ => first | rfl | cases hfile

theorem map_sampler_placeSamplers (slots : Slots) {es : List (Register × SamplerUse)}
    (h : ∀ e ∈ es, e.1.file = .sampler) :
    ((Interface.placeSamplers slots es).1.map fun x => Glsl.sampler x.stage) = es.map Prod.fst := by
  induction es generalizing slots with
  | nil => rfl
  | cons e es ih =>
    obtain ⟨hfile, hrest⟩ := List.forall_mem_cons.mp h
    obtain ⟨⟨file, number⟩, use⟩ := e
    obtain rfl : file = .sampler := hfile
    exact congrArg (⟨.sampler, number⟩ :: ·) (ih _ hrest)

theorem nodup_samplers (env : Env) (us : List Word) :
    ((LinkedShader.ofUnits env us).interface.samplers.map fun x => Glsl.sampler x.stage).Nodup := by
  have hfile : ∀ e ∈ (Scan.ofUnits env us).samplers.entries, e.1.file = .sampler :=
    fun e he => Scan.file_of_sampler (List.mem_map_of_mem he)
  show ((Interface.placeSamplers _ _).1.map _).Nodup
  rw [map_sampler_placeSamplers _ hfile]
  exact (Scan.tablesSorted_ofUnits env us).samplers.nodup

section Fits

variable (clean : (Scan.ofUnits env us).faults = [])
  (fits : Interface.Fits env.toShader (Scan.ofUnits env us))
include clean fits

variable {origin : Decl.Origin}

/-- A register that is declared, but not as a literal, is declared for what its file says. -/
theorem originOf_declared (hliteral : origin ≠ .literal) {r : Register}
    (h : r ∈ (declarationsOf (.ofUnits env us) origin).filterMap Decl.register?) :
    originOf env.toShader r = origin := by
  obtain ⟨d, hd, hregister⟩ := List.mem_filterMap.mp h
  cases introduction_of_mem hd hregister with
  | literal => exact absurd rfl hliteral
  | global _ hd => exact originOf_global hd
  | @constant c =>
    unfold PlacedConstant.register originOf
    cases c.kind <;> rfl
  | sampler => rfl
  | inOut he hd => exact originOf_inOut clean fits he hd hregister

omit clean fits in
theorem nodup_declared (hliteral : origin ≠ .literal) :
    ((declarationsOf (.ofUnits env us) origin).filterMap Decl.register?).Nodup := by
  have htables := Scan.tablesSorted_ofUnits env us
  have hundeclared : (Interface.undeclared (Scan.ofUnits env us)).Nodup := htables.used.nodup.filter _
  cases origin with
  | literal => exact absurd rfl hliteral
  | array =>
    rw [registers_array]
    exact List.nodup_nil
  | global => exact (registers_global_sublist _).nodup (hundeclared.filter _)
  | constant =>
    rw [registers_constant, LinkedShader.ofUnits, Interface.map_register_ofScan]
    exact hundeclared.filter _
  | sampler => exact (registers_sampler_sublist _).nodup (nodup_samplers env us)
  | inOut =>
    refine (registers_inOut_sublist _).nodup ?_
    exact (Interface.sorted_attributesOf env.toShader htables.attributes).nodup

theorem nodup_declared_all {origins : List Decl.Origin} (h : origins.Nodup)
    (hliteral : .literal ∉ origins) :
    (origins.flatMap fun origin =>
      (declarationsOf (.ofUnits env us) origin).filterMap Decl.register?).Nodup := by
  have hne : ∀ origin ∈ origins, origin ≠ .literal := by
    rintro origin ho rfl
    exact hliteral ho
  refine List.nodup_flatMap.mpr ⟨fun origin ho => nodup_declared (hne origin ho), ?_⟩
  refine h.imp_of_mem fun {a b} ha hb hab => ?_
  intro r hra hrb
  apply hab
  rw [← originOf_declared clean fits (hne a ha) hra, originOf_declared clean fits (hne b hb) hrb]

theorem not_declared_of_literal (hliteral : origin ≠ .literal) {c : Constant}
    (hc : c ∈ (Scan.ofUnits env us).constants) :
    c.register ∉ (declarationsOf (.ofUnits env us) origin).filterMap Decl.register? := by
  intro hmem
  have hconstant : originOf env.toShader c.register = .constant := by
    unfold Constant.register originOf
    cases c.kind <;> rfl
  obtain rfl : origin = .constant := (originOf_declared clean fits hliteral hmem).symm.trans hconstant
  have hkind : Interface.constantKind? c.register ≠ none := by
    unfold Constant.register Interface.constantKind?
    cases c.kind <;> simp [ConstantKind.file]
  have hdefined := (Scan.isDefined_ofUnits_iff clean hkind).mpr ⟨c, hc, rfl⟩
  rw [registers_constant, LinkedShader.ofUnits, Interface.map_register_ofScan] at hmem
  have hundeclared := (List.mem_filter.mp (List.mem_filter.mp hmem).1).2
  rw [hdefined] at hundeclared
  cases hundeclared

theorem duplicate_register_iff (branch : Nat) (p : Profile) (o : Options) {r : Register} :
    (programNames branch p o (.ofUnits env us)).Duplicate (.register r) ↔
      ((Scan.ofUnits env us).constants.map Constant.register).Duplicate r := by
  have hregister : ∀ (n : Name) (r : Register), n.register? = some r ↔ n = .register r := by
    intro n r
    cases n <;> simp [Name.register?]
  have hsplit : (declarations (.ofUnits env us)).filterMap Decl.register? =
      (Scan.ofUnits env us).constants.map Constant.register ++
        [.global, .array, .constant, .sampler, .inOut].flatMap fun origin =>
          (declarationsOf (.ofUnits env us) origin).filterMap Decl.register? := by
    rw [declarations_eq]
    simp only [List.filterMap_append, registers_literal, List.flatMap_cons, List.flatMap_nil,
      List.append_nil, List.append_assoc]
    rfl
  rw [duplicate_family_iff hregister, registers_programNames, hsplit]
  refine duplicate_append_left_iff (nodup_declared_all clean fits (by decide) (by decide)) ?_
  intro x hx hother
  obtain ⟨c, hc, rfl⟩ := List.mem_map.mp hx
  obtain ⟨origin, horigin, hmem⟩ := List.mem_flatMap.mp hother
  refine not_declared_of_literal clean fits ?_ hc hmem
  rintro rfl
  simp at horigin

end Fits

end Clean

/-! ### Names that are known -/

section Known

variable {env : Env} {us : List Word}

theorem isNamed_declared (fits : Interface.Fits env.toShader (Scan.ofUnits env us)) {d : Decl}
    (hd : d ∈ declarations (.ofUnits env us)) {r : Register} (hregister : d.register? = some r) :
    r.file.isNamed = true := by
  have hkind : ∀ kind : ConstantKind, kind.file.isNamed = true := by
    intro kind
    cases kind <;> rfl
  obtain ⟨origin, hintroduction⟩ := introduction_of_mem_declarations hd hregister
  cases hintroduction with
  | @literal c | @constant c => exact hkind c.kind
  | global _ hd =>
    obtain ⟨file, number⟩ := r
    cases file <;> first | rfl | cases hd
  | sampler => rfl
  | @inOut d e he hd =>
    have hfaults := fits.attributes e he
    obtain ⟨⟨file, number⟩, a⟩ := e
    cases hstage : env.stage with
    | vertex =>
      have hfile := Interface.isVertexAttribute_of_faults hfaults hstage
      cases file <;> first | rfl | cases hfile
    | pixel =>
      have hfile := Interface.isPixelAttribute_of_faults hfaults hstage
      cases file with
      | misc =>
        -- the side of a face and the position are declared where they are read
        unfold attributeDecls at hd
        rw [show (LinkedShader.ofUnits env us).env.stage = .pixel from hstage] at hd
        dsimp only at hd
        split at hd
        · rw [List.mem_singleton.mp hd] at hregister
          cases hregister
        · cases hd
      | _ => first | rfl | cases hfile

theorem known_programNames (fits : Interface.Fits env.toShader (Scan.ofUnits env us)) (branch : Nat)
    (p : Profile) (o : Options) : ∀ n ∈ programNames branch p o (.ofUnits env us), n.Known := by
  intro n hn
  cases n with
  | register r =>
    have hmem : r ∈ (declarations (.ofUnits env us)).filterMap Decl.register? := by
      rw [← registers_programNames branch p o]
      exact List.mem_filterMap.mpr ⟨_, hn, rfl⟩
    obtain ⟨d, hd, hregister⟩ := List.mem_filterMap.mp hmem
    exact isNamed_declared fits hd hregister
  | word text => exact mem_words_of_mem_programNames branch p o _ hn
  | _ => trivial

end Known

/-! ### Varyings -/

section Varyings

variable {env : Env} {us : List Word}
variable {usage : Usage} {index : Nat}

/-- The varying that an input or output is bound to. -/
def boundVarying? (p : Profile) (l : LinkedShader) (e : Register × Attribute) : Option (Usage × Nat) :=
  (attributeDecls l.env.toShader l.interface.manyColors e.1 e.2).head?.bind (Decl.varying? p)

theorem varyings_inOut (p : Profile) (l : LinkedShader) :
    (declarationsOf l .inOut).filterMap (Decl.varying? p) =
      l.interface.attributes.filterMap (boundVarying? p l) := by
  show (l.interface.attributes.flatMap _).filterMap _ = _
  rw [List.filterMap_flatMap, List.filterMap_eq_flatMap_toList]
  refine congrArg l.interface.attributes.flatMap (funext fun e => ?_)
  unfold boundVarying?
  rcases attributeDecls_cases l.env.toShader l.interface.manyColors e.1 e.2 with hnone | ⟨d, hone, -, -⟩
  · rw [hnone]
    rfl
  · rw [hone, List.filterMap_eq_flatMap_toList]
    exact List.append_nil _

/-- A variable that takes a varying holds the texture coordinates of its register. -/
theorem mem_varyings_variableDecls {p : Profile} {sh : Shader} {r : Register}
    (h : (usage, index) ∈ (variableDecls sh r).filterMap (Decl.varying? p)) :
    r = ⟨.texture, index⟩ ∧ usage = .texCoord ∧ sh.isPixel = true ∧ sh.atLeast 1 4 = false := by
  obtain ⟨d, hd, hvarying⟩ := List.mem_filterMap.mp h
  obtain ⟨horigin, hregister⟩ := mem_variableDecls hd
  cases d with
  | coordinates number =>
    cases hregister
    have hpixel : sh.isPixel = true ∧ sh.atLeast 1 4 = false := by
      cases hpixel : sh.isPixel <;> cases hmodel : sh.atLeast 1 4 <;>
        simp [variableDecls, sh.isVertex_eq_not_isPixel, hpixel, hmodel] at hd ⊢
    have hvarying : (if _ then none else some (Usage.texCoord, number)) = some (usage, index) := hvarying
    split at hvarying
    · cases hvarying
    · cases hvarying
      exact ⟨rfl, rfl, hpixel⟩
  | _ => first | cases hvarying | cases horigin

theorem nodup_varyings_global (p : Profile) (env : Env) (us : List Word) :
    ((declarationsOf (.ofUnits env us) .global).filterMap (Decl.varying? p)).Nodup := by
  have hglobals : (LinkedShader.ofUnits env us).interface.globals.Nodup :=
    ((Scan.tablesSorted_ofUnits env us).used.nodup.filter _).filter _
  show ((List.flatMap _ _).filterMap _).Nodup
  rw [List.filterMap_flatMap, List.nodup_flatMap]
  constructor
  · intro r _
    rcases variableDecls_cases env.toShader r with hnone | ⟨d, hone, -, -⟩
    · rw [show variableDecls (LinkedShader.ofUnits env us).env.toShader r = [] from hnone]
      exact List.nodup_nil
    · rw [show variableDecls (LinkedShader.ofUnits env us).env.toShader r = [d] from hone]
      cases hd : d.varying? p with
      | none =>
        rw [List.filterMap_cons_none hd]
        exact List.nodup_nil
      | some v =>
        rw [List.filterMap_cons_some hd]
        exact List.nodup_singleton v
  · refine hglobals.imp fun {r x} hne => ?_
    rintro ⟨usage, index⟩ hr hx
    apply hne
    rw [(mem_varyings_variableDecls hr).1, (mem_varyings_variableDecls hx).1]

theorem usage_of_boundVarying (clean : (Scan.ofUnits env us).faults = [])
    (hpixel : env.isPixel = true) (hmodel : env.atLeast 1 4 = false) (p : Profile)
    {e : Register × Attribute} (he : e ∈ (LinkedShader.ofUnits env us).interface.attributes)
    (h : boundVarying? p (.ofUnits env us) e = some (usage, index)) : usage ≠ .texCoord := by
  have hold : env.atLeast 2 0 = false := env.atLeast_eq_false_of_le hmodel (by decide)
  have hstage : env.stage = .pixel := by simpa [Shader.isPixel] using hpixel
  obtain ⟨⟨file, number⟩, a⟩ := e
  unfold boundVarying? attributeDecls at h
  rw [show (LinkedShader.ofUnits env us).env.stage = .pixel from hstage] at h
  rcases attributes_of_old clean hpixel hold he with ⟨hfile, ha⟩ | himplied
  · obtain rfl : file = .address := hfile
    obtain rfl : a = ⟨.texCoord, number, false⟩ := ha
    dsimp only at h
    rw [show (LinkedShader.ofUnits env us).env.atLeast 1 4 = false from hmodel] at h
    cases h
  · cases file with
    | input =>
      have hcolor : Interface.impliedAttribute? env.toShader ⟨.input, number⟩ =
          some ⟨.color, number, false⟩ := by
        simp [Interface.impliedAttribute?, RegisterFile.isOutput, hold, hstage]
      obtain rfl : a = ⟨.color, number, false⟩ := (Option.some.inj (hcolor.symm.trans himplied)).symm
      have h : (if _ then none else some (Usage.color, number)) = some (usage, index) := h
      split at h
      · cases h
      · cases h
        simp
    | address => simp [Interface.impliedAttribute?, RegisterFile.isOutput] at himplied
    | misc => simp [Interface.impliedAttribute?, RegisterFile.isOutput] at himplied
    | _ => cases h

theorem duplicate_varying_iff (clean : (Scan.ofUnits env us).faults = []) (branch : Nat) (p : Profile)
    (o : Options) :
    (programNames branch p o (.ofUnits env us)).Duplicate (.varying usage index) ↔
      ∃ e ∈ (LinkedShader.ofUnits env us).interface.attributes,
        ∃ e' ∈ (LinkedShader.ofUnits env us).interface.attributes, e ≠ e' ∧
          boundVarying? p (.ofUnits env us) e = some (usage, index) ∧
          boundVarying? p (.ofUnits env us) e' = some (usage, index) := by
  have hvarying : ∀ (n : Name) (v : Usage × Nat), n.varying? = some v ↔ n = .varying v.1 v.2 := by
    intro n v
    cases n with
    | varying usage index => simp [Name.varying?, Prod.ext_iff]
    | _ => simp [Name.varying?]
  -- only coordinates, outputs and inputs are varyings
  have hnil : ∀ origin, origin ≠ .global → origin ≠ .inOut →
      (declarationsOf (.ofUnits env us) origin).filterMap (Decl.varying? p) = [] := by
    intro origin hglobal hinOut
    rw [List.filterMap_eq_nil_iff]
    intro d hd
    have horigin := origin_of_mem_declarationsOf hd
    cases d with
    | coordinates | vertexOutput | pixelInput =>
      rw [← horigin] at hglobal hinOut
      simp [Decl.origin] at hglobal hinOut
    | _ => rfl
  have hsplit : (declarations (.ofUnits env us)).filterMap (Decl.varying? p) =
      (declarationsOf (.ofUnits env us) .global).filterMap (Decl.varying? p) ++
        (LinkedShader.ofUnits env us).interface.attributes.filterMap (boundVarying? p (.ofUnits env us)) := by
    rw [declarations_eq, ← varyings_inOut]
    simp [List.filterMap_append, hnil]
  have hattributes : (LinkedShader.ofUnits env us).interface.attributes.Nodup :=
    (Interface.sorted_attributesOf env.toShader (Scan.tablesSorted_ofUnits env us).attributes).nodup.of_map
  refine (duplicate_family_iff (g := fun v : Usage × Nat => Name.varying v.1 v.2) hvarying
    (b := (usage, index))).trans ?_
  rw [varyings_programNames, hsplit, duplicate_append_right_iff (nodup_varyings_global p env us),
    duplicate_filterMap_of_nodup hattributes]
  -- where variables are coordinates, no binding is one
  rintro ⟨usage, index⟩ hglobal hinOut
  obtain ⟨d, hd, hcoordinates⟩ := List.mem_filterMap.mp hglobal
  obtain ⟨r, -, hr⟩ := List.mem_flatMap.mp hd
  obtain ⟨-, husage, hpixel, hmodel⟩ :=
    mem_varyings_variableDecls (List.mem_filterMap.mpr ⟨d, hr, hcoordinates⟩)
  obtain ⟨e, he, hbound⟩ := List.mem_filterMap.mp hinOut
  exact usage_of_boundVarying clean hpixel hmodel p he hbound husage

end Varyings

/-! ### Clashes -/

/-- The ways in which a program comes to introduce a name twice. -/
inductive Clash (p : Profile) (l : LinkedShader) : String → Prop
  /-- The code defines a constant more than once. -/
  | constant {r : Register} (twice : (l.scan.constants.map Constant.register).Duplicate r) :
      Clash p l (r.name l.env.toShader)
  /-- Two arrays that the host provides begin with the same register. -/
  | arrayBase {q q' : PlacedArray} {base : Nat} (hq : q ∈ l.interface.arrays)
      (hq' : q' ∈ l.interface.arrays) (hne : q ≠ q') (first : hostBase? q = some base)
      (second : hostBase? q' = some base) : Clash p l ((Ident.arrayBase base).text l.env.toShader)
  /-- Two inputs or outputs are bound to the same varying. -/
  | varying {e e' : Register × Attribute} {usage : Usage} {index : Nat}
      (he : e ∈ l.interface.attributes) (he' : e' ∈ l.interface.attributes) (hne : e ≠ e')
      (first : boundVarying? p l e = some (usage, index))
      (second : boundVarying? p l e' = some (usage, index)) :
      Clash p l (Varying.mk usage index false).text
  | homonyms {e e' : Register × Attribute} (he : e ∈ l.interface.attributes)
      (he' : e' ∈ l.interface.attributes) (hne : e.1 ≠ e'.1) (same : Homonyms e.1 e'.1) :
      Clash p l (e.1.name l.env.toShader)

section Clash

variable {env : Env} {us : List Word} (clean : (Scan.ofUnits env us).faults = [])
  (fits : Interface.Fits env.toShader (Scan.ofUnits env us)) (branch : Nat) (p : Profile) (o : Options)

theorem nodup_arrays (clean : (Scan.ofUnits env us).faults = []) :
    ((LinkedShader.ofUnits env us).interface.arrays.map fun q => (q.array.index, q.array.count)).Nodup := by
  have hnodup := Interface.nodup_usedArrays clean
  rw [← Interface.map_array_placeArrays 0 (Interface.usedArrays (Scan.ofUnits env us)), List.map_map]
    at hnodup
  exact hnodup

include clean in
theorem duplicate_arrayBase_iff {base : Nat} :
    (programNames branch p o (.ofUnits env us)).Duplicate (.arrayBase base) ↔
      ∃ q ∈ (LinkedShader.ofUnits env us).interface.arrays,
        ∃ q' ∈ (LinkedShader.ofUnits env us).interface.arrays, q ≠ q' ∧
          hostBase? q = some base ∧ hostBase? q' = some base := by
  have hbase : ∀ (n : Name) (base : Nat), n.arrayBase? = some base ↔ n = .arrayBase base := by
    intro n base
    cases n <;> simp [Name.arrayBase?]
  rw [duplicate_family_iff hbase, arrayBases_programNames,
    duplicate_filterMap_of_nodup (nodup_arrays clean).of_map]

include clean fits in
/-- A name that comes up twice is that of a register, a varying or the base of an array. -/
theorem clash_of_duplicate {n : Name} (h : (programNames branch p o (.ofUnits env us)).Duplicate n) :
    Clash p (.ofUnits env us) (n.text env.toShader) := by
  have hattributes : ((LinkedShader.ofUnits env us).interface.attributes.map Prod.fst).Nodup :=
    (Interface.sorted_attributesOf env.toShader (Scan.tablesSorted_ofUnits env us).attributes).nodup
  have hstages : ((LinkedShader.ofUnits env us).interface.samplers.map PlacedSampler.stage).Nodup := by
    refine List.Nodup.of_map Glsl.sampler ?_
    rw [List.map_map]
    exact nodup_samplers env us
  have hbump : ∀ b : Bool × Nat, ¬ (programNames branch p o (.ofUnits env us)).Duplicate
      (if b.1 then .bumpLuminance b.2 else .bumpMatrix b.2) := by
    refine not_duplicate_family (f := Name.bump?) (fun n b => ?_)
      ((bumps_programNames branch p o (.ofUnits env us)).nodup (List.nodup_flatMap.mpr ⟨?_, ?_⟩))
    · cases n <;> obtain ⟨_ | _, stage⟩ := b <;> simp [Name.bump?]
    · simp
    · exact hstages.imp fun hne => by simp [Function.onFun, hne.symm]
  cases n with
  | register r => exact .constant ((duplicate_register_iff clean fits branch p o).mp h)
  | varying usage index =>
    obtain ⟨e, he, e', he', hne, hfirst, hsecond⟩ := (duplicate_varying_iff clean branch p o).mp h
    exact .varying he he' hne hfirst hsecond
  | arrayBase base =>
    obtain ⟨q, hq, q', hq', hne, hfirst, hsecond⟩ := (duplicate_arrayBase_iff clean branch p o).mp h
    exact .arrayBase hq hq' hne hfirst hsecond
  -- the other names are all different
  | constArray base count =>
    have hfamily : ∀ (n : Name) (a : Nat × Nat), n.constArray? = some a ↔ n = .constArray a.1 a.2 := by
      intro n a
      cases n with
      | constArray base count => simp [Name.constArray?, Prod.ext_iff]
      | _ => simp [Name.constArray?]
    have hnodup := (constArrays_programNames branch p o (.ofUnits env us)).nodup (nodup_arrays clean)
    exact absurd h (not_duplicate_family (g := fun a : Nat × Nat => Name.constArray a.1 a.2) hfamily
      hnodup (base, count))
  | bumpMatrix stage => exact absurd h (hbump (false, stage))
  | bumpLuminance stage => exact absurd h (hbump (true, stage))
  | packed kind =>
    have hnodup := nodup_packed branch p o (.ofUnits env us)
    exact absurd h (not_duplicate_family Name.packed?_eq_some_iff hnodup kind)
  | word text =>
    have hnodup := nodup_words branch p o (.ofUnits env us) hattributes (Scan.nodup_helpers_ofUnits env us)
    exact absurd h (not_duplicate_family Name.word?_eq_some_iff hnodup text)

include clean fits in
theorem register_mem_programNames_iff {r : Register} (hfile : r.file = .depthOut ∨ r.file = .rastOut) :
    .register r ∈ programNames branch p o (.ofUnits env us) ↔
      ∃ e ∈ (LinkedShader.ofUnits env us).interface.attributes, e.1 = r := by
  rw [mem_programNames_iff, List.mem_filterMap]
  constructor
  · rintro ⟨d, hd, hregister⟩
    have hd := mem_declarationsOf hd
    have hdeclared : r ∈ (declarationsOf (.ofUnits env us) d.origin).filterMap Decl.register? :=
      List.mem_filterMap.mpr ⟨d, hd, hregister⟩
    -- a literal is in a file of constants
    have hliteral : d.origin ≠ .literal := by
      intro hliteral
      rw [hliteral, registers_literal] at hdeclared
      obtain ⟨c, -, rfl⟩ := List.mem_map.mp hdeclared
      unfold Constant.register at hfile
      cases hkind : c.kind <;> simp [hkind, ConstantKind.file] at hfile
    have horigin := originOf_declared clean fits hliteral hdeclared
    have hinOut : originOf env.toShader r = .inOut := by
      unfold originOf
      rcases hfile with hfile | hfile <;> rw [hfile]
    rw [← horigin, hinOut] at hdeclared
    exact List.mem_map.mp ((registers_inOut_sublist _).subset hdeclared)
  · rintro ⟨e, he, rfl⟩
    have hdeclared : ∃ d ∈ attributeDecls env.toShader
        (LinkedShader.ofUnits env us).interface.manyColors e.1 e.2, d.register? = some e.1 := by
      cases hstage : env.stage with
      | vertex =>
        obtain ⟨d, hone, -, hregister⟩ := attributeDecls_of_vertex hstage
          (LinkedShader.ofUnits env us).interface.manyColors e.1 e.2
        exact ⟨d, hone ▸ List.mem_cons_self, hregister⟩
      | pixel =>
        have hpixel := Interface.isPixelAttribute_of_faults (fits.attributes e he) hstage
        -- a pixel shader has no outputs of the rasterizer
        rcases hfile with hfile | hfile
        · refine ⟨.depth e.1, ?_, rfl⟩
          unfold attributeDecls
          rw [hstage, hfile]
          exact List.mem_cons_self
        · simp [Interface.isPixelAttribute, hfile] at hpixel
    obtain ⟨d, hd, hregister⟩ := hdeclared
    refine ⟨d, ?_, hregister⟩
    exact List.mem_append_right _ (List.mem_flatMap.mpr ⟨e, he, hd⟩)

include clean fits in
theorem duplicate_introducedNames_iff {x : String} :
    (introducedNames branch (sectionLines p o (.ofUnits env us))).Duplicate x ↔
      Clash p (.ofUnits env us) x := by
  have hfile : ∀ {r x : Register}, Homonyms r x → (r.file = .depthOut ∨ r.file = .rastOut) ∧
      (x.file = .depthOut ∨ x.file = .rastOut) := by
    intro r x h
    cases h with
    | depth m n => exact ⟨.inl rfl, .inl rfl⟩
    | rasterizer hm hn => exact ⟨.inr rfl, .inr rfl⟩
  rw [introducedNames_sectionLines, ← List.filterMap_eq_map, duplicate_filterMap_iff]
  constructor
  · rintro (⟨n, htext, hduplicate⟩ | ⟨n, hn, m, hm, hne, htext, htext'⟩)
    · rw [← Option.some.inj htext]
      exact clash_of_duplicate clean fits branch p o hduplicate
    · -- different names with one spelling are those of homonyms
      have hknown := known_programNames fits branch p o
      have hsame : n.text env.toShader = m.text env.toShader :=
        (Option.some.inj htext).trans (Option.some.inj htext').symm
      rcases Name.eq_or_homonyms (hknown n hn) (hknown m hm) hsame with rfl | ⟨r, x, rfl, rfl, hhomonyms⟩
      · exact absurd rfl hne
      · obtain ⟨hr, hx⟩ := hfile hhomonyms
        obtain ⟨e, he, rfl⟩ := (register_mem_programNames_iff clean fits branch p o hr).mp hn
        obtain ⟨e', he', rfl⟩ := (register_mem_programNames_iff clean fits branch p o hx).mp hm
        rw [← Option.some.inj htext]
        exact .homonyms he he' (fun h => hne (congrArg Name.register h)) hhomonyms
  · intro hclash
    cases hclash with
    | constant twice =>
      exact .inl ⟨_, rfl, (duplicate_register_iff clean fits branch p o).mpr twice⟩
    | arrayBase hq hq' hne first second =>
      exact .inl ⟨_, rfl, (duplicate_arrayBase_iff clean branch p o).mpr ⟨_, hq, _, hq', hne, first, second⟩⟩
    | varying he he' hne first second =>
      exact .inl ⟨_, rfl, (duplicate_varying_iff clean branch p o).mpr ⟨_, he, _, he', hne, first, second⟩⟩
    | @homonyms e e' he he' hne same =>
      obtain ⟨hr, hx⟩ := hfile same
      refine .inr ⟨.register e.1, (register_mem_programNames_iff clean fits branch p o hr).mpr ⟨e, he, rfl⟩,
        .register e'.1, (register_mem_programNames_iff clean fits branch p o hx).mpr ⟨e', he', rfl⟩, ?_, rfl,
        congrArg some (same.name_eq env.toShader).symm⟩
      intro h
      exact hne (Name.register.inj h)

end Clash

/-! ### Programs -/

theorem output_eq_sections {p : Profile} {o : Options} {ws : List Word} {l : LinkedShader}
    (h : linkShader o ws = .ok l) :
    (liftWords p o ws).output = unlines (sectionLines p o l) ++ functionsText o l := by
  rw [← program_eq_sections]
  rw [liftWords_eq]
  rw [h]
  rfl

theorem linked_of_no_errors {p : Profile} {o : Options} {ws : List Word}
    (h : (liftWords p o ws).errors = []) :
    ∃ env us, linkShader o ws = .ok (.ofUnits env us) ∧ (Scan.ofUnits env us).faults = [] ∧
      Interface.Fits env.toShader (Scan.ofUnits env us) := by
  obtain ⟨w, us, env, rfl, hversion, hclean, hlink⟩ := linkShader_of_no_errors p o ws h
  exact ⟨env, us, hlink, hclean, Interface.fits_of_faults (interface_of_linkShader hversion hclean hlink)⟩

end Glsl

open Glsl in
/-- **What is declared twice.**  Whichever part of the lines before the functions a condition selects, a name
is introduced twice by them exactly if there is a clash. -/
theorem lift_declared_twice_iff (p : Profile) (o : Options) (ws : List Word)
    (clean : (liftWords p o ws).errors = []) :
    ∃ l, linkShader o ws = .ok l ∧
      (liftWords p o ws).output = unlines (sectionLines p o l) ++ functionsText o l ∧
      ∀ branch name, (introducedNames branch (sectionLines p o l)).Duplicate name ↔ Clash p l name := by
  obtain ⟨env, us, hlink, hclean, hfits⟩ := linked_of_no_errors clean
  refine ⟨.ofUnits env us, hlink, output_eq_sections hlink, fun branch name => ?_⟩
  exact duplicate_introducedNames_iff hclean hfits branch p o

open Glsl in
theorem declared_twice_iff_doubledBases :
    (liftWords .glsl110 {} doubledBases).errors = [] ∧
      ∃ l, linkShader {} doubledBases = .ok l ∧
        (liftWords .glsl110 {} doubledBases).output =
          unlines (sectionLines .glsl110 {} l) ++ functionsText {} l ∧
        ∀ branch name,
          (introducedNames branch (sectionLines .glsl110 {} l)).Duplicate name ↔ Clash .glsl110 l name := by
  have clean : (liftWords .glsl110 {} doubledBases).errors = [] := by decide +kernel
  exact ⟨clean, lift_declared_twice_iff .glsl110 {} doubledBases clean⟩

/-- A vertex shader that defines c0 twice. -/
def repeatedDefinition : List Word :=
  [0xFFFE0200,
    0x05000051, 0xA00F0000, 0, 0, 0, 0,
    0x05000051, 0xA00F0000, 0x3F800000, 0, 0, 0,
    0x02000001, 0xC00F0000, 0xA0E40000,
    0xFFFF]

open Glsl in
/-- A constant that is defined twice is declared twice. -/
theorem repeatedDefinition_declared_twice :
    (liftWords .glsl110 {} repeatedDefinition).errors = [] ∧
      ∃ l, linkShader {} repeatedDefinition = .ok l ∧
        (liftWords .glsl110 {} repeatedDefinition).output =
          unlines (sectionLines .glsl110 {} l) ++ functionsText {} l ∧
        (introducedNames 0 (sectionLines .glsl110 {} l)).Duplicate "vs_c0" := by
  have clean : (liftWords .glsl110 {} repeatedDefinition).errors = [] := by
    rw [liftWords_eq]
    decide +kernel
  have htwice : ((linkShader {} repeatedDefinition).toOption.any fun l =>
      decide (2 ≤ (l.scan.constants.map Constant.register).count ⟨.const, 0⟩ ∧
        Register.name l.env.toShader ⟨.const, 0⟩ = "vs_c0")) = true := by decide +kernel
  obtain ⟨env, us, hlink, hclean, hfits⟩ := linked_of_no_errors clean
  rw [hlink] at htwice
  obtain ⟨hcount, hname⟩ := of_decide_eq_true htwice
  refine ⟨clean, _, hlink, output_eq_sections hlink, ?_⟩
  rw [duplicate_introducedNames_iff hclean hfits, ← hname]
  exact .constant (List.duplicate_iff_two_le_count.mpr hcount)

open Glsl in
-- two outputs that are declared as the same texture coordinates
example : (match linkShader {}
      [0xFFFE0300, 0x0200001F, 0x80050005, 0xE00F0000, 0x0200001F, 0x80050005, 0xE00F0001,
        0x02000001, 0xE00F0000, 0xA0E40000, 0xFFFF] with
    | .ok l => l.interface.attributes.filterMap (boundVarying? .glsl110 l)
    | .error _ => []) = [(.texCoord, 5), (.texCoord, 5)] := by
  decide +kernel

-- two outputs without a name of their own, of which no component is written
example : (match linkShader {}
      [0xFFFE0200, 0x02000001, 0xC0000003, 0xA0E40000, 0x02000001, 0xC0000004, 0xA0E40000,
        0xFFFF] with
    | .ok l => l.interface.attributes.map Prod.fst
    | .error _ => []) = [⟨.rastOut, 3⟩, ⟨.rastOut, 4⟩] := by
  decide +kernel

end ShaderLift
