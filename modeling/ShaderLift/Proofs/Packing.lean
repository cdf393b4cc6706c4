/-
The text of a program agrees with the walk of the host through its constants: the sizes that are
declared, the bases of the arrays and the places of all registers and samplers are those of the walk,
and every constant register that the code reads without defining it is found in exactly one way.

A register is looked for in the first entry that has it.  As arrays come first and no register is placed
twice, this is the array that it was put in, or its own entry.
-/
import ShaderLift.Proofs.Origins
import ShaderLift.Proofs.Places

namespace ShaderLift

variable (p : Glsl.Profile)

/-! ### Registers -/

namespace Interface

variable (sh : Shader) (arrays : List PlacedArray) {c : PlacedConstant} {e : Uniform × Option Nat}

theorem register_of_constantKind? {r : Register} {kind : ConstantKind}
    (h : constantKind? r = some kind) : (⟨kind.file, r.number⟩ : Register) = r := by
  obtain ⟨file, number⟩ := r
  cases file <;> cases h <;> rfl

theorem map_openConstants (s : Scan) :
    (openConstants s).map (fun k => (⟨k.1.file, k.2⟩ : Register)) =
      (undeclared s).filter fun r => (constantKind? r).isSome := by
  unfold openConstants
  induction undeclared s with
  | nil => rfl
  | cons r rs ih =>
    cases hk : constantKind? r with
    | none => simp [hk, ih]
    | some kind => simp [hk, ih, register_of_constantKind? hk]

theorem map_register_placeConstants (free : Slots) (ks : List (ConstantKind × Nat)) :
    (placeConstants arrays free ks).1.map PlacedConstant.register =
      ks.map fun k => (⟨k.1.file, k.2⟩ : Register) := by
  induction ks generalizing free with
  | nil => rfl
  | cons k ks ih =>
    obtain ⟨kind, number⟩ := k
    unfold placeConstants
    split
    · exact congrArg (_ :: ·) (ih free)
    · exact congrArg (_ :: ·) (ih (free.add 1 kind))

/-- A constant is in the newest array that has it, or else in a place of its own. -/
def Settled (arrays : List PlacedArray) (c : PlacedConstant) : Prop :=
  (∃ p, arrayOf? arrays c.kind c.number = some p ∧ c.place = placeIn p c.number) ∨
    (arrayOf? arrays c.kind c.number = none ∧ ∃ slot, c.place = .own slot)

theorem settled_placeConstants (free : Slots) (ks : List (ConstantKind × Nat)) :
    ∀ c ∈ (placeConstants arrays free ks).1, Settled arrays c := by
  induction ks generalizing free with
  | nil => exact fun c hc => nomatch hc
  | cons k ks ih =>
    obtain ⟨kind, number⟩ := k
    unfold placeConstants
    split
    next p hp => exact List.forall_mem_cons.mpr ⟨.inl ⟨p, hp, rfl⟩, ih free⟩
    next hnone => exact List.forall_mem_cons.mpr ⟨.inr ⟨hnone, _, rfl⟩, ih (free.add 1 kind)⟩

theorem isSingle_arrayUniform {p : PlacedArray} (nonempty : 0 < p.array.count) :
    (arrayUniform sh p).isSingle = false :=
  decide_eq_false (Nat.ne_of_gt nonempty)

theorem eq_of_ownUniform? {sh : Shader} (h : ownUniform? sh c = some e) :
    ∃ slot, e = (⟨c.kind, c.number, 0, false, c.register.name sh⟩, some slot) := by
  unfold ownUniform? at h
  split at h
  next slot _ => exact ⟨slot, (Option.some.inj h).symm⟩
  next => cases h

theorem isSingle_ownUniform {sh : Shader} (h : ownUniform? sh c = some e) : e.1.isSingle = true := by
  obtain ⟨slot, rfl⟩ := eq_of_ownUniform? h
  rfl

theorem holds_arrayUniform (p : PlacedArray) (nonempty : 0 < p.array.count) (kind : ConstantKind)
    (number : Nat) :
    (arrayUniform sh p).holds ⟨kind.file, number⟩ =
      (decide (kind = .float) && p.array.contains number) := by
  have hcount : max 1 p.array.count = p.array.count := Nat.max_eq_right nonempty
  unfold Uniform.holds arrayUniform ConstantArray.contains
  dsimp only
  rw [hcount, Bool.and_assoc]
  congr 1
  cases kind <;> rfl

theorem find?_arrayUniform (nonempty : ∀ p ∈ arrays, 0 < p.array.count) (kind : ConstantKind)
    (number : Nat) :
    (arrays.find? fun p => (arrayUniform sh p).holds ⟨kind.file, number⟩) =
      arrayOf? arrays kind number := by
  unfold arrayOf?
  induction arrays with
  | nil => simp
  | cons p arrays ih =>
    obtain ⟨hp, hrest⟩ := List.forall_mem_cons.mp nonempty
    rw [List.find?_cons, List.find?_cons, holds_arrayUniform sh p hp, ih hrest]
    by_cases hk : kind = .float
    · simp [hk]
    · simp [hk]

theorem holds_ownUniform {sh : Shader} (h : ownUniform? sh c = some e) (r : Register) :
    e.1.holds r = true ↔ c.register = r := by
  obtain ⟨slot, rfl⟩ := eq_of_ownUniform? h
  obtain ⟨file, number⟩ := r
  simp only [Uniform.holds, PlacedConstant.register, Nat.max_zero, Bool.and_eq_true,
    decide_eq_true_iff, Register.mk.injEq, and_assoc]
  -- an entry of one register ends right after it
  refine and_congr_right fun _ => ?_
  omega

theorem find?_ownUniform (cs : List PlacedConstant) (nodup : (cs.map PlacedConstant.register).Nodup)
    (hc : c ∈ cs) (he : ownUniform? sh c = some e) :
    ((cs.filterMap (ownUniform? sh)).find? fun e => e.1.holds c.register) = some e := by
  induction cs with
  | nil => cases hc
  | cons d cs ih =>
    obtain ⟨hhead, htail⟩ := List.nodup_cons.mp nodup
    rcases List.mem_cons.mp hc with rfl | hc
    · rw [List.filterMap_cons, he]
      exact List.find?_cons_of_pos ((holds_ownUniform he _).mpr rfl)
    · have hne : d.register ≠ c.register := by
        intro heq
        exact hhead (heq ▸ List.mem_map_of_mem hc)
      cases hd : ownUniform? sh d with
      | none =>
        rw [List.filterMap_cons, hd]
        exact ih htail hc
      | some e' =>
        rw [List.filterMap_cons, hd]
        refine (List.find?_cons_of_neg ?_).trans (ih htail hc)
        rw [holds_ownUniform hd]
        exact hne

theorem elementText_eq (array : Glsl.Ident) (n : Nat) :
    Glsl.elementText sh array n = array.text sh ++ "[" ++ toString n ++ "]" := by
  unfold Glsl.elementText
  simp only [String.append_assoc]
  rfl

/-- No array is empty, no register is placed twice, and a register is in an array if it can be. -/
structure WellPlaced (i : Interface) : Prop where
  nonempty : ∀ p ∈ i.arrays, 0 < p.array.count
  nodup : (i.constants.map PlacedConstant.register).Nodup
  settled : ∀ c ∈ i.constants, Settled i.arrays c

theorem map_register_ofScan (s : Scan) :
    (ofScan sh s).constants.map PlacedConstant.register =
      (undeclared s).filter fun r => (constantKind? r).isSome := by
  rw [← map_openConstants]
  exact map_register_placeConstants _ _ (openConstants s)

theorem wellPlaced_ofScan {s : Scan} (nonempty : ∀ a ∈ usedArrays s, 0 < a.count)
    (sorted : s.used.Sorted) : (ofScan sh s).WellPlaced where
  nonempty := by
    intro p hp
    apply nonempty
    rw [← map_array_placeArrays 0 (usedArrays s)]
    exact List.mem_map_of_mem hp
  nodup := by
    rw [map_register_ofScan]
    exact (sorted.nodup.filter _).filter _
  settled := settled_placeConstants _ _ (openConstants s)

theorem placeText_eq_location {i : Interface} (h : i.WellPlaced) (hc : c ∈ i.constants) :
    Glsl.placeText sh c.kind c.place = (i.packing sh).location sh c.register := by
  have hfind : ((i.packing sh).entries.find? fun e => e.1.holds c.register) =
      ((arrayOf? i.arrays c.kind c.number).map fun p => (arrayUniform sh p, p.slot)).or
        ((i.constants.filterMap (ownUniform? sh)).find? fun e => e.1.holds c.register) := by
    rw [packing, List.find?_append, List.find?_map, ← find?_arrayUniform sh i.arrays h.nonempty]
    rfl
  unfold Packing.location
  rw [hfind]
  rcases h.settled c hc with ⟨p, hp, hplace⟩ | ⟨hnone, slot, hplace⟩
  · rw [hp, hplace, placeIn]
    cases hslot : p.slot with
    | some slot =>
      rw [Option.map_some, Option.some_or, hslot]
      show Glsl.elementText sh (.packed .float) (c.number - p.array.index + slot) = _
      rw [elementText_eq, Nat.add_comm]
      rfl
    | none =>
      rw [Option.map_some, Option.some_or, hslot]
      exact elementText_eq sh _ _
  · have he := ownUniform?_of_own sh hplace
    rw [hnone, Option.map_none, Option.none_or, find?_ownUniform sh i.constants h.nodup hc he, hplace]
    show Glsl.elementText sh (.packed c.kind) slot =
      Packing.element sh c.kind (slot + (c.number - c.number))
    rw [elementText_eq, Nat.sub_self, Nat.add_zero]
    rfl

end Interface

/-! ### Declarations -/

section Declarations

variable (p : Glsl.Profile) (sh : Shader)

theorem filter_declarations (l : LinkedShader) :
    (Glsl.declarations l).filter Glsl.Decl.isPlacement =
      (l.interface.arrays.map Glsl.arrayDecl).filter Glsl.Decl.isPlacement
        ++ l.interface.constants.map .constant
        ++ (l.interface.samplers.flatMap Glsl.samplerDecls).filter Glsl.Decl.isPlacement := by
  have hconstants : (l.interface.constants.map Glsl.Decl.constant).filter Glsl.Decl.isPlacement =
      l.interface.constants.map .constant := by
    rw [List.filter_map]
    exact congrArg _ (List.filter_eq_self.mpr fun c _ => rfl)
  have hnone : ∀ origin, origin ≠ .array → origin ≠ .constant → origin ≠ .sampler →
      (Glsl.declarationsOf l origin).filter Glsl.Decl.isPlacement = [] := by
    intro origin harray hconstant hsampler
    rw [List.filter_eq_nil_iff]
    intro d hd hplacement
    rw [← Glsl.origin_of_mem_declarationsOf hd] at harray hconstant hsampler
    cases d with
    | arrayBase => exact harray rfl
    | constant => exact hconstant rfl
    | bump => exact hsampler rfl
    | _ => cases hplacement
  rw [Glsl.declarations_eq]
  simp [hnone]
  simp [Glsl.declarationsOf, hconstants]

theorem lines_arrayBase (base slot : Nat) :
    Glsl.Decl.lines p sh (.arrayBase base slot) =
      ["#define ARRAYBASE_" ++ toString base ++ " " ++ toString slot] := by
  have h : "#define ARRAYBASE_" = "#define " ++ "ARRAYBASE_" := rfl
  rw [h]
  simp only [Glsl.Decl.lines, Glsl.defineLine, Glsl.Ident.text, String.append_assoc]
  rfl

theorem lines_bump (stage slot : Nat) :
    Glsl.Decl.lines p sh (.bump stage slot) =
      ["#define " ++ (Glsl.sampler stage).name sh ++ "_texbem " ++ Packing.element sh .float slot,
        "#define " ++ (Glsl.sampler stage).name sh ++ "_texbeml "
          ++ Packing.element sh .float (slot + 1)] := by
  have h : "_texbem " = "_texbem" ++ " " := rfl
  have h' : "_texbeml " = "_texbeml" ++ " " := rfl
  rw [h, h']
  simp only [Glsl.Decl.lines, Glsl.defineLine, Interface.elementText_eq, Packing.element,
    Glsl.Ident.text, String.append_assoc]

theorem lines_arrays (arrays : List PlacedArray)
    (nonempty : ∀ q ∈ arrays, 0 < q.array.count) :
    ((arrays.map Glsl.arrayDecl).filter Glsl.Decl.isPlacement).flatMap (Glsl.Decl.lines p sh) =
      (arrays.map fun q => (Interface.arrayUniform sh q, q.slot)).flatMap Packing.baseLines := by
  induction arrays with
  | nil => rfl
  | cons q arrays ih =>
    obtain ⟨hq, hrest⟩ := List.forall_mem_cons.mp nonempty
    rw [List.map_cons, List.map_cons, List.flatMap_cons, ← ih hrest]
    cases hslot : q.slot with
    | some slot =>
      have hdecl : Glsl.arrayDecl q = .arrayBase q.array.index slot := by
        rw [Glsl.arrayDecl, hslot]
      rw [hdecl, List.filter_cons_of_pos rfl, List.flatMap_cons, lines_arrayBase, Packing.baseLines]
      dsimp only
      rw [Interface.isSingle_arrayUniform sh hq]
      rfl
    | none =>
      have hdecl : Glsl.arrayDecl q = .literalArray q.array := by rw [Glsl.arrayDecl, hslot]
      rw [hdecl, List.filter_cons_of_neg Bool.false_ne_true]
      rfl

theorem lines_samplers (samplers : List PlacedSampler) :
    ((samplers.flatMap Glsl.samplerDecls).filter Glsl.Decl.isPlacement).flatMap
        (Glsl.Decl.lines p sh) =
      (samplers.map fun s => (Interface.samplerBinding sh s, s.bumpSlot)).flatMap
        (Packing.bumpLines sh) := by
  induction samplers with
  | nil => rfl
  | cons s samplers ih =>
    rw [List.flatMap_cons, List.filter_append, List.flatMap_append, ih, List.map_cons,
      List.flatMap_cons]
    congr 1
    have hkind : ((s.kind.map (Glsl.Decl.sampler s.stage)).toList).filter Glsl.Decl.isPlacement =
        [] := by
      cases s.kind <;> rfl
    rw [Glsl.samplerDecls, List.filter_append, hkind, List.nil_append]
    cases s.bumpSlot with
    | none => rfl
    | some slot => exact (List.append_nil _).trans (lines_bump p sh s.stage slot)

theorem lines_constants {i : Interface} (h : i.WellPlaced) :
    (i.constants.map Glsl.Decl.constant).flatMap (Glsl.Decl.lines p sh) =
      (i.constants.map PlacedConstant.register).map ((i.packing sh).registerLine sh) := by
  have hline : ∀ c ∈ i.constants, Glsl.Decl.lines p sh (.constant c) =
      [(i.packing sh).registerLine sh c.register] := by
    intro c hc
    rw [Glsl.Decl.lines, Glsl.defineLine, Interface.placeText_eq_location sh h hc]
    rfl
  rw [List.flatMap_map, List.flatMap_congr hline, List.map_map]
  exact List.map_eq_flatMap.symm

end Declarations

/-! ### Which registers have an entry -/

namespace Interface

variable (sh : Shader)

theorem any_holds_uniforms (i : Interface) (nonempty : ∀ q ∈ i.arrays, 0 < q.array.count)
    (c : PlacedConstant) :
    ((i.uniforms sh).any fun u => !u.isSingle && u.holds c.register) =
      (arrayOf? i.arrays c.kind c.number).isSome := by
  rw [Bool.eq_iff_iff, ← find?_arrayUniform sh i.arrays nonempty, List.find?_isSome, List.any_eq_true,
    uniforms_eq]
  constructor
  · rintro ⟨u, hu, hholds⟩
    obtain ⟨harray, hholds⟩ := Bool.and_eq_true_iff.mp hholds
    rcases List.mem_append.mp hu with hu | hu
    · obtain ⟨q, hq, rfl⟩ := List.mem_map.mp hu
      exact ⟨q, hq, hholds⟩
    · obtain ⟨e, he, rfl⟩ := List.mem_map.mp hu
      obtain ⟨d, -, hd⟩ := List.mem_filterMap.mp he
      rw [isSingle_ownUniform hd] at harray
      cases harray
  · rintro ⟨q, hq, hholds⟩
    refine ⟨_, List.mem_append_left _ (List.mem_map_of_mem hq), ?_⟩
    rw [isSingle_arrayUniform sh (nonempty q hq)]
    exact hholds

theorem map_register_ownUniforms (arrays : List PlacedArray) (cs : List PlacedConstant)
    (covered : Register → Bool)
    (hcovered : ∀ c ∈ cs, covered c.register = (arrayOf? arrays c.kind c.number).isSome)
    (settled : ∀ c ∈ cs, Settled arrays c) :
    (cs.filterMap (ownUniform? sh)).map (fun e => e.1.register) =
      (cs.map PlacedConstant.register).filter fun x => !covered x := by
  induction cs with
  | nil => rfl
  | cons c cs ih =>
    obtain ⟨hc, hrest⟩ := List.forall_mem_cons.mp hcovered
    obtain ⟨hsettled, hmore⟩ := List.forall_mem_cons.mp settled
    rw [List.map_cons, List.filter_cons, hc, ← ih hrest hmore]
    rcases hsettled with ⟨p, hp, hplace⟩ | ⟨hnone, slot, hplace⟩
    · rw [List.filterMap_cons, ownUniform?_of_placeIn sh hplace, hp]
      rfl
    · rw [List.filterMap_cons, ownUniform?_of_own sh hplace, hnone]
      rfl

theorem filter_isSingle_uniforms {i : Interface} (h : i.WellPlaced) :
    ((i.uniforms sh).filter Uniform.isSingle).map Uniform.register =
      (i.constants.map PlacedConstant.register).filter fun x =>
        !(i.uniforms sh).any fun u => !u.isSingle && u.holds x := by
  have harrays : (i.arrays.map (arrayUniform sh)).filter Uniform.isSingle = [] := by
    rw [List.filter_eq_nil_iff]
    intro u hu
    obtain ⟨q, hq, rfl⟩ := List.mem_map.mp hu
    rw [isSingle_arrayUniform sh (h.nonempty q hq)]
    exact Bool.false_ne_true
  have hsingles : ((i.constants.filterMap (ownUniform? sh)).map Prod.fst).filter Uniform.isSingle =
      (i.constants.filterMap (ownUniform? sh)).map Prod.fst := by
    rw [List.filter_eq_self]
    intro u hu
    obtain ⟨e, he, rfl⟩ := List.mem_map.mp hu
    obtain ⟨c, -, hce⟩ := List.mem_filterMap.mp he
    exact isSingle_ownUniform hce
  rw [← map_register_ownUniforms sh i.arrays i.constants _
    (fun c _ => any_holds_uniforms sh i h.nonempty c) h.settled]
  rw [uniforms_eq, List.filter_append, harrays, hsingles, List.nil_append, List.map_map]
  rfl

theorem baseLines_ownUniforms (cs : List PlacedConstant) :
    (cs.filterMap (ownUniform? sh)).flatMap Packing.baseLines = [] := by
  rw [List.flatMap_eq_nil_iff]
  intro e he
  obtain ⟨c, -, hce⟩ := List.mem_filterMap.mp he
  unfold Packing.baseLines
  rw [isSingle_ownUniform hce]
  cases e.2 <;> rfl

end Interface

theorem lines_placements (l : LinkedShader) (h : l.interface.WellPlaced) :
    ((Glsl.declarations l).filter Glsl.Decl.isPlacement).flatMap
        (Glsl.Decl.lines p l.env.toShader) =
      (l.interface.packing l.env.toShader).entries.flatMap Packing.baseLines
        ++ (l.interface.constants.map PlacedConstant.register).map
          ((l.interface.packing l.env.toShader).registerLine l.env.toShader)
        ++ (l.interface.packing l.env.toShader).samplers.flatMap
          (Packing.bumpLines l.env.toShader) := by
  have hbases : (l.interface.packing l.env.toShader).entries.flatMap Packing.baseLines =
      (l.interface.arrays.map fun q =>
        (Interface.arrayUniform l.env.toShader q, q.slot)).flatMap Packing.baseLines := by
    rw [Interface.packing, List.flatMap_append, Interface.baseLines_ownUniforms, List.append_nil]
  rw [filter_declarations, List.flatMap_append, List.flatMap_append, hbases,
    lines_arrays p _ _ h.nonempty, lines_constants p _ h, lines_samplers]
  rfl

theorem map_register_eq_hostRegisters (o : Options) {env : Env} {us : List Word}
    (good : (Scan.ofUnits env us).faults = []) :
    (LinkedShader.ofUnits env us).interface.constants.map PlacedConstant.register =
      ((LinkedShader.ofUnits env us).lifted p o).hostRegisters
        (Scan.ofUnits env us).used.registers := by
  refine (Interface.map_register_ofScan _ _).trans ?_
  rw [Interface.undeclared, List.filter_filter]
  apply List.filter_congr
  intro r _
  cases hk : Interface.constantKind? r with
  | none => rfl
  | some kind =>
    have hd : (Scan.ofUnits env us).isDefined r =
        (Scan.ofUnits env us).constants.any fun c => c.register = r := by
      rw [Bool.eq_iff_iff, List.any_eq_true, Scan.isDefined_ofUnits_iff good (by simp [hk])]
      simp only [decide_eq_true_iff]
    rw [hd]
    rfl

/-! ### The packing of a shader -/

/-- What a host can rely on when it goes by the walk through the result of lifting a shader. -/
structure PackingAgrees (p : Glsl.Profile) (o : Options) (r : Lifted) (l : LinkedShader) : Prop where
  /-- In each kind the places of the walk are those from zero on, each taken once. -/
  consecutive : ∀ kind, r.packing.taken kind = List.range (r.packing.size.count kind)
  /-- The program declares as many packed constants as the walk takes, and none of a kind that it takes
  none of. -/
  declared : ∃ rest, r.output =
    Glsl.unlines (Glsl.headLines p l)
      ++ Glsl.unlines (Glsl.sizeLines l.env.toShader r.packing.size)
      ++ Glsl.unlines (Glsl.extraLines o l) ++ Glsl.unlines (Glsl.declarationLines p l) ++ rest
  /-- The declarations that say where a constant is are those of the walk: the bases of the arrays,
  then the registers that are read and not defined, then the samplers. -/
  macros : ((Glsl.declarations l).filter Glsl.Decl.isPlacement).flatMap
      (Glsl.Decl.lines p l.env.toShader) =
    r.packing.entries.flatMap Packing.baseLines
      ++ (r.hostRegisters l.scan.used.registers).map (r.packing.registerLine l.env.toShader)
      ++ r.packing.samplers.flatMap (Packing.bumpLines l.env.toShader)
  once : (r.hostRegisters l.scan.used.registers).Nodup
  /-- The entries that are no arrays are those registers that no array has, one for each. -/
  singles : (r.uniforms.filter Uniform.isSingle).map Uniform.register =
    (r.hostRegisters l.scan.used.registers).filter fun x => !r.coversByArray x

theorem wellPlaced_ofUnits (env : Env) (us : List Word) :
    (LinkedShader.ofUnits env us).interface.WellPlaced :=
  Interface.wellPlaced_ofScan env.toShader (fun a ha => (Scan.sound_usedArrays env us a ha).2)
    (Scan.tablesSorted_ofUnits env us).used

theorem packingAgrees_ofUnits (o : Options) {env : Env} {us : List Word}
    (good : (Scan.ofUnits env us).faults = []) :
    PackingAgrees p o ((LinkedShader.ofUnits env us).lifted p o) (.ofUnits env us) := by
  have hplaced := wellPlaced_ofUnits env us
  have hregisters := map_register_eq_hostRegisters p o good
  have hpacking := packing_lifted p o env us
  refine ⟨taken_packing _, ?_, ?_, ?_, ?_⟩
  · rw [hpacking]
    exact Glsl.program_eq p o (.ofUnits env us)
  · rw [lines_placements p _ hplaced, hregisters, hpacking]
    rfl
  · exact hregisters ▸ hplaced.nodup
  · exact (Interface.filter_isSingle_uniforms env.toShader hplaced).trans
      (congrArg (List.filter _) hregisters)

/-- **Packing.**  A host that provides the constants of a lifted shader where the walk through the
result puts them provides them where the program looks for them. -/
theorem lift_packing_agrees (p : Glsl.Profile) (o : Options) (ws : List Word)
    (success : (liftWords p o ws).errors = []) :
    ∃ l, linkShader o ws = .ok l ∧ PackingAgrees p o (liftWords p o ws) l := by
  obtain ⟨w, us, env, -, -, good, hlink⟩ := linkShader_of_no_errors p o ws success
  refine ⟨.ofUnits env us, hlink, ?_⟩
  rw [liftWords_eq, hlink]
  exact packingAgrees_ofUnits p o good

/-- A vertex shader that adds one of eight constants, chosen by its input, a constant that it defines,
and one that the host provides. -/
def skinningCode : List Word :=
  [0xFFFE0101,
    -- a symbol table with one symbol, `bone`, in the registers 0 to 7
    0x0016FFFE, 0x42415443, 28, 0, 0xFFFE0101, 1, 28, 0, 0, 64, 2, 8, 48, 0, 0x00030001, 0x00040001,
    8, 0, 0x656E6F62, 115, 0, 0, 0,
    0x51, 0xA00F0014, 0, 0, 0, 0,
    1, 0xB0010000, 0x90000000,
    2, 0x800F0000, 0xA0E42002, 0xA0E40014,
    2, 0x800F0000, 0x80E40000, 0xA0E40013,
    1, 0xC00F0000, 0x80E40000,
    0xFFFF]

theorem packing_agrees_skinningCode :
    (liftWords .glsl110 {} skinningCode).errors = [] ∧
      ∃ l, linkShader {} skinningCode = .ok l ∧
        PackingAgrees .glsl110 {} (liftWords .glsl110 {} skinningCode) l :=
  ⟨by decide +kernel, lift_packing_agrees .glsl110 {} skinningCode (by decide +kernel)⟩

end ShaderLift
