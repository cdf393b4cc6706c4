/-
How inputs and outputs come by their meanings.  While units are read only two things give a register a
meaning (`Visit.Means`): a declaration, which follows a rule of the shader model and stands before the
first instruction that takes a slot, and the instructions of the first pixel shaders that take a texture
register to hold the texture coordinates with its number.  When all units are read, the registers that
nothing accounts for get the meaning that is implied by their file and number.
-/
import ShaderLift.Proofs.Closed
import ShaderLift.Proofs.Inventory
import ShaderLift.Proofs.Subroutines

namespace ShaderLift

variable {env : Env} {v : Visit} {us : List Word} {r : Register}

/-! ### Entries of tables -/

/-- The entries of a table that is in order are the records that are found in it. -/
theorem RegisterTable.Sorted.mem_entries_iff {α : Type} {t : RegisterTable α} (h : t.Sorted) {a : α} :
    (r, a) ∈ t.entries ↔ t.find? r = some a := by
  obtain ⟨entries⟩ := t
  unfold Sorted at h
  dsimp only at h ⊢
  induction entries with
  | nil => simp [find?]
  | cons e rest ih =>
    obtain ⟨hhead, htail⟩ := List.pairwise_cons.mp h
    rw [find?_cons, List.mem_cons, ih htail]
    split
    next he =>
      -- no later entry is one of `r`
      have hnone : ¬ find? ⟨rest⟩ r = some a := by
        intro hfound
        have hbefore := hhead _ ((ih htail).mpr hfound)
        exact Register.ne_of_before hbefore he
      rw [or_iff_left hnone, Option.some_inj, ← he]
      constructor
      · intro heq
        rw [← heq]
      · intro ha
        rw [← ha]
    next he =>
      refine or_iff_right ?_
      intro heq
      rw [← heq] at he
      exact he rfl

namespace Scan

variable {env : Env} {s : Scan} {i : Instruction} {ws : List Word}

/-! ### Declarations -/

theorem declared_readDeclaration (flag : (readDeclaration env s ws).2.2.failing = false) :
    ∃ w rule, declarationRule env.toShader w (readDeclaration env s ws).1.dest = some rule ∧
      (readDeclaration env s ws).1.declared = rule.declared ∧ rule.faults = [] := by
  unfold readDeclaration at flag ⊢
  dsimp only at flag ⊢
  cases hrule : declarationRule env.toShader (ws.headD 0) (readDest env true
      (s.failIf (!Word.flag (ws.headD 0) 31) .declareUnmarked).advance ws.tail).1 with
  | none =>
    rw [hrule] at flag
    simp [fail] at flag
  | some rule =>
    rw [hrule] at flag
    exact ⟨ws.headD 0, rule, hrule, rfl,
      eq_nil_of_failAll ((Fetches.failIf .refl _ _).records.flag flag)⟩

theorem invariant_slots (env : Env) : Invariant env fun s => 0 < s.slots where
  move h hs := by
    cases h with
    | fetch h => cases h <;> exact hs
    | charge n => exact Nat.add_pos_left hs n
    | _ => exact hs
  startUnit _ hs := hs
  ended hs := hs
  cutOff hs := hs

theorem slots_of_declareFaults (legal : declareFaults s i = []) : s.slots = 0 := by
  refine Nat.eq_zero_of_not_pos fun hslots => ?_
  simp [declareFaults, firstFault, hslots] at legal

/-! ### Meanings after an instruction -/

theorem attributes_account (env : Env) (s : Scan) (i : Instruction) :
    (account env s i).attributes = s.attributes ∨
      (i.opcode = .dcl ∧ s.slots = 0 ∧ ∃ usage, i.declared.usage = some usage ∧
        (account env s i).attributes = s.attributes.update i.dest.register {} fun _ =>
          ⟨usage, i.declared.index, i.dest.modifiers.centroid⟩) ∨
      ∃ n m, (account env s i).attributes = ((s.declareTexture n).declareTexture m).attributes := by
  have hdoes := Consequence.of_account env s i
  generalize account env s i = t at hdoes ⊢
  cases hdoes with
  | meaning op slots stated => exact .inr (.inl ⟨op, slots, _, stated, rfl⟩)
  | lookup | textures | pad2 | pad3 =>
    exact .inr (.inr ⟨i.dest.register.number, (i.source 0).register.number, rfl⟩)
  | _ => exact .inl rfl

theorem attributes_executed (sound : (codeOf env s i).faults = []) :
    (executed env s i).attributes = (account env s i).attributes := by
  rw [executed_eq sound]

theorem attributes_close (env : Env) (s : Scan) : (s.close env).attributes = s.attributes := by
  rw [close_eq env s]

theorem Fetches.attributes_eq {t : Scan} (h : Fetches s t) :
    t.attributes = s.attributes ∧ t.slots = s.slots := by
  rw [h.frame]
  exact ⟨rfl, rfl⟩

end Scan

/-! ### Units -/

namespace Visit

variable {v : Visit}
variable {i : Instruction}

theorem Executes.declared {s : Scan} (h : v.Executes i s) (hop : i.opcode = .dcl) :
    ∃ w rule, Scan.declarationRule v.env.toShader w i.dest = some rule ∧
      i.declared = rule.declared ∧ rule.faults = [] := by
  obtain ⟨hi, hflag, -⟩ := h.arguments
  rw [hop] at hi hflag
  show ∃ w rule, Scan.declarationRule v.env.toShader w i.toArguments.dest = some rule ∧
    i.toArguments.declared = rule.declared ∧ rule.faults = []
  rw [hi]
  exact Scan.declared_readDeclaration hflag

/-- What a unit without a fault does to the meanings of inputs and outputs. -/
inductive Means (v : Visit) : Prop
  | keep (after : v.after.attributes = v.before.attributes)
  /-- A register is declared before the first instruction that takes a slot, as a rule of the shader
  model allows it. -/
  | declare (i : Instruction) (this : v.instruction? = some i) (op : i.opcode = .dcl) (a : Attribute)
      (w : Word) (rule : Scan.DeclarationRule)
      (allowed : Scan.declarationRule v.env.toShader w i.dest = some rule) (sound : rule.faults = [])
      (usage : rule.declared.usage = some a.usage) (index : rule.declared.index = a.index)
      (early : v.before.slots = 0)
      (after : v.after.attributes = v.before.attributes.update i.dest.register {} fun _ => a)
  /-- Two texture registers, which may be the same one, hold texture coordinates. -/
  | textures (n m : Nat)
      (after : v.after.attributes = ((v.before.declareTexture n).declareTexture m).attributes)

theorem Executes.means {s : Scan} (this : v.instruction? = some i) (h : v.Executes i s) : v.Means := by
  obtain ⟨hattributes, hslots⟩ := h.fetches.attributes_eq
  have hafter : v.after.attributes = (Scan.account v.env s i).attributes := by
    rw [h.after, Scan.attributes_executed h.sound]
  rcases Scan.attributes_account v.env s i with hsame | ⟨hop, hearly, usage, husage, hnew⟩ | ⟨n, m, hnew⟩
  · exact .keep (hafter.trans (hsame.trans hattributes))
  · obtain ⟨w, rule, hallowed, hdeclared, hsound⟩ := h.declared hop
    rw [hattributes] at hnew
    rw [hdeclared] at husage hnew
    exact .declare i this hop _ w rule hallowed hsound husage rfl (hslots ▸ hearly) (hafter.trans hnew)
  · refine .textures n m (hafter.trans (hnew.trans ?_))
    unfold Scan.declareTexture Scan.setAttribute
    rw [hattributes]

theorem Does.means (h : v.Does) : v.Means := by
  cases h with
  | idle _ _ _ _ _ _ after | rest _ _ _ after =>
    exact .keep ((congrArg Scan.attributes after).trans rfl)
  | finish other mark opened after =>
    exact .keep (by rw [after]; exact Scan.attributes_close v.env _)
  | execute i s this h => exact h.means this

end Visit

def Visit.declares (v : Visit) (r : Register) : Bool :=
  v.instruction?.any fun i => i.opcode = .dcl && i.dest.register = r

theorem Visit.Does.slots_of_declares (h : v.Does) (hr : v.declares r = true) : v.before.slots = 0 := by
  obtain ⟨i, this, hop, -⟩ : ∃ i, v.instruction? = some i ∧ i.opcode = .dcl ∧ i.dest.register = r := by
    simpa [Visit.declares, Option.any_eq_true] using hr
  obtain ⟨s, h⟩ := h.executes this
  have hlegal := h.legal
  unfold Scan.violations at hlegal
  rw [hop] at hlegal
  rw [← h.fetches.attributes_eq.2]
  exact Scan.slots_of_declareFaults hlegal

/-- A register other than a texture register keeps its meaning unless it is declared. -/
theorem Visit.Means.find?_kept (h : v.Means) (hfile : r.file ≠ .texture)
    (hother : v.declares r = false) : v.after.attributes.find? r = v.before.attributes.find? r := by
  have htexture : ∀ n, (⟨.texture, n⟩ : Register) ≠ r := by
    rintro n rfl
    exact hfile rfl
  cases h with
  | keep after => rw [after]
  | declare i this op a w rule allowed sound usage index early after =>
    have hne : i.dest.register ≠ r := by
      simpa [Visit.declares, this, op] using hother
    rw [after]
    exact RegisterTable.find?_update_of_ne _ hne _ _
  | textures n m after =>
    rw [after]
    exact (RegisterTable.find?_update_of_ne _ (htexture m) _ _).trans
      (RegisterTable.find?_update_of_ne _ (htexture n) _ _)

namespace Scan

variable {env : Env} {us : List Word} (clean : (ofUnits env us).faults = [])
  {earlier later : List Visit} {v : Visit}
  (hvs : visits env (start env) 1 us = earlier ++ v :: later)
include clean hvs

/-- Where no unit declares it any more, the meaning of such a register stays what it is. -/
theorem find?_unchanged {r : Register} (hfile : r.file ≠ .texture)
    (hnone : ∀ u ∈ v :: later, u.declares r = false) :
    (ofUnits env us).attributes.find? r = v.before.attributes.find? r ∧
      v.after.attributes.find? r = v.before.attributes.find? r := by
  obtain ⟨t, hrun, hend, hclean⟩ := run_of_clean clean
  have hdoes := hrun.does hclean
  obtain ⟨hthis, hlater⟩ := List.forall_mem_cons.mp hnone
  have hv : v ∈ visits env (start env) 1 us := by
    rw [hvs]
    exact List.mem_append_cons_self
  have hafter := (hdoes v hv).means.find?_kept hfile hthis
  refine ⟨?_, hafter⟩
  -- units that do not declare the register leave what is found for it alone
  have hlast := (hrun.observed_at (f := fun s => s.attributes.find? r)
    (g := fun a u => if u.declares r then u.after.attributes.find? r else a) (fun _ _ => rfl)
    (fun _ => rfl) (fun u _ hu => ?_) hdoes hvs).2
  · rw [hend]
    show t.attributes.find? r = _
    rw [hlast, ← hafter]
    clear hlast hvs hnone
    induction later with
    | nil => rfl
    | cons u later ih =>
      obtain ⟨hu, hrest⟩ := List.forall_mem_cons.mp hlater
      rw [List.foldl_cons, hu]
      exact ih hrest
  · cases hu' : u.declares r with
    | true => rfl
    | false => exact hu.means.find?_kept hfile hu'

/-- Nothing is declared from an instruction that takes a slot on. -/
theorem not_declares_of_slots {i : Instruction} {s : Scan} (this : v.instruction? = some i)
    (h : v.Executes i s) (hslots : 0 < i.opcode.info.slots) (r : Register) :
    ∀ u ∈ v :: later, u.declares r = false := by
  obtain ⟨t, hrun, -, hclean⟩ := run_of_clean clean
  refine List.forall_mem_cons.mpr ⟨?_, fun u hu => ?_⟩
  · have hop : i.opcode ≠ .dcl := by
      intro hop
      rw [hop] at hslots
      cases hslots
    simp [Visit.declares, this, hop]
  · have hlate := ((invariant_slots env).later hrun hvs (h.slots_after hslots) u hu).1
    have hmem : u ∈ visits env (start env) 1 us := by
      rw [hvs]
      exact List.mem_append_right _ (List.mem_cons_of_mem _ hu)
    by_contra hdeclares
    have hearly := (hrun.does hclean u hmem).slots_of_declares (by simpa using hdeclares)
    rw [hearly] at hlate
    cases hlate

end Scan

/-! ### Meanings that were given -/

def Scan.IsCoordinates (r : Register) (a : Attribute) : Prop :=
  r.file = .texture ∧ a = ⟨.texCoord, r.number, false⟩

/-- A meaning that can be given to a register while units are read: by a declaration, or as texture
coordinates. -/
inductive Scan.Given (sh : Shader) (r : Register) (a : Attribute) : Prop
  | declared (d : Dest) (w : Word) (rule : DeclarationRule) (register : d.register = r)
      (allowed : declarationRule sh w d = some rule) (sound : rule.faults = [])
      (usage : rule.declared.usage = some a.usage) (index : rule.declared.index = a.index)
  | coordinates (h : IsCoordinates r a)

theorem Visit.Means.given (h : v.Means)
    (hv : ∀ r a, v.before.attributes.find? r = some a → Scan.Given v.env.toShader r a) :
    ∀ r a, v.after.attributes.find? r = some a → Scan.Given v.env.toShader r a := by
  have hupdate : ∀ {table : RegisterTable Attribute} {x : Register} {b : Attribute},
      (∀ r a, table.find? r = some a → Scan.Given v.env.toShader r a) → Scan.Given v.env.toShader x b →
      ∀ r a, (table.update x {} fun _ => b).find? r = some a → Scan.Given v.env.toShader r a := by
    intro table x b htable hx r a ha
    rcases RegisterTable.find?_update ha with hold | ⟨rfl, rfl | ⟨-, -, rfl⟩⟩
    · exact htable r a hold
    · exact hx
    · exact hx
  cases h with
  | keep after =>
    rw [after]
    exact hv
  | declare i this op a w rule allowed sound usage index early after =>
    rw [after]
    exact hupdate hv (.declared i.dest w rule rfl allowed sound usage index)
  | textures n m after =>
    rw [after]
    exact hupdate (hupdate hv (.coordinates ⟨rfl, rfl⟩)) (.coordinates ⟨rfl, rfl⟩)

theorem Scan.Run.given {s t : Scan} {n : Nat} {ws : List Word} {vs : List Visit}
    (r : Scan.Run env s n ws vs t) (does : ∀ v ∈ vs, v.Does)
    (hs : ∀ r a, s.attributes.find? r = some a → Scan.Given env.toShader r a) :
    ∀ r a, t.attributes.find? r = some a → Scan.Given env.toShader r a := by
  refine r.preserves (P := fun s => ∀ r a, s.attributes.find? r = some a → Scan.Given env.toShader r a)
    (fun _ _ h => h) (fun _ h => h) ?_ does hs
  rintro v rfl - hdoes hv
  exact hdoes.means.given hv

theorem Scan.given_ofUnits (clean : (ofUnits env us).faults = []) :
    ∀ r a, (ofUnits env us).attributes.find? r = some a → Given env.toShader r a := by
  obtain ⟨t, hrun, hend, hclean⟩ := run_of_clean clean
  rw [hend]
  refine hrun.given (hrun.does hclean) ?_
  intro r a h
  cases h

/-- Before shader model 2 all that a pixel shader gives a meaning are texture registers. -/
theorem Scan.coordinates_ofUnits (clean : (ofUnits env us).faults = []) (hpixel : env.isPixel = true)
    (hmodel : env.atLeast 2 0 = false) :
    ∀ r a, (ofUnits env us).attributes.find? r = some a → IsCoordinates r a := by
  intro r a ha
  cases given_ofUnits clean r a ha with
  | declared d w rule register allowed =>
    rw [declarationRule_of_old hpixel hmodel] at allowed
    cases allowed
  | coordinates h => exact h

/-! ### Meanings of a shader -/

namespace Interface

variable {sh : Shader} {s : Scan}

theorem sorted_attributesOf (sh : Shader) (h : s.attributes.Sorted) : (attributesOf sh s).Sorted := by
  unfold attributesOf
  generalize undeclared s = rs
  generalize s.attributes = table at h ⊢
  induction rs generalizing table with
  | nil => exact h
  | cons x rs ih =>
    refine ih _ ?_
    unfold imply
    split
    · exact h.update _ _ _
    · exact h

/-- A register that nothing accounts for has the meaning that is implied, if any; all others have the
meaning that they were given. -/
theorem find?_attributesOf (sh : Shader) (h : s.attributes.Sorted) (r : Register) :
    (attributesOf sh s).find? r =
      if r ∈ undeclared s then (impliedAttribute? sh r).or (s.attributes.find? r)
      else s.attributes.find? r := by
  unfold attributesOf
  generalize undeclared s = rs
  generalize s.attributes = table at h ⊢
  induction rs generalizing table with
  | nil => rfl
  | cons x rs ih =>
    rw [List.foldl_cons, imply]
    by_cases hx : x = r
    · subst hx
      rw [if_pos List.mem_cons_self]
      cases himplied : impliedAttribute? sh x with
      | none =>
        refine (ih table h).trans ?_
        rw [himplied]
        exact ite_self _
      | some a =>
        -- What is implied is set anew if the register comes up again.
        refine (ih _ (h.update _ _ _)).trans ?_
        rw [h.find?_update, if_pos rfl, himplied]
        exact ite_self _
    · have hmem : r ∈ x :: rs ↔ r ∈ rs := by
        rw [List.mem_cons, or_iff_right (Ne.symm hx)]
      simp only [hmem]
      cases impliedAttribute? sh x with
      | none => exact ih table h
      | some a =>
        refine (ih _ (h.update _ _ _)).trans ?_
        rw [h.find?_update, if_neg hx]

theorem given_or_implied (h : s.attributes.Sorted) {e : Register × Attribute}
    (he : e ∈ (attributesOf sh s).entries) :
    s.attributes.find? e.1 = some e.2 ∨
      (e.1 ∈ undeclared s ∧ impliedAttribute? sh e.1 = some e.2) := by
  have hfind := (sorted_attributesOf sh h).mem_entries_iff.mp he
  rw [find?_attributesOf sh h] at hfind
  split at hfind
  next hundeclared =>
    cases himplied : impliedAttribute? sh e.1 with
    | none =>
      rw [himplied] at hfind
      exact .inl hfind
    | some a =>
      rw [himplied] at hfind
      exact .inr ⟨hundeclared, hfind⟩
  next => exact .inl hfind

end Interface

theorem Scan.exists_meaning (clean : (ofUnits env us).faults = [])
    (fits : Interface.Fits env.toShader (ofUnits env us)) (hvariable : Interface.isVariable r = false)
    (hconstant : Interface.constantKind? r = none) (hsampler : r.file ≠ .sampler)
    (hused : r ∈ (ofUnits env us).used.registers) :
    ∃ a, (Interface.attributesOf env.toShader (ofUnits env us)).find? r = some a := by
  have hmem : r ∈ (Interface.attributesOf env.toShader (ofUnits env us)).registers := by
    apply Interface.mem_attributesOf
    -- A register that is accounted for can only be so by a declaration; any other has an implied meaning.
    by_cases hdefined : r ∈ (ofUnits env us).defined
    · left
      rcases (bound_ofUnits clean).defined r hdefined with hlabel | ⟨c, -, rfl⟩ | hother | ⟨hattribute, -⟩
      · simp [Interface.isVariable, hlabel] at hvariable
      · unfold Constant.register at hconstant
        cases hkind : c.kind <;> simp [hkind, ConstantKind.file, Interface.constantKind?] at hconstant
      · exact absurd (file_of_sampler hother) hsampler
      · exact hattribute
    · have hundeclared : r ∈ Interface.undeclared (ofUnits env us) := by
        refine List.mem_filter.mpr ⟨hused, ?_⟩
        simpa [isDefined] using hdefined
      refine .inr ⟨hundeclared, ?_⟩
      rcases fits.definable r hundeclared with h | h | himplied
      · simp [hvariable] at h
      · simp [hconstant] at h
      · exact himplied
  obtain ⟨⟨x, a⟩, he, rfl⟩ := List.mem_map.mp hmem
  have hsorted := Interface.sorted_attributesOf env.toShader (tablesSorted_ofUnits env us).attributes
  exact ⟨a, hsorted.mem_entries_iff.mp he⟩

end ShaderLift
