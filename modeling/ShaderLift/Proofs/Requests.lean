/-
What the code of a shader asks for is noted once.  A helper that was asked for before is not noted again,
so the helpers of a shader are all different.  An array that is read by an index is the newest one that
has the register named, so of two arrays that are read the later one never has all registers of the
earlier one: no two of them begin and end with the same registers.
-/
import ShaderLift.Proofs.Relative

namespace ShaderLift

open Glsl

variable {env : Env} {us : List Word} {vs : List Visit}

/-! ### Helpers are asked for once -/

def Opcode.helper? : Opcode → Option Helper
  | .rcp | .rsq => some .largest
  | .lit => some .lighting
  | .texLdd | .texLdl => some .textureLevels
  | .texM3x3Spec | .texM3x3VSpec => some .reflection
  | _ => none

namespace Glsl.Emission

@[simp] theorem helpers_pure {α : Type} (x : α) : (pure x : Emission α).helpers = [] := rfl

@[simp] theorem helpers_bind {α β : Type} (e : Emission α) (f : α → Emission β) :
    (e >>= f).helpers = e.helpers ++ (f e.value).helpers := rfl

@[simp] theorem helpers_fault (f : Fault) : (fault f).helpers = [] := rfl

@[simp] theorem helpers_write (c : Stmt) : (write c).helpers = [] := rfl

@[simp] theorem helpers_require (h : Helper) : (require h).helpers = [h] := rfl

end Glsl.Emission

namespace Scan

variable {env : Env} (sh : Shader) (s : Scan) (i : Instruction)

@[simp] theorem helpers_sourceAt (a : Source) (mask : WriteMask) :
    (sourceAt sh s a mask).helpers = [] := by
  unfold sourceAt
  split <;> rfl

@[simp] theorem helpers_assignTo (d : Dest) (e : Expr) : (assignTo sh s i d e).helpers = [] := by
  unfold assignTo
  split
  · rfl
  · split
    · rfl
    · split <;> rfl

@[simp] theorem helpers_assignLookup (kind : TextureKind) (form : LookupForm) (e : Expr) :
    (assignLookup sh s i kind form e).helpers = [] := helpers_assignTo sh s i _ _

@[simp] theorem helpers_unaryCode (f : Expr → Expr) : (unaryCode sh s i f).helpers = [] := by
  simp [unaryCode]

@[simp] theorem helpers_binaryCode (f : Expr → Expr → Expr) : (binaryCode sh s i f).helpers = [] := by
  simp [binaryCode]

@[simp] theorem helpers_ternaryCode (f : Expr → Expr → Expr → Expr) :
    (ternaryCode sh s i f).helpers = [] := by
  simp [ternaryCode]

@[simp] theorem helpers_productsCode (mask : WriteMask) (a : Expr) (rows : List Source) :
    (productsCode sh s mask a rows).helpers = [] := by
  induction rows with
  | nil => rfl
  | cons row rows ih =>
    show (sourceAt sh s row mask).helpers ++ ((productsCode sh s mask a rows).helpers ++ []) = []
    rw [helpers_sourceAt, ih]
    rfl

@[simp] theorem helpers_chooseGroupsCode (test : Expr → Expr) (groups : List (Lane × List Lane)) :
    (chooseGroupsCode sh s i test groups).helpers = [] := by
  induction groups with
  | nil => rfl
  | cons group groups ih => simp [chooseGroupsCode, chooseGroupCode, ih]

@[simp] theorem helpers_loadCode : (loadCode sh s i).helpers = [] := by
  unfold loadCode oldLoadCode
  split
  · dsimp only
    split <;> simp
  · split
    · rfl
    · split
      · rfl
      · split
        · split <;> simp
        · simp only [Emission.helpers_bind, helpers_sourceAt, List.nil_append]
          split <;> simp

@[simp] theorem helpers_bumpCode (luminance : Bool) : (bumpCode sh s i luminance).helpers = [] := by
  unfold bumpCode
  cases luminance <;> simp

theorem helpers_comparisonCode (f : Expr → Stmt) : (comparisonCode sh s i f).helpers = [] := by
  unfold comparisonCode
  split <;> simp

theorem helpers_reflectionCode (variableEye : Bool) :
    (reflectionCode sh s i variableEye).helpers = [] ∨
      (reflectionCode sh s i variableEye).helpers = [.reflection] := by
  unfold reflectionCode
  dsimp only
  split
  · exact .inl rfl
  · split
    · exact .inl rfl
    · cases variableEye <;> simp

variable {sh s i}

/-- An instruction asks for the helper of its opcode.  A reflection without all its rows asks for none. -/
theorem helpers_instructionCode (sound : (instructionCode sh s i).faults = []) :
    (instructionCode sh s i).helpers = i.opcode.helper?.toList ∨
      (i.opcode.reflects = true ∧ (instructionCode sh s i).helpers = []) := by
  unfold instructionCode at sound ⊢
  cases e : i.opcode with
  | texM3x3Spec | texM3x3VSpec =>
    rcases helpers_reflectionCode sh s i _ with hnone | hreflection
    · exact .inr ⟨rfl, hnone⟩
    · exact .inl hreflection
  | rcp | rsq => simp [guardedCode, Opcode.helper?]
  | lit => simp [lightingCode, Opcode.helper?]
  | texLdd =>
    -- the kind of the texture is known, or there would be a fault
    rw [e] at sound
    dsimp only at sound ⊢
    unfold gradientLoadCode at sound ⊢
    split at sound
    · cases sound
    · simp [Opcode.helper?]
  | texLdl =>
    rw [e] at sound
    dsimp only at sound ⊢
    unfold levelLoadCode at sound ⊢
    split at sound
    · cases sound
    · simp [Opcode.helper?]
  | ifCompare | leaveCompare => exact .inl (helpers_comparisonCode sh s i _)
  | setP =>
    -- neither the code nor a fault asks for anything
    left
    dsimp only
    unfold predicateCode
    split <;> simp [Opcode.helper?]
  | texM3x2Tex =>
    left
    dsimp only
    unfold matrix2Code
    split <;> simp [Opcode.helper?]
  | texM3x3 =>
    left
    dsimp only
    unfold matrix3Code
    split <;> simp [Opcode.helper?]
  | texM3x3Tex =>
    left
    dsimp only
    unfold matrix3LookupCode
    dsimp only
    split
    · rfl
    · split <;> simp [Opcode.helper?]
  | ret => exact .inl (helpers_closeCode sh s)
  | _ =>
    simp [matrixCode, dotCode, dot2AddCode, conditionCode, compareCode, distanceCode, crossCode,
      sinCosCode, roundCode, chooseCode, Opcode.helper?]

end Scan

namespace Visit

variable {v : Visit} {i : Instruction} {s : Scan}

theorem Executes.helpers_after (h : v.Executes i s) :
    v.after.helpers = (Scan.codeOf v.env s i).helpers.foldl addHelper v.before.helpers := by
  have hready : (Scan.ready v.env s i).helpers = v.before.helpers := by
    rw [(Scan.untouched_ready v.env s i).helpers, h.fetches.frame]
  rw [h.after]
  show ((Scan.ready v.env s i).emit (Scan.codeOf v.env s i)).helpers = _
  rw [Scan.emit_eq h.sound, hready]

end Visit

theorem Glsl.nodup_addHelper {hs : List Helper} (h : hs.Nodup) (x : Helper) : (addHelper hs x).Nodup := by
  unfold addHelper
  split
  · exact h
  next hnew =>
    refine List.nodup_append.mpr ⟨h, List.nodup_singleton x, ?_⟩
    rintro y hy _ hx rfl
    exact hnew (List.contains_iff_mem.mpr (List.mem_singleton.mp hx ▸ hy))

theorem Scan.invariant_nodup_helpers (env : Env) : Invariant env fun s => s.helpers.Nodup where
  move h hs := by
    cases h with
    | fetch h => cases h <;> exact hs
    | write code asked =>
      exact List.foldlRecOn asked addHelper hs fun _ h x _ => nodup_addHelper h x
    | _ => exact hs
  startUnit _ hs := hs
  ended hs := hs
  cutOff hs := hs

theorem Scan.nodup_helpers_ofUnits (env : Env) (us : List Word) : (ofUnits env us).helpers.Nodup :=
  (invariant_nodup_helpers env).ofUnits List.nodup_nil us

/-! ### Arrays that are read -/

namespace Inventory

variable {k k' : Inventory}

/-- Every array that is read is the one that some register is taken to be in. -/
def Reads (k : Inventory) : Prop :=
  ∀ place array, k.arrays[place]? = some array → array.used = true →
    ∃ number, k.Resolved number place array

theorem getElem?_of_group {place : Nat} {array : ConstantArray}
    (h : k.group.arrays[place]? = some array) (hused : array.used = true) :
    k.arrays[place]? = some array := by
  unfold group at h
  split at h
  next => exact h
  next =>
    have happend : (k.arrays ++ ConstantArray.ofConstants k.constants)[place]? = some array := h
    rw [List.getElem?_append] at happend
    split at happend
    next => exact happend
    next =>
      rw [ConstantArray.used_ofConstants (List.mem_of_getElem? happend)] at hused
      cases hused

theorem Taken.reads {a : Source} (h : Taken k a k') (hk : k.Reads) : k'.Reads := by
  cases h with
  | direct => exact hk
  | relative place unnamed table found recorded =>
    intro place' array harray hused
    by_cases hplace : place' = place
    · -- the array that is read just now
      subst hplace
      obtain ⟨array', hresolved⟩ := resolved_mark table found
      obtain rfl : array' = array := Option.some.inj (hresolved.at_place.symm.trans harray)
      exact ⟨_, hresolved⟩
    · have hbefore : k.group.arrays[place']? = some array := by
        have hmark : (k.group.arrays.modify place fun a => { a with used := true })[place']? =
          some array := harray
        rw [List.getElem?_modify] at hmark
        simpa [Ne.symm hplace] using hmark
      obtain ⟨number, hresolved⟩ := hk place' array (getElem?_of_group hbefore hused) hused
      exact ⟨number, hresolved.taken (.relative place unnamed table found recorded)⟩

theorem TakenAll.reads {as : List Source} (h : TakenAll k as k') (hk : k.Reads) : k'.Reads := by
  induction h with
  | nil => exact hk
  | cons first _ ih => exact ih (first.reads hk)

theorem Turn.reads (h : Turn k k') (hd : k.Discovered) (hk : k.Reads) : k'.Reads := by
  cases h with
  | keep => exact hk
  | table symbols first =>
    -- the arrays of a table are the first ones, and none of them is read yet
    obtain ⟨-, harrays, -⟩ := hd.unseen first
    intro place array harray hused
    have hnew : array ∈ Scan.rangeArrays symbols := by
      have hmem := List.mem_of_getElem? harray
      have happend : array ∈ k.arrays ++ Scan.rangeArrays symbols := hmem
      rwa [harrays, List.nil_append] at happend
    rw [Scan.used_rangeArrays hnew] at hused
    cases hused
  | define c early =>
    intro place array harray hused
    obtain ⟨number, h⟩ := hk place array harray hused
    exact ⟨number, h.turn (.define c early)⟩
  | @read sources k' taken n charged =>
    intro place array harray hused
    obtain ⟨number, h⟩ := taken.reads hk place array harray hused
    exact ⟨number, ⟨h.table, h.grouped, h.newest, h.at_place, h.used⟩⟩

theorem Reads.ne {place place' : Nat} {a b : ConstantArray} (hk : k.Reads)
    (ha : k.arrays[place]? = some a) (hb : k.arrays[place']? = some b) (hlt : place < place')
    (hused : a.used = true) (hkind : b.kind = .float) : (a.index, a.count) ≠ (b.index, b.count) := by
  obtain ⟨number, hresolved⟩ := hk place a ha hused
  obtain ⟨a', ha', hcontains, hlater⟩ := ConstantArray.newest?_eq_some_iff.mp hresolved.newest
  obtain rfl : a' = a := Option.some.inj (ha'.symm.trans ha)
  intro heq
  obtain ⟨hindex, hcount⟩ := Prod.mk.inj heq
  have hmem : b ∈ k.arrays.drop (place + 1) := by
    refine List.mem_of_getElem? (i := place' - (place + 1)) ?_
    rw [List.getElem?_drop, Nat.add_sub_cancel' hlt]
    exact hb
  have hnot := hlater b hmem
  have hsame : b.contains number = a'.contains number := by
    unfold ConstantArray.contains
    rw [hindex, hcount]
  rw [hkind, hsame] at hnot
  rw [(Bool.and_eq_true_iff.mp hcontains).2] at hnot
  cases hnot

end Inventory

theorem Scan.reads_ofUnits (clean : (ofUnits env us).faults = []) :
    (ofUnits env us).inventory.Reads := by
  obtain ⟨t, hrun, hend, hclean⟩ := run_of_clean clean
  rw [hend]
  refine (Inventory.Turns.preserves (P := fun k => k.Discovered ∧ k.Reads) ?_ (hrun.turns hclean).1 ?_).2
  · intro k k' hturn hk
    exact ⟨hturn.discovered hk.1, hturn.reads hk.1 hk.2⟩
  · refine ⟨Inventory.discovered_start, fun place array harray => ?_⟩
    cases harray

theorem Interface.nodup_usedArrays (clean : (Scan.ofUnits env us).faults = []) :
    ((usedArrays (Scan.ofUnits env us)).map fun a => (a.index, a.count)).Nodup := by
  unfold usedArrays
  rw [List.map_reverse, List.nodup_reverse]
  refine List.pairwise_map.mpr (List.pairwise_filter.mpr (List.pairwise_iff_getElem.mpr ?_))
  intro i j hi hj hlt hfirst hsecond
  -- Arrays that are read were there before constants were grouped, at the same places.
  have hplace : ∀ (n : Nat) (hn : n < (Scan.ofUnits env us).groupConstants.arrays.length),
      (Scan.ofUnits env us).groupConstants.arrays[n].used = true →
      (Scan.ofUnits env us).inventory.arrays[n]? =
        some (Scan.ofUnits env us).groupConstants.arrays[n] := by
    intro n hn hused
    refine Inventory.getElem?_of_group ?_ hused
    rw [← Scan.inventory_groupConstants]
    exact List.getElem?_eq_getElem hn
  have hsound := (Scan.invariant_arraysSound env).ofUnits (fun b hb => absurd hb List.not_mem_nil) us
  have hkind := (hsound _ (List.mem_of_getElem? (hplace j hj hsecond)) hsecond).1
  exact (Scan.reads_ofUnits clean).ne (hplace i hi hfirst) (hplace j hj hsecond) hlt hfirst hkind

end ShaderLift
