/-
Interfaces on a machine of fixed width: the places of arrays, constants and samplers among the packed
constants.  A place is counted in 32 bits, and that is enough: the arrays that the host provides are the
ranges of one symbol table, and every register takes up a place at most once.
-/
import ShaderLift.Proofs.Fixed.Unit
import Mathlib.Data.List.ProdSigma

namespace ShaderLift

/-! ### How many places are needed -/

theorem Register.length_le_of_nodup {rs : List Register} (hnodup : rs.Nodup)
    (files : List RegisterFile) {k : Nat} (h : ∀ r ∈ rs, r.file ∈ files ∧ r.number ≤ k) :
    rs.length ≤ files.length * (k + 1) := by
  have hsub : rs ⊆ (files ×ˢ List.range (k + 1)).map fun p => ⟨p.1, p.2⟩ := by
    intro r hr
    obtain ⟨hfile, hnumber⟩ := h r hr
    refine List.mem_map.mpr ⟨(r.file, r.number), ?_, rfl⟩
    exact List.pair_mem_product.mpr ⟨hfile, List.mem_range.mpr (Nat.lt_succ_of_le hnumber)⟩
  have hlength := (List.subperm_of_subset hnodup hsub).length_le
  rwa [List.length_map, List.length_product, List.length_range] at hlength

namespace ConstantArray

theorem hosted_filter_le (p : ConstantArray → Bool) (as : List ConstantArray) :
    hosted (as.filter p) ≤ hosted as := by
  induction as with
  | nil => exact Nat.le_refl _
  | cons a as ih =>
    rw [List.filter_cons]
    split
    · exact Nat.add_le_add_left ih _
    · exact Nat.le_trans ih (Nat.le_add_left _ _)

theorem hosted_reverse (as : List ConstantArray) : hosted as.reverse = hosted as := by
  induction as with
  | nil => rfl
  | cons a as ih =>
    rw [List.reverse_cons, hosted_append, ih]
    show hosted as + (_ + 0) = _ + hosted as
    rw [Nat.add_zero, Nat.add_comm]

end ConstantArray

namespace Interface

variable {s : Scan}

theorem free_placeArrays (slot : Nat) (as : List ConstantArray) :
    (placeArrays slot as).2 = slot + ConstantArray.hosted as := by
  induction as generalizing slot with
  | nil => rfl
  | cons a as ih =>
    rw [placeArrays, ConstantArray.hosted]
    split
    · rw [Nat.zero_add]
      exact ih slot
    · rw [← Nat.add_assoc]
      exact ih (slot + a.count)

theorem slot_placeArrays_le (slot : Nat) (as : List ConstantArray) :
    ∀ p ∈ (placeArrays slot as).1, ∀ n, p.slot = some n → n ≤ slot + ConstantArray.hosted as := by
  induction as generalizing slot with
  | nil => exact fun p hp => absurd hp List.not_mem_nil
  | cons a as ih =>
    rw [placeArrays, ConstantArray.hosted]
    split
    · refine List.forall_mem_cons.mpr ⟨fun n hn => absurd hn (Option.some_ne_none n).symm, ?_⟩
      rw [Nat.zero_add]
      exact ih slot
    · refine List.forall_mem_cons.mpr ⟨?_, ?_⟩
      · rintro n hn
        obtain rfl : slot = n := Option.some.inj hn
        exact Nat.le_add_right _ _
      · rw [← Nat.add_assoc]
        exact ih (slot + a.count)

theorem count_placeConstants_le (arrays : List PlacedArray) (slots : Slots)
    (cs : List (ConstantKind × Nat)) (kind : ConstantKind) :
    (placeConstants arrays slots cs).2.count kind ≤ slots.count kind + cs.length := by
  induction cs generalizing slots with
  | nil => exact Nat.le_refl _
  | cons c cs ih =>
    obtain ⟨own, number⟩ := c
    rw [placeConstants, List.length_cons]
    split
    · exact Nat.le_trans (ih slots) (by omega)
    · have hstep := Slots.count_add slots 1 own kind
      refine Nat.le_trans (ih (slots.add 1 own)) ?_
      split at hstep <;> omega

theorem count_placeSamplers_le (slots : Slots) (es : List (Register × SamplerUse))
    (kind : ConstantKind) :
    (placeSamplers slots es).2.count kind ≤ slots.count kind + 2 * es.length := by
  induction es generalizing slots with
  | nil => exact Nat.le_refl _
  | cons e es ih =>
    obtain ⟨r, u⟩ := e
    rw [placeSamplers, List.length_cons]
    refine Nat.le_trans (ih _) ?_
    have hstep := Slots.count_add slots 2 .float kind
    split <;> split at hstep <;> omega

theorem mem_of_arrayOf? {arrays : List PlacedArray} {kind : ConstantKind} {number : Nat}
    {p : PlacedArray} (h : arrayOf? arrays kind number = some p) :
    p ∈ arrays ∧ p.array.contains number = true := by
  unfold arrayOf? at h
  split at h
  · have hcontains := List.find?_some h
    exact ⟨List.mem_of_find?_eq_some h, hcontains⟩
  · cases h

/-- What bounds the places of a shader: its registers come up once each, with small numbers. -/
structure Placeable (s : Scan) : Prop where
  bounded : s.Bounded
  used : s.used.registers.Nodup
  samplers : s.samplers.registers.Nodup
  stages : ∀ r ∈ s.samplers.registers, r.file = .sampler

theorem placeable_ofUnits (env : Env) (us : List Word) : Placeable (Scan.ofUnits env us) where
  bounded := Scan.Bounded.ofUnits env us
  used := (Scan.tablesSorted_ofUnits env us).used.nodup
  samplers := (Scan.tablesSorted_ofUnits env us).samplers.nodup
  stages _ := Scan.file_of_sampler

namespace Placeable

theorem length_openConstants_le (h : Placeable s) : (openConstants s).length ≤ 24585 := by
  have hnodup : ((undeclared s).filter fun r => (constantKind? r).isSome).Nodup :=
    (h.used.filter _).filter _
  have hlength := Register.length_le_of_nodup hnodup [.const, .constInt, .constBool] (k := 8194) (by
    intro r hr
    obtain ⟨hundeclared, hkind⟩ := List.mem_filter.mp hr
    refine ⟨?_, h.bounded.used r (List.mem_of_mem_filter hundeclared)⟩
    unfold constantKind? at hkind
    split at hkind
    next hfile => simp [hfile]
    next hfile => simp [hfile]
    next hfile => simp [hfile]
    next => cases hkind)
  rw [← map_openConstants, List.length_map] at hlength
  exact hlength

theorem length_samplers_le (h : Placeable s) : s.samplers.entries.length ≤ 8195 := by
  have hlength := Register.length_le_of_nodup h.samplers [.sampler] (k := 8194) fun r hr =>
    ⟨List.mem_singleton.mpr (h.stages r hr), h.bounded.samplers r hr⟩
  rw [RegisterTable.registers, List.length_map] at hlength
  exact hlength

theorem usedArrays_le (h : Placeable s) :
    (∀ a ∈ usedArrays s, a.index + a.count ≤ 131070) ∧
      ConstantArray.hosted (usedArrays s) ≤ Scan.rangeLimit := by
  have hgrouped : s.groupConstants.Stored :=
    h.bounded.toStored.fetches (Scan.Fetches.groupConstants .refl)
  constructor
  · intro a ha
    exact hgrouped.arrays a (List.mem_of_mem_filter (List.mem_reverse.mp ha))
  · have hhosted := hgrouped.hosted
    have hfilter := ConstantArray.hosted_filter_le ConstantArray.used s.groupConstants.arrays
    rw [usedArrays, ConstantArray.hosted_reverse]
    split at hhosted <;> omega

theorem count_arrays_le (h : Placeable s) (kind : ConstantKind) :
    Slots.count { float := (placeArrays 0 (usedArrays s)).2 } kind ≤ Scan.rangeLimit := by
  rw [free_placeArrays, Nat.zero_add]
  cases kind with
  | float => exact h.usedArrays_le.2
  | int | bool => exact Nat.zero_le _

/-- The places that the packed constants have for the arrays and single registers. -/
theorem count_constants_le (h : Placeable s) (kind : ConstantKind) :
    (placeConstants (placeArrays 0 (usedArrays s)).1 { float := (placeArrays 0 (usedArrays s)).2 }
      (openConstants s)).2.count kind ≤ Scan.rangeLimit + 24585 := by
  have hplaced := count_placeConstants_le (placeArrays 0 (usedArrays s)).1
    { float := (placeArrays 0 (usedArrays s)).2 } (openConstants s) kind
  have hopen := h.length_openConstants_le
  have harrays := h.count_arrays_le kind
  omega

/-- **The packed constants of each kind have fewer than 2 ^ 32 places.** -/
theorem count_slots_lt (h : Placeable s) (sh : Shader) (kind : ConstantKind) :
    (ofScan sh s).slots.count kind < 2 ^ 32 := by
  have hconstants := h.count_constants_le kind
  have hsamplers := h.length_samplers_le
  have hplaced := count_placeSamplers_le (placeConstants (placeArrays 0 (usedArrays s)).1
    { float := (placeArrays 0 (usedArrays s)).2 } (openConstants s)).2 s.samplers.entries kind
  refine Nat.lt_of_le_of_lt hplaced ?_
  have hlimit : Scan.rangeLimit = 858901710 := rfl
  omega

end Placeable

end Interface

namespace Fixed

variable {s : Scan} {sh : Shader}
variable {arrays : List PlacedArray} {slots : Slots}

/-! ### Places -/

def placeArrays (slot : Nat) : List ConstantArray → Option (List PlacedArray × Nat)
  | [] => some ([], slot)
  | a :: as =>
    if a.isLiteral then do
      let (placed, free) ← placeArrays slot as
      return (⟨a, none⟩ :: placed, free)
    else do
      let (placed, free) ← placeArrays (← add 32 slot a.count) as
      return (⟨a, some slot⟩ :: placed, free)

def placeIn (p : PlacedArray) (number : Nat) : Option Place := do
  let element ← sub number p.array.index
  match p.slot with
  | some slot => return .shared (← add 32 element slot)
  | none => return .literal p.array.index p.array.count element

def arrayOf? (arrays : List PlacedArray) (kind : ConstantKind) (number : Nat) :
    Option (Option PlacedArray) :=
  if kind = .float then arrays.findM? fun p => contains p.array number else some none

def addSlots (slots : Slots) (n : Nat) (kind : ConstantKind) : Option Slots := do
  let _ ← add 32 (slots.count kind) n
  return slots.add n kind

def placeConstants (arrays : List PlacedArray) (slots : Slots) :
    List (ConstantKind × Nat) → Option (List PlacedConstant × Slots)
  | [] => some ([], slots)
  | (kind, number) :: rest => do
    match ← arrayOf? arrays kind number with
    | some p =>
      let place ← placeIn p number
      let (placed, free) ← placeConstants arrays slots rest
      return (⟨kind, number, place⟩ :: placed, free)
    | none =>
      let (placed, free) ← placeConstants arrays (← addSlots slots 1 kind) rest
      return (⟨kind, number, .own (slots.count kind)⟩ :: placed, free)

/-- Places samplers: those for bump mapping take two places, which are both named. -/
def placeSamplers (slots : Slots) :
    List (Register × SamplerUse) → Option (List PlacedSampler × Slots)
  | [] => some ([], slots)
  | (r, u) :: rest =>
    if u.bump then do
      let _ ← add 32 slots.float 1
      let (placed, free) ← placeSamplers (← addSlots slots 2 .float) rest
      return (⟨r.number, u.kind, some slots.float⟩ :: placed, free)
    else do
      let (placed, free) ← placeSamplers slots rest
      return (⟨r.number, u.kind, none⟩ :: placed, free)

theorem placeArrays_eq {slot : Nat} {as : List ConstantArray}
    (h : slot + ConstantArray.hosted as < 2 ^ 32) :
    placeArrays slot as = some (Interface.placeArrays slot as) := by
  induction as generalizing slot with
  | nil => rfl
  | cons a as ih =>
    rw [ConstantArray.hosted] at h
    rw [placeArrays, Interface.placeArrays]
    split
    next hliteral =>
      rw [if_pos hliteral, Nat.zero_add] at h
      rw [ih h]
      rfl
    next hliteral =>
      rw [if_neg hliteral, ← Nat.add_assoc] at h
      simp only [add_of_lt (Nat.lt_of_le_of_lt (Nat.le_add_right _ _) h), some_bind, ih h]
      rfl

theorem placeIn_eq {p : PlacedArray} {number : Nat} (hle : p.array.index ≤ number)
    (hslot : ∀ slot, p.slot = some slot → number - p.array.index + slot < 2 ^ 32) :
    placeIn p number = some (Interface.placeIn p number) := by
  unfold placeIn Interface.placeIn
  rw [sub_of_le hle]
  cases hs : p.slot with
  | none => rfl
  | some slot =>
    simp only [some_bind, add_of_lt (hslot slot hs)]
    rfl

theorem addSlots_eq {n : Nat} {kind : ConstantKind} (h : slots.count kind + n < 2 ^ 32) :
    addSlots slots n kind = some (slots.add n kind) := by
  rw [addSlots, add_of_lt h]
  rfl

/-- What is known of placed arrays: their numbers are small, and so are their places. -/
def SmallArrays (arrays : List PlacedArray) : Prop :=
  ∀ p ∈ arrays, p.array.index + p.array.count ≤ 131070 ∧
    ∀ slot, p.slot = some slot → slot ≤ Scan.rangeLimit

theorem arrayOf?_eq (h : SmallArrays arrays) (kind : ConstantKind) (number : Nat) :
    arrayOf? arrays kind number = some (Interface.arrayOf? arrays kind number) := by
  unfold arrayOf? Interface.arrayOf?
  split
  · apply findM?_eq
    intro p hp
    have hreach := (h p hp).1
    exact contains_eq (by omega) number
  · rfl

theorem placeConstants_eq (h : SmallArrays arrays) {cs : List (ConstantKind × Nat)}
    (hslots : ∀ kind, slots.count kind + cs.length < 2 ^ 32) :
    placeConstants arrays slots cs = some (Interface.placeConstants arrays slots cs) := by
  induction cs generalizing slots with
  | nil => rfl
  | cons c cs ih =>
    obtain ⟨kind, number⟩ := c
    rw [List.length_cons] at hslots
    have hrest : ∀ kind, slots.count kind + cs.length < 2 ^ 32 := fun kind =>
      Nat.lt_of_le_of_lt (Nat.le_succ _) (hslots kind)
    rw [placeConstants, arrayOf?_eq h, Interface.placeConstants]
    simp only [some_bind]
    cases hfound : Interface.arrayOf? arrays kind number with
    | some p =>
      obtain ⟨hp, hcontains⟩ := Interface.mem_of_arrayOf? hfound
      rw [ConstantArray.contains, Bool.and_eq_true, decide_eq_true_iff, decide_eq_true_iff] at hcontains
      have hplace : placeIn p number = some (Interface.placeIn p number) := by
        refine placeIn_eq hcontains.1 fun slot hslot => ?_
        have hreach := (h p hp).1
        have hlow := (h p hp).2 slot hslot
        have hlimit : Scan.rangeLimit = 858901710 := rfl
        omega
      simp only [hplace, some_bind, ih hrest]
      rfl
    | none =>
      have hone : slots.count kind + 1 < 2 ^ 32 := Nat.lt_of_le_of_lt (by omega) (hslots kind)
      have hmore : ∀ other, (slots.add 1 kind).count other + cs.length < 2 ^ 32 := by
        intro other
        have hother := hslots other
        have hstep := Slots.count_add slots 1 kind other
        split at hstep <;> omega
      simp only [addSlots_eq hone, some_bind, ih hmore]
      rfl

theorem placeSamplers_eq {es : List (Register × SamplerUse)}
    (hslots : slots.float + 2 * es.length < 2 ^ 32) :
    placeSamplers slots es = some (Interface.placeSamplers slots es) := by
  induction es generalizing slots with
  | nil => rfl
  | cons e es ih =>
    obtain ⟨r, u⟩ := e
    rw [List.length_cons] at hslots
    rw [placeSamplers, Interface.placeSamplers]
    cases u.bump with
    | true =>
      have htwo : slots.count .float + 2 < 2 ^ 32 := by
        show slots.float + 2 < 2 ^ 32
        omega
      have hmore : (slots.add 2 .float).float + 2 * es.length < 2 ^ 32 := by
        show slots.float + 2 + 2 * es.length < 2 ^ 32
        omega
      simp only [if_true, add_of_lt (show slots.float + 1 < 2 ^ 32 by omega), addSlots_eq htwo,
        some_bind, ih hmore]
      rfl
    | false =>
      rw [ih (show slots.float + 2 * es.length < 2 ^ 32 by omega)]
      rfl

/-! ### The interface -/

def impliedAttribute? (sh : Shader) (r : Register) : Option (Option Attribute) :=
  if r.file = .input && !sh.atLeast 2 0 && sh.isVertex then do
    return (← vertexInput? r.number).map fun m => ⟨m.1, m.2, false⟩
  else some (Interface.impliedAttribute? sh r)

def attributesOf (sh : Shader) (s : Scan) : Option (RegisterTable Attribute) :=
  (Interface.undeclared s).foldlM
    (fun t r => do
      match ← impliedAttribute? sh r with
      | some a => return t.update r {} fun _ => a
      | none => return t)
    s.attributes

def ofScan (sh : Shader) (s : Scan) : Option Interface := do
  let names := Interface.undeclared s
  let grouped ← groupConstants s
  let (arrays, free) ← placeArrays 0 (grouped.arrays.filter ConstantArray.used).reverse
  let (constants, slots) ← placeConstants arrays { float := free } (Interface.openConstants s)
  let (samplers, slots) ← placeSamplers slots s.samplers.entries
  return {
    globals := names.filter Interface.isVariable
    arrays
    constants
    samplers
    attributes := (← attributesOf sh s).entries
    slots
    manyColors := s.used.registers.any fun r => r.file = .colorOut && 0 < r.number }

theorem impliedAttribute?_eq (sh : Shader) (r : Register) :
    impliedAttribute? sh r = some (Interface.impliedAttribute? sh r) := by
  unfold impliedAttribute?
  split
  next h =>
    simp only [Bool.and_eq_true, Bool.not_eq_true', decide_eq_true_iff] at h
    obtain ⟨⟨hfile, hmodel⟩, hvertex⟩ := h
    have hstage : sh.stage = .vertex := of_decide_eq_true hvertex
    rw [vertexInput?_eq, Interface.impliedAttribute?, hfile, hmodel, hstage]
    rfl
  · rfl

theorem attributesOf_eq (sh : Shader) (s : Scan) :
    attributesOf sh s = some (Interface.attributesOf sh s) := by
  unfold attributesOf Interface.attributesOf
  generalize s.attributes = t
  induction Interface.undeclared s generalizing t with
  | nil => rfl
  | cons r rs ih =>
    rw [List.foldlM_cons, impliedAttribute?_eq, List.foldl_cons, Interface.imply]
    simp only [some_bind]
    cases Interface.impliedAttribute? sh r <;> exact ih _

theorem smallArrays_usedArrays (h : Interface.Placeable s) :
    SmallArrays (Interface.placeArrays 0 (Interface.usedArrays s)).1 := by
  obtain ⟨hreach, hhosted⟩ := h.usedArrays_le
  intro p hp
  constructor
  · have hmem := List.mem_map_of_mem (f := PlacedArray.array) hp
    rw [Interface.map_array_placeArrays] at hmem
    exact hreach _ hmem
  · intro slot hslot
    have hplaced := Interface.slot_placeArrays_le 0 _ p hp slot hslot
    omega

/-- **Making an interface out stays in range.** -/
theorem ofScan_eq (h : Interface.Placeable s) (few : s.constants.length < 2 ^ 31) (sh : Shader) :
    ofScan sh s = some (Interface.ofScan sh s) := by
  have hlimit : Scan.rangeLimit = 858901710 := rfl
  have hgroup : groupConstants s = some s.groupConstants := by
    refine groupConstants_eq few fun c hc => ?_
    have hlow := h.bounded.constants c hc
    omega
  have harrays : placeArrays 0 (s.groupConstants.arrays.filter ConstantArray.used).reverse =
      some (Interface.placeArrays 0 (Interface.usedArrays s)) := by
    have hhosted := h.usedArrays_le.2
    exact placeArrays_eq (show 0 + ConstantArray.hosted (Interface.usedArrays s) < 2 ^ 32 by omega)
  have hroom : ∀ kind, Slots.count { float := (Interface.placeArrays 0 (Interface.usedArrays s)).2 }
      kind + (Interface.openConstants s).length < 2 ^ 32 := by
    intro kind
    have hcount := h.count_arrays_le kind
    have hopen := h.length_openConstants_le
    omega
  have hroom' : (Interface.placeConstants (Interface.placeArrays 0 (Interface.usedArrays s)).1
      { float := (Interface.placeArrays 0 (Interface.usedArrays s)).2 }
      (Interface.openConstants s)).2.float + 2 * s.samplers.entries.length < 2 ^ 32 := by
    have hcount : Slots.float _ ≤ _ := h.count_constants_le .float
    have hlength := h.length_samplers_le
    omega
  have hconstants := placeConstants_eq (smallArrays_usedArrays h) hroom
  have hsamplers := placeSamplers_eq hroom'
  simp only [ofScan, hgroup, harrays, hconstants, hsamplers, attributesOf_eq, some_bind]
  rfl

end Fixed

end ShaderLift
