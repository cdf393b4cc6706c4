/-
What reading knows about registers, and what of it can be relied on.  The tables of a `Scan` are in the
order of their registers and have one record for each.  An array that is read has room for what is
read, and a constant register is accounted for by a definition and by nothing else, unless something is
wrong.  Each is an invariant of reading, checked against the single steps.
-/
import ShaderLift.Proofs.Visits

namespace ShaderLift

/-! ### The order of registers -/

theorem RegisterFile.code_injective {f g : RegisterFile} (h : f.code = g.code) : f = g := by
  have hf := RegisterFile.ofCode?_code f
  rw [h, RegisterFile.ofCode?_code] at hf
  exact (Option.some.inj hf).symm

namespace Register

variable {a b : Register}

theorem before_iff :
    a.before b = true ↔ a.file.code < b.file.code ∨
      (a.file.code = b.file.code ∧ a.number < b.number) := by
  simp [before]

theorem before_trans {c : Register} (h : a.before b = true) (h' : b.before c = true) :
    a.before c = true := by
  rw [before_iff] at h h' ⊢
  omega

theorem ne_of_before (h : a.before b = true) : a ≠ b := by
  rintro rfl
  rw [before_iff] at h
  omega

theorem before_of_not_before (hne : a ≠ b) (h : a.before b = false) : b.before a = true := by
  rw [← Bool.not_eq_true, before_iff] at h
  rw [before_iff]
  by_cases hfile : a.file.code = b.file.code
  · have hnumber : a.number ≠ b.number := by
      intro hn
      apply hne
      cases a
      cases b
      rw [Register.mk.injEq]
      exact ⟨RegisterFile.code_injective hfile, hn⟩
    omega
  · omega

end Register

/-! ### Tables -/

namespace RegisterTable

variable {α : Type}
variable {t : RegisterTable α}

/-- The records of a table are in the order of their registers. -/
def Sorted (t : RegisterTable α) : Prop :=
  t.entries.Pairwise fun a b => a.1.before b.1 = true

theorem sorted_empty : (empty : RegisterTable α).Sorted := List.Pairwise.nil

theorem mem_registers_update (t : RegisterTable α) (r : Register) (fresh : α) (f : α → α)
    (x : Register) : x ∈ (t.update r fresh f).registers ↔ x = r ∨ x ∈ t.registers := by
  unfold update registers
  dsimp only
  induction t.entries with
  | nil => simp [updateEntries]
  | cons e rest ih =>
    unfold updateEntries
    split
    next he => simp [he]
    next =>
      split
      · simp
      · simp only [List.map_cons, List.mem_cons, ih]
        exact or_left_comm

theorem Sorted.update (h : t.Sorted) (r : Register) (fresh : α) (f : α → α) :
    (t.update r fresh f).Sorted := by
  obtain ⟨entries⟩ := t
  unfold Sorted RegisterTable.update at *
  dsimp only at h ⊢
  induction entries with
  | nil => exact List.pairwise_singleton _ _
  | cons e rest ih =>
    obtain ⟨hhead, htail⟩ := List.pairwise_cons.mp h
    unfold updateEntries
    split
    next he =>
      -- the record is changed where it stands
      refine List.pairwise_cons.mpr ⟨fun x hx => ?_, htail⟩
      rw [← he]
      exact hhead x hx
    next hne =>
      split
      next hb =>
        -- a new record is put in front of the first later one
        refine List.pairwise_cons.mpr ⟨fun x hx => ?_, h⟩
        rcases List.mem_cons.mp hx with rfl | hx
        · exact hb
        · exact Register.before_trans hb (hhead x hx)
      next hb =>
        refine List.pairwise_cons.mpr ⟨fun x hx => ?_, ih htail⟩
        -- a register of the changed rest is `r` or one that was there before
        have hmem : x.1 ∈ (RegisterTable.update ⟨rest⟩ r fresh f).registers :=
          List.mem_map_of_mem hx
        rcases (mem_registers_update ⟨rest⟩ r fresh f x.1).mp hmem with heq | hold
        · rw [heq]
          exact Register.before_of_not_before (Ne.symm hne) (Bool.eq_false_iff.mpr hb)
        · obtain ⟨y, hy, hyx⟩ := List.mem_map.mp hold
          rw [← hyx]
          exact hhead y hy

theorem Sorted.nodup (h : t.Sorted) : t.registers.Nodup :=
  (List.pairwise_map.mpr (h.imp Register.ne_of_before) :)

/-! ### Records -/

theorem contains_eq_isSome (t : RegisterTable α) (r : Register) :
    t.contains r = (t.find? r).isSome := by
  rw [contains, find?, Option.isSome_map, List.isSome_find?]

theorem contains_iff_mem {r : Register} : t.contains r = true ↔ r ∈ t.registers := by
  simp [contains, registers]

theorem contains_of_find? {r : Register} {a : α} (h : t.find? r = some a) : t.contains r = true := by
  rw [contains_eq_isSome, h]
  rfl

theorem mem_registers_of_find? {r : Register} {a : α} (h : t.find? r = some a) : r ∈ t.registers :=
  contains_iff_mem.mp (contains_of_find? h)

theorem find?_cons (e : Register × α) (rest : List (Register × α)) (x : Register) :
    find? ⟨e :: rest⟩ x = if e.1 = x then some e.2 else find? ⟨rest⟩ x := by
  unfold find?
  dsimp only
  rw [List.find?_cons]
  by_cases hx : e.1 = x
  · simp [hx]
  · simp [hx]

theorem find?_update_of_ne (t : RegisterTable α) {r x : Register} (h : r ≠ x) (fresh : α) (f : α → α) :
    (t.update r fresh f).find? x = t.find? x := by
  obtain ⟨entries⟩ := t
  unfold update
  dsimp only
  induction entries with
  | nil => rw [updateEntries, find?_cons, if_neg h]
  | cons e rest ih =>
    unfold updateEntries
    split
    next he => rw [find?_cons, find?_cons, he, if_neg h, if_neg h]
    next =>
      split
      · rw [find?_cons, if_neg h]
      · rw [find?_cons, find?_cons, ih]

theorem exists_find?_update (t : RegisterTable α) (r : Register) (fresh : α) (f : α → α) :
    ∃ old, (t.update r fresh f).find? r = some (f old) ∧ (old = fresh ∨ t.find? r = some old) := by
  obtain ⟨entries⟩ := t
  unfold update
  dsimp only
  induction entries with
  | nil => exact ⟨fresh, by rw [updateEntries, find?_cons, if_pos rfl], .inl rfl⟩
  | cons e rest ih =>
    unfold updateEntries
    split
    next he => exact ⟨e.2, by rw [find?_cons, if_pos rfl], .inr (by rw [find?_cons, if_pos he])⟩
    next he =>
      split
      · exact ⟨fresh, by rw [find?_cons, if_pos rfl], .inl rfl⟩
      · rw [find?_cons, find?_cons, if_neg he, if_neg he]
        exact ih

/-- A record found after a change was there before, or it is the one that was changed. -/
theorem find?_update {r x : Register} {fresh u : α} {f : α → α}
    (h : (t.update r fresh f).find? x = some u) :
    t.find? x = some u ∨ x = r ∧ (u = f fresh ∨ ∃ old, t.find? r = some old ∧ u = f old) := by
  by_cases hx : r = x
  · subst hx
    obtain ⟨old, hfind, hold⟩ := t.exists_find?_update r fresh f
    obtain rfl := Option.some.inj (hfind.symm.trans h)
    refine .inr ⟨rfl, ?_⟩
    rcases hold with rfl | hold
    · exact .inl rfl
    · exact .inr ⟨old, hold, rfl⟩
  · rw [find?_update_of_ne t hx] at h
    exact .inl h

end RegisterTable

namespace Scan

variable {s t : Scan} {env : Env}

structure TablesSorted (s : Scan) : Prop where
  used : s.used.Sorted
  attributes : s.attributes.Sorted
  samplers : s.samplers.Sorted

theorem invariant_tablesSorted (env : Env) : Invariant env TablesSorted where
  move h hs := by
    cases h with
    | fetch h =>
      cases h with
      | use r written => exact ⟨hs.used.update _ _ _, hs.attributes, hs.samplers⟩
      | _ => exact ⟨hs.used, hs.attributes, hs.samplers⟩
    | sampler stage kind bump => exact ⟨hs.used, hs.attributes, hs.samplers.update _ _ _⟩
    | meaning r a => exact ⟨hs.used, hs.attributes.update _ _ _, hs.samplers⟩
    | call label => exact ⟨hs.used.update _ _ _, hs.attributes, hs.samplers⟩
    | _ => exact ⟨hs.used, hs.attributes, hs.samplers⟩
  startUnit _ hs := ⟨hs.used, hs.attributes, hs.samplers⟩
  ended hs := ⟨hs.used, hs.attributes, hs.samplers⟩
  cutOff hs := ⟨hs.used, hs.attributes, hs.samplers⟩

theorem tablesSorted_ofUnits (env : Env) (ws : List Word) : (ofUnits env ws).TablesSorted :=
  (invariant_tablesSorted env).ofUnits
    ⟨RegisterTable.sorted_empty, RegisterTable.sorted_empty, RegisterTable.sorted_empty⟩ ws

theorem invariant_samplers (env : Env) :
    Invariant env fun s => ∀ r ∈ s.samplers.registers, r.file = .sampler where
  move h hs := by
    cases h with
    | fetch h => cases h <;> exact hs
    | sampler stage kind bump =>
      intro r hr
      rcases (RegisterTable.mem_registers_update _ _ _ _ _).mp hr with rfl | hr
      · rfl
      · exact hs r hr
    | _ => exact hs
  startUnit _ hs := hs
  ended hs := hs
  cutOff hs := hs

theorem file_of_sampler {ws : List Word} {r : Register}
    (h : r ∈ (ofUnits env ws).samplers.registers) : r.file = .sampler :=
  (invariant_samplers env).ofUnits (fun _ hr => absurd hr List.not_mem_nil) ws r h

end Scan

/-! ### Arrays that are read -/

namespace ConstantArray

theorem getElem?_of_newest? {q : ConstantArray → Bool} {as : List ConstantArray} {place : Nat}
    (h : newest? q as = some place) : ∃ a, as[place]? = some a ∧ q a = true := by
  obtain ⟨⟨a, i⟩, hfind, rfl⟩ := Option.map_eq_some_iff.mp h
  have hmem := List.mem_reverse.mp (List.mem_of_find?_eq_some hfind)
  have hq := List.find?_some hfind
  exact ⟨a, List.mem_zipIdx_iff_getElem?.mp hmem, hq⟩

theorem used_ofConstants {cs : List Constant} {a : ConstantArray} (h : a ∈ ofConstants cs) :
    a.used = false := by
  obtain ⟨run, -, rfl⟩ := List.mem_map.mp h
  rfl

/-- An array that is read is one of floats, and it has an element. -/
def Sound (a : ConstantArray) : Prop :=
  a.used = true → a.kind = .float ∧ 0 < a.count

end ConstantArray

namespace Scan

theorem used_rangeArrays {symbols : List Symbol} {a : ConstantArray}
    (h : a ∈ rangeArrays symbols) : a.used = false := by
  obtain ⟨range, -, rfl⟩ := List.mem_map.mp h
  rfl

theorem sound_markArrayUsed {s : Scan} (hs : ∀ a ∈ s.arrays, a.Sound) {number place : Nat}
    (found : s.floatArray? number = some place) : ∀ a ∈ (s.markArrayUsed place).arrays, a.Sound := by
  intro a ha
  obtain ⟨b, hb, hq⟩ := ConstantArray.getElem?_of_newest? found
  rw [Bool.and_eq_true, decide_eq_true_iff] at hq
  obtain ⟨i, hi⟩ := List.mem_iff_getElem?.mp ha
  simp only [markArrayUsed, List.getElem?_modify] at hi
  obtain ⟨c, hc, hca⟩ := Option.map_eq_some_iff.mp hi
  by_cases hplace : place = i
  · -- the array that is marked is the one found, so it contains `number`
    rw [← hplace, hb] at hc
    obtain rfl := Option.some.inj hc
    rw [if_pos hplace] at hca
    rw [← hca]
    intro _
    have hroom := hq.2
    rw [ConstantArray.contains, Bool.and_eq_true, decide_eq_true_iff, decide_eq_true_iff] at hroom
    exact ⟨hq.1, by dsimp only; omega⟩
  · rw [if_neg hplace] at hca
    rw [← hca]
    exact hs c (List.mem_of_getElem? hc)

theorem sound_append {as new : List ConstantArray} (has : ∀ a ∈ as, a.Sound)
    (hnew : ∀ a ∈ new, a.used = false) : ∀ a ∈ as ++ new, a.Sound := by
  intro a ha
  rcases List.mem_append.mp ha with hold | hfresh
  · exact has a hold
  · intro hused
    rw [hnew a hfresh] at hused
    cases hused

theorem invariant_arraysSound (env : Env) :
    Invariant env fun s => ∀ a ∈ s.arrays, a.Sound where
  move h hs := by
    cases h with
    | fetch h =>
      cases h with
      | group first => exact sound_append hs fun _ => ConstantArray.used_ofConstants
      | useArray number place found => exact sound_markArrayUsed hs found
      | _ => exact hs
    | symbols symbols => exact sound_append hs fun _ => used_rangeArrays
    | _ => exact hs
  startUnit _ hs := hs
  ended hs := hs
  cutOff hs := hs

theorem sound_usedArrays (env : Env) (ws : List Word) :
    ∀ a ∈ Interface.usedArrays (ofUnits env ws), a.kind = .float ∧ 0 < a.count := by
  intro a ha
  obtain ⟨hmem, hused⟩ := List.mem_filter.mp (List.mem_reverse.mp ha)
  have hgroup : Moves env (ofUnits env ws) (ofUnits env ws).groupConstants :=
    (Fetches.groupConstants .refl).moves
  have hsound := (invariant_arraysSound env).ofUnits (fun b hb => nomatch hb) ws
  exact (invariant_arraysSound env).moves hgroup hsound a hmem hused

end Scan

/-! ### Definitions -/

def Constant.register (c : Constant) : Register := ⟨c.kind.file, c.index⟩

namespace Scan

variable {s : Scan}

/-- Every definition accounts for its register, and nothing else accounts for a constant register
unless something is wrong. -/
structure DefinitionsKept (s : Scan) : Prop where
  accounted : ∀ c ∈ s.constants, c.register ∈ s.defined
  defined : ∀ r ∈ s.defined, Interface.constantKind? r ≠ none →
    (∃ c ∈ s.constants, c.register = r) ∨ s.faults ≠ []

/-- What neither defines nor accounts for a register leaves the definitions as they are. -/
theorem DefinitionsKept.of_eq {t : Scan} (hs : s.DefinitionsKept) (hr : Records s t)
    (hc : t.constants = s.constants) (hd : t.defined = s.defined) : t.DefinitionsKept where
  accounted := by
    rw [hc, hd]
    exact hs.accounted
  defined := by
    rw [hc, hd]
    intro r hmem hkind
    exact (hs.defined r hmem hkind).imp_right hr.faults_ne_nil

theorem DefinitionsKept.define (hs : s.DefinitionsKept) (c : Constant) :
    ((s.addConstant c).markDefined c.register).DefinitionsKept where
  accounted := by
    intro d hd
    rcases List.mem_append.mp hd with hold | hnew
    · exact List.mem_append_left _ (hs.accounted d hold)
    · rw [List.mem_singleton.mp hnew]
      exact List.mem_concat_self
  defined := by
    intro r hr hkind
    rcases List.mem_append.mp hr with hold | hnew
    · refine (hs.defined r hold hkind).imp_left ?_
      rintro ⟨d, hd, hdr⟩
      exact ⟨d, List.mem_append_left _ hd, hdr⟩
    · refine .inl ⟨c, List.mem_concat_self, ?_⟩
      exact (List.mem_singleton.mp hnew).symm

theorem DefinitionsKept.markDefined (hs : s.DefinitionsKept) (r : Register)
    (other : Interface.constantKind? r = none ∨ s.faults ≠ []) : (s.markDefined r).DefinitionsKept where
  accounted := fun c hc => List.mem_append_left _ (hs.accounted c hc)
  defined := by
    intro x hx hkind
    rcases List.mem_append.mp hx with hold | hnew
    · exact hs.defined x hold hkind
    · rw [List.mem_singleton.mp hnew] at hkind
      exact .inr (other.resolve_left hkind)

theorem invariant_definitionsKept (env : Env) : Invariant env DefinitionsKept where
  move h hs := by
    have hrecords := h.records
    cases h with
    | fetch h => cases h <;> exact hs.of_eq hrecords rfl rfl
    | define c early => exact hs.define c
    | account r other => exact hs.markDefined r other
    | _ => exact hs.of_eq hrecords rfl rfl
  startUnit _ hs := ⟨hs.accounted, hs.defined⟩
  ended hs := ⟨hs.accounted, hs.defined⟩
  cutOff hs := hs.of_eq ⟨[_], rfl, by simp [cutOff, fail]⟩ rfl rfl

/-- In a shader without a fault the constant registers that are accounted for are those defined. -/
theorem isDefined_ofUnits_iff {env : Env} {ws : List Word} (h : (ofUnits env ws).faults = [])
    {r : Register} (hkind : Interface.constantKind? r ≠ none) :
    (ofUnits env ws).isDefined r = true ↔
      ∃ c ∈ (ofUnits env ws).constants, c.register = r := by
  have hkept := (invariant_definitionsKept env).ofUnits
    ⟨fun c hc => (nomatch hc), fun r hr => (nomatch hr)⟩ ws
  rw [isDefined, List.contains_iff_mem]
  constructor
  · intro hr
    exact (hkept.defined r hr hkind).resolve_right (not_not_intro h)
  · rintro ⟨c, hc, rfl⟩
    exact hkept.accounted c hc

end Scan

end ShaderLift
