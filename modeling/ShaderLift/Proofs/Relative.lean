/-
Relative reads of constants.  Which array a relative read is taken to read is decided when it is come
upon: the newest array of floats with its register.  Where a register itself is found is decided after
all code was read: in the newest array with the register that is read at all.  The two agree, because no
array is added any more once one is read, and only arrays of floats ever are.

The program names the place of an array after its first register, and two arrays that begin with the same
register get the same name: `doubledBases` has such a pair.
-/
import Mathlib
import ShaderLift.Proofs.Discovery
import ShaderLift.Proofs.Packing

namespace ShaderLift

variable {s : Scan} {array : ConstantArray} {vs : List Visit} {v : Visit} {i : Instruction} {a : Source}

/-! ### The newest array -/

namespace ConstantArray

variable {q : ConstantArray → Bool} {as : List ConstantArray} {place : Nat}

theorem newest?_concat (q : ConstantArray → Bool) (as : List ConstantArray) (a : ConstantArray) :
    newest? q (as ++ [a]) = if q a then some as.length else newest? q as := by
  unfold newest?
  rw [List.zipIdx_append, List.reverse_append]
  show ((List.find? _ ((a, 0 + as.length) :: as.zipIdx.reverse)).map Prod.snd) = _
  rw [List.find?_cons, Nat.zero_add]
  cases q a <;> rfl

theorem newest?_eq_some_iff :
    newest? q as = some place ↔
      ∃ a, as[place]? = some a ∧ q a = true ∧ ∀ b ∈ as.drop (place + 1), q b = false := by
  induction as using List.reverseRecOn with
  | nil => simp [newest?]
  | append_singleton as a ih =>
    rw [newest?_concat]
    rcases Nat.lt_trichotomy place as.length with hlt | heq | hgt
    · -- an array before the last one
      rw [List.getElem?_append_left hlt, List.drop_append_of_le_length hlt]
      simp only [List.forall_mem_append, List.forall_mem_singleton]
      cases hq : q a with
      | true => simp [Nat.ne_of_gt hlt]
      | false => simpa using ih
    · -- the last array itself
      subst heq
      have hnone : newest? q as ≠ some as.length := by
        intro h
        obtain ⟨b, hb, -⟩ := getElem?_of_newest? h
        rw [List.getElem?_eq_none le_rfl] at hb
        cases hb
      have hlater : (as ++ [a]).drop (as.length + 1) = [] := List.drop_eq_nil_of_le (by simp)
      rw [hlater, List.getElem?_concat_length]
      cases hq : q a with
      | true => simp [hq]
      | false => simp [hq, hnone]
    · -- there is no such array
      have hnone : newest? q as ≠ some place := by
        intro h
        obtain ⟨b, hb, -⟩ := getElem?_of_newest? h
        rw [List.getElem?_eq_none hgt.le] at hb
        cases hb
      have hout : (as ++ [a])[place]? = none := List.getElem?_eq_none (by simp; omega)
      rw [hout]
      cases hq : q a with
      | true => simp [Nat.ne_of_lt hgt]
      | false => simp [hnone]

theorem newest?_map_unread (h : ∀ a : ConstantArray, q a.unread = q a) (as : List ConstantArray) :
    newest? q (as.map unread) = newest? q as := by
  induction as using List.reverseRecOn with
  | nil => rfl
  | append_singleton as a ih =>
    rw [List.map_append, List.map_singleton, newest?_concat, newest?_concat, h, ih, List.length_map]

theorem newest?_modify (h : ∀ a : ConstantArray, q a.unread = q a) (n : Nat) :
    newest? q (as.modify n fun a => { a with used := true }) = newest? q as := by
  rw [← newest?_map_unread h, map_unread_modify, newest?_map_unread h]

end ConstantArray

/-! ### Reads are settled for good -/

namespace Inventory

variable {k k' : Inventory} {number place : Nat} {array : ConstantArray}
variable {as : List Source}

/-- The register `number` is taken to be in `array`, the array at `place`. -/
structure Resolved (k : Inventory) (number place : Nat) (array : ConstantArray) : Prop where
  table : k.haveTable = true
  grouped : k.grouped = true
  newest : k.floatArray? number = some place
  at_place : k.arrays[place]? = some array
  used : array.used = true

theorem floatArray?_mark (k : Inventory) (number place : Nat) :
    (k.mark place).floatArray? number = k.floatArray? number :=
  ConstantArray.newest?_modify (fun _ => rfl) place

theorem resolved_mark (table : k.haveTable = true) (found : k.group.floatArray? number = some place) :
    ∃ array, (k.group.mark place).Resolved number place array := by
  obtain ⟨htable, -, -, hgrouped, -⟩ := k.group_fields
  obtain ⟨a, ha, -⟩ := ConstantArray.getElem?_of_newest? found
  refine ⟨{ a with used := true }, htable.trans table, hgrouped, ?_, ?_, rfl⟩
  · rw [floatArray?_mark]
    exact found
  · show (k.group.arrays.modify place _)[place]? = _
    rw [List.getElem?_modify, ha]
    show some (if place = place then _ else a) = _
    rw [if_pos rfl]

theorem Resolved.mark (h : k.Resolved number place array) (n : Nat) :
    (k.mark n).Resolved number place array where
  table := h.table
  grouped := h.grouped
  newest := (floatArray?_mark k number n).trans h.newest
  at_place := by
    show (k.arrays.modify n _)[place]? = _
    rw [List.getElem?_modify, h.at_place]
    show some (if n = place then { array with used := true } else array) = _
    split
    · -- it is read already
      rw [← h.used]
    · rfl
  used := h.used

theorem Resolved.group (h : k.Resolved number place array) : k.group = k := by
  rw [Inventory.group, if_pos h.grouped]

theorem Resolved.taken (h : k.Resolved number place array) {a : Source} (ht : Taken k a k') :
    k'.Resolved number place array := by
  cases ht with
  | direct => exact h
  | relative n =>
    rw [h.group]
    exact h.mark n

theorem Resolved.takenAll (h : k.Resolved number place array) (ht : TakenAll k as k') :
    k'.Resolved number place array := by
  induction ht with
  | nil => exact h
  | cons first _ ih => exact ih (h.taken first)

theorem Resolved.turn (h : k.Resolved number place array) (ht : Turn k k') :
    k'.Resolved number place array := by
  cases ht with
  | keep => exact h
  | table symbols first =>
    rw [h.table] at first
    cases first
  | define c early => exact ⟨h.table, h.grouped, h.newest, h.at_place, h.used⟩
  | read sources taken n charged =>
    have hafter := h.takenAll taken
    exact ⟨hafter.table, hafter.grouped, hafter.newest, hafter.at_place, hafter.used⟩

theorem TakenAll.resolved (h : TakenAll k as k') {a : Source} (ha : a ∈ as)
    (hconst : a.IsRelativeConstant) :
    ∃ place array, a.arrayPlace? = some place ∧ k'.Resolved a.register.number place array := by
  induction h with
  | nil => cases ha
  | cons first rest ih =>
    rcases List.mem_cons.mp ha with rfl | ha
    · cases first with
      | direct named => exact absurd hconst named
      | relative place unnamed table found recorded =>
        obtain ⟨array, hresolved⟩ := resolved_mark table found
        exact ⟨place, array, recorded, hresolved.takenAll rest⟩
    · exact ih ha

end Inventory

theorem Visit.Executes.turn_after (h : v.Executes i s) :
    s.inventory.Turn v.after.inventory ∧ v.after.arrays = s.arrays := by
  rcases h.inventory_after with ⟨-, hearly, c, hc⟩ | ⟨-, n, hn⟩
  · exact ⟨hc ▸ .define c hearly, congrArg Inventory.arrays hc⟩
  · refine ⟨hn ▸ .read [] (.nil _) _ fun ⟨a, ha, _⟩ => absurd ha List.not_mem_nil, ?_⟩
    exact congrArg Inventory.arrays hn

theorem Visit.Executes.arrays_settled (h : v.Executes i s) :
    (Scan.settled v.env s i).arrays = s.arrays := by
  have hsame : (Scan.settled v.env s i).inventory = v.after.inventory := by
    rw [h.after, Scan.inventory_executed h.sound]
    rfl
  exact (congrArg Inventory.arrays hsame).trans h.turn_after.2

/-! ### The array of a register -/

namespace Interface

def newerReads (s : Scan) (place : Nat) : Nat :=
  ((s.groupConstants.arrays.drop (place + 1)).filter ConstantArray.used).length

/-- An array that is read and is the newest with some register is the one that the register is in. -/
theorem arrayOf?_placeArrays {s : Scan} {place number : Nat} {array : ConstantArray}
    (hplace : s.groupConstants.arrays[place]? = some array) (hused : array.used = true)
    (hcontains : array.contains number = true)
    (hlater : ∀ b ∈ s.groupConstants.arrays.drop (place + 1), (b.used && b.contains number) = false)
    (slot : Nat) :
    ∃ q, (placeArrays slot (usedArrays s)).1[newerReads s place]? = some q ∧ q.array = array ∧
      arrayOf? (placeArrays slot (usedArrays s)).1 .float number = some q := by
  have hplaced := map_array_placeArrays slot (usedArrays s)
  unfold newerReads
  unfold usedArrays at hplaced ⊢
  generalize s.groupConstants.arrays = as at *
  obtain ⟨hlt, hget⟩ := List.getElem?_eq_some_iff.mp hplace
  -- the arrays read are listed backwards, so those behind the place come first
  have hsplit : as = as.take place ++ array :: as.drop (place + 1) := by
    rw [← hget, List.getElem_cons_drop, List.take_append_drop]
  have hreads : (as.filter ConstantArray.used).reverse =
      ((as.drop (place + 1)).filter ConstantArray.used).reverse ++
        array :: ((as.take place).filter ConstantArray.used).reverse := by
    conv_lhs => rw [hsplit]
    rw [List.filter_append, List.filter_cons_of_pos hused, List.reverse_append, List.reverse_cons,
      List.append_assoc]
    rfl
  generalize (placeArrays slot (as.filter ConstantArray.used).reverse).1 = placed at hplaced ⊢
  rw [hreads] at hplaced
  obtain ⟨newer, rest, rfl, hnewer, hrest⟩ := List.map_eq_append_iff.mp hplaced
  obtain ⟨q, older, rfl, hq, -⟩ := List.map_eq_cons_iff.mp hrest
  have hlength : ((as.drop (place + 1)).filter ConstantArray.used).length = newer.length := by
    rw [← List.length_reverse, ← hnewer, List.length_map]
  refine ⟨q, ?_, hq, ?_⟩
  · rw [hlength, List.getElem?_append_right le_rfl, Nat.sub_self]
    rfl
  · have hnone : newer.find? (fun p => p.array.contains number) = none := by
      rw [List.find?_eq_none]
      intro p hp
      have hmem : p.array ∈ (as.drop (place + 1)).filter ConstantArray.used := by
        rw [← List.mem_reverse, ← hnewer]
        exact List.mem_map_of_mem hp
      obtain ⟨hmem, hpused⟩ := List.mem_filter.mp hmem
      have hnot := hlater _ hmem
      rw [hpused, Bool.true_and] at hnot
      exact Bool.eq_false_iff.mp hnot
    rw [arrayOf?, if_pos rfl, List.find?_append, hnone, Option.none_or, List.find?_cons_of_pos]
    rw [hq]
    exact hcontains

end Interface

/-! ### Elements -/

namespace Glsl

variable {a : ConstantArray} (bases : Nat → Nat)

/-- Where the program keeps the value of a constant. -/
inductive Cell where
  | packed (n : Nat)
  | literal (base count n : Nat)
  deriving Repr, DecidableEq

/-- The number that an index stands for, given what the bases of arrays and the register of the index stand
for. -/
def Expr.count? (bases : Nat → Nat) (index : Nat) : Expr → Option Nat
  | .number text => text.toNat?
  | .name (.arrayBase base) => some (bases base)
  | .name .loopCounter => some index
  | .lanes _ _ => some index
  | .group e => e.count? bases index
  | .binary .add a b =>
    (a.count? bases index).bind fun n => (b.count? bases index).map fun m => n + m
  | _ => none

def Expr.cell? (bases : Nat → Nat) (index : Nat) : Expr → Option Cell
  | .element (.packed .float) e => (e.count? bases index).map .packed
  | .element (.constArray base count) e => (e.count? bases index).map (.literal base count)
  | _ => none

theorem count?_indexExpr (n : Nat) (index : RelativeIndex) :
    (Scan.indexExpr index).count? bases n = some n := by
  unfold Scan.indexExpr
  split <;> rfl

theorem count?_number (n m : Nat) : (Expr.number (toString m)).count? bases n = some m :=
  Nat.toNat?_repr m

theorem cell?_of_literal (h : a.isLiteral = true) (bases : Nat → Nat) (n delta : Nat)
    (index : RelativeIndex) :
    (Scan.arrayElement a delta (Scan.indexExpr index)).cell? bases n =
      some (.literal a.index a.count (delta + n)) := by
  have hindex := count?_indexExpr bases n index
  rw [Scan.arrayElement, if_pos h]
  split
  next hzero => rw [Expr.cell?, hindex, hzero, Nat.zero_add]; rfl
  next =>
    rw [Expr.cell?, Expr.add, Expr.count?, hindex, count?_number]
    rfl

theorem cell?_of_host (h : a.isLiteral = false) (bases : Nat → Nat) (n delta : Nat)
    (index : RelativeIndex) :
    (Scan.arrayElement a delta (Scan.indexExpr index)).cell? bases n =
      some (.packed (bases a.index + delta + n)) := by
  have hindex := count?_indexExpr bases n index
  rw [Scan.arrayElement, h, if_neg Bool.false_ne_true]
  split
  next hzero => rw [Expr.cell?, Expr.add, Expr.count?, hindex, hzero]; rfl
  next =>
    rw [Expr.cell?, Expr.add, Expr.count?, hindex, Expr.count?, Expr.add, Expr.count?, count?_number]
    rfl

/-- What the bases of arrays may stand for: what all their declarations say. -/
def Binds (l : LinkedShader) (bases : Nat → Nat) : Prop :=
  ∀ base slot, .arrayBase base slot ∈ declarations l → bases base = slot

end Glsl

def Place.cell : Place → Glsl.Cell
  | .own slot | .shared slot => .packed slot
  | .literal base count element => .literal base count element

def Source.elementOf (a : Source) (array : ConstantArray) : Option Glsl.Expr :=
  a.relative.map fun index =>
    Scan.arrayElement array (a.register.number - array.index) (Scan.indexExpr index)

/-- The relative read `a` with index zero reads the element that its register is declared to be. -/
def SameElement (l : LinkedShader) (bases : Nat → Nat) (a : Source) : Prop :=
  ∀ place array c e, a.arrayPlace? = some place →
    l.scan.groupConstants.arrays[place]? = some array → c ∈ l.interface.constants →
      c.register = a.register → a.elementOf array = some e → e.cell? bases 0 = some c.place.cell

/-! ### The main result -/

/-- The relative read `a` of the unit `v` is of the array at `place`, and so is a read of its register. -/
structure ReadResolved (l : LinkedShader) (v : Visit) (i : Instruction) (a : Source) (place : Nat)
    (array : ConstantArray) : Prop where
  recorded : a.arrayPlace? = some place
  at_place : l.scan.groupConstants.arrays[place]? = some array
  kind : array.kind = .float
  contains : array.contains a.register.number = true
  used : array.used = true
  newest : ConstantArray.newest? (fun b => b.kind = .float && b.contains a.register.number)
    l.scan.groupConstants.arrays = some place
  newest_read : ConstantArray.newest? (fun b => b.used && b.contains a.register.number)
    l.scan.groupConstants.arrays = some place
  /-- The code of the instruction reads an element of this array. -/
  element : ∃ s e, v.Executes i s ∧ a.elementOf array = some e ∧
    Scan.variableOf l.env.toShader (Scan.settled v.env s i) a = .ok e
  /-- If the register is a constant of the host, it is attached to the same array. -/
  attached : ∀ c ∈ l.interface.constants, c.register = a.register →
    ∃ q, l.interface.arrays[Interface.newerReads l.scan place]? = some q ∧ q.array = array ∧
      Interface.arrayOf? l.interface.arrays c.kind c.number = some q ∧
      c.place = Interface.placeIn q c.number
  same : ∀ bases, Glsl.Binds l bases → SameElement l bases a

theorem newest?_used_of_resolved {number place : Nat} (h : s.inventory.Resolved number place array)
    (sound : ∀ b ∈ s.arrays, b.Sound) :
    ConstantArray.newest? (fun b => b.used && b.contains number) s.arrays = some place := by
  obtain ⟨a, ha, hfloat, hlater⟩ := ConstantArray.newest?_eq_some_iff.mp h.newest
  obtain rfl : array = a := Option.some.inj (h.at_place.symm.trans ha)
  rw [Bool.and_eq_true] at hfloat
  refine ConstantArray.newest?_eq_some_iff.mpr ⟨array, ha, ?_, fun b hb => ?_⟩
  · rw [h.used, Bool.true_and]
    exact hfloat.2
  · -- a later array that is read is one of floats, too
    rw [Bool.eq_false_iff]
    intro hread
    obtain ⟨hused, hcontains⟩ := Bool.and_eq_true_iff.mp hread
    have hkind := (sound b (List.mem_of_mem_drop hb) hused).1
    have hnot := hlater b hb
    rw [hkind, hcontains] at hnot
    cases hnot

/-- The relative reads of a run without a fault are resolved when they are read, and for good. -/
theorem Scan.Run.resolved {env : Env} {t : Scan} {n : Nat} {ws : List Word}
    (r : Scan.Run env s n ws vs t) (clean : t.faults = []) (hv : v ∈ vs)
    (hi : v.instruction? = some i) (ha : a ∈ i.sources) (hconst : a.IsRelativeConstant) :
    ∃ u place array, v.Executes i u ∧ a.arrayPlace? = some place ∧ u.arrays[place]? = some array ∧
      t.inventory.Resolved a.register.number place array := by
  obtain ⟨u, h⟩ := (r.does clean v hv).executes hi
  obtain ⟨place, array, hplace, hresolved⟩ := h.taken.resolved ha hconst
  refine ⟨u, place, array, h, hplace, hresolved.at_place, ?_⟩
  refine Inventory.Turns.preserves (P := fun k => k.Resolved a.register.number place array)
    (fun hturn hk => hk.turn hturn) ((r.turns clean).2 v hv).2 ?_
  exact hresolved.turn h.turn_after.1

theorem Scan.variableOf_eq (sh : Shader) {place : Nat} (hconst : a.IsRelativeConstant)
    (hplace : a.arrayPlace? = some place) (harray : s.arrays[place]? = some array) :
    ∃ e, a.elementOf array = some e ∧ variableOf sh s a = .ok e := by
  obtain ⟨hrelative, hfile⟩ := hconst
  obtain ⟨index, hindex⟩ := Option.isSome_iff_exists.mp hrelative
  have hspelled : (a.register.spelling? sh).isNone = false := by
    unfold Register.spelling?
    rw [hfile]
    rfl
  have hfound : (index.array.bind fun place => s.arrays[place]?) = some array := by
    have hrecorded : index.array = some place := by
      rw [← hplace, Source.arrayPlace?, hindex]
      rfl
    rw [hrecorded]
    exact harray
  refine ⟨_, by rw [Source.elementOf, hindex]; rfl, ?_⟩
  rw [variableOf, hspelled, if_neg Bool.false_ne_true, hindex]
  dsimp only
  rw [hfile]
  dsimp only
  rw [hfound]

namespace Interface

theorem attached_ofScan (sh : Shader) {s : Scan} {a : Source} {place : Nat} {array : ConstantArray}
    (hfile : a.register.file = .const) (hplace : s.groupConstants.arrays[place]? = some array)
    (hnewest : ConstantArray.newest? (fun b => b.used && b.contains a.register.number)
      s.groupConstants.arrays = some place) {c : PlacedConstant}
    (hc : c ∈ (ofScan sh s).constants) (hr : c.register = a.register) :
    ∃ q, (ofScan sh s).arrays[newerReads s place]? = some q ∧ q.array = array ∧
      arrayOf? (ofScan sh s).arrays c.kind c.number = some q ∧ c.place = placeIn q c.number := by
  obtain ⟨b, hb, hread, hlater⟩ := ConstantArray.newest?_eq_some_iff.mp hnewest
  obtain rfl : b = array := Option.some.inj (hb.symm.trans hplace)
  obtain ⟨hused, hcontains⟩ := Bool.and_eq_true_iff.mp hread
  obtain ⟨q, hq, hqarray, hfound⟩ := arrayOf?_placeArrays hplace hused hcontains hlater 0
  have hkind : c.kind = .float := by
    have hcfile : c.kind.file = .const := (congrArg Register.file hr).trans hfile
    cases hk : c.kind with
    | float => rfl
    | int | bool =>
      rw [hk] at hcfile
      cases hcfile
  have hnumber : c.number = a.register.number := congrArg Register.number hr
  have hattached : arrayOf? (ofScan sh s).arrays c.kind c.number = some q := by
    rw [hkind, hnumber]
    exact hfound
  refine ⟨q, hq, hqarray, hattached, ?_⟩
  rcases settled_placeConstants _ _ (openConstants s) c hc with ⟨p, hp, hcell⟩ | ⟨hnone, -⟩
  · rw [Option.some.inj (hattached.symm.trans hp)]
    exact hcell
  · exact absurd (hattached.symm.trans hnone) (Option.some_ne_none q)

theorem cell_placeIn {q : PlacedArray} (hliteral : q.slot = none ↔ q.array.isLiteral = true)
    {bases : Nat → Nat} (hbase : ∀ slot, q.slot = some slot → bases q.array.index = slot)
    (number : Nat) (index : RelativeIndex) :
    (Scan.arrayElement q.array (number - q.array.index) (Scan.indexExpr index)).cell? bases 0 =
      some (placeIn q number).cell := by
  cases hslot : q.slot with
  | none =>
    rw [Glsl.cell?_of_literal (hliteral.mp hslot), placeIn, hslot]
    rfl
  | some slot =>
    have hhost : q.array.isLiteral = false := by
      rw [Bool.eq_false_iff]
      intro h
      rw [hliteral.mpr h] at hslot
      cases hslot
    rw [Glsl.cell?_of_host hhost, placeIn, hslot, hbase slot hslot]
    show _ = some (Glsl.Cell.packed (number - q.array.index + slot))
    rw [Nat.add_zero, Nat.add_comm]

end Interface

theorem readResolved_ofUnits {env : Env} {us : List Word} {t : Scan}
    (r : Scan.Run env { position := .before } 1 us vs t)
    (hend : Scan.ofUnits env us = t.moveTo .after) (clean : t.faults = []) (hv : v ∈ vs)
    (hi : v.instruction? = some i) (ha : a ∈ i.sources) (hconst : a.IsRelativeConstant) :
    ∃ place array, ReadResolved (.ofUnits env us) v i a place array := by
  obtain ⟨u, place, array, hexecutes, hplace, hthen, hresolved⟩ := r.resolved clean hv hi ha hconst
  -- the arrays were made out, so the end adds none
  have hgroup : (Scan.ofUnits env us).groupConstants = Scan.ofUnits env us := by
    rw [hend, Scan.groupConstants]
    exact if_pos hresolved.grouped
  have harrays : (Scan.ofUnits env us).groupConstants.arrays = t.arrays := by
    rw [hgroup, hend]
    rfl
  have hsound : ∀ b ∈ t.arrays, b.Sound :=
    ((Scan.invariant_arraysSound env).run r fun b hb => absurd hb List.not_mem_nil).2
  have hread := newest?_used_of_resolved hresolved hsound
  obtain ⟨b, hb, hfloat⟩ := ConstantArray.getElem?_of_newest? hresolved.newest
  obtain rfl : b = array := Option.some.inj (hb.symm.trans hresolved.at_place)
  rw [Bool.and_eq_true, decide_eq_true_iff] at hfloat
  replace hb : (Scan.ofUnits env us).groupConstants.arrays[place]? = some b := by
    rw [harrays]
    exact hb
  rw [← harrays] at hread
  have hattached : ∀ c ∈ (LinkedShader.ofUnits env us).interface.constants,
      c.register = a.register → _ := fun c hc hr =>
    Interface.attached_ofScan env.toShader hconst.2 hb hread hc hr
  refine ⟨place, b, hplace, hb, hfloat.1, hfloat.2, hresolved.used, ?_, hread, ?_, hattached, ?_⟩
  · show ConstantArray.newest? _ (Scan.ofUnits env us).groupConstants.arrays = some place
    rw [harrays]
    exact hresolved.newest
  · obtain ⟨e, he, hvariable⟩ := Scan.variableOf_eq env.toShader
      (s := Scan.settled v.env u i) hconst hplace (by rw [hexecutes.arrays_settled]; exact hthen)
    exact ⟨u, e, hexecutes, he, hvariable⟩
  · intro bases hbinds place' array' c e hplace' harray' hc hr he
    obtain rfl : place' = place := Option.some.inj (hplace'.symm.trans hplace)
    obtain rfl : array' = b := Option.some.inj (harray'.symm.trans hb)
    obtain ⟨q, hq, rfl, -, hcell⟩ := hattached c hc hr
    obtain ⟨index, -, rfl⟩ := Option.map_eq_some_iff.mp he
    have hmem := List.mem_of_getElem? hq
    have hnumber : a.register.number = c.number := (congrArg Register.number hr).symm
    rw [hcell, hnumber]
    refine Interface.cell_placeIn (Interface.isLiteral_of_placeArrays hmem) (fun slot hslot => ?_) _ _
    have hdecl := arrayDecl_mem_declarations (l := .ofUnits env us) hmem
    rw [Glsl.arrayDecl, hslot] at hdecl
    exact hbinds _ _ hdecl

/-- If no two arrays of the host begin with the same register, their bases are told apart. -/
theorem exists_binds {l : LinkedShader}
    (distinct : ((l.interface.arrays.filter fun q => q.slot.isSome).map
      fun q => q.array.index).Nodup) : ∃ bases, Glsl.Binds l bases := by
  refine ⟨fun base => (((l.interface.arrays.filter fun q => q.slot.isSome).find?
    fun q => q.array.index = base).bind PlacedArray.slot).getD 0, fun base slot h => ?_⟩
  obtain ⟨q, hq, hdecl⟩ := mem_arrays_of_origin h rfl
  unfold Glsl.arrayDecl at hdecl
  split at hdecl
  next slot' hslot =>
    cases hdecl
    have hhost : q ∈ l.interface.arrays.filter fun q => q.slot.isSome :=
      List.mem_filter.mpr ⟨hq, by rw [hslot]; rfl⟩
    -- the array that is found is this one, as no other begins with its register
    cases hfound : (l.interface.arrays.filter fun q => q.slot.isSome).find?
        fun p => p.array.index = q.array.index with
    | none =>
      have hno := List.find?_eq_none.mp hfound q hhost
      simp at hno
    | some p =>
      have hindex : p.array.index = q.array.index := by simpa using List.find?_some hfound
      obtain rfl : p = q :=
        List.inj_on_of_nodup_map distinct (List.mem_of_find?_eq_some hfound) hhost hindex
      dsimp only
      rw [hfound, Option.bind_some, hslot]
      rfl
  next => cases hdecl

/-- **Relative reads.**  In a shader without a fault a relative read of a constant and a read of its register
are of the same array, and so of the same element if the index is zero and the bases of arrays stand for
what their declarations say.  They can, unless two arrays of the host begin with the same register. -/
theorem lift_relative_reads_agree (p : Glsl.Profile) (o : Options) (ws : List Word) :
    (∀ v ∈ unitsOf o ws, ∀ t, Scan.Moves v.env (v.before.noteEnd v.word) t →
        ∀ b ∈ t.arrays, b.used = true → b.kind = .float) ∧
      ((liftWords p o ws).errors = [] → ∃ l, linkShader o ws = .ok l ∧
        (∀ v ∈ unitsOf o ws, ∀ i, v.instruction? = some i → ∀ a ∈ i.sources,
          a.IsRelativeConstant → ∃ place array, ReadResolved l v i a place array) ∧
        (((l.interface.arrays.filter fun q => q.slot.isSome).map fun q => q.array.index).Nodup →
          ∃ bases, Glsl.Binds l bases)) := by
  refine ⟨fun v hv t hmoves b hb hused => ?_, fun success => ?_⟩
  · rcases run_unitsOf o ws with hnone | ⟨w, us, env, -, -, r⟩
    · rw [hnone] at hv
      cases hv
    · have hsound := Scan.invariant_arraysSound env
      have hstart := hsound.start fun b hb => absurd hb List.not_mem_nil
      have hbefore := ((hsound.run r hstart).1 v hv).1
      rw [r.env_eq v hv] at hmoves
      refine (hsound.moves hmoves ?_ b hb hused).1
      unfold Scan.noteEnd
      split
      · exact hsound.ended hbefore
      · exact hbefore
  · obtain ⟨w, us, env, rfl, version, good, hlink⟩ := linkShader_of_no_errors p o ws success
    obtain ⟨t, r, hend, hclean⟩ := Scan.run_of_clean good
    rw [← unitsOf_cons o version] at r
    exact ⟨.ofUnits env us, hlink,
      fun v hv i hi a ha hconst => readResolved_ofUnits r hend hclean hv hi ha hconst, exists_binds⟩

/-- A vertex shader that adds one of eight constants, chosen by its input, and the third of them. -/
def offsetCode : List Word :=
  [0xFFFE0101,
    -- a symbol table with one symbol, `bone`, in the registers 0 to 7
    0x0016FFFE, 0x42415443, 28, 0, 0xFFFE0101, 1, 28, 0, 0, 64, 2, 8, 48, 0, 0x00030001, 0x00040001,
    8, 0, 0x656E6F62, 115, 0, 0, 0,
    1, 0xB0010000, 0x90000000,
    2, 0x800F0000, 0xA0E42002, 0xA0E40002,
    1, 0xC00F0000, 0x80E40000,
    0xFFFF]

theorem relative_reads_agree_offsetCode :
    (liftWords .glsl110 {} offsetCode).errors = [] ∧
      ∃ l, linkShader {} offsetCode = .ok l ∧
        (∀ v ∈ unitsOf {} offsetCode, ∀ i, v.instruction? = some i → ∀ a ∈ i.sources,
          a.IsRelativeConstant → ∃ place array, ReadResolved l v i a place array) ∧
        (((l.interface.arrays.filter fun q => q.slot.isSome).map fun q => q.array.index).Nodup →
          ∃ bases, Glsl.Binds l bases) :=
  ⟨by decide +kernel, (lift_relative_reads_agree .glsl110 {} offsetCode).2 (by decide +kernel)⟩

/-! ### Arrays that begin with the same register -/

/-- A vertex shader with two symbols that begin with the same register, of eight registers and of four.  It
reads an element of each by an index and by its register. -/
def doubledBases : List Word :=
  [0xFFFE0200,
    -- a symbol table with two symbols, `a` in the registers 0 to 7 and `b` in 0 to 3
    0x0018FFFE, 0x42415443, 28, 88, 0xFFFE0200, 2, 28, 0, 88, 84, 2, 8, 68, 0, 86, 2, 4, 68, 0,
    0x00030001, 0x00040001, 1, 0, 0x00620061, 0x7376,
    0x0200001F, 0x80000000, 0x900F0000,
    0x0200002E, 0xB0010000, 0x90000000,
    0x03000001, 0x800F0000, 0xA0E42000, 0xB0000000,
    0x03000001, 0x800F0001, 0xA0E42005, 0xB0000000,
    0x02000001, 0x800F0002, 0xA0E40000,
    0x02000001, 0x800F0003, 0xA0E40005,
    0x02000001, 0xC00F0000, 0x80E40000,
    0xFFFF]

def readByAddress (number place : Nat) : Source :=
  { register := ⟨.const, number⟩, relative := some ⟨⟨.address, 0⟩, .x, some place⟩ }

def sourcesOf (o : Options) (ws : List Word) : List Source :=
  ((unitsOf o ws).filterMap Visit.instruction?).flatMap fun i => i.sources

/-- Whatever the base of the two arrays stands for, one of the relative reads with index zero is not of
the element that its register is declared to be. -/
theorem doubledBases_differ :
    (liftWords .glsl110 {} doubledBases).errors = [] ∧
      ∃ l, linkShader {} doubledBases = .ok l ∧
        ¬ ∃ bases, ∀ a ∈ sourcesOf {} doubledBases, a.IsRelativeConstant → SameElement l bases a := by
  refine ⟨by decide +kernel, ?_⟩
  have hreads : readByAddress 0 1 ∈ sourcesOf {} doubledBases ∧
      readByAddress 5 0 ∈ sourcesOf {} doubledBases := by
    decide +kernel
  have hfacts : (match linkShader {} doubledBases with
      | .ok l => decide (
        l.scan.groupConstants.arrays[1]? = some ⟨.float, 0, 4, [], true⟩ ∧
          l.scan.groupConstants.arrays[0]? = some ⟨.float, 0, 8, [], true⟩ ∧
          ⟨.float, 0, .shared 0⟩ ∈ l.interface.constants ∧
          ⟨.float, 5, .shared 9⟩ ∈ l.interface.constants)
      | .error _ => false) = true := by
    decide +kernel
  cases hlink : linkShader {} doubledBases with
  | error faults =>
    rw [hlink] at hfacts
    cases hfacts
  | ok l =>
    rw [hlink] at hfacts
    obtain ⟨hshort, hlong, hfirst, hsixth⟩ := of_decide_eq_true hfacts
    refine ⟨l, rfl, ?_⟩
    rintro ⟨bases, hsame⟩
    have hzero := hsame _ hreads.1 ⟨rfl, rfl⟩ 1 _ _ _ rfl hshort hfirst rfl rfl
    have hfive := hsame _ hreads.2 ⟨rfl, rfl⟩ 0 _ _ _ rfl hlong hsixth rfl rfl
    rw [Glsl.cell?_of_host rfl] at hzero hfive
    -- the base would have to be 0 and 4
    have hbase : bases 0 + 0 + 0 = 0 := Glsl.Cell.packed.inj (Option.some.inj hzero)
    have hbase' : bases 0 + 5 + 0 = 9 := Glsl.Cell.packed.inj (Option.some.inj hfive)
    omega

end ShaderLift
