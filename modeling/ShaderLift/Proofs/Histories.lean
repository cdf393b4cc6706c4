/-
What a table of registers holds after a history of edits.  An edit asks for the record of a register,
which is made if there is none, or it changes a record where it stands.  The table is then a sorted map.

A table under packed registers goes through the same history.  As long as the numbers of the registers
have 16 bits, no two registers are packed alike, so each edit keeps the two tables together (`Refines`).
-/
import ShaderLift.Proofs.Bounds
import ShaderLift.Proofs.Subroutines

namespace ShaderLift

/-! ### Packed registers -/

namespace Register

variable {a b : Register}

theorem toNat_key (h : a.number < 65536) : a.key.toNat = a.file.code * 65536 + a.number := by
  have hcode : a.file.code < 20 := by
    cases a.file <;> decide
  have hfile : (UInt32.ofNat a.file.code <<< 16).toNat = a.file.code <<< 16 := by
    rw [UInt32.toNat_shiftLeft, UInt32.toNat_ofNat', Nat.mod_eq_of_lt (show a.file.code < 2 ^ 32 by omega)]
    refine Nat.mod_eq_of_lt ?_
    rw [Nat.shiftLeft_eq]
    show a.file.code * 65536 < 4294967296
    omega
  rw [key, UInt32.toNat_or, hfile, UInt32.toNat_ofNat', Nat.mod_eq_of_lt (by omega),
    ← Nat.shiftLeft_add_eq_or_of_lt h, Nat.shiftLeft_eq]

/-- As long as the numbers fit, packed registers come in the order of the registers. -/
theorem key_lt_key_iff (ha : a.number < 65536) (hb : b.number < 65536) :
    a.key < b.key ↔ a.before b = true := by
  rw [UInt32.lt_iff_toNat_lt, toNat_key ha, toNat_key hb, before_iff]
  omega

theorem key_eq_key_iff (ha : a.number < 65536) (hb : b.number < 65536) : a.key = b.key ↔ a = b := by
  refine ⟨fun h => ?_, fun h => congrArg key h⟩
  by_contra hne
  have hab : a.before b = false := by
    rw [Bool.eq_false_iff, ne_eq, ← key_lt_key_iff ha hb, h]
    exact UInt32.lt_irrefl _
  have hba := before_of_not_before hne hab
  rw [← key_lt_key_iff hb ha, h] at hba
  exact UInt32.lt_irrefl _ hba

end Register

namespace RegisterTable

variable {α : Type} {t : RegisterTable α} {fresh : α} {r : Register}

/-! ### Edits -/

/-- A change of the record of a register, if it has one or `inserts` says that it gets one. -/
structure Edit (α : Type) where
  register : Register
  inserts : Bool
  change : α → α

def edit (fresh : α) (t : RegisterTable α) (e : Edit α) : RegisterTable α :=
  if e.inserts || t.contains e.register then t.update e.register fresh e.change else t

def replay (fresh : α) (edits : List (Edit α)) : RegisterTable α :=
  edits.foldl (edit fresh) empty

def Inserted (r : Register) (edits : List (Edit α)) : Prop :=
  ∃ e ∈ edits, e.register = r ∧ e.inserts = true

def Edit.record (fresh : α) (r : Register) (a : Option α) (e : Edit α) : Option α :=
  if e.register = r then
    if e.inserts then some (e.change (a.getD fresh)) else a.map e.change
  else a

theorem Sorted.edit (h : t.Sorted) (fresh : α) (e : Edit α) : (t.edit fresh e).Sorted := by
  unfold RegisterTable.edit
  split
  · exact h.update _ _ _
  · exact h

theorem Sorted.find?_edit (h : t.Sorted) (e : Edit α) :
    (t.edit fresh e).find? r = e.record fresh r (t.find? r) := by
  unfold RegisterTable.edit Edit.record
  rw [contains_eq_isSome]
  by_cases hr : e.register = r
  · subst hr
    rw [if_pos rfl]
    cases e.inserts with
    | true => exact (h.find?_update _ _ _ _).trans (if_pos rfl)
    | false =>
      cases hfind : t.find? e.register with
      | none => exact hfind
      | some a =>
        refine (h.find?_update _ _ _ _).trans ?_
        rw [if_pos rfl, hfind]
        rfl
  · rw [if_neg hr]
    split
    · exact (h.find?_update _ _ _ _).trans (if_neg hr)
    · rfl

theorem Sorted.update_id (h : t.Sorted) (hr : r ∈ t.registers) : t.update r fresh id = t := by
  obtain ⟨entries⟩ := t
  unfold RegisterTable.update
  unfold Sorted at h
  unfold registers at hr
  refine congrArg RegisterTable.mk ?_
  dsimp only at h hr
  induction entries with
  | nil => cases hr
  | cons e rest ih =>
    obtain ⟨hhead, htail⟩ := List.pairwise_cons.mp h
    unfold updateEntries
    split
    next he => rw [← he, id]
    next hne =>
      have hrest : r ∈ rest.map Prod.fst := (List.mem_cons.mp hr).resolve_left (Ne.symm hne)
      -- the record of `r` is further on, so `r` does not come before this one
      have hafter : ¬ r.before e.1 = true := by
        obtain ⟨y, hy, rfl⟩ := List.mem_map.mp hrest
        exact fun hb => Register.ne_of_before (Register.before_trans hb (hhead y hy)) rfl
      rw [if_neg hafter, ih htail hrest]

/-! ### Histories -/

theorem Sorted.foldl_edit (h : t.Sorted) (fresh : α) (edits : List (Edit α)) :
    (edits.foldl (RegisterTable.edit fresh) t).Sorted ∧
      ∀ r, (edits.foldl (RegisterTable.edit fresh) t).find? r =
        edits.foldl (Edit.record fresh r) (t.find? r) := by
  induction edits generalizing t with
  | nil => exact ⟨h, fun _ => rfl⟩
  | cons e edits ih =>
    obtain ⟨hsorted, hfind⟩ := ih (h.edit fresh e)
    refine ⟨hsorted, fun r => ?_⟩
    rw [List.foldl_cons, List.foldl_cons, hfind, h.find?_edit]

theorem isSome_record (a : Option α) (e : Edit α) :
    (e.record fresh r a).isSome = true ↔ a.isSome = true ∨ (e.register = r ∧ e.inserts = true) := by
  unfold Edit.record
  by_cases hr : e.register = r
  · cases hinserts : e.inserts <;> simp [hr]
  · simp [hr]

theorem isSome_foldl_record (fresh : α) (edits : List (Edit α)) (a : Option α) :
    (edits.foldl (Edit.record fresh r) a).isSome = true ↔ a.isSome = true ∨ Inserted r edits := by
  induction edits generalizing a with
  | nil => simp [Inserted]
  | cons e edits ih =>
    rw [List.foldl_cons, ih, isSome_record, or_assoc]
    simp [Inserted]

theorem field_foldl_record {β : Type} {field : α → β} {edits : List (Edit α)}
    (kept : ∀ e ∈ edits, e.register = r → ∀ a, field (e.change a) = field a) (a : α) :
    (edits.foldl (Edit.record fresh r) (some a)).map field = some (field a) := by
  induction edits generalizing a with
  | nil => rfl
  | cons e edits ih =>
    have hrest := ih fun x hx => kept x (List.mem_cons_of_mem _ hx)
    rw [List.foldl_cons, Edit.record]
    split
    next hr =>
      have hfield := (hrest (e.change a)).trans
        (congrArg some (kept e List.mem_cons_self hr a))
      cases e.inserts
      · exact hfield
      · exact hfield
    next => exact hrest a

theorem sorted_replay (fresh : α) (edits : List (Edit α)) : (replay fresh edits).Sorted :=
  (sorted_empty.foldl_edit fresh edits).1

theorem find?_replay (fresh : α) (edits : List (Edit α)) (r : Register) :
    (replay fresh edits).find? r = edits.foldl (Edit.record fresh r) none :=
  (sorted_empty.foldl_edit fresh edits).2 r

theorem contains_replay (fresh : α) (edits : List (Edit α)) (r : Register) :
    (replay fresh edits).contains r = true ↔ Inserted r edits := by
  rw [contains_eq_isSome, find?_replay, isSome_foldl_record]
  exact or_iff_right Bool.false_ne_true

theorem mem_registers_replay (fresh : α) (edits : List (Edit α)) (r : Register) :
    r ∈ (replay fresh edits).registers ↔ Inserted r edits :=
  contains_iff_mem.symm.trans (contains_replay fresh edits r)

theorem field_replay {β : Type} {field : α → β} {b : β} {earlier later : List (Edit α)} {e : Edit α}
    (there : e.inserts = true ∨ Inserted e.register earlier) (set : ∀ a, field (e.change a) = b)
    (kept : ∀ x ∈ later, x.register = e.register → ∀ a, field (x.change a) = field a) :
    ((replay fresh (earlier ++ e :: later)).find? e.register).map field = some b := by
  have hrecord : ∃ a, Edit.record fresh e.register
      (earlier.foldl (Edit.record fresh e.register) none) e = some (e.change a) := by
    unfold Edit.record
    rw [if_pos rfl]
    cases hinserts : e.inserts with
    | true => exact ⟨_, rfl⟩
    | false =>
      rw [hinserts] at there
      obtain ⟨a, ha⟩ := Option.isSome_iff_exists.mp
        ((isSome_foldl_record fresh earlier none).mpr (.inr (there.resolve_left Bool.false_ne_true)))
      exact ⟨a, congrArg (Option.map e.change) ha⟩
  obtain ⟨a, ha⟩ := hrecord
  rw [find?_replay, List.foldl_append, List.foldl_cons, ha, field_foldl_record kept, set]

end RegisterTable

/-! ### Packed tables -/

namespace PackedTable

open RegisterTable (Edit Inserted)

variable {α : Type} {p : PackedTable α} {t : RegisterTable α} {r : Register} {fresh : α}

def empty : PackedTable α := ⟨[]⟩

def edit (fresh : α) (p : PackedTable α) (e : Edit α) : PackedTable α :=
  if e.inserts || p.contains e.register then p.update e.register fresh e.change else p

def replay (fresh : α) (edits : List (Edit α)) : PackedTable α :=
  edits.foldl (edit fresh) empty

def pack (t : RegisterTable α) : PackedTable α := ⟨t.entries.map fun e => (e.1.key, e)⟩

/-- The packed table stands for the other one, whose registers it tells apart. -/
structure Refines (p : PackedTable α) (t : RegisterTable α) : Prop where
  packed : p = pack t
  numbers : ∀ r ∈ t.registers, r.number < 65536

namespace Refines

theorem records_eq (h : p.Refines t) : p.records = t.entries := by
  rw [h.packed, records, pack, List.map_map]
  exact List.map_id _

theorem find?_eq (h : p.Refines t) (hr : r.number < 65536) : p.find? r = t.find? r := by
  rw [h.packed, find?, pack, RegisterTable.find?]
  have hnumbers : ∀ e ∈ t.entries, e.1.number < 65536 := fun e he => h.numbers _ (List.mem_map_of_mem he)
  dsimp only
  generalize t.entries = es at hnumbers ⊢
  induction es with
  | nil => rfl
  | cons e rest ih =>
    obtain ⟨he, hrest⟩ := List.forall_mem_cons.mp hnumbers
    simp only [List.map_cons, List.find?_cons, Register.key_eq_key_iff he hr]
    cases decide (e.1 = r) with
    | true => rfl
    | false => exact ih hrest

theorem contains_eq (h : p.Refines t) (hr : r.number < 65536) : p.contains r = t.contains r := by
  rw [RegisterTable.contains_eq_isSome, ← h.find?_eq hr, contains, find?, Option.isSome_map, Bool.eq_iff_iff,
    List.any_eq_true, List.find?_isSome]

theorem updateEntries_eq (hr : r.number < 65536) (f : α → α) {es : List (Register × α)}
    (h : ∀ e ∈ es, e.1.number < 65536) :
    PackedTable.updateEntries r fresh f (es.map fun e => (e.1.key, e)) =
      (RegisterTable.updateEntries r fresh f es).map fun e => (e.1.key, e) := by
  induction es with
  | nil => rfl
  | cons e rest ih =>
    obtain ⟨he, hrest⟩ := List.forall_mem_cons.mp h
    rw [List.map_cons, PackedTable.updateEntries, RegisterTable.updateEntries]
    simp only [Register.key_eq_key_iff he hr, Register.key_lt_key_iff hr he, ih hrest]
    split
    next hsame =>
      subst hsame
      rfl
    next => split <;> rfl

theorem update (h : p.Refines t) (hr : r.number < 65536) (fresh : α) (f : α → α) :
    (p.update r fresh f).Refines (t.update r fresh f) where
  packed := by
    rw [h.packed]
    exact congrArg PackedTable.mk
      (updateEntries_eq hr f fun e he => h.numbers _ (List.mem_map_of_mem he))
  numbers x hx := by
    rcases (RegisterTable.mem_registers_update t r fresh f x).mp hx with rfl | hx
    · exact hr
    · exact h.numbers x hx

theorem edit (h : p.Refines t) (e : Edit α) (he : e.register.number < 65536) :
    (p.edit fresh e).Refines (t.edit fresh e) := by
  unfold PackedTable.edit RegisterTable.edit
  rw [h.contains_eq he]
  split
  · exact h.update he _ _
  · exact h

theorem foldl_edit (h : p.Refines t) {edits : List (Edit α)}
    (bounded : ∀ e ∈ edits, e.register.number < 65536) :
    (edits.foldl (PackedTable.edit fresh) p).Refines (edits.foldl (RegisterTable.edit fresh) t) := by
  induction edits generalizing p t with
  | nil => exact h
  | cons e edits ih =>
    obtain ⟨he, hrest⟩ := List.forall_mem_cons.mp bounded
    exact ih (h.edit e he) hrest

end Refines

theorem refines_replay {edits : List (Edit α)} (bounded : ∀ e ∈ edits, e.register.number < 65536) :
    (replay fresh edits).Refines (RegisterTable.replay fresh edits) := by
  have hempty : (empty : PackedTable α).Refines .empty := ⟨rfl, fun _ hr => absurd hr List.not_mem_nil⟩
  exact hempty.foldl_edit bounded

theorem refines_pack (h : ∀ r ∈ t.registers, r.number ≤ 8194) : (pack t).Refines t :=
  ⟨rfl, fun r hr => Nat.lt_of_le_of_lt (h r hr) (by decide)⟩

/-- The tables of the state tell their registers apart when they are packed. -/
def Suits (s : Scan) : Prop :=
  (pack s.used).Refines s.used ∧ (pack s.attributes).Refines s.attributes ∧
    (pack s.samplers).Refines s.samplers

theorem suits_of_bounded {s : Scan} (h : s.Bounded) : Suits s :=
  ⟨refines_pack h.used, refines_pack h.attributes, refines_pack h.samplers⟩

theorem suits_shaders (env : Env) (ws : List Word) :
    (∀ v ∈ Scan.visits env (Scan.start env) 1 ws, Suits v.before ∧ Suits v.after) ∧
      Suits (Scan.ofUnits env ws) := by
  have hunits := (Scan.Bounded.run (Scan.run_readUnits env _ 1 ws) (.start env)).1
  exact ⟨fun v hv => (hunits v hv).imp suits_of_bounded suits_of_bounded, suits_of_bounded (.ofUnits env ws)⟩

/-- **A packed table is a sorted map** of the registers that were put in, as long as their numbers have 16
bits: it stands for the table with the same history.  A field has the value that it was last set to, and
asking for a record that is there gives it as it is. -/
theorem replay_sorted_map (fresh : α) (edits : List (Edit α))
    (bounded : ∀ e ∈ edits, e.register.number < 65536) :
    (replay fresh edits).Refines (RegisterTable.replay fresh edits) ∧
    (replay fresh edits).records.Pairwise (fun a b => a.1.before b.1 = true) ∧
    (∀ r, r ∈ (replay fresh edits).records.map Prod.fst ↔ Inserted r edits) ∧
    (∀ r, r.number < 65536 →
      ((replay fresh edits).contains r = true ↔ Inserted r edits) ∧
      (((replay fresh edits).find? r).isSome = true ↔ Inserted r edits) ∧
      (replay fresh edits).find? r = edits.foldl (Edit.record fresh r) none ∧
      (Inserted r edits → (replay fresh edits).update r fresh id = replay fresh edits)) ∧
    ∀ {β : Type} (field : α → β) (b : β) (earlier later : List (Edit α)) (e : Edit α),
      edits = earlier ++ e :: later → (e.inserts = true ∨ Inserted e.register earlier) →
      (∀ a, field (e.change a) = b) →
      (∀ x ∈ later, x.register = e.register → ∀ a, field (x.change a) = field a) →
      ((replay fresh edits).find? e.register).map field = some b := by
  have hrefines : (replay fresh edits).Refines (RegisterTable.replay fresh edits) := refines_replay bounded
  have hmem := RegisterTable.mem_registers_replay fresh edits
  refine ⟨hrefines, ?_, fun r => ?_, fun r hr => ⟨?_, ?_, ?_, fun hin => ?_⟩, ?_⟩
  · rw [hrefines.records_eq]
    exact RegisterTable.sorted_replay fresh edits
  · rw [hrefines.records_eq]
    exact hmem r
  · rw [hrefines.contains_eq hr]
    exact RegisterTable.contains_replay fresh edits r
  · rw [hrefines.find?_eq hr, ← RegisterTable.contains_eq_isSome]
    exact RegisterTable.contains_replay fresh edits r
  · rw [hrefines.find?_eq hr]
    exact RegisterTable.find?_replay fresh edits r
  · -- both tables are the packed form of the same table
    have hsame : (RegisterTable.replay fresh edits).update r fresh id = RegisterTable.replay fresh edits :=
      (RegisterTable.sorted_replay fresh edits).update_id ((hmem r).mpr hin)
    rw [(hrefines.update hr fresh id).packed, hsame, ← hrefines.packed]
  · rintro β field b earlier later e rfl there set kept
    rw [hrefines.find?_eq (bounded e (by simp))]
    exact RegisterTable.field_replay there set kept

/-- A written temporary, an input and a second temporary, in another order than theirs. -/
def useEdits : List (Edit Use) :=
  [⟨⟨.temp, 3⟩, true, fun u => { u with written := true }⟩, ⟨⟨.input, 0⟩, true, id⟩,
    ⟨⟨.temp, 1⟩, true, id⟩, ⟨⟨.temp, 2⟩, false, fun u => { u with written := true }⟩,
    ⟨⟨.temp, 3⟩, true, id⟩]

theorem useEdits_sorted_map :
    (replay {} useEdits).records.map Prod.fst = [⟨.temp, 1⟩, ⟨.temp, 3⟩, ⟨.input, 0⟩] ∧
      (replay {} useEdits).records.Pairwise (fun a b => a.1.before b.1 = true) ∧
      ((replay {} useEdits).find? ⟨.temp, 3⟩).map Use.written = some true := by
  obtain ⟨hrefines, hsorted, -, -, hfield⟩ := replay_sorted_map {} useEdits (by decide)
  have hwritten := hfield Use.written true [] (useEdits.drop 1)
    ⟨⟨.temp, 3⟩, true, fun u => { u with written := true }⟩ rfl (.inl rfl) (fun _ => rfl) (by simp [useEdits])
  refine ⟨?_, hsorted, hwritten⟩
  rw [hrefines.records_eq]
  rfl

/-- Without the bound two registers can be packed alike, and one takes the place of the other. -/
example : (replay {} [⟨⟨.temp, 65536⟩, true, id⟩] : PackedTable Use).contains ⟨.input, 0⟩ = true := by
  decide

end PackedTable

end ShaderLift
