/-
What an instruction can do to the state beside taking its slots, said once.  `account` goes by the opcode
and calls on functions with conditions of their own; `Consequence` lists what comes of them, and in each
case the new state is written out.  Whatever has to hold after an instruction is then checked against this
list, and a field that a case does not name is the old one by `rfl`.
-/
import ShaderLift.Scan.Legality

namespace ShaderLift

def Opcode.isBracket : Opcode → Bool
  | .loop | .endLoop | .rep | .endRep | .ifBool | .ifCompare | .endIf | .texM3x2Pad | .texM3x3Pad =>
    true
  | _ => false

def Opcode.matrixForm? : Opcode → Option MatrixForm
  | .m4x4 => some .m4x4
  | .m4x3 => some .m4x3
  | .m3x4 => some .m3x4
  | .m3x3 => some .m3x3
  | .m3x2 => some .m3x2
  | _ => none

def Opcode.varies : Opcode → Bool
  | .dp4 | .cmp | .texLd | .texLdl => true
  | _ => false

namespace Scan

def declareTextures (s : Scan) (i : Instruction) : Scan :=
  (s.declareTexture i.dest.register.number).declareTexture (i.source 0).register.number

/-- What an instruction can do to the state. -/
inductive Consequence (env : Env) (s : Scan) (i : Instruction) : Scan → Prop
  | nothing : Consequence env s i s
  | define (op : i.opcode = .defF ∨ i.opcode = .defI ∨ i.opcode = .defB) (kind : ConstantKind)
      (legal : (defineFaults s i kind).isEmpty) :
      Consequence env s i
        ((s.addConstant ⟨kind, i.dest.register.number, i.literals⟩).markDefined i.dest.register)
  | label : Consequence env s i (s.markDefined ⟨.label, (i.source 0).register.number⟩)
  /-- A declaration behind an instruction that took a slot. -/
  | late (op : i.opcode = .dcl) (slots : 0 < s.slots) :
      Consequence env s i (s.markDefined i.dest.register)
  | sampler (op : i.opcode = .dcl) (file : i.dest.register.file = .sampler) :
      Consequence env s i
        ((s.addSampler env i.dest.register.number i.declared.kind false).markDefined i.dest.register)
  | meaning (op : i.opcode = .dcl) (slots : s.slots = 0) {usage : Usage}
      (stated : i.declared.usage = some usage) :
      Consequence env s i
        ((s.setAttribute i.dest.register
          ⟨usage, i.declared.index, i.dest.modifiers.centroid⟩).markDefined i.dest.register)
  | rows (form : MatrixForm) (op : i.opcode.matrixForm? = some form) :
      Consequence env s i { s with used := (s.useRows i form).used }
  | call (op : i.opcode = .call ∨ i.opcode = .callNz)
      (known : s.used.contains ⟨.label, (i.source 0).register.number⟩) :
      Consequence env s i { s with
        used := s.used.update ⟨.label, (i.source 0).register.number⟩ {} fun u =>
          if u.calls = .none then { u with calls := s.callContext } else u }
  | blocks (op : i.opcode.isBracket = true ∧ i.opcode ≠ .texM3x2Pad ∧ i.opcode ≠ .texM3x3Pad)
      {loops reps ifs : Nat} (inLoops : loops ≤ s.loops + 1) (inReps : reps ≤ s.reps + 1)
      (inIfs : ifs ≤ s.ifs + 1) :
      Consequence env s i { s with loops := loops, reps := reps, ifs := ifs }
  | charge (op : i.opcode.varies = true) (n : Nat) : Consequence env s i (s.charge n)
  | compare (op : i.opcode.varies = true) (n : Nat) :
      Consequence env s i ({ s with compares := s.compares + 1 }.charge n)
  | plane (op : i.opcode = .texLd) (old : ¬ env.atLeast 1 4) :
      Consequence env s i (s.addSampler env i.dest.register.number (some .plane) false)
  | lookup {kind : TextureKind} (op : i.opcode.lookupKind? = some kind) (bump : Bool) :
      Consequence env s i
        ((s.addSampler env i.dest.register.number (some kind) bump).declareTextures i)
  | textures : Consequence env s i (s.declareTextures i)
  | pad2 (op : i.opcode = .texM3x2Pad) : Consequence env s i ((s.declareTextures i).addPad2 i)
  | pad3 (op : i.opcode = .texM3x3Pad) :
      Consequence env s i { s.declareTextures i with pads := (s.addPad3 i).pads }

theorem useRows_frame (s : Scan) (i : Instruction) (form : MatrixForm) :
    s.useRows i form = { s with used := (s.useRows i form).used } := by
  unfold useRows
  generalize (i.matrixRows form.rows).drop 1 = rows
  induction rows generalizing s with
  | nil => rfl
  | cons row rows ih => exact ih (s.markUsed row.register false)

variable {env : Env} {s : Scan} {i : Instruction}

theorem useTextures_eq (op : i.opcode.lookupKind? = none) (bump : Bool) :
    s.useTextures env i bump = s.declareTextures i := by
  unfold useTextures
  rw [op]
  rfl

namespace Consequence

theorem of_define (op : i.opcode = .defF ∨ i.opcode = .defI ∨ i.opcode = .defB)
    (kind : ConstantKind) : Consequence env s i (s.define i kind) := by
  unfold Scan.define
  split
  next legal => exact .define op kind legal
  next => exact .nothing

theorem of_declare (op : i.opcode = .dcl) : Consequence env s i (s.declare env i) := by
  unfold declare
  dsimp only
  split
  next slots => exact .late op slots
  next slots =>
    split
    next file => exact .sampler op file
    next =>
      cases stated : i.declared.usage with
      | none => exact .nothing
      | some usage => exact .meaning op (Nat.eq_zero_of_not_pos slots) stated

theorem of_useRows {form : MatrixForm} (op : i.opcode.matrixForm? = some form) :
    Consequence env s i (s.useRows i form) := by
  rw [useRows_frame]
  exact .rows form op

theorem of_recordCall (op : i.opcode = .call ∨ i.opcode = .callNz) :
    Consequence env s i (s.recordCall (i.source 0).register.number) := by
  unfold recordCall
  dsimp only
  split
  next known => exact .call op known
  next => exact .nothing

theorem of_lookup {kind : TextureKind} (op : i.opcode.lookupKind? = some kind) (bump : Bool) :
    Consequence env s i (s.useTextures env i bump) := by
  unfold useTextures
  rw [op]
  exact .lookup op bump

theorem of_addPad3 (op : i.opcode = .texM3x3Pad) :
    Consequence env s i ((s.declareTextures i).addPad3 i) := by
  have hpad : (s.declareTextures i).addPad3 i =
      { s.declareTextures i with pads := (s.addPad3 i).pads } := by
    unfold addPad3
    rw [show (s.declareTextures i).pads = s.pads from rfl]
    cases s.pads.m3x3First <;> cases s.pads.m3x3Second <;> rfl
  rw [hpad]
  exact .pad3 op

theorem of_chargeLookup (op : i.opcode.varies = true) (stage : Nat) :
    Consequence env s i (s.chargeLookup stage) := by
  unfold chargeLookup
  split
  · exact .charge op 3
  · exact .nothing

theorem of_account (env : Env) (s : Scan) (i : Instruction) :
    Consequence env s i (account env s i) := by
  -- no instruction opens more than one block
  have keep : ∀ n : Nat, n ≤ n + 1 := Nat.le_succ
  have up : ∀ n : Nat, n + 1 ≤ n + 1 := fun n => Nat.le_refl _
  have down : ∀ n : Nat, n - 1 ≤ n + 1 := fun n => Nat.le_trans (Nat.sub_le n 1) (keep n)
  unfold account
  cases e : i.opcode with
  | defF => exact of_define (.inl e) .float
  | defI => exact of_define (.inr (.inl e)) .int
  | defB => exact of_define (.inr (.inr e)) .bool
  | dcl => exact of_declare e
  | m4x4 | m4x3 | m3x4 | m3x3 | m3x2 => exact of_useRows (by rw [e]; rfl)
  | label => exact .label
  | call => exact of_recordCall (.inl e)
  | callNz => exact of_recordCall (.inr e)
  | loop =>
    -- a loop on other registers is not counted
    dsimp only
    split
    · exact .blocks (by rw [e]; decide) (up _) (keep _) (keep _)
    · exact .nothing
  | endLoop => exact .blocks (by rw [e]; decide) (down _) (keep _) (keep _)
  | rep => exact .blocks (by rw [e]; decide) (keep _) (up _) (keep _)
  | endRep => exact .blocks (by rw [e]; decide) (keep _) (down _) (keep _)
  | ifBool | ifCompare => exact .blocks (by rw [e]; decide) (keep _) (keep _) (up _)
  | endIf => exact .blocks (by rw [e]; decide) (keep _) (keep _) (down _)
  | cmp =>
    dsimp only
    split
    · exact .compare (by rw [e]; rfl) 0
    · exact .compare (by rw [e]; rfl) 1
  | dp4 =>
    dsimp only
    split
    · exact .nothing
    · exact .charge (by rw [e]; rfl) 1
  | texBem | texBemL | texM3x2Tex | texM3x3Tex | texM3x3Spec | texM3x3VSpec =>
    exact of_lookup (by rw [e]; rfl) _
  | texM3x3 =>
    dsimp only
    -- the third row without a lookup only marks its registers
    rw [useTextures_eq (by rw [e]; rfl)]
    exact .textures
  | texM3x2Pad =>
    dsimp only
    rw [useTextures_eq (by rw [e]; rfl)]
    exact .pad2 e
  | texM3x3Pad =>
    dsimp only
    rw [useTextures_eq (by rw [e]; rfl)]
    exact of_addPad3 e
  | texLd =>
    dsimp only
    split
    · exact of_chargeLookup (by rw [e]; rfl) _
    · split
      next => exact .nothing
      -- the stage is that of the destination
      next old => exact .plane e old
  | texLdl =>
    dsimp only
    split
    · exact of_chargeLookup (by rw [e]; rfl) _
    · exact .nothing
  | _ => exact .nothing

end Consequence

/-! ### What is left alone -/

/-- What the consequences of an instruction leave alone. -/
structure Untouched (s t : Scan) : Prop where
  faults : t.faults = s.faults
  failing : t.failing = s.failing
  code : t.code = s.code
  relativeInput : t.relativeInput = s.relativeInput
  helpers : t.helpers = s.helpers
  position : t.position = s.position

theorem Untouched.trans {u : Scan} (h : Untouched s t) (h' : Untouched t u) : Untouched s u :=
  ⟨h'.faults.trans h.faults, h'.failing.trans h.failing, h'.code.trans h.code,
    h'.relativeInput.trans h.relativeInput, h'.helpers.trans h.helpers,
    h'.position.trans h.position⟩

theorem untouched_account (env : Env) (s : Scan) (i : Instruction) :
    Untouched s (account env s i) := by
  have hdoes := Consequence.of_account env s i
  generalize account env s i = t at hdoes ⊢
  cases hdoes <;> exact ⟨rfl, rfl, rfl, rfl, rfl, rfl⟩

/-- A definition that breaks no rule adds its constant, and nothing else adds one. -/
theorem constants_account (legal : violations env s i = []) :
    (account env s i).constants = s.constants ++ i.constant?.toList := by
  by_cases hdefines : i.opcode = .defF ∨ i.opcode = .defI ∨ i.opcode = .defB
  · unfold violations at legal
    unfold account define Instruction.constant?
    rcases hdefines with hop | hop | hop <;> rw [hop] at legal ⊢ <;> dsimp only at legal ⊢ <;>
      rw [legal] <;> rfl
  · have hnone : i.constant? = none := by
      unfold Instruction.constant?
      cases hop : i.opcode with
      | defF | defI | defB => simp [hop] at hdefines
      | _ => rfl
    have hdoes := Consequence.of_account env s i
    rw [hnone, Option.toList_none, List.append_nil]
    generalize account env s i = t at hdoes ⊢
    cases hdoes with
    | define op => exact absurd op hdefines
    | _ => rfl

end Scan

end ShaderLift
