/-
The code of preshaders, written and read back.  Instructions, their operands and the arrays that these are
indexed by are written one after the other, each list with its length in front of it.

An instruction has more than one encoding: some bits of its words are never looked at.  Encodings are
therefore given by what the words have to say (`EncodesCode`), with `encode` as the one in which all other
bits are zero.  Each part of an encoding is read back with any words behind it, and so are lists of parts.
-/
import ShaderLift.Proofs.Preshader.Checks

namespace ShaderLift.Preshader

variable {i : Instruction} {is : List Instruction} {o : Operand} {bases ws : List Word}

/-! ### Numbers of operations and storages -/

def Opcode.code : Opcode → Nat
  | .mov => 0x1000
  | .neg => 0x1010
  | .rcp => 0x1030
  | .frc => 0x1040
  | .exp => 0x1050
  | .log => 0x1060
  | .rsq => 0x1070
  | .sin => 0x1080
  | .cos => 0x1090
  | .asin => 0x10A0
  | .acos => 0x10B0
  | .atan => 0x10C0
  | .min => 0x2000
  | .max => 0x2010
  | .lt => 0x2020
  | .ge => 0x2030
  | .add => 0x2040
  | .mul => 0x2050
  | .atan2 => 0x2060
  | .div => 0x2080
  | .cmp => 0x3000
  | .movC => 0x3010
  | .dot => 0x5000
  | .noise => 0x5020
  | .minScalar => 0xA000
  | .maxScalar => 0xA010
  | .ltScalar => 0xA020
  | .geScalar => 0xA030
  | .addScalar => 0xA040
  | .mulScalar => 0xA050
  | .atan2Scalar => 0xA060
  | .divScalar => 0xA080
  | .dotScalar => 0xD000
  | .noiseScalar => 0xD020

theorem Opcode.ofCode?_code (op : Opcode) : Opcode.ofCode? op.code = some op := by
  cases op <;> rfl

theorem Opcode.code_lt (op : Opcode) : op.code < 65536 := by
  cases op <;> decide

def Storage.code : Storage → Word
  | .literal => 1
  | .input => 2
  | .output => 4
  | .temp => 7
  | .unknown w => w

theorem Storage.ofCode_code {s : Storage}
    (h : ∀ w, s = .unknown w → w ≠ 1 ∧ w ≠ 2 ∧ w ≠ 4 ∧ w ≠ 7) : Storage.ofCode s.code = s := by
  cases s with
  | literal | input | output | temp => rfl
  | unknown w =>
    obtain ⟨hliteral, hinput, houtput, htemp⟩ := h w rfl
    simp [ofCode, code, hliteral, hinput, houtput, htemp]

/-! ### Encodings -/

/-- The words are those of the elements of a list, one after the other. -/
inductive InTurn {α : Type} (encodes : α → List Word → Prop) : List α → List Word → Prop
  | nil : InTurn encodes [] []
  | cons {x : α} {xs : List α} {ws ws' : List Word} (first : encodes x ws)
      (others : InTurn encodes xs ws') : InTurn encodes (x :: xs) (ws ++ ws')

/-- The base of an array: a word that is skipped, and one that has the base above its two lowest
bits. -/
inductive EncodesBase : Word → List Word → Prop
  | intro {base : Word} (skipped : Word) {place : Word} (value : place.toNat / 4 = base.toNat) :
      EncodesBase base [skipped, place]

/-- An operand: the number of its arrays, its storage, its index and its arrays. -/
inductive EncodesOperand : Operand → List Word → Prop
  | intro {storage : Storage} {index : Word} {bases : List Word} {arrays : Word} {ws : List Word}
      (count : arrays.toNat = bases.length) (each : InTurn EncodesBase bases ws) :
      EncodesOperand ⟨storage, index, bases⟩ (arrays :: storage.code :: index :: ws)

/-- An instruction: operation and number of elements, the number of operands less one, and the
operands. -/
inductive EncodesInstruction : Instruction → List Word → Prop
  | intro {op : Opcode} {elements : Nat} {os : List Operand} {head more : Word} {ws : List Word}
      (opcode : head.toNat / 65536 = op.code) (low : head.toNat % 256 = elements)
      (count : more.toNat + 1 = os.length) (each : InTurn EncodesOperand os ws) :
      EncodesInstruction ⟨some op, elements, os⟩ (head :: more :: ws)

/-- A block of code: the word that names it, the number of instructions and the instructions.  The decoder
is given the block from the second word on. -/
inductive EncodesCode : List Instruction → List Word → Prop
  | intro {is : List Instruction} {number : Word} {ws : List Word} (count : number.toNat = is.length)
      (each : InTurn EncodesInstruction is ws) : EncodesCode is (Word.codeId :: number :: ws)

def baseWords (base : Word) : List Word := [0, UInt32.ofNat (4 * base.toNat)]

def Operand.words (o : Operand) : List Word :=
  UInt32.ofNat o.arrayBases.length :: o.storage.code :: o.index :: o.arrayBases.flatMap baseWords

def Instruction.words (i : Instruction) : List Word :=
  UInt32.ofNat (i.elementCount + 65536 * (i.opcode.map Opcode.code).getD 0)
    :: UInt32.ofNat (i.operands.length - 1) :: i.operands.flatMap Operand.words

def encode (is : List Instruction) : List Word :=
  Word.codeId :: UInt32.ofNat is.length :: is.flatMap Instruction.words

/-! ### Well-formed code -/

/-- An operand that the decoder has nothing to say against: a base leaves room for two bits below it. -/
structure Operand.WellFormed (st : Setting) (o : Operand) : Prop where
  literal : o.storage = .literal → o.index.toNat < st.literalCount
  input : o.storage = .input → ∃ s ∈ st.symbols, 4 * s.registerIndex ≤ o.index.toNat ∧
    o.index.toNat < 4 * (s.registerIndex + s.registerCount)
  output : o.storage = .output → st.isOutput o.index = true
  unknown : ∀ w, o.storage = .unknown w → w ≠ 1 ∧ w ≠ 2 ∧ w ≠ 4 ∧ w ≠ 7
  indexed : o.arrayBases ≠ [] → o.storage = .input
  bases : ∀ base ∈ o.arrayBases, base.toNat < 1073741824

/-- An instruction that the decoder has nothing to say against. -/
structure Instruction.WellFormed (st : Setting) (i : Instruction) : Prop where
  opcode : i.opcode.isSome = true
  elements : i.elementCount < 256
  nonempty : i.operands ≠ []
  operands : ∀ o ∈ i.operands, o.WellFormed st

/-- The numbers of operands and arrays fit into words. -/
structure Instruction.Countable (i : Instruction) : Prop where
  operands : i.operands.length ≤ 4294967296
  arrays : ∀ o ∈ i.operands, o.arrayBases.length < 4294967296

/-! ### Plain encodings -/

theorem InTurn.flatMap {α : Type} {encodes : α → List Word → Prop} {words : α → List Word}
    {xs : List α} (h : ∀ x ∈ xs, encodes x (words x)) : InTurn encodes xs (xs.flatMap words) := by
  induction xs with
  | nil => exact .nil
  | cons x xs ih =>
    obtain ⟨hx, hxs⟩ := List.forall_mem_cons.mp h
    exact .cons hx (ih hxs)

theorem toNat_ofNat {n : Nat} (h : n < 4294967296) : (UInt32.ofNat n).toNat = n :=
  UInt32.toNat_ofNat_of_lt' h

variable {st : Setting}

theorem encodes_baseWords {base : Word} (small : base.toNat < 1073741824) :
    EncodesBase base (baseWords base) := by
  refine .intro 0 ?_
  rw [toNat_ofNat (by omega)]
  omega

theorem Operand.WellFormed.encodes_words (h : o.WellFormed st)
    (few : o.arrayBases.length < 4294967296) : EncodesOperand o o.words :=
  .intro (toNat_ofNat few) (.flatMap fun base hbase => encodes_baseWords (h.bases base hbase))

theorem Instruction.WellFormed.encodes_words (h : i.WellFormed st) (countable : i.Countable) :
    EncodesInstruction i i.words := by
  obtain ⟨opcode, elements, os⟩ := i
  obtain ⟨op, rfl⟩ := Option.isSome_iff_exists.mp h.opcode
  have hcode := op.code_lt
  have helements : elements < 256 := h.elements
  have hlength : os.length ≤ 4294967296 := countable.operands
  have hnonempty : 0 < os.length := List.length_pos_iff.mpr h.nonempty
  have hhead : (UInt32.ofNat (elements + 65536 * op.code)).toNat = elements + 65536 * op.code :=
    toNat_ofNat (by omega)
  show EncodesInstruction _ (UInt32.ofNat (elements + 65536 * op.code)
    :: UInt32.ofNat (os.length - 1) :: os.flatMap Operand.words)
  refine .intro (by omega) (by omega) ?_ (.flatMap fun o ho => ?_)
  · rw [toNat_ofNat (by omega)]
    omega
  · exact (h.operands o ho).encodes_words (countable.arrays o ho)

theorem encodes_encode (h : ∀ i ∈ is, i.WellFormed st) (few : is.length < 4294967296)
    (countable : ∀ i ∈ is, i.Countable) : EncodesCode is (encode is) :=
  .intro (toNat_ofNat few) (.flatMap fun i hi => (h i hi).encodes_words (countable i hi))

/-! ### Reading encodings -/

/-- Elements that take at least so many words each. -/
theorem InTurn.length_le {α : Type} {encodes : α → List Word → Prop} {xs : List α} {n : Nat}
    (h : InTurn encodes xs ws) (room : ∀ x ws, encodes x ws → n ≤ ws.length) :
    xs.length * n ≤ ws.length := by
  induction h with
  | nil => simp
  | cons first others ih =>
    have hfirst := room _ _ first
    rw [List.length_cons, List.length_append, Nat.succ_mul]
    omega

theorem EncodesOperand.three_le_length (h : EncodesOperand o ws) : 3 ≤ ws.length := by
  cases h
  simp

theorem EncodesInstruction.two_le_length (h : EncodesInstruction i ws) : 2 ≤ ws.length := by
  cases h
  simp

theorem arrayBase_eq {w base : Word} (h : w.toNat / 4 = base.toNat) : arrayBase w = base := by
  have hsum : w.toNat / 16 * 4 + w.toNat / 4 % 4 = base.toNat := by omega
  rw [arrayBase, hsum, UInt32.ofNat_toNat]

theorem arrayBases_of_encodes (h : InTurn EncodesBase bases ws) (rest : List Word) :
    arrayBases bases.length (ws ++ rest) = some (bases, rest) := by
  induction h with
  | nil => rfl
  | cons first others ih =>
    cases first with
    | intro skipped value =>
      rw [List.append_assoc]
      simp [arrayBases, ih, arrayBase_eq value]

theorem Operand.WellFormed.plain {storage : Storage} {index : Word}
    (wf : Operand.WellFormed st ⟨storage, index, bases⟩) (each : InTurn EncodesBase bases ws)
    (h : storage ≠ .input) : bases = [] ∧ ws = [] := by
  cases each with
  | nil => exact ⟨rfl, rfl⟩
  | cons first others => exact absurd (wf.indexed (List.cons_ne_nil _ _)) h

theorem operand_of_encodes (h : EncodesOperand o ws) (wf : o.WellFormed st) (rest : List Word) :
    operand st (ws ++ rest) = pure (o, rest) := by
  cases h with
  | @intro storage index bases arrays ws count each =>
    simp only [List.cons_append, operand, Storage.ofCode_code wf.unknown]
    cases storage with
    | literal =>
      obtain ⟨rfl, rfl⟩ := wf.plain each (by simp)
      have hindex : ¬ st.literalCount < index.toNat := Nat.not_lt.mpr (Nat.le_of_lt (wf.literal rfl))
      simp [hindex, Attempt.noteIf]
    | input =>
      have hbases := arrayBases_of_encodes each rest
      rw [← count] at hbases
      dsimp only
      rw [if_pos (Setting.isInput_iff.mpr (wf.input rfl)), hbases]
      rfl
    | output =>
      obtain ⟨rfl, rfl⟩ := wf.plain each (by simp)
      simp [wf.output rfl, Attempt.noteIf]
    | temp | unknown =>
      obtain ⟨rfl, rfl⟩ := wf.plain each (by simp)
      rfl

theorem operands_of_encodes {os : List Operand} (h : InTurn EncodesOperand os ws)
    (wf : ∀ o ∈ os, o.WellFormed st) (rest : List Word) :
    operands st os.length (ws ++ rest) = pure (os, rest) := by
  induction h with
  | nil => rfl
  | cons first others ih =>
    obtain ⟨hfirst, hothers⟩ := List.forall_mem_cons.mp wf
    rw [List.length_cons, operands, List.append_assoc, operand_of_encodes first hfirst, pure_bind]
    dsimp only
    rw [ih hothers, pure_bind]

theorem instruction_of_encodes (h : EncodesInstruction i ws) (wf : i.WellFormed st) (rest : List Word) :
    instruction st (ws ++ rest) = pure (i, rest) := by
  cases h with
  | @intro op elements os head more ws opcode low count each =>
    have hopcode : Opcode.ofCode? (Word.field head 16 16) = some op := by
      have hfield : Word.field head 16 16 = op.code := by
        show head.toNat / 65536 % 65536 = op.code
        rw [opcode]
        exact Nat.mod_eq_of_lt op.code_lt
      rw [hfield, op.ofCode?_code]
    have helements : Word.field head 0 8 = elements := by
      show head.toNat / 1 % 256 = elements
      rwa [Nat.div_one]
    -- every operand takes three words at least, so that the operands are found to fit
    have hlength := each.length_le fun o ws (h : EncodesOperand o ws) => h.three_le_length
    have hroom : ¬ (ws ++ rest).length < (more.toNat + 1) * 3 := by
      rw [List.length_append, count]
      omega
    simp only [List.cons_append, instruction, hopcode, helements]
    rw [if_neg hroom, count, operands_of_encodes each wf.operands]
    rfl

theorem instructionList_of_encodes (h : InTurn EncodesInstruction is ws)
    (wf : ∀ i ∈ is, i.WellFormed st) (rest : List Word) :
    instructionList st is.length (ws ++ rest) = pure is := by
  induction h with
  | nil => rfl
  | cons first others ih =>
    obtain ⟨hfirst, hothers⟩ := List.forall_mem_cons.mp wf
    rw [List.length_cons, instructionList, List.append_assoc, instruction_of_encodes first hfirst,
      pure_bind]
    dsimp only
    rw [ih hothers, pure_bind]

theorem code_of_encodes {block : List Word} (h : EncodesCode is block)
    (wf : ∀ i ∈ is, i.WellFormed st) (trailing : List Word) :
    code st (block ++ trailing).tail = pure is := by
  cases h with
  | @intro number ws count each =>
    have hlength := each.length_le fun i ws (h : EncodesInstruction i ws) => h.two_le_length
    have hroom : ¬ (ws ++ trailing).length / 2 < number.toNat := by
      rw [List.length_append, count]
      omega
    show code st (number :: (ws ++ trailing)) = pure is
    rw [code, if_neg hroom, count, instructionList_of_encodes each wf]

/-- **Decoding undoes encoding.**  Well-formed code is read back from every encoding of it, without a fault
and whatever comes behind it.  There is such an encoding if all numbers fit into words. -/
theorem code_undoes_encoding {is : List Instruction} (wf : ∀ i ∈ is, i.WellFormed st) :
    (∀ block, EncodesCode is block →
        ∀ trailing, code st (block ++ trailing).tail = ⟨[], some is⟩) ∧
      (is.length < 4294967296 → (∀ i ∈ is, i.Countable) → EncodesCode is (encode is)) :=
  ⟨fun _ h trailing => code_of_encodes h wf trailing, encodes_encode wf⟩

/-- One literal, four registers of input from register 2 on, and register 0 as the only output. -/
def palette : Setting where
  literalCount := 1
  symbols := [⟨"k", .float4, 2, 4, .mk .vector .float 1 4 4 []⟩]
  outputs := some [(0, 1)]

/-- A product with an input that is indexed by two arrays, and an operation on an unknown storage. -/
def indexedCode : List Instruction :=
  [⟨some .mul, 1, [⟨.input, 9, [12, 0x3FFFFFFF]⟩, ⟨.literal, 0, []⟩, ⟨.temp, 0xFFFFFFFF, []⟩]⟩,
    ⟨some .noiseScalar, 255, [⟨.unknown 3, 7, []⟩, ⟨.output, 2, []⟩]⟩]

theorem wellFormed_indexedCode : ∀ i ∈ indexedCode, i.WellFormed palette := by
  have hinput : Operand.WellFormed palette ⟨.input, 9, [12, 0x3FFFFFFF]⟩ := by
    constructor <;> simp [palette]
  have hliteral : Operand.WellFormed palette ⟨.literal, 0, []⟩ := by
    constructor <;> simp [palette]
  have htemp : Operand.WellFormed palette ⟨.temp, 0xFFFFFFFF, []⟩ := by
    constructor <;> simp
  have hunknown : Operand.WellFormed palette ⟨.unknown 3, 7, []⟩ := by
    constructor <;> simp
  have houtput : Operand.WellFormed palette ⟨.output, 2, []⟩ := by
    constructor <;> simp [palette, Setting.isOutput]
  refine List.forall_mem_cons.mpr ⟨⟨rfl, by decide, List.cons_ne_nil _ _, ?_⟩,
    List.forall_mem_singleton.mpr ⟨rfl, by decide, List.cons_ne_nil _ _, ?_⟩⟩
  · simp [hinput, hliteral, htemp]
  · simp [hunknown, houtput]

theorem countable_indexedCode : ∀ i ∈ indexedCode, i.Countable := by
  refine List.forall_mem_cons.mpr ⟨⟨?_, ?_⟩, List.forall_mem_singleton.mpr ⟨?_, ?_⟩⟩ <;> simp

theorem code_indexedCode :
    (∀ i ∈ indexedCode, i.WellFormed palette) ∧
      code palette (encode indexedCode ++ [0x0001FFFE, 5]).tail = ⟨[], some indexedCode⟩ := by
  obtain ⟨hread, hencode⟩ := code_undoes_encoding wellFormed_indexedCode
  exact ⟨wellFormed_indexedCode, hread _ (hencode (by decide) countable_indexedCode) _⟩

end ShaderLift.Preshader
