/-
What a decoded preshader can be relied on for.  The code of a preshader is decoded to the end even if its
operations or operands are at fault, so that the faults can be read off the instructions that come out
(`Instruction.faults`).

The check of literals lets one index too many through, so that a preshader without faults may refer to the
literal behind the last one.  The number of temporaries is the highest that is used, rounded up once at
the end; as long as the sum does not wrap around, this is the least number of whole registers for them.
-/
import ShaderLift.Proofs.Preshader.Blocks
import ShaderLift.Proofs.SymbolTable

namespace ShaderLift

namespace Attempt

variable {α β : Type}

theorem exists_of_bind_eq {a : Attempt α} {f : α → Attempt β} {faults : List Fault} {y : β}
    (h : a >>= f = ⟨faults, some y⟩) :
    ∃ before x after, a = ⟨before, some x⟩ ∧ f x = ⟨after, some y⟩ ∧ faults = before ++ after := by
  obtain ⟨before, _ | x⟩ := a
  · cases h
  · rw [bind_def, some_andThen, mk.injEq] at h
    exact ⟨before, x, (f x).faults, rfl, congrArg (mk _) h.2, h.1.symm⟩

theorem noteIf_eq (b : Bool) (f : Fault) : noteIf b f = ⟨faultIf b f, some ()⟩ := by
  cases b <;> rfl

/-- A decoder that gives up at the first fault. -/
def Strict (a : Attempt α) : Prop := ∀ x, a.value = some x → a.faults = []

namespace Strict

variable {a : Attempt α} {f : α → Attempt β}

theorem pure (x : α) : Strict (Pure.pure x) := fun _ _ => rfl

theorem stop (f : Fault) : Strict (Attempt.stop f : Attempt α) := fun _ h => by cases h

theorem ofOptionOr (f : Fault) (o : Option α) : Strict (Attempt.ofOptionOr f o) := by
  cases o with
  | none => exact stop f
  | some x => exact pure x

theorem ite {c : Prop} [Decidable c] {a b : Attempt α} (ha : a.Strict) (hb : b.Strict) :
    Strict (if c then a else b) := by
  split
  · exact ha
  · exact hb

theorem bind (ha : a.Strict) (hf : ∀ x, (f x).Strict) : (a >>= f).Strict := by
  obtain ⟨faults, _ | x⟩ := a
  · intro y hy
    cases hy
  · intro y hy
    rw [bind_def, some_andThen, show faults = [] from ha x rfl, show (f x).faults = [] from hf x y hy]
    rfl

theorem exists_of_bind_eq (ha : a.Strict) {faults : List Fault} {y : β}
    (h : a >>= f = ⟨faults, some y⟩) : ∃ x, a.value = some x ∧ f x = ⟨faults, some y⟩ := by
  obtain ⟨before, x, after, rfl, hf, rfl⟩ := Attempt.exists_of_bind_eq h
  rw [show before = [] from ha x rfl]
  exact ⟨x, rfl, hf⟩

end Strict

end Attempt

theorem Symbol.mem_faults_table {payload : List Word} {version : Word} {f : Fault}
    (h : f ∈ (table payload version).faults) :
    IsTypeFault (Block.ofWords payload) f ∨ f = refusal (Block.ofWords payload) := by
  by_cases htable : IsTable (Block.ofWords payload) version
  · have hexact : Attempt.Exact _ (symbols _ version) _ _ _ := exact_symbols htable.header
    rw [table_of_isTable htable] at h
    refine .inl (hexact.known f ?_)
    rwa [hexact.accepts htable]
  · obtain ⟨faults, hknown, heq⟩ := table_of_not_isTable htable
    rw [heq] at h
    rcases List.mem_append.mp h with h | h
    · exact .inl (hknown f h)
    · exact .inr (List.mem_singleton.mp h)

namespace Preshader

variable {is : List Instruction} {p : Preshader}

theorem Setting.isInput_iff {st : Setting} {index : Word} :
    st.isInput index = true ↔ ∃ s ∈ st.symbols, 4 * s.registerIndex ≤ index.toNat ∧
      index.toNat < 4 * (s.registerIndex + s.registerCount) := by
  rw [isInput, List.any_eq_true]
  apply exists_congr
  intro s
  rw [Bool.and_eq_true, decide_eq_true_eq, decide_eq_true_eq, Nat.mul_add, Nat.mul_comm 4, Nat.mul_comm 4]

/-! ### Faults of instructions -/

def Operand.faults (st : Setting) (o : Operand) : List Fault :=
  match o.storage with
  | .literal => faultIf (st.literalCount < o.index.toNat) .preshaderLiteralIndex
  | .input => faultIf (!st.isInput o.index) .preshaderInputIndex
  | .output => faultIf (!st.isOutput o.index) .preshaderOutputIndex
  | .temp | .unknown _ => []

def Instruction.faults (st : Setting) (i : Instruction) : List Fault :=
  faultIf i.opcode.isNone .preshaderOpcode ++ i.operands.flatMap (Operand.faults st)

variable {st : Setting} {ws rest : List Word} {faults : List Fault}

theorem faults_of_operand {o : Operand} (h : operand st ws = ⟨faults, some (o, rest)⟩) :
    faults = o.faults st := by
  match ws with
  | [] | [_] | [_, _] => cases h
  | arrays :: kind :: index :: ws =>
    simp only [operand] at h
    cases hstorage : Storage.ofCode kind with
    | literal | output =>
      simp only [hstorage, Attempt.noteIf_eq] at h
      cases h
      exact List.append_nil _
    | temp | unknown =>
      simp only [hstorage] at h
      cases h
      rfl
    | input =>
      simp only [hstorage] at h
      split at h
      next hinput =>
        obtain ⟨⟨bases, ws'⟩, -, hrest⟩ := (Attempt.Strict.ofOptionOr _ _).exists_of_bind_eq h
        cases hrest
        rw [Operand.faults, hinput]
        rfl
      next hinput =>
        cases h
        rw [Operand.faults, eq_false_of_ne_true hinput]
        rfl

theorem faults_of_operands {n : Nat} {os : List Operand}
    (h : operands st n ws = ⟨faults, some (os, rest)⟩) :
    faults = os.flatMap (Operand.faults st) := by
  induction n generalizing ws faults os rest with
  | zero =>
    cases h
    rfl
  | succ n ih =>
    obtain ⟨before, ⟨o, ws'⟩, after, hfirst, hmore, rfl⟩ := Attempt.exists_of_bind_eq h
    obtain ⟨_, ⟨os', ws''⟩, last, hothers, hlast, rfl⟩ := Attempt.exists_of_bind_eq hmore
    cases hlast
    rw [faults_of_operand hfirst, ih hothers, List.append_nil, List.flatMap_cons]

theorem faults_of_instruction {i : Instruction}
    (h : instruction st ws = ⟨faults, some (i, rest)⟩) : faults = i.faults st := by
  match ws with
  | [] | [_] => cases h
  | head :: more :: ws =>
    obtain ⟨before, _, after, hopcode, hmore, rfl⟩ := Attempt.exists_of_bind_eq h
    rw [Attempt.noteIf_eq] at hopcode
    cases hopcode
    dsimp only at hmore
    split at hmore
    · cases hmore
    · obtain ⟨before, ⟨os, ws'⟩, after, hoperands, hlast, rfl⟩ := Attempt.exists_of_bind_eq hmore
      cases hlast
      rw [faults_of_operands hoperands, List.append_nil]
      rfl

theorem faults_of_instructionList {n : Nat} (h : instructionList st n ws = ⟨faults, some is⟩) :
    faults = is.flatMap (Instruction.faults st) := by
  induction n generalizing ws faults is with
  | zero =>
    cases h
    rfl
  | succ n ih =>
    obtain ⟨before, ⟨i, ws'⟩, after, hfirst, hmore, rfl⟩ := Attempt.exists_of_bind_eq h
    obtain ⟨_, is', last, hothers, hlast, rfl⟩ := Attempt.exists_of_bind_eq hmore
    cases hlast
    rw [faults_of_instruction hfirst, ih hothers, List.append_nil, List.flatMap_cons]

theorem faults_of_code (h : code st ws = ⟨faults, some is⟩) :
    faults = is.flatMap (Instruction.faults st) := by
  match ws with
  | [] => cases h
  | count :: ws =>
    rw [code] at h
    split at h
    · cases h
    · exact faults_of_instructionList h

/-! ### Faults of preshaders -/

theorem strict_insert (bs : Blocks) (id : Word) (body : List Word) : (bs.insert id body).Strict := by
  have hput : ∀ (taken : Bool) (filled : Blocks),
      (if taken then Attempt.stop (.preshaderRepeated id) else pure filled).Strict :=
    fun _ filled => .ite (.stop _) (.pure filled)
  exact .ite (hput _ _) (.ite (hput _ _) (.ite (hput _ _) (.ite (hput _ _) (.stop _))))

theorem strict_collect (bs : Blocks) (ws : List Word) : (collect bs ws).Strict := by
  fun_induction collect bs ws with
  | case1 | case2 => exact .pure _
  | case3 | case4 => exact .stop _
  | case5 bs w ws n hlength hroom rest hblock ih => exact ih
  | case6 bs w ws n hlength hroom rest id body hblock ih => exact (strict_insert bs id body).bind ih

theorem strict_literalPool (ws : List Word) : (literalPool ws).Strict := by
  cases ws with
  | nil => exact .stop _
  | cons count ws => exact .ite (.stop _) (.pure _)

theorem strict_outputMap (ws : List Word) : (outputMap ws).Strict := by
  unfold outputMap
  cases ws.drop 6 with
  | nil => exact .stop _
  | cons count ranges => exact .ite (.stop _) (.pure _)

theorem faults_of_rest {payload codeBlock : List Word} {version : Word} {pool : List UInt64}
    {outputs : Option (List (Word × Word))} (h : (do
        let symbols ← symbolsOf payload version
        let is ← code ⟨pool.length, symbols, outputs⟩ codeBlock
        return ⟨pool, roundToRegisters (tempsUsed is), symbols, is⟩ : Attempt Preshader) =
      ⟨faults, some p⟩) :
    faults = (Symbol.table payload version).faults
        ++ p.instructions.flatMap (Instruction.faults ⟨p.literals.length, p.symbols, outputs⟩) ∧
      p.tempCount = roundToRegisters (tempsUsed p.instructions) := by
  obtain ⟨before, symbols, _, hsymbols, hrest, rfl⟩ := Attempt.exists_of_bind_eq h
  obtain ⟨_, is, _, hcode, hlast, rfl⟩ := Attempt.exists_of_bind_eq hrest
  cases hlast
  obtain rfl : (Symbol.table payload version).faults = before := congrArg Attempt.faults hsymbols
  rw [faults_of_code hcode, List.append_nil]
  exact ⟨rfl, rfl⟩

theorem faults_of_decode (h : decode ws = ⟨faults, some p⟩) :
    ∃ payload outputs,
      faults = (Symbol.table payload (ws.headD 0)).faults
        ++ p.instructions.flatMap (Instruction.faults ⟨p.literals.length, p.symbols, outputs⟩) ∧
      p.tempCount = roundToRegisters (tempsUsed p.instructions) := by
  unfold decode at h
  dsimp only at h
  split at h
  · cases h
  · obtain ⟨blocks, -, hblocks⟩ := (strict_collect _ _).exists_of_bind_eq h
    obtain ⟨payload, -, htable⟩ := (Attempt.Strict.ofOptionOr _ _).exists_of_bind_eq hblocks
    obtain ⟨codeBlock, -, hcode⟩ := (Attempt.Strict.ofOptionOr _ _).exists_of_bind_eq htable
    obtain ⟨literalBlock, -, hliterals⟩ := (Attempt.Strict.ofOptionOr _ _).exists_of_bind_eq hcode
    obtain ⟨pool, -, hpool⟩ := (strict_literalPool _).exists_of_bind_eq hliterals
    cases houtputs : blocks.outputs with
    | none =>
      rw [houtputs] at hpool
      exact ⟨payload, none, faults_of_rest hpool⟩
    | some ranges =>
      rw [houtputs] at hpool
      have hmap : (some <$> outputMap ranges).Strict := (strict_outputMap ranges).bind fun _ => .pure _
      obtain ⟨outputs, -, hrest⟩ := hmap.exists_of_bind_eq hpool
      exact ⟨payload, outputs, faults_of_rest hrest⟩

/-- Some instruction has an operand with this index, stored like this. -/
def Uses (p : Preshader) (storage : Storage) (index : Word) : Prop :=
  ∃ i ∈ p.instructions, ∃ o ∈ i.operands, o.storage = storage ∧ o.index = index

instance (p : Preshader) (storage : Storage) (index : Word) : Decidable (p.Uses storage index) :=
  inferInstanceAs (Decidable (∃ i ∈ p.instructions, ∃ o ∈ i.operands, o.storage = storage ∧ o.index = index))

theorem Uses.passes {storage : Storage} {index : Word} (h : p.Uses storage index)
    (clean : p.instructions.flatMap (Instruction.faults st) = []) :
    ∃ bases, Operand.faults st ⟨storage, index, bases⟩ = [] := by
  obtain ⟨i, hi, o, ho, rfl, rfl⟩ := h
  have hinstruction := List.flatMap_eq_nil_iff.mp clean i hi
  exact ⟨o.arrayBases, List.flatMap_eq_nil_iff.mp (List.append_eq_nil_iff.mp hinstruction).2 o ho⟩

/-! ### A preshader without faults -/

section Tint

open ShaderLift.Symbol (IsDescription IsTable memberCount recordBase recordCount tableFaults tableSymbols)

theorem isDescription_tint : IsDescription (Symbol.Block.ofWords tintTable.body) 0 48 := by
  have hcount : memberCount (Symbol.Block.ofWords tintTable.body) 48 = 0 := by decide +kernel
  refine .intro (by decide +kernel) ?_ ?_ ?_
  all_goals simp [hcount]

theorem isTable_tint : IsTable (Symbol.Block.ofWords tintTable.body) minVersion where
  header := by decide +kernel
  size := by decide +kernel
  creator := by decide +kernel
  version := by decide +kernel
  count := by decide +kernel
  start := by decide +kernel
  room := by decide +kernel
  target := by decide +kernel
  records i hi := by
    have hcount : recordCount (Symbol.Block.ofWords tintTable.body) = 1 := by decide +kernel
    have htype : (Symbol.Block.ofWords tintTable.body).word
        (recordBase (Symbol.Block.ofWords tintTable.body) 0 + 12) = 48 := by decide +kernel
    obtain rfl : i = 0 := by omega
    exact ⟨by decide +kernel, by decide +kernel, htype ▸ isDescription_tint, by decide +kernel⟩

/-- What the blocks of `tint` say.  There is one literal, and the product is with a second one. -/
def tinted : Preshader where
  literals := [0x3FE0000000000000]
  tempCount := 8
  symbols := tableSymbols (Symbol.Block.ofWords tintTable.body)
  instructions :=
    [⟨some .mul, 1, [⟨.input, 8, []⟩, ⟨.literal, 1, []⟩, ⟨.temp, 5, []⟩]⟩,
      ⟨some .mov, 1, [⟨.temp, 5, []⟩, ⟨.output, 2, []⟩]⟩]

theorem decode_tint : decode (minVersion :: (tint 1).words) = ⟨[], some tinted⟩ := by
  have hsymbols : symbolsOf tintTable.body minVersion = pure tinted.symbols := by
    have hfaults : tableFaults (Symbol.Block.ofWords tintTable.body) = [] := by decide +kernel
    rw [symbolsOf, Symbol.table_of_isTable isTable_tint, hfaults]
    rfl
  have hcode : code ⟨1, tinted.symbols, some [(0, 1)]⟩ (tintCode 1).body = pure tinted.instructions := rfl
  unfold decode
  rw [List.tail_cons, collect_layout (by decide)]
  show (do
    let symbols ← symbolsOf tintTable.body minVersion
    let is ← code ⟨1, symbols, some [(0, 1)]⟩ (tintCode 1).body
    return ⟨[0x3FE0000000000000], roundToRegisters (tempsUsed is), symbols, is⟩ : Attempt Preshader) = _
  rw [hsymbols, pure_bind, hcode, pure_bind]
  rfl

end Tint

/-! ### Literals -/

/-- The operand is a literal whose index is above the number of literals. -/
def Operand.isFarLiteral (literalCount : Nat) (o : Operand) : Bool :=
  o.storage = .literal && literalCount < o.index.toNat

theorem Operand.count_faults (st : Setting) (o : Operand) :
    (o.faults st).count .preshaderLiteralIndex = if o.isFarLiteral st.literalCount then 1 else 0 := by
  obtain ⟨storage, index, bases⟩ := o
  cases storage with
  | literal =>
    by_cases hfar : st.literalCount < index.toNat <;> simp [faults, isFarLiteral, faultIf, hfar]
  | input | output =>
    simp only [faults, isFarLiteral, faultIf]
    split <;> rfl
  | temp | unknown => rfl

theorem count_faults_operands (st : Setting) (os : List Operand) :
    (os.flatMap (Operand.faults st)).count .preshaderLiteralIndex =
      os.countP (Operand.isFarLiteral st.literalCount) := by
  induction os with
  | nil => rfl
  | cons o os ih =>
    rw [List.flatMap_cons, List.count_append, ih, Operand.count_faults, List.countP_cons, Nat.add_comm]

theorem count_faults_instructions (st : Setting) (is : List Instruction) :
    (is.flatMap (Instruction.faults st)).count .preshaderLiteralIndex =
      (is.flatMap Instruction.operands).countP (Operand.isFarLiteral st.literalCount) := by
  induction is with
  | nil => rfl
  | cons i is ih =>
    have hopcode : (faultIf i.opcode.isNone .preshaderOpcode).count .preshaderLiteralIndex = 0 := by
      cases i.opcode <;> rfl
    rw [List.flatMap_cons, List.count_append, ih, Instruction.faults, List.count_append, hopcode,
      count_faults_operands, Nat.zero_add, List.flatMap_cons, List.countP_append]

theorem count_faults_table (payload : List Word) (version : Word) :
    (Symbol.table payload version).faults.count .preshaderLiteralIndex = 0 := by
  rw [List.count_eq_zero]
  intro hmem
  rcases Symbol.mem_faults_table hmem with htype | hrefusal
  · cases htype
  · unfold Symbol.refusal at hrefusal
    split at hrefusal <;> cases hrefusal

/-- **The index behind the last literal is let through.**  Of the operands those whose index is above the
number of literals are faults, one each, and no others. -/
theorem decode_checks_literals {p : Preshader} (h : decode ws = ⟨faults, some p⟩) :
    faults.count .preshaderLiteralIndex =
        (p.instructions.flatMap Instruction.operands).countP (fun o =>
          o.storage = .literal && p.literals.length < o.index.toNat) ∧
      (faults = [] → ∀ index, p.Uses .literal index → index.toNat ≤ p.literals.length) := by
  obtain ⟨payload, outputs, rfl, -⟩ := faults_of_decode h
  refine ⟨?_, fun hnone index huses => ?_⟩
  · rw [List.count_append, count_faults_table, count_faults_instructions, Nat.zero_add]
    rfl
  · obtain ⟨bases, hpasses⟩ := huses.passes (List.append_eq_nil_iff.mp hnone).2
    simpa [Operand.faults, faultIf] using hpasses

/-- One literal, and the second is used without a fault. -/
theorem tint_uses_missing_literal :
    decode (minVersion :: (tint 1).words) = ⟨[], some tinted⟩ ∧
      tinted.Uses .literal 1 ∧ ¬ (1 : Word).toNat < tinted.literals.length :=
  ⟨decode_tint, by decide, by decide⟩

theorem tint_checks_literals :
    decode (minVersion :: (tint 1).words) = ⟨[], some tinted⟩ ∧
      ∀ index, tinted.Uses .literal index → index.toNat ≤ 1 :=
  ⟨decode_tint, (decode_checks_literals decode_tint).2 rfl⟩

/-! ### Inputs and temporaries -/

theorem and_mask {x : Nat} (h : x < 4294967296) : x &&& 0xFFFFFFFC = x / 4 * 4 := by
  have hmask : (0xFFFFFFFC : Nat) = (2 ^ 30 - 1) * 2 ^ 2 := by decide
  have hfour : x / 4 * 4 = x / 2 ^ 2 * 2 ^ 2 := rfl
  apply Nat.eq_of_testBit_eq
  intro i
  rw [Nat.testBit_and, hfour, hmask, Nat.testBit_mul_two_pow, Nat.testBit_mul_two_pow,
    Nat.testBit_div_two_pow, Nat.testBit_two_pow_sub_one]
  by_cases hlow : 2 ≤ i
  · rw [Nat.sub_add_cancel hlow]
    by_cases hhigh : i < 32
    · simp [hlow, show i - 2 < 30 by omega]
    · have hpow : 2 ^ 32 ≤ 2 ^ i := Nat.pow_le_pow_right (by decide) (by omega)
      simp [Nat.testBit_lt_two_pow (Nat.lt_of_lt_of_le h hpow)]
  · simp [hlow]

theorem toNat_roundToRegisters {n : Word} (h : n.toNat ≤ 0xFFFFFFFC) :
    (roundToRegisters n).toNat = (n.toNat + 3) / 4 * 4 := by
  have hsum : (n + 3).toNat = n.toNat + 3 := by
    rw [UInt32.toNat_add, show (3 : Word).toNat = 3 from rfl]
    omega
  rw [roundToRegisters, UInt32.toNat_and, hsum]
  exact and_mask (by omega)

theorem toNat_max_le_iff (a b : Word) (n : Nat) : (max a b).toNat ≤ n ↔ a.toNat ≤ n ∧ b.toNat ≤ n := by
  show (if a ≤ b then b else a).toNat ≤ n ↔ _
  split
  next h =>
    have hle : a.toNat ≤ b.toNat := h
    omega
  next h =>
    have hlt : ¬ a.toNat ≤ b.toNat := h
    omega

theorem toNat_foldl_max_le_iff {α : Type} (f : α → Word) (l : List α) (m : Word) (n : Nat) :
    (l.foldl (fun k x => max k (f x)) m).toNat ≤ n ↔ m.toNat ≤ n ∧ ∀ x ∈ l, (f x).toNat ≤ n := by
  induction l generalizing m with
  | nil => simp
  | cons x l ih => rw [List.foldl_cons, ih, toNat_max_le_iff, List.forall_mem_cons, and_assoc]

theorem tempsUsed_le_iff (low : ∀ index, p.Uses .temp index → index.toNat < 0xFFFFFFFC) (n : Nat) :
    (tempsUsed p.instructions).toNat ≤ n ↔ ∀ index, p.Uses .temp index → index.toNat < n := by
  have hnext : ∀ index, p.Uses .temp index →
      ((if index = 0xFFFFFFFF then index else index + 1).toNat ≤ n ↔ index.toNat < n) := by
    intro index huses
    have hlow := low index huses
    have hne : index ≠ 0xFFFFFFFF := by
      rintro rfl
      exact absurd hlow (by decide)
    rw [if_neg hne, UInt32.toNat_add, show (1 : Word).toNat = 1 from rfl]
    omega
  unfold tempsUsed
  rw [toNat_foldl_max_le_iff]
  constructor
  · rintro ⟨-, h⟩ index huses
    obtain ⟨i, hi, o, ho, htemp, rfl⟩ := huses
    refine (hnext _ ⟨i, hi, o, ho, htemp, rfl⟩).mp (h o ?_)
    exact List.mem_filter.mpr ⟨List.mem_flatMap.mpr ⟨i, hi, ho⟩, decide_eq_true htemp⟩
  · intro h
    refine ⟨Nat.zero_le n, fun o ho => ?_⟩
    obtain ⟨hmem, htemp⟩ := List.mem_filter.mp ho
    obtain ⟨i, hi, ho⟩ := List.mem_flatMap.mp hmem
    have huses : p.Uses .temp o.index := ⟨i, hi, o, ho, of_decide_eq_true htemp, rfl⟩
    exact (hnext _ huses).mpr (h _ huses)

/-- **Inputs and temporaries are in range.**  In a preshader without faults every input is a component of
some symbol, and the number of temporaries is the least multiple of four above all of them. -/
theorem decode_inputs_and_temps_in_range {p : Preshader} (h : decode ws = ⟨[], some p⟩)
    (low : ∀ index, p.Uses .temp index → index.toNat < 0xFFFFFFFC) :
    (∀ index, p.Uses .input index → ∃ s ∈ p.symbols, 4 * s.registerIndex ≤ index.toNat ∧
        index.toNat < 4 * (s.registerIndex + s.registerCount)) ∧
      (∀ index, p.Uses .temp index → index < p.tempCount) ∧
      4 ∣ p.tempCount.toNat ∧
      (∀ n, 4 ∣ n → (∀ index, p.Uses .temp index → index.toNat < n) → p.tempCount.toNat ≤ n) ∧
      ((∀ index, ¬ p.Uses .temp index) → p.tempCount = 0) := by
  obtain ⟨payload, outputs, hnone, hcount⟩ := faults_of_decode h
  have hused : (tempsUsed p.instructions).toNat ≤ 0xFFFFFFFC := (tempsUsed_le_iff low _).mpr low
  have hround := toNat_roundToRegisters hused
  rw [← hcount] at hround
  have hleast : ∀ n, 4 ∣ n → (∀ index, p.Uses .temp index → index.toNat < n) → p.tempCount.toNat ≤ n := by
    intro n hn habove
    have hle := (tempsUsed_le_iff low n).mpr habove
    omega
  refine ⟨fun index huses => ?_, fun index huses => ?_, by omega, hleast, fun hno => ?_⟩
  · obtain ⟨bases, hpasses⟩ := huses.passes (List.append_eq_nil_iff.mp hnone.symm).2
    have hinput : Setting.isInput ⟨p.literals.length, p.symbols, outputs⟩ index = true := by
      simpa [Operand.faults, faultIf] using hpasses
    exact Setting.isInput_iff.mp hinput
  · have hle : (tempsUsed p.instructions).toNat ≤ p.tempCount.toNat := by omega
    exact (tempsUsed_le_iff low _).mp hle index huses
  · have hzero := hleast 0 (Nat.dvd_zero 4) fun index huses => absurd huses (hno index)
    exact UInt32.toNat_inj.mp (Nat.le_zero.mp hzero)

theorem tint_in_range :
    decode (minVersion :: (tint 1).words) = ⟨[], some tinted⟩ ∧
      tinted.Uses .input 8 ∧ (∃ s ∈ tinted.symbols, 4 * s.registerIndex ≤ 8 ∧
        8 < 4 * (s.registerIndex + s.registerCount)) ∧
      tinted.Uses .temp 5 ∧ 5 < tinted.tempCount ∧ 4 ∣ tinted.tempCount.toNat := by
  have hlow : ∀ index, tinted.Uses .temp index → index.toNat < 0xFFFFFFFC := by
    rintro _ ⟨i, hi, o, ho, htemp, rfl⟩
    have hall : ∀ i ∈ tinted.instructions, ∀ o ∈ i.operands, o.index.toNat < 0xFFFFFFFC := by decide
    exact hall i hi o ho
  obtain ⟨hinputs, htemps, hwhole, -⟩ := decode_inputs_and_temps_in_range decode_tint hlow
  have hinput : tinted.Uses .input 8 := by decide
  have htemp : tinted.Uses .temp 5 := by decide
  exact ⟨decode_tint, hinput, hinputs 8 hinput, htemp, htemps 5 htemp, hwhole⟩

end Preshader

end ShaderLift
