/-
Preshaders, decoded with numbers of fixed width.  Where the decoder takes words off a list, the machine
keeps the list and counts how far it has come.  `Tracks` says that the two go together: what is read at
a place is what is read from the words there.  It is kept by going on with what was read.

Rounding a number of temporaries is left aside where the number is above `0xFFFFFFFC`: there is no
number of whole registers with 32 bits then.
-/
import ShaderLift.Proofs.Fixed.Table

namespace ShaderLift.Fixed

variable {α β : Type} {tokens : List Word} {pos : Nat}
variable {bs : Preshader.Blocks} {st : Preshader.Setting} {bs' : Preshader.Blocks} {ws : List Word}
  {n : Nat}

/-! ### Blocks -/

theorem commentLength?_lt {w : Word} (h : Word.commentLength? w = some n) : n < 65536 := by
  unfold Word.commentLength? at h
  split at h
  · rw [← Option.some.inj h]
    exact Word.field_lt w 16 16
  · cases h

def collect (tokens : List Word) (pos : Nat) (bs : Preshader.Blocks) : Decoder Preshader.Blocks :=
  if pos < tokens.length then do
    let w ← item tokens pos
    match Word.commentLength? w with
    | none => if w = Word.endMark then return bs else Attempt.stop .preshaderData
    | some n =>
      let first ← add 64 pos 1
      let last ← add 64 first n
      if tokens.length < last then Attempt.stop .preshaderData
      else
        match ← slice tokens first last with
        | [] => collect tokens (pos + 1 + n) bs
        | id :: body => do
          let bs ← bs.insert id body
          collect tokens (pos + 1 + n) bs
  else return bs
termination_by tokens.length - pos

theorem collect_eq (short : tokens.length < 2 ^ 63) (pos : Nat) (bs : Preshader.Blocks) :
    collect tokens pos bs = liftM (Preshader.collect bs (tokens.drop pos)) := by
  induction hleft : tokens.length - pos using Nat.strongRecOn generalizing pos bs with
  | _ left ih =>
    rw [collect]
    split
    next hlt =>
      have hdrop := List.drop_eq_getElem_cons hlt
      rw [item, List.getElem?_eq_getElem hlt, Decoder.some_bind, hdrop,
        Preshader.collect]
      cases hlength : Word.commentLength? tokens[pos] with
      | none =>
        dsimp only
        split <;> simp
      | some n =>
        -- a length has 16 bits, so the positions stay far below `2 ^ 64`
        have hn : n < 65536 := commentLength?_lt hlength
        have hrest : tokens.length - (pos + 1) < n ↔ tokens.length < pos + 1 + n := by omega
        simp only [add_of_lt (show pos + 1 < 2 ^ 64 by omega),
          add_of_lt (show pos + 1 + n < 2 ^ 64 by omega), Decoder.some_bind,
          List.length_drop, hrest]
        split
        · rfl
        · -- the block is what comes after the first word, and then the next one starts
          have hblock : ((tokens.take (pos + 1 + n)).drop (pos + 1)) = (tokens.drop (pos + 1)).take n := by
            rw [List.drop_take]
            congr 1
            omega
          have hnext : (tokens.drop (pos + 1)).drop n = tokens.drop (pos + 1 + n) := List.drop_drop
          rw [slice_of_le (by omega) (by omega), Decoder.some_bind, hblock, hnext]
          have hih : ∀ bs, collect tokens (pos + 1 + n) bs =
              liftM (Preshader.collect bs (tokens.drop (pos + 1 + n))) :=
            fun bs => ih _ (by omega) _ bs rfl
          cases (tokens.drop (pos + 1)).take n with
          | nil => simp only [hih]
          | cons id body => simp only [hih, liftM_bind]
    next hge =>
      rw [List.drop_eq_nil_of_le (by omega), Preshader.collect]
      simp

/-- All blocks have at most so many words. -/
structure Fits (bs : Preshader.Blocks) (n : Nat) : Prop where
  table : ∀ ws, bs.table = some ws → ws.length ≤ n
  outputs : ∀ ws, bs.outputs = some ws → ws.length ≤ n
  literals : ∀ ws, bs.literals = some ws → ws.length ≤ n
  code : ∀ ws, bs.code = some ws → ws.length ≤ n

theorem exists_of_value_bind {a : Attempt α} {f : α → Attempt β} {y : β}
    (h : (a >>= f).value = some y) : ∃ x, a.value = some x ∧ (f x).value = some y := by
  obtain ⟨faults, _ | x⟩ := a
  · cases h
  · exact ⟨x, rfl, h⟩

theorem Fits.insert {id : Word} {body : List Word} (h : Fits bs n) (hbody : body.length ≤ n)
    (hvalue : (bs.insert id body).value = some bs') : Fits bs' n := by
  have hnew : ∀ ws, some body = some ws → ws.length ≤ n := by
    rintro ws ⟨⟩
    exact hbody
  have hput : ∀ {taken : Bool} {filled : Preshader.Blocks},
      (if taken then Attempt.stop (.preshaderRepeated id) else pure filled).value = some bs' →
        Fits filled n → Fits bs' n := by
    intro taken filled hv hfilled
    cases taken with
    | true => cases hv
    | false =>
      obtain rfl := Option.some.inj hv
      exact hfilled
  unfold Preshader.Blocks.insert at hvalue
  dsimp only at hvalue
  -- one block is put in, and the others stay
  split at hvalue
  · exact hput hvalue ⟨hnew, h.outputs, h.literals, h.code⟩
  · split at hvalue
    · exact hput hvalue ⟨h.table, hnew, h.literals, h.code⟩
    · split at hvalue
      · exact hput hvalue ⟨h.table, h.outputs, hnew, h.code⟩
      · split at hvalue
        · exact hput hvalue ⟨h.table, h.outputs, h.literals, hnew⟩
        · cases hvalue

theorem Fits.collect (h : Fits bs n) (hws : ws.length ≤ n)
    (hvalue : (Preshader.collect bs ws).value = some bs') : Fits bs' n := by
  fun_induction Preshader.collect bs ws with
  | case1 | case2 =>
    obtain rfl := Option.some.inj hvalue
    exact h
  | case3 | case4 => cases hvalue
  | case5 bs w ws n' hlength hroom rest hblock ih =>
    refine ih h ?_ hvalue
    simp only [rest, List.length_drop, List.length_cons] at hws ⊢
    omega
  | case6 bs w ws n' hlength hroom rest id body hblock ih =>
    obtain ⟨bs', hinsert, hcollect⟩ := exists_of_value_bind hvalue
    have hlength : (id :: body).length ≤ ws.length := by
      rw [← hblock, List.length_take]
      omega
    simp only [List.length_cons] at hws hlength
    refine ih bs' (h.insert (by omega) hinsert) ?_ hcollect
    simp only [rest, List.length_drop]
    omega

/-! ### Literals and output map -/

def literalPool (ws : List Word) : Decoder (List UInt64) :=
  if ws.length < 1 then Attempt.stop .preshaderLiterals
  else do
    let count ← item ws 0
    let left ← sub ws.length 1
    if left / 2 < count.toNat then Attempt.stop .preshaderLiterals
    else
      let last ← add 64 1 (← mul 64 count.toNat 2)
      return Preshader.doubles (← slice ws 1 last)

def outputMap (ws : List Word) : Decoder (List (Word × Word)) :=
  if ws.length < 7 then Attempt.stop .preshaderOutputs
  else do
    let count ← item ws 6
    let ranges ← slice ws 7 ws.length
    if ranges.length < 2 * (count.toNat + 1) then Attempt.stop .preshaderOutputs
    else return (Preshader.pairs ranges).take count.toNat

theorem literalPool_eq (short : ws.length < 2 ^ 63) :
    literalPool ws = liftM (Preshader.literalPool ws) := by
  cases ws with
  | nil => rfl
  | cons count ws =>
    rw [List.length_cons] at short
    unfold literalPool Preshader.literalPool
    rw [if_neg (by simp), show item (count :: ws) 0 = some count from rfl, Decoder.some_bind,
      sub_of_le (by simp), Decoder.some_bind, List.length_cons,
      Nat.add_sub_cancel]
    dsimp only
    split
    · rfl
    · -- the literals have been found to fit, so their number is small enough to be doubled
      rw [mul_of_lt (by omega), Decoder.some_bind, add_of_lt (by omega), Decoder.some_bind,
        slice_of_le (by omega) (by rw [List.length_cons]; omega), Decoder.some_bind, Nat.add_comm 1,
        List.take_succ_cons, Nat.mul_comm]
      rfl

theorem outputMap_eq (ws : List Word) : outputMap ws = liftM (Preshader.outputMap ws) := by
  unfold outputMap Preshader.outputMap
  split
  next hshort => rw [List.drop_eq_nil_of_le (by omega)]
  next hlong =>
    have hlt : 6 < ws.length := by omega
    rw [List.drop_eq_getElem_cons hlt, item, List.getElem?_eq_getElem hlt,
      slice_of_le (by omega) (Nat.le_refl _), List.take_length]
    simp only [Decoder.some_bind]
    split <;> rfl

/-! ### Code -/

section Code

variable (short : tokens.length < 2 ^ 63)
  (small : ∀ s ∈ st.symbols, s.registerIndex < 65536 ∧ s.registerCount < 65536)

def isInput (symbols : List Symbol) (index : Word) : Option Bool :=
  symbols.anyM fun s => do
    let base ← mul 32 s.registerIndex 4
    let count ← mul 32 s.registerCount 4
    if base ≤ index.toNat then return index.toNat < (← add 32 base count) else return false

include small in
theorem isInput_eq (index : Word) : isInput st.symbols index = some (st.isInput index) := by
  apply anyM_eq
  intro s hs
  obtain ⟨hindex, hcount⟩ := small s hs
  rw [mul_of_lt (by omega), mul_of_lt (by omega)]
  show (if _ then _ else _) = _
  split
  next hle => simp [add_of_lt (show s.registerIndex * 4 + s.registerCount * 4 < 2 ^ 32 by omega), hle]
  next hgt => simp [hgt]

def arrayBase (w : Word) : Option Word := do
  return UInt32.ofNat (← add 32 (← mul 32 (w.toNat / 16) 4) (w.toNat / 4 % 4))

theorem arrayBase_eq (w : Word) : arrayBase w = some (Preshader.arrayBase w) := by
  have hw := w.toNat_lt
  unfold arrayBase
  rw [mul_of_lt (by omega)]
  show (do let n ← add 32 (w.toNat / 16 * 4) (w.toNat / 4 % 4); pure (UInt32.ofNat n)) = _
  rw [add_of_lt (by omega)]
  rfl

def peek (tokens : List Word) (pos k : Nat) : Option (Option Word) := do
  return tokens[← add 64 pos k]?

theorem peek_eq {k : Nat} (h : pos + k < 2 ^ 64) :
    peek tokens pos k = some (tokens.drop pos)[k]? := by
  rw [List.getElem?_drop, peek, add_of_lt h]
  rfl

/-- What `x` reads from a place on is what `a` reads from the words there. -/
def Tracks (tokens : List Word) (x : Decoder (α × Nat)) (a : Attempt (α × List Word)) : Prop :=
  ∃ b : Attempt (α × Nat), x = liftM b ∧ a = (fun r => (r.1, tokens.drop r.2)) <$> b ∧
    ∀ r, b.value = some r → r.2 ≤ tokens.length

namespace Tracks

variable {x x' : Decoder (α × Nat)} {a a' : Attempt (α × List Word)}

theorem of_eq (h : Tracks tokens x a) (hx : x' = x) (ha : a' = a) : Tracks tokens x' a' :=
  hx ▸ ha ▸ h

theorem pure (y : α) (h : pos ≤ tokens.length) :
    Tracks tokens (Pure.pure (y, pos)) (Pure.pure (y, tokens.drop pos)) := by
  refine ⟨Pure.pure (y, pos), rfl, rfl, ?_⟩
  rintro r hr
  obtain rfl := Option.some.inj hr
  exact h

theorem stop (f : Fault) : Tracks (α := α) tokens (liftM (Attempt.stop f : Attempt (α × Nat)))
    (Attempt.stop f) :=
  ⟨Attempt.stop f, rfl, rfl, fun _ hr => by cases hr⟩

theorem bind {f : α × Nat → Decoder (β × Nat)} {g : α × List Word → Attempt (β × List Word)}
    (h : Tracks tokens x a)
    (hf : ∀ y pos, pos ≤ tokens.length → Tracks tokens (f (y, pos)) (g (y, tokens.drop pos))) :
    Tracks tokens (x >>= f) (a >>= g) := by
  obtain ⟨⟨faults, _ | r⟩, rfl, rfl, hb⟩ := h
  · exact ⟨⟨faults, none⟩, rfl, rfl, fun _ hr => by cases hr⟩
  · obtain ⟨b, hfr, hgr, hbound⟩ := hf r.1 r.2 (hb r rfl)
    refine ⟨⟨faults, some r⟩ >>= fun _ => b, ?_, ?_, hbound⟩
    · rw [liftM_bind]
      apply Decoder.lift_bind_congr
      intro r' hr'
      obtain rfl := Option.some.inj hr'
      exact hfr
    · rw [bind_map_left, map_bind, Attempt.bind_def, Attempt.bind_def, Attempt.some_andThen,
        Attempt.some_andThen, hgr]

theorem map (f : α → β) (h : Tracks tokens x a) :
    Tracks tokens (x >>= fun r => Pure.pure (f r.1, r.2)) (a >>= fun r => Pure.pure (f r.1, r.2)) :=
  h.bind fun y _ hpos => Tracks.pure (f y) hpos

theorem note (c : Attempt Unit) (h : Tracks tokens x a) :
    Tracks tokens (liftM c >>= fun _ => x) (c >>= fun _ => a) := by
  obtain ⟨b, rfl, rfl, hb⟩ := h
  refine ⟨c >>= fun _ => b, by rw [liftM_bind], by rw [map_bind], ?_⟩
  intro r hr
  obtain ⟨faults, _ | u⟩ := c
  · cases hr
  · exact hb r hr

theorem last {f : α × Nat → Decoder β} {g : α × List Word → Attempt β} (h : Tracks tokens x a)
    (hf : ∀ y pos, pos ≤ tokens.length → f (y, pos) = liftM (g (y, tokens.drop pos))) :
    x >>= f = liftM (a >>= g) := by
  obtain ⟨b, rfl, rfl, hb⟩ := h
  rw [bind_map_left, liftM_bind]
  apply Decoder.lift_bind_congr
  intro r hr
  exact hf r.1 r.2 (hb r hr)

end Tracks

/-- The bases of `n` arrays of the operand at a place. -/
def arrayBases (tokens : List Word) : (n pos : Nat) → Decoder (List Word × Nat)
  | 0, pos => return ([], pos)
  | n + 1, pos => do
    match ← peek tokens pos 4 with
    | none => Attempt.stop .preshaderCode
    | some w =>
      let base ← arrayBase w
      let (bases, pos) ← arrayBases tokens n (← add 64 pos 2)
      return (base :: bases, pos)

include short in
theorem tracks_arrayBases (n : Nat) {pos : Nat} (hpos : pos + 3 ≤ tokens.length) :
    Tracks tokens
      (do let (bases, pos) ← arrayBases tokens n pos; return (bases, ← add 64 pos 3))
      (Attempt.ofOptionOr .preshaderCode (Preshader.arrayBases n (tokens.drop (pos + 3)))) := by
  induction n generalizing pos with
  | zero =>
    rw [arrayBases, pure_bind]
    show Tracks tokens (liftM (add 64 pos 3) >>= _) _
    rw [add_of_lt (by omega), Decoder.some_bind]
    exact .pure _ hpos
  | succ n ih =>
    rw [arrayBases, peek_eq (by omega), Decoder.some_bind]
    have hword : (tokens.drop pos)[4]? = (tokens.drop (pos + 3))[1]? := by
      rw [List.getElem?_drop, List.getElem?_drop]
    have hlength : (tokens.drop (pos + 3)).length = tokens.length - (pos + 3) := List.length_drop
    have hdrop : (tokens.drop (pos + 3)).drop 2 = tokens.drop (pos + 2 + 3) := List.drop_drop
    rw [hword]
    generalize tokens.drop (pos + 3) = rest at hlength hdrop ⊢
    match rest with
    | [] | [_] => exact .stop _
    | _ :: w :: ws =>
      replace hdrop : ws = tokens.drop (pos + 2 + 3) := hdrop
      simp only [List.length_cons] at hlength
      have hnext := (ih (show pos + 2 + 3 ≤ tokens.length by omega)).map (Preshader.arrayBase w :: ·)
      rw [← hdrop] at hnext
      show Tracks tokens ((liftM (arrayBase w) >>= fun base => liftM (add 64 pos 2) >>= _) >>= _) _
      rw [arrayBase_eq, Decoder.some_bind, add_of_lt (by omega), Decoder.some_bind]
      refine hnext.of_eq ?_ ?_
      · simp only [bind_assoc]
        apply bind_congr
        rintro ⟨bases, next⟩
        simp only [pure_bind]
      · rw [Preshader.arrayBases]
        cases Preshader.arrayBases n ws <;> rfl

def operand (st : Preshader.Setting) (tokens : List Word) (pos : Nat) :
    Decoder (Preshader.Operand × Nat) := do
  match ← peek tokens pos 0, ← peek tokens pos 1, ← peek tokens pos 2 with
  | some arrays, some kind, some index =>
    let storage := Preshader.Storage.ofCode kind
    match storage with
    | .literal =>
      Attempt.noteIf (st.literalCount < index.toNat) .preshaderLiteralIndex
      return (⟨storage, index, []⟩, ← add 64 pos 3)
    | .input =>
      if ← isInput st.symbols index then
        let (bases, pos) ← arrayBases tokens arrays.toNat pos
        return (⟨storage, index, bases⟩, ← add 64 pos 3)
      else
        Attempt.note .preshaderInputIndex
        return (⟨storage, index, []⟩, ← add 64 pos 3)
    | .output =>
      Attempt.noteIf (!st.isOutput index) .preshaderOutputIndex
      return (⟨storage, index, []⟩, ← add 64 pos 3)
    | .temp | .unknown _ => return (⟨storage, index, []⟩, ← add 64 pos 3)
  | _, _, _ => Attempt.stop .preshaderCode

include short small in
theorem tracks_operand (hpos : pos ≤ tokens.length) :
    Tracks tokens (operand st tokens pos) (Preshader.operand st (tokens.drop pos)) := by
  unfold operand
  simp (disch := omega) only [peek_eq, Decoder.some_bind]
  have hlength : (tokens.drop pos).length = tokens.length - pos := List.length_drop
  have hdrop : (tokens.drop pos).drop 3 = tokens.drop (pos + 3) := List.drop_drop
  generalize tokens.drop pos = rest at hlength hdrop ⊢
  match rest with
  | [] | [_] | [_, _] => exact .stop _
  | arrays :: kind :: index :: ws =>
    replace hdrop : ws = tokens.drop (pos + 3) := hdrop
    simp only [List.length_cons] at hlength
    have hend : pos + 3 ≤ tokens.length := by omega
    simp only [List.getElem?_cons_zero, List.getElem?_cons_succ, Preshader.operand]
    have hplain : ∀ o : Preshader.Operand, Tracks tokens (do return (o, ← add 64 pos 3)) (pure (o, ws)) := by
      intro o
      rw [add_of_lt (by omega), Decoder.some_bind, hdrop]
      exact .pure o hend
    cases Preshader.Storage.ofCode kind with
    | literal | output => exact (hplain _).note _
    | temp | unknown => exact hplain _
    | input =>
      dsimp only
      rw [isInput_eq small, Decoder.some_bind]
      split
      · have hbases := (tracks_arrayBases short arrays.toNat hend).map
          (Preshader.Operand.mk .input index)
        rw [← hdrop] at hbases
        refine hbases.of_eq ?_ rfl
        simp only [bind_assoc]
        apply bind_congr
        rintro ⟨bases, next⟩
        simp only [pure_bind]
      · exact (hplain _).note _

def operands (st : Preshader.Setting) (tokens : List Word) :
    (n pos : Nat) → Decoder (List Preshader.Operand × Nat)
  | 0, pos => return ([], pos)
  | n + 1, pos => do
    let (o, pos) ← operand st tokens pos
    let (os, pos) ← operands st tokens n pos
    return (o :: os, pos)

include short small in
theorem tracks_operands (n : Nat) {pos : Nat} (hpos : pos ≤ tokens.length) :
    Tracks tokens (operands st tokens n pos) (Preshader.operands st n (tokens.drop pos)) := by
  induction n generalizing pos with
  | zero => exact .pure _ hpos
  | succ n ih =>
    rw [operands, Preshader.operands]
    refine (tracks_operand short small hpos).bind fun o next hnext => ?_
    exact (ih hnext).map (o :: ·)

def instruction (st : Preshader.Setting) (tokens : List Word) (pos : Nat) :
    Decoder (Preshader.Instruction × Nat) := do
  match ← peek tokens pos 0, ← peek tokens pos 1 with
  | some head, some more =>
    let opcode := Preshader.Opcode.ofCode? (Word.field head 16 16)
    Attempt.noteIf opcode.isNone .preshaderOpcode
    let count ← add 64 more.toNat 1
    let pos ← add 64 pos 2
    if tokens.length - pos < count * 3 then Attempt.stop .preshaderCode
    else
      let (os, pos) ← operands st tokens count pos
      return (⟨opcode, Word.field head 0 8, os⟩, pos)
  | _, _ => Attempt.stop .preshaderCode

include short small in
theorem tracks_instruction (hpos : pos ≤ tokens.length) :
    Tracks tokens (instruction st tokens pos) (Preshader.instruction st (tokens.drop pos)) := by
  unfold instruction
  simp (disch := omega) only [peek_eq, Decoder.some_bind]
  have hlength : (tokens.drop pos).length = tokens.length - pos := List.length_drop
  have hdrop : (tokens.drop pos).drop 2 = tokens.drop (pos + 2) := List.drop_drop
  generalize tokens.drop pos = rest at hlength hdrop ⊢
  match rest with
  | [] | [_] => exact .stop _
  | head :: more :: ws =>
    replace hdrop : ws = tokens.drop (pos + 2) := hdrop
    simp only [List.length_cons] at hlength
    have hmore := more.toNat_lt
    have hleft : ws.length = tokens.length - (pos + 2) := by omega
    simp only [List.getElem?_cons_zero, List.getElem?_cons_succ, Preshader.instruction]
    apply Tracks.note
    rw [add_of_lt (by omega), Decoder.some_bind, add_of_lt (by omega), Decoder.some_bind, ← hleft]
    split
    · exact .stop _
    · have hoperands := tracks_operands short small (more.toNat + 1)
        (show pos + 2 ≤ tokens.length by omega)
      rw [← hdrop] at hoperands
      exact hoperands.map _

def instructionList (st : Preshader.Setting) (tokens : List Word) :
    (n pos : Nat) → Decoder (List Preshader.Instruction)
  | 0, _ => return []
  | n + 1, pos => do
    let (i, pos) ← instruction st tokens pos
    return i :: (← instructionList st tokens n pos)

include short small in
theorem instructionList_eq (n : Nat) {pos : Nat} (hpos : pos ≤ tokens.length) :
    instructionList st tokens n pos =
      liftM (Preshader.instructionList st n (tokens.drop pos)) := by
  induction n generalizing pos with
  | zero => rfl
  | succ n ih =>
    rw [instructionList, Preshader.instructionList]
    refine (tracks_instruction short small hpos).last fun i next hnext => ?_
    dsimp only
    rw [ih hnext, liftM_bind]
    rfl

def code (st : Preshader.Setting) (tokens : List Word) : Decoder (List Preshader.Instruction) :=
  match tokens[0]? with
  | none => Attempt.stop .preshaderCode
  | some count =>
    if (tokens.length - 1) / 2 < count.toNat then Attempt.stop .preshaderCode
    else instructionList st tokens count.toNat 1

include short small in
theorem code_eq : code st tokens = liftM (Preshader.code st tokens) := by
  cases tokens with
  | nil => rfl
  | cons count ws =>
    unfold code Preshader.code
    simp only [List.getElem?_cons_zero, List.length_cons, Nat.add_sub_cancel]
    split
    · rfl
    · exact instructionList_eq short small count.toNat (show 1 ≤ (count :: ws).length by simp)

end Code

/-! ### Preshaders -/

def roundToRegisters (n : Word) : Option Word :=
  if n ≤ 0xFFFFFFFC then do return UInt32.ofNat (← add 32 n.toNat 3) &&& 0xFFFFFFFC
  else return Preshader.roundToRegisters n

theorem roundToRegisters_eq (n : Word) : roundToRegisters n = some (Preshader.roundToRegisters n) := by
  unfold roundToRegisters
  split
  next hle =>
    have hn : n.toNat ≤ 0xFFFFFFFC := hle
    rw [add_of_lt (by omega)]
    show some (UInt32.ofNat (n.toNat + 3) &&& 0xFFFFFFFC) = some ((n + 3) &&& 0xFFFFFFFC)
    rw [UInt32.ofNat_add, UInt32.ofNat_toNat]
    rfl
  next => rfl

def symbolsOf (payload : List Word) (version : Word) : Option (Attempt (List Symbol)) := do
  let t ← table payload version
  return ⟨t.faults, some (t.value.getD [])⟩

theorem symbolsOf_eq {payload : List Word} (short : payload.length < 2 ^ 30) (version : Word) :
    symbolsOf payload version = some (Preshader.symbolsOf payload version) := by
  rw [symbolsOf, table_eq short]
  rfl

def decode (ws : List Word) : Decoder Preshader := do
  let version := ws.headD 0
  if version < Preshader.minVersion || Preshader.maxVersion < version then
    Attempt.stop .preshaderVersion
  else
    let blocks ← collect ws 1 {}
    let tableBlock ← Attempt.ofOptionOr .preshaderNoTable blocks.table
    let codeBlock ← Attempt.ofOptionOr .preshaderNoCode blocks.code
    let literalBlock ← Attempt.ofOptionOr .preshaderNoLiterals blocks.literals
    let pool ← literalPool literalBlock
    let outputs ← match blocks.outputs with
      | none => pure none
      | some ws => some <$> outputMap ws
    let symbols ← (← symbolsOf tableBlock version : Attempt (List Symbol))
    let is ← code ⟨pool.length, symbols, outputs⟩ codeBlock
    return ⟨pool, ← roundToRegisters (Preshader.tempsUsed is), symbols, is⟩

theorem eq_some_of_ofOptionOr {f : Fault} {o : Option α} {x : α}
    (h : (Attempt.ofOptionOr f o).value = some x) : o = some x := by
  cases o with
  | none => cases h
  | some y => exact h

theorem rest_eq {tableBlock codeBlock : List Word} {version : Word}
    (htable : tableBlock.length < 2 ^ 30) (hcode : codeBlock.length < 2 ^ 63) (pool : List UInt64)
    (outputs : Option (List (Word × Word))) :
    (do
      let symbols ← (← symbolsOf tableBlock version : Attempt (List Symbol))
      let is ← code ⟨pool.length, symbols, outputs⟩ codeBlock
      return ⟨pool, ← roundToRegisters (Preshader.tempsUsed is), symbols, is⟩ : Decoder Preshader) =
    liftM (do
      let symbols ← Preshader.symbolsOf tableBlock version
      let is ← Preshader.code ⟨pool.length, symbols, outputs⟩ codeBlock
      return ⟨pool, Preshader.roundToRegisters (Preshader.tempsUsed is), symbols, is⟩ :
        Attempt Preshader) := by
  rw [symbolsOf_eq htable, Decoder.some_bind, liftM_bind]
  apply Decoder.lift_bind_congr
  intro symbols hsymbols
  obtain rfl := Option.some.inj hsymbols
  -- the symbols come from a table, if there are any
  have hsmall : ∀ s ∈ (Symbol.table tableBlock version).value.getD [],
      s.registerIndex < 65536 ∧ s.registerCount < 65536 := by
    cases hvalue : (Symbol.table tableBlock version).value with
    | none => simp
    | some symbols => exact (bounds_of_table hvalue).2
  rw [code_eq hcode hsmall, liftM_bind]
  apply bind_congr
  intro is
  rw [roundToRegisters_eq, Decoder.some_bind, liftM_pure]

theorem decode_eq (short : ws.length < 2 ^ 30) : decode ws = liftM (Preshader.decode ws) := by
  unfold decode Preshader.decode
  dsimp only
  split
  · rfl
  · have hcollect := collect_eq (by omega : ws.length < 2 ^ 63) 1 {}
    rw [List.drop_one] at hcollect
    rw [hcollect]
    simp only [liftM_bind]
    apply Decoder.lift_bind_congr
    intro blocks hblocks
    have hfits : Fits blocks ws.length := by
      refine Fits.collect ?_ (show ws.tail.length ≤ ws.length by simp) hblocks
      constructor <;> simp
    apply Decoder.lift_bind_congr
    intro tableBlock htable
    apply Decoder.lift_bind_congr
    intro codeBlock hcode
    apply Decoder.lift_bind_congr
    intro literalBlock hliterals
    have htable := hfits.table _ (eq_some_of_ofOptionOr htable)
    have hcode := hfits.code _ (eq_some_of_ofOptionOr hcode)
    have hliterals := hfits.literals _ (eq_some_of_ofOptionOr hliterals)
    rw [literalPool_eq (by omega)]
    apply bind_congr
    intro pool
    cases blocks.outputs with
    | none =>
      simp only [pure_bind]
      exact rest_eq (by omega) (by omega) pool none
    | some ranges =>
      simp only [outputMap_eq, map_eq_pure_bind, bind_assoc, pure_bind, liftM_bind]
      apply bind_congr
      intro map
      rw [rest_eq (by omega) (by omega)]
      simp only [liftM_bind]

end ShaderLift.Fixed
