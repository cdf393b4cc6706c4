/-
Reading operands with numbers of fixed width.  A reader moves the position on by four bytes for each of
its words.  A register number of eleven bits is added to the start of its file, and the array that a
relative source reads is looked up by its place.  `Room k s` says that a state lets `k` more words be
read. Each reader has an equation, and says how much room it leaves.
-/
import ShaderLift.Proofs.Bounds
import ShaderLift.Proofs.Fixed.Arrays
import ShaderLift.Proofs.Tally

namespace ShaderLift

/-! ### Positions -/

def Position.bytes : Position → Nat
  | .offset n => n
  | _ => 0

namespace Scan

variable {env : Env} {s t : Scan} {r : Register} {ws : List Word}

theorem bytes_advance_le (s : Scan) : s.advance.position.bytes ≤ s.position.bytes + 4 := by
  unfold advance
  split
  next n hn =>
    rw [hn]
    exact Nat.le_refl _
  next => exact Nat.le_add_right _ 4

theorem Walks.bytes_le {m : Register → Bool → Prop} {k : Nat} {us : List Word} (h : Walks m s ws k t us) :
    t.position.bytes + 4 * us.length ≤ s.position.bytes + 4 * (ws.length + k) := by
  induction h with
  | refl => exact Nat.le_refl _
  | fail _ _ ih => exact ih
  | @advance k t w us _ ih =>
    have hadvance := bytes_advance_le t
    rw [List.length_cons] at ih
    omega
  | @skip k t us _ ih =>
    have hadvance := bytes_advance_le t
    rw [List.length_tail]
    omega
  | mark _ _ _ _ _ ih => exact ih
  | group _ _ ih => exact ih
  | useArray _ _ _ _ ih => exact ih
  | relativeInput _ ih => exact ih

end Scan

namespace Fixed

variable {env : Env} {s t : Scan} {r : Register} {ws : List Word} {k m : Nat}

/-! ### Room -/

structure Room (k : Nat) (s : Scan) : Prop where
  stored : s.Stored
  short : s.constants.length < 2 ^ 31
  bytes : s.position.bytes + 4 * k < 2 ^ 32

namespace Room

theorem walks {known : Register → Bool → Prop} {j : Nat} {us : List Word} (h : Room k s)
    (hw : Scan.Walks known s ws j t us) (room : ws.length + j + m ≤ us.length + k) : Room m t where
  stored := h.stored.fetches hw.fetches
  short := by
    have hsame : t.constants.length = s.constants.length :=
      congrArg Scan.Tally.constants hw.fetches.tally_eq
    rw [hsame]
    exact h.short
  bytes := by
    have hbytes := h.bytes
    have hmoved := hw.bytes_le
    omega

theorem mono (h : Room k s) (hle : m ≤ k) : Room m s :=
  h.walks (.here s) (by omega)

theorem failIf (h : Room k s) (b : Bool) (f : Fault) : Room k (s.failIf b f) :=
  h.walks (Scan.Walks.failIf (.here s) b f) (Nat.le_refl _)

theorem failAll (h : Room k s) (fs : List Fault) : Room k (s.failAll fs) :=
  h.walks (Scan.Walks.failAll (.here s) fs) (Nat.le_refl _)

theorem advance (h : Room (k + 1) s) : Room k s.advance :=
  h.walks (Scan.Walks.skip (.here s)) (by simp; omega)

theorem readDest (h : Room (k + 1) s) (centroidAllowed : Bool) (ws : List Word) :
    Room k (Scan.readDest env centroidAllowed s ws).2.2 := by
  refine h.walks (Scan.Walks.readDest (m := fun _ _ => True) .refl env centroidAllowed trivial) ?_
  rw [Scan.rest_readDest, List.length_tail]
  omega

theorem readIndex (h : Room (k + 1) s) (ws : List Word) : Room k (Scan.readIndex env s ws).2.2 := by
  refine h.walks (Scan.Walks.readIndex (m := fun _ _ => True) .refl env) ?_
  rw [Scan.rest_readIndex]
  split
  · rw [List.length_tail]
    omega
  · omega

theorem readSource (h : Room (k + 2) s) (ws : List Word) :
    Room k (Scan.readSource env s ws).2.2 := by
  refine h.walks (Scan.Walks.readSource (m := fun _ _ => True) .refl env fun _ _ => trivial) ?_
  cases ws with
  | nil =>
    show 0 + 0 + k ≤ 0 + (k + 2)
    omega
  | cons w ws =>
    rw [Scan.rest_readSource, List.length_cons]
    split
    · rw [List.length_tail]
      omega
    · omega

theorem readSources {n : Nat} (h : Room (k + 2 * n) s) (ws : List Word) :
    Room k (Scan.readSources env s n ws).2.2 := by
  induction n generalizing s ws with
  | zero => exact h
  | succ n ih => exact ih (readSource (h.mono (by omega)) ws) _

end Room

/-! ### Destinations -/

def advance (s : Scan) : Option Scan :=
  match s.position with
  | .offset n => do return { s with position := .offset (← add 32 n 4) }
  | _ => return s

def normalize (r : Register) : Option Register :=
  match r.file with
  | .const2 => do return ⟨.const, ← add 32 r.number 2048⟩
  | .const3 => do return ⟨.const, ← add 32 r.number 4096⟩
  | .const4 => do return ⟨.const, ← add 32 r.number 6144⟩
  | _ => return r

def readDest (env : Env) (centroidAllowed : Bool) (s : Scan) :
    List Word → Option (Dest × List Word × Scan)
  | [] => return ({}, [], s.fail .destMissing)
  | w :: ws => do
    let d := DestWord.ofWord w
    let register ← normalize ⟨(RegisterFile.ofCode? d.fileCode).getD .temp, d.number⟩
    let dest := { Scan.destOfWord env s d with register }
    let s := Scan.checkDest env centroidAllowed d (← advance s)
    return (dest, ws, if s.failing then s else s.markUsed dest.register true)

theorem advance_eq (h : Room (k + 1) s) : advance s = some s.advance := by
  have hbytes := h.bytes
  unfold advance Scan.advance
  cases hn : s.position with
  | offset n =>
    rw [hn] at hbytes
    have hsmall : n + 4 < 2 ^ 32 := by
      change n + 4 * (k + 1) < 2 ^ 32 at hbytes
      omega
    simp [add_of_lt hsmall]
  | _ => rfl

theorem normalize_eq (h : r.number < 2048) : normalize r = some r.normalize := by
  obtain ⟨file, number⟩ := r
  change number < 2048 at h
  cases file with
  | const2 => simp [normalize, Register.normalize, add_of_lt (show number + 2048 < 2 ^ 32 by omega)]
  | const3 => simp [normalize, Register.normalize, add_of_lt (show number + 4096 < 2 ^ 32 by omega)]
  | const4 => simp [normalize, Register.normalize, add_of_lt (show number + 6144 < 2 ^ 32 by omega)]
  | _ => rfl

theorem readDest_eq (h : Room (k + 1) s) (centroidAllowed : Bool) (ws : List Word) :
    readDest env centroidAllowed s ws = some (Scan.readDest env centroidAllowed s ws) := by
  cases ws with
  | nil => rfl
  | cons w ws =>
    have hnumber : (DestWord.ofWord w).number < 2048 := Word.field_lt w 0 11
    have hregister := normalize_eq (r := ⟨(RegisterFile.ofCode? (DestWord.ofWord w).fileCode).getD .temp,
      (DestWord.ofWord w).number⟩) hnumber
    simp only [readDest, hregister, advance_eq h]
    rfl

/-! ### Sources -/

def vertexInput? (number : Nat) : Option (Option (Usage × Nat)) :=
  if 7 ≤ number ∧ number ≤ 14 then do return some (.texCoord, ← sub number 7)
  else return Usage.ofVertexInput? number

def override? (env : Env) (s : Scan) (r : Register) : Option (Option SwizzleOverride) :=
  if r.file = .input then do
    let meaning ←
      if env.atLeast 2 0 then some ((s.attributes.find? r).map fun a => (a.usage, a.index))
      else vertexInput? r.number
    return meaning.bind fun m =>
      if m.1 = .unknown then none
      else env.swizzles.find? fun o => o.usage = m.1 && o.index = m.2
  else return none

def adjustSwizzle (env : Env) (s : Scan) (r : Register) (swizzle : Swizzle) : Option Swizzle := do
  match ← override? env s r with
  | some o => return swizzle.map o.lane
  | none => return swizzle

def readIndex (env : Env) (s : Scan) : List Word → Option (RelativeIndex × List Word × Scan)
  | [] => return (⟨⟨.address, 0⟩, .x, none⟩, [], s)
  | w :: ws =>
    if env.atLeast 2 0 then do
      let r := RelativeWord.ofWord w
      let file := (RegisterFile.ofCode? r.fileCode).getD .address
      return (⟨⟨file, r.number⟩, r.swizzle.x, none⟩, ws, Scan.checkRelative r (← advance s))
    else return (⟨⟨.address, 0⟩, .x, none⟩, w :: ws, s)

def resolveRelative (env : Env) (r : Register) (index : RelativeIndex) (s : Scan) :
    Option (RelativeIndex × Scan) :=
  match r.file with
  | .input =>
    let s := s.failIf (env.isPixel || !env.atLeast 3 0) .relativeInput
    return (index, { s with relativeInput := true })
  | .const =>
    if s.haveTable then do
      let s ← groupConstants s
      match ← floatArray? s.arrays r.number with
      | some place =>
        let s ← markArrayUsed s place
        return ({ index with array := some place }, s.markUsed index.register false)
      | none => return (index, s.fail .relativeNoArray)
    else return (index, s.fail .relativeWithoutTable)
  | _ => return (index, s)

def readRelative (env : Env) (r : Register) (s : Scan) (ws : List Word) :
    Option (RelativeIndex × List Word × Scan) := do
  let s := s.failIf (env.isPixel && !env.atLeast 3 0) .relativePixel
  let (index, ws, s) ← readIndex env s ws
  let (index, s) ← resolveRelative env r index s
  return (index, ws, s)

def readSource (env : Env) (s : Scan) : List Word → Option (Source × List Word × Scan)
  | [] => return ({}, [], s.fail .sourceMissing)
  | w :: ws => do
    let d := SourceWord.ofWord w
    let file := RegisterFile.ofCode? d.fileCode
    let r ← normalize ⟨file.getD .temp, d.number⟩
    let modifier := SourceModifier.ofCode? d.modifierCode
    let plain : Source :=
      { register := r
        swizzle := ← adjustSwizzle env s r d.swizzle
        modifier := modifier.getD .plain }
    let s := (← advance s).failIf (d.reservedLow != 0) .sourceReservedLow
      |>.failIf (!d.marked) .sourceUnmarked
      |>.failIf file.isNone .fileRange
      |>.failIf (d.relative && ws.isEmpty) .relativeMissing
    if d.relative && !ws.isEmpty then
      let (index, ws, s) ← readRelative env r s ws
      return ({ plain with relative := some index }, ws,
        (Scan.checkModifier env r modifier s).markRead r)
    else return (plain, ws, (Scan.checkModifier env r modifier s).markRead r)

def readSources (env : Env) (s : Scan) :
    (n i : Nat) → List Word → Option (List Source × List Word × Scan)
  | 0, _, ws => return ([], ws, s)
  | n + 1, i, ws => do
    let (a, ws, s) ← readSource env s ws
    let slot ← place 5 i
    let (as, ws, s) ← readSources env s n (slot + 1) ws
    return (a :: as, ws, s)

def readPredicate (env : Env) (s : Scan) (ws : List Word) : Option Scan := do
  let (p, _, s) ← readSource env s ws
  if ws.isEmpty then return s
  else
    return s.failIf (p.register.file != .predicate) .predicateRegister
      |>.failIf (p.modifier != .plain && p.modifier != .not) .predicateModifier
      |>.failIf (!p.swizzle.isIdentity && !p.swizzle.isReplicate) .predicateSwizzle
      |>.failIf p.relative.isSome .predicateRelative

theorem vertexInput?_eq (number : Nat) :
    vertexInput? number = some (Usage.ofVertexInput? number) := by
  unfold vertexInput?
  split
  next hrange =>
    rw [sub_of_le hrange.1]
    -- none of the numbers of this range has a case of its own
    unfold Usage.ofVertexInput?
    split
    case h_10 => rw [if_pos hrange]; rfl
    all_goals omega
  next => rfl

theorem override?_eq (env : Env) (s : Scan) (r : Register) :
    override? env s r = some (Scan.override? env s r) := by
  unfold override? Scan.override?
  split
  · split
    · cases s.attributes.find? r <;> rfl
    · rw [vertexInput?_eq]
      cases Usage.ofVertexInput? r.number <;> rfl
  · rfl

theorem adjustSwizzle_eq (env : Env) (s : Scan) (r : Register) (swizzle : Swizzle) :
    adjustSwizzle env s r swizzle = some (Scan.adjustSwizzle env s r swizzle) := by
  unfold adjustSwizzle Scan.adjustSwizzle
  rw [override?_eq]
  cases Scan.override? env s r <;> rfl

theorem readIndex_eq (h : Room (k + 1) s) (ws : List Word) :
    readIndex env s ws = some (Scan.readIndex env s ws) := by
  cases ws with
  | nil => rfl
  | cons w ws =>
    unfold readIndex Scan.readIndex
    dsimp only
    split
    · rw [advance_eq h]
      rfl
    · rfl

theorem resolveRelative_eq (h : Room k s) (r : Register) (index : RelativeIndex) :
    resolveRelative env r index s = some (Scan.resolveRelative env r index s) := by
  unfold resolveRelative Scan.resolveRelative
  cases r.file with
  | const =>
    dsimp only
    split
    · have hgroup : Scan.Fetches s s.groupConstants := .groupConstants .refl
      have hlow : ∀ c ∈ s.constants, c.index < 2 ^ 31 :=
        fun c hc => Nat.lt_of_le_of_lt (h.stored.constants c hc) (by decide)
      have hsmall : ∀ a ∈ s.groupConstants.arrays, a.index + a.count < 2 ^ 32 :=
        fun a ha => Nat.lt_of_le_of_lt ((h.stored.fetches hgroup).arrays a ha) (by decide)
      simp only [groupConstants_eq h.short hlow, some_bind,
        floatArray?_eq hsmall]
      cases hfound : s.groupConstants.floatArray? r.number with
      | none => rfl
      | some place =>
        dsimp only
        rw [markArrayUsed_eq hfound]
        rfl
    · rfl
  | _ => rfl

theorem readRelative_eq (h : Room (k + 1) s) (r : Register) (ws : List Word) :
    readRelative env r s ws = some (Scan.readRelative env r s ws) := by
  have hchecked := h.failIf (env.isPixel && !env.atLeast 3 0) .relativePixel
  unfold readRelative Scan.readRelative
  simp only [readIndex_eq hchecked, some_bind,
    resolveRelative_eq (hchecked.readIndex ws)]
  rfl

theorem readSource_eq (h : Room (k + 2) s) (ws : List Word) :
    readSource env s ws = some (Scan.readSource env s ws) := by
  cases ws with
  | nil => rfl
  | cons w ws =>
    have hnumber : (SourceWord.ofWord w).number < 2048 := Word.field_lt w 0 11
    have hregister := normalize_eq (r := ⟨(RegisterFile.ofCode? (SourceWord.ofWord w).fileCode).getD
      .temp, (SourceWord.ofWord w).number⟩) hnumber
    have hchecked := (((h.advance.failIf ((SourceWord.ofWord w).reservedLow != 0)
      .sourceReservedLow).failIf (!(SourceWord.ofWord w).marked) .sourceUnmarked).failIf
      (RegisterFile.ofCode? (SourceWord.ofWord w).fileCode).isNone .fileRange).failIf
      ((SourceWord.ofWord w).relative && ws.isEmpty) .relativeMissing
    simp only [readSource, Scan.readSource, hregister, adjustSwizzle_eq, advance_eq h,
      some_bind, readRelative_eq hchecked, Option.pure_def]
    split <;> rfl

theorem readSources_eq {n i : Nat} (h : Room (k + 2 * n) s) (hslots : i + n ≤ 5) (ws : List Word) :
    readSources env s n i ws = some (Scan.readSources env s n ws) := by
  induction n generalizing s i ws with
  | zero => rfl
  | succ n ih =>
    have hfirst : Room (k + 2 * n + 2) s := h.mono (by omega)
    have hrest := ih (show Room (k + 2 * n) (Scan.readSource env s ws).2.2 from hfirst.readSource ws)
      (show i + 1 + n ≤ 5 by omega) (Scan.readSource env s ws).2.1
    simp only [readSources, readSource_eq hfirst, some_bind,
      place_of_lt (show i < 5 by omega), hrest]
    rfl

theorem readPredicate_eq (h : Room (k + 2) s) (ws : List Word) :
    readPredicate env s ws = some (Scan.readPredicate env s ws) := by
  unfold readPredicate Scan.readPredicate
  simp only [readSource_eq h, some_bind]
  split <;> rfl

/-! ### Arguments -/

def token (s : Scan) (ws : List Word) (n : Nat) : Option Word := do
  let _ ← add 64 (s.position.bytes / 4) n
  return ws.getD n 0

def readDestSources (env : Env) (s : Scan) (n : Nat) (ws : List Word) :
    Option (Arguments × List Word × Scan) := do
  let (dest, ws, s) ← readDest env false s ws
  let (sources, ws, s) ← readSources env s n 0 ws
  return ({ dest, sources }, ws, s)

def literals (kind : ConstantKind) (s : Scan) (ws : List Word) : Option (Quad Word) :=
  match kind with
  | .bool => do return ⟨if (← token s ws 0) = 0 then 0 else 0xFFFFFFFF, 0, 0, 0⟩
  | _ => do return ⟨← token s ws 0, ← token s ws 1, ← token s ws 2, ← token s ws 3⟩

def readDefinition (env : Env) (kind : ConstantKind) (s : Scan) (ws : List Word) :
    Option (Arguments × List Word × Scan) := do
  let (dest, ws, s) ← readDest env false s ws
  let s := s.failIf (dest.register.file != kind.file) (.defineWrongFile kind)
    |>.failIf dest.relative (.defineRelative kind)
  return ({ dest, literals := ← literals kind s ws }, ws, s)

def readDeclaration (env : Env) (s : Scan) (ws : List Word) :
    Option (Arguments × List Word × Scan) := do
  let w ← token s ws 0
  let s := s.failIf (!Word.flag w 31) .declareUnmarked
  let (dest, ws, s) ← readDest env true (← advance s) ws.tail
  let s := s.failIf (dest.shift != 0) .declareShift
    |>.failIf dest.relative .declareRelative
  match Scan.declarationRule env.toShader w dest with
  | some rule =>
    return ({ dest, declared := rule.declared }, ws,
      (s.failAll rule.faults).failIf (Word.meets w rule.reserved) .declareReserved)
  | none =>
    return ({ dest, declared := Scan.declaredAnyway env.toShader dest }, ws, s.fail .declareFile)

/-- What was read, with the number of its words: those that are gone, and the opcode's own. -/
def counted (ws : List Word) (r : Arguments × List Word × Scan) :
    Option (Arguments × Nat × List Word × Scan) := do
  let read ← sub ws.length r.2.1.length
  return (r.1, ← add 64 1 read, r.2)

def readArguments (env : Env) (shape : Shape) (s : Scan) (ws : List Word) :
    Option (Arguments × Nat × List Word × Scan) :=
  let fixed (n : Nat) (r : Arguments × List Word × Scan) : Arguments × Nat × List Word × Scan :=
    (r.1, n, r.2)
  match shape with
  | .sources n => do
    let (sources, rest, s) ← readSources env s n 0 ws
    counted ws ({ sources }, rest, s)
  | .dest n => do counted ws (← readDestSources env s n ws)
  | .sinCos => do counted ws (← readDestSources env s (if env.atLeast 3 0 then 1 else 3) ws)
  | .texCoord => do counted ws (← readDestSources env s (if env.atLeast 1 4 then 1 else 0) ws)
  | .texLoad => do
    counted ws (← readDestSources env s
      (if env.atLeast 2 0 then 2 else if env.atLeast 1 4 then 1 else 0) ws)
  | .defineFloat => do return fixed 6 (← readDefinition env .float s ws)
  | .defineInt => do return fixed 6 (← readDefinition env .int s ws)
  | .defineBool => do return fixed 3 (← readDefinition env .bool s ws)
  | .declaration => do return fixed 3 (← readDeclaration env s ws)

def readOperands (env : Env) (op : Opcode) (w : InstructionWord) (s : Scan) (ws : List Word) :
    Option (Instruction × Nat × Scan) := do
  let (arguments, count, rest, s) ← readArguments env op.info.shape s ws
  let i : Instruction :=
    { arguments with opcode := op, controls := w.controls, predicated := w.predicated }
  if w.predicated then return (i, ← add 64 count 1, ← readPredicate env s rest)
  else return (i, count, s)

theorem token_eq (h : Room k s) (ws : List Word) {n : Nat} (hn : n < 4) :
    token s ws n = some (ws.getD n 0) := by
  have hbytes := h.bytes
  have hsmall : s.position.bytes / 4 + n < 2 ^ 64 := by omega
  rw [token, add_of_lt hsmall]
  rfl

theorem readDestSources_eq {n : Nat} (h : Room (k + 2 * n + 1) s) (hslots : n ≤ 5) (ws : List Word) :
    readDestSources env s n ws = some (Scan.readDestSources env s n ws) := by
  have hdest : Room (k + 2 * n) (Scan.readDest env false s ws).2.2 := h.readDest false ws
  simp only [readDestSources, readDest_eq h, some_bind,
    readSources_eq hdest (show 0 + n ≤ 5 by omega)]
  rfl

theorem readDefinition_eq (h : Room (k + 1) s) (kind : ConstantKind) (ws : List Word) :
    readDefinition env kind s ws = some (Scan.readDefinition env kind s ws) := by
  have hdest : Room k (Scan.readDest env false s ws).2.2 := h.readDest false ws
  have htoken : ∀ n < 4, token _ (Scan.readDest env false s ws).2.1 n = some _ := fun n hn =>
    token_eq ((hdest.failIf ((Scan.readDest env false s ws).1.register.file != kind.file)
      (.defineWrongFile kind)).failIf (Scan.readDest env false s ws).1.relative
      (.defineRelative kind)) _ hn
  simp only [readDefinition, readDest_eq h, some_bind]
  cases kind <;>
    simp only [literals, htoken 0 (by decide), htoken 1 (by decide), htoken 2 (by decide),
      htoken 3 (by decide), some_bind, Option.pure_def] <;> rfl

theorem readDeclaration_eq (h : Room (k + 2) s) (ws : List Word) :
    readDeclaration env s ws = some (Scan.readDeclaration env s ws) := by
  have hhead : ws.getD 0 0 = ws.headD 0 := by cases ws <;> rfl
  have hmarked := h.failIf (!Word.flag (ws.headD 0) 31) .declareUnmarked
  simp only [readDeclaration, token_eq h ws (show 0 < 4 by decide), hhead, some_bind, advance_eq hmarked,
    readDest_eq hmarked.advance]
  unfold Scan.readDeclaration
  dsimp only
  generalize Scan.readDest env true _ ws.tail = dest
  cases Scan.declarationRule env.toShader (ws.headD 0) dest.1 <;> rfl

theorem counted_eq {r : Arguments × List Word × Scan} (hrest : r.2.1.length ≤ ws.length)
    (short : ws.length < 2 ^ 32) :
    counted ws r = some (r.1, 1 + (ws.length - r.2.1.length), r.2) := by
  have hsum : 1 + (ws.length - r.2.1.length) < 2 ^ 64 := by omega
  simp only [counted, sub_of_le hrest, some_bind, add_of_lt hsum]
  rfl

theorem sourceCount_le (op : Opcode) (sh : Shader) : op.info.shape.sourceCount sh ≤ 4 := by
  cases op with
  | sinCos | texCrd =>
    show ite _ _ _ ≤ 4
    split <;> decide
  | texLd =>
    show ite _ _ _ ≤ 4
    split
    · decide
    · split <;> decide
  | reserved code => exact Nat.zero_le 4
  | _ => exact Nat.le_of_ble_eq_true rfl

theorem readArguments_eq {shape : Shape} (h : Room (k + 9) s)
    (hsources : shape.sourceCount env.toShader ≤ 4) (short : ws.length < 2 ^ 32) :
    readArguments env shape s ws = some (Scan.readArguments env shape s ws) := by
  have hdest : ∀ n ≤ 4, (do counted ws (← readDestSources env s n ws)) =
      some (Scan.readArguments env (.dest n) s ws) := by
    intro n hn
    obtain ⟨taken, htakes⟩ := Scan.takes_readDestSources env s n ws
    have hrest : (Scan.readDestSources env s n ws).2.1.length ≤ ws.length := by
      rw [htakes.rest, List.length_drop]
      omega
    have hroom : Room (k + 2 * n + 1) s := h.mono (by omega)
    simp only [readDestSources_eq hroom (show n ≤ 5 by omega), some_bind,
      counted_eq hrest short]
    rfl
  cases shape with
  | sources n =>
    obtain ⟨taken, htakes⟩ := Scan.takes_readSources env s n ws
    have hrest : (Scan.readSources env s n ws).2.1.length ≤ ws.length := by
      rw [htakes.rest, List.length_drop]
      omega
    have hn : n ≤ 4 := hsources
    have hroom : Room (k + 2 * n) s := h.mono (by omega)
    have hcounted := counted_eq (r := ({ sources := (Scan.readSources env s n ws).1 },
      (Scan.readSources env s n ws).2)) hrest short
    simp only [readArguments, readSources_eq hroom (show 0 + n ≤ 5 by omega), some_bind]
    exact hcounted
  | dest n => exact hdest n hsources
  | sinCos | texCoord | texLoad => exact hdest _ hsources
  | defineFloat | defineInt | defineBool =>
    have hroom : Room (k + 8 + 1) s := h
    simp only [readArguments, readDefinition_eq hroom, some_bind]
    rfl
  | declaration =>
    have hroom : Room (k + 7 + 2) s := h
    simp only [readArguments, readDeclaration_eq hroom, some_bind]
    rfl

theorem Room.readArguments {shape : Shape} (h : Room (k + 9) s)
    (hsources : shape.sourceCount env.toShader ≤ 4) (ws : List Word) :
    Room k (Scan.readArguments env shape s ws).2.2.2 := by
  have hread := Scan.reader_readArguments env shape
  generalize Scan.readArguments env shape = read at hread ⊢
  cases hread with
  | sources n =>
    have hn : n ≤ 4 := hsources
    exact (h.mono (show k + 2 * n ≤ k + 9 by omega)).readSources ws
  | dest n _ count =>
    have hroom : Room (k + 2 * n + 1) s := h.mono (by omega)
    exact (hroom.readDest false ws).readSources _
  | define kind =>
    have hroom : Room (k + 1) s := h.mono (by omega)
    exact ((hroom.readDest false ws).failIf _ _).failIf _ _
  | declare =>
    have hroom : Room (k + 2) s := h.mono (by omega)
    have hread : Room k (Scan.declaredDest env s ws).2.2 :=
      (hroom.failIf _ _).advance.readDest true ws.tail
    exact hread.walks (Scan.Walks.checkDeclaration env (.here _)) (Nat.le_refl _)

theorem count_readArguments_le (env : Env) (shape : Shape) (s : Scan) (ws : List Word) :
    (Scan.readArguments env shape s ws).2.1 ≤ ws.length + 6 := by
  have hcounted : ∀ n : Nat, 1 + (ws.length - n) ≤ ws.length + 6 := fun n => by omega
  cases shape with
  | sources | dest | sinCos | texCoord | texLoad => exact hcounted _
  | defineFloat | defineInt => exact Nat.le_add_left 6 _
  | defineBool | declaration => exact Nat.le_trans (by decide : 3 ≤ 6) (Nat.le_add_left 6 _)

theorem readOperands_eq (h : Room (k + 11) s) (op : Opcode) (w : InstructionWord)
    (short : ws.length < 2 ^ 32) :
    readOperands env op w s ws = some (Scan.readOperands env op w s ws) := by
  have hsources := sourceCount_le op env.toShader
  have hroom : Room (k + 2 + 9) s := h
  have hcount := count_readArguments_le env op.info.shape s ws
  have hsum : (Scan.readArguments env op.info.shape s ws).2.1 + 1 < 2 ^ 64 := by omega
  unfold readOperands Scan.readOperands
  simp only [readArguments_eq hroom hsources short, some_bind,
    add_of_lt hsum, readPredicate_eq (hroom.readArguments hsources ws), Option.pure_def]
  split <;> rfl

end Fixed

end ShaderLift
