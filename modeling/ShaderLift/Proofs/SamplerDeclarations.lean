/-
Declarations of samplers.  The usage word of such a declaration has room for one thing only, the kind of
the texture: bit 31 is set, bits 27 to 30 hold the code of the kind, and all other bits are zero
(`Word.StatesKind`).  Each shader model that has samplers checks this by a mask of its own.  The mask of
vertex shaders is one bit too long: it takes in the lowest bit of the code, which is set in the code of
cubes and in no other.  So a vertex shader can declare samplers of all kinds but that one.
-/
import ShaderLift.Proofs.Tally

namespace ShaderLift

/-! ### Words of a declaration -/

/-- A destination word that names a sampler, and with which nothing is wrong. -/
structure DestWord.NamesSampler (sh : Shader) (d : DestWord) : Prop where
  marked : d.marked = true
  reserved : d.reservedLow = 0
  file : RegisterFile.ofCode? d.fileCode = some .sampler
  absolute : d.relative = false
  unshifted : d.shift = 0
  precision : d.modifiers.partialPrecision = true → sh.isPixel = true
  centroid : d.modifiers.centroid = true → sh.isPixel = true

/-- A source word that names a predicate, and with which nothing is wrong. -/
structure SourceWord.NamesPredicate (p : SourceWord) : Prop where
  marked : p.marked = true
  reserved : p.reservedLow = 0
  file : RegisterFile.ofCode? p.fileCode = some .predicate
  absolute : p.relative = false
  modifier : SourceModifier.ofCode? p.modifierCode = some .plain ∨
    SourceModifier.ofCode? p.modifierCode = some .not
  swizzle : p.swizzle.isIdentity = true ∨ p.swizzle.isReplicate = true

/-- The unit declares the sampler that `dest` names, by any usage word, and all else is as it should be. -/
structure Visit.IsSamplerDeclaration (v : Visit) (fields : InstructionWord) (usage dest : Word)
    (more : List Word) : Prop where
  head : UnitHead.ofWord v.word = .instruction .dcl fields
  words : v.rest = usage :: dest :: more
  lowBit : fields.highBit = false
  alone : fields.coissue = false
  length : fields.length = if fields.predicated then 3 else 2
  dest : (DestWord.ofWord dest).NamesSampler v.env.toShader
  predicate : fields.predicated = true →
    ∃ p later, more = p :: later ∧ (SourceWord.ofWord p).NamesPredicate

/-- Whether samplers can be declared: in pixel shaders from model 2 on, in vertex shaders from model 3
on. -/
def Shader.declaresSamplers (sh : Shader) : Bool :=
  match sh.stage with
  | .pixel => sh.atLeast 2 0
  | .vertex => sh.atLeast 3 0

theorem Shader.atLeast_two_of_declaresSamplers {sh : Shader} (h : sh.declaresSamplers = true) :
    sh.atLeast 2 0 = true := by
  unfold declaresSamplers at h
  cases hstage : sh.stage with
  | pixel =>
    rw [hstage] at h
    exact h
  | vertex =>
    rw [hstage] at h
    exact sh.atLeast_of_le h (by decide)

/-- A usage word states the kind of a texture and nothing else. -/
structure Word.StatesKind (w : Word) (kind : TextureKind) : Prop where
  marked : Word.flag w 31 = true
  code : Word.field w 27 4 = kind.code
  zero : Word.field w 0 27 = 0

theorem TextureKind.ofCode?_eq_some_iff {n : Nat} {kind : TextureKind} :
    ofCode? n = some kind ↔ n = kind.code := by
  constructor
  · intro h
    unfold ofCode? at h
    split at h <;> cases h <;> rfl
  · rintro rfl
    cases kind <;> rfl

/-! ### Masks -/

def samplerReserved : Stage → Word
  | .pixel => 0x07FFFFFF
  | .vertex => 0x0FFFFFFF

theorem Word.meets_eq_false_iff {w mask : Word} {n : Nat} (h : mask.toNat = Nat.pow 2 n - 1) :
    Word.meets w mask = false ↔ Word.field w 0 n = 0 := by
  have hand : (w &&& mask).toNat = Word.field w 0 n := by
    rw [UInt32.toNat_and, h, Word.field, show Nat.pow 2 0 = 1 from rfl, Nat.div_one]
    exact Nat.and_two_pow_sub_one_eq_mod w.toNat n
  rw [Word.meets, bne_eq_false_iff_eq, ← hand, ← UInt32.toNat_inj]
  rfl

def samplerUsageFaults (stage : Stage) (w : Word) : List Fault :=
  faultIf (!Word.flag w 31) .declareUnmarked
    ++ (Scan.samplerRule stage (samplerReserved stage) w).faults
    ++ faultIf (Word.meets w (samplerReserved stage)) .declareReserved

@[simp] theorem faultIf_false (f : Fault) : faultIf false f = [] := rfl

theorem faultIf_eq_nil_iff {b : Bool} {f : Fault} : faultIf b f = [] ↔ b = false := by
  cases b <;> simp [faultIf]

theorem Scan.faults_samplerRule_eq_nil_iff {stage : Stage} {reserved w : Word} :
    (samplerRule stage reserved w).faults = [] ↔ ∃ kind : TextureKind, Word.field w 27 4 = kind.code := by
  simp only [← TextureKind.ofCode?_eq_some_iff, ← Option.isSome_iff_exists]
  unfold samplerRule
  dsimp only
  cases TextureKind.ofCode? (Word.field w 27 4) <;> simp

/-- The mask of vertex shaders takes in the lowest bit of the code, which only cubes have. -/
theorem Word.meets_samplerReserved {w : Word} {kind : TextureKind} (stage : Stage)
    (hkind : Word.field w 27 4 = kind.code) :
    Word.meets w (samplerReserved stage) = false ↔
      Word.field w 0 27 = 0 ∧ (stage = .vertex → kind ≠ .cube) := by
  cases stage with
  | pixel =>
    rw [samplerReserved, meets_eq_false_iff (n := 27) (by decide)]
    simp
  | vertex =>
    have hbits : Word.field w 0 28 = 0 ↔ Word.field w 0 27 = 0 ∧ Word.field w 27 4 % 2 = 0 := by
      simp only [Word.field, Nat.reducePow, Nat.pow_eq, Nat.div_one]
      omega
    rw [samplerReserved, meets_eq_false_iff (n := 28) (by decide), hbits, hkind]
    cases kind <;> simp [TextureKind.code]

theorem samplerUsageFaults_eq_nil_iff {stage : Stage} {w : Word} :
    samplerUsageFaults stage w = [] ↔
      ∃ kind, Word.StatesKind w kind ∧ (stage = .vertex → kind ≠ .cube) := by
  unfold samplerUsageFaults
  rw [List.append_eq_nil_iff, List.append_eq_nil_iff, faultIf_eq_nil_iff, faultIf_eq_nil_iff,
    Scan.faults_samplerRule_eq_nil_iff, Bool.not_eq_false']
  constructor
  · rintro ⟨⟨hmarked, kind, hkind⟩, hmeets⟩
    obtain ⟨hzero, hcube⟩ := (Word.meets_samplerReserved stage hkind).mp hmeets
    exact ⟨kind, ⟨hmarked, hkind, hzero⟩, hcube⟩
  · rintro ⟨kind, ⟨hmarked, hkind, hzero⟩, hcube⟩
    exact ⟨⟨hmarked, kind, hkind⟩, (Word.meets_samplerReserved stage hkind).mpr ⟨hzero, hcube⟩⟩

/-! ### Reading a declaration -/

namespace Scan

variable {env : Env} {i : Instruction} {usage dest : Word} {more : List Word} (s : Scan)

def causes (s : Scan) : List Fault := s.faults.map LocatedFault.fault

@[simp] theorem causes_failAll (fs : List Fault) : (s.failAll fs).causes = s.causes ++ fs := by
  rw [failAll_eq, causes, List.map_append, List.map_map]
  exact congrArg (s.causes ++ ·) (List.map_id fs)

@[simp] theorem causes_failIf (b : Bool) (f : Fault) :
    (s.failIf b f).causes = s.causes ++ faultIf b f := by
  cases b with
  | false => exact (List.append_nil _).symm
  | true => exact causes_failAll s [f]

@[simp] theorem causes_advance : s.advance.causes = s.causes := by
  unfold advance
  split <;> rfl

@[simp] theorem causes_moveTo (p : Position) : (s.moveTo p).causes = s.causes := rfl

@[simp] theorem causes_markUsed (r : Register) (written : Bool) :
    (s.markUsed r written).causes = s.causes := rfl

theorem checkDest_of_namesSampler {d : DestWord} (h : d.NamesSampler env.toShader) :
    checkDest env true d s = s := by
  have hprecision : (d.modifiers.partialPrecision && !env.isPixel) = false := by
    cases hp : d.modifiers.partialPrecision with
    | false => rfl
    | true => rw [h.precision hp]; rfl
  have hcentroid : (d.modifiers.centroid && !env.isPixel) = false := by
    cases hc : d.modifiers.centroid with
    | false => rfl
    | true => rw [h.centroid hc]; rfl
  unfold checkDest
  simp [h.marked, h.reserved, h.absolute, h.unshifted, h.file, hprecision, hcentroid, failIf]

theorem register_destOfWord {d : DestWord} (h : d.NamesSampler env.toShader) :
    (destOfWord env s d).register = ⟨.sampler, d.number⟩ := by
  unfold destOfWord
  dsimp only
  rw [h.file]
  rfl

theorem causes_readDest (h : (DestWord.ofWord dest).NamesSampler env.toShader) :
    (readDest env true s (dest :: more)).2.2.causes = s.causes := by
  unfold readDest
  dsimp only
  rw [checkDest_of_namesSampler _ h]
  split
  · exact causes_advance s
  · rw [causes_markUsed, causes_advance]

theorem declarationRule_sampler {sh : Shader} {d : Dest} (supported : sh.declaresSamplers = true)
    (hfile : d.register.file = .sampler) :
    declarationRule sh usage d = some (samplerRule sh.stage (samplerReserved sh.stage) usage) := by
  unfold Shader.declaresSamplers at supported
  unfold declarationRule
  dsimp only
  rw [hfile]
  cases hstage : sh.stage with
  | pixel =>
    rw [hstage] at supported
    dsimp only at supported ⊢
    rw [if_pos supported, ite_self]
    rfl
  | vertex =>
    rw [hstage] at supported
    dsimp only at supported ⊢
    rw [if_pos supported]
    rfl

theorem readDeclaration_sampler (usage : Word) (more : List Word)
    (supported : env.toShader.declaresSamplers = true)
    (h : (DestWord.ofWord dest).NamesSampler env.toShader) :
    (readDeclaration env s (usage :: dest :: more)).1.dest.register =
        ⟨.sampler, (DestWord.ofWord dest).number⟩ ∧
      (readDeclaration env s (usage :: dest :: more)).1.declared.kind =
        TextureKind.ofCode? (Word.field usage 27 4) ∧
      (readDeclaration env s (usage :: dest :: more)).2.1 = more ∧
      (readDeclaration env s (usage :: dest :: more)).2.2.causes =
        s.causes ++ samplerUsageFaults env.stage usage := by
  unfold readDeclaration
  dsimp only [List.headD_cons, List.tail_cons]
  generalize hstate : (s.failIf (!Word.flag usage 31) .declareUnmarked).advance = t
  have hcauses : t.causes = s.causes ++ faultIf (!Word.flag usage 31) .declareUnmarked := by
    rw [← hstate, causes_advance, causes_failIf]
  have hregister : (readDest env true t (dest :: more)).1.register =
      ⟨.sampler, (DestWord.ofWord dest).number⟩ := register_destOfWord t h
  have hshift : (readDest env true t (dest :: more)).1.shift = 0 := h.unshifted
  have hrelative : (readDest env true t (dest :: more)).1.relative = false := h.absolute
  rw [declarationRule_sampler supported (congrArg Register.file hregister)]
  refine ⟨hregister, rfl, rfl, ?_⟩
  simp only [causes_failIf, causes_failAll, causes_readDest t h, hcauses, hshift, hrelative,
    bne_self_eq_false, faultIf_false, List.append_nil, List.append_assoc, samplerUsageFaults]
  rfl

theorem readSource_predicate (env : Env) {p : Word} (later : List Word)
    (h : (SourceWord.ofWord p).NamesPredicate) :
    ∃ m : SourceModifier, (m = .plain ∨ m = .not) ∧
      (readSource env s (p :: later)).1 =
        ⟨⟨.predicate, (SourceWord.ofWord p).number⟩, (SourceWord.ofWord p).swizzle, m, none⟩ ∧
      (readSource env s (p :: later)).2.2.causes = s.causes := by
  have hoverride : ∀ swizzle, adjustSwizzle env s ⟨.predicate, (SourceWord.ofWord p).number⟩ swizzle =
      swizzle := fun _ => rfl
  have hmark : ∀ (t : Scan) (n : Nat), (t.markRead ⟨.predicate, n⟩).causes = t.causes := by
    intro t n
    unfold markRead
    split <;> rfl
  have hmodifier : ∃ m : SourceModifier, (m = .plain ∨ m = .not) ∧
      SourceModifier.ofCode? (SourceWord.ofWord p).modifierCode = some m :=
    h.modifier.elim (fun hm => ⟨_, .inl rfl, hm⟩) fun hm => ⟨_, .inr rfl, hm⟩
  obtain ⟨m, hm, hcode⟩ := hmodifier
  have hcheck : ∀ t : Scan, checkModifier env ⟨.predicate, (SourceWord.ofWord p).number⟩ (some m) t = t := by
    intro t
    rcases hm with rfl | rfl <;> simp [checkModifier, failIf, SourceModifier.isModelOneOnly]
  refine ⟨m, hm, ?_⟩
  unfold readSource
  simp only [h.file, h.absolute, h.marked, h.reserved, hcode, Option.getD_some, Register.normalize,
    hoverride, hcheck, hmark, Bool.false_and, Bool.false_eq_true, if_false]
  simp

theorem causes_readPredicate {p : Word} {later : List Word}
    (h : (SourceWord.ofWord p).NamesPredicate) :
    (readPredicate env s (p :: later)).causes = s.causes := by
  obtain ⟨m, hm, hsource, hcauses⟩ := readSource_predicate s env later h
  have hmodifier : (m != .plain && m != .not) = false := by rcases hm with rfl | rfl <;> rfl
  have hswizzle : (!(SourceWord.ofWord p).swizzle.isIdentity &&
      !(SourceWord.ofWord p).swizzle.isReplicate) = false := by
    rcases h.swizzle with h | h <;> simp [h]
  unfold readPredicate
  simp only [hsource, causes_failIf, hcauses, hmodifier, hswizzle, List.isEmpty_cons, Bool.false_eq_true,
    if_false, bne_self_eq_false, Option.isSome_none, faultIf_false, List.append_nil]

theorem readOperands_sampler {fields : InstructionWord} (usage : Word)
    (supported : env.toShader.declaresSamplers = true)
    (h : (DestWord.ofWord dest).NamesSampler env.toShader)
    (hpredicate : fields.predicated = true →
      ∃ p later, more = p :: later ∧ (SourceWord.ofWord p).NamesPredicate) :
    (readOperands env .dcl fields s (usage :: dest :: more)).1.dest.register =
        ⟨.sampler, (DestWord.ofWord dest).number⟩ ∧
      (readOperands env .dcl fields s (usage :: dest :: more)).1.declared.kind =
        TextureKind.ofCode? (Word.field usage 27 4) ∧
      (readOperands env .dcl fields s (usage :: dest :: more)).2.1 =
        (if fields.predicated then 3 else 2) + 1 ∧
      (readOperands env .dcl fields s (usage :: dest :: more)).2.2.causes =
        s.causes ++ samplerUsageFaults env.stage usage := by
  obtain ⟨hregister, hkind, hmore, hcauses⟩ :=
    readDeclaration_sampler s usage more supported h
  have harguments : readArguments env (Opcode.info .dcl).shape s (usage :: dest :: more) =
      ((readDeclaration env s (usage :: dest :: more)).1, 3,
        (readDeclaration env s (usage :: dest :: more)).2) := rfl
  unfold readOperands
  rw [harguments]
  dsimp only
  cases hp : fields.predicated with
  | false => exact ⟨hregister, hkind, rfl, hcauses⟩
  | true =>
    obtain ⟨p, later, rfl, hp⟩ := hpredicate hp
    refine ⟨hregister, hkind, rfl, ?_⟩
    rw [hmore]
    exact (causes_readPredicate _ hp).trans hcauses

/-- A declaration of a sampler in front of all instructions breaks no rule and writes no code. -/
theorem execute_sampler (env : Env) (hop : i.opcode = .dcl) {n : Nat}
    (hregister : i.dest.register = ⟨.sampler, n⟩) (early : s.slots = 0) :
    (execute env s i).causes = s.causes ∧
      (execute env s i).samplers = (s.addSampler env n i.declared.kind false).samplers := by
  have hlegal : violations env s i = [] := by
    simp [violations, hop, declareFaults, firstFault, early, hregister]
  have haccount : account env s i = (s.addSampler env n i.declared.kind false).markDefined ⟨.sampler, n⟩ := by
    simp [account, hop, declare, early, hregister]
  have hcode : ∀ t : Scan, t.generate env i = t := by
    intro t
    have hnothing : instructionCode env.toShader t i = pure () := by rw [instructionCode, hop]
    unfold generate
    rw [hnothing, hop, if_neg (by decide : Opcode.dcl ≠ .ret), emit_eq rfl]
    simp [pure]
  unfold execute judge
  rw [hlegal, show s.failAll [] = s from rfl, haccount, hcode]
  exact ⟨rfl, rfl⟩

end Scan

namespace Visit

variable {v : Visit} {fields : InstructionWord} {usage dest : Word} {more : List Word}

theorem after_of_samplerDeclaration (h : v.IsSamplerDeclaration fields usage dest more)
    (supported : v.env.toShader.declaresSamplers = true) (early : v.before.slots = 0) :
    v.after.causes = v.before.causes ++ samplerUsageFaults v.env.stage usage ∧
      v.after.samplers = (v.before.addSampler v.env (DestWord.ofWord dest).number
        (TextureKind.ofCode? (Word.field usage 27 4)) false).samplers := by
  have hhead : Scan.headFaults v.env .dcl fields = [] := by
    have hstage : StageSet.any.contains v.env.stage = true := by cases v.env.stage <;> rfl
    simp [Scan.headFaults, h.alone, Opcode.info, hstage]
  obtain ⟨hregister, hkind, hcount, hcauses⟩ :=
    Scan.readOperands_sampler v.before.advance usage supported h.dest h.predicate
  have hop : (Scan.readOperands v.env .dcl fields v.before.advance (usage :: dest :: more)).1.opcode =
      .dcl := Scan.opcode_readOperands .dcl fields v.before.advance _
  have hfetches := (Scan.Fetches.advance (t := v.before) .refl).readOperands v.env .dcl fields
    (usage :: dest :: more)
  have hread : v.after = (Scan.readInstruction v.env v.before .dcl fields (usage :: dest :: more)).1 := by
    rw [after, Scan.readUnit, h.head, h.words]
  -- from here on only what is known of the operands matters
  generalize hfetched : Scan.readOperands v.env .dcl fields v.before.advance (usage :: dest :: more) =
    fetched at hregister hkind hcount hcauses hop hfetches
  obtain ⟨i, count, t⟩ := fetched
  dsimp only at hregister hkind hcount hcauses hop hfetches
  have hafter : v.after = Scan.execute v.env (t.moveTo v.before.position) i := by
    have hlength : count = fields.length + 1 := by rw [hcount, h.length]
    rw [hread, Scan.readInstruction]
    simp only [Scan.failIf, Scan.failAll, h.lowBit, hhead, List.foldl_nil, Opcode.isReserved,
      Bool.false_eq_true, if_false, hfetched]
    rw [Scan.settleLength, Shader.atLeast_two_of_declaresSamplers supported, if_pos hlength]
    rfl
  have hslots : (t.moveTo v.before.position).slots = 0 :=
    (congrArg Scan.Tally.slots hfetches.tally_eq).trans early
  obtain ⟨hsame, hsamplers⟩ := Scan.execute_sampler _ v.env hop hregister hslots
  rw [hafter]
  refine ⟨?_, ?_⟩
  · rw [hsame, Scan.causes_moveTo, hcauses, Scan.causes_advance]
  · rw [hsamplers, hkind]
    show RegisterTable.update t.samplers _ _ _ = _
    rw [hfetches.samplers_eq]
    rfl

end Visit

/-- **Samplers are declared by the kinds of their textures, but no cubes in vertex shaders.**  In a shader
model that has declarations of samplers a declaration in front of all instructions adds no fault just if its
usage word states a kind of texture and nothing else, no cube in a vertex shader.  That kind is recorded, if
the caller did not say otherwise. -/
theorem sampler_declared_iff (v : Visit) {fields : InstructionWord} {usage dest : Word}
    {more : List Word} (h : v.IsSamplerDeclaration fields usage dest more)
    (supported : v.env.toShader.declaresSamplers = true) (early : v.before.slots = 0) :
    (v.after.faults = v.before.faults ↔
      ∃ kind, Word.StatesKind usage kind ∧ (v.env.isVertex = true → kind ≠ .cube)) ∧
    ∀ kind, Word.StatesKind usage kind →
      ((∀ x ∈ v.env.samplers, x.index ≠ (DestWord.ofWord dest).number) →
        v.after.textureKind (DestWord.ofWord dest).number = some kind) ∧
      ∀ stage ≠ (DestWord.ofWord dest).number,
        v.after.textureKind stage = v.before.textureKind stage := by
  obtain ⟨hcauses, hsamplers⟩ := v.after_of_samplerDeclaration h supported early
  constructor
  · have hfaults : v.after.faults = v.before.faults ↔ samplerUsageFaults v.env.stage usage = [] := by
      obtain ⟨new, hnew, -⟩ := v.records
      rw [Scan.causes, Scan.causes, hnew, List.map_append, List.append_cancel_left_eq] at hcauses
      rw [hnew, List.append_right_eq_self, ← hcauses, List.map_eq_nil_iff]
    rw [hfaults, samplerUsageFaults_eq_nil_iff]
    simp only [Shader.isVertex, decide_eq_true_eq]
  · intro kind hkind
    rw [TextureKind.ofCode?_eq_some_iff.mpr hkind.code] at hsamplers
    have hafter : ∀ stage, v.after.textureKind stage = v.env.restated stage (v.before.textureKind stage)
        (if (DestWord.ofWord dest).number = stage then some kind else none) := by
      intro stage
      rw [Scan.textureKind_of_samplers hsamplers, Scan.textureKind_addSampler]
    constructor
    · intro hnone
      have hfind : v.env.samplers.find? (fun x => x.index = (DestWord.ofWord dest).number) = none := by
        simpa using hnone
      rw [hafter, if_pos rfl, Env.restated, Option.elim_some, Env.textureKind, hfind]
    · intro stage hne
      rw [hafter, if_neg (Ne.symm hne)]
      rfl

/-- A shader of model 3 that a caller says nothing about. -/
def modelThree (stage : Stage) : Env :=
  { stage
    version := ⟨3, 0⟩
    versionWord := if stage = .pixel then 0xFFFF0300 else 0xFFFE0300
    swizzles := []
    samplers := []
    knownSize := true }

/-- The declaration of a sampler for cubes, as the first unit of a shader of model 3. -/
def cubeDeclaration (stage : Stage) : Visit :=
  Scan.visit (modelThree stage) (Scan.start (modelThree stage)) 1 0x0200001F
    [0x98000000, 0xA00F0800, 0xFFFF]

theorem isSamplerDeclaration_cube (stage : Stage) : (cubeDeclaration stage).IsSamplerDeclaration
    (InstructionWord.ofWord 0x0200001F) 0x98000000 0xA00F0800 [0xFFFF] where
  head := (by decide : UnitHead.ofWord 0x0200001F = _)
  words := rfl
  lowBit := by decide
  alone := by decide
  length := by decide
  dest := ⟨by decide, by decide, by decide, by decide, by decide, fun h => absurd h (by decide),
    fun h => absurd h (by decide)⟩
  predicate h := absurd h (by decide)

theorem statesKind_cube : Word.StatesKind 0x98000000 .cube := by
  constructor <;> decide

/-- A pixel shader declares a sampler for cubes. -/
theorem sampler_declared_pixelCube :
    (cubeDeclaration .pixel).IsSamplerDeclaration
        (InstructionWord.ofWord 0x0200001F) 0x98000000 0xA00F0800 [0xFFFF] ∧
      (cubeDeclaration .pixel).env.toShader.declaresSamplers = true ∧
      (cubeDeclaration .pixel).before.slots = 0 ∧
      (cubeDeclaration .pixel).after.faults = (cubeDeclaration .pixel).before.faults ∧
      (cubeDeclaration .pixel).after.textureKind 0 = some .cube := by
  have supported : (cubeDeclaration .pixel).env.toShader.declaresSamplers = true := by decide
  have early : (cubeDeclaration .pixel).before.slots = 0 := by decide +kernel
  obtain ⟨haccepted, hrecorded⟩ := sampler_declared_iff (cubeDeclaration .pixel)
    (isSamplerDeclaration_cube .pixel) supported early
  refine ⟨isSamplerDeclaration_cube .pixel, supported, early,
    haccepted.mpr ⟨.cube, statesKind_cube, fun h => by cases h⟩, ?_⟩
  exact (hrecorded .cube statesKind_cube).1 fun x hx => by cases hx

theorem Scan.visit_mem_visits (env : Env) (s : Scan) (n : Nat) (w : Word) (ws : List Word) :
    visit env s n w ws ∈ visits env s n (w :: ws) := by
  rw [visits]
  split
  · exact List.mem_cons_self
  · split
    · exact List.mem_cons_self
    · exact List.mem_cons_self

/-- A vertex shader that does so is refused. -/
theorem vertexCube_refused :
    cubeDeclaration .vertex ∈ unitsOf {} [0xFFFE0300, 0x0200001F, 0x98000000, 0xA00F0800, 0xFFFF] ∧
      (cubeDeclaration .vertex).IsSamplerDeclaration
        (InstructionWord.ofWord 0x0200001F) 0x98000000 0xA00F0800 [0xFFFF] ∧
      (cubeDeclaration .vertex).env.toShader.declaresSamplers = true ∧
      (cubeDeclaration .vertex).before.slots = 0 ∧ Word.StatesKind 0x98000000 .cube ∧
      (cubeDeclaration .vertex).after.faults ≠ (cubeDeclaration .vertex).before.faults := by
  refine ⟨?_, isSamplerDeclaration_cube .vertex, by decide, by decide +kernel, statesKind_cube,
    by decide +kernel⟩
  have hversion : Env.ofWord? {} 0xFFFE0300 = some (modelThree .vertex) := by decide
  rw [unitsOf_cons {} hversion]
  exact Scan.visit_mem_visits _ _ _ _ _

end ShaderLift
