/-
How large the numbers in a state can get, whatever is wrong with the code.  A word names a register by
eleven bits.  The further constant files stand behind the first one, and the rows of a matrix reach three
registers further, so that no register has a number above 8194.  An array is a run of such registers or a
range of the symbol table, with a first register and a length of sixteen bits each (`Bounded`).

A relative source is read from an array that has its register, so the array starts no later than the
register (`Source.Placed`).  Arrays are only added, and none is moved, so this stays so.
-/
import ShaderLift.Proofs.Fixed.Preshader
import ShaderLift.Proofs.Grouping

namespace ShaderLift

variable {as : List ConstantArray} {i : Instruction} {a : Source}

/-! ### Operands -/

/-- The registers of operands are those that a word can name. -/
structure Arguments.Named (a : Arguments) : Prop where
  dest : a.dest.register.number < 8192
  sources : ∀ x ∈ a.sources, x.register.number < 8192

theorem Instruction.number_source_lt (h : i.toArguments.Named) (n : Nat) :
    (i.source n).register.number < 8192 := by
  unfold Instruction.source
  rw [List.getD_eq_getElem?_getD]
  cases hn : i.sources[n]? with
  | none => decide
  | some a => exact h.sources a (List.mem_of_getElem? hn)

theorem Instruction.number_matrixRows_le (h : i.toArguments.Named) (form : MatrixForm) :
    ∀ a ∈ i.matrixRows form.rows, a.register.number ≤ 8194 := by
  intro a ha
  obtain ⟨n, hn, rfl⟩ := List.mem_map.mp ha
  have hrows : form.rows ≤ 4 := by cases form <;> decide
  have hlt := List.mem_range.mp hn
  have hsource := number_source_lt h 1
  show (i.source 1).register.number + n ≤ 8194
  omega

namespace Scan

variable {env : Env} {s t : Scan} {r : Register} {ws : List Word}

/-! ### Registers that are used -/

/-- No register that came up has a number above 8194. -/
def Low (s : Scan) : Prop := ∀ r ∈ s.used.registers, r.number ≤ 8194

theorem Low.of_used (hs : s.Low) (h : t.used = s.used) : t.Low := by
  unfold Low
  rw [h]
  exact hs

theorem Low.markUsed (hs : s.Low) (hr : r.number ≤ 8194) (written : Bool) :
    (s.markUsed r written).Low := by
  intro x hx
  rcases (RegisterTable.mem_registers_update _ _ _ _ _).mp hx with rfl | hx
  · exact hr
  · exact hs x hx

theorem Walks.low {m : Register → Bool → Prop} {k : Nat} {us : List Word} (h : Walks m s ws k t us)
    (hs : s.Low) : t.Low := by
  induction h with
  | refl => exact hs
  | fail _ _ ih => exact ih
  | advance _ ih => exact ih.of_used (used_advance _)
  | skip _ ih => exact ih.of_used (used_advance _)
  | mark _ r written low _ ih => exact ih.markUsed (by omega) written
  | group _ _ ih => exact ih
  | useArray _ _ _ _ ih => exact ih
  | relativeInput _ ih => exact ih

theorem named_readArguments (env : Env) (shape : Shape) (s : Scan) (ws : List Word) :
    (readArguments env shape s ws).1.Named := by
  constructor
  · cases has : shape.hasDest with
    | true =>
      obtain ⟨centroidAllowed, u, us, -, hdest, -⟩ := dest_readArguments env has s ws
      exact hdest ▸ number_readDest_lt env centroidAllowed u us
    | false =>
      cases shape with
      | sources n => exact (by decide : 0 < 8192)
      | _ => cases has
  · intro a ha
    obtain ⟨u, us, -, rfl, -⟩ := source_readArguments env shape s ws a ha
    exact number_readSource_lt env u us

theorem low_readOperands (hs : s.Low) (op : Opcode) (w : InstructionWord) (ws : List Word) :
    (readOperands env op w s ws).2.2.Low ∧ (readOperands env op w s ws).1.toArguments.Named := by
  obtain ⟨_, -, _, hwalks⟩ := Walks.readOperands env op w s ws
  exact ⟨hwalks.low hs, readOperands_fst env op w s ws ▸ named_readArguments env op.info.shape s ws⟩

end Scan

/-! ### Registers, constants and arrays that are kept -/

namespace ConstantArray

variable (as : List ConstantArray) {a : ConstantArray}

/-- How many registers of some arrays the host provides. -/
def hosted : List ConstantArray → Nat
  | [] => 0
  | a :: as => (if a.isLiteral then 0 else a.count) + hosted as

theorem hosted_append (bs : List ConstantArray) : hosted (as ++ bs) = hosted as + hosted bs := by
  induction as with
  | nil => simp [hosted]
  | cons a as ih => simp only [List.cons_append, hosted, ih, Nat.add_assoc]

theorem hosted_eq_zero {as : List ConstantArray} (h : ∀ a ∈ as, a.isLiteral = true) :
    hosted as = 0 := by
  induction as with
  | nil => rfl
  | cons a as ih =>
    obtain ⟨ha, has⟩ := List.forall_mem_cons.mp h
    simp [hosted, ha, ih has]

theorem hosted_le {as : List ConstantArray} {k : Nat} (h : ∀ a ∈ as, a.count ≤ k) :
    hosted as ≤ as.length * k := by
  induction as with
  | nil => simp [hosted]
  | cons a as ih =>
    obtain ⟨ha, has⟩ := List.forall_mem_cons.mp h
    have hrest := ih has
    rw [hosted, List.length_cons, Nat.succ_mul]
    split <;> omega

theorem hosted_markUsed (place : Nat) :
    hosted (as.modify place fun a => { a with used := true }) = hosted as := by
  induction as generalizing place with
  | nil => simp [hosted]
  | cons a as ih =>
    cases place with
    | zero => rfl
    | succ place =>
      rw [List.modify_succ_cons, hosted, hosted, ih]

theorem IsRun.reach_le (h : a.IsRun) {k : Nat} (low : ∀ c ∈ a.constants, c.index ≤ k) :
    a.index + a.count ≤ k + 1 := by
  have hpos := h.nonempty
  have hlast : a.count - 1 < a.constants.length := by
    rw [← h.count]
    omega
  have hindex := h.consecutive (a.count - 1) _ (List.getElem?_eq_getElem hlast)
  have hlow := low _ (List.getElem_mem hlast)
  omega

theorem IsRun.isLiteral (h : a.IsRun) : a.isLiteral = true := by
  have hpos := h.nonempty
  rw [h.count] at hpos
  unfold ConstantArray.isLiteral
  cases hc : a.constants with
  | nil => simp [hc] at hpos
  | cons c cs => rfl

theorem mem_of_mem_ofConstants {cs : List Constant} {c : Constant} (ha : a ∈ ofConstants cs)
    (hc : c ∈ a.constants) : c ∈ cs := by
  have hmem : c ∈ (ofConstants cs).flatMap ConstantArray.constants :=
    List.mem_flatMap.mpr ⟨a, ha, hc⟩
  rw [flatMap_constants] at hmem
  have hperm := (Constant.stablySorted_inOrder (Constant.floats cs)).perm
  exact List.mem_of_mem_filter (hperm.mem_iff.mp hmem)

end ConstantArray

namespace Scan

variable {env : Env} {s t : Scan} {r : Register} {i : Instruction} {ws : List Word}

/-- How many registers the ranges of a symbol table can have together: a comment has room for 13106
symbols. -/
def rangeLimit : Nat := 13106 * 65535

/-- The numbers that are kept in a state are small. -/
structure Stored (s : Scan) : Prop where
  defined : ∀ r ∈ s.defined, r.number ≤ 8194
  attributes : ∀ r ∈ s.attributes.registers, r.number ≤ 8194
  samplers : ∀ r ∈ s.samplers.registers, r.number ≤ 8194
  constants : ∀ c ∈ s.constants, c.index ≤ 8194
  arrays : ∀ a ∈ s.arrays, a.index + a.count ≤ 131070
  /-- Arrays that the host provides are ranges of the symbol table. -/
  hosted : ConstantArray.hosted s.arrays ≤ if s.haveTable then rangeLimit else 0

namespace Stored

/-- The arrays of the constants that are defined are small, and the host provides none of them. -/
theorem group (hs : s.Stored) :
    Stored { s with
      grouped := true
      arrays := s.arrays ++ ConstantArray.ofConstants s.constants } where
  defined := hs.defined
  attributes := hs.attributes
  samplers := hs.samplers
  constants := hs.constants
  arrays := by
    intro a ha
    rcases List.mem_append.mp ha with hold | hnew
    · exact hs.arrays a hold
    · have hlow : ∀ c ∈ a.constants, c.index ≤ 8194 :=
        fun c hc => hs.constants c (ConstantArray.mem_of_mem_ofConstants hnew hc)
      exact Nat.le_trans ((ConstantArray.isRun_of_mem hnew).reach_le hlow) (by decide)
  hosted := by
    have hliteral : ConstantArray.hosted (ConstantArray.ofConstants s.constants) = 0 :=
      ConstantArray.hosted_eq_zero fun a ha => (ConstantArray.isRun_of_mem ha).isLiteral
    rw [ConstantArray.hosted_append, hliteral]
    exact hs.hosted

theorem markArrayUsed (hs : s.Stored) (place : Nat) : (s.markArrayUsed place).Stored where
  defined := hs.defined
  attributes := hs.attributes
  samplers := hs.samplers
  constants := hs.constants
  arrays := by
    intro a ha
    obtain ⟨n, hn⟩ := List.mem_iff_getElem?.mp ha
    simp only [Scan.markArrayUsed, List.getElem?_modify] at hn
    obtain ⟨b, hb, rfl⟩ := Option.map_eq_some_iff.mp hn
    have hold := hs.arrays b (List.mem_of_getElem? hb)
    split <;> exact hold
  hosted := by
    show ConstantArray.hosted (s.arrays.modify place _) ≤ _
    rw [ConstantArray.hosted_markUsed]
    exact hs.hosted

theorem fetches (hs : s.Stored) (h : Fetches s t) : t.Stored := by
  induction h with
  | refl => exact hs
  | tail _ step ih =>
    cases step with
    | group first => exact ih.group
    | useArray number place found => exact ih.markArrayUsed place
    | _ => exact { ih with }

theorem markDefined (hs : s.Stored) (hr : r.number ≤ 8194) : (s.markDefined r).Stored :=
  { hs with
    defined := List.forall_mem_append.mpr ⟨hs.defined, List.forall_mem_singleton.mpr hr⟩ }

theorem addConstant (hs : s.Stored) {c : Constant} (hc : c.index ≤ 8194) :
    (s.addConstant c).Stored :=
  { hs with
    constants := List.forall_mem_append.mpr ⟨hs.constants, List.forall_mem_singleton.mpr hc⟩ }

theorem addSampler (hs : s.Stored) (env : Env) {stage : Nat} (h : stage ≤ 8194)
    (kind : Option TextureKind) (bump : Bool) : (s.addSampler env stage kind bump).Stored :=
  { hs with
    samplers := by
      intro x hx
      rcases (RegisterTable.mem_registers_update _ _ _ _ _).mp hx with rfl | hx
      · exact h
      · exact hs.samplers x hx }

theorem setAttribute (hs : s.Stored) (hr : r.number ≤ 8194) (a : Attribute) :
    (s.setAttribute r a).Stored :=
  { hs with
    attributes := by
      intro x hx
      rcases (RegisterTable.mem_registers_update _ _ _ _ _).mp hx with rfl | hx
      · exact hr
      · exact hs.attributes x hx }

theorem declareTexture (hs : s.Stored) {number : Nat} (h : number ≤ 8194) :
    (s.declareTexture number).Stored :=
  hs.setAttribute h _

end Stored

structure Bounded (s : Scan) : Prop extends Stored s where
  used : s.Low

namespace Bounded

variable {payload : List Word} {symbols : List Symbol}

/-- Reading operands keeps numbers small if the registers it comes upon have low numbers. -/
theorem fetches (hs : s.Bounded) (h : Fetches s t) (ht : t.Low) : t.Bounded :=
  ⟨hs.toStored.fetches h, ht⟩

theorem failAll (hs : s.Bounded) (fs : List Fault) : (s.failAll fs).Bounded :=
  hs.fetches (.failAll .refl fs) (hs.used.of_used (used_failAll s fs))

theorem failIf (hs : s.Bounded) (b : Bool) (f : Fault) : (s.failIf b f).Bounded :=
  hs.fetches (.failIf .refl b f) (hs.used.of_used (used_failIf s b f))

theorem fail (hs : s.Bounded) (f : Fault) : (s.fail f).Bounded :=
  hs.fetches (.fail .refl f) hs.used

theorem moveTo (hs : s.Bounded) (p : Position) : (s.moveTo p).Bounded :=
  hs.fetches (.single (.moveTo s p)) hs.used

/-! ### The consequences of an instruction -/

theorem markUsed (hs : s.Bounded) (hr : r.number ≤ 8194) (written : Bool) :
    (s.markUsed r written).Bounded :=
  hs.fetches (.markUsed .refl r written) (hs.used.markUsed hr written)

theorem useRows (hs : s.Bounded) (h : i.toArguments.Named) (form : MatrixForm) :
    (s.useRows i form).Bounded := by
  have hrows : ∀ a ∈ (i.matrixRows form.rows).drop 1, a.register.number ≤ 8194 :=
    fun a ha => Instruction.number_matrixRows_le h form a (List.mem_of_mem_drop ha)
  unfold Scan.useRows
  generalize (i.matrixRows form.rows).drop 1 = rows at hrows
  induction rows generalizing s with
  | nil => exact hs
  | cons row rows ih =>
    obtain ⟨hrow, hrest⟩ := List.forall_mem_cons.mp hrows
    exact ih (hs.markUsed hrow false) hrest

theorem account (hs : s.Bounded) (h : i.toArguments.Named) (env : Env) :
    (Scan.account env s i).Bounded := by
  have hdest : i.dest.register.number ≤ 8194 := Nat.le_trans (Nat.le_of_lt h.dest) (by decide)
  have hsource : (i.source 0).register.number ≤ 8194 :=
    Nat.le_trans (Nat.le_of_lt (Instruction.number_source_lt h 0)) (by decide)
  have htextures : (s.declareTextures i).Stored :=
    (hs.toStored.declareTexture hdest).declareTexture hsource
  have hdoes := Consequence.of_account env s i
  generalize Scan.account env s i = t at hdoes ⊢
  cases hdoes with
  | nothing => exact hs
  | define => exact ⟨(hs.toStored.addConstant hdest).markDefined hdest, hs.used⟩
  | label => exact ⟨hs.toStored.markDefined hsource, hs.used⟩
  | late => exact ⟨hs.toStored.markDefined hdest, hs.used⟩
  | sampler => exact ⟨(hs.toStored.addSampler env hdest _ _).markDefined hdest, hs.used⟩
  | meaning => exact ⟨(hs.toStored.setAttribute hdest _).markDefined hdest, hs.used⟩
  | rows form => exact useRows_frame s i form ▸ hs.useRows h form
  | call =>
    refine ⟨{ hs.toStored with }, fun x hx => ?_⟩
    rcases (RegisterTable.mem_registers_update _ _ _ _ _).mp hx with rfl | hx
    · exact hsource
    · exact hs.used x hx
  | blocks | charge | compare => exact ⟨{ hs.toStored with }, hs.used⟩
  | plane => exact ⟨hs.toStored.addSampler env hdest _ _, hs.used⟩
  | lookup =>
    exact ⟨((hs.toStored.addSampler env hdest _ _).declareTexture hdest).declareTexture hsource, hs.used⟩
  | textures => exact ⟨htextures, hs.used⟩
  | pad2 | pad3 => exact ⟨{ htextures with }, hs.used⟩

theorem emit (hs : s.Bounded) (e : Glsl.Emission Unit) : (s.emit e).Bounded :=
  ⟨{ (hs.failAll e.faults).toStored with }, (hs.failAll e.faults).used⟩

theorem close (hs : s.Bounded) (env : Env) : (s.close env).Bounded := by
  apply emit
  unfold markColor
  split
  · exact hs.markUsed (Nat.zero_le _) true
  · exact hs

theorem generate (hs : s.Bounded) (env : Env) (i : Instruction) : (s.generate env i).Bounded := by
  unfold Scan.generate
  split
  · exact hs
  · split
    · exact hs.close env
    · exact hs.emit _

theorem execute (hs : s.Bounded) (h : i.toArguments.Named) (env : Env) :
    (Scan.execute env s i).Bounded := by
  have hjudged : (judge env s i).Bounded := (hs.failAll _).account h env
  have hcharged : ((judge env s i).charge i.opcode.info.slots).Bounded :=
    ⟨{ hjudged.toStored with }, hjudged.used⟩
  exact ⟨{ (hcharged.generate env i).toStored with }, (hcharged.generate env i).used⟩

/-! ### Units -/

theorem readOperands (hs : s.Bounded) (op : Opcode) (w : InstructionWord) (ws : List Word) :
    (Scan.readOperands env op w (operandState env s op w) ws).2.2.Bounded ∧
      (Scan.readOperands env op w (operandState env s op w) ws).1.toArguments.Named := by
  have hlow : (operandState env s op w).Low := hs.used.of_used (by simp [operandState])
  obtain ⟨hread, hnamed⟩ := @low_readOperands env _ hlow op w ws
  exact ⟨hs.fetches ((fetches_operandState env s op w).readOperands env op w ws) hread, hnamed⟩

theorem rangeArrays_lt (hsymbols : (Symbol.table payload env.versionWord).value = some symbols) :
    ∀ a ∈ rangeArrays symbols, a.index < 65536 ∧ a.count < 65536 := by
  intro a ha
  obtain ⟨range, hrange, rfl⟩ := List.mem_map.mp ha
  obtain ⟨symbol, hsymbol, hstated⟩ := List.mem_filterMap.mp hrange
  obtain ⟨kind, -, rfl⟩ := Option.map_eq_some_iff.mp hstated
  exact (Fixed.bounds_of_table hsymbols).2 symbol hsymbol

theorem hosted_rangeArrays_le (short : payload.length ≤ 65534)
    (hsymbols : (Symbol.table payload env.versionWord).value = some symbols) :
    ConstantArray.hosted (rangeArrays symbols) ≤ rangeLimit := by
  have hroom := (Fixed.bounds_of_table hsymbols).1
  have hcount : ∀ a ∈ rangeArrays symbols, a.count ≤ 65535 :=
    fun a ha => Nat.le_of_lt_succ (rangeArrays_lt hsymbols a ha).2
  have hlength : (rangeArrays symbols).length ≤ symbols.length := by
    unfold rangeArrays
    rw [List.length_map]
    exact List.length_filterMap_le _ _
  calc ConstantArray.hosted (rangeArrays symbols)
    _ ≤ (rangeArrays symbols).length * 65535 := ConstantArray.hosted_le hcount
    _ ≤ 13106 * 65535 := Nat.mul_le_mul_right _ (by omega)

/-- Before the symbol table the host provides no array, so its ranges are all there are after it. -/
theorem addRanges (hs : s.Bounded) (first : s.haveTable = false) (symbols : List Symbol)
    {as : List ConstantArray} (hsmall : ∀ a ∈ as, a.index < 65536 ∧ a.count < 65536)
    (hhosted : ConstantArray.hosted as ≤ rangeLimit) :
    Bounded { s with haveTable := true, symbols := symbols, arrays := s.arrays ++ as } := by
  have hnone : ConstantArray.hosted s.arrays ≤ 0 := by
    have hbefore := hs.hosted
    rwa [first] at hbefore
  refine ⟨{ hs with arrays := ?_, hosted := ?_ }, hs.used⟩
  · intro a ha
    rcases List.mem_append.mp ha with hold | hfresh
    · exact hs.arrays a hold
    · have hrange := hsmall a hfresh
      omega
  · rw [if_pos rfl, ConstantArray.hosted_append, Nat.le_zero.mp hnone, Nat.zero_add]
    exact hhosted

theorem commentLength?_of_ofWord {w : Word} {length : Nat}
    (h : UnitHead.ofWord w = .comment length) : Word.commentLength? w = some length := by
  unfold UnitHead.ofWord at h
  cases hw : Word.commentLength? w with
  | some n =>
    rw [hw] at h
    rw [UnitHead.comment.inj h]
  | none =>
    rw [hw] at h
    dsimp only at h
    split at h
    · cases h
    · split at h
      · cases h
      · split at h <;> cases h

theorem effect {head : UnitHead} (hs : s.Bounded) (he : Effect env s ws head t)
    (short : ∀ length, head = .comment length → length ≤ 65535) : t.Bounded := by
  cases he with
  | faults fs => exact hs.failAll fs
  | preshader fs p => exact ⟨{ (hs.failAll fs).toStored with }, (hs.failAll fs).used⟩
  | table fs first =>
    have hsmall : ∀ a ∈ ([] : List ConstantArray), a.index < 65536 ∧ a.count < 65536 :=
      fun a ha => absurd ha List.not_mem_nil
    have hnothing := hs.addRanges first s.symbols hsmall (Nat.zero_le _)
    rw [List.append_nil] at hnothing
    rw [failAll_eq]
    exact ⟨{ hnothing.toStored with }, hnothing.used⟩
  | symbols fs symbols first shorter read =>
    have hlength := short _ rfl
    exact (hs.failAll fs).addRanges (by rw [failAll_eq]; exact first) symbols (rangeArrays_lt read)
      (hosted_rangeArrays_le (by omega) read)
  | close fs => exact (hs.failAll fs).close env
  | @execute op w known =>
    obtain ⟨hread, hnamed⟩ := @readOperands env s hs op w ws
    exact (execute (hread.moveTo _) hnamed env).failAll _

theorem readUnit (hs : s.Bounded) (w : Word) (ws : List Word) :
    (Scan.readUnit env s w ws).1.Bounded := by
  have hnoted : (s.noteEnd w).Bounded := by
    unfold noteEnd
    split
    · exact ⟨{ hs.toStored with }, hs.used⟩
    · exact hs
  refine hnoted.effect (effect_readUnit env s w ws) fun length hw => ?_
  exact Nat.le_of_lt_succ (Fixed.commentLength?_lt (commentLength?_of_ofWord hw))

/-- **All numbers of a state are small before and after every unit of a run, and at its end.** -/
theorem run {n : Nat} {vs : List Visit} (r : Run env s n ws vs t) (hs : s.Bounded) :
    (∀ v ∈ vs, v.before.Bounded ∧ v.after.Bounded) ∧ t.Bounded := by
  have hstart : ∀ (s : Scan) p, s.Bounded → (s.startUnit p).Bounded :=
    fun s p h => ⟨{ h.toStored with }, h.used⟩
  have hstep : ∀ v : Visit, v.env = env → v.before.failing = false → True → v.before.Bounded →
      v.after.Bounded := fun v _ _ _ h => h.readUnit v.word v.rest
  exact ⟨r.throughout hstart hstep (fun _ _ => trivial) hs,
    r.preserves hstart (fun s h => ⟨{ (h.fail .truncated).toStored with }, h.used⟩) hstep
      (fun _ _ => trivial) hs⟩

theorem start (env : Env) : (Scan.start env).Bounded := by
  have hempty : Bounded { position := .before } := by
    refine ⟨⟨?_, ?_, ?_, ?_, ?_, Nat.zero_le _⟩, ?_⟩ <;> exact fun x hx => absurd hx List.not_mem_nil
  exact hempty.failIf _ _

theorem ofUnits (env : Env) (ws : List Word) : (Scan.ofUnits env ws).Bounded := by
  have hread := (run (run_readUnits env _ 1 ws) (start env)).2
  exact ((hread.moveTo .after).failIf _ _).failIf _ _

end Bounded

end Scan

/-! ### The arrays of relative sources -/

/-- The sources that the code of an instruction reads: those it has, and the rows of its matrix. -/
def Instruction.reads (i : Instruction) : List Source :=
  i.sources ++ i.opcode.matrixForm?.elim [] fun form => i.matrixRows form.rows

/-- If a source is read from an array, there is such an array, and it starts no later than the register
of the source. -/
def Source.Placed (arrays : List ConstantArray) (a : Source) : Prop :=
  ∀ place, a.arrayPlace? = some place →
    ∃ array, arrays[place]? = some array ∧ array.index ≤ a.register.number

namespace ConstantArray

variable {as bs cs : List ConstantArray}

/-- The arrays of `as` are in the same places in `bs`, with the same first registers. -/
def Stay (as bs : List ConstantArray) : Prop :=
  ∀ (place : Nat) (a : ConstantArray), as[place]? = some a →
    ∃ b, bs[place]? = some b ∧ b.index = a.index

theorem Stay.refl (as : List ConstantArray) : Stay as as := fun _ a ha => ⟨a, ha, rfl⟩

theorem Stay.trans (h : Stay as bs) (h' : Stay bs cs) : Stay as cs := by
  intro place a ha
  obtain ⟨b, hb, hab⟩ := h place a ha
  obtain ⟨c, hc, hbc⟩ := h' place b hb
  exact ⟨c, hc, hbc.trans hab⟩

theorem stay_append (as bs : List ConstantArray) : Stay as (as ++ bs) := by
  intro place a ha
  obtain ⟨hlt, -⟩ := List.getElem?_eq_some_iff.mp ha
  exact ⟨a, by rw [List.getElem?_append_left hlt]; exact ha, rfl⟩

theorem stay_markUsed (as : List ConstantArray) (n : Nat) :
    Stay as (as.modify n fun a => { a with used := true }) := by
  intro place a ha
  refine ⟨if n = place then { a with used := true } else a, ?_, ?_⟩
  · rw [List.getElem?_modify, ha]
    rfl
  · split <;> rfl

end ConstantArray

theorem Source.Placed.mono {bs : List ConstantArray} (h : a.Placed as)
    (hstay : ConstantArray.Stay as bs) : a.Placed bs := by
  intro place hplace
  obtain ⟨array, harray, hle⟩ := h place hplace
  obtain ⟨array', harray', hindex⟩ := hstay place array harray
  exact ⟨array', harray', hindex ▸ hle⟩

theorem Source.Placed.shift (h : a.Placed as) (n : Nat) : (a.shift n).Placed as := by
  intro place hplace
  obtain ⟨array, harray, hle⟩ := h place hplace
  exact ⟨array, harray, Nat.le_trans hle (Nat.le_add_right _ n)⟩

theorem Source.placed_of_unplaced (h : a.arrayPlace? = none) (as : List ConstantArray) :
    a.Placed as := by
  intro place hplace
  rw [h] at hplace
  cases hplace

namespace Scan

variable {env : Env} {s t : Scan} {r : Register} {i : Instruction} {ws : List Word}
variable {arrays : List ConstantArray}

theorem Fetches.stay (h : Fetches s t) : ConstantArray.Stay s.arrays t.arrays := by
  induction h with
  | refl => exact .refl _
  | tail _ step ih =>
    cases step with
    | group first => exact ih.trans (ConstantArray.stay_append _ _)
    | useArray number place found => exact ih.trans (ConstantArray.stay_markUsed _ place)
    | _ => exact ih

theorem placed_resolveRelative {index : RelativeIndex} (hindex : index.array = none) {place : Nat}
    (h : (resolveRelative env r index s).1.array = some place) :
    ∃ array, (resolveRelative env r index s).2.arrays[place]? = some array ∧
      array.index ≤ r.number := by
  have hnone : index.array ≠ some place := by simp [hindex]
  unfold resolveRelative at h ⊢
  split at h
  · exact absurd h hnone
  · split at h
    next htable =>
      dsimp only at h ⊢
      rw [if_pos htable]
      split at h
      next found hfound =>
        obtain rfl : found = place := Option.some.inj h
        obtain ⟨array, harray, hcontains⟩ := ConstantArray.getElem?_of_newest? hfound
        -- to be read does not change where an array starts
        obtain ⟨marked, hmarked, hstart⟩ := ConstantArray.stay_markUsed _ found found array harray
        rw [Bool.and_eq_true, ConstantArray.contains, Bool.and_eq_true, decide_eq_true_iff,
          decide_eq_true_iff] at hcontains
        exact ⟨marked, hmarked, hstart ▸ hcontains.2.1⟩
      next => exact absurd h hnone
    next => exact absurd h hnone
  · exact absurd h hnone

theorem placed_readRelative {place : Nat} (h : (readRelative env r s ws).1.array = some place) :
    ∃ array, (readRelative env r s ws).2.2.arrays[place]? = some array ∧ array.index ≤ r.number :=
  placed_resolveRelative (inventory_readIndex env _ ws).1 h

theorem placed_readSource (env : Env) (s : Scan) (ws : List Word) :
    (readSource env s ws).1.Placed (readSource env s ws).2.2.arrays := by
  cases ws with
  | nil => exact Source.placed_of_unplaced rfl _
  | cons w ws =>
    intro place hplace
    obtain ⟨index, hindex, hfound⟩ := Option.bind_eq_some_iff.mp hplace
    obtain ⟨s', ws', rfl, hafter⟩ := relative_readSource hindex
    obtain ⟨array, harray, hle⟩ := placed_readRelative hfound
    obtain ⟨array', harray', hstart⟩ := hafter.stay place array harray
    exact ⟨array', harray', hstart ▸ hle⟩

theorem placed_readOperands (env : Env) (op : Opcode) (w : InstructionWord) (s : Scan)
    (ws : List Word) : ∀ a ∈ (readOperands env op w s ws).1.sources,
      a.Placed (readOperands env op w s ws).2.2.arrays := by
  intro a ha
  rw [readOperands_fst] at ha
  obtain ⟨u, us, -, rfl, hafter⟩ := source_readArguments env op.info.shape s ws a ha
  exact ((placed_readSource env u us).mono hafter.stay).mono (fetches_readOperands env op w s ws).stay

theorem placed_source (h : ∀ a ∈ i.sources, a.Placed arrays) (n : Nat) :
    (i.source n).Placed arrays := by
  unfold Instruction.source
  rw [List.getD_eq_getElem?_getD]
  cases hn : i.sources[n]? with
  | none => exact Source.placed_of_unplaced rfl _
  | some a => exact h a (List.mem_of_getElem? hn)

/-- Whatever the code of an instruction reads is in its place if the sources are. -/
theorem placed_reads (h : ∀ a ∈ i.sources, a.Placed arrays) : ∀ a ∈ i.reads, a.Placed arrays := by
  intro a ha
  rcases List.mem_append.mp ha with hsource | hrow
  · exact h a hsource
  · cases hform : i.opcode.matrixForm? with
    | none =>
      rw [hform] at hrow
      exact absurd hrow List.not_mem_nil
    | some form =>
      rw [hform] at hrow
      obtain ⟨n, -, rfl⟩ := List.mem_map.mp hrow
      exact (placed_source h 1).shift n

end Scan

end ShaderLift
