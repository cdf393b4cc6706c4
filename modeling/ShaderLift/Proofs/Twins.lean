/-
Two readings that differ by a comment.  What a comment can leave behind is a symbol table with its arrays
or a preshader; apart from that it only moves everything behind it to other positions.  These things are
the `Margin` of a state, and next to nothing that reading does looks at the margin (`IgnoresMargin`).

So a state and the same state with a `Remark` added are twins: as long as nothing is wrong with the one,
each unit does the same to both and writes the same code.  Only a relative read of a constant looks at the
arrays, but it is a fault without a symbol table, and a second symbol table is a fault as well: so where
the twin has a table that the other one lacks, there is no such read.
-/
import ShaderLift.Proofs.Inventory

namespace ShaderLift

/-! ### Margins -/

/-- What comments leave behind, and what depends on positions. -/
structure Margin where
  position : Position
  faults : List LocatedFault
  haveTable : Bool
  symbols : List Symbol
  arrays : List ConstantArray
  preshader : Option Preshader

namespace Scan

def margin (s : Scan) : Margin :=
  ⟨s.position, s.faults, s.haveTable, s.symbols, s.arrays, s.preshader⟩

def withMargin (s : Scan) (m : Margin) : Scan :=
  { s with
    position := m.position
    faults := m.faults
    haveTable := m.haveTable
    symbols := m.symbols
    arrays := m.arrays
    preshader := m.preshader }

/-- What is done does not depend on the margin and does not change it. -/
def IgnoresMargin (f : Scan → Scan) : Prop :=
  ∀ s m, f (s.withMargin m) = (f s).withMargin m

namespace IgnoresMargin

variable {f g : Scan → Scan}

theorem id : IgnoresMargin fun s => s := fun _ _ => rfl

theorem comp (hg : IgnoresMargin g) (hf : IgnoresMargin f) : IgnoresMargin fun s => g (f s) := by
  intro s m
  show g (f (s.withMargin m)) = _
  rw [hf s m, hg (f s) m]

theorem margin_eq (h : IgnoresMargin f) (s : Scan) : (f s).margin = s.margin := by
  have hself : f s = (f s).withMargin s.margin := h s s.margin
  rw [hself]
  rfl

end IgnoresMargin

end Scan

/-! ### Remarks -/

inductive Remark where
  | nothing
  | preshader (value : Option Preshader)
  | table (symbols : List Symbol)

namespace Remark

def id? : Remark → Option Word
  | .nothing => none
  | .preshader _ => some Word.preshaderId
  | .table _ => some Word.symbolTableId

/-- The margin `m` has what `k` has and the remark. -/
def Adds (x : Remark) (k m : Margin) : Prop :=
  match x with
  | .nothing => m.haveTable = k.haveTable ∧ m.symbols = k.symbols ∧ m.arrays = k.arrays ∧
      m.preshader = k.preshader
  | .preshader value => m.haveTable = k.haveTable ∧ m.symbols = k.symbols ∧ m.arrays = k.arrays ∧
      m.preshader = value
  | .table symbols => k.haveTable = false ∧ m.haveTable = true ∧ m.symbols = symbols ∧
      m.arrays = k.arrays ++ Scan.rangeArrays symbols ∧ m.preshader = k.preshader

end Remark

namespace Scan

variable {sh : Shader}

/-- The state `t` is the state `s` with a remark, at some position.  Nothing is wrong with it if nothing is
wrong with `s`. -/
structure Twin (x : Remark) (s t : Scan) : Prop where
  eq : ∃ m, t = s.withMargin m
  faults : s.faults = [] → t.faults = []
  adds : x.Adds s.margin t.margin

namespace Twin

variable {x : Remark} {s t : Scan} {env : Env}
variable {ws : List Word}

theorem map {f : Scan → Scan} (h : Twin x s t) (hf : IgnoresMargin f) : Twin x (f s) (f t) := by
  obtain ⟨⟨m, rfl⟩, hfaults, hadds⟩ := h
  have hs := hf.margin_eq s
  have ht := hf.margin_eq (s.withMargin m)
  refine ⟨⟨m, hf s m⟩, ?_, ?_⟩
  · rw [show (f (s.withMargin m)).faults = _ from congrArg Margin.faults ht,
      show (f s).faults = _ from congrArg Margin.faults hs]
    exact hfaults
  · rw [hs, ht]
    exact hadds

theorem failing_eq (h : Twin x s t) : t.failing = s.failing := by
  obtain ⟨⟨m, rfl⟩, -, -⟩ := h
  rfl

/-! ### Faults and positions -/

theorem failAll (h : Twin x s t) (fs : List Fault) : Twin x (s.failAll fs) (t.failAll fs) := by
  obtain ⟨⟨m, rfl⟩, hfaults, hadds⟩ := h
  rw [failAll_eq, failAll_eq]
  refine ⟨⟨{ m with faults := m.faults ++ fs.map fun f => ⟨m.position, f⟩ }, rfl⟩, ?_, hadds⟩
  show s.faults ++ _ = [] → m.faults ++ _ = []
  simp only [List.append_eq_nil_iff, List.map_eq_nil_iff]
  exact And.imp_left hfaults

theorem fail (h : Twin x s t) (f : Fault) : Twin x (s.fail f) (t.fail f) := h.failAll [f]

theorem failIf (h : Twin x s t) (b : Bool) (f : Fault) : Twin x (s.failIf b f) (t.failIf b f) := by
  cases b with
  | false => exact h
  | true => exact h.fail f

theorem moveTo (h : Twin x s t) (p q : Position) : Twin x (s.moveTo p) (t.moveTo q) := by
  obtain ⟨⟨m, rfl⟩, hfaults, hadds⟩ := h
  exact ⟨⟨{ m with position := q }, rfl⟩, hfaults, hadds⟩

theorem startUnit (h : Twin x s t) (p q : Position) : Twin x (s.startUnit p) (t.startUnit q) := by
  obtain ⟨⟨m, rfl⟩, hfaults, hadds⟩ := h
  exact ⟨⟨{ m with position := q }, rfl⟩, hfaults, hadds⟩

theorem advance (h : Twin x s t) : Twin x s.advance t.advance := by
  have hmove : ∀ u : Scan, ∃ p, u.advance = u.moveTo p := by
    intro u
    unfold Scan.advance
    split <;> exact ⟨_, rfl⟩
  obtain ⟨p, hs⟩ := hmove s
  obtain ⟨q, ht⟩ := hmove t
  rw [hs, ht]
  exact h.moveTo p q

/-! ### Operands -/

theorem markUsed (h : Twin x s t) (r : Register) (written : Bool) :
    Twin x (s.markUsed r written) (t.markUsed r written) :=
  h.map (f := fun s => s.markUsed r written) fun _ _ => rfl

/-- A destination without a fault is not relative, so nobody asks for the symbol table. -/
theorem checkDest {centroidAllowed : Bool} {d : DestWord} (h : Twin x s t)
    (flag : (checkDest env centroidAllowed d s).failing = false) :
    Twin x (Scan.checkDest env centroidAllowed d s) (Scan.checkDest env centroidAllowed d t) := by
  unfold Scan.checkDest at flag ⊢
  dsimp only at flag ⊢
  cases hrelative : d.relative with
  | true => simp [hrelative, Scan.fail] at flag
  | false =>
    rw [if_neg Bool.false_ne_true, if_neg Bool.false_ne_true]
    repeat apply Twin.failIf
    exact h

/-- Two readings of an operand agree: they give the same, leave the same words and end in twins. -/
def Reads {α : Type} (x : Remark) (a b : α × List Word × Scan) : Prop :=
  b.1 = a.1 ∧ b.2.1 = a.2.1 ∧ Twin x a.2.2 b.2.2

theorem Reads.bind {α β γ : Type} {a b : α × List Word × Scan}
    {g : Scan → List Word → β × List Word × Scan} (c : α → β → γ) (h : Reads x a b)
    (next : ∀ {u : Scan}, Twin x a.2.2 u → Reads x (g a.2.2 a.2.1) (g u a.2.1)) :
    Reads x (c a.1 (g a.2.2 a.2.1).1, (g a.2.2 a.2.1).2)
      (c b.1 (g b.2.2 b.2.1).1, (g b.2.2 b.2.1).2) := by
  obtain ⟨hvalue, hrest, htwin⟩ := h
  obtain ⟨hvalue', hrest', htwin'⟩ := next htwin
  rw [hvalue, hrest]
  exact ⟨congrArg (c a.1) hvalue', hrest', htwin'⟩

theorem readDest {centroidAllowed : Bool} (h : Twin x s t)
    (flag : (readDest env centroidAllowed s ws).2.2.failing = false) :
    Reads x (Scan.readDest env centroidAllowed s ws) (Scan.readDest env centroidAllowed t ws) := by
  cases ws with
  | nil => exact ⟨rfl, rfl, h.fail _⟩
  | cons w ws =>
    have hdest : destOfWord env t (DestWord.ofWord w) = destOfWord env s (DestWord.ofWord w) := by
      obtain ⟨⟨m, rfl⟩, -, -⟩ := h
      rfl
    simp only [Scan.readDest] at flag ⊢
    have hchecked : (Scan.checkDest env centroidAllowed (DestWord.ofWord w) s.advance).failing = false := by
      split at flag <;> exact flag
    have hcheck := h.advance.checkDest hchecked
    refine ⟨hdest, rfl, ?_⟩
    rw [hcheck.failing_eq, hdest]
    dsimp only
    split
    · exact hcheck
    · exact hcheck.markUsed _ _

theorem checkRelative (h : Twin x s t) (r : RelativeWord) :
    Twin x (Scan.checkRelative r s) (Scan.checkRelative r t) := by
  unfold Scan.checkRelative
  dsimp only
  repeat apply Twin.failIf
  exact h

theorem readIndex (h : Twin x s t) (ws : List Word) :
    Reads x (Scan.readIndex env s ws) (Scan.readIndex env t ws) := by
  cases ws with
  | nil => exact ⟨rfl, rfl, h⟩
  | cons w ws =>
    simp only [Scan.readIndex]
    split
    · exact ⟨rfl, rfl, h.advance.checkRelative _⟩
    · exact ⟨rfl, rfl, h⟩

theorem arrays_eq (h : Twin x s t) (table : s.haveTable = true) :
    t.haveTable = true ∧ t.arrays = s.arrays := by
  have hadds := h.adds
  cases x with
  | nothing | preshader => exact ⟨hadds.1.trans table, hadds.2.2.1⟩
  | table symbols => exact absurd (table.symm.trans hadds.1) (by simp)

theorem setArrays (h : Twin x s t) (table : s.haveTable = true) (arrays : List ConstantArray) :
    Twin x { s with arrays := arrays } { t with arrays := arrays } := by
  obtain ⟨⟨m, rfl⟩, hfaults, hadds⟩ := h
  refine ⟨⟨{ m with arrays := arrays }, rfl⟩, hfaults, ?_⟩
  cases x with
  | nothing | preshader => exact ⟨hadds.1, hadds.2.1, rfl, hadds.2.2.2⟩
  | table symbols => exact absurd (table.symm.trans hadds.1) (by simp)

theorem groupConstants (h : Twin x s t) (table : s.haveTable = true) :
    Twin x s.groupConstants t.groupConstants := by
  have hsame : t.grouped = s.grouped ∧ t.constants = s.constants := by
    obtain ⟨⟨m, rfl⟩, -, -⟩ := h
    exact ⟨rfl, rfl⟩
  have harrays : t.arrays ++ ConstantArray.ofConstants t.constants =
      s.arrays ++ ConstantArray.ofConstants s.constants := by
    rw [(h.arrays_eq table).2, hsame.2]
  unfold Scan.groupConstants
  rw [hsame.1, harrays]
  split
  · exact h
  · have hset := h.setArrays table (s.arrays ++ ConstantArray.ofConstants s.constants)
    exact hset.map (f := fun s => { s with grouped := true }) fun _ _ => rfl

theorem markArrayUsed (h : Twin x s t) (table : s.haveTable = true) (place : Nat) :
    Twin x (s.markArrayUsed place) (t.markArrayUsed place) := by
  unfold Scan.markArrayUsed
  rw [(h.arrays_eq table).2]
  exact h.setArrays table _

theorem haveTable_groupConstants (s : Scan) : s.groupConstants.haveTable = s.haveTable := by
  unfold Scan.groupConstants
  split <;> rfl

theorem resolveRelative {r : Register} {index : RelativeIndex} (h : Twin x s t)
    (flag : (resolveRelative env r index s).2.failing = false) :
    (Scan.resolveRelative env r index t).1 = (Scan.resolveRelative env r index s).1 ∧
      Twin x (Scan.resolveRelative env r index s).2 (Scan.resolveRelative env r index t).2 := by
  unfold Scan.resolveRelative at flag ⊢
  cases hfile : r.file with
  | input =>
    exact ⟨rfl, (h.failIf _ _).map (f := fun s => { s with relativeInput := true }) fun _ _ => rfl⟩
  | const =>
    rw [hfile] at flag
    dsimp only at flag ⊢
    cases htable : s.haveTable with
    | false => simp [htable, Scan.fail] at flag
    | true =>
      have hgroup := h.groupConstants htable
      have htable' := (haveTable_groupConstants s).trans htable
      have hfound : t.groupConstants.floatArray? r.number = s.groupConstants.floatArray? r.number := by
        rw [floatArray?, (hgroup.arrays_eq htable').2]
        rfl
      rw [(h.arrays_eq htable).1, if_pos rfl, if_pos rfl, hfound]
      cases s.groupConstants.floatArray? r.number with
      | none => exact ⟨rfl, hgroup.fail _⟩
      | some place => exact ⟨rfl, (hgroup.markArrayUsed htable' place).markUsed _ _⟩
  | _ => exact ⟨rfl, h⟩

theorem readRelative {r : Register} (h : Twin x s t)
    (flag : (readRelative env r s ws).2.2.failing = false) :
    Reads x (Scan.readRelative env r s ws) (Scan.readRelative env r t ws) := by
  have hlimited := h.failIf (env.isPixel && !env.atLeast 3 0) .relativePixel
  have hread : Reads x (Scan.readIndex env (s.failIf _ _) ws) (Scan.readIndex env (t.failIf _ _) ws) :=
    hlimited.readIndex ws
  obtain ⟨hindex, hrest, htwin⟩ := hread
  unfold Scan.readRelative at flag ⊢
  dsimp only at flag ⊢
  obtain ⟨hresolved, hlast⟩ := htwin.resolveRelative flag
  rw [hindex]
  exact ⟨hresolved, hrest, hlast⟩

theorem checkModifier (h : Twin x s t) (r : Register) (m : Option SourceModifier) :
    Twin x (Scan.checkModifier env r m s) (Scan.checkModifier env r m t) := by
  unfold Scan.checkModifier
  split
  · exact h.fail _
  all_goals exact h.failIf _ _

theorem markRead (h : Twin x s t) (r : Register) : Twin x (s.markRead r) (t.markRead r) := by
  have hused := h.markUsed r false
  have hwritten : (t.markUsed r false).wasWritten r = (s.markUsed r false).wasWritten r := by
    obtain ⟨⟨m, rfl⟩, -, -⟩ := h
    rfl
  unfold Scan.markRead
  rw [h.failing_eq]
  dsimp only
  rw [hwritten]
  split
  · exact h
  · exact hused.failIf _ _

theorem readSource (h : Twin x s t) (flag : (readSource env s ws).2.2.failing = false) :
    Reads x (Scan.readSource env s ws) (Scan.readSource env t ws) := by
  cases ws with
  | nil => exact ⟨rfl, rfl, h.fail _⟩
  | cons w ws =>
    have hswizzle : ∀ r swizzle, adjustSwizzle env t r swizzle = adjustSwizzle env s r swizzle := by
      obtain ⟨⟨m, rfl⟩, -, -⟩ := h
      exact fun _ _ => rfl
    simp only [Scan.readSource, hswizzle] at flag ⊢
    have hchecked := (((h.advance.failIf ((SourceWord.ofWord w).reservedLow != 0) .sourceReservedLow).failIf
      (!(SourceWord.ofWord w).marked) .sourceUnmarked).failIf
      (RegisterFile.ofCode? (SourceWord.ofWord w).fileCode).isNone .fileRange).failIf
      ((SourceWord.ofWord w).relative && ws.isEmpty) .relativeMissing
    split
    next hrelative =>
      rw [if_pos hrelative] at flag
      dsimp only at flag ⊢
      -- after the index only the modifier and the read itself are looked at
      have hindex := ((Fetches.checkModifier .refl env _ _).markRead _).records.flag flag
      obtain ⟨hvalue, hrest, htwin⟩ := hchecked.readRelative hindex
      refine ⟨?_, hrest, (htwin.checkModifier _ _).markRead _⟩
      dsimp only
      rw [hvalue]
    next => exact ⟨rfl, rfl, (hchecked.checkModifier _ _).markRead _⟩

theorem readSources {n : Nat} (h : Twin x s t) (flag : (readSources env s n ws).2.2.failing = false) :
    Reads x (Scan.readSources env s n ws) (Scan.readSources env t n ws) := by
  induction n generalizing s t ws with
  | zero => exact ⟨rfl, rfl, h⟩
  | succ n ih =>
    have hfirst : (Scan.readSource env s ws).2.2.failing = false :=
      (Fetches.readSources .refl env n _).records.flag flag
    exact (h.readSource hfirst).bind List.cons (g := fun s ws => Scan.readSources env s n ws)
      fun htwin => ih htwin flag

theorem readPredicate (h : Twin x s t) (flag : (readPredicate env s ws).failing = false) :
    Twin x (Scan.readPredicate env s ws) (Scan.readPredicate env t ws) := by
  have hsource := (fetches_readPredicate env _ ws).records.flag flag
  unfold Scan.readPredicate
  dsimp only
  obtain ⟨hvalue, -, htwin⟩ := h.readSource hsource
  rw [hvalue]
  split
  · exact htwin
  · repeat apply Twin.failIf
    exact htwin

theorem readDestSources {n : Nat} (h : Twin x s t)
    (flag : (readDestSources env s n ws).2.2.failing = false) :
    Reads x (Scan.readDestSources env s n ws) (Scan.readDestSources env t n ws) := by
  have hdest : (Scan.readDest env false s ws).2.2.failing = false :=
    (Fetches.readSources .refl env n _).records.flag flag
  exact (h.readDest hdest).bind (fun dest sources => ({ dest, sources } : Arguments))
    (g := fun s ws => Scan.readSources env s n ws) fun htwin => htwin.readSources flag

theorem readDefinition {kind : ConstantKind} (h : Twin x s t)
    (flag : (readDefinition env kind s ws).2.2.failing = false) :
    Reads x (Scan.readDefinition env kind s ws) (Scan.readDefinition env kind t ws) := by
  have hdest : (Scan.readDest env false s ws).2.2.failing = false :=
    ((Fetches.failIf .refl _ _).failIf _ _).records.flag flag
  obtain ⟨hvalue, hrest, htwin⟩ := h.readDest hdest
  unfold Scan.readDefinition
  dsimp only
  rw [hvalue, hrest]
  exact ⟨rfl, rfl, (htwin.failIf _ _).failIf _ _⟩

theorem readDeclaration (h : Twin x s t) (flag : (readDeclaration env s ws).2.2.failing = false) :
    Reads x (Scan.readDeclaration env s ws) (Scan.readDeclaration env t ws) := by
  have hmarked := h.failIf (!Word.flag (ws.headD 0) 31) .declareUnmarked
  have hflag := (fetches_readDeclaration env s ws).records.flag flag
  obtain ⟨hvalue, hrest, htwin⟩ := hmarked.advance.readDest hflag
  have hchecked := (htwin.failIf ((declaredDest env s ws).1.shift != 0) .declareShift).failIf
    (declaredDest env s ws).1.relative .declareRelative
  unfold Scan.readDeclaration
  dsimp only
  rw [hvalue, hrest]
  split
  · exact ⟨rfl, rfl, (hchecked.failAll _).failIf _ _⟩
  · exact ⟨rfl, rfl, hchecked.fail _⟩

/-- Two readings of arguments agree also in the number of words. -/
def ReadsCounted {α : Type} (x : Remark) (a b : α × Nat × List Word × Scan) : Prop :=
  b.1 = a.1 ∧ b.2.1 = a.2.1 ∧ b.2.2.1 = a.2.2.1 ∧ Twin x a.2.2.2 b.2.2.2

theorem Reads.counted {α : Type} {a b : α × List Word × Scan} (h : Reads x a b)
    (count : List Word → Nat) :
    ReadsCounted x (a.1, count a.2.1, a.2) (b.1, count b.2.1, b.2) :=
  ⟨h.1, congrArg count h.2.1, h.2.1, h.2.2⟩

theorem readArguments {shape : Shape} (h : Twin x s t)
    (flag : (readArguments env shape s ws).2.2.2.failing = false) :
    ReadsCounted x (Scan.readArguments env shape s ws) (Scan.readArguments env shape t ws) := by
  have hread := reader_readArguments env shape
  unfold ReadsCounted
  generalize Scan.readArguments env shape = read at hread flag ⊢
  cases hread with
  | sources n =>
    obtain ⟨hvalue, hrest, htwin⟩ := h.readSources (n := n) flag
    have hreads : Reads x
        (({ sources := (Scan.readSources env s n ws).1 } : Arguments), (Scan.readSources env s n ws).2)
        ({ sources := (Scan.readSources env t n ws).1 }, (Scan.readSources env t n ws).2) :=
      ⟨by rw [hvalue], hrest, htwin⟩
    exact hreads.counted fun rest => 1 + (ws.length - rest.length)
  | dest n => exact (h.readDestSources flag).counted fun rest => 1 + (ws.length - rest.length)
  | define kind => exact (h.readDefinition flag).counted fun _ => if kind = .bool then 3 else 6
  | declare => exact (h.readDeclaration flag).counted fun _ => 3

theorem readOperands {op : Opcode} {w : InstructionWord} (h : Twin x s t)
    (flag : (readOperands env op w s ws).2.2.failing = false) :
    (Scan.readOperands env op w t ws).1 = (Scan.readOperands env op w s ws).1 ∧
      (Scan.readOperands env op w t ws).2.1 = (Scan.readOperands env op w s ws).2.1 ∧
      Twin x (Scan.readOperands env op w s ws).2.2 (Scan.readOperands env op w t ws).2.2 := by
  unfold Scan.readOperands at flag ⊢
  dsimp only at flag ⊢
  cases hp : w.predicated with
  | false =>
    rw [hp] at flag
    obtain ⟨hvalue, hcount, -, htwin⟩ := h.readArguments flag
    rw [if_neg Bool.false_ne_true, if_neg Bool.false_ne_true, hvalue, hcount]
    exact ⟨rfl, rfl, htwin⟩
  | true =>
    rw [hp] at flag
    have harguments : (Scan.readArguments env op.info.shape s ws).2.2.2.failing = false :=
      (Fetches.readPredicate .refl env _).records.flag flag
    obtain ⟨hvalue, hcount, hrest, htwin⟩ := h.readArguments harguments
    rw [if_pos rfl, if_pos rfl, hvalue, hcount, hrest]
    exact ⟨rfl, rfl, htwin.readPredicate flag⟩

end Twin

/-! ### Consequences -/

variable {x : Remark} {s t : Scan} {env : Env} {i : Instruction}

theorem IgnoresMargin.ite {c : Scan → Prop} [∀ s, Decidable (c s)] {f g : Scan → Scan}
    (hc : ∀ s m, c (s.withMargin m) ↔ c s) (hf : IgnoresMargin f) (hg : IgnoresMargin g) :
    IgnoresMargin fun s => if c s then f s else g s := by
  intro s m
  dsimp only
  by_cases h : c s
  · rw [if_pos h, if_pos ((hc s m).mpr h)]
    exact hf s m
  · rw [if_neg h, if_neg fun h' => h ((hc s m).mp h')]
    exact hg s m

theorem ignoresMargin_define (i : Instruction) (kind : ConstantKind) :
    IgnoresMargin fun s => s.define i kind :=
  .ite (fun _ _ => .rfl) (fun _ _ => rfl) .id

theorem ignoresMargin_declare (env : Env) (i : Instruction) :
    IgnoresMargin fun s => s.declare env i := by
  unfold declare
  dsimp only
  refine .ite (fun _ _ => .rfl) (fun _ _ => rfl) (.ite (fun _ _ => .rfl) (fun _ _ => rfl) ?_)
  cases i.declared.usage with
  | none => exact .id
  | some usage => exact fun _ _ => rfl

theorem ignoresMargin_useRows (i : Instruction) (form : MatrixForm) :
    IgnoresMargin fun s => s.useRows i form := by
  unfold useRows
  generalize (i.matrixRows form.rows).drop 1 = rows
  induction rows with
  | nil => exact .id
  | cons row rows ih => exact ih.comp (f := fun s => s.markUsed row.register false) fun _ _ => rfl

theorem ignoresMargin_recordCall (label : Nat) : IgnoresMargin fun s => s.recordCall label :=
  .ite (fun _ _ => .rfl) (fun _ _ => rfl) .id

theorem ignoresMargin_useTextures (env : Env) (i : Instruction) (bump : Bool) :
    IgnoresMargin fun s => s.useTextures env i bump := by
  intro s m
  unfold useTextures
  cases i.opcode.lookupKind? <;> rfl

theorem ignoresMargin_addPad3 (i : Instruction) : IgnoresMargin fun s => s.addPad3 i := by
  intro s m
  show addPad3 (s.withMargin m) i = (addPad3 s i).withMargin m
  unfold addPad3
  rw [show (s.withMargin m).pads = s.pads from rfl]
  cases s.pads.m3x3First with
  | none => rfl
  | some first => cases s.pads.m3x3Second <;> rfl

theorem ignoresMargin_chargeLookup (stage : Nat) : IgnoresMargin fun s => s.chargeLookup stage :=
  .ite (fun _ _ => .rfl) (fun _ _ => rfl) .id

/-- What an instruction does to the state, whatever comments say. -/
theorem ignoresMargin_account (env : Env) (i : Instruction) :
    IgnoresMargin fun s => account env s i := by
  unfold account
  cases i.opcode with
  | defF => exact ignoresMargin_define i .float
  | defI => exact ignoresMargin_define i .int
  | defB => exact ignoresMargin_define i .bool
  | dcl => exact ignoresMargin_declare env i
  | m4x4 | m4x3 | m3x4 | m3x3 | m3x2 => exact ignoresMargin_useRows i _
  | call | callNz => exact ignoresMargin_recordCall _
  | loop => exact .ite (fun _ _ => .rfl) (fun _ _ => rfl) .id
  | cmp => exact .ite (fun _ _ => .rfl) (fun _ _ => rfl) fun _ _ => rfl
  | dp4 => exact .ite (fun _ _ => .rfl) .id fun _ _ => rfl
  | texBem | texBemL | texM3x2Tex | texM3x3 | texM3x3Tex | texM3x3Spec | texM3x3VSpec =>
    exact ignoresMargin_useTextures env i _
  | texM3x2Pad =>
    exact .comp (g := fun s => s.addPad2 i) (fun _ _ => rfl) (ignoresMargin_useTextures env i false)
  | texM3x3Pad => exact (ignoresMargin_addPad3 i).comp (ignoresMargin_useTextures env i false)
  | texLd =>
    exact .ite (fun _ _ => .rfl) (ignoresMargin_chargeLookup _)
      (.ite (fun _ _ => .rfl) .id fun _ _ => rfl)
  | texLdl => exact .ite (fun _ _ => .rfl) (ignoresMargin_chargeLookup _) .id
  | _ => exact fun _ _ => rfl

theorem violations_withMargin (env : Env) (s : Scan) (i : Instruction) (m : Margin) :
    violations env (s.withMargin m) i = violations env s i := by
  unfold violations
  cases i.opcode <;> rfl

theorem ignoresMargin_markColor (env : Env) : IgnoresMargin fun s => s.markColor env :=
  .ite (fun _ _ => .rfl) (fun _ _ => rfl) .id

theorem Twin.judge (h : Twin x s t) (i : Instruction) :
    Twin x (Scan.judge env s i) (Scan.judge env t i) := by
  have hsame : violations env t i = violations env s i := by
    obtain ⟨⟨m, rfl⟩, -, -⟩ := h
    exact violations_withMargin env s i m
  rw [Scan.judge, Scan.judge, hsame]
  exact (h.failAll _).map (ignoresMargin_account env i)

/-! ### Code -/

theorem Twin.emit (h : Twin x s t) (e : Glsl.Emission Unit) : Twin x (s.emit e) (t.emit e) := by
  have hmore := (h.failAll e.faults).map (f := fun s => { s with
    code := s.code ++ e.code
    helpers := e.helpers.foldl Glsl.addHelper s.helpers }) fun _ _ => rfl
  unfold Scan.emit
  rw [failAll_eq, failAll_eq] at hmore ⊢
  exact hmore

theorem Twin.close (h : Twin x s t) : Twin x (s.close env) (t.close env) := by
  have hcode : closeCode env.toShader t = closeCode env.toShader s := by
    obtain ⟨⟨m, rfl⟩, -, -⟩ := h
    rfl
  rw [Scan.close, Scan.close, hcode]
  exact (h.map (ignoresMargin_markColor env)).emit _

/-- The sources that a relative read of a constant is among are read with a symbol table. -/
def Tabled (s : Scan) (i : Instruction) : Prop :=
  ∀ a ∈ i.sources, a.IsRelativeConstant → s.haveTable = true

theorem Twin.variableOf_eq {a : Source} (h : Twin x s t)
    (tabled : a.IsRelativeConstant → s.haveTable = true) : variableOf sh t a = variableOf sh s a := by
  by_cases hconstant : a.IsRelativeConstant
  · unfold variableOf
    rw [(h.arrays_eq (tabled hconstant)).2]
  · unfold variableOf
    split
    · rfl
    · cases hrelative : a.relative with
      | none => rfl
      | some index =>
        cases hfile : a.register.file with
        | const => exact absurd ⟨by rw [hrelative]; rfl, hfile⟩ hconstant
        | _ => rfl

theorem Twin.sourceAt_eq {a : Source} (h : Twin x s t)
    (tabled : a.IsRelativeConstant → s.haveTable = true) (mask : WriteMask) :
    sourceAt sh t a mask = sourceAt sh s a mask := by
  have hpick : ∀ e, pick sh t a mask e = pick sh s a mask e := by
    obtain ⟨⟨m, rfl⟩, -, -⟩ := h
    exact fun _ => rfl
  unfold sourceAt sourceExpr
  simp only [h.variableOf_eq tabled, hpick]

end Scan

namespace Glsl.Emission

variable {α β : Type}
variable {e : Emission α} {f f' : α → Emission β}

/-- Without a fault, the one emission is the other. -/
def Follows (e e' : Emission α) : Prop := e.faults = [] → e = e'

theorem Follows.refl (e : Emission α) : e.Follows e := fun _ => rfl

theorem follows_bind {e' : Emission α} (h : e.Follows e') (hf : ∀ x, (f x).Follows (f' x)) :
    (e >>= f).Follows (e' >>= f') := by
  intro clean
  obtain ⟨hfirst, hrest⟩ := List.append_eq_nil_iff.mp clean
  obtain rfl := h hfirst
  show e.andThen f = e.andThen f'
  rw [andThen, hf e.value hrest]
  rfl

theorem follows_after (hf : ∀ x, (f x).Follows (f' x)) : (e >>= f).Follows (e >>= f') :=
  follows_bind (.refl e) hf

end Glsl.Emission

def Instruction.withPredicate (i : Instruction) (b : Bool) : Instruction := { i with predicated := b }

namespace Scan

open Glsl Glsl.Emission

/-- With the margin `m` an instruction reads the same.  It may have lost its predicate. -/
structure ReadsSame (sh : Shader) (s : Scan) (m : Margin) (i : Instruction) (b : Bool) : Prop where
  predicate : b = i.predicated ∨ b = false
  source : ∀ n mask, sourceAt sh (s.withMargin m) (i.source n) mask = sourceAt sh s (i.source n) mask
  row : ∀ rows, ∀ row ∈ i.matrixRows rows, ∀ mask,
    sourceAt sh (s.withMargin m) row mask = sourceAt sh s row mask

namespace ReadsSame

variable {sh : Shader} {s : Scan} {m : Margin} {i : Instruction} {b : Bool}
  (h : ReadsSame sh s m i b)
include h

theorem assignTo (d : Dest) (e : Expr) :
    (assignTo sh s i d e).Follows (assignTo sh (s.withMargin m) (i.withPredicate b) d e) := by
  unfold Scan.assignTo
  split
  · exact .refl _
  · cases hp : i.predicated with
    | true => exact fun clean => by cases clean
    | false =>
      obtain rfl : b = false := h.predicate.elim (·.trans hp) id
      exact .refl _

theorem bind {α : Type} {n : Nat} {mask : WriteMask} {f f' : Expr → Emission α}
    (hf : ∀ e, (f e).Follows (f' e)) : (sourceAt sh s (i.source n) mask >>= f).Follows
      (sourceAt sh (s.withMargin m) (i.source n) mask >>= f') := by
  rw [h.source]
  exact follows_after hf

omit h in
theorem productsCode {mask : WriteMask} {a : Expr} {rows : List Source}
    (hrows : ∀ row ∈ rows, ∀ mask, sourceAt sh (s.withMargin m) row mask = sourceAt sh s row mask) :
    productsCode sh (s.withMargin m) mask a rows = productsCode sh s mask a rows := by
  induction rows with
  | nil => rfl
  | cons row rows ih =>
    obtain ⟨hrow, hrest⟩ := List.forall_mem_cons.mp hrows
    simp only [Scan.productsCode, hrow, ih hrest]

theorem chooseGroupsCode (test : Expr → Expr) (groups : List (Lane × List Lane)) :
    (chooseGroupsCode sh s i test groups).Follows
      (chooseGroupsCode sh (s.withMargin m) (i.withPredicate b) test groups) := by
  induction groups with
  | nil => exact .refl _
  | cons group groups ih =>
    have hgroup : (chooseGroupCode sh s i test group).Follows
        (chooseGroupCode sh (s.withMargin m) (i.withPredicate b) test group) :=
      h.bind fun _ => h.bind fun _ => h.bind fun _ => h.assignTo _ _
    exact follows_bind hgroup fun _ => ih

theorem chooseCode (test : Expr → Expr) : (chooseCode sh s i test).Follows
    (chooseCode sh (s.withMargin m) (i.withPredicate b) test) :=
  h.chooseGroupsCode test _

omit h in
theorem textureKind_eq : (s.withMargin m).textureKind = s.textureKind := rfl

omit h in
theorem spatialKind?_eq : (s.withMargin m).spatialKind? = s.spatialKind? := rfl

omit h in
theorem matrix3Pads?_eq : (s.withMargin m).matrix3Pads? = s.matrix3Pads? := rfl

omit h in
theorem source_eq : (i.withPredicate b).source = i.source := rfl

theorem loadCode : (loadCode sh s i).Follows (loadCode sh (s.withMargin m) (i.withPredicate b)) := by
  have hcontrols : (i.withPredicate b).controls = i.controls := rfl
  unfold Scan.loadCode oldLoadCode
  rw [textureKind_eq, source_eq, hcontrols]
  dsimp only [Instruction.withPredicate]
  split
  · split
    · exact .refl _
    · exact h.assignTo _ _
  · split
    · exact .refl _
    · split
      · exact .refl _
      · split
        · split
          · exact .refl _
          · exact h.bind fun _ => h.assignTo _ _
        · refine h.bind fun _ => ?_
          split
          · exact h.bind fun _ => h.assignTo _ _
          · exact h.assignTo _ _

theorem bumpCode (luminance : Bool) : (bumpCode sh s i luminance).Follows
    (bumpCode sh (s.withMargin m) (i.withPredicate b) luminance) := by
  refine follows_bind (h.assignTo _ _) fun _ => ?_
  cases luminance with
  | false => exact .refl _
  | true => exact h.assignTo _ _

theorem reflectionCode (variableEye : Bool) : (reflectionCode sh s i variableEye).Follows
    (reflectionCode sh (s.withMargin m) (i.withPredicate b) variableEye) := by
  unfold Scan.reflectionCode
  rw [matrix3Pads?_eq, spatialKind?_eq]
  dsimp only [Instruction.withPredicate]
  split
  · exact .refl _
  · split
    · exact .refl _
    · cases variableEye with
      | false => exact follows_after fun _ => follows_after fun _ => h.assignTo _ _
      | true => exact follows_after fun _ => follows_after fun _ => follows_after fun _ => h.assignTo _ _

theorem instructionCode : (instructionCode sh s i).Follows
    (instructionCode sh (s.withMargin m) (i.withPredicate b)) := by
  have hop : (i.withPredicate b).opcode = i.opcode := rfl
  unfold Scan.instructionCode
  rw [hop]
  -- nothing is written that depends on the margin or the predicate
  cases e : i.opcode with
  | mov | exp | expP | log | logP | frc | sgn | abs | nrm | dsx | dsy | movA | sinCos =>
    exact h.bind fun _ => h.assignTo _ _
  | add | sub | mul | min | max | pow | slt | sge | dp3 | dp4 | crs =>
    exact h.bind fun _ => h.bind fun _ => h.assignTo _ _
  | mad | lrp | dp2Add => exact h.bind fun _ => h.bind fun _ => h.bind fun _ => h.assignTo _ _
  | dst => exact h.bind fun _ => h.bind fun _ => h.bind fun _ => h.bind fun _ => h.assignTo _ _
  | rcp | rsq | lit => exact follows_after fun _ => h.bind fun _ => h.assignTo _ _
  | m4x4 | m4x3 | m3x4 | m3x3 | m3x2 =>
    exact h.bind fun _ => follows_bind (fun _ => (productsCode (h.row _)).symm) fun _ => h.assignTo _ _
  | callNz | rep | ifBool | leavePredicate => exact h.bind fun _ => .refl _
  | ifCompare | leaveCompare =>
    -- the controls stay, so both sides fail or neither
    dsimp only [comparisonCode, Instruction.withPredicate]
    split
    · exact .refl _
    · exact h.bind fun _ => h.bind fun _ => .refl _
  | setP =>
    dsimp only [predicateCode, Instruction.withPredicate]
    split
    · exact .refl _
    · exact h.bind fun _ => h.bind fun _ => h.assignTo _ _
  | cnd | cmp => exact h.chooseCode _
  | texLd => exact h.loadCode
  | texLdd =>
    dsimp only [gradientLoadCode]
    rw [textureKind_eq, source_eq]
    split
    · exact .refl _
    · exact follows_after fun _ => h.bind fun _ => h.bind fun _ => h.bind fun _ => h.assignTo _ _
  | texLdl =>
    dsimp only [levelLoadCode]
    rw [textureKind_eq, source_eq]
    split
    · exact .refl _
    · exact follows_after fun _ => h.bind fun _ => h.bind fun _ => h.assignTo _ _
  | texBem | texBemL => exact h.bumpCode _
  | texM3x2Tex =>
    -- and so do the pads
    dsimp only [matrix2Code, withMargin]
    split
    · exact .refl _
    · exact h.assignTo _ _
  | texM3x3 =>
    dsimp only [matrix3Code]
    rw [matrix3Pads?_eq]
    split
    · exact .refl _
    · exact h.assignTo _ _
  | texM3x3Tex =>
    dsimp only [matrix3LookupCode, Instruction.withPredicate]
    rw [matrix3Pads?_eq, spatialKind?_eq]
    split
    · exact .refl _
    · split
      · exact .refl _
      · exact h.assignTo _ _
  | texM3x3Spec | texM3x3VSpec => exact h.reflectionCode _
  | _ => exact .refl _

end ReadsSame

variable {x : Remark} {s t : Scan} {env : Env} {i : Instruction} {sh : Shader}

theorem Twin.instructionCode_eq (h : Twin x s t) (tabled : Tabled s i)
    (sound : (instructionCode sh s i).faults = []) : instructionCode sh t i = instructionCode sh s i := by
  -- a source that is not there is no relative read
  have hsource : ∀ n, (i.source n).IsRelativeConstant → s.haveTable = true := by
    intro n hconstant
    unfold Instruction.source at hconstant
    rw [List.getD_eq_getElem?_getD] at hconstant
    cases hn : i.sources[n]? with
    | none =>
      rw [hn] at hconstant
      exact absurd hconstant.1 Bool.false_ne_true
    | some a =>
      rw [hn] at hconstant
      exact tabled a (List.mem_of_getElem? hn) hconstant
  obtain ⟨m, rfl⟩ := h.eq
  have hsame : ReadsSame sh s m i i.predicated := by
    refine ⟨.inl rfl, fun n mask => h.sourceAt_eq (hsource n) mask, fun rows row hrow mask => ?_⟩
    apply h.sourceAt_eq
    intro hconstant
    obtain ⟨k, -, rfl⟩ := List.mem_map.mp hrow
    exact hsource 1 hconstant
  exact (hsame.instructionCode sound).symm

theorem Twin.generate (h : Twin x s t) (tabled : Tabled s i)
    (flag : (generate env s i).failing = false) :
    Twin x (Scan.generate env s i) (Scan.generate env t i) := by
  unfold Scan.generate at flag ⊢
  rw [h.failing_eq]
  split
  · exact h
  next hfailing =>
    split
    · exact h.close
    next hret =>
      rw [if_neg hfailing, if_neg hret] at flag
      rw [h.instructionCode_eq tabled (eq_nil_of_failAll flag)]
      exact h.emit _

theorem haveTable_judge (env : Env) (s : Scan) (i : Instruction) :
    (judge env s i).haveTable = s.haveTable := by
  have haccount := (ignoresMargin_account env i).margin_eq (s.failAll (violations env s i))
  have htable : (judge env s i).haveTable = (s.failAll (violations env s i)).haveTable :=
    congrArg Margin.haveTable haccount
  rw [htable, failAll_eq]

theorem Twin.execute (h : Twin x s t) (tabled : Tabled s i)
    (flag : (execute env s i).failing = false) :
    Twin x (Scan.execute env s i) (Scan.execute env t i) := by
  have hjudge : Twin x (Scan.judge env s i) (Scan.judge env t i) := h.judge i
  have hjudged := hjudge.map (f := fun s => s.charge i.opcode.info.slots) fun _ _ => rfl
  have htabled : Tabled ((Scan.judge env s i).charge i.opcode.info.slots) i := by
    intro a ha hconstant
    exact (haveTable_judge env s i).trans (tabled a ha hconstant)
  exact (hjudged.generate htabled flag).map (f := fun s => { s with
    pads := if i.opcode.closesMatrix then {} else s.pads
    previous := some i.opcode }) fun _ _ => rfl

end Scan

/-- Sources are read with a symbol table if a relative read of a constant is among them. -/
theorem Inventory.TakenAll.tabled {k k' : Inventory} {as : List Source} (h : TakenAll k as k') :
    k'.haveTable = k.haveTable ∧ ∀ a ∈ as, a.IsRelativeConstant → k.haveTable = true := by
  induction h with
  | nil k => exact ⟨rfl, fun a ha => absurd ha List.not_mem_nil⟩
  | @cons k k' k'' a as first _ ih =>
    have hfirst : k'.haveTable = k.haveTable ∧ (a.IsRelativeConstant → k.haveTable = true) := by
      cases first with
      | direct named => exact ⟨rfl, fun h => absurd h named⟩
      | relative place unnamed table found recorded =>
        refine ⟨?_, fun _ => table⟩
        show k.group.haveTable = k.haveTable
        unfold Inventory.group
        split <;> rfl
    obtain ⟨hrest, hothers⟩ := ih
    refine ⟨hrest.trans hfirst.1, List.forall_mem_cons.mpr ⟨hfirst.2, fun b hb hconstant => ?_⟩⟩
    exact hfirst.1.symm.trans (hothers b hb hconstant)

/-! ### Units -/

def Visit.commentId? (v : Visit) : Option Word :=
  match UnitHead.ofWord v.word with
  | .comment length =>
    match v.rest.take length with
    | id :: _ :: _ => some id
    | _ => none
  | _ => none

namespace Scan

variable {x : Remark} {s t : Scan} {env : Env}
variable {n : Nat} {w : Word} {ws : List Word}

theorem Twin.readInstruction {op : Opcode} {w : InstructionWord} (h : Twin x s t)
    (flag : (readInstruction env s op w ws).1.failing = false) :
    (Scan.readInstruction env t op w ws).2 = (Scan.readInstruction env s op w ws).2 ∧
      Twin x (Scan.readInstruction env s op w ws).1 (Scan.readInstruction env t op w ws).1 := by
  obtain ⟨-, hoperands, hread⟩ := readInstruction_of_flag flag
  obtain ⟨hvalue, hcount, htwin⟩ := h.advance.readOperands hoperands
  obtain ⟨htable, htabled⟩ := (taken_readOperands hoperands).tabled
  rw [hread s rfl] at flag ⊢
  rw [hread t hcount, hvalue]
  refine ⟨hcount, (htwin.moveTo _ _).execute ?_ flag⟩
  exact fun a ha hconstant => htable.trans (htabled a ha hconstant)

/-- A preshader is read the same unless the remark is one. -/
theorem Twin.readPreshader (h : Twin x s t) (payload : List Word)
    (hx : x.id? ≠ some Word.preshaderId) : Twin x (s.readPreshader payload) (t.readPreshader payload) := by
  have hset : ∀ {s t : Scan}, Twin x s t → ∀ value,
      Twin x { s with preshader := value } { t with preshader := value } := by
    rintro s _ ⟨⟨m, rfl⟩, hfaults, hadds⟩ value
    refine ⟨⟨{ m with preshader := value }, rfl⟩, hfaults, ?_⟩
    cases x with
    | nothing => exact ⟨hadds.1, hadds.2.1, hadds.2.2.1, rfl⟩
    | preshader value => exact absurd rfl hx
    | table symbols => exact ⟨hadds.1, hadds.2.1, hadds.2.2.1, hadds.2.2.2.1, rfl⟩
  have hsame : t.preshader = s.preshader := by
    have hadds := h.adds
    cases x with
    | nothing => exact hadds.2.2.2
    | preshader value => exact absurd rfl hx
    | table symbols => exact hadds.2.2.2.2
  unfold Scan.readPreshader
  rw [hsame]
  split
  · exact h.fail _
  · exact hset (h.failAll _) _

/-- A symbol table is read the same unless the remark is one. -/
theorem Twin.readTable (h : Twin x s t) (payload : List Word)
    (hx : x.id? ≠ some Word.symbolTableId) : Twin x (s.readTable env payload) (t.readTable env payload) := by
  have hset : ∀ {s t : Scan}, Twin x s t →
      Twin x { s with haveTable := true } { t with haveTable := true } ∧
      ∀ symbols, Twin x
        { s with haveTable := true, symbols := symbols, arrays := s.arrays ++ rangeArrays symbols }
        { t with haveTable := true, symbols := symbols, arrays := t.arrays ++ rangeArrays symbols } := by
    rintro s _ ⟨⟨m, rfl⟩, hfaults, hadds⟩
    constructor
    · refine ⟨⟨{ m with haveTable := true }, rfl⟩, hfaults, ?_⟩
      cases x with
      | nothing | preshader => exact ⟨rfl, hadds.2⟩
      | table symbols => exact absurd rfl hx
    · intro symbols
      refine ⟨⟨{ m with
        haveTable := true
        symbols := symbols
        arrays := m.arrays ++ rangeArrays symbols }, rfl⟩, hfaults, ?_⟩
      cases x with
      | nothing | preshader =>
        exact ⟨rfl, rfl, congrArg (· ++ rangeArrays symbols) hadds.2.2.1, hadds.2.2.2⟩
      | table symbols => exact absurd rfl hx
  -- only a table says that there was one
  have hsame : t.haveTable = s.haveTable := by
    have hadds := h.adds
    cases x with
    | nothing | preshader => exact hadds.1
    | table symbols => exact absurd rfl hx
  unfold Scan.readTable
  rw [hsame]
  split
  · exact h.fail _
  · obtain ⟨hseen, hadded⟩ := hset (h.failAll (Symbol.table payload env.versionWord).faults)
    dsimp only
    cases (Symbol.table payload env.versionWord).value with
    | none => exact hseen
    | some symbols => exact hadded symbols

theorem Twin.readComment (h : Twin x s t)
    (spared : ∀ id word rest, ws = id :: word :: rest → x.id? ≠ some id) :
    Twin x (s.readComment env ws) (t.readComment env ws) := by
  match ws with
  | [] | [_] => exact h
  | id :: word :: rest =>
    have hid := spared id word rest rfl
    simp only [Scan.readComment]
    by_cases hp : id = Word.preshaderId
    · rw [if_pos hp, if_pos hp]
      exact h.readPreshader _ (hp ▸ hid)
    · rw [if_neg hp, if_neg hp]
      split
      next ht => exact h.readTable _ (ht ▸ hid)
      next => exact h

/-- **A unit without a fault is read the same with a remark before it**, unless it is another comment of
that kind. -/
theorem Twin.readUnit (h : Twin x s t) (flag : (readUnit env s w ws).1.failing = false)
    (spared : ∀ id, x.id? = some id → Visit.commentId? ⟨env, 0, s, w, ws⟩ ≠ some id) :
    (Scan.readUnit env t w ws).2 = (Scan.readUnit env s w ws).2 ∧
      Twin x (Scan.readUnit env s w ws).1 (Scan.readUnit env t w ws).1 := by
  unfold Scan.readUnit at flag ⊢
  cases hhead : UnitHead.ofWord w with
  | comment length =>
    refine ⟨rfl, ?_⟩
    dsimp only
    split
    · refine (h.failIf _ _).readComment fun id word rest heq hid => ?_
      exact spared id hid (by simp only [Visit.commentId?, hhead, heq])
    · exact h.failIf _ _
  | finish =>
    refine ⟨rfl, ?_⟩
    have hjudged := (h.map (f := fun s => { s with ended := true }) fun _ _ => rfl).failIf
      (env.knownSize && !ws.isEmpty) .earlyEnd
    have hprevious : ({ t with ended := true }.failIf (env.knownSize && !ws.isEmpty) .earlyEnd).previous =
        ({ s with ended := true }.failIf (env.knownSize && !ws.isEmpty) .earlyEnd).previous := by
      obtain ⟨m, hm⟩ := hjudged.eq
      rw [hm]
      rfl
    dsimp only
    rw [hjudged.failing_eq, hprevious]
    split
    · exact hjudged
    · exact hjudged.close
  | phase => exact ⟨rfl, h.failIf _ _⟩
  | unknown => exact ⟨rfl, h.fail _⟩
  | instruction op fields =>
    rw [hhead] at flag
    exact h.readInstruction flag

/-! ### Runs -/

theorem Twin.visit {u : Scan} (h : Twin x s u) (clean : (visit env s n w ws).after.faults = [])
    (spared : ∀ id, x.id? = some id → (Scan.visit env s n w ws).commentId? ≠ some id) (k : Nat) :
    (Scan.visit env u k w ws).length = (Scan.visit env s n w ws).length ∧
      Twin x (Scan.visit env s n w ws).after (Scan.visit env u k w ws).after :=
  (h.startUnit (.word n) (.word k)).readUnit ((Scan.visit env s n w ws).records.failing_eq clean) spared

theorem readUnits_of_fits (fits : (visit env s n w ws).Fits) :
    readUnits env s n (w :: ws) =
      if stopsAt env w then (visit env s n w ws).after
      else readUnits env (visit env s n w ws).after (n + (visit env s n w ws).length)
        (visit env s n w ws).remainder := by
  rw [readUnits]
  exact if_neg (Nat.not_lt_of_le fits)

/-- **What is read after a remark is read the same**, wherever it stands. -/
theorem Run.twin {u : Scan} {vs : List Visit} (r : Run env s n ws vs t) (clean : t.faults = [])
    (spared : ∀ v ∈ vs, ∀ id, x.id? = some id → v.commentId? ≠ some id) (h : Twin x s u) (k : Nat) :
    Twin x t (readUnits env u k ws) := by
  induction r generalizing u k with
  | done s n =>
    rw [readUnits]
    exact h
  | cut s n w ws tooLong => simp [cutOff, Scan.fail] at clean
  | stop s n w ws fits last =>
    obtain ⟨hlength, hunit⟩ := h.visit clean (spared _ List.mem_cons_self) k
    rw [readUnits_of_fits (Nat.le_trans (Nat.le_of_eq hlength) fits), if_pos last]
    exact hunit
  | @next s n w ws vs t fits more r ih =>
    have hafter := (Run.next s n w ws fits more r).faults_after clean _ List.mem_cons_self
    obtain ⟨hlength, hunit⟩ := h.visit hafter (spared _ List.mem_cons_self) k
    have hremainder : (Scan.visit env u k w ws).remainder = (Scan.visit env s n w ws).remainder :=
      congrArg (fun length => ws.drop (length - 1)) hlength
    rw [readUnits_of_fits (Nat.le_trans (Nat.le_of_eq hlength) fits), if_neg more, hremainder]
    exact ih clean (fun v hv => spared v (List.mem_cons_of_mem _ hv)) hunit _

theorem Twin.finish (h : Twin x s t) : Twin x (Scan.finish env s) (Scan.finish env t) := by
  have hsame : Scan.finish env t =
      ((t.moveTo .after).failIf (!s.ended && !s.truncated) .noEnd).failIf
        (colorFromTemp env.toShader && !s.wasWritten ⟨.temp, 0⟩) .colorNeverWritten := by
    obtain ⟨m, rfl⟩ := h.eq
    rfl
  rw [hsame]
  exact ((h.moveTo .after .after).failIf _ _).failIf _ _

end Scan

end ShaderLift
