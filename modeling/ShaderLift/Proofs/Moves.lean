/-
What reading can do to the state, said once.  The readers are long, but all they do to a `Scan` goes
through the small operations of `ShaderLift/Scan/State.lean` and a few record updates.  `Fetch` lists
those that reading operands makes use of, `Move` adds those of comments and instructions, and the
theorems of this file cut every reader into such steps:

    Fetches s (readOperands env op w s ws).2.2
    Moves env (s.noteEnd w) (readUnit env s w ws).1

Whatever every single step keeps is then kept by every unit.  Only three things are no moves: clearing the
flag at the start of a unit, noting the end mark, and noting that the code is cut off.
-/
import Mathlib.Logic.Relation
import ShaderLift.Interface
import ShaderLift.Proofs.Consequences
import ShaderLift.Proofs.Readers

namespace ShaderLift.Scan

open Relation

/-! ### Steps of reading operands -/

inductive Fetch : Scan → Scan → Prop
  | fail (s : Scan) (f : Fault) : Fetch s (s.fail f)
  | moveTo (s : Scan) (p : Position) : Fetch s (s.moveTo p)
  | use (s : Scan) (r : Register) (written : Bool) : Fetch s (s.markUsed r written)
  | group (s : Scan) (first : s.grouped = false) :
      Fetch s { s with grouped := true, arrays := s.arrays ++ ConstantArray.ofConstants s.constants }
  | useArray (s : Scan) (number place : Nat) (found : s.floatArray? number = some place) :
      Fetch s (s.markArrayUsed place)
  | relativeInput (s : Scan) : Fetch s { s with relativeInput := true }

abbrev Fetches : Scan → Scan → Prop := ReflTransGen Fetch

variable {s t : Scan}

theorem Fetches.frame (h : Fetches s t) : t = { s with
    position := t.position, failing := t.failing, faults := t.faults, used := t.used
    arrays := t.arrays, grouped := t.grouped, relativeInput := t.relativeInput } := by
  induction h with
  | refl => rfl
  | tail _ step ih => cases step <;> rw [ih] <;> rfl

theorem Fetches.code_eq (h : Fetches s t) : t.code = s.code := by
  rw [h.frame]

theorem Fetches.fail (h : Fetches s t) (f : Fault) : Fetches s (t.fail f) :=
  h.tail (.fail t f)

theorem Fetches.failIf (h : Fetches s t) (b : Bool) (f : Fault) : Fetches s (t.failIf b f) := by
  unfold Scan.failIf
  split
  · exact h.fail f
  · exact h

theorem Fetches.failAll (h : Fetches s t) (fs : List Fault) : Fetches s (t.failAll fs) := by
  induction fs generalizing t with
  | nil => exact h
  | cons f fs ih => exact ih (h.fail f)

theorem Fetches.advance (h : Fetches s t) : Fetches s t.advance := by
  unfold Scan.advance
  split
  · exact h.tail (.moveTo t _)
  · exact h

theorem Fetches.groupConstants (h : Fetches s t) : Fetches s t.groupConstants := by
  unfold Scan.groupConstants
  split
  next => exact h
  next first => exact h.tail (.group t (Bool.eq_false_iff.mpr first))

theorem Fetches.markUsed (h : Fetches s t) (r : Register) (written : Bool) :
    Fetches s (t.markUsed r written) :=
  h.tail (.use t r written)

/-! ### Reading operands -/

theorem Walks.fetches {m : Register → Bool → Prop} {k : Nat} {ws us : List Word}
    (h : Walks m s ws k t us) : Fetches s t := by
  induction h with
  | refl => exact .refl
  | fail _ f ih => exact ih.fail f
  | advance _ ih => exact ih.advance
  | skip _ ih => exact ih.advance
  | mark _ r written _ _ ih => exact ih.markUsed r written
  | group _ first ih => exact ih.tail (.group _ first)
  | useArray _ number place found ih => exact ih.tail (.useArray _ number place found)
  | relativeInput _ ih => exact ih.tail (.relativeInput _)

theorem Fetches.readDest (h : Fetches s t) (env : Env) (centroidAllowed : Bool) (ws : List Word) :
    Fetches s (Scan.readDest env centroidAllowed t ws).2.2 :=
  h.trans (Walks.readDest (m := fun _ _ => True) .refl env centroidAllowed trivial).fetches

/-- What is done once the index of a relative source has been read. -/
theorem fetches_readRelative (env : Env) (r : Register) (s : Scan) (ws : List Word) :
    Fetches (Scan.readIndex env (s.failIf (env.isPixel && !env.atLeast 3 0) .relativePixel) ws).2.2
      (Scan.readRelative env r s ws).2.2 :=
  (Walks.resolveRelative (.here _) env r
    (Nat.lt_trans (number_readIndex_lt env _ ws) (by decide)) trivial).fetches

theorem Fetches.checkModifier (h : Fetches s t) (env : Env) (r : Register)
    (m : Option SourceModifier) : Fetches s (Scan.checkModifier env r m t) := by
  unfold Scan.checkModifier
  split
  · exact h.fail _
  · exact h.failIf _ _
  · exact h.failIf _ _

theorem Fetches.markRead (h : Fetches s t) (r : Register) : Fetches s (t.markRead r) := by
  unfold Scan.markRead
  split
  · exact h
  · exact (h.markUsed r false).failIf _ _

theorem Fetches.readSource (h : Fetches s t) (env : Env) (ws : List Word) :
    Fetches s (Scan.readSource env t ws).2.2 :=
  h.trans (Walks.readSource (m := fun _ _ => True) .refl env fun _ _ => trivial).fetches

theorem Fetches.readSources (h : Fetches s t) (env : Env) (n : Nat) (ws : List Word) :
    Fetches s (Scan.readSources env t n ws).2.2 :=
  h.trans (Walks.readSources (m := fun _ _ => True) .refl env n fun _ _ _ _ => trivial).fetches

theorem fetches_readPredicate (env : Env) (s : Scan) (ws : List Word) :
    Fetches (Scan.readSource env s ws).2.2 (Scan.readPredicate env s ws) :=
  (Walks.checkPredicate env (.here _)).fetches

theorem Fetches.readPredicate (h : Fetches s t) (env : Env) (ws : List Word) :
    Fetches s (Scan.readPredicate env t ws) :=
  (h.readSource env ws).trans (fetches_readPredicate env t ws)

theorem fetches_readDefinition (env : Env) (kind : ConstantKind) (s : Scan) (ws : List Word) :
    Fetches (Scan.readDest env false s ws).2.2 (Scan.readDefinition env kind s ws).2.2 :=
  (Walks.checkDefinition env kind (.here _)).fetches

theorem fetches_readDeclaration (env : Env) (s : Scan) (ws : List Word) :
    Fetches (declaredDest env s ws).2.2 (Scan.readDeclaration env s ws).2.2 :=
  (Walks.checkDeclaration env (.here _)).fetches

theorem Fetches.readOperands (h : Fetches s t) (env : Env) (op : Opcode) (w : InstructionWord)
    (ws : List Word) : Fetches s (Scan.readOperands env op w t ws).2.2 := by
  obtain ⟨_, -, _, hwalks⟩ := Walks.readOperands env op w t ws
  exact h.trans hwalks.fetches

theorem Walks.source_readSources {m : Register → Bool → Prop} {k : Nat} {ws us : List Word}
    (h : Walks m s ws k t us) (known : ∀ r, m r false) (env : Env) (n : Nat) :
    ∀ a ∈ (Scan.readSources env t n us).1, ∃ u vs, Walks m s ws k u vs ∧
      a = (Scan.readSource env u vs).1 ∧
      Fetches (Scan.readSource env u vs).2.2 (Scan.readSources env t n us).2.2 := by
  induction n generalizing t us with
  | zero => exact fun a ha => absurd ha List.not_mem_nil
  | succ n ih =>
    refine List.forall_mem_cons.mpr ⟨⟨t, us, h, rfl, Fetches.readSources .refl env n _⟩, ?_⟩
    exact ih (h.readSource env fun r _ => known r)

/-- When a source is read, at most the destination of the instruction is written. -/
theorem source_readArguments (env : Env) (shape : Shape) (s : Scan) (ws : List Word) :
    ∀ a ∈ (Scan.readArguments env shape s ws).1.sources, ∃ u us,
      Walks (fun r written => written = true →
        written? shape (Scan.readArguments env shape s ws).1 = some r) s ws 0 u us ∧
      a = (Scan.readSource env u us).1 ∧
      Fetches (Scan.readSource env u us).2.2 (Scan.readArguments env shape s ws).2.2.2 := by
  have hread := reader_readArguments env shape
  generalize Scan.readArguments env shape = read at hread ⊢
  cases hread with
  | sources n => exact Walks.refl.source_readSources (fun _ h => absurd h Bool.false_ne_true) env n
  | dest n has =>
    have hdest := Walks.readDest (m := fun r written => written = true →
      written? shape (Scan.readDestSources env s n ws).1 = some r) .refl env false fun _ => if_pos has
    exact hdest.source_readSources (fun _ h => absurd h Bool.false_ne_true) env n
  | define => exact fun a ha => absurd ha List.not_mem_nil
  | declare =>
    rw [(operands_readDeclaration env s ws).2.1]
    exact fun a ha => absurd ha List.not_mem_nil

theorem dest_readArguments (env : Env) {shape : Shape} (has : shape.hasDest = true) (s : Scan)
    (ws : List Word) : ∃ centroidAllowed u us, Fetches s u ∧
      (Scan.readArguments env shape s ws).1.dest = (Scan.readDest env centroidAllowed u us).1 ∧
      Fetches (Scan.readDest env centroidAllowed u us).2.2 (Scan.readArguments env shape s ws).2.2.2 := by
  have hread := reader_readArguments env shape
  generalize Scan.readArguments env shape = read at hread ⊢
  cases hread with
  | sources n => cases has
  | dest n => exact ⟨false, s, ws, .refl, rfl, Fetches.readSources .refl env n _⟩
  | define kind => exact ⟨false, s, ws, .refl, rfl, fetches_readDefinition env kind s ws⟩
  | declare =>
    exact ⟨true, _, ws.tail, (Fetches.failIf .refl _ _).advance, (operands_readDeclaration env s ws).1,
      fetches_readDeclaration env s ws⟩

/-! ### Faults are kept -/

/-- On the way from `s` to `t` faults were only added, and the flag went up exactly if some were. -/
def Records (s t : Scan) : Prop :=
  ∃ new, t.faults = s.faults ++ new ∧ t.failing = (s.failing || !new.isEmpty)

namespace Records

theorem refl (s : Scan) : Records s s := ⟨[], by simp, by simp⟩

theorem trans {u : Scan} (h : Records s t) (h' : Records t u) : Records s u := by
  obtain ⟨new, hf, hb⟩ := h
  obtain ⟨new', hf', hb'⟩ := h'
  refine ⟨new ++ new', by rw [hf', hf, List.append_assoc], ?_⟩
  cases new with
  | nil => simp [hb', hb]
  | cons => simp [hb', hb]

theorem of_eq (hf : t.faults = s.faults) (hb : t.failing = s.failing) : Records s t :=
  ⟨[], by simp [hf], by simp [hb]⟩

theorem isPrefix (h : Records s t) : s.faults <+: t.faults :=
  let ⟨new, hf, _⟩ := h
  ⟨new, hf.symm⟩

theorem faults_ne_nil (h : Records s t) (hs : s.faults ≠ []) : t.faults ≠ [] := by
  intro ht
  have hp := h.isPrefix
  rw [ht, List.prefix_nil] at hp
  exact hs hp

theorem faults_eq_nil (h : Records s t) (ht : t.faults = []) : s.faults = [] := by
  have hp := h.isPrefix
  rwa [ht, List.prefix_nil] at hp

theorem failing_eq (h : Records s t) (clean : t.faults = []) : t.failing = s.failing := by
  obtain ⟨new, hf, hb⟩ := h
  rw [clean] at hf
  rw [hb, (List.append_eq_nil_iff.mp hf.symm).2]
  exact Bool.or_false _

theorem flag (h : Records s t) (ht : t.failing = false) : s.failing = false := by
  obtain ⟨new, -, hb⟩ := h
  rw [ht, eq_comm, Bool.or_eq_false_iff] at hb
  exact hb.1

theorem faults_eq (h : Records s t) (ht : t.failing = false) : t.faults = s.faults := by
  obtain ⟨new, hf, hb⟩ := h
  rw [ht, eq_comm, Bool.or_eq_false_iff] at hb
  rw [hf, show new = [] by simpa using hb.2, List.append_nil]

theorem faults_eq_nil_iff (h : Records s t) (hs : s.failing = true → s.faults ≠ []) :
    t.faults = [] ↔ s.faults = [] ∧ t.failing = false := by
  obtain ⟨new, hf, hb⟩ := h
  rw [hf, hb, List.append_eq_nil_iff, Bool.or_eq_false_iff]
  constructor
  · rintro ⟨hold, rfl⟩
    exact ⟨hold, Bool.eq_false_iff.mpr fun hflag => hs hflag hold, rfl⟩
  · rintro ⟨hold, -, hnew⟩
    exact ⟨hold, by simpa using hnew⟩

end Records

theorem Fetch.records (h : Fetch s t) : Records s t := by
  cases h with
  | fail f => exact ⟨[⟨s.position, f⟩], rfl, by simp [Scan.fail]⟩
  | _ => exact .of_eq rfl rfl

theorem Fetches.records (h : Fetches s t) : Records s t := by
  induction h with
  | refl => exact .refl s
  | tail _ step ih => exact ih.trans step.records

/-! ### Steps of reading units -/

def rangeArrays (symbols : List Symbol) : List ConstantArray :=
  (symbols.filterMap Symbol.range?).map Symbol.Range.array

inductive Move (env : Env) : Scan → Scan → Prop
  | fetch {s t : Scan} (h : Fetch s t) : Move env s t
  /-- A definition, which stands before the first instruction that takes a slot. -/
  | define (s : Scan) (c : Constant) (early : s.slots = 0) :
      Move env s ((s.addConstant c).markDefined ⟨c.kind.file, c.index⟩)
  /-- A register is accounted for without a constant: then it is none of the constant registers, or
  something is wrong already. -/
  | account (s : Scan) (r : Register)
      (other : Interface.constantKind? r = none ∨ s.faults ≠ []) : Move env s (s.markDefined r)
  | sampler (s : Scan) (stage : Nat) (kind : Option TextureKind) (bump : Bool) :
      Move env s (s.addSampler env stage kind bump)
  | meaning (s : Scan) (r : Register) (a : Attribute) : Move env s (s.setAttribute r a)
  | call (s : Scan) (label : Nat) (known : s.used.contains ⟨.label, label⟩) :
      Move env s { s with
        used := s.used.update ⟨.label, label⟩ {} fun u =>
          if u.calls = .none then { u with calls := s.callContext } else u }
  | blocks (s : Scan) (loops reps ifs : Nat) :
      Move env s { s with loops := loops, reps := reps, ifs := ifs }
  | compare (s : Scan) : Move env s { s with compares := s.compares + 1 }
  | charge (s : Scan) (n : Nat) : Move env s (s.charge n)
  | pads (s : Scan) (p : Pads) : Move env s { s with pads := p }
  | conclude (s : Scan) (p : Pads) (op : Opcode) :
      Move env s { s with pads := p, previous := some op }
  | write (s : Scan) (code : List Glsl.Stmt) (asked : List Glsl.Helper) :
      Move env s { s with code := s.code ++ code, helpers := asked.foldl Glsl.addHelper s.helpers }
  | seeTable (s : Scan) : Move env s { s with haveTable := true }
  | symbols (s : Scan) (symbols : List Symbol) :
      Move env s { s with symbols := symbols, arrays := s.arrays ++ rangeArrays symbols }
  | preshader (s : Scan) (p : Option Preshader) : Move env s { s with preshader := p }

abbrev Moves (env : Env) : Scan → Scan → Prop := ReflTransGen (Move env)

variable {env : Env}

theorem Fetches.moves (h : Fetches s t) : Moves env s t :=
  ReflTransGen.mono (fun _ _ => Move.fetch) _ _ h

theorem Move.records (h : Move env s t) : Records s t := by
  cases h with
  | fetch h => exact h.records
  | _ => exact .of_eq rfl rfl

theorem Moves.records (h : Moves env s t) : Records s t := by
  induction h with
  | refl => exact .refl s
  | tail _ step ih => exact ih.trans step.records

theorem Move.marks_eq (h : Move env s t) : t.ended = s.ended ∧ t.truncated = s.truncated := by
  cases h with
  | fetch h => cases h <;> exact ⟨rfl, rfl⟩
  | _ => exact ⟨rfl, rfl⟩

theorem Moves.marks_eq (h : Moves env s t) : t.ended = s.ended ∧ t.truncated = s.truncated := by
  induction h with
  | refl => exact ⟨rfl, rfl⟩
  | tail _ step ih => exact ⟨step.marks_eq.1.trans ih.1, step.marks_eq.2.trans ih.2⟩

theorem failAll_eq (s : Scan) (fs : List Fault) :
    s.failAll fs = { s with
      failing := s.failing || !fs.isEmpty
      faults := s.faults ++ fs.map fun f => ⟨s.position, f⟩ } := by
  induction fs generalizing s with
  | nil => simp [Scan.failAll]
  | cons f fs ih =>
    rw [show s.failAll (f :: fs) = (s.fail f).failAll fs from rfl, ih]
    simp [Scan.fail]

theorem eq_nil_of_failAll {fs : List Fault} (flag : (s.failAll fs).failing = false) : fs = [] := by
  rw [failAll_eq] at flag
  simpa using (Bool.or_eq_false_iff.mp flag).2

theorem eq_nil_of_faults_failAll {fs : List Fault} (clean : (s.failAll fs).faults = []) : fs = [] := by
  rw [failAll_eq] at clean
  exact List.map_eq_nil_iff.mp (List.append_eq_nil_iff.mp clean).2

theorem Moves.failAll (h : Moves env s t) (fs : List Fault) : Moves env s (t.failAll fs) :=
  h.trans (Fetches.failAll .refl fs).moves

theorem Moves.failIf (h : Moves env s t) (b : Bool) (f : Fault) : Moves env s (t.failIf b f) :=
  h.trans (Fetches.failIf .refl b f).moves

theorem Moves.markUsed (h : Moves env s t) (r : Register) (written : Bool) :
    Moves env s (t.markUsed r written) :=
  h.tail (.fetch (.use t r written))

/-! ### The consequences of an instruction -/

/-- A definition is legal before the first instruction that takes a slot, for a register of its
kind. -/
theorem defineFaults_isEmpty_iff (i : Instruction) (kind : ConstantKind) :
    (defineFaults t i kind).isEmpty ↔ t.slots = 0 ∧ i.dest.register.file = kind.file := by
  unfold defineFaults firstFault
  rcases Nat.eq_zero_or_pos t.slots with hs | hs
  · by_cases hf : i.dest.register.file = kind.file <;> simp [hs, hf]
  · simp [hs, Nat.ne_of_gt hs]

theorem Moves.useRows (h : Moves env s t) (i : Instruction) (form : MatrixForm) :
    Moves env s (Scan.useRows t i form) := by
  unfold Scan.useRows
  generalize (i.matrixRows form.rows).drop 1 = rows
  induction rows generalizing t with
  | nil => exact h
  | cons row rows ih => exact ih (h.markUsed row.register false)

theorem Moves.account (h : Moves env s t) (i : Instruction)
    (other : i.opcode = .dcl →
      Interface.constantKind? i.dest.register = none ∨ t.faults ≠ []) :
    Moves env s (Scan.account env t i) := by
  have hdoes := Consequence.of_account env t i
  generalize Scan.account env t i = u at hdoes ⊢
  cases hdoes with
  | nothing => exact h
  | define _ kind legal =>
    obtain ⟨early, hfile⟩ := (defineFaults_isEmpty_iff i kind).mp legal
    have hr : i.dest.register = ⟨kind.file, i.dest.register.number⟩ := by rw [← hfile]
    rw [hr]
    exact h.tail (.define t ⟨kind, _, i.literals⟩ early)
  | label => exact h.tail (.account t _ (.inl rfl))
  | late op => exact h.tail (.account t _ (other op))
  | sampler op => exact (h.tail (.sampler t _ _ _)).tail (.account _ _ (other op))
  | meaning op => exact (h.tail (.meaning t _ _)).tail (.account _ _ (other op))
  | rows form => exact useRows_frame t i form ▸ h.useRows i form
  | call _ known => exact h.tail (.call t _ known)
  | blocks => exact h.tail (.blocks t _ _ _)
  | charge _ n => exact h.tail (.charge t n)
  | compare _ n => exact (h.tail (.compare t)).tail (.charge _ n)
  | plane => exact h.tail (.sampler t _ _ _)
  | lookup => exact ((h.tail (.sampler t _ _ _)).tail (.meaning _ _ _)).tail (.meaning _ _ _)
  | textures => exact (h.tail (.meaning t _ _)).tail (.meaning _ _ _)
  | pad2 | pad3 => exact ((h.tail (.meaning t _ _)).tail (.meaning _ _ _)).tail (.pads _ _)

theorem Moves.judge (h : Moves env s t) (i : Instruction)
    (other : i.opcode = .dcl →
      Interface.constantKind? i.dest.register = none ∨ t.faults ≠ []) :
    Moves env s (Scan.judge env t i) := by
  apply (h.failAll _).account
  intro hop
  have hf : Fetches t (t.failAll (violations env t i)) := .failAll .refl _
  exact (other hop).imp_right hf.records.faults_ne_nil

/-! ### The code of an instruction -/

theorem Moves.emit (h : Moves env s t) (e : Glsl.Emission Unit) : Moves env s (t.emit e) := by
  -- the helpers are looked up before the faults are told, which leave them alone
  have hw := (h.failAll e.faults).tail (.write _ e.code e.helpers)
  rw [failAll_eq] at hw
  unfold Scan.emit
  rw [failAll_eq]
  exact hw

theorem Moves.close (h : Moves env s t) : Moves env s (t.close env) := by
  apply Moves.emit
  unfold markColor
  split
  · exact h.markUsed _ _
  · exact h

theorem Moves.generate (h : Moves env s t) (i : Instruction) :
    Moves env s (t.generate env i) := by
  unfold Scan.generate
  split
  · exact h
  · split
    · exact h.close
    · exact h.emit _

theorem Moves.execute (h : Moves env s t) (i : Instruction)
    (other : i.opcode = .dcl →
      Interface.constantKind? i.dest.register = none ∨ t.faults ≠ []) :
    Moves env s (Scan.execute env t i) := by
  have hj : Moves env s ((Scan.judge env t i).charge i.opcode.info.slots) :=
    (h.judge i other).tail (.charge _ _)
  exact (hj.generate i).tail (.conclude _ _ _)

theorem moves_judge_execute (env : Env) (s : Scan) (i : Instruction) :
    Moves env (Scan.judge env s i) (Scan.execute env s i) := by
  have hcharge : Moves env (Scan.judge env s i) ((Scan.judge env s i).charge i.opcode.info.slots) :=
    .single (.charge _ _)
  exact (hcharge.generate i).tail (.conclude _ _ _)

/-! ### Units -/

theorem constantKind?_of_declarationRule {sh : Shader} {w : Word} {d : Dest}
    {rule : DeclarationRule} (h : declarationRule sh w d = some rule) :
    Interface.constantKind? d.register = none := by
  unfold declarationRule at h
  unfold Interface.constantKind?
  -- the rules go by stage and file, and no stage has one for these three files
  cases hfile : d.register.file with
  | const | constInt | constBool => cases hstage : sh.stage <;> simp [hfile, hstage] at h
  | _ => rfl

theorem readDeclaration_other (s : Scan) (ws : List Word) :
    Interface.constantKind? (readDeclaration env s ws).1.dest.register = none ∨
      (readDeclaration env s ws).2.2.faults ≠ [] := by
  unfold readDeclaration
  dsimp only
  split
  next rule hrule => exact .inl (constantKind?_of_declarationRule hrule)
  next => exact .inr (by simp [Scan.fail])

theorem readOperands_fst (env : Env) (op : Opcode) (w : InstructionWord) (s : Scan) (ws : List Word) :
    (readOperands env op w s ws).1 = { (readArguments env op.info.shape s ws).1 with
      opcode := op, controls := w.controls, predicated := w.predicated } := by
  unfold readOperands
  dsimp only
  split <;> rfl

theorem opcode_readOperands (op : Opcode) (w : InstructionWord) (s : Scan) (ws : List Word) :
    (readOperands env op w s ws).1.opcode = op := by
  rw [readOperands_fst]

theorem fetches_readOperands (env : Env) (op : Opcode) (w : InstructionWord) (s : Scan)
    (ws : List Word) :
    Fetches (readArguments env op.info.shape s ws).2.2.2 (readOperands env op w s ws).2.2 := by
  unfold readOperands
  dsimp only
  split
  · exact Fetches.readPredicate .refl env _
  · exact .refl

theorem readOperands_other {op : Opcode} (w : InstructionWord) (s : Scan) (ws : List Word)
    (hop : op = .dcl) :
    Interface.constantKind? (readOperands env op w s ws).1.dest.register = none ∨
      (readOperands env op w s ws).2.2.faults ≠ [] := by
  subst hop
  rw [readOperands_fst]
  exact (@readDeclaration_other env s ws).imp_right
    (fetches_readOperands env .dcl w s ws).records.faults_ne_nil

def operandState (env : Env) (s : Scan) (op : Opcode) (w : InstructionWord) : Scan :=
  ((s.failIf w.highBit .instructionHighBit).failAll (headFaults env op w)).advance

theorem fetches_operandState (env : Env) (s : Scan) (op : Opcode) (w : InstructionWord) :
    Fetches s (operandState env s op w) :=
  ((Fetches.failIf .refl _ _).failAll _).advance

def lengthFaults (env : Env) (op : Opcode) (w : InstructionWord) (count : Nat) : List Fault :=
  if !env.atLeast 2 0 then faultIf (w.length != 0) .lengthNotZero
  else faultIf (count != w.length + 1) (.wrongLength count (w.length + 1) op)

theorem failIf_eq (s : Scan) (b : Bool) (f : Fault) : s.failIf b f = s.failAll (faultIf b f) := by
  cases b <;> rfl

theorem failAll_failAll (s : Scan) (fs gs : List Fault) : (s.failAll fs).failAll gs = s.failAll (fs ++ gs) :=
  List.foldl_append.symm

theorem settleLength_fst (env : Env) (op : Opcode) (w : InstructionWord) (s : Scan) (count : Nat) :
    (settleLength env op w s count).1 = s.failAll (lengthFaults env op w count) := by
  unfold settleLength lengthFaults
  split
  next => exact failIf_eq s _ _
  next =>
    split
    next heq =>
      rw [heq, bne_self_eq_false]
      rfl
    next hne =>
      rw [← failIf_eq, failIf, if_pos (bne_iff_ne.mpr hne)]

theorem settleLength_eq {op : Opcode} {w : InstructionWord} {count : Nat}
    (right : lengthFaults env op w count = []) (s : Scan) : settleLength env op w s count = (s, count) := by
  have hstate := settleLength_fst env op w s count
  rw [right] at hstate
  refine Prod.ext hstate ?_
  unfold lengthFaults at right
  unfold settleLength
  split
  · rfl
  next hmodel =>
    rw [if_neg hmodel] at right
    split
    · rfl
    next hne => simp [faultIf, hne] at right

/-- An instruction is executed at its start once its operands are read, and then its length is checked. -/
theorem readInstruction_eq {op : Opcode} (known : op.isReserved = false) (w : InstructionWord) (s : Scan)
    (ws : List Word) :
    readInstruction env s op w ws = settleLength env op w
      (Scan.execute env ((readOperands env op w (operandState env s op w) ws).2.2.moveTo s.position)
        (readOperands env op w (operandState env s op w) ws).1)
      (readOperands env op w (operandState env s op w) ws).2.1 := by
  have hposition : (s.failIf w.highBit .instructionHighBit).position = s.position := by
    rw [failIf_eq, failAll_eq]
  simp only [readInstruction, known, Bool.false_eq_true, if_false, hposition]
  rfl

theorem moves_execute (env : Env) (op : Opcode) (w : InstructionWord) (s : Scan) (ws : List Word)
    (p : Position) :
    Moves env (readOperands env op w s ws).2.2
      (Scan.execute env ((readOperands env op w s ws).2.2.moveTo p)
        (readOperands env op w s ws).1) := by
  apply Moves.execute
  · exact .single (.fetch (.moveTo _ _))
  · intro hop
    rw [opcode_readOperands] at hop
    exact readOperands_other w s ws hop

def noteEnd (s : Scan) (w : Word) : Scan :=
  if w = Word.endMark then { s with ended := true } else s

theorem ofWord_eq_finish_iff (w : Word) : UnitHead.ofWord w = .finish ↔ w = Word.endMark := by
  constructor
  · intro h
    unfold UnitHead.ofWord at h
    split at h
    · cases h
    · split at h
      · assumption
      · split at h
        · cases h
        · dsimp only at h
          split at h <;> cases h
  · rintro rfl
    rfl

theorem noteEnd_of_ne {w : Word} {u : UnitHead} (s : Scan) (h : UnitHead.ofWord w = u)
    (hu : u ≠ .finish) : s.noteEnd w = s := by
  unfold noteEnd
  split
  next hw => exact absurd (h.symm.trans ((ofWord_eq_finish_iff w).mpr hw)) hu
  next => rfl

/-- What a unit comes to, whatever is wrong with it, by what it is, from a state in which its end mark has
been noted and with the words `ws` after its first one. -/
inductive Effect (env : Env) (s : Scan) (ws : List Word) : UnitHead → Scan → Prop
  | faults {head : UnitHead} (fs : List Fault)
      (other : ∀ op w, head = .instruction op w → op.isReserved = true) : Effect env s ws head (s.failAll fs)
  | preshader {length : Nat} (fs : List Fault) (p : Option Preshader) :
      Effect env s ws (.comment length) { s.failAll fs with preshader := p }
  /-- The first symbol table, if it cannot be read. -/
  | table {length : Nat} {payload : List Word} (fs : List Fault) (first : s.haveTable = false)
      (unread : (Symbol.table payload env.versionWord).value = none) :
      Effect env s ws (.comment length)
        { s.failAll (fs ++ (Symbol.table payload env.versionWord).faults) with haveTable := true }
  | symbols {length : Nat} {payload : List Word} (fs : List Fault) (symbols : List Symbol)
      (first : s.haveTable = false) (short : payload.length < length)
      (read : (Symbol.table payload env.versionWord).value = some symbols) :
      Effect env s ws (.comment length) { s.failAll fs with
        haveTable := true
        symbols := symbols
        arrays := (s.failAll fs).arrays ++ rangeArrays symbols }
  | close (fs : List Fault) : Effect env s ws .finish ((s.failAll fs).close env)
  | execute {op : Opcode} {w : InstructionWord} (known : op.isReserved = false) :
      Effect env s ws (.instruction op w)
        ((Scan.execute env ((readOperands env op w (operandState env s op w) ws).2.2.moveTo s.position)
            (readOperands env op w (operandState env s op w) ws).1).failAll
          (lengthFaults env op w (readOperands env op w (operandState env s op w) ws).2.1))

theorem effect_readComment (s : Scan) (ws : List Word) (fs : List Fault) {block : List Word} {length : Nat}
    (short : block.length ≤ length) :
    Effect env s ws (.comment length) ((s.failAll fs).readComment env block) := by
  have hfaults : ∀ gs, Effect env s ws (.comment length) ((s.failAll fs).failAll gs) := by
    intro gs
    rw [failAll_failAll]
    exact .faults _ (by simp)
  match block with
  | [] | [_] => exact hfaults []
  | id :: word :: rest =>
    simp only [readComment]
    split
    · unfold readPreshader absorb
      split
      · exact hfaults [_]
      · dsimp only
        rw [failAll_failAll]
        exact .preshader _ _
    · split
      · have htable : (s.failAll fs).haveTable = s.haveTable := by rw [failAll_eq]
        unfold readTable absorb
        cases first : s.haveTable with
        | true =>
          rw [htable, first]
          exact hfaults [_]
        | false =>
          rw [htable, first, if_neg Bool.false_ne_true]
          dsimp only
          rw [failAll_failAll]
          cases hvalue : (Symbol.table (word :: rest) env.versionWord).value with
          | none => exact .table fs first hvalue
          | some symbols => exact .symbols _ symbols first short hvalue
      · exact hfaults []

theorem effect_readUnit (env : Env) (s : Scan) (w : Word) (ws : List Word) :
    Effect env (s.noteEnd w) ws (UnitHead.ofWord w) (readUnit env s w ws).1 := by
  unfold readUnit
  cases hw : UnitHead.ofWord w with
  | comment length =>
    -- a comment that is cut off is not read at all
    rw [noteEnd_of_ne s hw (by simp)]
    dsimp only
    rw [failIf_eq]
    split
    · exact effect_readComment s ws _ (List.length_take_le _ _)
    · exact .faults _ (by simp)
  | finish =>
    rw [show s.noteEnd w = { s with ended := true } from if_pos ((ofWord_eq_finish_iff w).mp hw)]
    dsimp only
    rw [failIf_eq]
    split
    · exact .faults _ (by simp)
    · exact .close _
  | phase =>
    rw [noteEnd_of_ne s hw (by simp)]
    dsimp only
    rw [failIf_eq]
    exact .faults _ (by simp)
  | instruction op fields =>
    rw [noteEnd_of_ne s hw (by simp)]
    dsimp only
    cases known : op.isReserved with
    | true =>
      -- without its shape there is nothing to read or execute
      have hreserved : (readInstruction env s op fields ws).1 =
          s.failAll (faultIf fields.highBit .instructionHighBit ++ [.unknownOpcode]) := by
        simp only [readInstruction, known, if_true, failIf_eq]
        exact failAll_failAll s _ [_]
      rw [hreserved]
      exact .faults _ (by rintro _ _ ⟨⟩; exact known)
    | false =>
      rw [readInstruction_eq known, settleLength_fst]
      exact .execute known
  | unknown =>
    rw [noteEnd_of_ne s hw (by simp)]
    exact .faults [_] (by simp)

theorem Effect.moves {head : UnitHead} {ws : List Word} (h : Effect env s ws head t) : Moves env s t := by
  have hfaults : ∀ fs, Moves env s (s.failAll fs) := .failAll .refl
  cases h with
  | faults fs => exact hfaults fs
  | preshader fs p => exact (hfaults fs).tail (.preshader _ p)
  | table fs => exact (hfaults _).tail (.seeTable _)
  | symbols fs symbols => exact ((hfaults fs).tail (.seeTable _)).tail (.symbols _ symbols)
  | close fs => exact (hfaults fs).close
  | @execute op w known =>
    -- operands are fetched from behind the opcode, then the instruction is executed at its start
    have hoperands := (fetches_operandState env s op w).readOperands env op w ws
    exact Moves.failAll (hoperands.moves.trans (moves_execute env op w _ ws s.position)) _

/-- Reading a unit is a number of steps, once its end mark has been noted. -/
theorem moves_readUnit (env : Env) (s : Scan) (w : Word) (ws : List Word) :
    Moves env (s.noteEnd w) (readUnit env s w ws).1 :=
  (effect_readUnit env s w ws).moves

/-! ### Before and after the units -/

theorem moves_start (env : Env) : Moves env { position := .before } (start env) :=
  .failIf .refl _ _

theorem fetches_finish (env : Env) (s : Scan) : Fetches s (finish env s) := by
  have hm : Fetches s (s.moveTo .after) := .single (.moveTo s .after)
  exact (hm.failIf _ _).failIf _ _

theorem moves_finish (env : Env) (s : Scan) : Moves env s (finish env s) := (fetches_finish env s).moves

end ShaderLift.Scan
