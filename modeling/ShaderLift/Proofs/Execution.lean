/-
What a unit without a fault does, said once.  `Moves` lists every step that reading might take;
`Visit.Does` tells the units of a shader that nothing is wrong with apart by what they do in full:

* a comment or a phase mark leaves everything but symbols, arrays and the preshader as it is;
* the end mark closes the function that is open, unless it is closed already;
* an instruction is fetched, breaks no rule, takes its consequences and writes its code.
-/
import ShaderLift.Proofs.Accounting

namespace ShaderLift

open Glsl (Emission)

variable {env : Env} {ws : List Word}

theorem faultIf_eq_nil {b : Bool} {f : Fault} (h : faultIf b f = []) : b = false := by
  cases b with
  | false => rfl
  | true => cases h

namespace Scan

variable {env : Env} {s t : Scan} {i : Instruction}
variable {op : Opcode} {payload : List Word} {w : InstructionWord}

/-! ### Consequences -/

/-- How many blocks of each kind are open. -/
structure Depths where
  loops : Nat
  reps : Nat
  conds : Nat
  deriving Repr, DecidableEq

def depths (s : Scan) : Depths := ⟨s.loops, s.reps, s.ifs⟩

/-- Consequences that neither open nor close anything. -/
structure Level (s t : Scan) : Prop extends Untouched s t where
  depths : t.depths = s.depths
  pads : t.pads = s.pads

theorem level_account (env : Env) (s : Scan) (i : Instruction) (h : i.opcode.isBracket = false) :
    Level s (account env s i) := by
  have hdoes := Consequence.of_account env s i
  generalize account env s i = t at hdoes ⊢
  cases hdoes with
  | blocks op => exact absurd op.1 (Bool.eq_false_iff.mp h)
  | pad2 op | pad3 op => rw [op] at h; cases h
  | _ => exact ⟨⟨rfl, rfl, rfl, rfl, rfl, rfl⟩, rfl, rfl⟩

/-! ### Execution -/

/-- The state in which the code of an instruction is written: its consequences are taken over and its
slots are charged. -/
def settled (env : Env) (s : Scan) (i : Instruction) : Scan :=
  (account env s i).charge i.opcode.info.slots

theorem untouched_settled (env : Env) (s : Scan) (i : Instruction) :
    Untouched s (settled env s i) :=
  (untouched_account env s i).trans ⟨rfl, rfl, rfl, rfl, rfl, rfl⟩

/-- The state in which the code of an instruction is put out; the end of a function may put out a
colour. -/
def ready (env : Env) (s : Scan) (i : Instruction) : Scan :=
  if i.opcode = .ret then (settled env s i).markColor env else settled env s i

def codeOf (env : Env) (s : Scan) (i : Instruction) : Emission Unit :=
  instructionCode env.toShader (settled env s i) i

/-- The state after an instruction that nothing is wrong with so far. -/
def executed (env : Env) (s : Scan) (i : Instruction) : Scan :=
  let t := (ready env s i).emit (codeOf env s i)
  { t with
    pads := if i.opcode.closesMatrix then {} else t.pads
    previous := some i.opcode }

theorem untouched_ready (env : Env) (s : Scan) (i : Instruction) : Untouched s (ready env s i) := by
  have hsettled := untouched_settled env s i
  unfold ready
  split
  · refine hsettled.trans ?_
    unfold markColor
    split <;> exact ⟨rfl, rfl, rfl, rfl, rfl, rfl⟩
  · exact hsettled

theorem execute_eq (legal : violations env s i = []) (flag : s.failing = false) :
    execute env s i = executed env s i := by
  have hjudge : (judge env s i).charge i.opcode.info.slots = settled env s i := by
    rw [judge, legal]
    rfl
  have hflag : (settled env s i).failing = false :=
    (untouched_settled env s i).failing.trans flag
  have hgenerate : (settled env s i).generate env i = (ready env s i).emit (codeOf env s i) := by
    unfold generate ready codeOf
    rw [hflag, if_neg Bool.false_ne_true]
    split
    next hret =>
      -- what closes a function is the code of its last instruction
      have hclose : instructionCode env.toShader (settled env s i) i =
          closeCode env.toShader (settled env s i) := by
        unfold instructionCode
        rw [hret]
      rw [hclose]
      rfl
    next => rfl
  unfold execute executed
  dsimp only
  rw [hjudge, hgenerate]

theorem violations_of_execute (clean : (execute env s i).faults = []) : violations env s i = [] := by
  have hnone := (moves_judge_execute env s i).records.faults_eq_nil clean
  rw [judge, (untouched_account env _ i).faults] at hnone
  exact eq_nil_of_faults_failAll hnone

theorem codeOf_faults_of_executed (clean : (executed env s i).faults = []) :
    (codeOf env s i).faults = [] :=
  eq_nil_of_faults_failAll (s := ready env s i) clean

theorem emit_eq {e : Emission Unit} (h : e.faults = []) (s : Scan) :
    s.emit e = { s with
      code := s.code ++ e.code
      helpers := e.helpers.foldl Glsl.addHelper s.helpers } := by
  rw [emit, h]
  rfl

/-- Beside its consequences an instruction takes its slots, writes its code and ends texture matrices. -/
theorem executed_eq (sound : (codeOf env s i).faults = []) :
    executed env s i = { account env s i with
      used := (ready env s i).used
      slots := (account env s i).slots + i.opcode.info.slots
      code := s.code ++ (codeOf env s i).code
      helpers := (executed env s i).helpers
      pads := if i.opcode.closesMatrix then {} else (account env s i).pads
      previous := some i.opcode } := by
  unfold executed
  rw [emit_eq sound, (untouched_ready env s i).code]
  unfold ready markColor
  split
  · split <;> rfl
  · rfl

theorem code_executed (h : (codeOf env s i).faults = []) :
    (executed env s i).code = s.code ++ (codeOf env s i).code := by
  rw [executed_eq h]

theorem code_close (env : Env) (s : Scan) :
    (s.close env).code = s.code ++ (closeCode env.toShader s).code := by
  rw [close_eq env s]

theorem Fetches.pads_eq (h : Fetches s t) : t.pads = s.pads := by
  rw [h.frame]

theorem eq_false_of_failIf {b : Bool} {f : Fault} (flag : (s.failIf b f).failing = false) : b = false := by
  cases b with
  | false => rfl
  | true => simp [failIf, fail] at flag

theorem failIf_of_flag {b : Bool} {f : Fault} (flag : (s.failIf b f).failing = false) :
    s.failIf b f = s := by
  rw [eq_false_of_failIf flag]
  rfl

theorem readInstruction_of_flag {ws : List Word}
    (flag : (readInstruction env s op w ws).1.failing = false) :
    (∀ t, operandState env t op w = t.advance) ∧
      (readOperands env op w s.advance ws).2.2.failing = false ∧ ∀ t,
      (readOperands env op w t.advance ws).2.1 = (readOperands env op w s.advance ws).2.1 →
      readInstruction env t op w ws =
        (execute env ((readOperands env op w t.advance ws).2.2.moveTo t.position)
          (readOperands env op w t.advance ws).1, (readOperands env op w t.advance ws).2.1) := by
  cases hreserved : op.isReserved with
  | true => simp [readInstruction, hreserved, fail] at flag
  | false =>
    rw [readInstruction_eq hreserved, settleLength_fst] at flag
    have hexecuted := (Fetches.failAll .refl _).records.flag flag
    have hoperands := (moves_execute env op w _ ws _).records.flag hexecuted
    -- before the operands nothing has happened
    have hstart := (Fetches.readOperands .refl env op w ws).records.flag hoperands
    have hjudged : ((s.failIf w.highBit .instructionHighBit).failAll (headFaults env op w)).failing = false :=
      (Fetches.advance .refl).records.flag hstart
    have hhigh := eq_false_of_failIf ((Fetches.failAll .refl _).records.flag hjudged)
    have hstate : ∀ t, operandState env t op w = t.advance := by
      intro t
      rw [operandState, hhigh, eq_nil_of_failAll hjudged]
      rfl
    have hlength := eq_nil_of_failAll flag
    rw [hstate] at hoperands hlength
    refine ⟨hstate, hoperands, fun t hcount => ?_⟩
    rw [readInstruction_eq hreserved, hstate, hcount, settleLength_eq hlength]

/-! ### Comments -/

def annotated (s : Scan) (haveTable : Bool) (symbols : List Symbol) (more : List ConstantArray)
    (preshader : Option Preshader) : Scan :=
  { s with
    haveTable := haveTable
    symbols := symbols
    arrays := s.arrays ++ more
    preshader := preshader }

theorem annotated_self (s : Scan) : s.annotated s.haveTable s.symbols [] s.preshader = s := by
  rw [annotated, List.append_nil]

/-- A comment or a phase mark without a fault brings symbols, arrays or a preshader, if anything. -/
theorem Effect.exists_annotated {t : Scan} {ws : List Word} {head : UnitHead} (h : Effect env s ws head t)
    (unmarked : head ≠ .finish) (other : ∀ op w, head ≠ .instruction op w) (flag : t.failing = false) :
    ∃ haveTable symbols more preshader, t = s.annotated haveTable symbols more preshader := by
  have hnone : ∀ {fs}, (s.failAll fs).failing = false → s.failAll fs = s := by
    intro fs hflag
    rw [eq_nil_of_failAll hflag]
    rfl
  cases h with
  | faults fs => exact ⟨_, _, _, _, (hnone flag).trans s.annotated_self.symm⟩
  | preshader fs p =>
    rw [hnone flag]
    exact ⟨_, _, [], p, by rw [annotated, List.append_nil]⟩
  | table fs =>
    rw [hnone flag]
    exact ⟨true, _, [], _, by rw [annotated, List.append_nil]⟩
  | symbols fs symbols =>
    rw [hnone flag]
    exact ⟨true, symbols, _, _, rfl⟩
  | close => exact absurd rfl unmarked
  | execute => exact absurd rfl (other _ _)

end Scan

/-! ### Units -/

namespace Visit

variable {v : Visit} {i : Instruction}

def instruction? (v : Visit) : Option Instruction :=
  match UnitHead.ofWord v.word with
  | .instruction op fields =>
    some (Scan.readOperands v.env op fields v.before.advance v.rest).1
  | _ => none

/-- The unit is the instruction `i`, which is executed in the state `s`. -/
structure Executes (v : Visit) (i : Instruction) (s : Scan) : Prop where
  /-- Instruction and state are what fetching the operands gives. -/
  fetched : ∃ fields, UnitHead.ofWord v.word = .instruction i.opcode fields ∧
    i = (Scan.readOperands v.env i.opcode fields v.before.advance v.rest).1 ∧
    s = (Scan.readOperands v.env i.opcode fields v.before.advance v.rest).2.2.moveTo
      v.before.position
  clean : s.faults = []
  flag : s.failing = false
  legal : Scan.violations v.env s i = []
  sound : (Scan.codeOf v.env s i).faults = []
  after : v.after = Scan.executed v.env s i

theorem fetches_operands (v : Visit) (op : Opcode) (fields : InstructionWord) :
    Scan.Fetches v.before ((Scan.readOperands v.env op fields v.before.advance v.rest).2.2.moveTo
      v.before.position) :=
  ((Scan.Fetches.advance .refl).readOperands v.env op fields v.rest).tail (.moveTo _ _)

theorem Executes.fetches {s : Scan} (h : v.Executes i s) : Scan.Fetches v.before s := by
  obtain ⟨fields, -, -, rfl⟩ := h.fetched
  exact v.fetches_operands i.opcode fields

theorem Executes.arguments {s : Scan} (h : v.Executes i s) :
    i.toArguments = (Scan.readArguments v.env i.opcode.info.shape v.before.advance v.rest).1 ∧
      (Scan.readArguments v.env i.opcode.info.shape v.before.advance v.rest).2.2.2.failing = false ∧
      Scan.Fetches (Scan.readArguments v.env i.opcode.info.shape v.before.advance v.rest).2.2.2 s := by
  obtain ⟨fields, -, hi, hs⟩ := h.fetched
  have hrest : Scan.Fetches _ s :=
    hs ▸ (Scan.fetches_readOperands v.env i.opcode fields v.before.advance v.rest).tail (.moveTo _ _)
  exact ⟨congrArg Instruction.toArguments (hi.trans (Scan.readOperands_fst ..)),
    hrest.records.flag h.flag, hrest⟩

inductive Does (v : Visit) : Prop
  | idle (other : v.instruction? = none) (unmarked : v.word ≠ Word.endMark) (haveTable : Bool)
      (symbols : List Symbol) (more : List ConstantArray) (preshader : Option Preshader)
      (after : v.after = v.before.annotated haveTable symbols more preshader)
  /-- The end mark, where no function is open any more. -/
  | rest (other : v.instruction? = none) (mark : v.word = Word.endMark)
      (closed : v.before.previous = some .ret) (after : v.after = { v.before with ended := true })
  /-- The end mark, which closes the function that is open. -/
  | finish (other : v.instruction? = none) (mark : v.word = Word.endMark)
      (opened : v.before.previous ≠ some .ret)
      (after : v.after = Scan.close v.env { v.before with ended := true })
  | execute (i : Instruction) (s : Scan) (this : v.instruction? = some i) (h : v.Executes i s)

theorem Does.executes (h : v.Does) (this : v.instruction? = some i) : ∃ s, v.Executes i s := by
  cases h with
  | idle other | rest other | finish other =>
    rw [this] at other
    cases other
  | execute j s that h =>
    cases this.symm.trans that
    exact ⟨s, h⟩

theorem word_ne_endMark {head : UnitHead} (hhead : UnitHead.ofWord v.word = head)
    (hne : head ≠ .finish) : v.word ≠ Word.endMark := by
  intro hw
  exact hne (hhead.symm.trans ((Scan.ofWord_eq_finish_iff v.word).mpr hw))

theorem does_of_endMark (hhead : UnitHead.ofWord v.word = .finish) (flag : v.after.failing = false) :
    v.Does := by
  have hnone : v.instruction? = none := by rw [instruction?, hhead]
  have hword := (Scan.ofWord_eq_finish_iff v.word).mp hhead
  let noted : Scan := { v.before with ended := true }
  let judged : Scan := noted.failIf (v.env.knownSize && !v.rest.isEmpty) .earlyEnd
  have hafter : v.after = if judged.failing || judged.previous = some .ret then judged
      else judged.close v.env := by
    rw [after, Scan.readUnit, hhead]
  have hjudged : judged = noted := by
    apply Scan.failIf_of_flag
    rw [hafter] at flag
    split at flag
    · exact flag
    · exact (Scan.Moves.close .refl).records.flag flag
  rw [hjudged, show noted.failing = false from v.records.flag flag, Bool.false_or] at hafter
  by_cases hret : v.before.previous = some .ret
  · exact .rest hnone hword hret (hafter.trans (if_pos (decide_eq_true hret)))
  · refine .finish hnone hword hret (hafter.trans (if_neg ?_))
    simpa using hret

theorem does_of_instruction {op : Opcode} {fields : InstructionWord}
    (hhead : UnitHead.ofWord v.word = .instruction op fields) (flag : v.after.failing = false)
    (clean : v.after.faults = []) : v.Does := by
  have hafter : v.after = (Scan.readInstruction v.env v.before op fields v.rest).1 := by
    rw [after, Scan.readUnit, hhead]
  rw [hafter] at flag clean
  obtain ⟨-, hflag, hread⟩ := Scan.readInstruction_of_flag flag
  have hexecute := congrArg Prod.fst (hread v.before rfl)
  have hop : (Scan.readOperands v.env op fields v.before.advance v.rest).1.opcode = op :=
    Scan.opcode_readOperands op fields v.before.advance v.rest
  rw [hexecute] at clean
  have hfetched := (Scan.moves_execute v.env op fields _ v.rest _).records.faults_eq_nil clean
  have hlegal := Scan.violations_of_execute clean
  rw [Scan.execute_eq hlegal hflag] at clean hexecute
  have hsound := Scan.codeOf_faults_of_executed clean
  refine .execute _ (Scan.moveTo _ v.before.position) (by rw [instruction?, hhead]) ⟨⟨fields, ?_⟩, hfetched,
    hflag, hlegal, hsound, hafter.trans hexecute⟩
  rw [hop]
  exact ⟨hhead, rfl, rfl⟩

/-- Every unit without a fault does one of these, if the flag was down before it. -/
theorem does_of_clean (v : Visit) (flag : v.before.failing = false) (clean : v.after.faults = []) :
    v.Does := by
  replace flag : v.after.failing = false := (v.records.failing_eq clean).trans flag
  cases hhead : UnitHead.ofWord v.word with
  | finish => exact does_of_endMark hhead flag
  | instruction op fields => exact does_of_instruction hhead flag clean
  | comment | phase | unknown =>
    have hword := word_ne_endMark hhead (by simp)
    have heffect := Scan.effect_readUnit v.env v.before v.word v.rest
    rw [Scan.noteEnd, if_neg hword] at heffect
    obtain ⟨haveTable, symbols, more, preshader, hafter⟩ :=
      heffect.exists_annotated (by simp [hhead]) (by simp [hhead]) flag
    exact .idle (by rw [instruction?, hhead]) hword _ _ _ _ hafter

end Visit

/-! ### Code of units -/

namespace Visit

variable {v : Visit}

/-- The statements that a unit adds to the code. -/
def written (v : Visit) : List Glsl.Stmt := v.after.code.drop v.before.code.length

theorem written_eq {code : List Glsl.Stmt} (h : v.after.code = v.before.code ++ code) :
    v.written = code := by
  rw [written, h, List.drop_left]

theorem Executes.code_after {i : Instruction} {s : Scan} (h : v.Executes i s) :
    v.after.code = v.before.code ++ (Scan.codeOf v.env s i).code := by
  rw [h.after, Scan.code_executed h.sound, h.fetches.code_eq]

theorem code_after_finish (after : v.after = Scan.close v.env { v.before with ended := true }) :
    v.after.code = v.before.code ++ (Scan.closeCode v.env.toShader v.before).code := by
  rw [after]
  exact Scan.code_close v.env { v.before with ended := true }

theorem Does.code_after (h : v.Does) : v.after.code = v.before.code ++ v.written := by
  have hadded : ∃ code, v.after.code = v.before.code ++ code := by
    cases h with
    | idle _ _ _ _ _ _ after | rest _ _ _ after =>
      exact ⟨[], (congrArg Scan.code after).trans (List.append_nil _).symm⟩
    | finish _ _ _ after => exact ⟨_, code_after_finish after⟩
    | execute i s this h => exact ⟨_, h.code_after⟩
  obtain ⟨code, hcode⟩ := hadded
  rw [written_eq hcode]
  exact hcode

end Visit

section Observed

variable {α : Type} {env : Env} {Q : Visit → Prop} {f : Scan → α} {g : α → Visit → α}
  (start : ∀ s p, f (s.startUnit p) = f s) (cut : ∀ s, f s.cutOff = f s)
  (step : ∀ v : Visit, v.env = env → Q v → f v.after = g (f v.before) v)
  {s t : Scan} {n : Nat} {ws : List Word} {vs : List Visit}
include start cut step

theorem Scan.Run.observed (r : Scan.Run env s n ws vs t) (does : ∀ v ∈ vs, Q v) :
    f t = vs.foldl g (f s) := by
  induction r with
  | done => rfl
  | cut s n w ws => rw [cut, step _ rfl (does _ List.mem_cons_self), visit, start]; rfl
  | stop s n w ws => rw [step _ rfl (does _ List.mem_cons_self), visit, start]; rfl
  | next s n w ws _ _ _ ih =>
    rw [ih fun v hv => does v (List.mem_cons_of_mem _ hv), step _ rfl (does _ List.mem_cons_self),
      List.foldl_cons]
    rw [visit, start]

/-- What is observed before a unit, and what follows from it. -/
theorem Scan.Run.observed_at (r : Scan.Run env s n ws vs t) (does : ∀ v ∈ vs, Q v)
    {earlier later : List Visit} {v : Visit} (hvs : vs = earlier ++ v :: later) :
    f v.before = earlier.foldl g (f s) ∧ f t = later.foldl g (f v.after) := by
  induction r generalizing earlier with
  | done => simp at hvs
  | cut s n w ws =>
    obtain ⟨rfl, rfl, rfl⟩ : earlier = [] ∧ visit env s n w ws = v ∧ later = [] := by
      cases earlier <;> simp_all
    exact ⟨start _ _, cut _⟩
  | stop s n w ws =>
    obtain ⟨rfl, rfl, rfl⟩ : earlier = [] ∧ visit env s n w ws = v ∧ later = [] := by
      cases earlier <;> simp_all
    exact ⟨start _ _, rfl⟩
  | next s n w ws _ _ hrest ih =>
    have hlater := fun u hu => does u (List.mem_cons_of_mem _ hu)
    cases earlier with
    | nil =>
      obtain ⟨rfl, rfl⟩ := List.cons.inj hvs
      exact ⟨start _ _, hrest.observed start cut step hlater⟩
    | cons u earlier =>
      obtain ⟨rfl, hsplit⟩ := List.cons.inj hvs
      obtain ⟨hbefore, hend⟩ := ih hlater hsplit
      refine ⟨?_, hend⟩
      rw [hbefore, step _ rfl (does _ List.mem_cons_self), List.foldl_cons]
      rw [visit, start]

end Observed

section Appended

variable {α : Type} {env : Env} {f : Scan → List α} {g : Visit → List α}
  (start : ∀ s p, f (s.startUnit p) = f s) (cut : ∀ s, f s.cutOff = f s)
  (step : ∀ v : Visit, v.Does → f v.after = f v.before ++ g v)
  {s t : Scan} {n : Nat} {ws : List Word} {vs : List Visit}
include start cut step

/-- A part of the state that units only add to is what they add, one after the other. -/
theorem Scan.Run.appended (r : Scan.Run env s n ws vs t) (does : ∀ v ∈ vs, v.Does) :
    f t = f s ++ vs.flatMap g :=
  (r.observed start cut (fun v _ h => step v h) does).trans List.foldl_append_eq_append

theorem Scan.Run.appended_at (r : Scan.Run env s n ws vs t) (does : ∀ v ∈ vs, v.Does)
    {earlier later : List Visit} {v : Visit} (hvs : vs = earlier ++ v :: later) :
    f v.before = f s ++ earlier.flatMap g :=
  (r.observed_at start cut (fun v _ h => step v h) does hvs).1.trans List.foldl_append_eq_append

end Appended

theorem Scan.Run.code_eq {s t : Scan} {n : Nat} {vs : List Visit} (r : Scan.Run env s n ws vs t)
    (does : ∀ v ∈ vs, v.Does) : t.code = s.code ++ vs.flatMap Visit.written :=
  r.appended (fun _ _ => rfl) (fun _ => rfl) (fun _ h => h.code_after) does

theorem does_of_no_errors (p : Glsl.Profile) (o : Options) (ws : List Word)
    (h : (liftWords p o ws).errors = []) : ∀ v ∈ unitsOf o ws, v.Does := by
  intro v hv
  exact v.does_of_clean (unitsOf_reported p o ws v hv).1 (unitsOf_of_no_errors p o ws h v hv).2

theorem Scan.flag_of_clean (clean : (ofUnits env ws).faults = []) : (ofUnits env ws).failing = false :=
  (Bool.or_eq_false_iff.mp ((ofUnits_faults_eq_nil_iff env ws).mp clean)).2

theorem Scan.start_of_clean (clean : (ofUnits env ws).faults = []) :
    start env = { position := .before } := by
  simp [start, failIf, isSupported_of_ofUnits clean]

/-- If nothing is wrong at the end, a colour that is copied was written. -/
theorem Scan.finish_of_flag {s : Scan} (flag : (finish env s).failing = false) :
    finish env s = s.moveTo .after ∧
      (colorFromTemp env.toShader = true → s.wasWritten ⟨.temp, 0⟩ = true) := by
  have hcolor := failIf_of_flag flag
  have hend : finish env s = s.moveTo .after := by
    refine Eq.trans hcolor (failIf_of_flag ?_)
    rw [← hcolor]
    exact flag
  refine ⟨hend, fun h => ?_⟩
  cases hwritten : s.wasWritten ⟨.temp, 0⟩ with
  | true => rfl
  | false =>
    have hmoved : (s.moveTo .after).wasWritten ⟨.temp, 0⟩ = false := hwritten
    unfold finish at flag
    simp [failIf, fail, h, hmoved] at flag

theorem run_of_no_errors {p : Glsl.Profile} {o : Options} (h : (liftWords p o ws).errors = []) :
    ∃ w us env t, ws = w :: us ∧ linkShader o ws = .ok (.ofUnits env us) ∧
      Scan.Run env { position := .before } 1 us (unitsOf o ws) t ∧
      Scan.ofUnits env us = t.moveTo .after ∧
      Interface.faults env.toShader (Scan.ofUnits env us) = [] ∧
      (Scan.colorFromTemp env.toShader = true → t.wasWritten ⟨.temp, 0⟩ = true) := by
  obtain ⟨w, us, env, rfl, hversion, good, hlink⟩ := linkShader_of_no_errors p o ws h
  have hrun := Scan.run_readUnits env (Scan.start env) 1 us
  rw [← unitsOf_cons o hversion, Scan.start_of_clean good] at hrun
  obtain ⟨hfinish, hcolor⟩ := Scan.finish_of_flag (Scan.flag_of_clean good)
  rw [Scan.start_of_clean good] at hfinish hcolor
  refine ⟨w, us, env, _, rfl, hlink, hrun, ?_, interface_of_linkShader hversion good hlink, hcolor⟩
  rw [Scan.ofUnits, Scan.start_of_clean good]
  exact hfinish

section Written

variable {p : Glsl.Profile} {o : Options} {ws : List Word} {l : LinkedShader}
  (clean : (liftWords p o ws).errors = []) (hlink : linkShader o ws = .ok l)
include clean hlink

theorem code_eq_written : l.scan.code = (unitsOf o ws).flatMap Visit.written := by
  obtain ⟨w, us, env, t, -, hlinked, hrun, hscan, -, -⟩ := run_of_no_errors clean
  cases hlinked.symm.trans hlink
  show (Scan.ofUnits env us).code = _
  rw [hscan]
  exact hrun.code_eq (does_of_no_errors p o ws clean)

theorem hasLine_of_written {v : Visit} (hv : v ∈ unitsOf o ws) {c : Glsl.Stmt} (hc : c ∈ v.written)
    {line : String} (hline : .line line ∈ c.layout l.env.toShader) :
    Glsl.HasLine (liftWords p o ws).output line := by
  have hmem : c ∈ l.scan.code := by
    rw [code_eq_written clean hlink]
    exact List.mem_flatMap.mpr ⟨v, hv, hc⟩
  rw [liftWords_eq, hlink]
  exact Glsl.hasLine_program_of_code p o hmem hline

end Written

end ShaderLift
