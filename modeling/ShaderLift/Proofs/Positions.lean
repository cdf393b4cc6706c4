/-
Where faults are said to be.  Reading moves the position on with every word it comes to, and faults are
recorded at the position reached.  For the operands of an instruction this is

    Between first last s t ws     from `s` to `t` only the words from `first` to `last` were come to,
                                  and the words `ws` are still to come,

which every reader keeps.  Only a declaration moves past a word that may not be there, so that it can get
one word further than the code.  Before an instruction is judged, the position is set back to its first
word, and so all that is found later (`Visit.judgements`) is said to be there.
-/
import ShaderLift.Proofs.Execution

namespace ShaderLift

def LocatedFault.Between (first last : Nat) (e : LocatedFault) : Prop :=
  ∃ n, e.position = .word n ∧ first ≤ n ∧ n ≤ last

namespace Scan

/-! ### Reading operands -/

/-- On the way from `s` to `t` only the words from `first` to `last` were come to, and `ws` is what is
still to come. -/
structure Between (first last : Nat) (s t : Scan) (ws : List Word) : Prop where
  here : ∃ n, t.position = .word n ∧ first ≤ n ∧ n + ws.length ≤ last
  found : ∃ new, t.faults = s.faults ++ new ∧ ∀ e ∈ new, e.Between first last

namespace Between

variable {first last : Nat} {s t u : Scan} {w : Word} {ws us : List Word}

theorem of_eq (h : Between first last s t ws) (position : u.position = t.position)
    (faults : u.faults = t.faults) : Between first last s u ws where
  here := by
    rw [position]
    exact h.here
  found := by
    rw [faults]
    exact h.found

theorem mono (h : Between first last s t ws) {last' : Nat} (hlast : last ≤ last')
    (hlength : us.length ≤ ws.length) : Between first last' s t us where
  here := by
    obtain ⟨n, hn, hfirst, hle⟩ := h.here
    exact ⟨n, hn, hfirst, by omega⟩
  found := by
    obtain ⟨new, hnew, hall⟩ := h.found
    refine ⟨new, hnew, fun e he => ?_⟩
    obtain ⟨n, hn, hfirst, hle⟩ := hall e he
    exact ⟨n, hn, hfirst, Nat.le_trans hle hlast⟩

theorem fail (h : Between first last s t ws) (f : Fault) : Between first last s (t.fail f) ws where
  here := h.here
  found := by
    obtain ⟨n, hn, hfirst, hle⟩ := h.here
    obtain ⟨new, hnew, hall⟩ := h.found
    refine ⟨new ++ [⟨t.position, f⟩], ?_, ?_⟩
    · rw [Scan.fail, hnew, List.append_assoc]
    · intro e he
      rcases List.mem_append.mp he with he | he
      · exact hall e he
      · rw [List.mem_singleton.mp he]
        exact ⟨n, hn, hfirst, by omega⟩

theorem failIf (h : Between first last s t ws) (b : Bool) (f : Fault) :
    Between first last s (t.failIf b f) ws := by
  unfold Scan.failIf
  split
  · exact h.fail f
  · exact h

theorem failAll (h : Between first last s t ws) (fs : List Fault) :
    Between first last s (t.failAll fs) ws := by
  induction fs generalizing t with
  | nil => exact h
  | cons f fs ih => exact ih (h.fail f)

theorem position_advance {n : Nat} (h : t.position = .word n) : t.advance.position = .word (n + 1) := by
  unfold Scan.advance
  rw [h]
  rfl

theorem faults_advance (t : Scan) : t.advance.faults = t.faults := by
  unfold Scan.advance
  split <;> rfl

theorem overrun (h : Between first last s t ws) : Between first (last + 1) s t.advance ws where
  here := by
    obtain ⟨n, hn, hfirst, hle⟩ := h.here
    exact ⟨n + 1, position_advance hn, by omega, by omega⟩
  found := by
    rw [faults_advance]
    exact (h.mono (Nat.le_succ last) (Nat.le_refl _)).found

theorem advance (h : Between first last s t (w :: ws)) : Between first last s t.advance ws where
  here := by
    obtain ⟨n, hn, hfirst, hle⟩ := h.here
    rw [List.length_cons] at hle
    exact ⟨n + 1, position_advance hn, by omega, by omega⟩
  found := by
    rw [faults_advance]
    exact h.found

theorem walks {m : Register → Bool → Prop} {k : Nat} (h : Between first last s t ws)
    (hw : Walks m t ws k u us) : Between first (last + k) s u us := by
  induction hw with
  | refl => exact h
  | fail _ f ih => exact ih.fail f
  | advance _ ih => exact ih.advance
  | skip _ ih => exact ih.overrun.mono (Nat.le_refl _) (by rw [List.length_tail]; exact Nat.sub_le _ _)
  | mark _ _ _ _ _ ih => exact ih.of_eq rfl rfl
  | group _ _ ih => exact ih.of_eq rfl rfl
  | useArray _ _ _ _ ih => exact ih.of_eq rfl rfl
  | relativeInput _ ih => exact ih.of_eq rfl rfl

theorem readOperands (h : Between first last s t ws) (env : Env) (op : Opcode) (w : InstructionWord) :
    Between first (last + 1) s (Scan.readOperands env op w t ws).2.2 [] := by
  obtain ⟨k, hk, us, hw⟩ := Walks.readOperands env op w t ws
  exact (h.walks hw).mono (Nat.add_le_add_left hk last) (Nat.zero_le _)

end Between

/-! ### Judging instructions -/

variable {env : Env} {s : Scan} {i : Instruction}

/-- What is wrong with the code of an instruction.  None is written if something else is wrong. -/
def codeFaults (env : Env) (s : Scan) (i : Instruction) : List Fault :=
  if s.failing || !(violations env s i).isEmpty then [] else (codeOf env s i).faults

theorem located_execute (env : Env) (s : Scan) (i : Instruction) :
    (execute env s i).position = s.position ∧
      (execute env s i).faults = s.faults ++
        (violations env s i ++ codeFaults env s i).map fun f => ⟨s.position, f⟩ := by
  unfold codeFaults
  split
  next hbad =>
    -- the flag is up once the instruction is judged, and no code is written
    have hjudge := untouched_account env (s.failAll (violations env s i)) i
    have hflag : ((judge env s i).charge i.opcode.info.slots).failing = true := by
      show (account env (s.failAll (violations env s i)) i).failing = true
      rw [hjudge.failing, failAll_eq]
      exact hbad
    have hgenerate : ((judge env s i).charge i.opcode.info.slots).generate env i =
        (judge env s i).charge i.opcode.info.slots := by
      rw [generate, if_pos hflag]
    rw [execute, hgenerate, List.append_nil]
    constructor
    · show (account env (s.failAll (violations env s i)) i).position = _
      rw [hjudge.position, failAll_eq]
    · show (account env (s.failAll (violations env s i)) i).faults = _
      rw [hjudge.faults, failAll_eq]
  next hgood =>
    obtain ⟨hflag, hlegal⟩ : s.failing = false ∧ violations env s i = [] := by simpa using hgood
    have hready := untouched_ready env s i
    rw [execute_eq hlegal hflag, hlegal, List.nil_append]
    constructor
    · show ((ready env s i).failAll (codeOf env s i).faults).position = _
      rw [failAll_eq]
      exact hready.position
    · show ((ready env s i).failAll (codeOf env s i).faults).faults = _
      rw [failAll_eq, hready.faults, hready.position]

end Scan

/-! ### Units -/

namespace Visit

variable {v : Visit}

/-- The instruction that a unit reads after its opcode, the number of its words, and the state then. -/
def operands (v : Visit) (op : Opcode) (fields : InstructionWord) : Instruction × Nat × Scan :=
  Scan.readOperands v.env op fields (Scan.operandState v.env v.before op fields) v.rest

/-- What is found once the operands of an instruction are read: by the rules for its opcode, in its code
and in its length. -/
def judgements (v : Visit) : List Fault :=
  match UnitHead.ofWord v.word with
  | .instruction op fields =>
    if op.isReserved then []
    else
      let (i, count, s) := v.operands op fields
      Scan.violations v.env (s.moveTo (.word v.start)) i
        ++ Scan.codeFaults v.env (s.moveTo (.word v.start)) i
        ++ Scan.lengthFaults v.env op fields count
  | _ => []

/-- The state in which reading goes on after a unit, or ends. -/
def outcome (v : Visit) : Scan :=
  if v.rest.length + 1 < v.length then v.after.cutOff else v.after

/-- The faults that come up while a unit is read. -/
def raised (v : Visit) : List LocatedFault := v.outcome.faults.drop v.before.faults.length

/-- The faults that are found last: what an instruction is judged for, and that the code ends too early. -/
def lateFaults (v : Visit) : List Fault :=
  v.judgements ++ faultIf (v.rest.length + 1 < v.length) .truncated

end Visit

namespace Scan

/-- On the way from `s` to `t` the position stayed the same. -/
structure Stays (s t : Scan) : Prop where
  position : t.position = s.position
  found : ∃ fs : List Fault, t.faults = s.faults ++ fs.map fun f => ⟨s.position, f⟩

namespace Stays

variable {s t u : Scan}

theorem refl (s : Scan) : Stays s s := ⟨rfl, [], (List.append_nil _).symm⟩

theorem of_eq (h : Stays s t) (position : u.position = t.position) (faults : u.faults = t.faults) :
    Stays s u :=
  ⟨position.trans h.position, by rw [faults]; exact h.found⟩

theorem failAll (h : Stays s t) (fs : List Fault) : Stays s (t.failAll fs) := by
  obtain ⟨position, fs', hfaults⟩ := h
  rw [failAll_eq]
  refine ⟨position, fs' ++ fs, ?_⟩
  rw [hfaults, position, List.map_append, List.append_assoc]

theorem failIf (h : Stays s t) (b : Bool) (f : Fault) : Stays s (t.failIf b f) := by
  rw [failIf_eq]
  exact h.failAll _

theorem close (h : Stays s t) (env : Env) : Stays s (t.close env) := by
  have hcolor : Stays s (t.markColor env) := by
    unfold markColor
    split
    · exact h.of_eq rfl rfl
    · exact h
  exact (hcolor.failAll _).of_eq rfl rfl

/-- Comments, marks and words that nothing is known about are left at the position of their first word. -/
theorem effect {env : Env} {ws : List Word} {head : UnitHead} (h : Stays s t) (he : Effect env t ws head u)
    (other : ∀ op w, head = .instruction op w → op.isReserved = true) : Stays s u := by
  cases he with
  | faults fs => exact h.failAll fs
  | preshader fs | table fs | symbols fs => exact (h.failAll _).of_eq rfl rfl
  | close fs => exact (h.failAll fs).close env
  | execute known => simp [other _ _ rfl] at known

end Stays

end Scan

namespace Visit

variable {v : Visit}

theorem between_operands (start : v.before.position = .word v.start) (op : Opcode)
    (fields : InstructionWord) :
    Scan.Between v.start (v.start + v.rest.length + 2) v.before (v.operands op fields).2.2 [] := by
  have hstart : Scan.Between v.start (v.start + v.rest.length + 1) v.before v.before
      (v.word :: v.rest) :=
    ⟨⟨v.start, start, Nat.le_refl _, Nat.le_refl _⟩, [], (List.append_nil _).symm, by simp⟩
  have hoperands : Scan.Between v.start (v.start + v.rest.length + 1) v.before
      (Scan.operandState v.env v.before op fields) v.rest :=
    ((hstart.failIf fields.highBit .instructionHighBit).failAll (Scan.headFaults v.env op fields)).advance
  exact hoperands.readOperands v.env op fields

/-- A unit adds faults at words that it comes to, and then those it is judged for at its first word.
That is also where the position is in the end. -/
structure Located (v : Visit) : Prop where
  position : v.after.position = .word v.start
  found : ∃ early, (∀ e ∈ early, e.Between v.start (v.start + v.rest.length + 2)) ∧
    v.after.faults = v.before.faults ++ (early ++ v.judgements.map fun f => ⟨.word v.start, f⟩)

theorem located_of_stays (start : v.before.position = .word v.start)
    (h : Scan.Stays v.before v.after) (none : v.judgements = []) : v.Located := by
  obtain ⟨position, fs, hfaults⟩ := h
  rw [start] at hfaults
  refine ⟨position.trans start, fs.map fun f => ⟨.word v.start, f⟩, fun e he => ?_, ?_⟩
  · obtain ⟨f, -, rfl⟩ := List.mem_map.mp he
    exact ⟨v.start, rfl, Nat.le_refl _, by omega⟩
  · rw [hfaults, none, List.map_nil, List.append_nil]

theorem located_of_instruction (start : v.before.position = .word v.start) {op : Opcode}
    {fields : InstructionWord} (head : UnitHead.ofWord v.word = .instruction op fields)
    (known : op.isReserved = false) : v.Located := by
  obtain ⟨early, hearly, hall⟩ := (between_operands start op fields).found
  -- once the operands are read, the position is set back, and it stays there
  have hafter : v.after =
      (Scan.execute v.env ((v.operands op fields).2.2.moveTo (.word v.start))
        (v.operands op fields).1).failAll
        (Scan.lengthFaults v.env op fields (v.operands op fields).2.1) := by
    rw [after, Scan.readUnit, head]
    dsimp only
    rw [Scan.readInstruction_eq known, Scan.settleLength_fst, start]
    rfl
  obtain ⟨hposition, hfaults⟩ := Scan.located_execute v.env
    ((v.operands op fields).2.2.moveTo (.word v.start)) (v.operands op fields).1
  rw [Scan.failAll_eq, hfaults, hposition] at hafter
  refine ⟨congrArg Scan.position hafter, early, hall, (congrArg Scan.faults hafter).trans ?_⟩
  rw [judgements, head]
  dsimp only
  rw [known, if_neg Bool.false_ne_true, ← List.append_assoc v.before.faults, ← hearly]
  simp only [List.map_append, List.append_assoc]
  rfl

theorem located (start : v.before.position = .word v.start) : v.Located := by
  have hnoted : Scan.Stays v.before (v.before.noteEnd v.word) := by
    unfold Scan.noteEnd
    split
    · exact (Scan.Stays.refl v.before).of_eq rfl rfl
    · exact .refl v.before
  have heffect := Scan.effect_readUnit v.env v.before v.word v.rest
  cases head : UnitHead.ofWord v.word with
  | instruction op fields =>
    cases known : op.isReserved with
    | true =>
      refine located_of_stays start (hnoted.effect heffect ?_) (by simp [judgements, head, known])
      rw [head]
      rintro _ _ ⟨⟩
      exact known
    | false => exact located_of_instruction start head known
  | _ => exact located_of_stays start (hnoted.effect heffect (by simp [head])) (by simp [judgements, head])

theorem faults_outcome (start : v.before.position = .word v.start) :
    ∃ early, (∀ e ∈ early, e.Between v.start (v.start + v.rest.length + 2)) ∧
      v.outcome.faults =
        v.before.faults ++ (early ++ v.lateFaults.map fun f => ⟨.word v.start, f⟩) := by
  obtain ⟨position, early, hall, hfaults⟩ := located start
  refine ⟨early, hall, ?_⟩
  unfold outcome lateFaults
  split
  next cut =>
    show v.after.faults ++ [⟨v.after.position, .truncated⟩] = _
    rw [hfaults, position, faultIf, if_pos (decide_eq_true cut)]
    simp only [List.map_append, List.append_assoc, List.map_cons, List.map_nil]
  next fits =>
    rw [hfaults, faultIf, if_neg (by simpa using fits), List.append_nil]

theorem outcome_of_fits (h : v.Fits) : v.outcome = v.after := if_neg (Nat.not_lt.mpr h)

theorem outcome_of_not_fits (h : ¬ v.Fits) : v.outcome = v.after.cutOff := if_pos (Nat.not_le.mp h)

theorem before_append_raised (v : Visit) : v.before.faults ++ v.raised = v.outcome.faults := by
  obtain ⟨new, hnew, -⟩ := v.records
  unfold raised outcome
  split
  next =>
    show _ ++ (v.after.faults ++ [_]).drop _ = v.after.faults ++ [_]
    rw [hnew, List.append_assoc, List.drop_left]
  next => rw [hnew, List.drop_left]

theorem raised_eq (start : v.before.position = .word v.start) :
    ∃ early, (∀ e ∈ early, e.Between v.start (v.start + v.rest.length + 2)) ∧
      v.raised = early ++ v.lateFaults.map fun f => ⟨.word v.start, f⟩ := by
  obtain ⟨early, hall, hfaults⟩ := faults_outcome start
  refine ⟨early, hall, ?_⟩
  rw [raised, hfaults, List.drop_left]

theorem between_of_mem_raised (start : v.before.position = .word v.start) {e : LocatedFault}
    (he : e ∈ v.raised) : e.Between v.start (v.start + v.rest.length + 2) := by
  obtain ⟨early, hall, hraised⟩ := raised_eq start
  rw [hraised] at he
  rcases List.mem_append.mp he with he | he
  · exact hall e he
  · obtain ⟨f, -, rfl⟩ := List.mem_map.mp he
    exact ⟨v.start, rfl, Nat.le_refl _, by omega⟩

end Visit

/-! ### Shaders -/

namespace Scan

variable {env : Env} {s t : Scan} {n : Nat} {ws : List Word} {vs : List Visit}

namespace Run

theorem position_before (r : Run env s n ws vs t) : ∀ v ∈ vs, v.before.position = .word v.start := by
  induction r with
  | done => simp
  | cut | stop => exact List.forall_mem_singleton.mpr rfl
  | next _ _ _ _ _ _ _ ih => exact List.forall_mem_cons.mpr ⟨rfl, ih⟩

theorem faults_eq (r : Run env s n ws vs t) : t.faults = s.faults ++ vs.flatMap Visit.raised := by
  induction r with
  | done => exact (List.append_nil _).symm
  | cut s n w ws tooLong =>
    rw [List.flatMap_singleton, ← Visit.outcome_of_not_fits tooLong]
    exact (visit env s n w ws).before_append_raised.symm
  | stop s n w ws fits =>
    rw [List.flatMap_singleton, ← Visit.outcome_of_fits fits]
    exact (visit env s n w ws).before_append_raised.symm
  | next s n w ws fits _ _ ih =>
    rw [ih, ← Visit.outcome_of_fits fits, ← Visit.before_append_raised, List.flatMap_cons,
      List.append_assoc]
    rfl

theorem pairwise_start (r : Run env s n ws vs t) : vs.Pairwise fun u v => u.start < v.start := by
  induction r with
  | done => exact .nil
  | cut | stop => exact List.pairwise_singleton _ _
  | next s n w ws _ _ r ih =>
    refine List.pairwise_cons.mpr ⟨fun v hv => ?_, ih⟩
    have hlength := (visit env s n w ws).one_le_length
    have hstart := (r.drop_start v hv).1
    show n < v.start
    omega

end Run

/-- The faults of a shader: those before its units, those of its units and those after them. -/
theorem faults_ofUnits (env : Env) (us : List Word) :
    ∃ before after : List Fault, (ofUnits env us).faults = before.map (.mk .before)
      ++ (visits env (start env) 1 us).flatMap Visit.raised ++ after.map (.mk .after) := by
  have hstart : Stays { position := .before } (start env) := (Stays.refl _).failIf _ _
  have hfinish : Stays ((readUnits env (start env) 1 us).moveTo .after) (ofUnits env us) :=
    ((Stays.refl _).failIf _ _).failIf _ _
  obtain ⟨before, hbefore⟩ := hstart.found
  obtain ⟨after, hafter⟩ := hfinish.found
  refine ⟨before, after, hafter.trans ?_⟩
  show (readUnits env (start env) 1 us).faults ++ _ = _
  rw [(run_readUnits env (start env) 1 us).faults_eq, hbefore]
  rfl

theorem raised_of_clean {env : Env} {us : List Word} (clean : (ofUnits env us).faults = []) :
    (visits env (start env) 1 us).flatMap Visit.raised = [] := by
  obtain ⟨before, after, hfaults⟩ := faults_ofUnits env us
  rw [clean] at hfaults
  exact (List.append_eq_nil_iff.mp (List.append_eq_nil_iff.mp hfaults.symm).1).2

end Scan

/-- A unit stands in the code where it starts, which is also the position it is come upon at. -/
theorem start_unitsOf (o : Options) (ws : List Word) : ∀ v ∈ unitsOf o ws,
    ws.drop v.start = v.word :: v.rest ∧ 1 ≤ v.start ∧ v.before.position = .word v.start := by
  cases ws with
  | nil => simp [unitsOf]
  | cons w us =>
    cases hversion : Env.ofWord? o w with
    | none => simp [unitsOf, hversion]
    | some env =>
      rw [unitsOf_cons o hversion]
      intro v hv
      have hrun := Scan.run_readUnits env (Scan.start env) 1 us
      obtain ⟨hstart, hdrop⟩ := hrun.drop_start v hv
      refine ⟨?_, hstart, hrun.position_before v hv⟩
      obtain ⟨k, hk⟩ := Nat.exists_eq_add_of_le' hstart
      rw [hk] at hdrop ⊢
      exact hdrop

theorem pairwise_start_unitsOf (o : Options) (ws : List Word) :
    (unitsOf o ws).Pairwise fun u v => u.start < v.start := by
  cases ws with
  | nil => exact .nil
  | cons w us =>
    cases hversion : Env.ofWord? o w with
    | none => simp [unitsOf, hversion]
    | some env =>
      rw [unitsOf_cons o hversion]
      exact (Scan.run_readUnits env (Scan.start env) 1 us).pairwise_start

theorem exists_errors_eq (p : Glsl.Profile) (o : Options) (ws : List Word) :
    ∃ before after : List Fault, (liftWords p o ws).errors =
      (before.map (LocatedFault.mk .before) ++ (unitsOf o ws).flatMap Visit.raised
        ++ after.map (LocatedFault.mk .after)).map (LocatedFault.diagnostic p.name o.filename) := by
  have hlink := linking_linkShader o ws
  rw [liftWords_eq]
  generalize linkShader o ws = outcome at hlink ⊢
  cases hlink with
  | noVersion => exact ⟨[.noVersion], [], rfl⟩
  | notAShader other =>
    refine ⟨[.notAShader], [], ?_⟩
    rw [unitsOf, other]
    rfl
  | @badUnits w us env version bad =>
    rw [unitsOf_cons o version]
    obtain ⟨before, after, hfaults⟩ := Scan.faults_ofUnits env us
    exact ⟨before, after, by rw [← hfaults]; rfl⟩
  | @badInterface w us env version good bad =>
    rw [unitsOf_cons o version, Scan.raised_of_clean good]
    exact ⟨[], Interface.faults env.toShader (Scan.ofUnits env us), rfl⟩
  | @linked w us env version good fit =>
    rw [unitsOf_cons o version, Scan.raised_of_clean good]
    exact ⟨[], [], rfl⟩

/-- **Faults are told in the order of the code, each at a word of its unit**, or at most one word past the
end of the code.  What an instruction is judged for after its operands are read is said to be at its first
word. -/
theorem lift_errors_located (p : Glsl.Profile) (o : Options) (ws : List Word) :
    ∃ before after : List Diagnostic,
      (liftWords p o ws).errors = before
        ++ ((unitsOf o ws).flatMap Visit.raised).map (LocatedFault.diagnostic p.name o.filename)
        ++ after ∧
      (∀ d ∈ before, d.position = .before) ∧ (∀ d ∈ after, d.position = .after) ∧
      (∀ d ∈ (liftWords p o ws).errors, ∀ n, d.position = .offset n →
        4 ∣ n ∧ 4 ≤ n ∧ n ≤ 4 * (ws.length + 1)) ∧
      (unitsOf o ws).Pairwise (fun u v => u.start < v.start) ∧
      ∀ v ∈ unitsOf o ws,
        ws.drop v.start = v.word :: v.rest ∧
        (∀ e ∈ v.raised, ∃ n, e.position = .offset (4 * n) ∧
          v.start ≤ n ∧ 1 ≤ n ∧ n ≤ ws.length + 1) ∧
        ∃ early, v.raised = early ++ v.lateFaults.map fun f => ⟨.offset (4 * v.start), f⟩ := by
  obtain ⟨before, after, herrors⟩ := exists_errors_eq p o ws
  have hraised : ∀ v ∈ unitsOf o ws, ∀ e ∈ v.raised, ∃ n, e.position = .offset (4 * n) ∧
      v.start ≤ n ∧ 1 ≤ n ∧ n ≤ ws.length + 1 := by
    intro v hv e he
    obtain ⟨hdrop, hpos, hstart⟩ := start_unitsOf o ws v hv
    obtain ⟨n, hn, hfirst, hlast⟩ := Visit.between_of_mem_raised hstart he
    -- a unit starts inside the code
    have hlength := congrArg List.length hdrop
    rw [List.length_drop, List.length_cons] at hlength
    exact ⟨n, hn, hfirst, by omega, by omega⟩
  have hbefore : ∀ d ∈ (before.map (.mk .before)).map (LocatedFault.diagnostic p.name o.filename),
      d.position = .before := by
    simp [LocatedFault.diagnostic]
  have hafter : ∀ d ∈ (after.map (.mk .after)).map (LocatedFault.diagnostic p.name o.filename),
      d.position = .after := by
    simp [LocatedFault.diagnostic]
  rw [List.map_append, List.map_append] at herrors
  refine ⟨_, _, herrors, hbefore, hafter, fun d hd n hn => ?_, pairwise_start_unitsOf o ws,
    fun v hv => ⟨(start_unitsOf o ws v hv).1, hraised v hv, ?_⟩⟩
  · rw [herrors, List.mem_append, List.mem_append] at hd
    -- what is before or after the code has no offset
    rcases hd with (hd | hd) | hd
    · cases (hbefore d hd).symm.trans hn
    · obtain ⟨e, he, rfl⟩ := List.mem_map.mp hd
      obtain ⟨v, hv, he⟩ := List.mem_flatMap.mp he
      obtain ⟨k, hk, -, hpos, hle⟩ := hraised v hv e he
      obtain rfl : n = 4 * k := Position.offset.inj (hn.symm.trans hk)
      exact ⟨Nat.dvd_mul_right 4 k, by omega, by omega⟩
    · cases (hafter d hd).symm.trans hn
  · obtain ⟨early, -, heq⟩ := Visit.raised_eq (start_unitsOf o ws v hv).2.2
    exact ⟨early, heq⟩

/-- A shader of a model that does not exist, in which a declaration is all there is and has no operands. -/
def bareDeclaration : List Word := [0xFFFE0401, 0x1F]

/-- The declaration is read past the end of the code, and its length is only then found to be wrong. -/
theorem errors_located_bareDeclaration :
    (liftWords .glsl110 {} bareDeclaration).errors.map Diagnostic.position =
        [.before, .offset 8, .offset 12, .offset 12, .offset 4, .after] ∧
      (∀ d ∈ (liftWords .glsl110 {} bareDeclaration).errors, ∀ n, d.position = .offset n →
        4 ∣ n ∧ 4 ≤ n ∧ n ≤ 4 * (bareDeclaration.length + 1)) ∧
      ∀ v ∈ unitsOf {} bareDeclaration,
        ∃ early, v.raised = early ++ v.lateFaults.map fun f => ⟨.offset (4 * v.start), f⟩ := by
  obtain ⟨_, _, -, -, -, hoffsets, -, hunits⟩ := lift_errors_located .glsl110 {} bareDeclaration
  exact ⟨by decide +kernel, hoffsets, fun v hv => (hunits v hv).2.2⟩

end ShaderLift
