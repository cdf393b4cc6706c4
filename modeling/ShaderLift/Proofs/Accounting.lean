/-
Where the words of a shader go.  Reading passes over the code unit by unit, always forward and never past
its end.  Without a fault the units up to the end mark are the code cut into consecutive pieces.

`Visit.reads` lists the words that a unit is decoded from, as distances from its first.  No others matter
to the unit (`readUnit_of_reads`), and each of these matters to an instruction (`reads_needed`).  They are
all its words, each once, with one exception: the predicate of a definition is looked for right behind the
destination, where the literals start, so that the word counted for it is one that nobody looks at.
-/
import ShaderLift.Proofs.AllOrNothing
import ShaderLift.Proofs.Reads

namespace ShaderLift

/-! ### One unit -/

theorem Scan.constants_readInstruction {env : Env} {s : Scan} {op : Opcode} {w : InstructionWord}
    {ws : List Word}
    (clean : (readInstruction env s op w ws).1.faults = []) :
    (readInstruction env s op w ws).1.constants =
      s.constants ++ (readOperands env op w (operandState env s op w) ws).1.constant?.toList := by
  obtain ⟨known, -, -⟩ := operands_of_readInstruction clean
  rw [readInstruction_eq known, settleLength_fst] at clean ⊢
  have hjudged := (moves_judge_execute env _ _).records.faults_eq_nil
    ((Fetches.failAll .refl _).records.faults_eq_nil clean)
  have hfetches : Fetches s (readOperands env op w (operandState env s op w) ws).2.2 :=
    (((Fetches.failIf .refl _ _).failAll _).advance).readOperands env op w ws
  rw [judge, (untouched_account env _ _).faults] at hjudged
  rw [failAll_eq]
  dsimp only
  rw [constants_execute (eq_nil_of_faults_failAll hjudged)]
  show (readOperands env op w (operandState env s op w) ws).2.2.constants ++ _ = _
  rw [hfetches.frame]

namespace Visit

/-- The words that the unit is decoded from, as distances from its first. -/
def reads (v : Visit) : List Nat := Scan.unitReads v.env v.before v.word v.rest

def isPredicatedDefinition (v : Visit) : Bool := Scan.isPredicatedDefinition v.word

theorem one_le_length (v : Visit) : 1 ≤ v.length := by
  unfold length Scan.readUnit
  cases UnitHead.ofWord v.word with
  | comment length => exact Nat.le_add_left 1 length
  | finish => exact Nat.le_refl 1
  | phase => exact Nat.le_refl 1
  | unknown => exact Nat.le_refl 1
  | instruction op fields => exact Scan.one_le_length_readInstruction v.env v.before op fields v.rest

theorem remainder_eq (v : Visit) : v.remainder = (v.word :: v.rest).drop v.length := by
  obtain ⟨c, hc⟩ := Nat.exists_eq_add_of_le' v.one_le_length
  rw [remainder, hc, Nat.add_sub_cancel, List.drop_succ_cons]

theorem words_append_remainder (v : Visit) : v.words ++ v.remainder = v.word :: v.rest := by
  rw [words, remainder_eq, List.take_append_drop]

/-- An end mark that nothing is wrong with has nothing after it if the size is known. -/
theorem rest_of_endMark (v : Visit) (hw : v.word = Word.endMark) (hsize : v.env.knownSize = true)
    (clean : v.after.faults = []) : v.rest = [] := by
  cases hempty : v.rest.isEmpty with
  | true => exact List.isEmpty_iff.mp hempty
  | false =>
    have hmoves : Scan.Moves v.env ({ v.before with ended := true }.fail .earlyEnd) v.after := by
      unfold after Scan.readUnit
      rw [(Scan.ofWord_eq_finish_iff v.word).mpr hw]
      simp only [hsize, hempty, Scan.failIf, Bool.not_false, Bool.and_true, if_true]
      split
      · exact .refl
      · exact Scan.Moves.close .refl
    have hnone := hmoves.records.faults_eq_nil clean
    simp [Scan.fail] at hnone

theorem remainder_of_endMark (v : Visit) (hw : v.word = Word.endMark) (hsize : v.env.knownSize = true)
    (clean : v.after.faults = []) : v.remainder = [] := by
  rw [remainder, v.rest_of_endMark hw hsize clean, List.drop_nil]

/-- A unit depends on the words that it is decoded from and on how many words there are. -/
theorem readUnit_of_reads (v : Visit) {rest : List Word} (hlen : rest.length = v.rest.length)
    (h : ∀ i ∈ v.reads, (v.word :: rest)[i]? = (v.word :: v.rest)[i]?) :
    Scan.readUnit v.env v.before v.word rest = (v.after, v.length) :=
  Scan.readUnit_congr v.env v.before v.word (.inl hlen) h

theorem reads_eq (v : Visit) (fits : v.Fits) (clean : v.after.faults = []) :
    v.reads = if v.isPredicatedDefinition then List.range (v.length - 1) ++ [2]
      else List.range v.length :=
  Scan.unitReads_eq fits clean

theorem lt_length_of_mem_reads (v : Visit) (fits : v.Fits) (clean : v.after.faults = []) :
    ∀ i ∈ v.reads, i < v.length := by
  rw [v.reads_eq fits clean]
  split
  next hp =>
    have hfour : 4 ≤ v.length := Scan.four_le_length_of_isPredicatedDefinition hp clean
    intro i hi
    rw [List.mem_append, List.mem_range, List.mem_singleton] at hi
    omega
  next => exact fun i hi => List.mem_range.mp hi

/-- **An instruction without a fault depends on each of its words.** -/
theorem reads_needed (v : Visit) (fits : v.Fits) (clean : v.after.faults = []) {op : Opcode}
    {fields : InstructionWord} (hhead : UnitHead.ofWord v.word = .instruction op fields) {j : Nat}
    (hj : j + 1 ∈ v.reads) :
    ∃ w, Scan.readUnit v.env v.before v.word (v.rest.set j w) ≠ (v.after, v.length) := by
  have hlt : j < v.rest.length := by
    have hinside := v.lt_length_of_mem_reads fits clean (j + 1) hj
    have hroom : v.length ≤ v.rest.length + 1 := fits
    omega
  have hread : ∀ ws, Scan.readUnit v.env v.before v.word ws =
      Scan.readInstruction v.env v.before op fields ws := by
    intro ws
    rw [Scan.readUnit, hhead]
  have hclean : (Scan.readInstruction v.env v.before op fields v.rest).1.faults = [] := by
    rw [← hread]
    exact clean
  obtain ⟨hreserved, hoperands, -⟩ := Scan.operands_of_readInstruction hclean
  have hplace : j ∈ Scan.operandReads v.env op fields
      (Scan.operandState v.env v.before op fields) v.rest := by
    simpa [reads, Scan.unitReads, hhead, hreserved] using hj
  -- some other word here is noticed when the operands are read
  obtain ⟨w, hw⟩ := Scan.readOperands_needs v.env hoperands hplace hlt
  refine ⟨w, fun hsame => ?_⟩
  have hafter : (Scan.readInstruction v.env v.before op fields (v.rest.set j w)).1 =
      (Scan.readInstruction v.env v.before op fields v.rest).1 := by
    rw [← hread, ← hread, hsame]
    rfl
  have hclean' := hafter ▸ hclean
  rcases hw with hbad | ⟨hdefinition, hliterals⟩
  · exact hbad (Scan.operands_of_readInstruction hclean').2.1
  · -- the literals are those of the constant, which the unit adds
    have hconstants := (Scan.constants_readInstruction hclean').symm.trans
      ((congrArg Scan.constants hafter).trans (Scan.constants_readInstruction hclean))
    have hconstant := List.append_cancel_left hconstants
    have hopcode : ∀ ws, (Scan.readOperands v.env op fields
        (Scan.operandState v.env v.before op fields) ws).1.opcode =
        op := by
      intro ws
      unfold Scan.readOperands
      dsimp only
      split <;> rfl
    unfold Instruction.constant? at hconstant
    rw [hopcode, hopcode] at hconstant
    cases op with
    | defF | defI | defB => exact hliterals (congrArg Constant.value (List.singleton_inj.mp hconstant))
    | _ => cases hdefinition

theorem readUnit_of_take (v : Visit) (fits : v.Fits) (clean : v.after.faults = [])
    (hw : v.word ≠ Word.endMark) (rest : List Word) (hlen : v.rest.length ≤ rest.length)
    (hwords : rest.take (v.length - 1) = v.rest.take (v.length - 1)) :
    Scan.readUnit v.env v.before v.word rest = (v.after, v.length) := by
  refine Scan.readUnit_congr v.env v.before v.word (.inr ⟨hlen, clean, fits, hw⟩) fun i hi => ?_
  have hlt := v.lt_length_of_mem_reads fits clean i hi
  cases i with
  | zero => rfl
  | succ i =>
    have hi : i < v.length - 1 := Nat.lt_sub_of_add_lt hlt
    rw [List.getElem?_cons_succ, List.getElem?_cons_succ, ← List.getElem?_take_of_lt hi, hwords,
      List.getElem?_take_of_lt hi]

end Visit

/-! ### Runs -/

namespace Scan.Run

variable {s t : Scan} {env : Env} {n : Nat} {ws : List Word} {vs : List Visit}

theorem drop_start (r : Run env s n ws vs t) :
    ∀ v ∈ vs, n ≤ v.start ∧ ws.drop (v.start - n) = v.word :: v.rest := by
  induction r with
  | done => simp
  | cut s n w ws | stop s n w ws =>
    rw [List.forall_mem_singleton]
    exact ⟨Nat.le_refl n, by simp [visit]⟩
  | next s n w ws _ _ _ ih =>
    rw [List.forall_mem_cons]
    refine ⟨⟨Nat.le_refl n, by simp [visit]⟩, fun v hv => ?_⟩
    obtain ⟨hle, hdrop⟩ := ih v hv
    rw [Visit.remainder_eq, List.drop_drop] at hdrop
    refine ⟨Nat.le_trans (Nat.le_add_right n _) hle, ?_⟩
    -- the words of this unit are dropped first, then those up to `v`
    rw [← hdrop]
    congr 1
    omega

theorem start_eq (r : Run env s n ws vs t) :
    ∀ before v after, vs = before ++ v :: after →
      v.start = before.foldl (fun n u => n + u.length) n := by
  induction r with
  | done => simp
  | cut s n w ws | stop s n w ws =>
    intro before v after h
    cases before with
    | nil =>
      obtain ⟨rfl, -⟩ := List.cons.inj h
      rfl
    | cons => simp at h
  | next s n w ws _ _ _ ih =>
    intro before v after h
    cases before with
    | nil =>
      obtain ⟨rfl, -⟩ := List.cons.inj h
      rfl
    | cons u before =>
      obtain ⟨rfl, htail⟩ := List.cons.inj h
      exact ih before v after htail

theorem fits_or_last (r : Run env s n ws vs t) :
    ∀ v ∈ vs, v.Fits ∨ vs.getLast? = some v ∧ t.faults ≠ [] := by
  induction r with
  | done => simp
  | cut s n w ws =>
    rw [List.forall_mem_singleton]
    exact .inr ⟨rfl, by simp [cutOff, fail]⟩
  | stop s n w ws fits =>
    rw [List.forall_mem_singleton]
    exact .inl fits
  | next s n w ws fits _ _ ih =>
    rw [List.forall_mem_cons]
    refine ⟨.inl fits, fun v hv => (ih v hv).imp_right (And.imp_left fun hlast => ?_)⟩
    rw [List.getLast?_cons, hlast]
    rfl

theorem length_le (r : Run env s n ws vs t) : vs.length ≤ ws.length := by
  induction r with
  | done => exact Nat.le_refl 0
  | cut | stop => simp
  | next s n w ws _ _ _ ih =>
    have hrest : (visit env s n w ws).remainder.length ≤ ws.length := by
      rw [Visit.remainder, List.length_drop]
      exact Nat.sub_le _ _
    exact Nat.succ_le_succ (Nat.le_trans ih hrest)

/-- **The code is cut into units.**  If nothing is wrong and the end mark is read, it is the last unit
and the only one of its kind, and the words up to it are those of the units in order.  If the size is
known, nothing follows. -/
theorem partition (r : Run env s n ws vs t) (clean : t.faults = [])
    (marked : ∃ v ∈ vs, v.word = Word.endMark) :
    ∃ before last tail, vs = before ++ [last] ∧ last.word = Word.endMark ∧
      (∀ v ∈ before, v.word ≠ Word.endMark) ∧ ws = vs.flatMap Visit.words ++ tail ∧
      (env.knownSize = true → tail = []) := by
  induction r with
  | done => simp at marked
  | cut s n w ws => simp [cutOff, fail] at clean
  | stop s n w ws fits last =>
    -- of unknown size, so whatever follows is the tail
    obtain ⟨hsize, hw⟩ : env.knownSize = false ∧ w = Word.endMark := by simpa [stopsAt] using last
    refine ⟨[], visit env s n w ws, (visit env s n w ws).remainder, rfl, hw, by simp, ?_, ?_⟩
    · rw [List.flatMap_singleton]
      exact (visit env s n w ws).words_append_remainder.symm
    · intro hknown
      exact absurd (hsize.symm.trans hknown) Bool.false_ne_true
  | @next s n w ws vs t fits more r ih =>
    have hafter := (Run.next s n w ws fits more r).faults_after clean _ List.mem_cons_self
    by_cases hw : w = Word.endMark
    · -- reading goes on after an end mark only if the size is known, and then nothing is left
      have hsize : env.knownSize = true := by simpa [stopsAt, hw] using more
      obtain rfl : ws = [] := (visit env s n w ws).rest_of_endMark hw hsize hafter
      have hempty : (visit env s n w []).remainder = [] := List.drop_nil
      rw [hempty] at r
      cases r with
      | done =>
        have hwords : (visit env s n w []).words = [w] := by
          have hall := (visit env s n w []).words_append_remainder
          rwa [hempty, List.append_nil] at hall
        refine ⟨[], visit env s n w [], [], rfl, hw, by simp, ?_, fun _ => rfl⟩
        rw [List.flatMap_singleton, hwords]
        rfl
    · -- the end mark is in a later unit
      have hmarked : ∃ v ∈ vs, v.word = Word.endMark := by simpa [visit, hw] using marked
      obtain ⟨before, last, tail, rfl, hlast, hbefore, hwords, htail⟩ := ih clean hmarked
      refine ⟨visit env s n w ws :: before, last, tail, rfl, hlast,
        List.forall_mem_cons.mpr ⟨hw, hbefore⟩, ?_, htail⟩
      rw [List.flatMap_cons, List.append_assoc, ← hwords]
      exact (visit env s n w ws).words_append_remainder.symm

end Scan.Run

/-! ### Shaders -/

/-- The units of a shader are those of a run, and there are none if it has no version. -/
theorem run_unitsOf (o : Options) (ws : List Word) :
    unitsOf o ws = [] ∨ ∃ w us env, ws = w :: us ∧ Env.ofWord? o w = some env ∧
      Scan.Run env (Scan.start env) 1 us (unitsOf o ws) (Scan.readUnits env (Scan.start env) 1 us) := by
  cases ws with
  | nil => exact .inl rfl
  | cons w us =>
    cases hv : Env.ofWord? o w with
    | none => exact .inl (by simp [unitsOf, hv])
    | some env =>
      refine .inr ⟨w, us, env, rfl, hv, ?_⟩
      rw [unitsOf_cons o hv]
      exact Scan.run_readUnits env (Scan.start env) 1 us

theorem knownSize_of_ofWord? {o : Options} {w : Word} {env : Env} (h : Env.ofWord? o w = some env) :
    env.knownSize = o.knownSize := by
  obtain ⟨sh, -, rfl⟩ := Option.map_eq_some_iff.mp h
  rfl

/-- How reading passes over code: unit by unit, each where the last one ended, and each at least one
word long. -/
structure Passes (ws : List Word) (units : List Visit) : Prop where
  stands : ∀ v ∈ units, ws.drop v.start = v.word :: v.rest
  advances : ∀ v ∈ units, 1 ≤ v.length
  /-- The first unit starts after the version, and the others where those before them end. -/
  follows : ∀ before v after, units = before ++ v :: after →
    v.start = before.foldl (fun n u => n + u.length) 1
  ends : units.length ≤ ws.length

theorem passes_unitsOf (o : Options) (ws : List Word) : Passes ws (unitsOf o ws) := by
  rcases run_unitsOf o ws with hnone | ⟨w, us, env, rfl, -, r⟩
  · rw [hnone]
    exact ⟨by simp, by simp, by simp, by simp⟩
  · refine ⟨fun v hv => ?_, fun v _ => v.one_le_length, r.start_eq,
      Nat.le_trans r.length_le (Nat.le_succ _)⟩
    obtain ⟨hle, hdrop⟩ := r.drop_start v hv
    obtain ⟨k, hk⟩ := Nat.exists_eq_add_of_le' hle
    rw [hk, Nat.add_sub_cancel] at hdrop
    rw [hk, List.drop_succ_cons, hdrop]

/-- What becomes of the words of a shader without a fault. -/
structure Accounted (o : Options) (ws : List Word) (units : List Visit) : Prop where
  /-- The code is the version, then the units one after another, of which the end mark is the last,
  then what is not looked at.  That is nothing if the size is known. -/
  pieces : ∃ version before last tail, ws = version :: (units.flatMap Visit.words ++ tail) ∧
    units = before ++ [last] ∧ last.words = [Word.endMark] ∧
    (∀ v ∈ before, v.word ≠ Word.endMark) ∧ (o.knownSize = true → tail = [])
  whole : ∀ v ∈ units, v.words.length = v.length
  /-- No unit is decoded from words of another, or from beyond the code. -/
  inside : ∀ v ∈ units, ∀ i ∈ v.reads, i < v.length ∧ v.start + i < ws.length
  /-- Every word of a unit is decoded once, unless it is a definition with a predicate. -/
  once : ∀ v ∈ units, v.reads =
    if v.isPredicatedDefinition then List.range (v.length - 1) ++ [2] else List.range v.length
  /-- To an instruction each of them matters. -/
  needed : ∀ v ∈ units, ∀ op fields, UnitHead.ofWord v.word = .instruction op fields →
    ∀ j, j + 1 ∈ v.reads →
      ∃ w, Scan.readUnit v.env v.before v.word (v.rest.set j w) ≠ (v.after, v.length)

section

variable (p : Glsl.Profile) (o : Options) (ws : List Word)

theorem unitsOf_of_no_errors (h : (liftWords p o ws).errors = []) :
    ∀ v ∈ unitsOf o ws, v.Fits ∧ v.after.faults = [] := by
  obtain ⟨w, us, env, rfl, version, good, -⟩ := linkShader_of_no_errors p o ws h
  have hread := Scan.readUnits_of_ofUnits good
  have r := Scan.run_readUnits env (Scan.start env) 1 us
  rw [unitsOf_cons o version]
  intro v hv
  exact ⟨(r.fits_or_last v hv).resolve_right fun hlast => hlast.2 hread, r.faults_after hread v hv⟩

theorem accounted_of_no_errors (h : (liftWords p o ws).errors = []) :
    Accounted o ws (unitsOf o ws) := by
  have hunits := unitsOf_of_no_errors p o ws h
  have hpasses := passes_unitsOf o ws
  refine ⟨?_, fun v hv => ?_, fun v hv i hi => ?_,
    fun v hv => v.reads_eq (hunits v hv).1 (hunits v hv).2,
    fun v hv _ _ hhead _ => v.reads_needed (hunits v hv).1 (hunits v hv).2 hhead⟩
  · obtain ⟨w, us, env, rfl, version, good, -⟩ := linkShader_of_no_errors p o ws h
    have r := Scan.run_readUnits env (Scan.start env) 1 us
    obtain ⟨before, last, tail, hvs, hlast, hbefore, hwords, htail⟩ :=
      r.partition (Scan.readUnits_of_ofUnits good) (Scan.exists_endMark_of_ofUnits good)
    rw [unitsOf_cons o version]
    rw [knownSize_of_ofWord? version] at htail
    exact ⟨w, before, last, tail, congrArg (w :: ·) hwords, hvs, last.words_of_endMark hlast,
      hbefore, htail⟩
  · rw [Visit.words, List.length_take]
    exact Nat.min_eq_left (hunits v hv).1
  · have hlt := v.lt_length_of_mem_reads (hunits v hv).1 (hunits v hv).2 i hi
    have hlength := congrArg List.length (hpasses.stands v hv)
    rw [List.length_drop, List.length_cons] at hlength
    have hfits : v.length ≤ v.rest.length + 1 := (hunits v hv).1
    exact ⟨hlt, by omega⟩

theorem unitsOf_bounded : ∀ v ∈ unitsOf o ws, v.start + v.length ≤ ws.length ∨
    (unitsOf o ws).getLast? = some v ∧ (liftWords p o ws).errors ≠ [] := by
  intro v hv
  have hlength := congrArg List.length ((passes_unitsOf o ws).stands v hv)
  rw [List.length_drop, List.length_cons] at hlength
  rcases run_unitsOf o ws with hnone | ⟨w, us, env, -, -, r⟩
  · rw [hnone] at hv
    cases hv
  · rcases r.fits_or_last v hv with hfits | ⟨hlast, -⟩
    · have hle : v.length ≤ v.rest.length + 1 := hfits
      exact .inl (by omega)
    · -- the last unit may be cut off, but then a result without faults is ruled out
      by_cases hover : v.start + v.length ≤ ws.length
      · exact .inl hover
      · refine .inr ⟨hlast, fun hnone => hover ?_⟩
        have hle : v.length ≤ v.rest.length + 1 := (unitsOf_of_no_errors p o ws hnone v hv).1
        omega

end

/-- **Every word is accounted for.**  Reading passes over the code unit by unit: every pass takes at
least one word, and none goes past the end without a fault.  A unit depends on the words of
`Visit.reads` alone.  Without a fault the units up to the end mark are the code, every unit is decoded
from its own words, and from each of them once, and an instruction depends on every one of them; only a
definition with a predicate is decoded from its third word twice and from its last word not at all. -/
theorem lift_accounts_for_words (p : Glsl.Profile) (o : Options) (ws : List Word) :
    (∀ w us env, ws = w :: us → Env.ofWord? o w = some env →
      Scan.Run env (Scan.start env) 1 us (unitsOf o ws)
        (Scan.readUnits env (Scan.start env) 1 us)) ∧
      Passes ws (unitsOf o ws) ∧
      (∀ v ∈ unitsOf o ws, v.start + v.length ≤ ws.length ∨
        (unitsOf o ws).getLast? = some v ∧ (liftWords p o ws).errors ≠ []) ∧
      (∀ v ∈ unitsOf o ws, ∀ rest : List Word, rest.length = v.rest.length →
        (∀ i ∈ v.reads, (v.word :: rest)[i]? = (v.word :: v.rest)[i]?) →
          Scan.readUnit v.env v.before v.word rest = (v.after, v.length)) ∧
      ((liftWords p o ws).errors = [] → Accounted o ws (unitsOf o ws)) := by
  refine ⟨?_, passes_unitsOf o ws, unitsOf_bounded p o ws, ?_, accounted_of_no_errors p o ws⟩
  · rintro w us env rfl version
    rw [unitsOf_cons o version]
    exact Scan.run_readUnits env (Scan.start env) 1 us
  · intro v _ rest hlen hsame
    exact v.readUnit_of_reads hlen hsame

/-- Code with one instruction, a definition of c0 with a predicate.  The first literal is the word of
the predicate register, and all other words are 0. -/
def predicatedDefinition : List Word :=
  [0xFFFE0200,
    0x16000051, 0xA00F0000, 0xB0E41000, 0, 0, 0, 0,
    0xFFFF]

/-- The third word is decoded twice and the seventh never, and there is no fault. -/
theorem predicatedDefinition_reads :
    (liftWords .glsl110 {} predicatedDefinition).errors = [] ∧
      (unitsOf {} predicatedDefinition).map (fun v => (v.length, v.reads)) =
        [(7, [0, 1, 2, 3, 4, 5, 2]), (1, [0])] := by
  decide +kernel

end ShaderLift
