/-
What reading counts, and how far it can count.  A unit takes at least one word.  It defines one constant,
opens one block of each kind, takes up eight slots and lets the code change its depth twice, at the most,
whatever is wrong with it.  So all counters of a state are bounded by the number of words that have been
read (`Tally.Within`).
-/
import ShaderLift.Proofs.Budget

namespace ShaderLift

/-! ### Changes of depth -/

namespace Glsl

def Layout.isTurn : Layout → Bool
  | .indent | .outdent => true
  | _ => false

def Stmt.turns : Stmt → Nat
  | .openLoop _ | .closeLoop | .openElse => 2
  | .openRep _ _ | .openIf _ | .closeBlock | .openFunction _ _ | .closeFunction => 1
  | _ => 0

theorem Stmt.turns_le (c : Stmt) : c.turns ≤ 2 := by
  unfold Stmt.turns
  split <;> decide

theorem Stmt.turns_of_plain {c : Stmt} {K : Register → Prop} (h : c.Plain K) : c.turns = 0 := by
  cases c with
  | assign | vector3 => rfl
  | _ => exact h.elim

def turnsOf : List Stmt → Nat
  | [] => 0
  | c :: code => c.turns + turnsOf code

theorem turnsOf_singleton_le (c : Stmt) : turnsOf [c] ≤ 2 := c.turns_le

theorem turnsOf_append (code more : List Stmt) :
    turnsOf (code ++ more) = turnsOf code + turnsOf more := by
  induction code with
  | nil => simp [turnsOf]
  | cons c code ih => simp only [List.cons_append, turnsOf, ih, Nat.add_assoc]

theorem turnsOf_eq_zero {code : List Stmt} (h : ∀ c ∈ code, c.turns = 0) : turnsOf code = 0 := by
  induction code with
  | nil => rfl
  | cons c code ih =>
    obtain ⟨hc, hcode⟩ := List.forall_mem_cons.mp h
    rw [turnsOf, hc, ih hcode]

theorem countP_isTurn_layout (sh : Shader) (code : List Stmt) :
    (code.flatMap (Stmt.layout sh)).countP Layout.isTurn = turnsOf code := by
  induction code with
  | nil => rfl
  | cons c code ih =>
    rw [List.flatMap_cons, List.countP_append, ih, turnsOf]
    congr 1
    cases c <;> rfl

end Glsl

open Glsl

namespace Scan

variable {env : Env} {sh : Shader} {s t : Scan} {i : Instruction}

/-! ### The code of an instruction -/

theorem code_sourceAt (sh : Shader) (s : Scan) (a : Source) (mask : WriteMask) :
    (sourceAt sh s a mask).code = [] := by
  unfold sourceAt
  split <;> rfl

theorem turnsOf_conditionCode (sh : Shader) (s : Scan) (a : Source) (f : Expr → Stmt) :
    turnsOf (conditionCode sh s a f).code ≤ 2 := by
  show turnsOf ((sourceAt sh s a .x).code ++ _) ≤ 2
  rw [code_sourceAt]
  exact turnsOf_singleton_le _

theorem turnsOf_comparisonCode (sh : Shader) (s : Scan) (i : Instruction) (f : Expr → Stmt) :
    turnsOf (comparisonCode sh s i f).code ≤ 2 := by
  unfold comparisonCode
  split
  · exact Nat.zero_le 2
  · show turnsOf ((sourceAt sh s (i.source 0) .x).code ++ ((sourceAt sh s (i.source 1) .x).code ++ _))
      ≤ 2
    rw [code_sourceAt, code_sourceAt]
    exact turnsOf_singleton_le _

theorem turnsOf_closeCode (sh : Shader) (s : Scan) : turnsOf (closeCode sh s).code ≤ 2 := by
  unfold closeCode
  split <;> decide

theorem turnsOf_of_not_isFlow (sh : Shader) (s : Scan) (h : i.opcode.isFlow = false) :
    turnsOf (instructionCode sh s i).code = 0 :=
  turnsOf_eq_zero fun c hc =>
    Stmt.turns_of_plain ((says_instructionCode_plain (supplied_any sh s i) h).code c hc)

theorem turnsOf_instructionCode (sh : Shader) (s : Scan) (i : Instruction) :
    turnsOf (instructionCode sh s i).code ≤ 2 := by
  cases hflow : i.opcode.isFlow with
  | false => exact Nat.le_trans (Nat.le_of_eq (turnsOf_of_not_isFlow sh s hflow)) (Nat.zero_le 2)
  | true =>
    unfold instructionCode
    cases hop : i.opcode with
    | call | loop | endLoop | endRep | endIf | label | otherwise | leave | texKill =>
      exact turnsOf_singleton_le _
    | callNz | rep | ifBool | leavePredicate => exact turnsOf_conditionCode sh s _ _
    | ifCompare | leaveCompare => exact turnsOf_comparisonCode sh s i _
    | ret => exact turnsOf_closeCode sh s
    | _ =>
      rw [hop] at hflow
      cases hflow

/-! ### Counters -/

structure Tally where
  constants : Nat
  slots : Nat
  loops : Nat
  reps : Nat
  ifs : Nat
  compares : Nat
  turns : Nat

def tally (s : Scan) : Tally :=
  ⟨s.constants.length, s.slots, s.loops, s.reps, s.ifs, s.compares, turnsOf s.code⟩

/-- What can be counted in so many units. -/
structure Tally.Within (n : Nat) (c : Tally) : Prop where
  constants : c.constants ≤ n
  slots : c.slots ≤ 8 * n
  loops : c.loops ≤ n
  reps : c.reps ≤ n
  ifs : c.ifs ≤ n
  compares : c.compares ≤ n
  turns : c.turns ≤ 2 * n

theorem Tally.Within.mono {n m : Nat} {c : Tally} (h : c.Within n) (hle : n ≤ m) : c.Within m where
  constants := Nat.le_trans h.constants hle
  slots := Nat.le_trans h.slots (Nat.mul_le_mul_left 8 hle)
  loops := Nat.le_trans h.loops hle
  reps := Nat.le_trans h.reps hle
  ifs := Nat.le_trans h.ifs hle
  compares := Nat.le_trans h.compares hle
  turns := Nat.le_trans h.turns (Nat.mul_le_mul_left 2 hle)

theorem Fetches.tally_eq (h : Fetches s t) : t.tally = s.tally := by
  rw [h.frame]
  rfl

theorem tally_failIf (s : Scan) (b : Bool) (f : Fault) : (s.failIf b f).tally = s.tally :=
  (Fetches.failIf .refl b f).tally_eq

theorem tally_failAll (s : Scan) (fs : List Fault) : (s.failAll fs).tally = s.tally :=
  (Fetches.failAll .refl fs).tally_eq

/-! ### The consequences of an instruction -/

/-- Counters that go up by one at most; slots are looked at elsewhere. -/
structure Tally.Rises (c d : Tally) : Prop where
  constants : d.constants ≤ c.constants + 1
  loops : d.loops ≤ c.loops + 1
  reps : d.reps ≤ c.reps + 1
  ifs : d.ifs ≤ c.ifs + 1
  compares : d.compares ≤ c.compares + 1
  turns : d.turns = c.turns

theorem rises_account (env : Env) (s : Scan) (i : Instruction) :
    s.tally.Rises (account env s i).tally := by
  have hdoes := Consequence.of_account env s i
  generalize account env s i = t at hdoes ⊢
  cases hdoes with
  | define =>
    refine ⟨?_, Nat.le_succ _, Nat.le_succ _, Nat.le_succ _, Nat.le_succ _, rfl⟩
    exact Nat.le_of_eq List.length_append
  | blocks _ inLoops inReps inIfs =>
    exact ⟨Nat.le_succ _, inLoops, inReps, inIfs, Nat.le_succ _, rfl⟩
  | compare =>
    exact ⟨Nat.le_succ _, Nat.le_succ _, Nat.le_succ _, Nat.le_succ _, Nat.le_refl _, rfl⟩
  | _ => exact ⟨Nat.le_succ _, Nat.le_succ _, Nat.le_succ _, Nat.le_succ _, Nat.le_succ _, rfl⟩

theorem slots_chargeLookup_le (s : Scan) (stage : Nat) :
    (s.chargeLookup stage).slots ≤ s.slots + 3 := by
  rw [slots_chargeLookup]
  split <;> omega

theorem slots_settled_le (env : Env) (s : Scan) (i : Instruction) :
    (account env s i).slots + i.opcode.info.slots ≤ s.slots + 8 := by
  cases hvaries : i.opcode.varies with
  | false =>
    -- no opcode takes more than eight
    have hslots : i.opcode.info.slots ≤ 8 := by
      cases i.opcode with
      | reserved code => exact Nat.zero_le 8
      | _ => decide
    rw [slots_account_of_not_varies env s hvaries]
    omega
  | true =>
    unfold account
    cases hop : i.opcode with
    | dp4 | cmp =>
      cases env.atLeast 1 4 with
      | true => exact Nat.add_le_add_left (by decide : 1 ≤ 8) s.slots
      | false => exact Nat.add_le_add_left (by decide : 2 ≤ 8) s.slots
    | texLd =>
      -- a cube costs three more
      have hlookup := slots_chargeLookup_le s (i.source 1).register.number
      cases env.atLeast 2 0 with
      | true => exact Nat.le_trans (Nat.add_le_add_right hlookup 1) (Nat.le_add_right _ 4)
      | false =>
        cases env.atLeast 1 4 <;> exact Nat.add_le_add_left (by decide : 1 ≤ 8) s.slots
    | texLdl =>
      have hlookup := slots_chargeLookup_le s (i.source 1).register.number
      cases env.atLeast 3 0 with
      | true =>
        dsimp only [Opcode.info]
        split <;> omega
      | false => exact Nat.add_le_add_left (by decide : 2 ≤ 8) s.slots
    | _ =>
      rw [hop] at hvaries
      cases hvaries

/-! ### Units -/

namespace Tally.Within

variable {n : Nat}

theorem emit (h : s.tally.Within (n + 1)) {e : Emission Unit}
    (hturns : turnsOf s.code + turnsOf e.code ≤ 2 * (n + 1)) : (s.emit e).tally.Within (n + 1) := by
  have hfaults := tally_failAll s e.faults
  rw [← hfaults] at h
  refine ⟨h.constants, h.slots, h.loops, h.reps, h.ifs, h.compares, ?_⟩
  show turnsOf (s.code ++ e.code) ≤ _
  rw [turnsOf_append]
  exact hturns

theorem close (h : s.tally.Within (n + 1)) (hturns : turnsOf s.code ≤ 2 * n) (env : Env) :
    (s.close env).tally.Within (n + 1) := by
  have hcolor : (s.markColor env).tally = s.tally := by
    unfold markColor
    split <;> rfl
  have hcode : turnsOf (s.markColor env).code = turnsOf s.code := congrArg Tally.turns hcolor
  have hclose := turnsOf_closeCode env.toShader s
  apply emit
  · rw [hcolor]
    exact h
  · omega

theorem execute (h : s.tally.Within n) (env : Env) (i : Instruction) :
    (Scan.execute env s i).tally.Within (n + 1) := by
  -- first what the instruction does without its code
  have hjudged : ∀ u : Scan, u.tally = s.tally →
      ((Scan.account env u i).charge i.opcode.info.slots).tally.Within (n + 1) ∧
        turnsOf (Scan.account env u i).code ≤ 2 * n := by
    intro u hu
    rw [← hu] at h
    have hrises := rises_account env u i
    have hslots := slots_settled_le env u i
    have hbefore : u.slots ≤ 8 * n := h.slots
    have hturns : turnsOf (Scan.account env u i).code ≤ 2 * n := 
      Nat.le_trans (Nat.le_of_eq hrises.turns) h.turns
    refine ⟨⟨?_, ?_, ?_, ?_, ?_, ?_, Nat.le_trans hturns (by omega)⟩, hturns⟩
    · exact Nat.le_trans hrises.constants (Nat.succ_le_succ h.constants)
    · show (Scan.account env u i).slots + i.opcode.info.slots ≤ 8 * (n + 1)
      omega
    · exact Nat.le_trans hrises.loops (Nat.succ_le_succ h.loops)
    · exact Nat.le_trans hrises.reps (Nat.succ_le_succ h.reps)
    · exact Nat.le_trans hrises.ifs (Nat.succ_le_succ h.ifs)
    · exact Nat.le_trans hrises.compares (Nat.succ_le_succ h.compares)
  obtain ⟨hcharged, hturns⟩ := hjudged (s.failAll (violations env s i)) (tally_failAll s _)
  -- then its code
  suffices hgenerated : (((judge env s i).charge i.opcode.info.slots).generate env i).tally.Within
      (n + 1) from ⟨hgenerated.constants, hgenerated.slots, hgenerated.loops, hgenerated.reps,
        hgenerated.ifs, hgenerated.compares, hgenerated.turns⟩
  unfold generate
  split
  · exact hcharged
  · split
    · exact close hcharged hturns env
    · have hcode := turnsOf_instructionCode env.toShader ((judge env s i).charge i.opcode.info.slots) i
      exact emit hcharged (Nat.add_le_add hturns hcode)

theorem effect {ws : List Word} {head : UnitHead} (h : s.tally.Within n) (he : Effect env s ws head t) :
    t.tally.Within (n + 1) := by
  have hfaults : ∀ fs, (s.failAll fs).tally.Within n := by
    intro fs
    rw [tally_failAll]
    exact h
  cases he with
  | close fs => exact close ((hfaults fs).mono (Nat.le_succ n)) (hfaults fs).turns env
  | @execute op w known =>
    have hfetches := (fetches_operandState env s op w).readOperands env op w ws
    rw [tally_failAll]
    apply execute
    show Within n (tally (readOperands env op w _ ws).2.2)
    rw [hfetches.tally_eq]
    exact h
  | _ => exact (hfaults _).mono (Nat.le_succ n)

theorem readUnit (h : s.tally.Within n) (w : Word) (ws : List Word) :
    (Scan.readUnit env s w ws).1.tally.Within (n + 1) := by
  have hnoted : (s.noteEnd w).tally = s.tally := by
    unfold noteEnd
    split <;> rfl
  rw [← hnoted] at h
  exact h.effect (effect_readUnit env s w ws)

/-- **In every state of a run the counters are bounded by the number of words before it.** -/
theorem run {ws : List Word} {vs : List Visit} (r : Run env s n ws vs t) (h : s.tally.Within n) :
    (∀ v ∈ vs, v.before.tally.Within v.start) ∧ t.tally.Within (n + ws.length) := by
  have hafter : ∀ {s : Scan} {n : Nat} (w : Word) (ws : List Word), s.tally.Within n →
      (visit env s n w ws).after.tally.Within (n + 1) :=
    fun {s n} w ws h => readUnit (s := s.startUnit (.word n)) h w ws
  induction r with
  | done => exact ⟨by simp, h⟩
  | cut s n w ws =>
    have ha := (hafter w ws h).mono (show n + 1 ≤ n + (w :: ws).length by simp)
    exact ⟨List.forall_mem_singleton.mpr h, ha⟩
  | stop s n w ws =>
    have ha := (hafter w ws h).mono (show n + 1 ≤ n + (w :: ws).length by simp)
    exact ⟨List.forall_mem_singleton.mpr h, ha⟩
  | next s n w ws fits _ _ ih =>
    have hlength := (visit env s n w ws).one_le_length
    obtain ⟨hvs, ht⟩ := ih ((hafter w ws h).mono (Nat.add_le_add_left hlength n))
    refine ⟨List.forall_mem_cons.mpr ⟨h, hvs⟩, ht.mono ?_⟩
    have hfits : (visit env s n w ws).length ≤ ws.length + 1 := fits
    have hrest : (visit env s n w ws).remainder.length =
        ws.length - ((visit env s n w ws).length - 1) := List.length_drop
    rw [hrest, List.length_cons]
    omega

theorem start (env : Env) : (Scan.start env).tally.Within 1 := by
  unfold Scan.start
  rw [tally_failIf]
  exact ⟨by decide, by decide, by decide, by decide, by decide, by decide, by decide⟩

theorem ofUnits (env : Env) (ws : List Word) :
    (Scan.ofUnits env ws).tally.Within (1 + ws.length) := by
  have hread := (run (run_readUnits env _ 1 ws) (start env)).2
  unfold Scan.ofUnits finish
  rw [tally_failIf, tally_failIf]
  exact hread

end Tally.Within

end Scan

end ShaderLift
