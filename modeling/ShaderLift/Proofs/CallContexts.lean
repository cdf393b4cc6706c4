/-
Where the calls of a label stand.  A call is inside of a loop if more loops were opened than closed before
it; this is a matter of the instructions alone.  Reading does not look back at them.  It keeps for each
label what the first call was, among what is known about the label as a register.

`Scan.Knows` says that the record is right: it tells of calls inside of loops if there are some and all
are inside, of calls outside if there are some and all are outside, and of none if there are none.  It is
right between any two units of a shader without a fault.
-/
import ShaderLift.Proofs.Subroutines

namespace ShaderLift

variable {s : Scan} {is : List Instruction} {i : Instruction}

/-! ### Calls among instructions -/

def Instruction.Calls (i : Instruction) (n : Nat) : Prop :=
  (i.opcode = .call ∨ i.opcode = .callNz) ∧ (i.source 0).register = ⟨.label, n⟩

instance (i : Instruction) (n : Nat) : Decidable (i.Calls n) := inferInstanceAs (Decidable (_ ∧ _))

def LoopOpen (is : List Instruction) : Prop :=
  is.countP (·.opcode = .endLoop) < is.countP (·.opcode = .loop)

instance : DecidablePred LoopOpen := fun _ => inferInstanceAs (Decidable (_ < _))

section Calls

variable (is : List Instruction) (n : Nat)

def Called : Prop := ∃ i ∈ is, i.Calls n

instance : Decidable (Called is n) := inferInstanceAs (Decidable (∃ i ∈ is, i.Calls n))

/-- At every call of the label a loop is open. -/
def AllInside : Prop :=
  ∀ earlier i later, is = earlier ++ i :: later → i.Calls n → LoopOpen earlier

def AllOutside : Prop :=
  ∀ earlier i later, is = earlier ++ i :: later → i.Calls n → ¬ LoopOpen earlier

end Calls

/-- What is recorded of the calls of a label is what the instructions so far say. -/
structure Scan.Knows (s : Scan) (is : List Instruction) (n : Nat) : Prop where
  inside : s.callsOf n = .inLoop ↔ Called is n ∧ AllInside is n
  outside : s.callsOf n = .outsideLoop ↔ Called is n ∧ AllOutside is n
  uncalled : s.callsOf n = .none ↔ ¬ Called is n

/-! ### Loops that are open -/

/-- Loops are closed only where one is open, and what is called is a label. -/
structure Orderly (is : List Instruction) : Prop where
  counted : Counted ⟨0, 0, 0⟩ (is.map Instruction.opcode)
  labels : ∀ i ∈ is, i.opcode = .call ∨ i.opcode = .callNz → (i.source 0).register.file = .label

theorem Counted.left {d : Scan.Depths} {a b : List Opcode} (h : Counted d (a ++ b)) : Counted d a := by
  induction a generalizing d with
  | nil => trivial
  | cons op a ih => exact ⟨h.1, ih h.2⟩

theorem Orderly.left {a b : List Instruction} (h : Orderly (a ++ b)) : Orderly a := by
  constructor
  · have hcounted := h.counted
    rw [List.map_append] at hcounted
    exact hcounted.left
  · exact fun i hi => h.labels i (List.mem_append_left _ hi)

theorem Linkage.loops_foldl {k : Linkage} (h : Counted k.depths (is.map Instruction.opcode)) :
    (is.foldl step k).depths.loops + is.countP (·.opcode = .endLoop) =
      k.depths.loops + is.countP (·.opcode = .loop) := by
  induction is generalizing k with
  | nil => rfl
  | cons i is ih =>
    obtain ⟨hallowed, hrest⟩ := h
    have hlater := ih (k := k.step i) hrest
    have hstep : (k.step i).depths.loops + (if i.opcode = .endLoop then 1 else 0) =
        k.depths.loops + (if i.opcode = .loop then 1 else 0) := by
      show (i.opcode.deepen k.depths).loops + _ = _
      cases e : i.opcode with
      | endLoop =>
        rw [e] at hallowed
        have hopen : k.depths.loops ≠ 0 := hallowed
        show k.depths.loops - 1 + 1 = k.depths.loops
        omega
      | _ => rfl
    rw [List.foldl_cons, List.countP_cons, List.countP_cons]
    simp only [decide_eq_true_eq]
    omega

theorem Orderly.loopOpen_iff (h : Orderly is) :
    LoopOpen is ↔ 0 < (Linkage.ofInstructions is).depths.loops := by
  have hloops : (Linkage.ofInstructions is).depths.loops + is.countP (·.opcode = .endLoop) =
      0 + is.countP (·.opcode = .loop) := Linkage.loops_foldl (k := {}) h.counted
  unfold LoopOpen
  omega

/-! ### Calls that are mentioned -/

theorem Linkage.ofInstructions_concat (is : List Instruction) (i : Instruction) :
    ofInstructions (is ++ [i]) = (ofInstructions is).step i :=
  List.foldl_concat step {} i is

theorem Instruction.mention?_eq_call_iff
    (label : i.opcode = .call ∨ i.opcode = .callNz → (i.source 0).register.file = .label)
    {loops : Nat} {counted : Nat → Bool} {n : Nat} {passed : Bool} :
    i.mention? loops counted = some (.call n passed) ↔ i.Calls n ∧ passed = decide (0 < loops) := by
  have hregister : i.opcode = .call ∨ i.opcode = .callNz →
      ((i.source 0).register = ⟨.label, n⟩ ↔ (i.source 0).register.number = n) := by
    intro hop
    have hfile := label hop
    generalize (i.source 0).register = r at hfile ⊢
    obtain ⟨file, number⟩ := r
    cases hfile
    simp
  unfold mention? Calls
  cases e : i.opcode with
  | call | callNz =>
    simp only [Option.some.injEq, Mention.call.injEq, reduceCtorEq, true_or, or_true, true_and,
      hregister (by simp [e]), eq_comm (a := passed)]
  | _ => simp

/-- The mentions that are calls are the calls among the instructions, each with what it passes. -/
theorem Orderly.call_mem_iff (h : Orderly is) (n : Nat) (passed : Bool) :
    .call n passed ∈ (Linkage.ofInstructions is).mentions ↔
      ∃ earlier i later, is = earlier ++ i :: later ∧ i.Calls n ∧ (passed = true ↔ LoopOpen earlier) := by
  induction is using List.reverseRecOn with
  | nil =>
    constructor
    · intro hmem
      cases hmem
    · rintro ⟨earlier, i, later, heq, -⟩
      simp at heq
  | append_singleton is j ih =>
    -- what the last instruction adds, by the mentions before it
    have hlabel := h.labels j List.mem_append_cons_self
    have hthis : .call n passed ∈ (j.mention? (Linkage.ofInstructions is).depths.loops fun m =>
        (Linkage.ofInstructions is).mentions.contains (.call m true)).toList ↔
        j.Calls n ∧ (passed = true ↔ LoopOpen is) := by
      rw [Option.mem_toList, Instruction.mention?_eq_call_iff hlabel,
        h.left.loopOpen_iff, Bool.eq_iff_iff, decide_eq_true_eq]
    rw [Linkage.ofInstructions_concat, Linkage.step, List.mem_append, ih h.left, hthis]
    constructor
    · rintro (⟨earlier, i, later, rfl, hcalls, hpassed⟩ | ⟨hcalls, hpassed⟩)
      · exact ⟨earlier, i, later ++ [j], by simp, hcalls, hpassed⟩
      · exact ⟨is, j, [], rfl, hcalls, hpassed⟩
    · rintro ⟨earlier, i, later, heq, hcalls, hpassed⟩
      rcases append_eq_append_cons heq with ⟨middle, hold⟩ | ⟨middle, hbefore, hnew⟩
      · exact .inl ⟨earlier, i, middle, hold, hcalls, hpassed⟩
      · cases middle with
        | nil =>
          cases hnew
          rw [List.append_nil] at hbefore
          exact .inr ⟨hcalls, hbefore ▸ hpassed⟩
        | cons x middle => simp at hnew

theorem Scan.Tracks.callsOf_eq_passing_iff (tracks : s.Tracks) (h : Orderly is)
    (said : mentions s.code = (Linkage.ofInstructions is).mentions) (n : Nat) (passed : Bool) :
    s.callsOf n = .passing passed ↔ Called is n ∧ ∀ earlier i later, is = earlier ++ i :: later →
      i.Calls n → (passed = true ↔ LoopOpen earlier) := by
  have hmem : ∀ passed, s.callsOf n = .passing passed ↔ ∃ earlier i later,
      is = earlier ++ i :: later ∧ i.Calls n ∧ (passed = true ↔ LoopOpen earlier) := by
    intro passed
    rw [tracks.calls, said, h.call_mem_iff]
  constructor
  · intro hpassing
    constructor
    · obtain ⟨earlier, i, later, rfl, hi, -⟩ := (hmem passed).mp hpassing
      exact ⟨i, List.mem_append_cons_self, hi⟩
    · intro earlier i later heq hi
      have hthis : s.callsOf n = .passing (decide (LoopOpen earlier)) :=
        (hmem _).mpr ⟨earlier, i, later, heq, hi, decide_eq_true_iff⟩
      rw [CallContext.passing_inj.mp (hpassing.symm.trans hthis), decide_eq_true_iff]
  · rintro ⟨⟨i, hi, hcalls⟩, hall⟩
    obtain ⟨earlier, later, heq⟩ := List.append_of_mem hi
    exact (hmem passed).mpr ⟨earlier, i, later, heq, hcalls, hall earlier i later heq hcalls⟩

theorem Scan.Tracks.knows (tracks : s.Tracks) (h : Orderly is)
    (said : mentions s.code = (Linkage.ofInstructions is).mentions) (n : Nat) : s.Knows is n := by
  have hpassing := tracks.callsOf_eq_passing_iff h said n
  constructor
  · simpa [AllInside, CallContext.passing] using hpassing true
  · simpa [AllOutside, CallContext.passing] using hpassing false
  · constructor
    · rintro hnone ⟨i, hi, hcalls⟩
      obtain ⟨earlier, later, heq⟩ := List.append_of_mem hi
      have hmem : .call n (decide (LoopOpen earlier)) ∈ mentions s.code := by
        rw [said, h.call_mem_iff]
        exact ⟨earlier, i, later, heq, hcalls, decide_eq_true_iff⟩
      rw [← tracks.calls, hnone] at hmem
      cases hopen : decide (LoopOpen earlier) <;> rw [hopen] at hmem <;> cases hmem
    · intro hnot
      cases e : s.callsOf n with
      | none => rfl
      | inLoop => exact absurd ((hpassing true).mp e).1 hnot
      | outsideLoop => exact absurd ((hpassing false).mp e).1 hnot

/-! ### Units and shaders -/

theorem Scan.file_of_call {env : Env} (legal : violations env s i = [])
    (hop : i.opcode = .call ∨ i.opcode = .callNz) : (i.source 0).register.file = .label := by
  have hlabel : ∃ use, labelFaults env.toShader i use = [] := by
    unfold violations at legal
    rcases hop with hop | hop <;> rw [hop] at legal
    · exact ⟨_, (List.append_eq_nil_iff.mp legal).1⟩
    · exact ⟨_, (List.append_eq_nil_iff.mp (List.append_eq_nil_iff.mp legal).1).2⟩
  obtain ⟨use, hfaults⟩ := hlabel
  have hfile := (List.append_eq_nil_iff.mp (List.append_eq_nil_iff.mp hfaults).1).1
  simpa using faultIf_eq_nil hfile

theorem Scan.Run.orderly {env : Env} {t : Scan} {p : Position} {n : Nat} {ws : List Word}
    {vs : List Visit} (r : Scan.Run env { position := p } n ws vs t) (does : ∀ v ∈ vs, v.Does) :
    Orderly (vs.filterMap Visit.instruction?) := by
  constructor
  · rw [List.map_filterMap]
    exact r.counted does
  · intro i hi hop
    obtain ⟨v, hv, hthis⟩ := List.mem_filterMap.mp hi
    obtain ⟨s, hexecutes⟩ := (does v hv).executes hthis
    exact file_of_call hexecutes.legal hop

theorem foldl_instructions (vs : List Visit) (k : Linkage) :
    vs.foldl (fun k v => v.instruction?.toList.foldl Linkage.step k) k =
      (vs.filterMap Visit.instruction?).foldl Linkage.step k := by
  induction vs generalizing k with
  | nil => rfl
  | cons v vs ih =>
    rw [List.foldl_cons, ih, List.filterMap_cons]
    cases v.instruction? <;> rfl

theorem Scan.tracks_start : Scan.Tracks { position := .before } := by
  refine ⟨RegisterTable.sorted_empty, fun n passed => ⟨fun h => ?_, fun h => by cases h⟩⟩
  cases passed <;> cases h

section Boundaries

variable {env : Env} {t : Scan} {n : Nat} {ws : List Word} {vs : List Visit}
  (r : Scan.Run env { position := .before } n ws vs t) (does : ∀ v ∈ vs, v.Does)
include r does

theorem Scan.Run.tracks_before : ∀ v ∈ vs, v.before.Tracks :=
  r.preserves_before (fun _ _ h => ⟨h.sorted, h.calls⟩) (fun _ _ _ hv hb => (hv.linked hb).1) does
    Scan.tracks_start

theorem Scan.Run.knows_end (label : Nat) : t.Knows (vs.filterMap Visit.instruction?) label := by
  obtain ⟨htracks, hlinkage⟩ := r.linked does Scan.tracks_start
  exact htracks.knows (r.orderly does) (congrArg Linkage.mentions hlinkage) label

theorem Scan.Run.knows_at {earlier later : List Visit} {v : Visit} (hvs : vs = earlier ++ v :: later)
    (label : Nat) :
    v.before.Knows (earlier.filterMap Visit.instruction?) label ∧
      v.after.Knows ((earlier ++ [v]).filterMap Visit.instruction?) label := by
  have hv : v ∈ vs := hvs ▸ List.mem_append_cons_self
  have htracks := r.tracks_before does
  have hbefore : v.before.linkage = Linkage.ofInstructions (earlier.filterMap Visit.instruction?) := by
    have hfold := (r.observed_at (f := Scan.linkage) (Q := fun u => u.Does ∧ u.before.Tracks)
      (g := fun k u => u.instruction?.toList.foldl Linkage.step k) (fun _ _ => rfl) (fun _ => rfl)
      (fun u _ hu => (hu.1.linked hu.2).2) (fun u hu => ⟨does u hu, htracks u hu⟩) hvs).1
    rw [hfold, foldl_instructions]
    rfl
  obtain ⟨hafter, hstep⟩ := (does v hv).linked (htracks v hv)
  have horderly : Orderly ((earlier ++ [v]).filterMap Visit.instruction?) := by
    have hall := r.orderly does
    rw [hvs, List.append_cons earlier v later, List.filterMap_append] at hall
    exact hall.left
  have hsplit : (earlier ++ [v]).filterMap Visit.instruction? =
      earlier.filterMap Visit.instruction? ++ v.instruction?.toList := by
    rw [List.filterMap_append, List.filterMap_cons]
    cases v.instruction? <;> rfl
  constructor
  · rw [hsplit] at horderly
    exact (htracks v hv).knows horderly.left (congrArg Linkage.mentions hbefore) label
  · refine hafter.knows horderly (congrArg Linkage.mentions (hstep.trans ?_)) label
    rw [hbefore, hsplit]
    exact List.foldl_append.symm

end Boundaries

/-- The calls of a label agree about loops, and reading knows of it all along. -/
structure CallsAgree (o : Options) (ws : List Word) (n : Nat) : Prop where
  agree : AllInside (instructionsOf o ws) n ∨ AllOutside (instructionsOf o ws) n
  /-- Before and after each unit the record of the label tells of the calls so far. -/
  known : ∀ earlier v later, unitsOf o ws = earlier ++ v :: later →
    v.before.Knows (earlier.filterMap Visit.instruction?) n ∧
      v.after.Knows ((earlier ++ [v]).filterMap Visit.instruction?) n

/-- **All calls of a label are inside of loops, or all are outside**, in a shader without a fault, and the
record of the label says which after every unit. -/
theorem lift_calls_agree (p : Glsl.Profile) (o : Options) (ws : List Word) (n : Nat)
    (clean : (liftWords p o ws).errors = []) : CallsAgree o ws n := by
  have hdoes := does_of_no_errors p o ws clean
  obtain ⟨w, us, env, t, -, -, hrun, -⟩ := run_of_no_errors clean
  refine ⟨?_, fun earlier v later hvs => hrun.knows_at hdoes hvs n⟩
  have hend : t.Knows (instructionsOf o ws) n := hrun.knows_end hdoes n
  cases e : t.callsOf n with
  | inLoop => exact .inl (hend.inside.mp e).2
  | outsideLoop => exact .inr (hend.outside.mp e).2
  | none =>
    refine .inl fun earlier i later heq hi => absurd ?_ (hend.uncalled.mp e)
    exact ⟨i, heq ▸ List.mem_append_cons_self, hi⟩

/-- Two loops that call one subroutine, on a condition in the second one, and a call of another subroutine
between them. -/
def callsBetween : List Word :=
  [0xFFFE0200,
    0x0200001B, 0xF0E40800, 0xF0E40000,
    0x01000019, 0xA0E41000,
    0x0000001D,
    0x01000019, 0xA0E41001,
    0x0200001B, 0xF0E40800, 0xF0E40000,
    0x0200001A, 0xA0E41000, 0xE0E40800,
    0x0000001D,
    0x0000001C,
    0x0100001E, 0xA0E41000,
    0x0000001C,
    0x0100001E, 0xA0E41001,
    0x0000001C,
    0xFFFF]

theorem calls_agree_callsBetween :
    (liftWords .glsl110 {} callsBetween).errors = [] ∧
      CallsAgree {} callsBetween 0 ∧ CallsAgree {} callsBetween 1 := by
  have clean : (liftWords .glsl110 {} callsBetween).errors = [] := by decide +kernel
  exact ⟨clean, lift_calls_agree .glsl110 {} callsBetween 0 clean,
    lift_calls_agree .glsl110 {} callsBetween 1 clean⟩

end ShaderLift
