/-
The functions of a program besides its entry point.  A function starts at a label and goes up to the next
unit that closes a function.  It is put out as one piece of text (`functionText`).

Whether anything calls the label makes no difference.  The operand of the label records it as a register
that is used, like that of a call, so a label is recorded by the time its function starts.
-/
import ShaderLift.Proofs.CallContexts
import ShaderLift.Proofs.EntryPoint

namespace ShaderLift

open Glsl

/-! ### Functions and their texts -/

/-- The instruction starts the function of a label. -/
def Instruction.Starts (i : Instruction) (n : Nat) : Prop :=
  i.opcode = .label ∧ (i.source 0).register = ⟨.label, n⟩

instance (i : Instruction) (n : Nat) : Decidable (i.Starts n) := inferInstanceAs (Decidable (_ ∧ _))

/-- The text of a function: its head, what its units write, and its end. -/
def functionText (sh : Shader) (n : Nat) (counter : Bool) (body : List Visit) (depth : Int) : String :=
  (Layout.run (Stmt.layout sh (.openFunction n counter) ++ (body.flatMap Visit.layout ++ functionEnd))
    depth).1

/-- A text has another one in it, from the start of a line on. -/
def HasText (text part : String) : Prop :=
  ∃ before after, EndsLine before ∧ text = before ++ part ++ after

theorem HasText.hasLine {text part line : String} (h : HasText text part) (hline : HasLine part line) :
    HasLine text line := by
  obtain ⟨before, after, hends, rfl⟩ := h
  exact (hline.prepend hends).append after

theorem endsLine_unlines (ls : List String) : EndsLine (unlines ls) := by
  have hends := Layout.endsLine_run (Layout.lines ls) 0
  rwa [Layout.run_lines] at hends

theorem hasText_run {steps before part after : List Layout} (h : steps = before ++ (part ++ after))
    (depth : Int) : ∃ inner, HasText (Layout.run steps depth).1 (Layout.run part inner).1 := by
  subst h
  refine ⟨(Layout.run before depth).2, (Layout.run before depth).1,
    (Layout.run after (Layout.run part (Layout.run before depth).2).2).1, Layout.endsLine_run _ _, ?_⟩
  simp only [Layout.run_append, String.append_assoc]

theorem hasText_program {p : Profile} {o : Options} {l : LinkedShader} {part : String}
    (h : HasText (Layout.run (bodies o l.env.toShader l.scan.code).2
      (Layout.run (bodies o l.env.toShader l.scan.code).1 1).2).1 part) :
    HasText (program p o l) part := by
  obtain ⟨before, after, hends, htext⟩ := h
  unfold program
  dsimp only
  rw [htext]
  refine ⟨(Layout.run (preface p o l) 0).1 ++ (Layout.run (globals p l) 0).1
    ++ (Layout.run (l.scan.helpers.flatMap Helper.layout) 0).1 ++ before,
    after ++ (Layout.run (intro o l) 0).1
      ++ (Layout.run (bodies o l.env.toShader l.scan.code).1 1).1, ?_, ?_⟩
  · exact (((Layout.endsLine_run _ _).append (Layout.endsLine_run _ _)).append
      (Layout.endsLine_run _ _)).append hends
  · simp only [String.append_assoc]

theorem hasLine_functionText (sh : Shader) (n : Nat) (counter : Bool) (body : List Visit) (depth : Int) :
    HasLine (functionText sh n counter body depth) (headLine sh n counter) :=
  Layout.hasLine_run (List.mem_append_left _ List.mem_cons_self) depth

/-! ### Units of functions -/

namespace Visit

variable {v : Visit} {i : Instruction} {s : Scan}

theorem Executes.written_label (h : v.Executes i s) (hop : i.opcode = .label)
    (sorted : v.before.used.Sorted) :
    v.written = [.openFunction (i.source 0).register.number
      (v.before.callsOf (i.source 0).register.number = .inLoop)] := by
  have hcalls : ∀ n, (Scan.settled v.env s i).callsOf n = v.before.callsOf n := by
    intro n
    have hsettled : (Scan.settled v.env s i).callsOf n = s.callsOf n := by
      unfold Scan.settled Scan.account
      rw [hop]
      rfl
    exact hsettled.trans ((h.fetches.keepsCalls sorted).2 n)
  rw [written_eq h.code_after, Scan.codeOf, Scan.instructionCode, hop]
  simp only [← hcalls]
  rfl

theorem Executes.recorded_label (h : v.Executes i s) (hop : i.opcode = .label) :
    (i.source 0).register ∈ v.after.used.registers := by
  have hone : 0 < i.opcode.info.shape.sourceCount v.env.toShader := by
    rw [hop]
    exact Nat.one_pos
  exact h.grows.used _ (Scan.fetched_source h.fetchedArguments hone).used

end Visit

section Runs

variable {env : Env} {t : Scan} {n : Nat} {ws : List Word} {earlier later : List Visit} {v : Visit}
  {i : Instruction} (r : Scan.Run env { position := .before } n ws (earlier ++ v :: later) t)
  (does : ∀ u ∈ earlier ++ v :: later, u.Does) (this : v.instruction? = some i)
  (hop : i.opcode = .label)
include r does this hop

theorem Scan.Run.inMain_label : v.before.inMain = false := by
  have hv : v ∈ earlier ++ v :: later := List.mem_append_cons_self
  obtain ⟨s, hexecutes⟩ := (does v hv).executes this
  have hprevious : v.before.previous = some .ret := by
    rw [← hexecutes.fetches.previous_eq]
    exact previous_of_label hexecutes.legal hop
  have hlast := ((r.functionsApart does).1 v hv).closed hprevious
  exact inMain_eq_false_iff.mpr (List.mem_of_getLast? hlast)

theorem Scan.Run.after_closing {opened closed : List Visit} {closing : Visit}
    (hsplit : earlier ++ v :: later = opened ++ closing :: closed)
    (first : ∀ u ∈ opened, u.closes = false) :
    ∃ between, earlier = opened ++ closing :: between ∧ closed = between ++ v :: later := by
  rw [List.append_cons opened closing closed] at hsplit
  rcases append_eq_append_cons hsplit.symm with ⟨middle, hold⟩ | ⟨between, hearlier, hclosed⟩
  · -- no unit closes a function before the first one that does
    have hstart : earlier <+: opened := by
      refine List.prefix_of_prefix_length_le ⟨_, hold.symm⟩ (List.prefix_append _ _) ?_
      have hlength := congrArg List.length hold
      simp only [List.length_append, List.length_cons, List.length_nil] at hlength
      omega
    have hmain := (r.inMain_before does).mpr fun u hu => first u (hstart.subset hu)
    rw [r.inMain_label does this hop] at hmain
    cases hmain
  · exact ⟨between, by rw [hearlier, List.append_assoc]; rfl, hclosed⟩

/-- Where a return was the last instruction after a label, the function of the label was closed. -/
theorem Scan.Run.exists_closing_of_return {between rest : List Visit} {x : Visit}
    (hlater : later = between ++ x :: rest) (hret : x.before.previous = some .ret) :
    ∃ u ∈ between, u.closes = true := by
  have hv : v ∈ earlier ++ v :: later := List.mem_append_cons_self
  obtain ⟨s, hexecutes⟩ := (does v hv).executes this
  have hsplit : earlier ++ v :: later = (earlier ++ v :: between) ++ x :: rest := by
    rw [hlater, List.append_assoc]
    rfl
  have hcode : x.before.code = (earlier ++ v :: between).flatMap Visit.written :=
    r.appended_at (fun _ _ => rfl) (fun _ => rfl) (fun _ h => h.code_after) does hsplit
  -- the code ends with the end of a function, and that is not the head which the label writes
  have hlast := ((r.functionsApart does).1 x (by simp [hlater])).closed hret
  rw [hcode, List.flatMap_append, List.flatMap_cons, List.getLast?_append, List.getLast?_append,
    hexecutes.written_label hop (r.tracks_before does v hv).sorted] at hlast
  have hclosed : .closeFunction ∈ between.flatMap Visit.written := by
    cases hbetween : (between.flatMap Visit.written).getLast? with
    | none =>
      rw [hbetween] at hlast
      cases hlast
    | some c =>
      rw [hbetween] at hlast
      cases hlast
      exact List.mem_of_getLast? hbetween
  obtain ⟨u, hu, hwritten⟩ := List.mem_flatMap.mp hclosed
  have hdoes : u.Does := does u (by simp [hlater, hu])
  exact ⟨u, hu, hdoes.closeFunction_mem_written_iff.mp hwritten⟩

theorem Scan.Run.exists_closing {before : List Visit} {last : Visit}
    (hend : earlier ++ v :: later = before ++ [last]) (mark : last.word = Word.endMark) :
    ∃ u ∈ later, u.closes = true := by
  have hv : v ∈ earlier ++ v :: later := List.mem_append_cons_self
  obtain ⟨s, hexecutes⟩ := (does v hv).executes this
  obtain ⟨fields, hhead, -⟩ := hexecutes.fetched
  rcases List.eq_nil_or_concat' later with hnil | ⟨between, x, hlater⟩
  · rw [hnil] at hend
    cases (List.append_inj' hend rfl).2
    exact absurd mark (Visit.word_ne_endMark hhead (by simp))
  · have hlast : x = last := by
      rw [hlater, ← List.cons_append, ← List.append_assoc] at hend
      exact List.singleton_inj.mp (List.append_inj' hend rfl).2
    subst hlast
    by_cases hret : x.before.previous = some .ret
    · obtain ⟨u, hu, hcloses⟩ := r.exists_closing_of_return does this hop hlater hret
      exact ⟨u, hlater ▸ List.mem_append_left _ hu, hcloses⟩
    · exact ⟨x, by simp [hlater], by simp [Visit.closes, mark, hret]⟩

theorem Scan.Run.layout_function {before : List Visit} {last : Visit}
    (hend : earlier ++ v :: later = before ++ [last]) (mark : last.word = Word.endMark) :
    ∃ body closing rest, later = body ++ closing :: rest ∧ closing.closes = true ∧
      (∀ u ∈ body, u.closes = false) ∧
      (v :: later).flatMap Visit.layout =
        (Stmt.layout env.toShader (.openFunction (i.source 0).register.number
            (v.before.callsOf (i.source 0).register.number = .inLoop)) ++
          (body.flatMap Visit.layout ++ functionEnd)) ++ rest.flatMap Visit.layout := by
  have hv : v ∈ earlier ++ v :: later := List.mem_append_cons_self
  obtain ⟨body, closing, rest, hlater, hcloses, hopen⟩ :=
    exists_first (r.exists_closing does this hop hend mark)
  refine ⟨body, closing, rest, hlater, hcloses, hopen, ?_⟩
  have hmain : closing.before.inMain = false := by
    have hlabel := r.inMain_label does this hop
    have hsplit : earlier ++ v :: later = (earlier ++ v :: body) ++ closing :: rest := by
      rw [hlater, List.append_assoc]
      rfl
    refine Bool.eq_false_iff.mpr fun hmain => ?_
    rw [Bool.eq_false_iff, ne_eq, r.inMain_before does] at hlabel
    rw [hsplit] at r does
    exact hlabel fun u hu => (r.inMain_before does).mp hmain u (List.mem_append_left _ hu)
  have hclosing : closing.layout = functionEnd :=
    (does closing (by simp [hlater])).layout_closing hcloses hmain
  obtain ⟨s, hexecutes⟩ := (does v hv).executes this
  rw [List.flatMap_cons, hlater, List.flatMap_append, List.flatMap_cons, hclosing, Visit.layout,
    hexecutes.written_label hop (r.tracks_before does v hv).sorted, r.env_eq v hv,
    List.flatMap_singleton]
  simp only [List.append_assoc]

end Runs

/-! ### Shaders -/

/-- What becomes of the function of a label, which the unit `v` starts: its text is in the output. -/
structure FunctionPutOut (sh : Shader) (output : String) (earlier : List Visit) (v : Visit)
    (later : List Visit) (n : Nat) : Prop where
  recorded : ⟨.label, n⟩ ∈ v.after.used.registers
  /-- The function goes up to the next unit that closes one.  It takes the counter of a loop if it was called
  from loops only. -/
  text : ∃ body last rest counter depth, later = body ++ last :: rest ∧ last.closes = true ∧
    (∀ u ∈ body, u.closes = false) ∧
    (counter = true ↔ Called (earlier.filterMap Visit.instruction?) n ∧
      AllInside (earlier.filterMap Visit.instruction?) n) ∧
    HasText output (functionText sh n counter body depth)

/-- The functions of a program are those that its labels start, called or not. -/
structure FunctionsPutOut (o : Options) (ws : List Word) (sh : Shader) (output : String) : Prop where
  whole : ∀ earlier v later i, unitsOf o ws = earlier ++ v :: later → v.instruction? = some i →
    i.opcode = .label → (i.source 0).register = ⟨.label, (i.source 0).register.number⟩ ∧
      FunctionPutOut sh output earlier v later (i.source 0).register.number
  /-- What nothing calls is left out only if there is nothing of the kind. -/
  uncalled : (∀ n, (∃ i ∈ instructionsOf o ws, i.Starts n) → ¬ Called (instructionsOf o ws) n →
      ∀ counter, ¬ HasLine output (headLine sh n counter)) ↔
    ∀ n, (∃ i ∈ instructionsOf o ws, i.Starts n) → Called (instructionsOf o ws) n

theorem Scan.file_of_label {env : Env} {s : Scan} {i : Instruction} (legal : violations env s i = [])
    (hop : i.opcode = .label) : (i.source 0).register.file = .label := by
  unfold violations at legal
  rw [hop] at legal
  have hlabel := (List.append_eq_nil_iff.mp legal).2
  have hfile := (List.append_eq_nil_iff.mp (List.append_eq_nil_iff.mp hlabel).1).1
  simpa using faultIf_eq_nil hfile

section Clean

variable {p : Profile} {o : Options} {ws : List Word} {l : LinkedShader}
  (clean : (liftWords p o ws).errors = []) (hlink : linkShader o ws = .ok l)
include clean hlink

theorem functionPutOut_of_label {earlier later : List Visit} {v : Visit} {i : Instruction}
    (hunits : unitsOf o ws = earlier ++ v :: later) (this : v.instruction? = some i)
    (hop : i.opcode = .label) :
    (i.source 0).register = ⟨.label, (i.source 0).register.number⟩ ∧
      FunctionPutOut l.env.toShader (program p o l) earlier v later (i.source 0).register.number := by
  have hdoes := does_of_no_errors p o ws clean
  obtain ⟨before, last, hend, hmark, -⟩ := exists_endMark clean
  have hcode := code_eq_written clean hlink
  obtain ⟨w, us, k, opened, closing, closed, hws, hk, hlinked, hsplit, hdivided⟩ := exists_divided clean
  cases hlinked.symm.trans hlink
  obtain ⟨sh, -, rfl⟩ := Option.map_eq_some_iff.mp hk
  have hrun := hdivided.run
  have hfunctions := congrArg Prod.snd (hdivided.functions_closed (List.append_nil closed).symm)
  have hclosed : .closeFunction ∈ (LinkedShader.ofUnits _ us).scan.code :=
    Scan.closeFunction_mem_of_ofUnits hdivided.clean
  rw [← hsplit, ← hcode, Task.functions, if_pos hclosed] at hfunctions
  rw [← hsplit] at hrun
  rw [hunits] at hrun hdoes hsplit hend
  have hv : v ∈ earlier ++ v :: later := List.mem_append_cons_self
  obtain ⟨s, hexecutes⟩ := (hdoes v hv).executes this
  have hregister : (i.source 0).register = ⟨.label, (i.source 0).register.number⟩ := by
    rw [← Scan.file_of_label hexecutes.legal hop]
  refine ⟨hregister, hregister ▸ hexecutes.recorded_label hop, ?_⟩
  obtain ⟨body, closing', rest, hlater, hcloses', hopen, hlayout⟩ :=
    hrun.layout_function hdoes this hop hend hmark
  obtain ⟨between, -, hclosed⟩ := hrun.after_closing hdoes this hop hsplit hdivided.first
  rw [hclosed, List.flatMap_append, hlayout] at hfunctions
  obtain ⟨depth, htext⟩ := hasText_run hfunctions
    (Layout.run (bodies o sh (Scan.ofUnits _ us).code).1 1).2
  exact ⟨body, closing', rest, _, depth, hlater, hcloses', hopen,
    decide_eq_true_iff.trans (hrun.knows_at hdoes rfl _).1.inside, hasText_program htext⟩

end Clean

/-- **Functions are put out whether they are called or not**, each in one piece from its label to the unit
that closes it, in any shader without a fault. -/
theorem lift_functions_put_out (p : Profile) (o : Options) (ws : List Word)
    (clean : (liftWords p o ws).errors = []) :
    ∃ l, linkShader o ws = .ok l ∧
      FunctionsPutOut o ws l.env.toShader (liftWords p o ws).output := by
  obtain ⟨env, us, hlink, -, -⟩ := linked_of_no_errors clean
  have houtput : (liftWords p o ws).output = program p o (.ofUnits env us) := by
    rw [liftWords_eq, hlink]
    rfl
  refine ⟨_, hlink, ?_⟩
  rw [houtput]
  refine ⟨fun earlier v later i => functionPutOut_of_label clean hlink, ?_, fun hall n hn hnone =>
    absurd (hall n hn) hnone⟩
  rintro homitted n ⟨i, hi, hop, hregister⟩
  by_contra hnone
  obtain ⟨v, hv, hthis⟩ := List.mem_filterMap.mp hi
  obtain ⟨earlier, later, hunits⟩ := List.append_of_mem hv
  obtain ⟨body, last, rest, counter, depth, -, -, -, -, htext⟩ :=
    (functionPutOut_of_label clean hlink hunits hthis hop).2.text
  rw [hregister] at htext
  exact homitted n ⟨i, hi, hop, hregister⟩ hnone counter
    (htext.hasLine (hasLine_functionText _ _ _ _ _))

/-- An entry point without a call, and a function after it. -/
def uncalledFunction : List Word :=
  [0xFFFE0200,
    0x02000001, 0x800F0000, 0xA0E40000,
    0x02000001, 0xC00F0000, 0x80E40000,
    0x0000001C,
    0x0100001E, 0xA0E41000,
    0x02000001, 0x800F0000, 0xA1E40000,
    0x0000001C,
    0xFFFF]

theorem functions_put_out_uncalledFunction :
    (liftWords .glsl110 {} uncalledFunction).errors = [] ∧
      ∃ l, linkShader {} uncalledFunction = .ok l ∧
        FunctionsPutOut {} uncalledFunction l.env.toShader
          (liftWords .glsl110 {} uncalledFunction).output := by
  have clean : (liftWords .glsl110 {} uncalledFunction).errors = [] := by decide +kernel
  exact ⟨clean, lift_functions_put_out .glsl110 {} uncalledFunction clean⟩

/-- Nothing calls the function, and all of it is in the program. -/
theorem uncalledFunction_in_output :
    (liftWords .glsl110 {} uncalledFunction).errors = [] ∧
      (∃ i ∈ instructionsOf {} uncalledFunction, i.Starts 0) ∧
      ¬ Called (instructionsOf {} uncalledFunction) 0 ∧
      HasText (liftWords .glsl110 {} uncalledFunction).output
        (unlines ["void vs_l0()", "\x7b", "\tvs_r0 = -vs_c0;", "\x7d", ""]) := by
  have htext : (liftWords .glsl110 {} uncalledFunction).output =
      unlines ["#version 110", "uniform vec4 vs_uniforms_vec4[1];", "vec4 vs_r0;",
        "#define vs_c0 vs_uniforms_vec4[0]", "#define vs_oPos gl_Position", ""]
      ++ unlines ["void vs_l0()", "\x7b", "\tvs_r0 = -vs_c0;", "\x7d", ""]
      ++ unlines ["void main()", "\x7b", "\tvs_r0 = vs_c0;", "\tvs_oPos = vs_r0;", "\x7d", ""] := by
    decide +kernel
  refine ⟨by decide +kernel, by decide +kernel, by decide +kernel, ?_⟩
  exact ⟨_, _, endsLine_unlines _, htext⟩

end ShaderLift
