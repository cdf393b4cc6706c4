/-
Programs declare what they name.  Registers are declared for all of the code, unless they are `Stray`.
The counter of a loop is another matter: it is made known by the head of the loop, or by that of a
function that is given it, and only up to the brace that closes the block.  Code names it as the index of
a relative read and as what is passed to a subroutine, and reading looks at neither.

Here the counter is known where the text says so (`CounterKnown`), by lines and braces.  This comes down
to the instructions: one of those before brought the counter, and its block was not closed since
(`CounterAtHand`).
-/
import ShaderLift.Proofs.Functions

namespace ShaderLift

open Glsl

/-! ### The counter in code -/

namespace Glsl

/-- Whether the counter of a loop is in the text of an expression. -/
def Expr.namesCounter : Expr → Bool
  | .number _ => false
  | .name n => n = .loopCounter
  | .lanes e _ | .negate e | .not e | .group e | .call _ e | .lookup _ _ _ e => e.namesCounter
  | .element array index => array = .loopCounter || index.namesCounter
  | .binary _ a b | .args a b => a.namesCounter || b.namesCounter
  | .choose test a b => test.namesCounter || a.namesCounter || b.namesCounter

/-- Whether a statement names the counter of a loop that it is in. -/
def Stmt.namesCounter : Stmt → Bool
  | .assign _ e | .vector3 _ e | .openRep _ e | .openIf e | .leaveIf e => e.namesCounter
  | .call _ counter => counter
  | .callIf e _ counter => e.namesCounter || counter
  | _ => false

/-- The line that makes the counter known. -/
def Stmt.counterLine? (sh : Shader) : Stmt → Option String
  | .openLoop bounds =>
    some ("for (int aL = " ++ bounds.name sh ++ ".y; aL < aLend; aL += " ++ bounds.name sh ++ ".z) \x7b")
  | .openFunction label true => some (headLine sh label true)
  | _ => none

/-- After some code a line makes the counter known: its statement is in the function that is open, and the
braces behind it have not closed its block. -/
def CounterKnown (sh : Shader) (code : List Stmt) (line : String) : Prop :=
  ∃ outer head inner, code = outer ++ head :: inner ∧ head.counterLine? sh = some line ∧
    .closeFunction ∉ inner ∧ (Brace.depth? 0 (innerBraces sh inner)).isSome = true

variable {sh : Shader} {c : Stmt} {line : String} {K : Register → Prop}

theorem Stmt.line_mem_layout (h : c.counterLine? sh = some line) : .line line ∈ c.layout sh := by
  cases c with
  | openLoop bounds =>
    cases h
    simp [layout]
  | openFunction label counter =>
    cases counter <;> cases h
    exact List.mem_cons_self
  | _ => cases h

theorem Stmt.Plain.counterLine?_eq (h : c.Plain K) : c.counterLine? sh = none := by
  cases c <;> first | rfl | exact h.elim

theorem innerBraces_append (a b : List Stmt) :
    innerBraces sh (a ++ b) = innerBraces sh a ++ innerBraces sh b := by
  rw [innerBraces, List.filter_append, List.flatMap_append]
  rfl

/-- Statements that only give values make no difference to what is known. -/
theorem counterKnown_append_plain {code pre : List Stmt} (plain : ∀ c ∈ pre, c.Plain K) :
    CounterKnown sh (code ++ pre) line ↔ CounterKnown sh code line := by
  have hbraces : ∀ inner, innerBraces sh (inner ++ pre) = innerBraces sh inner := by
    intro inner
    rw [innerBraces_append, innerBraces_of_plain plain, List.append_nil]
  have hclose : .closeFunction ∉ pre := fun hmem => plain _ hmem
  constructor
  · rintro ⟨outer, head, inner, hsplit, hline, hopen, hdepth⟩
    rcases append_eq_append_cons hsplit with ⟨middle, hcode⟩ | ⟨middle, -, hpre⟩
    · have hinner : inner = middle ++ pre := by
        rw [hcode] at hsplit
        simpa using hsplit.symm
      rw [hinner, hbraces] at hdepth
      rw [hinner, List.mem_append, not_or] at hopen
      exact ⟨outer, head, middle, hcode, hline, hopen.1, hdepth⟩
    · rw [(plain head (hpre ▸ List.mem_append_cons_self)).counterLine?_eq] at hline
      cases hline
  · rintro ⟨outer, head, inner, rfl, hline, hopen, hdepth⟩
    refine ⟨outer, head, inner ++ pre, by simp, hline, ?_, by rwa [hbraces]⟩
    rw [List.mem_append, not_or]
    exact ⟨hopen, hclose⟩

end Glsl

/-! ### The counter among units -/

/-- The unit brings a counter: it starts a loop, or the function of a label that the units before it call,
all of them inside of loops. -/
def Visit.BringsCounter (outer : List Visit) (v : Visit) : Prop :=
  ∃ i, v.instruction? = some i ∧ (i.opcode = .loop ∨ i.opcode = .label ∧
    Called (outer.filterMap Visit.instruction?) (i.source 0).register.number ∧
    AllInside (outer.filterMap Visit.instruction?) (i.source 0).register.number)

/-- One of some units brings a counter, and neither its function nor its block was closed since. -/
def CounterAtHand (vs : List Visit) : Prop :=
  ∃ outer v inner, vs = outer ++ v :: inner ∧ v.BringsCounter outer ∧ (∀ u ∈ inner, u.closes = false) ∧
    (Brace.depth? 0 (inner.flatMap Visit.braces)).isSome = true

namespace Visit

variable {v : Visit}

/-- Units that are no instructions write what closes a function, if anything. -/
theorem Does.instruction_or_closes (h : v.Does) :
    (∃ i s, v.instruction? = some i ∧ v.Executes i s) ∨
      ∀ c ∈ v.written, c = .closeFunction ∨ c = Scan.copyColor := by
  cases h with
  | idle _ _ _ _ _ _ after | rest _ _ _ after =>
    rw [written_eq ((congrArg Scan.code after).trans (List.append_nil _).symm)]
    exact .inr fun c hc => absurd hc List.not_mem_nil
  | finish _ _ _ after =>
    rw [written_eq (code_after_finish after)]
    exact .inr fun c hc => (Scan.mem_code_closeCode hc).imp_right And.left
  | execute i s this h => exact .inl ⟨i, s, this, h⟩

theorem Executes.written_loop {i : Instruction} {s : Scan} (h : v.Executes i s) (hop : i.opcode = .loop) :
    v.written = [.openLoop (i.source 1).register] := by
  rw [written_eq h.code_after, Scan.codeOf, Scan.instructionCode, hop]
  rfl

theorem Does.plain_of_namesCounter (h : v.Does) {pre post : List Stmt} {c : Stmt}
    (hwritten : v.written = pre ++ c :: post) (hc : c.namesCounter = true) :
    ∀ x ∈ pre, x.Plain fun _ => True := by
  have hmem : c ∈ v.written := hwritten ▸ List.mem_append_cons_self
  -- neither the end of a function nor the colour of a pixel has to do with the counter
  have hclosing : ¬ (c = .closeFunction ∨ c = Scan.copyColor) := by
    rintro (rfl | rfl) <;> cases hc
  rcases h.instruction_or_closes with ⟨i, s, -, hexecutes⟩ | hcloses
  · have hcode : v.written = (Scan.codeOf v.env s i).code := written_eq hexecutes.code_after
    cases hop : i.opcode.isFlow with
    | false =>
      intro x hx
      apply (Scan.says_instructionCode_plain (Scan.supplied_any v.env.toShader _ i) hop).code
      rw [← Scan.codeOf, ← hcode, hwritten]
      exact List.mem_append_left _ hx
    | true =>
      by_cases hret : i.opcode = .ret
      · rw [hcode, Scan.codeOf, Scan.instructionCode, hret] at hmem
        exact absurd ((Scan.mem_code_closeCode hmem).imp_right And.left) hclosing
      · obtain ⟨c', hone⟩ := Scan.exists_code_of_isFlow hop hret hexecutes.sound
        rw [hcode, Scan.codeOf, hone] at hwritten
        obtain ⟨rfl, -⟩ := List.append_eq_singleton_iff.mp hwritten.symm |>.resolve_right (by simp)
        exact fun x hx => absurd hx List.not_mem_nil
  · exact absurd (hcloses c hmem) hclosing

end Visit

theorem exists_of_flatMap_eq {α β : Type} {f : α → List β} {as : List α} {before after : List β} {x : β}
    (h : as.flatMap f = before ++ x :: after) :
    ∃ earlier a later pre post, as = earlier ++ a :: later ∧ f a = pre ++ x :: post ∧
      before = earlier.flatMap f ++ pre ∧ after = post ++ later.flatMap f := by
  induction as generalizing before with
  | nil => simp at h
  | cons a as ih =>
    rw [List.flatMap_cons] at h
    rcases append_eq_append_cons h with ⟨middle, hhere⟩ | ⟨middle, hbefore, hlater⟩
    · rw [hhere] at h
      exact ⟨[], a, as, before, middle, rfl, hhere, rfl, by simpa using h.symm⟩
    · obtain ⟨earlier, b, later, pre, post, has, hb, hmiddle, hafter⟩ := ih hlater
      refine ⟨a :: earlier, b, later, pre, post, by rw [has, List.cons_append], hb, ?_, hafter⟩
      rw [hbefore, hmiddle, List.flatMap_cons, List.append_assoc]

theorem innerBraces_flatMap_written {env : Env} {vs : List Visit} (does : ∀ v ∈ vs, v.Does)
    (henv : ∀ v ∈ vs, v.env = env) :
    innerBraces env.toShader (vs.flatMap Visit.written) = vs.flatMap Visit.braces := by
  induction vs with
  | nil => rfl
  | cons v vs ih =>
    obtain ⟨hv, hvs⟩ := List.forall_mem_cons.mp does
    obtain ⟨rfl, henvs⟩ := List.forall_mem_cons.mp henv
    rw [List.flatMap_cons, List.flatMap_cons, innerBraces_append, hv.innerBraces_written, ih hvs henvs]

section Runs

variable {env : Env} {t : Scan} {n : Nat} {ws : List Word} {vs outer rest : List Visit} {u : Visit}
  (r : Scan.Run env { position := .before } n ws vs t) (does : ∀ v ∈ vs, v.Does)
include r does

theorem Scan.Run.exists_counterLine (hvs : vs = outer ++ u :: rest) (h : u.BringsCounter outer) :
    ∃ c line, u.written = [c] ∧ c.counterLine? env.toShader = some line := by
  have hu : u ∈ vs := hvs ▸ List.mem_append_cons_self
  obtain ⟨i, this, hop⟩ := h
  obtain ⟨s, hexecutes⟩ := (does u hu).executes this
  rcases hop with hloop | ⟨hlabel, hcalls⟩
  · exact ⟨_, _, hexecutes.written_loop hloop, rfl⟩
  · refine ⟨_, headLine env.toShader (i.source 0).register.number true,
      hexecutes.written_label hlabel (r.tracks_before does u hu).sorted, ?_⟩
    rw [decide_eq_true ((r.knows_at does hvs _).1.inside.mpr hcalls)]
    rfl

theorem Scan.Run.bringsCounter_of_mem (hvs : vs = outer ++ u :: rest) {c : Stmt} {line : String}
    (hc : c ∈ u.written) (hline : c.counterLine? env.toShader = some line) :
    u.written = [c] ∧ u.BringsCounter outer := by
  have hu : u ∈ vs := hvs ▸ List.mem_append_cons_self
  rcases (does u hu).instruction_or_closes with ⟨i, s, this, hexecutes⟩ | hcloses
  · have hmem := hc
    rw [Visit.written_eq hexecutes.code_after] at hmem
    have hframe := Scan.opcode_of_frame c hmem
    cases c with
    | openLoop bounds =>
      have hloop : i.opcode = .loop := hframe _ rfl
      have hwritten := hexecutes.written_loop hloop
      rw [hwritten] at hc ⊢
      exact ⟨congrArg (fun c => [c]) (List.mem_singleton.mp hc).symm, i, this, .inl hloop⟩
    | openFunction label counter =>
      have hlabel : i.opcode = .label := hframe _ rfl
      have hwritten := hexecutes.written_label hlabel (r.tracks_before does u hu).sorted
      rw [hwritten] at hc ⊢
      obtain ⟨rfl, rfl⟩ := Stmt.openFunction.inj (List.mem_singleton.mp hc)
      refine ⟨rfl, i, this, .inr ⟨hlabel, (r.knows_at does hvs _).1.inside.mp ?_⟩⟩
      by_contra hother
      rw [decide_eq_false hother] at hline
      cases hline
    | _ => cases hline
  · rcases hcloses c hc with rfl | rfl <;> cases hline

/-- Where the text makes the counter known, one of the units brought it, and the other way round. -/
theorem Scan.Run.counterKnown_iff (hvs : vs = outer ++ rest) :
    (∃ line, CounterKnown env.toShader (outer.flatMap Visit.written) line) ↔ CounterAtHand outer := by
  have hmem : ∀ {u before after}, outer = before ++ u :: after → ∀ x ∈ after, x ∈ vs := by
    rintro u before after rfl x hx
    simp [hvs, hx]
  -- the end of a function and the braces are the same for units and for statements
  have hinner : ∀ after : List Visit, (∀ x ∈ after, x ∈ vs) →
      (.closeFunction ∉ after.flatMap Visit.written ↔ ∀ x ∈ after, x.closes = false) ∧
      innerBraces env.toShader (after.flatMap Visit.written) = after.flatMap Visit.braces := by
    intro after hafter
    refine ⟨?_, innerBraces_flatMap_written (fun x hx => does x (hafter x hx))
      fun x hx => r.env_eq x (hafter x hx)⟩
    simp only [List.mem_flatMap, not_exists, not_and]
    refine forall_congr' fun x => forall_congr' fun hx => ?_
    rw [(does x (hafter x hx)).closeFunction_mem_written_iff, Bool.not_eq_true]
  constructor
  · rintro ⟨line, before, head, inner, hsplit, hline, hopen, hdepth⟩
    obtain ⟨earlier, u, after, pre, post, houter, hwritten, -, hrest⟩ := exists_of_flatMap_eq hsplit
    have hhead : head ∈ u.written := hwritten ▸ List.mem_append_cons_self
    obtain ⟨hone, hbrings⟩ := r.bringsCounter_of_mem does
      (hvs.trans (by rw [houter, List.append_assoc, List.cons_append])) hhead hline
    have hpost : post = [] := by
      rw [hone] at hwritten
      have hlength := congrArg List.length hwritten
      simp only [List.length_append, List.length_cons, List.length_nil] at hlength
      exact List.length_eq_zero_iff.mp (by omega)
    rw [hrest, hpost, List.nil_append] at hopen hdepth
    obtain ⟨hcloses, hbraces⟩ := hinner after (hmem houter)
    exact ⟨earlier, u, after, houter, hbrings, hcloses.mp hopen, hbraces ▸ hdepth⟩
  · rintro ⟨earlier, u, after, houter, hbrings, hopen, hdepth⟩
    obtain ⟨c, line, hwritten, hline⟩ := r.exists_counterLine does
      (hvs.trans (by rw [houter, List.append_assoc, List.cons_append])) hbrings
    obtain ⟨hcloses, hbraces⟩ := hinner after (hmem houter)
    refine ⟨line, earlier.flatMap Visit.written, c, after.flatMap Visit.written, ?_, hline,
      hcloses.mpr hopen, hbraces.symm ▸ hdepth⟩
    rw [houter, List.flatMap_append, List.flatMap_cons, hwritten]
    rfl

end Runs

/-! ### Programs -/

/-- All that the code of a shader names is declared, with the exceptions that there are. -/
structure NamesDeclared (output : String) (units : List Visit) (l : LinkedShader) : Prop where
  code : l.scan.code = units.flatMap Visit.written
  /-- A register is declared unless it is stray, and then a line of the program makes its name known. -/
  registers : ∀ c ∈ l.scan.code, ∀ r ∈ c.registers, r.file ≠ .label →
    (Declares l r ↔ ¬ Stray l r) ∧
    (Declares l r → ∃ line, Introduces (r.name l.env.toShader) line ∧ HasLine output line)
  /-- Where a unit names the counter of a loop, a line of the program around it makes the counter known if
  and only if the counter is at hand after the units before. -/
  counter : ∀ earlier v later before c after, units = earlier ++ v :: later →
    v.written = before ++ c :: after → c.namesCounter = true →
    ((∃ line, CounterKnown l.env.toShader (earlier.flatMap Visit.written ++ before) line) ↔
      CounterAtHand earlier) ∧
    ∀ line, CounterKnown l.env.toShader (earlier.flatMap Visit.written ++ before) line →
      HasLine output line

/-- **Programs declare what they name.**  Without a fault every register that the code names, labels apart,
is declared unless it is stray, and the counter of a loop is known wherever it is named inside of a loop, or
inside of a function that is called from loops only. -/
theorem lift_names_declared (p : Profile) (o : Options) (ws : List Word)
    (clean : (liftWords p o ws).errors = []) :
    ∃ l, linkShader o ws = .ok l ∧ NamesDeclared (liftWords p o ws).output (unitsOf o ws) l := by
  have hdoes := does_of_no_errors p o ws clean
  obtain ⟨w, us, env, t, -, hlink, hrun, -, hfaults, -⟩ := run_of_no_errors clean
  refine ⟨.ofUnits env us, hlink, code_eq_written clean hlink, fun c hc r hr hlabel =>
    ⟨⟨?_, fun hstray => ?_⟩, fun hdeclares => ?_⟩, ?_⟩
  · exact not_stray_of_declares (Interface.fits_of_faults hfaults)
  · exact declares_of_mem_registers clean hlink hc hr hlabel hstray
  · rw [liftWords_eq, hlink]
    exact hdeclares.introduces p o
  · intro earlier v later before c after hunits hwritten hc
    have hv : v ∈ unitsOf o ws := hunits ▸ List.mem_append_cons_self
    have hplain := (hdoes v hv).plain_of_namesCounter hwritten hc
    constructor
    · rw [← hrun.counterKnown_iff hdoes hunits]
      exact exists_congr fun line => counterKnown_append_plain hplain
    · intro line hknown
      obtain ⟨outer, head, inner, hcode, hline, -⟩ := (counterKnown_append_plain hplain).mp hknown
      have hhead : head ∈ earlier.flatMap Visit.written :=
        hcode ▸ List.mem_append_cons_self
      obtain ⟨u, hu, hmem⟩ := List.mem_flatMap.mp hhead
      exact hasLine_of_written clean hlink (hunits ▸ List.mem_append_left _ hu) hmem
        (Stmt.line_mem_layout hline)

/-- Code that goes through an array of the host with the counter of a loop. -/
def countedRead : List Word :=
  [0xFFFE0200,
    -- a symbol table with one symbol, `bones`, in the registers 0 to 7
    0x0016FFFE, 0x42415443, 28, 0, 0xFFFE0200, 1, 28, 0, 0, 64, 2, 8, 48, 0, 0x00030001, 0x00040001,
    8, 0, 0x656E6F62, 115, 0, 0, 0,
    0x0200001B, 0xF0E40800, 0xF0E40000,
    0x03000001, 0x800F0000, 0xA0E42000, 0xF0000800,
    0x0000001D,
    0x02000001, 0xC00F0000, 0x80E40000,
    0xFFFF]

theorem names_declared_countedRead :
    (liftWords .glsl110 {} countedRead).errors = [] ∧
      (∃ v ∈ unitsOf {} countedRead, ∃ c ∈ v.written, c.namesCounter = true) ∧
      ∃ l, linkShader {} countedRead = .ok l ∧
        NamesDeclared (liftWords .glsl110 {} countedRead).output (unitsOf {} countedRead) l := by
  have clean : (liftWords .glsl110 {} countedRead).errors = [] := by
    rw [liftWords_eq]
    decide +kernel
  exact ⟨clean, by decide +kernel, lift_names_declared .glsl110 {} countedRead clean⟩

/-- Code that puts t0 out without declaring it. -/
def undeclaredTexture : List Word :=
  [0xFFFF0200,
    0x02000001, 0x800F0000, 0xB0E40000,
    0x02000001, 0x800F0800, 0x80E40000,
    0xFFFF]

/-- A texture register that is used undeclared is taken for an input that is declared elsewhere. -/
theorem undeclaredTexture_not_declared :
    (liftWords .glsl110 {} undeclaredTexture).errors = [] ∧
      ∃ l, linkShader {} undeclaredTexture = .ok l ∧
        ∃ c ∈ l.scan.code, ∃ r ∈ c.registers, r.file ≠ .label ∧ ¬ Declares l r := by
  have clean : (liftWords .glsl110 {} undeclaredTexture).errors = [] := by decide +kernel
  have hstray : ((linkShader {} undeclaredTexture).toOption.any fun l =>
      decide (∃ c ∈ l.scan.code, ∃ r ∈ c.registers, r.file ≠ .label ∧ ¬ Declares l r)) = true := by
    decide +kernel
  obtain ⟨env, us, hlink, -, -⟩ := linked_of_no_errors clean
  rw [hlink] at hstray
  exact ⟨clean, _, hlink, of_decide_eq_true hstray⟩

-- the same read outside of all loops names a counter that nothing makes known
example : (linkShader {}
    (countedRead.take 24 ++ ((countedRead.drop 27).take 4 ++ countedRead.drop 32))).toOption.any
      (fun l => l.scan.code.any Stmt.namesCounter &&
        l.scan.code.all fun c => (c.counterLine? l.env.toShader).isNone) = true := by
  decide +kernel

end ShaderLift
