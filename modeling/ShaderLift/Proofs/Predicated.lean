/-
Predicates guard nothing.  A predicated instruction is followed by a predicate register, but no code is
ever written for it.  Where the instruction would assign something that is a fault; everything else is
done as if there was no predicate:

* the code of a predicated instruction is that of the same instruction without its predicate, unless it is
  faulty (`follows_instructionCode`);
* so control flow is not guarded, while all other instructions assign nothing, and only reflections write
  local vectors (`vector_of_predicated`);
* what else can be added by a predicated instruction is a helper, or a declaration of what it defines,
  declares or is the first to name (`Visit.DeclaresNothing`).
-/
import ShaderLift.Proofs.DeclaredOnce
import ShaderLift.Proofs.Twins

namespace ShaderLift

open Glsl

def Instruction.unpredicated (i : Instruction) : Instruction := { i with predicated := false }

/-- Unless it is faulty, an instruction has the code that it has without its predicate. -/
theorem Scan.follows_instructionCode (sh : Shader) (s : Scan) (i : Instruction) :
    (instructionCode sh s i).Follows (instructionCode sh s i.unpredicated) :=
  ReadsSame.instructionCode (m := s.margin) ⟨.inr rfl, fun _ _ => rfl, fun _ _ _ _ => rfl⟩

namespace Scan

/-! ### What is written -/

variable {sh : Shader} {s : Scan} {i : Instruction}

/-- Apart from control flow, predicated instructions write local vectors at most. -/
theorem vector_of_predicated (hp : i.predicated = true) (hop : i.opcode.isFlow = false) {c : Stmt}
    (hc : c ∈ (instructionCode sh s i).code) :
    i.opcode.reflects = true ∧ ∃ n e, c = .vector3 n e := by
  have hany : Expr.Compositional fun _ => True := by
    constructor <;> intros <;> trivial
  have hprovides : Provides (fun c => i.opcode.reflects = true ∧ ∃ n e, c = .vector3 n e)
      (fun _ => True) sh s i := by
    constructor
    case assigns =>
      intro _ hplain
      rw [hp] at hplain
      cases hplain
    case vector => exact fun hreflects n e _ _ => ⟨hreflects, n, e, rfl⟩
    case source => exact fun _ _ _ _ _ => trivial
    case row | lookup => exact fun _ _ _ _ _ _ _ => trivial
    case plane => exact fun _ _ _ => trivial
    case dest | texture | eye => exact fun _ _ => trivial
    case scaled => exact fun _ => trivial
    case pads => exact fun _ _ _ => ⟨trivial, trivial⟩
  exact (says_instructionCode hany hprovides hop).code c hc

theorem code_ne_nil_of_isFlow (hop : i.opcode.isFlow = true)
    (sound : (instructionCode sh s i).faults = []) : (instructionCode sh s i).code ≠ [] := by
  by_cases hret : i.opcode = .ret
  · unfold instructionCode
    rw [hret]
    dsimp only
    unfold closeCode
    split <;> exact List.cons_ne_nil _ _
  · obtain ⟨c, hcode⟩ := exists_code_of_isFlow hop hret sound
    rw [hcode]
    exact List.cons_ne_nil _ _

/-- The first two rows of a texture matrix wait in their order. -/
def PadsOrdered (s : Scan) : Prop :=
  s.pads.m3x3Second.isSome = true → s.pads.m3x3First.isSome = true

theorem PadsOrdered.of_eq {t : Scan} (h : s.PadsOrdered) (hpads : t.pads = s.pads) : t.PadsOrdered := by
  unfold PadsOrdered
  rw [hpads]
  exact h

theorem PadsOrdered.addPad3 (h : s.PadsOrdered) : (s.addPad3 i).PadsOrdered := by
  unfold Scan.addPad3
  split
  · exact fun _ => rfl
  · exact fun _ => by simp_all
  · exact h

theorem PadsOrdered.account (h : s.PadsOrdered) (env : Env) : (account env s i).PadsOrdered := by
  have hdoes := Consequence.of_account env s i
  generalize Scan.account env s i = t at hdoes ⊢
  cases hdoes with
  | pad3 => exact h.addPad3
  | _ => exact h

theorem code_ne_nil_of_reflects (hop : i.opcode.reflects = true) (hpads : s.matrix3Pads?.isSome = true)
    (sound : (instructionCode sh s i).faults = []) : (instructionCode sh s i).code ≠ [] := by
  obtain ⟨pads, hpads⟩ := Option.isSome_iff_exists.mp hpads
  have hreflection : ∀ variableEye, (reflectionCode sh s i variableEye).faults = [] →
      (reflectionCode sh s i variableEye).code ≠ [] := by
    intro variableEye sound
    unfold reflectionCode at sound ⊢
    rw [hpads] at sound ⊢
    dsimp only at sound ⊢
    split at sound
    · cases sound
    · cases variableEye <;> exact List.cons_ne_nil _ _
  unfold instructionCode at sound ⊢
  cases e : i.opcode with
  | texM3x3Spec | texM3x3VSpec =>
    rw [e] at sound
    exact hreflection _ sound
  | _ => rw [e] at hop; cases hop

theorem matrix3Faults_of_legal (hcloses : i.opcode.closesMatrix = true)
    (hthree : i.opcode ≠ .texM3x2Tex) (legal : violations env s i = []) :
    matrix3Faults env s i = [] := by
  unfold violations at legal
  cases e : i.opcode with
  | texM3x2Tex => exact absurd e hthree
  | texM3x3 =>
    rw [e] at legal
    exact (List.append_eq_nil_iff.mp legal).2
  | texM3x3Spec =>
    rw [e] at legal
    exact (List.append_eq_nil_iff.mp legal).1
  | texM3x3Tex | texM3x3VSpec =>
    rw [e] at legal
    exact legal
  | _ => simp [e, Opcode.closesMatrix] at hcloses

theorem pads_settled_of_closes (h : i.opcode.closesMatrix = true) : (settled env s i).pads = s.pads := by
  have hbracket : i.opcode.isBracket = false := by
    cases e : i.opcode <;> first | rfl | simp [e, Opcode.closesMatrix] at h
  exact (level_account env s i hbracket).pads

end Scan

/-- The shader as far as it was read. -/
def Scan.soFar (env : Env) (s : Scan) : LinkedShader := ⟨⟨env, s⟩, Interface.ofScan env.toShader s⟩

/-! ### Predicated units -/

namespace Visit

variable {v : Visit} {i : Instruction} {s : Scan}

def predicate? (v : Visit) : Option Source :=
  match UnitHead.ofWord v.word with
  | .instruction op fields =>
    let a := Scan.readArguments v.env op.info.shape v.before.advance v.rest
    if fields.predicated then some (Scan.readSource v.env a.2.2.2 a.2.2.1).1 else none
  | _ => none

theorem fields_of_head {w : Word} {op : Opcode} {fields : InstructionWord}
    (h : UnitHead.ofWord w = .instruction op fields) : fields = InstructionWord.ofWord w := by
  unfold UnitHead.ofWord at h
  split at h
  · cases h
  · split at h
    · cases h
    · split at h
      · cases h
      · dsimp only at h
        split at h
        · cases h
          rfl
        · cases h

theorem Executes.predicated_eq (h : v.Executes i s) : i.predicated = Word.flag v.word 28 := by
  obtain ⟨fields, hhead, hi, -⟩ := h.fetched
  calc i.predicated
      _ = fields.predicated := congrArg Instruction.predicated (hi.trans (Scan.readOperands_fst ..))
      _ = Word.flag v.word 28 := by rw [fields_of_head hhead]; rfl

theorem Executes.predicate (h : v.Executes i s)
    (hp : i.predicated = true) :
    ∃ a, v.predicate? = some a ∧ a.register.file = .predicate ∧ a.register ∈ s.used.registers := by
  obtain ⟨fields, hhead, hi, hs⟩ := h.fetched
  have hfields : fields.predicated = true := by
    rw [fields_of_head hhead]
    exact h.predicated_eq.symm.trans hp
  let a := Scan.readArguments v.env i.opcode.info.shape v.before.advance v.rest
  have hoperands : (Scan.readOperands v.env i.opcode fields v.before.advance v.rest).2.2 =
      Scan.readPredicate v.env a.2.2.2 a.2.2.1 := by
    unfold Scan.readOperands
    dsimp only
    rw [if_pos hfields]
  have hflag : (Scan.readPredicate v.env a.2.2.2 a.2.2.1).failing = false := by
    rw [← hoperands]
    have hflag := h.flag
    rw [hs] at hflag
    exact hflag
  have hcheck : Scan.Fetches (Scan.readSource v.env a.2.2.2 a.2.2.1).2.2
      (Scan.readPredicate v.env a.2.2.2 a.2.2.1) := Scan.fetches_readPredicate v.env _ _
  have hfetched := Scan.fetched_readSource (hcheck.records.flag hflag)
  refine ⟨_, ?_, Scan.file_of_readPredicate hflag, ?_⟩
  · rw [predicate?, hhead]
    exact if_pos hfields
  · rw [hs, hoperands]
    exact hcheck.grows.used _ hfetched.used

/-- Nothing has to be declared that did not have to be declared before the unit, or in another way. -/
structure DeclaresNothing (v : Visit) : Prop where
  declarations : declarations (v.after.soFar v.env) = declarations (v.before.soFar v.env)
  locals : localDeclarations (v.after.soFar v.env) = localDeclarations (v.before.soFar v.env)
  slots : (v.after.soFar v.env).interface.slots = (v.before.soFar v.env).interface.slots

/-- The unit adds no text to any section: no statement, no helper and no declaration. -/
structure Silent (v : Visit) : Prop extends DeclaresNothing v where
  code : v.after.code = v.before.code
  helpers : v.after.helpers = v.before.helpers

/-- So the program of what was read is what it was, in every dialect. -/
theorem Silent.program_eq (h : v.Silent) (p : Profile) (o : Options) :
    program p o (v.after.soFar v.env) = program p o (v.before.soFar v.env) := by
  have hcode : (v.after.soFar v.env).scan.code = (v.before.soFar v.env).scan.code := h.code
  have hhelpers : (v.after.soFar v.env).scan.helpers = (v.before.soFar v.env).scan.helpers := h.helpers
  have henv : (v.after.soFar v.env).env = (v.before.soFar v.env).env := rfl
  unfold program preface globals Glsl.intro
  rw [hcode, hhelpers, henv, h.declarations, h.locals, h.slots]

theorem Executes.constants_after_iff (h : v.Executes i s) :
    v.after.constants = v.before.constants ↔ i.opcode.info.shape.isDefinition = false := by
  have hfetch : s.constants = v.before.constants := by rw [h.fetches.frame]
  rcases h.inventory_after with ⟨hdefinition, -, c, hc⟩ | ⟨hdefinition, n, hn⟩
  · have hadded : v.after.constants = s.constants ++ [c] := congrArg Inventory.constants hc
    simp [hadded, hfetch, hdefinition]
  · have hsame : v.after.constants = s.constants := congrArg Inventory.constants hn
    simp [hsame, hfetch, hdefinition]

theorem Executes.declares_definition (h : v.Executes i s)
    (hop : i.opcode.info.shape.isDefinition = true) : ¬ v.DeclaresNothing := by
  intro hnothing
  have hliterals : ∀ l : LinkedShader, ((declarations l).flatMap fun d => match d with
      | .literal c => [c]
      | _ => []) = l.scan.constants := by
    intro l
    rw [flatMap_declarations .literal fun d hd => by cases d <;> first | rfl | exact absurd rfl hd]
    simp [declarationsOf, List.flatMap_map]
  have hsame : v.after.constants = v.before.constants :=
    calc v.after.constants = (v.after.soFar v.env).scan.constants := rfl
      _ = (v.before.soFar v.env).scan.constants := by rw [← hliterals, hnothing.declarations, hliterals]
  have hnone := h.constants_after_iff.mp hsame
  rw [hop] at hnone
  cases hnone

theorem DeclaresNothing.declares_iff (h : v.DeclaresNothing) {r : Register} :
    Declares (v.after.soFar v.env) r ↔ Declares (v.before.soFar v.env) r := by
  unfold Declares
  rw [h.declarations, h.locals]

/-- A register is declared where it is used first, unless the code defines or declares it. -/
theorem DeclaresNothing.declares (h : v.DeclaresNothing) {r : Register}
    (hr : r ∈ v.after.used.registers) (hdefined : r ∉ v.after.defined)
    (hkind : Interface.isVariable r = true ∧ variableDecls v.env.toShader r ≠ [] ∨
      (Interface.constantKind? r).isSome = true) :
    Declares (v.before.soFar v.env) r := by
  have hundeclared : r ∈ Interface.undeclared v.after := by
    refine List.mem_filter.mpr ⟨hr, ?_⟩
    simpa [Scan.isDefined] using hdefined
  have hafter : Declares (v.after.soFar v.env) r := by
    rcases hkind with ⟨hvariable, hdecls⟩ | hconstant
    · obtain ⟨d, hone, -, hregister⟩ := (variableDecls_cases v.env.toShader r).resolve_left hdecls
      exact declares_of_variableDecl (List.mem_filter.mpr ⟨hundeclared, hvariable⟩)
        (hone ▸ List.mem_cons_self) hregister
    · have hplaced : r ∈ (v.after.soFar v.env).interface.constants.map PlacedConstant.register := by
        rw [Scan.soFar, Interface.map_register_ofScan]
        exact List.mem_filter.mpr ⟨hundeclared, hconstant⟩
      obtain ⟨c, hc, rfl⟩ := List.mem_map.mp hplaced
      exact declares_of_constant hc
  exact h.declares_iff.mp hafter

theorem DeclaresNothing.declares_sampler (h : v.DeclaresNothing) {e : Register × SamplerUse}
    (he : e ∈ v.after.samplers.entries) (hkind : e.2.kind.isSome = true) :
    Declares (v.before.soFar v.env) (sampler e.1.number) := by
  obtain ⟨placed, hplaced, hstage, hsame⟩ := Interface.mem_samplers_ofScan he v.env.toShader
  have hafter : Declares (v.after.soFar v.env) (sampler placed.stage) :=
    declares_of_sampler hplaced (hsame ▸ hkind)
  rw [← hstage]
  exact h.declares_iff.mp hafter

/-- A helper is added unless it was asked for before. -/
theorem Executes.helpers_after_iff (h : v.Executes i s) (hop : i.opcode.reflects = false) :
    v.after.helpers = v.before.helpers ↔ ∀ x ∈ i.opcode.helper?, x ∈ v.before.helpers := by
  have hasked : (Scan.codeOf v.env s i).helpers = i.opcode.helper?.toList := by
    refine (Scan.helpers_instructionCode h.sound).resolve_right fun hreflects => ?_
    rw [hop] at hreflects
    cases hreflects.1
  rw [h.helpers_after, hasked]
  cases i.opcode.helper? with
  | none => simp
  | some x =>
    unfold addHelper
    simp

theorem Executes.matrix3Pads? (h : v.Executes i s) (hop : i.opcode.reflects = true)
    (hordered : s.PadsOrdered) : (Scan.settled v.env s i).matrix3Pads?.isSome = true := by
  have hcloses : i.opcode.closesMatrix = true ∧ i.opcode ≠ .texM3x2Tex := by
    cases e : i.opcode with
    | texM3x3Spec | texM3x3VSpec => decide
    | _ => rw [e] at hop; cases hop
  have hrows := Scan.matrix3Faults_of_legal hcloses.1 hcloses.2 h.legal
  have hsecond : s.pads.m3x3Second.isNone = false := faultIf_eq_nil
    (List.append_eq_nil_iff.mp (List.append_eq_nil_iff.mp (List.append_eq_nil_iff.mp hrows).1).1).2
  have hsame : (Scan.settled v.env s i).pads = s.pads := Scan.pads_settled_of_closes hcloses.1
  obtain ⟨second, hsecond⟩ := Option.isSome_iff_exists.mp (by simpa using hsecond)
  obtain ⟨first, hfirst⟩ := Option.isSome_iff_exists.mp (hordered (by rw [hsecond]; rfl))
  rw [Scan.matrix3Pads?, hsame, hfirst, hsecond]
  rfl

/-- **When a predicated instruction adds no text.** -/
theorem Executes.silent_iff (h : v.Executes i s) (hp : i.predicated = true) (hordered : s.PadsOrdered) :
    v.Silent ↔ i.opcode.isFlow = false ∧ i.opcode.reflects = false ∧
      (∀ x ∈ i.opcode.helper?, x ∈ v.before.helpers) ∧ v.DeclaresNothing := by
  have hcode : v.after.code = v.before.code ↔ (Scan.codeOf v.env s i).code = [] := by
    rw [h.code_after]
    exact List.append_right_eq_self
  constructor
  · intro hsilent
    have hnone := hcode.mp hsilent.code
    have hflow : i.opcode.isFlow = false := by
      by_contra hflow
      exact Scan.code_ne_nil_of_isFlow (by simpa using hflow) h.sound hnone
    have hreflects : i.opcode.reflects = false := by
      by_contra hreflects
      have hreflects : i.opcode.reflects = true := by simpa using hreflects
      exact Scan.code_ne_nil_of_reflects hreflects (h.matrix3Pads? hreflects hordered) h.sound hnone
    exact ⟨hflow, hreflects, (h.helpers_after_iff hreflects).mp hsilent.helpers, hsilent.toDeclaresNothing⟩
  · rintro ⟨hflow, hreflects, hknown, hnothing⟩
    refine ⟨hnothing, hcode.mpr (List.eq_nil_iff_forall_not_mem.mpr fun c hc => ?_),
      (h.helpers_after_iff hreflects).mpr hknown⟩
    -- all that could be written are the vectors of a reflection
    have hvector := (Scan.vector_of_predicated hp hflow hc).1
    rw [hreflects] at hvector
    cases hvector

theorem Does.padsOrdered (h : v.Does) (hv : v.before.PadsOrdered) : v.after.PadsOrdered := by
  cases h with
  | idle other unmarked haveTable symbols more preshader after | rest other mark closed after =>
    rw [after]
    exact hv
  | finish other mark opened after =>
    rw [after, Scan.close_eq]
    exact hv
  | execute i s this h =>
    have hs : s.PadsOrdered := hv.of_eq h.fetches.pads_eq
    rw [h.after, Scan.executed_eq h.sound]
    unfold Scan.PadsOrdered
    dsimp only
    split
    · exact fun hnone => by cases hnone
    · exact hs.account v.env

end Visit

theorem declares_of_used {p : Profile} {o : Options} {ws : List Word} {l : LinkedShader}
    (clean : (liftWords p o ws).errors = []) (hlink : linkShader o ws = .ok l) {r : Register}
    (hr : r ∈ l.scan.used.registers) (hlabel : r.file ≠ .label) (hloop : r.file ≠ .loop)
    (htexture : r.file ≠ .texture) : Declares l r := by
  obtain ⟨env, us, hlinked, hclean, hfits⟩ := linked_of_no_errors clean
  cases hlinked.symm.trans hlink
  exact declares_of_recorded hfits (Scan.bound_ofUnits hclean).defined (.inl hr) hlabel
    (not_stray_of_file hloop htexture)

/-- What becomes of a predicated instruction. -/
structure Unguarded (p : Profile) (o : Options) (ws : List Word) (l : LinkedShader) (v : Visit)
    (i : Instruction) : Prop where
  /-- Its predicate is a predicate register, and a line of the program declares it. -/
  predicate : ∃ a line, v.predicate? = some a ∧ a.register.file = .predicate ∧ Declares l a.register ∧
    Introduces (a.register.name l.env.toShader) line ∧ HasLine (liftWords p o ws).output line
  /-- It writes what it writes without its predicate. -/
  code : ∃ s, v.Executes i s ∧ v.written = (Scan.codeOf v.env s i.unpredicated).code
  /-- If it has to do with control flow it writes something, and the program has all lines of it. -/
  flow : i.opcode.isFlow = true → v.written ≠ [] ∧ ∀ c ∈ v.written, ∀ line,
    .line line ∈ c.layout l.env.toShader → HasLine (liftWords p o ws).output line
  /-- Otherwise it assigns nothing: all that it can write are local vectors. -/
  vector : i.opcode.isFlow = false → ∀ c ∈ v.written, i.opcode.reflects = true ∧
    ∃ n e, c = .vector3 n e
  /-- It adds no text to any section if and only if it is neither of these, its helper was asked for before and
  nothing has to be declared for it. -/
  silent : v.Silent ↔ i.opcode.isFlow = false ∧ i.opcode.reflects = false ∧
    (∀ x ∈ i.opcode.helper?, x ∈ v.before.helpers) ∧ v.DeclaresNothing
  /-- Then the program of what was read so far is what it was before. -/
  program : v.Silent → ∀ p o, program p o (v.after.soFar v.env) = program p o (v.before.soFar v.env)
  /-- The constant of a definition has to be declared. -/
  definition : i.opcode.info.shape.isDefinition = true → ¬ v.DeclaresNothing
  /-- So has every variable, constant register or sampler that comes up for the first time. -/
  first : v.DeclaresNothing → ∀ r ∈ v.after.used.registers, r ∉ v.after.defined →
    Interface.isVariable r = true ∧ variableDecls v.env.toShader r ≠ [] ∨
      (Interface.constantKind? r).isSome = true → Declares (v.before.soFar v.env) r
  sampler : v.DeclaresNothing → ∀ e ∈ v.after.samplers.entries, e.2.kind.isSome = true →
    Declares (v.before.soFar v.env) (sampler e.1.number)

/-- **Predicates guard nothing.**  In a shader without a fault a predicated instruction writes what it writes
without its predicate: control flow is not guarded, and any other instruction assigns nothing at all.  It
adds no text exactly if it has nothing to do with control flow, does not reflect, needs no new helper, and
nothing that it defines, declares or names, its predicate among it, has to be declared for the first time.
-/
theorem lift_predicates_guard_nothing (p : Profile) (o : Options) (ws : List Word)
    (clean : (liftWords p o ws).errors = []) :
    ∃ l, linkShader o ws = .ok l ∧ l.scan.code = (unitsOf o ws).flatMap Visit.written ∧
      ∀ v ∈ unitsOf o ws, ∀ i, v.instruction? = some i → Word.flag v.word 28 = true →
        Unguarded p o ws l v i := by
  have hdoes := does_of_no_errors p o ws clean
  obtain ⟨w, us, env, t, -, hlink, hrun, hscan, -, -⟩ := run_of_no_errors clean
  refine ⟨.ofUnits env us, hlink, code_eq_written clean hlink, fun v hv i this hflag => ?_⟩
  obtain ⟨s, h⟩ := (hdoes v hv).executes this
  have hp : i.predicated = true := h.predicated_eq.trans hflag
  -- pads only ever wait in order
  have hordered : s.PadsOrdered := by
    have hbefore : v.before.PadsOrdered := hrun.preserves_before (P := Scan.PadsOrdered)
      (fun _ _ h => h) (fun u _ _ hu => hu.padsOrdered) hdoes (fun hnone => by cases hnone) v hv
    exact hbefore.of_eq h.fetches.pads_eq
  have hwritten : v.written = (Scan.codeOf v.env s i).code := Visit.written_eq h.code_after
  refine ⟨?_, ⟨s, h, ?_⟩, fun hop => ⟨?_, fun c hc line hline => ?_⟩, fun hop c hc => ?_,
    h.silent_iff hp hordered, fun hsilent => hsilent.program_eq, h.declares_definition,
    fun hnothing r => hnothing.declares, fun hnothing e => hnothing.declares_sampler⟩
  · -- a predicate is used by its instruction, so it is declared
    obtain ⟨a, ha, hfile, hused⟩ := h.predicate hp
    have hlast : a.register ∈ (Scan.ofUnits env us).used.registers := by
      have hlast := (Scan.invariant_used env _).last hrun hv (h.grows.used _ hused)
      rw [hscan]
      exact hlast
    have hdeclares := declares_of_used clean hlink hlast (by rw [hfile]; decide) (by rw [hfile]; decide)
      (by rw [hfile]; decide)
    obtain ⟨line, hintroduces, hline⟩ := hdeclares.introduces p o
    refine ⟨a, line, ha, hfile, hdeclares, hintroduces, ?_⟩
    rw [liftWords_eq, hlink]
    exact hline
  · rw [hwritten, Scan.codeOf, Scan.follows_instructionCode _ _ _ h.sound]
    rfl
  · rw [hwritten]
    exact Scan.code_ne_nil_of_isFlow hop h.sound
  · exact hasLine_of_written clean hlink hv hc hline
  · rw [hwritten] at hc
    exact Scan.vector_of_predicated hp hop hc

/-- Two predicated instructions that write no component, of which one asks for a helper. -/
def idlePredicates : List Word :=
  [0xFFFF0200,
    0x02000001, 0x800F0000, 0xA0E40000,
    0x13000006, 0x80000001, 0xA0000000, 0xB0E41000,
    0x13000001, 0x80000001, 0xA0E40000, 0xB0E41000,
    0x02000001, 0x800F0800, 0x80E40000,
    0xFFFF]

theorem predicates_guard_nothing_idlePredicates :
    (liftWords .glsl110 {} idlePredicates).errors = [] ∧
      ∃ l, linkShader {} idlePredicates = .ok l ∧
        l.scan.code = (unitsOf {} idlePredicates).flatMap Visit.written ∧
        ∀ v ∈ unitsOf {} idlePredicates, ∀ i, v.instruction? = some i → Word.flag v.word 28 = true →
          Unguarded .glsl110 {} idlePredicates l v i := by
  have clean : (liftWords .glsl110 {} idlePredicates).errors = [] := by decide +kernel
  exact ⟨clean, lift_predicates_guard_nothing .glsl110 {} idlePredicates clean⟩

/-- A pixel that is given up under a predicate. -/
def predicatedKill : List Word :=
  [0xFFFF0200,
    0x02000001, 0x800F0000, 0xA0E40000,
    0x12000041, 0x800F0000, 0xB0E41000,
    0x02000001, 0x800F0800, 0x80E40000,
    0xFFFF]

/-- The pixel is given up whatever the predicate is. -/
theorem predicatedKill_unguarded :
    (liftWords .glsl110 {} predicatedKill).errors = [] ∧
      (∃ v ∈ unitsOf {} predicatedKill, Word.flag v.word 28 = true ∧
        v.written = [.killIfNegative ⟨.temp, 0⟩]) ∧
      HasLine (liftWords .glsl110 {} predicatedKill).output
        "if (any(lessThan(ps_r0.xyz, vec3(0.0)))) discard;" := by
  have clean : (liftWords .glsl110 {} predicatedKill).errors = [] := by decide +kernel
  have hkill : ∃ v ∈ unitsOf {} predicatedKill, Word.flag v.word 28 = true ∧
      v.written = [.killIfNegative ⟨.temp, 0⟩] := by decide +kernel
  have hline : ((linkShader {} predicatedKill).toOption.any fun l =>
      decide (.line "if (any(lessThan(ps_r0.xyz, vec3(0.0)))) discard;" ∈
        (Stmt.killIfNegative ⟨.temp, 0⟩).layout l.env.toShader)) = true := by decide +kernel
  obtain ⟨env, us, hlink, -, -⟩ := linked_of_no_errors clean
  rw [hlink] at hline
  refine ⟨clean, hkill, ?_⟩
  obtain ⟨v, hv, -, hwritten⟩ := hkill
  exact hasLine_of_written clean hlink hv (hwritten ▸ List.mem_cons_self) (of_decide_eq_true hline)

-- a sampler and all registers of an instruction that writes no component are declared under a predicate
example : ((unitsOf {} [0xFFFF0200, 0x1300001F, 0x90000000, 0xA00F0800, 0xB0E41000,
    0x13000001, 0x80000005, 0xA0E40007, 0xB0E41000, 0xFFFF]).dropLast.map fun v =>
      (v.written, (declarations (v.after.soFar v.env)).filterMap Decl.register?)) =
    [([], [⟨.predicate, 0⟩, sampler 0]),
      ([], [⟨.temp, 5⟩, ⟨.predicate, 0⟩, ⟨.const, 7⟩, sampler 0])] := by
  decide +kernel

end ShaderLift
