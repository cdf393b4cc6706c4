/-
Programs in dialects without the fixed-function pipeline.  All that a program is laid out from is clear
text, with one exception: the name of the entry point is the caller's own.  It stands between a blank and
a parenthesis, which are part of no name, so a variable of the pipeline comes up in the program exactly if
it comes up in the name of the entry point (`infix_program_iff`).
-/
import ShaderLift.Proofs.Names

namespace ShaderLift

/-! ### Numbers -/

theorem clear_toString_int (n : Int) : Clear (toString n) := by
  cases n with
  | ofNat m => exact clear_repr m
  | negSucc m => exact (clear_ofList rfl : Clear "-").append (clear_repr (m + 1))

theorem Decimal.clear_positional (n places : Nat) : Clear (positional n places) := by
  refine ((clear_repr (n / Nat.pow 10 places)).append_ofList rfl).append ?_
  rw [String.ofList_append, String.ofList_toList]
  exact (clear_replicate (by decide) _).append (clear_repr (n % Nat.pow 10 places))

theorem Single.clear_literal (s : Single) : Clear s.literal := by
  have hmagnitude : Clear s.magnitude := by
    unfold magnitude
    split
    · exact (clear_repr _).append_ofList rfl
    · exact Decimal.clear_positional _ _
  unfold literal
  split
  · refine Clear.append ?_ hmagnitude
    split <;> decide
  · split
    · decide
    · split <;> decide

namespace Glsl

variable {sh : Shader} {p : Profile}
variable {K : Register → Prop} (o : Options)

/-! ### Layout -/

def Layout.IsClear : Layout → Prop
  | .line text => Clear text
  | _ => True

instance : DecidablePred Layout.IsClear
  | .line text => inferInstanceAs (Decidable (Clear text))
  | .blank | .indent | .outdent => .isTrue trivial

theorem Layout.clear_lineAt {text : String} (h : Clear text) (depth : Int) :
    Clear (lineAt depth text) :=
  ((clear_replicate (by decide) depth.toNat).append h).append_ofList rfl

theorem Layout.clear_run {steps : List Layout} (h : ∀ step ∈ steps, step.IsClear) (depth : Int) :
    Clear (run steps depth).1 := by
  induction steps generalizing depth with
  | nil => exact (clear_ofList rfl : Clear "")
  | cons step steps ih =>
    obtain ⟨hstep, hrest⟩ := List.forall_mem_cons.mp h
    cases step with
    | line text => exact (clear_lineAt hstep depth).append (ih hrest depth)
    | blank => exact (clear_ofList rfl : Clear "\n").append (ih hrest depth)
    | indent => exact ih hrest (depth + 1)
    | outdent => exact ih hrest (depth - 1)

theorem Layout.isClear_lines {ls : List String} (h : ∀ text ∈ ls, Clear text) :
    ∀ step ∈ lines ls, step.IsClear := by
  intro step hstep
  obtain ⟨text, htext, rfl⟩ := List.mem_map.mp hstep
  exact h text htext

theorem Layout.isClear_line {text : String} (h : Clear text) :
    ∀ step ∈ [Layout.line text], step.IsClear :=
  List.forall_mem_singleton.mpr h

/-! ### Statements -/

theorem clear_name (sh : Shader) (r : Register) : Clear (r.name sh) := (isPiece_name sh r).clear

theorem clear_ident (n : Ident) : Clear (n.text sh) := (isPiece_ident n).clear

theorem Expr.Within.clear_text {e : Expr} (h : e.Within K) : Clear (e.text sh) :=
  h.isPiece_text.clear

theorem clear_callArgument (counter : Bool) : Clear (callArgument counter) := by
  cases counter <;> decide

theorem Stmt.Within.isClear_layout {c : Stmt} (h : c.Within K) :
    ∀ step ∈ c.layout sh, step.IsClear := by
  -- a line alternates fixed pieces with names and expressions, all of them clear
  cases c with
  | assign target e =>
    have htarget : target.expr.Within K := by
      unfold Target.expr
      split
      · exact h.1
      · exact h.1
    exact Layout.isClear_line (htarget.clear_text
      |>.append_ofList rfl |>.append h.2.clear_text |>.append_ofList rfl)
  | vector3 n e =>
    exact Layout.isClear_line ((clear_ofList rfl : Clear "vec3 ")
      |>.append (clear_ident n) |>.append_ofList rfl |>.append h.2.clear_text
      |>.append_ofList rfl)
  | call label counter =>
    exact Layout.isClear_line (clear_name sh _
      |>.append_ofList rfl |>.append (clear_callArgument counter) |>.append_ofList rfl)
  | callIf test label counter =>
    have htest : Clear (test.text sh) := Expr.Within.clear_text h
    exact Layout.isClear_line ((clear_ofList rfl : Clear "if (")
      |>.append htest |>.append_ofList rfl |>.append (clear_name sh _) |>.append_ofList rfl
      |>.append (clear_callArgument counter) |>.append_ofList rfl)
  | openLoop bounds =>
    have hend : Clear ("const int aLend = " ++ bounds.name sh ++ ".x + " ++ bounds.name sh ++ ".y;") :=
      (clear_ofList rfl : Clear "const int aLend = ")
        |>.append (clear_name sh _) |>.append_ofList rfl |>.append (clear_name sh _)
        |>.append_ofList rfl
    have hfor : Clear ("for (int aL = " ++ bounds.name sh ++ ".y; aL < aLend; aL += " ++ bounds.name sh
        ++ ".z) \x7b") :=
      (clear_ofList rfl : Clear "for (int aL = ")
        |>.append (clear_name sh _) |>.append_ofList rfl |>.append (clear_name sh _)
        |>.append_ofList rfl
    simp +decide [layout, Layout.IsClear, hend, hfor]
  | openRep depth count =>
    have hcount : Clear (count.text sh) := Expr.Within.clear_text h
    have hstart : Clear (s!"for (int rep{depth} = 0; rep{depth} < ") :=
      (clear_ofList rfl : Clear "for (int rep")
        |>.append (clear_repr depth) |>.append_ofList rfl |>.append (clear_repr depth)
        |>.append_ofList rfl
    have hstep : Clear (s!"; rep{depth}++) \x7b") :=
      (clear_ofList rfl : Clear "; rep") |>.append (clear_repr depth) |>.append_ofList rfl
    exact List.forall_mem_cons.mpr ⟨(hstart.append hcount).append hstep, by simp [Layout.IsClear]⟩
  | openIf test =>
    have htest : Clear (test.text sh) := Expr.Within.clear_text h
    have hline : Clear ("if (" ++ test.text sh ++ ") \x7b") :=
      (clear_ofList rfl : Clear "if (") |>.append htest |>.append_ofList rfl
    simp [layout, Layout.IsClear, hline]
  | leaveIf test =>
    have htest : Clear (test.text sh) := Expr.Within.clear_text h
    exact Layout.isClear_line ((clear_ofList rfl : Clear "if (") |>.append htest |>.append_ofList rfl)
  | killIfNegative r =>
    exact Layout.isClear_line ((clear_ofList rfl : Clear "if (any(lessThan(")
      |>.append (clear_name sh r) |>.append_ofList rfl)
  | openFunction label counter =>
    have hparameter : Clear (if counter then "int aL" else "") := by cases counter <;> decide
    have hline := (clear_ofList rfl : Clear "void ")
      |>.append (clear_name sh ⟨.label, label⟩) |>.append (clear_ofList rfl : Clear "(")
      |>.append hparameter |>.append (clear_ofList rfl : Clear ")")
    simp +decide [layout, Layout.IsClear, hline]
  | closeLoop | openElse | closeBlock | leave | closeFunction => simp +decide [layout, Layout.IsClear]

/-! ### Variables passed between stages -/

theorem Varying.clear_text (v : Varying) : Clear v.text := by
  unfold text
  split
  next code _ =>
    have htext : s!"io_{code}_{v.index}" = "io" ++ ("_" ++ code.repr) ++ ("_" ++ v.index.repr) := by
      have hstem : "io_" = "io" ++ "_" := rfl
      simp only [hstem, String.append_assoc]
      rfl
    rw [htext]
    exact (clear_ofList rfl : Clear "io")
      |>.append (clear_underscore_repr code) |>.append (clear_underscore_repr v.index)
  next =>
    have hstem : "io_unknown_" = "io_unknown" ++ "_" := rfl
    show Clear ("io_unknown_" ++ v.index.repr)
    rw [hstem, String.append_assoc]
    exact (clear_ofList rfl : Clear "io_unknown").append (clear_underscore_repr v.index)

theorem Varying.clear_declaration (stage : Stage) (v : Varying) : Clear (v.declaration p stage) := by
  have hqualifier : Clear (p.varyingQualifier stage) := by cases p <;> cases stage <;> decide
  have htype : Clear (if v.scalar then "float" else "vec4") := by cases v.scalar <;> decide
  exact hqualifier
    |>.append_ofList rfl |>.append htype |>.append_ofList rfl |>.append v.clear_text
    |>.append_ofList rfl

theorem clear_defineLine {name value : String} (hname : Clear name) (hvalue : Clear value) :
    Clear (defineLine name value) :=
  (clear_ofList rfl : Clear "#define ") |>.append hname |>.append_ofList rfl |>.append hvalue

namespace Binding

variable {name : String}

theorem clear_lines_varying (stage : Stage) (hname : Clear name) (v : Varying) :
    ∀ line ∈ lines p stage name (.varying v), Clear line :=
  List.forall_mem_cons.mpr ⟨v.clear_declaration stage,
    List.forall_mem_singleton.mpr (clear_defineLine hname v.clear_text)⟩

variable (bare : p.hasFixedFunction = false)
include bare

theorem vertexBuiltin?_of_bare {usage : Usage} {index : Nat} {b : Builtin}
    (h : vertexBuiltin? p usage index = some b) : b = .position ∨ b = .pointSize := by
  unfold vertexBuiltin? at h
  simp only [bare, Bool.false_and, Bool.false_eq_true, if_false] at h
  split at h <;> cases h
  · exact .inl rfl
  · exact .inr rfl

theorem clear_lines_ofVertexOutput (stage : Stage) (hname : Clear name) (usage : Usage) (index : Nat) :
    ∀ line ∈ (ofVertexOutput p usage index).lines p stage name, Clear line := by
  unfold ofVertexOutput
  split
  next b hb =>
    have hbuiltin : Clear b.text := by
      rcases vertexBuiltin?_of_bare bare hb with rfl | rfl <;> decide
    exact List.forall_mem_singleton.mpr (clear_defineLine hname hbuiltin)
  next => exact clear_lines_varying stage hname _

theorem clear_lines_ofPixelInput (stage : Stage) (hname : Clear name) (usage : Usage) (index : Nat) :
    ∀ line ∈ (ofPixelInput p usage index).lines p stage name, Clear line := by
  have hnone : pixelBuiltin? p usage index = none := by simp [pixelBuiltin?, bare]
  rw [ofPixelInput, hnone]
  exact clear_lines_varying stage hname _

end Binding

/-! ### Declarations -/

theorem clear_vectorText {α : Type} {type : String} (htype : Clear type) {f : α → String}
    (hf : ∀ a, Clear (f a)) (q : Quad α) : Clear (vectorText type (q.map f)) := by
  have hq : ∀ text ∈ (q.map f).toList, Clear text := by
    intro text htext
    obtain ⟨a, -, rfl⟩ := List.mem_map.mp (show text ∈ q.toList.map f from htext)
    exact hf a
  exact htype |>.append_ofList rfl |>.append (clear_intercalate (clear_ofList rfl) hq) |>.append_ofList rfl

theorem clear_literalText (c : Constant) : Clear (literalText c) := by
  unfold literalText
  split
  · exact clear_vectorText (clear_ofList rfl) Single.clear_literal c.singles
  · exact clear_vectorText (clear_ofList rfl) clear_toString_int c.ints
  · cases c.truth <;> decide

theorem clear_elementText (array : Ident) (n : Nat) : Clear (elementText sh array n) :=
  (clear_ident array).append
    ((clear_ofList rfl : Clear "[") |>.append (clear_repr n) |>.append (clear_ofList rfl : Clear "]"))

theorem clear_placeText (kind : ConstantKind) (place : Place) : Clear (placeText sh kind place) := by
  cases place with
  | own slot | shared slot => exact clear_elementText _ slot
  | literal base count element => exact clear_elementText _ element

theorem clear_literalArrayLine (a : ConstantArray) : Clear (literalArrayLine p sh a) := by
  have hname : Clear ((Ident.constArray a.index a.count).text sh) := clear_ident _
  have hcount : Clear (s!"[{a.count}]") :=
    (clear_ofList rfl : Clear "[") |>.append (clear_repr a.count) |>.append_ofList rfl
  unfold literalArrayLine
  dsimp only
  split
  · have hconstants : ∀ text ∈ a.constants.map fun c => vectorText "vec4" (c.singles.map Single.literal),
        Clear text := by
      intro text htext
      obtain ⟨c, -, rfl⟩ := List.mem_map.mp htext
      exact clear_vectorText (clear_ofList rfl) Single.clear_literal c.singles
    exact (clear_ofList rfl : Clear "const vec4 ")
      |>.append hname |>.append hcount |>.append_ofList rfl |>.append hcount |>.append_ofList rfl
      |>.append (clear_intercalate (clear_ofList rfl) hconstants) |>.append_ofList rfl
  · exact (clear_ofList rfl : Clear "uniform vec4 ")
      |>.append hname |>.append hcount |>.append_ofList rfl

theorem clear_variableLine {type : String} (htype : Clear type) (r : Register) :
    Clear (type ++ r.name sh ++ ";") :=
  (htype.append (clear_name sh r)).append_ofList rfl

theorem clear_coordinateLines (bare : p.hasFixedFunction = false) (number : Nat) :
    ∀ line ∈ coordinateLines p sh number, Clear line := by
  have hvalue : Clear ("vec4 " ++ Register.name sh ⟨.texture, number⟩ ++ " = "
      ++ (Varying.mk .texCoord number false).text ++ ";") :=
    (clear_ofList rfl : Clear "vec4 ")
      |>.append (clear_name sh _) |>.append_ofList rfl |>.append (Varying.clear_text _)
      |>.append_ofList rfl
  rw [coordinateLines, bare]
  exact List.forall_mem_cons.mpr ⟨Varying.clear_declaration _ _, List.forall_mem_singleton.mpr hvalue⟩

theorem Decl.clear_lines (bare : p.hasFixedFunction = false) (d : Decl) :
    ∀ line ∈ d.lines p sh, Clear line := by
  have hone : ∀ {line : String}, Clear line → ∀ l ∈ [line], Clear l := List.forall_mem_singleton.mpr
  cases d with
  | literal c =>
    exact hone ((clear_ofList rfl : Clear "const ")
      |>.append (isPiece_constantType c.kind).clear |>.append_ofList rfl |>.append (clear_name sh _)
      |>.append_ofList rfl |>.append (clear_literalText c) |>.append_ofList rfl)
  | vector r | integers r | truth r | truths r =>
    exact hone (clear_variableLine (clear_ofList rfl) r)
  | coordinates number => exact clear_coordinateLines bare number
  | arrayBase base slot => exact hone (clear_defineLine (clear_ident _) (clear_repr slot))
  | literalArray a => exact hone (clear_literalArrayLine a)
  | constant c => exact hone (clear_defineLine (clear_name sh _) (clear_placeText _ _))
  | sampler stage kind =>
    have htype : Clear ("uniform " ++ samplerType kind ++ " ") := by cases kind <;> decide
    exact hone (clear_variableLine htype _)
  | bump stage slot =>
    exact List.forall_mem_cons.mpr ⟨clear_defineLine (clear_ident _) (clear_elementText _ _),
      hone (clear_defineLine (clear_ident _) (clear_elementText _ _))⟩
  | vertexInput r =>
    have htype : Clear (p.attributeQualifier ++ " vec4 ") := by cases p <;> decide
    exact hone (clear_variableLine htype r)
  | vertexOutput r usage index =>
    exact Binding.clear_lines_ofVertexOutput bare _ (clear_name sh r) usage index
  | pixelInput r usage index =>
    exact Binding.clear_lines_ofPixelInput bare _ (clear_name sh r) usage index
  | color number many =>
    have hvalue : Clear (if many then s!"gl_FragData[{number}]" else "gl_FragColor") := by
      cases many with
      | true =>
        exact (clear_ofList rfl : Clear "gl_FragData[") |>.append (clear_repr number) |>.append_ofList rfl
      | false => exact (clear_ofList rfl : Clear "gl_FragColor")
    exact hone (clear_defineLine (clear_name sh _) hvalue)
  | depth r => exact hone (clear_defineLine (clear_name sh r) (clear_ofList rfl))
  | positionFlip => exact hone (clear_ofList rfl)

theorem Local.clear_line (d : Local) : Clear (d.line sh) := by
  cases d with
  | face r => exact (clear_ofList rfl : Clear "float ") |>.append (clear_name sh r) |>.append_ofList rfl
  | position r =>
    exact (clear_ofList rfl : Clear "vec4 ")
      |>.append (clear_name sh r) |>.append_ofList rfl |>.append_ofList rfl

/-! ### Programs -/

theorem clear_packedLines (slots : Slots) (kind : ConstantKind) :
    ∀ line ∈ packedLines sh slots kind, Clear line := by
  unfold packedLines
  dsimp only
  split
  · exact fun line hline => absurd hline List.not_mem_nil
  · have hcount : Clear (s!"[{slots.count kind}];") :=
      (clear_ofList rfl : Clear "[") |>.append (clear_repr _) |>.append_ofList rfl
    exact List.forall_mem_singleton.mpr ((clear_ofList rfl : Clear "uniform ")
      |>.append (isPiece_constantType kind).clear |>.append_ofList rfl
      |>.append (clear_ident (.packed kind)) |>.append hcount)

theorem clear_levelLines (p : Profile) (sh : Shader) : ∀ line ∈ levelLines p sh, Clear line := by
  unfold levelLines
  split
  · simp only [List.forall_mem_cons, List.not_mem_nil, false_imp_iff, implies_true, and_true]
    and_intros <;> exact clear_ofList rfl
  · cases sh.isPixel
    all_goals
      simp only [Bool.false_eq_true, if_false, if_true, List.append_nil, List.cons_append, List.nil_append,
        List.forall_mem_cons, List.not_mem_nil, false_imp_iff, implies_true, and_true]
      and_intros <;> exact clear_ofList rfl

theorem clear_versionLines (p : Profile) (sh : Shader) : ∀ line ∈ p.versionLines sh, Clear line := by
  unfold Profile.versionLines
  cases sh.isVertex <;> cases p <;> decide

theorem clear_extraLines (l : LinkedShader) : ∀ line ∈ extraLines o l, Clear line := by
  unfold extraLines
  cases o.flipRenderTarget && l.env.toShader.isVertex <;> cases l.scan.helpers.contains .largest <;>
    decide

theorem isClear_preface (p : Profile) (o : Options) (l : LinkedShader) :
    ∀ step ∈ preface p o l, step.IsClear := by
  have hsizes : ∀ line ∈ sizeLines l.env.toShader l.interface.slots, Clear line :=
    List.forall_mem_append.mpr ⟨List.forall_mem_append.mpr
      ⟨clear_packedLines _ .float, clear_packedLines _ .int⟩, clear_packedLines _ .bool⟩
  have hlevels : ∀ step ∈ (if l.scan.helpers.contains .textureLevels then
      Layout.lines (levelLines p l.env.toShader) ++ [.blank] else []), step.IsClear := by
    split
    · exact List.forall_mem_append.mpr
        ⟨Layout.isClear_lines (clear_levelLines _ _), List.forall_mem_singleton.mpr trivial⟩
    · exact fun step hstep => absurd hstep List.not_mem_nil
  rw [preface_eq]
  simp only [List.forall_mem_append]
  exact ⟨⟨⟨Layout.isClear_lines (clear_versionLines _ _), hlevels⟩, Layout.isClear_lines hsizes⟩,
    Layout.isClear_lines (clear_extraLines o l)⟩

theorem isClear_globals (bare : p.hasFixedFunction = false) (l : LinkedShader) :
    ∀ step ∈ globals p l, step.IsClear := by
  refine List.forall_mem_append.mpr ⟨Layout.isClear_lines ?_, List.forall_mem_singleton.mpr trivial⟩
  intro line hline
  obtain ⟨d, -, hd⟩ := List.mem_flatMap.mp hline
  exact d.clear_lines bare line hd

theorem Helper.isClear_layout (helper : Helper) : ∀ step ∈ helper.layout, step.IsClear := by
  cases helper with
  | lighting | reflection =>
    simp only [Helper.layout, List.forall_mem_cons, Layout.IsClear, List.not_mem_nil, false_imp_iff,
      implies_true, and_true, true_and]
    and_intros <;> exact clear_ofList rfl
  | textureLevels | largest => exact fun step hstep => absurd hstep List.not_mem_nil

theorem isClear_epilogue (sh : Shader) : ∀ step ∈ epilogue o sh, step.IsClear := by
  unfold epilogue
  cases sh.isVertex <;> cases o.flipRenderTarget <;> cases o.depthClipping <;> decide

theorem isClear_bodies {code : List Stmt} (h : ∀ c ∈ code, ∀ step ∈ c.layout sh, step.IsClear)
    (o : Options) :
    (∀ step ∈ (bodies o sh code).1, step.IsClear) ∧ ∀ step ∈ (bodies o sh code).2, step.IsClear := by
  have hpart : ∀ part, part ⊆ code → ∀ step ∈ part.flatMap (Stmt.layout sh), step.IsClear := by
    intro part hsub step hstep
    obtain ⟨c, hc, hlayout⟩ := List.mem_flatMap.mp hstep
    exact h c (hsub hc) step hlayout
  have hmain : (mainBody code).1 ⊆ code := by
    rw [mainBody, List.span_eq_takeWhile_dropWhile]
    exact (List.takeWhile_sublist _).subset
  have hrest : (mainBody code).2 ⊆ code := by
    rw [mainBody, List.span_eq_takeWhile_dropWhile]
    exact (List.dropWhile_sublist _).subset
  constructor
  · refine List.forall_mem_append.mpr ⟨List.forall_mem_append.mpr ⟨hpart _ hmain, isClear_epilogue o sh⟩,
      hpart _ (List.Subset.trans (List.take_sublist _ _).subset hrest)⟩
  · exact hpart _ (List.Subset.trans (List.drop_sublist _ _).subset hrest)

def introRest (l : LinkedShader) : List Layout :=
  [.line "\x7b", .indent] ++ Layout.lines ((localDeclarations l).map (Local.line l.env.toShader))

theorem isClear_introRest (l : LinkedShader) : ∀ step ∈ introRest l, step.IsClear := by
  refine List.forall_mem_append.mpr ⟨by decide, Layout.isClear_lines ?_⟩
  intro line hline
  obtain ⟨d, -, rfl⟩ := List.mem_map.mp hline
  exact d.clear_line

theorem run_intro (l : LinkedShader) :
    (Layout.run (intro o l) 0).1 =
      "void" ++ (" " ++ (o.entryPoint ++ ("(" ++ (")\n" ++ (Layout.run (introRest l) 0).1)))) := by
  have hvoid : "void " = "void" ++ " " := rfl
  have hparens : "()" = "(" ++ ")" := rfl
  have hend : ")\n" = ")" ++ "\n" := rfl
  have hrun : (Layout.run (intro o l) 0).1 =
      Layout.lineAt 0 ("void " ++ o.entryPoint ++ "()") ++ (Layout.run (introRest l) 0).1 := rfl
  rw [hrun, Layout.lineAt_zero, hvoid, hparens, hend]
  simp only [String.append_assoc]

theorem exists_program_eq {l : LinkedShader} (bare : p.hasFixedFunction = false)
    (hcode : ∀ c ∈ l.scan.code, c.Within K) (o : Options) :
    ∃ before after, Clear before ∧ Clear after ∧
      program p o l = before ++ " " ++ o.entryPoint ++ "(" ++ after := by
  let code := bodies o l.env.toShader l.scan.code
  obtain ⟨hmain, hsubroutines⟩ : (∀ step ∈ code.1, step.IsClear) ∧ ∀ step ∈ code.2, step.IsClear :=
    isClear_bodies (fun c hc => (hcode c hc).isClear_layout) o
  have hhelpers : ∀ step ∈ l.scan.helpers.flatMap Helper.layout, step.IsClear := by
    intro step hstep
    obtain ⟨helper, -, hlayout⟩ := List.mem_flatMap.mp hstep
    exact helper.isClear_layout step hlayout
  refine ⟨(Layout.run (preface p o l) 0).1 ++ (Layout.run (globals p l) 0).1
      ++ (Layout.run (l.scan.helpers.flatMap Helper.layout) 0).1
      ++ (Layout.run code.2 (Layout.run code.1 1).2).1 ++ "void",
    ")\n" ++ (Layout.run (introRest l) 0).1 ++ (Layout.run code.1 1).1, ?_, ?_, ?_⟩
  · exact Layout.clear_run (isClear_preface p o l) 0
      |>.append (Layout.clear_run (isClear_globals bare l) 0) |>.append (Layout.clear_run hhelpers 0)
      |>.append (Layout.clear_run hsubroutines _) |>.append_ofList rfl
  · exact (clear_ofList rfl : Clear ")\n")
      |>.append (Layout.clear_run (isClear_introRest l) 0) |>.append (Layout.clear_run hmain 1)
  · unfold program
    rw [run_intro]
    simp only [String.append_assoc]
    rfl

theorem infix_program_iff {l : LinkedShader} (bare : p.hasFixedFunction = false)
    (hcode : ∀ c ∈ l.scan.code, c.Within K) (o : Options) {name : String}
    (hname : name ∈ fixedFunctionNames) :
    name.toList <:+: (program p o l).toList ↔ name.toList <:+: o.entryPoint.toList := by
  obtain ⟨before, after, hbefore, hafter, heq⟩ := exists_program_eq bare hcode o
  have htext : (program p o l).toList =
      before.toList ++ ' ' :: (o.entryPoint.toList ++ '(' :: after.toList) := by
    simp [heq]
  have hseparators : ∀ name ∈ fixedFunctionNames, ' ' ∉ name.toList ∧ '(' ∉ name.toList := by decide
  obtain ⟨hblank, hparen⟩ := hseparators name hname
  rw [htext]
  constructor
  · -- no name has a blank or a parenthesis in it, so it cannot reach across one
    intro h
    rcases infix_or_infix_of_append_cons hblank h with hin | hrest
    · exact absurd hin (hbefore.lacks_name hname)
    · rcases infix_or_infix_of_append_cons hparen hrest with hin | hin
      · exact hin
      · exact absurd hin (hafter.lacks_name hname)
  · rintro ⟨u, v, huv⟩
    exact ⟨before.toList ++ ' ' :: u, v ++ '(' :: after.toList, by simp [← huv]⟩

end Glsl

/-! ### Results -/

open Glsl in
/-- **No fixed-function pipeline.**  In ES and version 4.00 no program has a variable of it, if the caller's
name for the entry point has none. -/
theorem lift_without_fixed_function (p : Profile) (o : Options) (ws : List Word)
    (hp : p.name = "glsles" ∨ p.name = "glsl400")
    (hmain : ∀ name ∈ fixedFunctionNames, ¬ name.toList <:+: o.mainName.toList) :
    ∀ name ∈ fixedFunctionNames, ¬ name.toList <:+: (liftWords p o ws).output.toList := by
  have bare : p.hasFixedFunction = false := by
    cases p with
    | glsl110 | glsl120 => rcases hp with h | h <;> exact absurd h (by decide)
    | es100 | glsl400 => rfl
  have hentry : ∀ name ∈ fixedFunctionNames, ¬ name.toList <:+: o.entryPoint.toList := by
    unfold Options.entryPoint
    split
    · decide
    · exact hmain
  intro name hname hin
  cases hlink : linkShader o ws with
  | error faults =>
    have houtput : (liftWords p o ws).output = "" := by
      rw [liftWords_eq, hlink]
      rfl
    rw [houtput] at hin
    exact (by decide : Clear "").lacks_name hname hin
  | ok l =>
    have hlifted : liftWords p o ws = l.lifted p o := by rw [liftWords_eq, hlink]
    have hbound := bound_of_no_errors (by rw [hlifted]; rfl : (liftWords p o ws).errors = []) hlink
    rw [hlifted] at hin
    exact hentry name hname ((infix_program_iff bare hbound.code o hname).mp hin)

/-- Code that gives a vertex a position, two colours, texture coordinates and fog. -/
def foggyVertex : List Word :=
  [0xFFFE0101,
    0x0000001F, 0x80000000, 0x900F0000,
    0x00000001, 0xC00F0000, 0x90E40000,
    0x00000001, 0xD00F0000, 0x90E40000,
    0x00000001, 0xD00F0001, 0x90E40000,
    0x00000001, 0xE00F0000, 0x90E40000,
    0x00000001, 0xC0010001, 0x90000000,
    0xFFFF]

open Glsl in
theorem without_fixed_function_foggyVertex :
    (liftWords .glsl400 {} foggyVertex).errors = [] ∧
      (liftWords .glsl400 {} foggyVertex).outputs.map AttributeBinding.usage =
        [.position, .fog, .color, .color, .texCoord] ∧
      ∀ name ∈ fixedFunctionNames,
        ¬ name.toList <:+: (liftWords .glsl400 {} foggyVertex).output.toList := by
  refine ⟨by decide +kernel, by decide +kernel, ?_⟩
  exact lift_without_fixed_function .glsl400 {} foggyVertex (.inr rfl) (by decide)

end ShaderLift
