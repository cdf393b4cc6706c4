/-
The text of a program as a list of lines.  A program is laid out in steps that can change the depth,
but nothing does so before the entry point: up to there the text is one line after another.  The local
declarations, the statements and the subroutines are lines of the program as well (`HasLine`).
-/
import Mathlib.Data.List.TakeDrop
import ShaderLift.Lifted

namespace ShaderLift.Glsl

variable (p : Profile) (o : Options) {l : LinkedShader} {line : String}

/-! ### Lines -/

def unlines : List String → String
  | [] => ""
  | l :: ls => l ++ "\n" ++ unlines ls

theorem unlines_append (a b : List String) : unlines (a ++ b) = unlines a ++ unlines b := by
  induction a with
  | nil => simp [unlines]
  | cons l a ih => simp only [List.cons_append, unlines, ih, String.append_assoc]

namespace Layout

/-- Text laid out in two parts: the second goes on at the depth where the first ends. -/
theorem run_append (a b : List Layout) (depth : Int) :
    run (a ++ b) depth = ((run a depth).1 ++ (run b (run a depth).2).1, (run b (run a depth).2).2) := by
  induction a generalizing depth with
  | nil => simp [run]
  | cons step a ih =>
    cases step with
    | line text => simp only [List.cons_append, run, ih, String.append_assoc]
    | blank => simp only [List.cons_append, run, ih, String.append_assoc]
    | indent => simp only [List.cons_append, run, ih]
    | outdent => simp only [List.cons_append, run, ih]

theorem lineAt_zero (text : String) : lineAt 0 text = text ++ "\n" := by
  simp [lineAt]

theorem run_lines (ls : List String) : run (lines ls) 0 = (unlines ls, 0) := by
  induction ls with
  | nil => rfl
  | cons l ls ih =>
    have h : run (lines (l :: ls)) 0 = (lineAt 0 l ++ (run (lines ls) 0).1, (run (lines ls) 0).2) :=
      rfl
    rw [h, ih, lineAt_zero]
    rfl

theorem run_blank : run [.blank] 0 = run (lines [""]) 0 := rfl

end Layout

/-! ### Lines of a text -/

/-- The text ends with a line, if it has any. -/
def EndsLine (text : String) : Prop := text = "" ∨ ∃ before, text = before ++ "\n"

theorem EndsLine.append {a b : String} (ha : EndsLine a) (hb : EndsLine b) : EndsLine (a ++ b) := by
  rcases hb with rfl | ⟨before, rfl⟩
  · rw [String.append_empty]
    exact ha
  · exact .inr ⟨a ++ before, String.append_assoc.symm⟩

def HasLine (text line : String) : Prop :=
  ∃ before after depth, EndsLine before ∧ text = before ++ Layout.lineAt depth line ++ after

namespace HasLine

variable {a b line : String}

theorem append (h : HasLine a line) (b : String) : HasLine (a ++ b) line := by
  obtain ⟨before, after, depth, hends, rfl⟩ := h
  exact ⟨before, after ++ b, depth, hends, by simp only [String.append_assoc]⟩

theorem prepend (ha : EndsLine a) (h : HasLine b line) : HasLine (a ++ b) line := by
  obtain ⟨before, after, depth, hends, rfl⟩ := h
  exact ⟨a ++ before, after, depth, ha.append hends, by simp only [String.append_assoc]⟩

end HasLine

namespace Layout

theorem endsLine_lineAt (depth : Int) (text : String) : EndsLine (lineAt depth text) :=
  .inr ⟨_, rfl⟩

theorem endsLine_run (steps : List Layout) (depth : Int) : EndsLine (run steps depth).1 := by
  induction steps generalizing depth with
  | nil => exact .inl rfl
  | cons step steps ih =>
    cases step with
    | line text => exact (endsLine_lineAt depth text).append (ih depth)
    | blank => exact EndsLine.append (.inr ⟨"", rfl⟩) (ih depth)
    | indent => exact ih (depth + 1)
    | outdent => exact ih (depth - 1)

theorem hasLine_run {steps : List Layout} {line : String} (h : .line line ∈ steps) (depth : Int) :
    HasLine (run steps depth).1 line := by
  induction steps generalizing depth with
  | nil => cases h
  | cons step steps ih =>
    rcases List.mem_cons.mp h with rfl | hlater
    · refine ⟨"", (run steps depth).1, depth, .inl rfl, ?_⟩
      rw [String.empty_append]
      rfl
    · cases step with
      | line text => exact (ih hlater depth).prepend (endsLine_lineAt depth text)
      | blank => exact (ih hlater depth).prepend (.inr ⟨"", rfl⟩)
      | indent => exact ih hlater (depth + 1)
      | outdent => exact ih hlater (depth - 1)

end Layout

/-! ### The start of a program -/

def headLines (p : Profile) (l : LinkedShader) : List String :=
  p.versionLines l.env.toShader
    ++ if l.scan.helpers.contains .textureLevels then levelLines p l.env.toShader ++ [""] else []

def sizeLines (sh : Shader) (slots : Slots) : List String :=
  packedLines sh slots .float ++ packedLines sh slots .int ++ packedLines sh slots .bool

def extraLines (o : Options) (l : LinkedShader) : List String :=
  (if o.flipRenderTarget && l.env.toShader.isVertex then ["uniform float vpFlip;"] else [])
    ++ if l.scan.helpers.contains .largest then ["const float FLT_MAX = 1e38;"] else []

def declarationLines (p : Profile) (l : LinkedShader) : List String :=
  (declarations l).flatMap (Decl.lines p l.env.toShader)

theorem preface_eq (l : LinkedShader) :
    preface p o l =
      Layout.lines (p.versionLines l.env.toShader)
        ++ (if l.scan.helpers.contains .textureLevels then
            Layout.lines (levelLines p l.env.toShader) ++ [.blank]
          else [])
        ++ Layout.lines (sizeLines l.env.toShader l.interface.slots)
        ++ Layout.lines (extraLines o l) := by
  unfold preface sizeLayout extraLines
  simp [Layout.lines, sizeLines, apply_ite (List.map Layout.line)]

theorem run_preface (l : LinkedShader) :
    Layout.run (preface p o l) 0 =
      (unlines (headLines p l ++ sizeLines l.env.toShader l.interface.slots ++ extraLines o l), 0) := by
  rw [preface_eq, headLines]
  split
  · simp only [Layout.run_append, Layout.run_lines, Layout.run_blank, unlines_append]
  · simp only [List.append_nil, Layout.run_append, Layout.run_lines, unlines_append]

theorem program_eq (l : LinkedShader) :
    ∃ rest, program p o l =
      unlines (headLines p l) ++ unlines (sizeLines l.env.toShader l.interface.slots)
        ++ unlines (extraLines o l) ++ unlines (declarationLines p l) ++ rest := by
  let code := bodies o l.env.toShader l.scan.code
  refine ⟨unlines [""] ++ ((Layout.run (l.scan.helpers.flatMap Helper.layout) 0).1
    ++ ((Layout.run code.2 (Layout.run code.1 1).2).1
    ++ ((Layout.run (intro o l) 0).1 ++ (Layout.run code.1 1).1))), ?_⟩
  unfold program globals
  simp only [run_preface, Layout.run_append, Layout.run_lines, Layout.run_blank, unlines_append,
    String.append_assoc]
  rfl

theorem program_version (l : LinkedShader) : ∃ rest, program p o l = "#version " ++ rest := by
  obtain ⟨rest, h⟩ := program_eq p o l
  have hv : ∃ number more, headLines p l = ("#version " ++ number) :: more := by
    cases p
    · exact ⟨"110", _, rfl⟩
    · exact ⟨"120", _, rfl⟩
    · exact ⟨"100", _, rfl⟩
    · exact ⟨"400", _, rfl⟩
  obtain ⟨number, more, hm⟩ := hv
  rw [h, hm]
  simp only [unlines, String.append_assoc]
  exact ⟨_, rfl⟩

theorem hasLine_program_of_preface {p : Profile} {o : Options} (h : .line line ∈ preface p o l) :
    HasLine (program p o l) line :=
  (((((Layout.hasLine_run h 0).append _).append _).append _).append _).append _

theorem hasLine_program_of_size (h : line ∈ sizeLines l.env.toShader l.interface.slots) :
    HasLine (program p o l) line := by
  apply hasLine_program_of_preface
  rw [preface_eq]
  exact List.mem_append_left _ (List.mem_append_right _ (List.mem_map_of_mem h))

theorem hasLine_program_of_declaration (h : line ∈ declarationLines p l) :
    HasLine (program p o l) line := by
  have hglobals : HasLine (Layout.run (globals p l) 0).1 line :=
    Layout.hasLine_run (List.mem_append_left _ (List.mem_map_of_mem h)) 0
  have hpreface : HasLine ((Layout.run (preface p o l) 0).1 ++ (Layout.run (globals p l) 0).1) line :=
    hglobals.prepend (Layout.endsLine_run _ _)
  exact (((hpreface.append _).append _).append _).append _

theorem hasLine_program_of_local {d : Local} (h : d ∈ localDeclarations l) :
    HasLine (program p o l) (d.line l.env.toShader) := by
  have hintro : HasLine (Layout.run (intro o l) 0).1 (d.line l.env.toShader) :=
    Layout.hasLine_run (List.mem_append_right _ (List.mem_map_of_mem (List.mem_map_of_mem h))) 0
  refine (hintro.prepend ?_).append _
  exact (((Layout.endsLine_run _ _).append (Layout.endsLine_run _ _)).append
    (Layout.endsLine_run _ _)).append (Layout.endsLine_run _ _)

theorem mem_bodies {sh : Shader} {code : List Stmt} {c : Stmt} {step : Layout} (hc : c ∈ code)
    (h : step ∈ c.layout sh) : step ∈ (bodies o sh code).1 ∨ step ∈ (bodies o sh code).2 := by
  have hsplit : c ∈ (mainBody code).1 ∨ c ∈ (mainBody code).2 := by
    rw [mainBody, List.span_eq_takeWhile_dropWhile]
    rw [← List.takeWhile_append_dropWhile (p := fun c => c != .closeFunction) (l := code)] at hc
    exact List.mem_append.mp hc
  rcases hsplit with hmain | hrest
  · have hstep := List.mem_flatMap.mpr ⟨c, hmain, h⟩
    exact .inl (List.mem_append_left _ (List.mem_append_left _ hstep))
  · rw [← List.take_append_drop 1 (mainBody code).2] at hrest
    rcases List.mem_append.mp hrest with hend | hlater
    · exact .inl (List.mem_append_right _ (List.mem_flatMap.mpr ⟨c, hend, h⟩))
    · exact .inr (List.mem_flatMap.mpr ⟨c, hlater, h⟩)

theorem hasLine_program_of_code {c : Stmt} (hc : c ∈ l.scan.code)
    (h : .line line ∈ c.layout l.env.toShader) : HasLine (program p o l) line := by
  let code := bodies o l.env.toShader l.scan.code
  have hbefore : EndsLine ((Layout.run (preface p o l) 0).1 ++ (Layout.run (globals p l) 0).1
      ++ (Layout.run (l.scan.helpers.flatMap Helper.layout) 0).1) :=
    ((Layout.endsLine_run _ _).append (Layout.endsLine_run _ _)).append (Layout.endsLine_run _ _)
  rcases mem_bodies o hc h with hmain | hsubroutines
  · have hline : HasLine (Layout.run code.1 1).1 line := Layout.hasLine_run hmain 1
    exact hline.prepend ((hbefore.append (Layout.endsLine_run _ _)).append (Layout.endsLine_run _ _))
  · have hline : HasLine (Layout.run code.2 (Layout.run code.1 1).2).1 line :=
      Layout.hasLine_run hsubroutines _
    exact ((hline.prepend hbefore).append _).append _

end ShaderLift.Glsl
