/-
How the entry point of a program ends.  A function is closed by a return, or by the end mark if no return
comes right before it.  The translation writes to the section of the entry point up to the first such unit
and never again.  Whether the brace that closes it there is the one of the entry point depends on the
blocks: the end mark does not look at them, nor does a return at conditionals.
-/
import ShaderLift.Proofs.DeclaredOnce

namespace ShaderLift

open Glsl

/-! ### Units that close a function -/

theorem Scan.closeCode_congr {s t : Scan} (h : s.code = t.code) (sh : Shader) :
    closeCode sh s = closeCode sh t := by
  unfold closeCode inMain
  rw [h]

namespace Visit

variable {v : Visit}

/-- Whether the unit closes a function: a return does, and so does the end mark unless a return comes right
before it. -/
def closes (v : Visit) : Bool :=
  v.opcode? = some .ret || (v.word = Word.endMark && v.before.previous ≠ some .ret)

theorem Executes.opcode?_eq {i : Instruction} {s : Scan} (h : v.Executes i s) :
    v.opcode? = some i.opcode := by
  obtain ⟨fields, hhead, hi, -⟩ := h.fetched
  rw [opcode?, instruction?, hhead]
  exact congrArg (fun i => some i.opcode) hi.symm

theorem Executes.closes_iff {i : Instruction} {s : Scan} (h : v.Executes i s) :
    v.closes = true ↔ i.opcode = .ret := by
  obtain ⟨fields, hhead, -⟩ := h.fetched
  have hword : v.word ≠ Word.endMark := word_ne_endMark hhead (by simp)
  simp [closes, h.opcode?_eq, hword]

/-- What a unit without a fault has to do with the ends of functions: it closes one, or it closes none
and opens one only after a return. -/
theorem Does.frames (h : v.Does) :
    (v.closes = true ∧ v.written = (Scan.closeCode v.env.toShader v.before).code) ∨
      (v.closes = false ∧ .closeFunction ∉ v.written ∧
        ∀ c ∈ v.written, c.isFrame = true → v.before.previous = some .ret) := by
  have hidle : v.after.code = v.before.code → v.closes = false →
      v.closes = false ∧ .closeFunction ∉ v.written ∧
        ∀ c ∈ v.written, c.isFrame = true → v.before.previous = some .ret := by
    intro hcode hcloses
    have hnone : v.written = [] := written_eq (hcode.trans (List.append_nil _).symm)
    rw [hnone]
    exact ⟨hcloses, List.not_mem_nil, fun c hc => absurd hc List.not_mem_nil⟩
  cases h with
  | idle other unmarked haveTable symbols more preshader after =>
    exact .inr (hidle (by rw [after]; rfl) (by simp [closes, opcode?, other, unmarked]))
  | rest other mark closed after =>
    exact .inr (hidle (by rw [after]) (by simp [closes, opcode?, other, closed]))
  | finish other mark opened after =>
    exact .inl ⟨by simp [closes, mark, opened], written_eq (code_after_finish after)⟩
  | execute i s this h =>
    have hwritten : v.written = (Scan.codeOf v.env s i).code := written_eq h.code_after
    by_cases hret : i.opcode = .ret
    · refine .inl ⟨h.closes_iff.mpr hret, ?_⟩
      have hcode : (Scan.settled v.env s i).code = v.before.code :=
        (Scan.untouched_settled v.env s i).code.trans h.fetches.code_eq
      rw [hwritten, ← Scan.closeCode_congr hcode]
      unfold Scan.codeOf Scan.instructionCode
      rw [hret]
    · have hframe := @Scan.opcode_of_frame v.env.toShader (Scan.settled v.env s i) i
      rw [hwritten]
      refine .inr ⟨Bool.eq_false_iff.mpr fun hcloses => hret (h.closes_iff.mp hcloses),
        fun hmem => hret (hframe _ hmem _ rfl), fun c hc hopens => ?_⟩
      -- a head is written by a label, which has to come right after a return
      have hlabel : i.opcode = .label := by
        cases c with
        | openFunction label counter => exact hframe _ hc _ rfl
        | closeFunction => exact absurd (hframe _ hc _ rfl) hret
        | _ => cases hopens
      rw [← h.fetches.previous_eq]
      exact Scan.previous_of_label h.legal hlabel

theorem Does.closeFunction_mem_written_iff (h : v.Does) :
    .closeFunction ∈ v.written ↔ v.closes = true := by
  rcases h.frames with ⟨hcloses, hwritten⟩ | ⟨hopen, hnone, -⟩
  · rw [hwritten, Scan.code_closeCode]
    exact iff_of_true List.mem_concat_self hcloses
  · exact iff_of_false hnone (by simp [hopen])

end Visit

theorem Scan.Run.inMain_before {env : Env} {t : Scan} {n : Nat} {ws : List Word}
    {earlier later : List Visit} {v : Visit} {p : Position}
    (r : Scan.Run env { position := p } n ws (earlier ++ v :: later) t)
    (does : ∀ u ∈ earlier ++ v :: later, u.Does) :
    v.before.inMain = true ↔ ∀ u ∈ earlier, u.closes = false := by
  have hcode : v.before.code = earlier.flatMap Visit.written :=
    r.appended_at (fun _ _ => rfl) (fun _ => rfl) (fun _ h => h.code_after) does rfl
  rw [← Bool.not_eq_false, Scan.inMain_eq_false_iff, hcode, List.mem_flatMap, not_exists]
  refine forall_congr' fun u => ?_
  rw [not_and]
  refine forall_congr' fun hu => ?_
  rw [(does u (List.mem_append_left _ hu)).closeFunction_mem_written_iff, Bool.not_eq_true]

/-! ### Lines at the end -/

namespace Glsl

/-- The lines at the end of the entry point: the colour of a pixel before shader model 2, and what a caller
wants done with the position of a vertex. -/
def closingLines (o : Options) (sh : Shader) : List String :=
  match sh.stage with
  | .pixel => if sh.atLeast 2 0 then [] else ["ps_oC0 = ps_r0;"]
  | .vertex =>
    (if o.flipRenderTarget then ["gl_Position.y = gl_Position.y * vpFlip;"] else [])
      ++ if o.depthClipping then ["gl_Position.z = gl_Position.z * 2.0 - gl_Position.w;"] else []

theorem layout_copyColor {sh : Shader} (h : sh.stage = .pixel) :
    Scan.copyColor.layout sh = [.line "ps_oC0 = ps_r0;"] := by
  show [Layout.line (Register.name sh ⟨.colorOut, 0⟩ ++ " = " ++ Register.name sh ⟨.temp, 0⟩ ++ ";")] = _
  unfold Register.name Shader.shortName
  rw [h]
  rfl

theorem lines_closingLines (o : Options) (sh : Shader) :
    Layout.lines (closingLines o sh) =
      (Scan.closingCode sh).flatMap (Stmt.layout sh) ++ epilogue o sh := by
  unfold closingLines Scan.closingCode Scan.colorFromTemp epilogue Shader.isPixel Shader.isVertex
  cases hstage : sh.stage with
  | pixel =>
    cases sh.atLeast 2 0 with
    | true => rfl
    | false =>
      show _ = Scan.copyColor.layout sh ++ [] ++ []
      rw [layout_copyColor hstage]
      rfl
  | vertex => cases o.flipRenderTarget <;> cases o.depthClipping <;> rfl

theorem braces_closingLines (o : Options) (sh : Shader) :
    (Layout.lines (closingLines o sh)).flatMap Layout.braces = [] := by
  unfold closingLines
  cases sh.stage with
  | pixel =>
    dsimp only
    cases sh.atLeast 2 0 <;> decide
  | vertex =>
    dsimp only
    cases o.flipRenderTarget <;> cases o.depthClipping <;> decide

end Glsl

def Visit.layout (v : Visit) : List Layout := v.written.flatMap (Stmt.layout v.env.toShader)

/-- A unit that closes a function other than the entry point writes the end of it. -/
theorem Visit.Does.layout_closing {v : Visit} (h : v.Does) (hcloses : v.closes = true)
    (hmain : v.before.inMain = false) :
    v.layout = functionEnd := by
  rcases h.frames with ⟨-, hwritten⟩ | ⟨hopen, -⟩
  · rw [layout, hwritten, Scan.code_closeCode, hmain]
    rfl
  · rw [hcloses] at hopen
    cases hopen

theorem Scan.Run.code_foldl {env : Env} {s t : Scan} {n : Nat} {ws : List Word} {vs done rest : List Visit}
    (r : Scan.Run env s n ws vs t) (does : ∀ v ∈ vs, v.Does) (h : vs = done ++ rest) :
    (done.foldl (fun _ v => v.after) s).code = s.code ++ done.flatMap Visit.written := by
  rcases List.eq_nil_or_concat done with rfl | ⟨before, last, rfl⟩
  · exact (List.append_nil _).symm
  · have hsplit : vs = before ++ last :: rest := by
      rw [h, List.concat_append]
    have hlast := (does last (by simp [hsplit])).code_after
    have hbefore : last.before.code = s.code ++ before.flatMap Visit.written :=
      r.appended_at (fun _ _ => rfl) (fun _ => rfl) (fun _ h => h.code_after) does hsplit
    rw [List.concat_eq_append, List.foldl_append, List.flatMap_append, List.flatMap_singleton,
      ← List.append_assoc,
      ← hbefore]
    exact hlast

/-! ### The translation along the units -/

/-- A shader without a fault, divided at the first unit that closes a function. -/
structure Divided (k : Task) (us : List Word) (earlier : List Visit) (v : Visit) (later : List Visit) :
    Prop where
  units : k.units us = earlier ++ v :: later
  clean : (Scan.ofUnits k.env us).faults = []
  fit : Interface.faults k.shader (Scan.ofUnits k.env us) = []
  does : ∀ u ∈ earlier ++ v :: later, u.Does
  closes : v.closes = true
  first : ∀ u ∈ earlier, u.closes = false
  /-- If it is the end mark, it is the last unit. -/
  last : v.word = Word.endMark → later = []

def mainText (k : Task) (earlier : List Visit) : String :=
  (Layout.run (earlier.flatMap Visit.layout
    ++ (Layout.lines (closingLines k.options k.shader) ++ functionEnd)) 1).1

namespace Divided

variable {k : Task} {us : List Word} {earlier later : List Visit} {v : Visit}
  (d : Divided k us earlier v later) {done rest : List Visit}
include d

theorem run : Scan.Run k.env { position := .before } 1 us (earlier ++ v :: later)
    (Scan.readUnits k.env (Scan.start k.env) 1 us) := by
  have hrun : Scan.Run k.env (Scan.start k.env) 1 us (k.units us) _ := Scan.run_readUnits k.env _ 1 us
  rw [d.units] at hrun
  rwa [Scan.start_of_clean d.clean] at hrun ⊢

theorem code_afterUnits (h : earlier ++ v :: later = done ++ rest) :
    (Translation.afterUnits k done).scan.code = done.flatMap Visit.written := by
  have hstart := Scan.start_of_clean d.clean
  rw [(Translation.follows_afterUnits k us (d.units.trans h)).scan, hstart, d.run.code_foldl d.does h]
  rfl

theorem layout_of_written {vs : List Visit} (hvs : ∀ u ∈ vs, u ∈ earlier ++ v :: later) :
    (vs.flatMap Visit.written).flatMap (Stmt.layout k.shader) = vs.flatMap Visit.layout := by
  rw [List.flatMap_assoc]
  refine List.flatMap_congr fun u hu => ?_
  rw [Visit.layout, d.run.env_eq u (hvs u hu)]
  rfl

theorem closeFunction_not_mem (h : earlier = done ++ rest) : .closeFunction ∉ done.flatMap Visit.written := by
  intro hmem
  obtain ⟨u, hu, hmem⟩ := List.mem_flatMap.mp hmem
  have hu : u ∈ earlier := h ▸ List.mem_append_left _ hu
  have hcloses := ((d.does u (List.mem_append_left _ hu)).closeFunction_mem_written_iff).mp hmem
  simp [d.first u hu] at hcloses

theorem functions_open (h : earlier = done ++ rest) :
    k.functions (done.flatMap Visit.written) = (done.flatMap Visit.layout, []) := by
  rw [Task.functions_open (d.closeFunction_not_mem h), d.layout_of_written]
  exact fun u hu => List.mem_append_left _ (h ▸ List.mem_append_left _ hu)

theorem written_closing : v.written = Scan.closingCode k.shader ++ [.closeFunction] := by
  have hv : v ∈ earlier ++ v :: later := List.mem_append_cons_self
  rcases (d.does v hv).frames with ⟨-, hwritten⟩ | ⟨hopen, -⟩
  · rw [hwritten, Scan.code_closeCode, (d.run.inMain_before d.does).mpr d.first, d.run.env_eq v hv,
      if_pos rfl]
    rfl
  · simp [d.closes] at hopen

theorem functions_closed (h : later = done ++ rest) :
    k.functions ((earlier ++ v :: done).flatMap Visit.written) =
      (earlier.flatMap Visit.layout ++ (Layout.lines (closingLines k.options k.shader) ++ functionEnd),
        done.flatMap Visit.layout) := by
  have hinside : .closeFunction ∉ earlier.flatMap Visit.written ++ Scan.closingCode k.shader := by
    rw [List.mem_append, not_or]
    refine ⟨d.closeFunction_not_mem (List.append_nil _).symm, ?_⟩
    unfold Scan.closingCode
    split
    · exact fun hmem => absurd (List.mem_singleton.mp hmem) (by decide)
    · exact List.not_mem_nil
  have hsplit : (earlier ++ v :: done).flatMap Visit.written =
      ((earlier.flatMap Visit.written ++ Scan.closingCode k.shader) ++ [.closeFunction])
        ++ done.flatMap Visit.written := by
    rw [List.flatMap_append, List.flatMap_cons, d.written_closing]
    simp only [List.append_assoc]
  rw [hsplit, Task.functions_append (by simp), Task.functions_close hinside, List.flatMap_append,
    d.layout_of_written fun u hu => List.mem_append_left _ hu,
    d.layout_of_written fun u hu => List.mem_append_right _ (List.mem_cons_of_mem _ (by simp [h, hu])),
    lines_closingLines]
  simp only [List.append_assoc, List.nil_append]

omit d in
theorem append_later (h : later = done ++ rest) :
    earlier ++ v :: later = (earlier ++ v :: done) ++ rest := by
  rw [h, List.append_assoc, List.cons_append]

theorem current_open (h : earlier = done ++ rest) :
    (Translation.afterUnits k done).output.current = .main := by
  have hsplit : earlier ++ v :: later = done ++ (rest ++ v :: later) := by
    rw [h, List.append_assoc]
  have hfollows := Translation.follows_afterUnits k us (d.units.trans hsplit)
  refine hfollows.current_eq_main_iff.mpr (Bool.not_eq_false _ ▸ fun hclosed => ?_)
  rw [Scan.inMain_eq_false_iff, ← hfollows.scan, d.code_afterUnits hsplit] at hclosed
  exact d.closeFunction_not_mem h hclosed

theorem closeFunction_mem (h : later = done ++ rest) :
    .closeFunction ∈ (Translation.afterUnits k (earlier ++ v :: done)).scan.code := by
  rw [d.code_afterUnits (append_later h), List.flatMap_append, List.flatMap_cons, d.written_closing]
  simp

theorem current_closed (h : later = done ++ rest) :
    (Translation.afterUnits k (earlier ++ v :: done)).output.current = .subroutines := by
  have hfollows := Translation.follows_afterUnits k us (d.units.trans (append_later h))
  have hclosed := Scan.inMain_eq_false_iff.mpr (hfollows.scan ▸ d.closeFunction_mem h)
  rw [hfollows.current, Scan.body, hclosed]
  rfl

/-- The text of the entry point grows up to the unit that closes it, and stays then. -/
theorem text_open (h : earlier = done ++ rest) :
    (Translation.afterUnits k done).output.text .main = (Layout.run (done.flatMap Visit.layout) 1).1 ∧
      (Translation.afterUnits k done).output.depth = (Layout.run (done.flatMap Visit.layout) 1).2 := by
  have hsplit : earlier ++ v :: later = done ++ (rest ++ v :: later) := by
    rw [h, List.append_assoc]
  have hwritten := Translation.written_afterUnits d.clean (d.units.trans hsplit)
  rw [hwritten.main, hwritten.depth, d.code_afterUnits hsplit, d.functions_open h]
  exact ⟨rfl, rfl⟩

theorem text_closed (h : later = done ++ rest) :
    (Translation.afterUnits k (earlier ++ v :: done)).output.text .main = mainText k earlier := by
  have hwritten := Translation.written_afterUnits d.clean (d.units.trans (append_later h))
  rw [hwritten.main, d.code_afterUnits (append_later h), d.functions_closed h]
  rfl

theorem text_later {u : Visit} (h : later = done ++ u :: rest) :
    (Translation.afterUnits k (earlier ++ v :: done ++ [u])).output.text .subroutines =
      (Translation.afterUnits k (earlier ++ v :: done)).output.text .subroutines
        ++ (Layout.run u.layout (Translation.afterUnits k (earlier ++ v :: done)).output.depth).1 := by
  have hnext : later = (done ++ [u]) ++ rest := by
    rw [h, List.append_assoc]
    rfl
  have hbefore := Translation.written_afterUnits d.clean (d.units.trans (append_later h))
  have hafter := Translation.written_afterUnits d.clean (d.units.trans (append_later hnext))
  have hgrown : (done ++ [u]).flatMap Visit.layout = done.flatMap Visit.layout ++ u.layout := by simp
  rw [List.append_assoc, List.cons_append, hafter.subroutines, hbefore.subroutines, hbefore.depth,
    d.code_afterUnits (append_later hnext), d.code_afterUnits (append_later h), d.functions_closed hnext,
    d.functions_closed h, hgrown, Layout.run_append]

theorem layout_later {u : Visit} (h : later = done ++ u :: rest) (hcloses : u.closes = true) :
    u.layout = functionEnd := by
  have hmem : u ∈ earlier ++ v :: later := by simp [h]
  have hopen := (append_later h ▸ d.run).inMain_before (append_later h ▸ d.does)
  have hclosed : u.before.inMain = false :=
    Bool.eq_false_iff.mpr fun hmain => by simpa [d.closes] using hopen.mp hmain v (by simp)
  exact (d.does u hmem).layout_closing hcloses hclosed

/-! ### Braces of the entry point -/

theorem layout_eq_innerLayout {u : Visit} (hu : u ∈ earlier) : u.layout = u.innerLayout := by
  have hmem : u ∈ earlier ++ v :: later := List.mem_append_left _ hu
  have hinner : ∀ c ∈ u.written, c.isFrame = false := by
    rcases (d.does u hmem).frames with ⟨hcloses, -⟩ | ⟨-, -, hframes⟩
    · simp [d.first u hu] at hcloses
    · intro c hc
      refine Bool.eq_false_iff.mpr fun hframe => ?_
      have hlast := ((d.run.functionsApart d.does).1 u hmem).closed (hframes c hc hframe)
      have hclosed := Scan.inMain_eq_false_iff.mpr (List.mem_of_getLast? hlast)
      obtain ⟨before, between, hsplit⟩ := List.append_of_mem hu
      have hunits : earlier ++ v :: later = before ++ u :: (between ++ v :: later) := by
        rw [hsplit, List.append_assoc, List.cons_append]
      have hopen := ((hunits ▸ d.run).inMain_before (hunits ▸ d.does)).mpr fun x hx =>
        d.first x (hsplit ▸ List.mem_append_left _ hx)
      simp [hclosed] at hopen
  rw [Visit.layout, Visit.innerLayout, List.filter_eq_self.mpr fun c hc => by rw [hinner c hc]; rfl]

theorem depth?_mainText : Brace.depth? 1 (bracesOf (mainText k earlier)) = some v.before.depths.braces := by
  have hearlier : (earlier.flatMap Visit.layout).flatMap Layout.braces = earlier.flatMap Visit.braces := by
    rw [List.flatMap_assoc]
    refine List.flatMap_congr fun u hu => ?_
    rw [d.layout_eq_innerLayout hu, (d.does u (List.mem_append_left _ hu)).braces_innerLayout]
  have hend : functionEnd.flatMap Layout.braces = [.closing] := by decide
  rw [mainText, bracesOf_run, List.flatMap_append, List.flatMap_append, hearlier, braces_closingLines, hend,
    List.nil_append]
  refine (Brace.depth?_append (d.run.depth?_braces d.does 1) _).trans ?_
  rw [Brace.depth?_closing (by omega), Nat.add_sub_cancel_left]
  rfl

/-! ### The finished program -/

theorem output_finished : (Declaring.ofTranslation k (Translation.ofUnits k us)).output =
    Declaring.sections k (Translation.ofUnits k us) (LinkedShader.ofUnits k.env us).interface := by
  have hscan := Translation.scan_ofUnits k us
  rw [(Declaring.ofTranslation_eq (hscan.symm ▸ d.clean) (hscan.symm ▸ d.fit)).2.2, hscan]
  rfl

theorem output_ofUnits :
    (Translation.ofUnits k us).output = (Translation.afterUnits k (earlier ++ v :: later)).output := by
  rw [Translation.ofUnits_eq, d.units]

end Divided

namespace Glsl

end Glsl

/-! ### Programs -/

/-- What the unit `v` does to the entry point, whose text, apart from its head, is `main` in the end. -/
structure Closing (k : Task) (us : List Word) (earlier : List Visit) (v : Visit) (later : List Visit)
    (main : String) : Prop where
  /-- The unit is the first return, or the end mark if there is no return. -/
  kind : v.opcode? = some .ret ∨ v.word = Word.endMark ∧ later = []
  first : ∀ u ∈ earlier, u.opcode? ≠ some .ret
  /-- Up to the unit the translation is in the entry point. -/
  opened : ∀ done rest, earlier = done ++ rest → (Translation.afterUnits k done).output.current = .main
  /-- The unit puts the last lines of the entry point out, and right after them a closing brace. -/
  closed : main = (Translation.afterUnits k earlier).output.text .main
    ++ (Layout.run (Layout.lines (closingLines k.options k.shader) ++ functionEnd)
      (Translation.afterUnits k earlier).output.depth).1
  /-- From then on the translation is elsewhere, and the text stays as it is. -/
  kept : ∀ done rest, later = done ++ rest →
    (Translation.afterUnits k (earlier ++ v :: done)).output.current = .subroutines ∧
      (Translation.afterUnits k (earlier ++ v :: done)).output.text .main = main
  /-- The return of a subroutine puts a closing brace out and no other line. -/
  returns : ∀ done u rest, later = done ++ u :: rest → u.opcode? = some .ret →
    (Translation.afterUnits k (earlier ++ v :: done ++ [u])).output.text .subroutines =
      (Translation.afterUnits k (earlier ++ v :: done)).output.text .subroutines
        ++ (Layout.run functionEnd (Translation.afterUnits k (earlier ++ v :: done)).output.depth).1
  final : (Declaring.ofTranslation k (Translation.ofUnits k us)).output.text .main = main
  /-- Of the braces from the first one of the entry point on, those of the blocks that are open at the unit
  are left open. -/
  braces : Brace.depth? 1 (bracesOf main) = some (2 * v.before.loops + v.before.reps + v.before.ifs)
  /-- At a return these are conditionals only. -/
  returned : v.opcode? = some .ret → v.before.loops = 0 ∧ v.before.reps = 0

namespace Divided

variable {k : Task} {us : List Word} {earlier later : List Visit} {v : Visit}
  (d : Divided k us earlier v later)
include d

theorem closing : Closing k us earlier v later (mainText k earlier) := by
  have hkind : v.opcode? = some .ret ∨ v.word = Word.endMark := by
    have h := d.closes
    simp only [Visit.closes, Bool.or_eq_true, Bool.and_eq_true, decide_eq_true_eq] at h
    exact h.imp_right And.left
  constructor
  case kind => exact hkind.imp_right fun hend => ⟨hend, d.last hend⟩
  case first =>
    intro u hu hret
    have hopen := d.first u hu
    simp [Visit.closes, hret] at hopen
  case opened => exact fun done rest h => d.current_open h
  case closed =>
    obtain ⟨htext, hdepth⟩ := d.text_open (List.append_nil earlier).symm
    -- the lines go on at the depth where the units before end
    rw [htext, hdepth, mainText, Layout.run_append]
  case kept => exact fun done rest h => ⟨d.current_closed h, d.text_closed h⟩
  case returns =>
    intro done u rest h hret
    rw [d.text_later h, d.layout_later h (by simp [Visit.closes, hret])]
  case final =>
    rw [d.output_finished]
    show (Translation.ofUnits k us).output.text .main = _
    rw [d.output_ofUnits, d.text_closed (List.append_nil later).symm]
  case braces => exact d.depth?_mainText
  case returned =>
    intro hret
    rcases (d.does v List.mem_append_cons_self).depths_after with
      ⟨hnone, -⟩ | ⟨op, hop, hallowed, -⟩
    · rw [hret] at hnone
      cases hnone
    · rw [hret] at hop
      cases hop
      exact hallowed

end Divided

theorem exists_first {α : Type} {q : α → Bool} {xs : List α} (h : ∃ x ∈ xs, q x = true) :
    ∃ before x after, xs = before ++ x :: after ∧ q x = true ∧ ∀ y ∈ before, q y = false := by
  cases hfind : xs.find? q with
  | none =>
    obtain ⟨x, hx, hq⟩ := h
    exact absurd hq (List.find?_eq_none.mp hfind x hx)
  | some x =>
    obtain ⟨hq, before, after, hsplit, hfirst⟩ := List.find?_eq_some_iff_append.mp hfind
    exact ⟨before, x, after, hsplit, hq, fun y hy => by simpa using hfirst y hy⟩

variable {p : Profile} {o : Options} {ws : List Word}

theorem exists_endMark (clean : (liftWords p o ws).errors = []) :
    ∃ before last, unitsOf o ws = before ++ [last] ∧ last.word = Word.endMark ∧
      ∀ u ∈ before, u.word ≠ Word.endMark := by
  obtain ⟨version, before, last, tail, -, hunits, hlast, hbefore, -⟩ :=
    (accounted_of_no_errors p o ws clean).pieces
  have hwords := last.words_append_remainder
  rw [hlast] at hwords
  exact ⟨before, last, hunits, (List.cons.inj hwords).1.symm, hbefore⟩

/-- Some unit of a shader closes a function, and if the first one is the end mark it is the last unit. -/
theorem exists_first_closing (clean : (liftWords p o ws).errors = []) :
    ∃ earlier v later, unitsOf o ws = earlier ++ v :: later ∧ v.closes = true ∧
      (∀ u ∈ earlier, u.closes = false) ∧ (v.word = Word.endMark → later = []) := by
  have hdoes := does_of_no_errors p o ws clean
  obtain ⟨w, us, env, t, -, -, hrun, -, -, -⟩ := run_of_no_errors clean
  obtain ⟨before, last, hunits, hmark, hbefore⟩ := exists_endMark clean
  have hexists : ∃ u ∈ unitsOf o ws, u.closes = true := by
    by_cases hret : last.before.previous = some .ret
    · -- a return was the last instruction, and it closed a function
      rw [hunits] at hrun hdoes ⊢
      have hcode := ((hrun.functionsApart hdoes).1 last (by simp)).closed hret
      have hclosed := Scan.inMain_eq_false_iff.mpr (List.mem_of_getLast? hcode)
      refine Classical.by_contradiction fun hnone => ?_
      have hopen := (hrun.inMain_before hdoes).mpr fun u hu =>
        Bool.eq_false_iff.mpr fun hcloses => hnone ⟨u, List.mem_append_left _ hu, hcloses⟩
      rw [hclosed] at hopen
      cases hopen
    · refine ⟨last, hunits ▸ List.mem_append_right _ List.mem_cons_self, ?_⟩
      simp [Visit.closes, hmark, hret]
  obtain ⟨earlier, v, later, hsplit, hcloses, hfirst⟩ := exists_first hexists
  refine ⟨earlier, v, later, hsplit, hcloses, hfirst, fun hend => ?_⟩
  rcases List.eq_nil_or_concat later with rfl | ⟨between, x, rfl⟩
  · rfl
  · -- no unit before the last one is the end mark
    have hsame : (earlier ++ v :: between) ++ [x] = before ++ [last] := by
      rw [← hunits, hsplit]
      simp
    have hmem : v ∈ before :=
      (List.append_inj_left' hsame rfl) ▸ List.mem_append_cons_self
    exact absurd hend (hbefore v hmem)

/-- A shader without a fault is divided at the first unit that closes a function. -/
theorem exists_divided (clean : (liftWords p o ws).errors = []) :
    ∃ w us k earlier v later, ws = w :: us ∧ Task.ofWord? p o w = some k ∧
      linkShader o ws = .ok (.ofUnits k.env us) ∧ unitsOf o ws = earlier ++ v :: later ∧
      Divided k us earlier v later := by
  obtain ⟨earlier, v, later, hsplit, hcloses, hfirst, hlast⟩ := exists_first_closing clean
  have hdoes := does_of_no_errors p o ws clean
  obtain ⟨w, us, env, rfl, hversion, hclean, hlink⟩ := linkShader_of_no_errors p o ws clean
  obtain ⟨k, hk, rfl, rfl, rfl⟩ := Task.exists_of_ofWord? p hversion
  refine ⟨w, us, k, earlier, v, later, rfl, hk, hlink, hsplit, ?_, hclean,
    interface_of_linkShader hversion hclean hlink, hsplit ▸ hdoes, hcloses, hfirst, hlast⟩
  rw [← Task.units_of_ofWord? hk, hsplit]

end ShaderLift
