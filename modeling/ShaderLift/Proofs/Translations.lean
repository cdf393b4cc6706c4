/-
Translation, taken apart.  A translation reads and writes at once.  Here the two are told apart again:

* reading goes its own way (`Follows`).  Whatever is put out, in whatever dialect, the state is that of
  `Scan.readUnits`, the current section follows from it, and no redirection is left open;
* the text of units without a fault has a closed form (`Written`), section by section.

Each is shown for one unit first, and then for all of them.
-/
import ShaderLift.Proofs.Composition
import ShaderLift.Proofs.Text
import ShaderLift.Proofs.Visits

namespace ShaderLift

open Glsl

/-! ### Reading -/

/-- The section that the code of a function goes to. -/
def Scan.body (s : Scan) : Section := if s.inMain then .main else .subroutines

theorem Scan.inMain_congr {s t : Scan} (h : s.code = t.code) : s.inMain = t.inMain := by
  rw [inMain, inMain, h]

theorem Scan.inMain_eq_false_iff {s : Scan} : s.inMain = false ↔ .closeFunction ∈ s.code := by
  rw [inMain, Bool.not_eq_false', List.contains_iff_mem]

def Scan.closingCode (sh : Shader) : List Stmt := if colorFromTemp sh then [copyColor] else []

theorem Scan.code_closeCode (sh : Shader) (s : Scan) :
    (closeCode sh s).code = (if s.inMain then closingCode sh else []) ++ [.closeFunction] := by
  unfold closeCode closingCode
  cases s.inMain <;> cases colorFromTemp sh <;> rfl

theorem Scan.faults_closeCode (sh : Shader) (s : Scan) : (closeCode sh s).faults = [] := by
  unfold closeCode
  split <;> rfl

theorem Scan.helpers_closeCode (sh : Shader) (s : Scan) : (closeCode sh s).helpers = [] := by
  unfold closeCode
  split <;> rfl

theorem Scan.close_eq (env : Env) (s : Scan) :
    s.close env = { s with
      used := (s.markColor env).used
      code := s.code ++ (closeCode env.toShader s).code } := by
  unfold close emit
  rw [faults_closeCode, helpers_closeCode]
  unfold markColor
  split <;> rfl

theorem Scan.constants_generate (env : Env) (s : Scan) (i : Instruction) :
    (s.generate env i).constants = s.constants := by
  unfold generate
  split
  · rfl
  · split
    · rw [close_eq]
    · unfold emit
      rw [failAll_eq]

theorem Scan.legal_of_execute {env : Env} {s : Scan} {i : Instruction}
    (flag : (execute env s i).failing = false) :
    violations env s i = [] := by
  have hjudge := (moves_judge_execute env s i).records.flag flag
  exact eq_nil_of_failAll
    ((untouched_account env (s.failAll (violations env s i)) i).failing.symm.trans hjudge)

theorem Scan.constants_execute {env : Env} {s : Scan} {i : Instruction} (legal : violations env s i = []) :
    (execute env s i).constants = s.constants ++ i.constant?.toList := by
  rw [← constants_account legal]
  refine (constants_generate env _ i).trans ?_
  rw [judge, legal]
  rfl

namespace Translation

variable {t : Translation} {s u : Scan} {k : Task} {n : Nat} {ws : List Word} {vs done rest : List Visit}

/-- The translation has come to the state `s`: text goes where the code of `s` says, and no redirection is
open. -/
structure Follows (t : Translation) (s : Scan) : Prop where
  scan : t.scan = s
  current : t.output.current = s.body
  stack : t.output.stack = []
  matched : t.output.unmatched = 0

namespace Follows

theorem onScan (h : t.Follows s) {f : Scan → Scan} (hcode : (f s).code = s.code) :
    (t.onScan f).Follows (f s) where
  scan := congrArg f h.scan
  current := by
    rw [Scan.body, Scan.inMain_congr hcode]
    exact h.current
  stack := h.stack
  matched := h.matched

theorem moveOn (h : t.Follows s) {s' : Scan} (hcode : s'.code = s.code) :
    Follows { t with scan := s' } s' :=
  h.onScan (f := fun _ => s') hcode

theorem redirect (h : t.Follows s) (target : Section) (steps : List Layout) :
    (t.onOutput fun b => b.redirect target steps).Follows s :=
  ⟨h.scan, h.current, h.stack, h.matched⟩

theorem put (h : t.Follows s) (steps : List Layout) : (t.onOutput fun b => b.put steps).Follows s :=
  ⟨h.scan, h.current, h.stack, h.matched⟩

theorem require (h : t.Follows s) (x : Helper) :
    (t.require k x).Follows { s with helpers := addHelper s.helpers x } := by
  unfold Translation.require
  rw [h.scan]
  split
  next hknown =>
    rw [addHelper, if_pos hknown]
    exact h
  next =>
    have hnew := h.onScan (f := fun s => { s with helpers := addHelper s.helpers x }) rfl
    cases x with
    | largest => exact hnew
    | lighting | reflection | textureLevels => exact hnew.redirect _ _

theorem requireAll (h : t.Follows s) (xs : List Helper) :
    (xs.foldl (Translation.require k) t).Follows { s with helpers := xs.foldl addHelper s.helpers } := by
  induction xs generalizing t s with
  | nil => exact h
  | cons x xs ih => exact ih (h.require x)

theorem write (h : t.Follows s) {code : List Stmt} (inside : .closeFunction ∉ code) :
    (t.write k code).Follows { s with code := s.code ++ code } := by
  refine ⟨by rw [← h.scan]; rfl, ?_, h.stack, h.matched⟩
  have hmain : Scan.inMain { s with code := s.code ++ code } = s.inMain := by
    unfold Scan.inMain
    rw [List.contains_eq_mem, List.contains_eq_mem]
    simp [inside]
  rw [Scan.body, hmain]
  exact h.current

theorem emit (h : t.Follows s) {e : Emission Unit} (inside : .closeFunction ∉ e.code) :
    (t.emit k e).Follows (s.emit e) := by
  have hwritten := ((h.requireAll (k := k) e.helpers).write (k := k) inside).onScan
    (f := fun s => s.failAll e.faults) (by rw [Scan.failAll_eq])
  rw [Scan.failAll_eq] at hwritten
  unfold Scan.emit
  rw [Scan.failAll_eq]
  exact hwritten

theorem define (h : t.Follows s) (i : Instruction) : (t.define k i).Follows s := by
  unfold Translation.define
  split
  · exact h
  · exact h.redirect _ _

theorem conclude (h : t.Follows s) (hmain : s.inMain = true) :
    (t.conclude k).Follows { s with
      used := (s.markColor k.env).used
      code := s.code ++ Scan.closingCode k.shader } := by
  unfold Translation.conclude Scan.markColor Scan.closingCode
  rw [hmain, Bool.true_and]
  show Follows _ { s with used := (if Scan.colorFromTemp k.shader = true then _ else s).used, code := _ }
  split
  · exact (h.onScan (f := fun s => s.markUsed ⟨.colorOut, 0⟩ true) rfl).write (by decide)
  · rw [List.append_nil]
    exact h.put _

/-- The current section says whether the function that is closed is the entry point. -/
theorem current_eq_main_iff (h : t.Follows s) : t.output.current = .main ↔ s.inMain = true := by
  rw [h.current, Scan.body]
  cases s.inMain <;> decide

theorem turn (h : t.Follows s) :
    ((t.write k [.closeFunction]).onOutput fun b => b.set .subroutines).Follows
      { s with code := s.code ++ [.closeFunction] } := by
  refine ⟨by rw [← h.scan]; rfl, ?_, h.stack, h.matched⟩
  have hmain : Scan.inMain { s with code := s.code ++ [.closeFunction] } = false :=
    Scan.inMain_eq_false_iff.mpr List.mem_concat_self
  rw [Scan.body, hmain]
  rfl

theorem close (h : t.Follows s) : (t.close k).Follows (s.close k.env) := by
  unfold Translation.close
  rw [Scan.close_eq, Scan.code_closeCode, ← List.append_assoc]
  cases hmain : s.inMain with
  | true =>
    rw [if_pos (h.current_eq_main_iff.mpr hmain)]
    exact (h.conclude hmain).turn
  | false =>
    have hother : t.output.current ≠ .main := fun hcurrent => by
      simp [h.current_eq_main_iff.mp hcurrent] at hmain
    have hcolor : s.markColor k.env = s := by
      rw [Scan.markColor, hmain]
      rfl
    rw [if_neg hother, hcolor, if_neg Bool.false_ne_true, List.append_nil]
    exact h.turn

theorem constants_close (h : t.Follows s) : (t.close k).scan.constants = t.scan.constants := by
  rw [h.close.scan, Scan.close_eq, h.scan]

theorem generate (h : t.Follows s) (i : Instruction) :
    (t.generate k i).Follows (s.generate k.env i) := by
  unfold Translation.generate Scan.generate
  rw [h.scan]
  split
  · exact h
  · split
    · exact h.close
    next hret =>
      refine (h.emit fun hclose => hret ?_).define i
      exact Scan.opcode_of_frame _ hclose _ rfl

theorem execute (h : t.Follows s) (i : Instruction) :
    (t.execute k i).Follows (Scan.execute k.env s i) := by
  have hcode : ((Scan.judge k.env s i).charge i.opcode.info.slots).code = s.code :=
    (Scan.untouched_account k.env _ i).code.trans (by rw [Scan.failAll_eq])
  have hjudged := h.onScan (f := fun s => (Scan.judge k.env s i).charge i.opcode.info.slots) hcode
  exact (hjudged.generate i).onScan (f := fun s =>
    { s with
      pads := if i.opcode.closesMatrix then {} else s.pads
      previous := some i.opcode }) rfl

theorem readInstruction (h : t.Follows s) (op : Opcode) (w : InstructionWord) (ws : List Word) :
    (t.readInstruction k op w ws).1.Follows (Scan.readInstruction k.env s op w ws).1 ∧
      (t.readInstruction k op w ws).2 = (Scan.readInstruction k.env s op w ws).2 := by
  have hhigh : (s.failIf w.highBit .instructionHighBit).code = s.code := by
    rw [Scan.failIf_eq, Scan.failAll_eq]
  unfold Translation.readInstruction Scan.readInstruction
  rw [h.scan]
  dsimp only
  split
  · exact ⟨h.moveOn hhigh, rfl⟩
  · have hoperands : ((Scan.readOperands k.env op w ((s.failIf w.highBit .instructionHighBit).failAll
        (Scan.headFaults k.env op w)).advance ws).2.2.moveTo
          (s.failIf w.highBit .instructionHighBit).position).code = s.code :=
      ((Scan.fetches_operandState k.env s op w).readOperands k.env op w ws).code_eq
    have hexecuted := (h.moveOn hoperands).execute (k := k)
      (Scan.readOperands k.env op w ((s.failIf w.highBit .instructionHighBit).failAll
        (Scan.headFaults k.env op w)).advance ws).1
    rw [hexecuted.scan]
    refine ⟨hexecuted.moveOn ?_, rfl⟩
    rw [Scan.settleLength_fst, Scan.failAll_eq]

theorem readUnit (h : t.Follows s) (w : Word) (ws : List Word) :
    (t.readUnit k w ws).1.Follows (Scan.readUnit k.env s w ws).1 ∧
      (t.readUnit k w ws).2 = (Scan.readUnit k.env s w ws).2 := by
  have heffect := Scan.effect_readUnit k.env s w ws
  have hcode : (s.noteEnd w).code = s.code := by
    unfold Scan.noteEnd
    split <;> rfl
  unfold Translation.readUnit
  cases hhead : UnitHead.ofWord w with
  | instruction op fields =>
    rw [show Scan.readUnit k.env s w ws = Scan.readInstruction k.env s op fields ws by
      rw [Scan.readUnit, hhead]]
    exact h.readInstruction op fields ws
  | finish =>
    have hnoted := h.onScan (f := fun s =>
      { s with ended := true }.failIf (k.env.knownSize && !ws.isEmpty) .earlyEnd)
      (by rw [Scan.failIf_eq, Scan.failAll_eq])
    unfold Scan.readUnit
    rw [hhead]
    dsimp only
    rw [hnoted.scan]
    split
    · exact ⟨hnoted, rfl⟩
    · exact ⟨hnoted.close, rfl⟩
  | comment | phase | unknown =>
    -- nothing but instructions and the end mark has code
    rw [hhead] at heffect
    dsimp only
    rw [h.scan]
    refine ⟨h.moveOn ?_, rfl⟩
    rw [← hcode]
    generalize (Scan.readUnit k.env s w ws).1 = u at heffect ⊢
    cases heffect <;> rw [Scan.failAll_eq]

end Follows

/-! ### Units, one after another -/

def visit (k : Task) (t : Translation) (v : Visit) : Translation :=
  ((t.onScan fun s => s.startUnit (.word v.start)).readUnit k v.word v.rest).1

def afterUnits (k : Task) (vs : List Visit) : Translation := vs.foldl (visit k) (start k)

/-- What relates translation and state and is kept by every unit holds after each of them. -/
theorem visits_induction {R : Translation → Scan → Prop} {Q : Visit → Prop}
    (step : ∀ {t s n w ws}, R t s → Q (Scan.visit k.env s n w ws) →
      R (visit k t (Scan.visit k.env s n w ws)) (Scan.visit k.env s n w ws).after)
    (r : Scan.Run k.env s n ws vs u) (hvs : ∀ v ∈ vs, Q v) (h : R t s) (hsplit : vs = done ++ rest) :
    R (done.foldl (visit k) t) (done.foldl (fun _ v => v.after) s) := by
  induction r generalizing t done with
  | done s n =>
    obtain rfl : done = [] := (List.append_eq_nil_iff.mp hsplit.symm).1
    exact h
  | cut s n w ws | stop s n w ws =>
    cases done with
    | nil => exact h
    | cons v done =>
      obtain ⟨rfl, hnil⟩ := List.cons.inj hsplit
      obtain rfl : done = [] := (List.append_eq_nil_iff.mp hnil.symm).1
      exact step h (hvs _ List.mem_cons_self)
  | next s n w ws _ _ _ ih =>
    cases done with
    | nil => exact h
    | cons v done =>
      obtain ⟨rfl, hlater⟩ := List.cons.inj hsplit
      have hrest := ih (fun v hv => hvs v (List.mem_cons_of_mem _ hv))
        (step h (hvs _ List.mem_cons_self)) hlater
      exact hrest

theorem Follows.visit (h : t.Follows s) (n : Nat) (w : Word) (ws : List Word) :
    (visit k t (Scan.visit k.env s n w ws)).Follows (Scan.visit k.env s n w ws).after :=
  ((h.onScan (f := fun s => s.startUnit (.word n)) rfl).readUnit w ws).1

theorem Follows.visits (r : Scan.Run k.env s n ws vs u) (h : t.Follows s) (hsplit : vs = done ++ rest) :
    (done.foldl (Translation.visit k) t).Follows (done.foldl (fun _ v => v.after) s) :=
  visits_induction (Q := fun _ => True) (fun h _ => h.visit _ _ _) r (fun _ _ => trivial) h hsplit

theorem readUnits_eq (r : Scan.Run k.env s n ws vs u) (h : t.Follows s) :
    t.readUnits k n ws = ⟨u, (vs.foldl (visit k) t).output⟩ := by
  have hunit : ∀ {t : Translation} {s : Scan}, t.Follows s → ∀ n w ws,
      ((t.onScan fun s => s.startUnit (.word n)).readUnit k w ws).2 =
        (Scan.visit k.env s n w ws).length :=
    fun h n w ws => ((h.onScan (f := fun s => s.startUnit (.word n)) rfl).readUnit w ws).2
  induction r generalizing t with
  | done s n =>
    rw [readUnits, ← h.scan]
    rfl
  | cut s n w ws tooLong =>
    rw [readUnits]
    simp only [hunit h]
    refine (if_pos (Nat.lt_of_not_le tooLong)).trans ?_
    exact congrArg (Translation.mk · _) (congrArg Scan.cutOff (h.visit n w ws).scan)
  | stop s n w ws fits last =>
    rw [readUnits]
    simp only [hunit h]
    refine (if_neg (Nat.not_lt_of_le fits)).trans ((if_pos last).trans ?_)
    exact congrArg (Translation.mk · _) (h.visit n w ws).scan
  | next s n w ws fits more _ ih =>
    rw [readUnits]
    simp only [hunit h]
    refine (if_neg (Nat.not_lt_of_le fits)).trans ((if_neg more).trans ?_)
    exact ih (h.visit n w ws)

theorem follows_start (k : Task) : (start k).Follows (Scan.start k.env) := by
  have hcode : (Scan.start k.env).code = [] := by
    rw [Scan.start, Scan.failIf_eq, Scan.failAll_eq]
  have hmain : (Scan.start k.env).body = .main := by
    rw [Scan.body, Scan.inMain, hcode]
    rfl
  unfold start
  dsimp only
  split
  · exact ⟨rfl, hmain.symm, rfl, rfl⟩
  · exact ⟨rfl, hmain.symm, rfl, rfl⟩

end Translation

/-! ### Text -/

namespace Glsl

def functionEnd : List Layout := [.outdent, .line "\x7d", .blank]

theorem bodies_eq (o : Options) (sh : Shader) {main : List Stmt} (h : .closeFunction ∉ main)
    (rest : List Stmt) :
    bodies o sh (main ++ .closeFunction :: rest) =
      (main.flatMap (Stmt.layout sh) ++ epilogue o sh ++ functionEnd, rest.flatMap (Stmt.layout sh)) := by
  have hbefore : ∀ c ∈ main, (c != .closeFunction) = true := by
    intro c hc
    exact bne_iff_ne.mpr fun hclose => h (hclose ▸ hc)
  have hsplit : mainBody (main ++ .closeFunction :: rest) = (main, .closeFunction :: rest) := by
    rw [mainBody, List.span_eq_takeWhile_dropWhile, List.takeWhile_append_of_pos hbefore,
      List.dropWhile_append_of_pos hbefore]
    simp
  unfold bodies
  rw [hsplit]
  rfl

theorem bodies_append (o : Options) (sh : Shader) {code : List Stmt} (h : .closeFunction ∈ code)
    (more : List Stmt) :
    bodies o sh (code ++ more) =
      ((bodies o sh code).1, (bodies o sh code).2 ++ more.flatMap (Stmt.layout sh)) := by
  obtain ⟨main, rest, rfl, hmain⟩ := List.eq_append_cons_of_mem h
  rw [List.append_assoc, List.cons_append, bodies_eq o sh hmain, bodies_eq o sh hmain, List.flatMap_append]

theorem closing_cases (o : Options) (sh : Shader) :
    Scan.colorFromTemp sh = true ∧ epilogue o sh = [] ∨ Scan.colorFromTemp sh = false := by
  unfold Scan.colorFromTemp epilogue Shader.isPixel Shader.isVertex
  cases sh.stage <;> cases sh.atLeast 2 0 <;> simp

theorem Buffer.put_put (b : Buffer) (a c : List Layout) : (b.put a).put c = b.put (a ++ c) := by
  unfold Buffer.put
  rw [Layout.run_append]
  dsimp only
  congr 1
  funext x
  split <;> simp [String.append_assoc]

theorem Buffer.text_put_of_ne {b : Buffer} {x : Section} (h : x ≠ b.current) (steps : List Layout) :
    (b.put steps).text x = b.text x := if_neg h

theorem Buffer.text_put_current (b : Buffer) (steps : List Layout) :
    (b.put steps).text b.current = b.text b.current ++ (Layout.run steps b.depth).1 := if_pos rfl

theorem Layout.run_helpers_snd (hs : List Helper) : (Layout.run (hs.flatMap Helper.layout) 0).2 = 0 := by
  induction hs with
  | nil => rfl
  | cons h hs ih =>
    have hlevel : (Layout.run h.layout 0).2 = 0 := by
      cases h <;> rfl
    rw [List.flatMap_cons, Layout.run_append, hlevel, ih]

end Glsl

namespace Task

variable (k : Task)

/-- The start of a program that asks for the given helpers. -/
def head (helpers : List Helper) : List Layout :=
  Layout.lines (k.profile.versionLines k.shader)
    ++ if helpers.contains .textureLevels then
      Layout.lines (levelLines k.profile k.shader) ++ [.blank]
    else []

def opening : List Layout := [.line ("void " ++ k.options.entryPoint ++ "()"), .line "\x7b"]

/-- The rest of the entry point, and the subroutines, as far as there is code. -/
def functions (code : List Stmt) : List Layout × List Layout :=
  if .closeFunction ∈ code then bodies k.options k.shader code
  else (code.flatMap (Stmt.layout k.shader), [])

variable {k}

theorem functions_open {code : List Stmt} (h : .closeFunction ∉ code) :
    k.functions code = (code.flatMap (Stmt.layout k.shader), []) := if_neg h

theorem functions_append {code : List Stmt} (h : .closeFunction ∈ code) (more : List Stmt) :
    k.functions (code ++ more) =
      ((k.functions code).1, (k.functions code).2 ++ more.flatMap (Stmt.layout k.shader)) := by
  rw [functions, if_pos (List.mem_append_left _ h), functions, if_pos h, bodies_append _ _ h]

theorem functions_close {code : List Stmt} (h : .closeFunction ∉ code) :
    k.functions (code ++ [.closeFunction]) =
      (code.flatMap (Stmt.layout k.shader) ++ epilogue k.options k.shader ++ functionEnd, []) := by
  rw [functions, if_pos List.mem_concat_self]
  exact bodies_eq _ _ h []

end Task

structure Scan.Quiet (s t : Scan) : Prop where
  code : t.code = s.code
  helpers : t.helpers = s.helpers
  constants : t.constants = s.constants

theorem Scan.Quiet.failAll {s t : Scan} (h : s.Quiet t) (fs : List Fault) : s.Quiet (t.failAll fs) := by
  rw [failAll_eq]
  exact ⟨h.code, h.helpers, h.constants⟩

theorem Scan.Fetches.quiet {s t : Scan} (h : s.Fetches t) : s.Quiet t := by
  rw [h.frame]
  exact ⟨rfl, rfl, rfl⟩

namespace Translation

variable {t : Translation} {s : Scan} {k : Task} {cs : List Constant}

/-- The text is that of the code so far, of the helpers asked for and of the constants `cs`. -/
structure Written (k : Task) (cs : List Constant) (t : Translation) : Prop where
  preface : t.output.text .preface = (Layout.run (k.head t.scan.helpers) 0).1
  globals : t.output.text .globals = (Layout.run (k.declLayout (cs.map .literal)) 0).1
  helpers : t.output.text .helpers = (Layout.run (t.scan.helpers.flatMap Helper.layout) 0).1
  intro : t.output.text .intro = (Layout.run k.opening 0).1
  main : t.output.text .main = (Layout.run (k.functions t.scan.code).1 1).1
  subroutines : t.output.text .subroutines =
    (Layout.run (k.functions t.scan.code).2 (Layout.run (k.functions t.scan.code).1 1).2).1
  depth : t.output.depth =
    (Layout.run (k.functions t.scan.code).2 (Layout.run (k.functions t.scan.code).1 1).2).2

namespace Written

theorem congr (h : t.Written k cs) {s' : Scan} (hcode : s'.code = t.scan.code)
    (hhelpers : s'.helpers = t.scan.helpers) : Written k cs { t with scan := s' } := by
  obtain ⟨hpreface, hglobals, hhelper, hintro, hmain, hsubroutines, hdepth⟩ := h
  rw [← hcode] at hmain hsubroutines hdepth
  rw [← hhelpers] at hpreface hhelper
  exact ⟨hpreface, hglobals, hhelper, hintro, hmain, hsubroutines, hdepth⟩

theorem moveOn (h : t.Written k t.scan.constants) {s' : Scan} (hquiet : t.scan.Quiet s') :
    Written k s'.constants { t with scan := s' } :=
  hquiet.constants ▸ h.congr hquiet.code hquiet.helpers

theorem require (h : t.Written k cs) (x : Helper) : (t.require k x).Written k cs := by
  unfold Translation.require
  split
  · exact h
  next hnew =>
    have hadd : addHelper t.scan.helpers x = t.scan.helpers ++ [x] := if_neg hnew
    have hlayout : (Layout.run ((t.scan.helpers ++ [x]).flatMap Helper.layout) 0).1 =
        t.output.text .helpers ++ (Layout.run x.layout 0).1 := by
      rw [List.flatMap_append, Layout.run_append, Layout.run_helpers_snd, List.flatMap_singleton, h.helpers]
    -- only the names of lookups stand in the preface
    have hhead : x ≠ .textureLevels → k.head (t.scan.helpers ++ [x]) = k.head t.scan.helpers := by
      intro hx
      unfold Task.head
      rw [show (t.scan.helpers ++ [x]).contains .textureLevels = t.scan.helpers.contains .textureLevels by
        simp [Ne.symm hx]]
    cases x with
    | largest =>
      refine ⟨?_, h.globals, ?_, h.intro, h.main, h.subroutines, h.depth⟩
      · show t.output.text .preface = (Layout.run (k.head (addHelper t.scan.helpers .largest)) 0).1
        rw [hadd, hhead (by decide), h.preface]
      · show t.output.text .helpers = (Layout.run ((addHelper t.scan.helpers .largest).flatMap _) 0).1
        rw [hadd, hlayout]
        exact String.append_empty.symm
    | lighting | reflection =>
      refine ⟨?_, h.globals, ?_, h.intro, h.main, h.subroutines, h.depth⟩
      · show t.output.text .preface = (Layout.run (k.head (addHelper t.scan.helpers _)) 0).1
        rw [hadd, hhead (by decide), h.preface]
      · show _ = (Layout.run ((addHelper t.scan.helpers _).flatMap _) 0).1
        rw [hadd, hlayout]
        rfl
    | textureLevels =>
      refine ⟨?_, h.globals, ?_, h.intro, h.main, h.subroutines, h.depth⟩
      · show t.output.text .preface ++ (Layout.run (Layout.lines _ ++ [.blank]) 0).1 =
          (Layout.run (k.head (addHelper t.scan.helpers .textureLevels)) 0).1
        rw [hadd, h.preface, Task.head, Task.head, if_neg hnew, if_pos (by simp), List.append_nil,
          Layout.run_append (Layout.lines (k.profile.versionLines k.shader)), Layout.run_lines]
      · show t.output.text .helpers =
          (Layout.run ((addHelper t.scan.helpers .textureLevels).flatMap _) 0).1
        rw [hadd, hlayout]
        exact String.append_empty.symm

theorem requireAll (h : t.Written k cs) (xs : List Helper) :
    (xs.foldl (Translation.require k) t).Written k cs := by
  induction xs generalizing t with
  | nil => exact h
  | cons x xs ih => exact ih (h.require x)

theorem put (h : t.Written k cs) (steps : List Layout) (s' : Scan)
    (hhelpers : s'.helpers = t.scan.helpers)
    (hgrown : t.output.current = .main ∧ (k.functions t.scan.code).2 = [] ∧
        k.functions s'.code = ((k.functions t.scan.code).1 ++ steps, []) ∨
      t.output.current = .subroutines ∧
        k.functions s'.code = ((k.functions t.scan.code).1, (k.functions t.scan.code).2 ++ steps)) :
    Written k cs ⟨s', t.output.put steps⟩ := by
  have hother : ∀ x, x ≠ .main → x ≠ .subroutines → (t.output.put steps).text x = t.output.text x := by
    intro x hmain hsubroutines
    refine Buffer.text_put_of_ne ?_ steps
    rcases hgrown with ⟨hcurrent, -⟩ | ⟨hcurrent, -⟩
    · rwa [hcurrent]
    · rwa [hcurrent]
  have hdepth := h.depth
  have hsubroutines := h.subroutines
  constructor
  -- code only goes to the two buffers of functions
  case preface => rw [hother .preface (by decide) (by decide), h.preface, hhelpers]
  case globals => rw [hother .globals (by decide) (by decide), h.globals]
  case helpers => rw [hother .helpers (by decide) (by decide), h.helpers, hhelpers]
  case intro => rw [hother .intro (by decide) (by decide), h.intro]
  all_goals rcases hgrown with ⟨hcurrent, hnone, hcode⟩ | ⟨hcurrent, hcode⟩
  case main.inl =>
    -- no subroutine is open, so the depth is that of `main`
    rw [hnone] at hdepth
    have htext := t.output.text_put_current steps
    rw [hcurrent, hdepth, h.main] at htext
    rw [hcode, Layout.run_append]
    exact htext
  case main.inr =>
    rw [Buffer.text_put_of_ne (by rw [hcurrent]; decide), hcode]
    exact h.main
  case subroutines.inl =>
    rw [hnone] at hsubroutines
    rw [Buffer.text_put_of_ne (by rw [hcurrent]; decide), hcode]
    exact hsubroutines
  case subroutines.inr =>
    -- here it is that of the subroutines
    have htext := t.output.text_put_current steps
    rw [hcurrent, hdepth, hsubroutines] at htext
    rw [hcode, Layout.run_append]
    exact htext
  case depth.inl =>
    rw [hnone] at hdepth
    show (Layout.run steps t.output.depth).2 = _
    rw [hcode, Layout.run_append, hdepth]
    rfl
  case depth.inr =>
    show (Layout.run steps t.output.depth).2 = _
    rw [hcode, Layout.run_append, hdepth]

theorem cases_current (hfollows : t.Follows s) :
    t.output.current = .main ∧ .closeFunction ∉ t.scan.code ∨
      t.output.current = .subroutines ∧ .closeFunction ∈ t.scan.code := by
  have hcurrent := hfollows.current
  rw [← hfollows.scan, Scan.body] at hcurrent
  cases hmain : t.scan.inMain with
  | true =>
    rw [hmain] at hcurrent
    refine .inl ⟨hcurrent, fun hmem => ?_⟩
    rw [Scan.inMain_eq_false_iff.mpr hmem] at hmain
    cases hmain
  | false =>
    rw [hmain] at hcurrent
    exact .inr ⟨hcurrent, Scan.inMain_eq_false_iff.mp hmain⟩

theorem write (h : t.Written k cs) (hfollows : t.Follows s) {code : List Stmt}
    (inside : .closeFunction ∉ code) : (t.write k code).Written k cs := by
  refine h.put _ { t.scan with code := t.scan.code ++ code } rfl ?_
  rcases cases_current hfollows with ⟨hcurrent, hopen⟩ | ⟨hcurrent, hclosed⟩
  · refine .inl ⟨hcurrent, by rw [Task.functions_open hopen], ?_⟩
    rw [Task.functions_open hopen, Task.functions_open (by simp [hopen, inside]), List.flatMap_append]
  · exact .inr ⟨hcurrent, Task.functions_append hclosed code⟩

theorem emit (h : t.Written k cs) (hfollows : t.Follows s) {e : Emission Unit}
    (inside : .closeFunction ∉ e.code) : (t.emit k e).Written k cs := by
  have hquiet : ∀ u : Scan, u.Quiet (u.failAll e.faults) := fun u => (Scan.Fetches.failAll .refl _).quiet
  exact ((h.requireAll e.helpers).write (hfollows.requireAll e.helpers) inside).congr (hquiet _).code
    (hquiet _).helpers

theorem define (h : t.Written k cs) (i : Instruction) :
    (t.define k i).Written k (cs ++ i.constant?.toList) := by
  unfold Translation.define
  cases i.constant? with
  | none => exact (List.append_nil cs).symm ▸ h
  | some c =>
    refine ⟨h.preface, ?_, h.helpers, h.intro, h.main, h.subroutines, h.depth⟩
    show t.output.text .globals ++ (Layout.run (k.declLayout [.literal c]) 0).1 = _
    rw [h.globals, Option.toList_some, List.map_append, Task.declLayout, Task.declLayout, Task.declLayout,
      List.flatMap_append]
    simp only [Layout.run_lines, unlines_append]
    rfl

end Written

/-- What is laid out at the end of the entry point, the brace apart. -/
def closing (k : Task) : List Layout :=
  (Scan.closingCode k.shader).flatMap (Stmt.layout k.shader) ++ epilogue k.options k.shader

theorem output_close_main (k : Task) (h : t.output.current = .main) :
    (t.close k).output = (t.output.put (closing k ++ functionEnd)).set .subroutines := by
  rw [← Buffer.put_put]
  unfold Translation.close Translation.conclude closing Scan.closingCode
  rw [if_pos h]
  rcases closing_cases k.options k.shader with ⟨hcolor, hnone⟩ | hcolor
  · rw [if_pos hcolor, if_pos hcolor, hnone, List.append_nil]
    rfl
  · rw [hcolor]
    rfl

theorem output_close_subroutine (k : Task) (h : t.output.current = .subroutines) :
    (t.close k).output = t.output.put functionEnd := by
  have hother : t.output.current ≠ .main := by
    rw [h]
    decide
  unfold Translation.close
  rw [if_neg hother]
  show (t.output.put functionEnd).set .subroutines = _
  rw [← h]
  rfl

namespace Written

theorem close (h : t.Written k cs) (hfollows : t.Follows s) : (t.close k).Written k cs := by
  have hscan : (t.close k).scan = t.scan.close k.env := by
    rw [hfollows.close.scan, hfollows.scan]
  have hcode : (t.close k).scan.code = t.scan.code
      ++ (if t.scan.inMain then Scan.closingCode k.shader else []) ++ [.closeFunction] := by
    rw [hscan, Scan.close_eq, Scan.code_closeCode, ← List.append_assoc]
    rfl
  have hhelpers : (t.close k).scan.helpers = t.scan.helpers := by
    rw [hscan, Scan.close_eq]
  rcases cases_current hfollows with ⟨hcurrent, hopen⟩ | ⟨hcurrent, hclosed⟩
  · have hclosing : .closeFunction ∉ t.scan.code ++ Scan.closingCode k.shader := by
      unfold Scan.closingCode
      split <;> simp [hopen, Scan.copyColor]
    have hmain : t.scan.inMain = true := by
      rw [← Bool.not_eq_false, Scan.inMain_eq_false_iff]
      exact hopen
    rw [hmain, if_pos rfl] at hcode
    have hput := h.put (closing k ++ functionEnd) _ hhelpers (.inl ⟨hcurrent,
      by rw [Task.functions_open hopen], by
        rw [hcode, Task.functions_close hclosing, Task.functions_open hopen, List.flatMap_append, closing]
        simp only [List.append_assoc]⟩)
    have hsame : t.close k = ⟨(t.close k).scan, (t.output.put (closing k ++ functionEnd)).set .subroutines⟩ :=
      congrArg (Translation.mk _) (output_close_main k hcurrent)
    rw [hsame]
    exact ⟨hput.preface, hput.globals, hput.helpers, hput.intro, hput.main, hput.subroutines, hput.depth⟩
  · have hmain : t.scan.inMain = false := Scan.inMain_eq_false_iff.mpr hclosed
    rw [hmain, if_neg Bool.false_ne_true, List.append_nil] at hcode
    have hput := h.put functionEnd _ hhelpers (.inr ⟨hcurrent, by
      rw [hcode, Task.functions_append hclosed]
      rfl⟩)
    have hsame : t.close k = ⟨(t.close k).scan, t.output.put functionEnd⟩ :=
      congrArg (Translation.mk _) (output_close_subroutine k hcurrent)
    rw [hsame]
    exact hput

/-- The code of an instruction that nothing is wrong with, and the constant that it defines. -/
theorem execute (h : t.Written k t.scan.constants) (hfollows : t.Follows s) {i : Instruction}
    (flag : (t.execute k i).scan.failing = false) :
    (t.execute k i).Written k (t.execute k i).scan.constants := by
  have hexecute := hfollows.execute (k := k) i
  obtain rfl := hfollows.scan
  rw [hexecute.scan] at flag ⊢
  -- the flag was down when the code was written
  have hjudge := (Scan.moves_judge_execute k.env t.scan i).records.flag flag
  have huntouched := Scan.untouched_account k.env (t.scan.failAll (Scan.violations k.env t.scan i)) i
  have hlegal := Scan.legal_of_execute flag
  rw [hlegal] at huntouched
  have haccount : Scan.judge k.env t.scan i = Scan.account k.env t.scan i := by
    rw [Scan.judge, hlegal]
    rfl
  have hcode : ((Scan.judge k.env t.scan i).charge i.opcode.info.slots).code = t.scan.code := by
    rw [haccount]
    exact huntouched.code
  have hhelpers : ((Scan.judge k.env t.scan i).charge i.opcode.info.slots).helpers = t.scan.helpers := by
    rw [haccount]
    exact huntouched.helpers
  have hfollows' := hfollows.moveOn hcode
  have hwritten := h.congr hcode hhelpers
  have hdown : ((Scan.judge k.env t.scan i).charge i.opcode.info.slots).failing = false := hjudge
  rw [Scan.constants_execute hlegal]
  refine congr (t := Translation.generate k _ i) ?_ rfl rfl
  show Written k _ (Translation.generate k ⟨(Scan.judge k.env t.scan i).charge i.opcode.info.slots, _⟩ i)
  unfold Translation.generate
  rw [if_neg (Bool.eq_false_iff.mp hdown)]
  split
  next hret =>
    have hnone : i.constant? = none := by
      rw [Instruction.constant?, hret]
    rw [hnone, Option.toList_none, List.append_nil]
    exact hwritten.close hfollows'
  next hret =>
    exact (hwritten.emit hfollows' fun hclose => hret (Scan.opcode_of_frame _ hclose _ rfl)).define i

theorem readInstruction (h : t.Written k t.scan.constants) (hfollows : t.Follows s) {op : Opcode}
    {w : InstructionWord} {ws : List Word} (flag : (t.readInstruction k op w ws).1.scan.failing = false) :
    (t.readInstruction k op w ws).1.Written k (t.readInstruction k op w ws).1.scan.constants := by
  obtain rfl := hfollows.scan
  unfold Translation.readInstruction at flag ⊢
  cases hreserved : op.isReserved with
  | true =>
    rw [hreserved] at flag
    cases flag
  | false =>
    rw [hreserved] at flag
    dsimp only at flag ⊢
    rw [if_neg Bool.false_ne_true] at flag ⊢
    have hfetches := (Scan.fetches_operandState k.env t.scan op w).readOperands k.env op w ws
    unfold Scan.operandState at hfetches
    generalize Scan.readOperands k.env op w _ ws = operands at flag hfetches ⊢
    obtain ⟨i, count, u⟩ := operands
    generalize (t.scan.failIf w.highBit .instructionHighBit).position = p at flag ⊢
    have hquiet : t.scan.Quiet (u.moveTo p) := Scan.Fetches.quiet (hfetches.tail (.moveTo u p))
    dsimp only at flag ⊢
    rw [Scan.settleLength_fst] at flag ⊢
    have hflag : (Translation.execute k ⟨u.moveTo p, t.output⟩ i).scan.failing = false :=
      (Scan.Fetches.failAll .refl _).records.flag flag
    have hexecuted := (h.moveOn hquiet).execute (hfollows.moveOn hquiet.code) hflag
    exact hexecuted.moveOn (Scan.Fetches.failAll .refl _).quiet

theorem readUnit (h : t.Written k t.scan.constants) (hfollows : t.Follows s) {w : Word} {ws : List Word}
    (flag : (t.readUnit k w ws).1.scan.failing = false) :
    (t.readUnit k w ws).1.Written k (t.readUnit k w ws).1.scan.constants := by
  obtain rfl := hfollows.scan
  unfold Translation.readUnit at flag ⊢
  cases hhead : UnitHead.ofWord w with
  | instruction op fields =>
    rw [hhead] at flag
    exact h.readInstruction hfollows flag
  | finish =>
    rw [hhead] at flag
    have hquiet : t.scan.Quiet
        (Scan.failIf { t.scan with ended := true } (k.env.knownSize && !ws.isEmpty) .earlyEnd) := by
      have hended : t.scan.Quiet { t.scan with ended := true } := ⟨rfl, rfl, rfl⟩
      rw [Scan.failIf_eq]
      exact hended.failAll _
    have hnoted := h.moveOn hquiet
    have hfollows' := hfollows.moveOn hquiet.code
    dsimp only
    split
    · exact hnoted
    · have hclosed := hnoted.close hfollows'
      rw [← hfollows'.constants_close (k := k)] at hclosed
      exact hclosed
  | comment | phase | unknown =>
    have heffect := Scan.effect_readUnit k.env t.scan w ws
    rw [hhead, Scan.noteEnd_of_ne t.scan hhead (by simp)] at heffect
    have hquiet : t.scan.Quiet (Scan.readUnit k.env t.scan w ws).1 := by
      generalize (Scan.readUnit k.env t.scan w ws).1 = u at heffect ⊢
      cases heffect <;> rw [Scan.failAll_eq] <;> exact ⟨rfl, rfl, rfl⟩
    exact h.moveOn hquiet

theorem visit (h : t.Written k s.constants) (hfollows : t.Follows s) {n : Nat} {w : Word} {ws : List Word}
    (flag : (Scan.visit k.env s n w ws).after.failing = false) :
    (visit k t (Scan.visit k.env s n w ws)).Written k (Scan.visit k.env s n w ws).after.constants := by
  have hstarted := hfollows.onScan (f := fun s => s.startUnit (.word n)) rfl
  have hunit := (hstarted.readUnit (k := k) w ws).1
  have hwritten : Written k _ (t.onScan fun s => s.startUnit (.word n)) :=
    (hfollows.scan ▸ h).moveOn ⟨rfl, rfl, rfl⟩
  have hafter := hwritten.readUnit hstarted ((congrArg Scan.failing hunit.scan).trans flag)
  rw [hunit.scan] at hafter
  exact hafter

theorem visits {n : Nat} {ws : List Word} {vs done rest : List Visit} {u : Scan}
    (r : Scan.Run k.env s n ws vs u) (flags : ∀ v ∈ vs, v.after.failing = false) (hfollows : t.Follows s)
    (h : t.Written k s.constants) (hsplit : vs = done ++ rest) :
    (done.foldl (Translation.visit k) t).Written k (done.foldl (fun _ v => v.after) s).constants :=
  (visits_induction (R := fun t s => t.Follows s ∧ t.Written k s.constants)
    (fun h flag => ⟨h.1.visit _ _ _, h.2.visit h.1 flag⟩) r flags ⟨hfollows, h⟩ hsplit).2

end Written

theorem written_start (flag : (Scan.start k.env).failing = false) : (start k).Written k [] := by
  unfold start
  dsimp only
  rw [if_neg (Bool.eq_false_iff.mp flag)]
  have hstart : Scan.start k.env = { position := .before } := by
    unfold Scan.start at flag ⊢
    rw [Scan.failIf_eq] at flag ⊢
    rw [Scan.eq_nil_of_failAll flag]
    rfl
  rw [hstart]
  constructor
  case preface => exact congrArg (fun x => (Layout.run x 0).1) (List.append_nil _).symm
  all_goals rfl

end Translation

end ShaderLift
