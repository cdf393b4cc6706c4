/-
How blocks nest.  A loop, a repetition or a conditional is to be closed by an instruction of its own kind
before anything around it is closed, in the function that it was opened in.  Here this is said with a
stack of the blocks that are open (`nest`), and the first place where code goes against it is a `Misfit`.

Reading keeps no such stack.  It counts the blocks of each kind, so it can tell that there is nothing to
close, but neither that something else has to be closed first nor that a conditional has its alternative
already.  At the end of a function it looks at loops and repetitions, and at the end mark at nothing.  So
what is read without a fault nests, or its first misfit is one of these (`Misfit.Overlooked`).
-/
import Mathlib.Data.List.Basic
import ShaderLift.Proofs.Code
import ShaderLift.Proofs.Execution

namespace ShaderLift

open Glsl

variable {kind : Block → Bool} (vs : List Visit) {blocks : List Block} {op : Opcode} {v : Visit}
  {inner : List Block}

/-! ### Blocks -/

/-- What code can open.  A conditional may have its alternative already. -/
inductive Block where
  | loop
  | rep
  | cond (alternative : Bool)
  deriving Repr, DecidableEq

namespace Block

def isLoop : Block → Bool
  | .loop => true
  | _ => false

def isRep : Block → Bool
  | .rep => true
  | _ => false

def isCond : Block → Bool
  | .cond _ => true
  | _ => false

def braces : Block → Nat
  | .loop => 2
  | .rep | .cond _ => 1

end Block

inductive Misfit where
  /-- No block is open of the kind that is closed or given an alternative. -/
  | unmatched
  /-- One is open, but another kind of block is open inside of it. -/
  | crossed
  /-- The conditional has its alternative already. -/
  | repeated
  /-- A function ends while these blocks are open. -/
  | openAtReturn (blocks : List Block)
  /-- The code ends while these blocks are open. -/
  | openAtEnd (blocks : List Block)
  deriving Repr, DecidableEq

/-- The innermost block, which has to be of some kind, and those around it. -/
def innermost (kind : Block → Bool) : List Block → Except Misfit (Block × List Block)
  | [] => .error .unmatched
  | b :: outer =>
    if kind b then .ok (b, outer)
    else if outer.any kind then .error .crossed
    else .error .unmatched

/-- The blocks that are open after an instruction, innermost first. -/
def nest (blocks : List Block) : Opcode → Except Misfit (List Block)
  | .loop => .ok (.loop :: blocks)
  | .rep => .ok (.rep :: blocks)
  | .ifBool | .ifCompare => .ok (.cond false :: blocks)
  | .otherwise =>
    match innermost Block.isCond blocks with
    | .error m => .error m
    | .ok (b, outer) => if b = .cond true then .error .repeated else .ok (.cond true :: outer)
  | .endLoop => (innermost Block.isLoop blocks).map Prod.snd
  | .endRep => (innermost Block.isRep blocks).map Prod.snd
  | .endIf => (innermost Block.isCond blocks).map Prod.snd
  | _ => .ok blocks

/-- The body of a function nests: each instruction fits, and in the end nothing is open. -/
def Nested (body : List Opcode) : Prop := body.foldlM nest [] = .ok []

/-- The first misfit of code that starts with some blocks open. -/
def misfit? (blocks : List Block) : List Opcode → Option Misfit
  | [] => if blocks = [] then none else some (.openAtEnd blocks)
  | op :: ops =>
    if op = .ret then
      if blocks = [] then misfit? [] ops else some (.openAtReturn blocks)
    else
      match nest blocks op with
      | .error m => some m
      | .ok inner => misfit? inner ops

/-! ### Functions -/

namespace Visit

def opcode? (v : Visit) : Option Opcode := v.instruction?.map Instruction.opcode

end Visit

def opcodes (vs : List Visit) : List Opcode := vs.filterMap Visit.opcode?

/-- The units of the entry point and those of each further function, without the instruction that ends a
function. -/
def splitFunctions : List Visit → List Visit × List (List Visit)
  | [] => ([], [])
  | v :: vs =>
    let (body, others) := splitFunctions vs
    if v.opcode? = some .ret then ([], body :: others) else (v :: body, others)

def functionBodies (vs : List Visit) : List (List Visit) :=
  (splitFunctions vs).1 :: (splitFunctions vs).2

theorem opcodes_cons (v : Visit) (vs : List Visit) :
    opcodes (v :: vs) = v.opcode?.toList ++ opcodes vs := by
  cases h : v.opcode? <;> simp [opcodes, h]

theorem splitFunctions_cons_ret (h : v.opcode? = some .ret) (vs : List Visit) :
    splitFunctions (v :: vs) = ([], functionBodies vs) := by
  simp [splitFunctions, functionBodies, h]

theorem splitFunctions_cons (h : v.opcode? ≠ some .ret) (vs : List Visit) :
    splitFunctions (v :: vs) = (v :: (splitFunctions vs).1, (splitFunctions vs).2) := by
  simp [splitFunctions, h]

theorem misfit?_eq_none_iff (blocks : List Block) :
    misfit? blocks (opcodes vs) = none ↔
      (opcodes (splitFunctions vs).1).foldlM nest blocks = .ok [] ∧
        ∀ body ∈ (splitFunctions vs).2, Nested (opcodes body) := by
  induction vs generalizing blocks with
  | nil =>
    have hfold : (opcodes (splitFunctions []).1).foldlM nest blocks = .ok blocks := rfl
    rw [hfold]
    by_cases hb : blocks = []
    · simp [hb, misfit?, opcodes, splitFunctions]
    · simp [hb, misfit?, opcodes]
  | cons v vs ih =>
    by_cases hret : v.opcode? = some .ret
    · rw [splitFunctions_cons_ret hret, opcodes_cons, hret]
      show (if blocks = [] then misfit? [] (opcodes vs) else some (.openAtReturn blocks)) = none ↔
        (Except.ok blocks : Except Misfit (List Block)) = .ok [] ∧ _
      by_cases hb : blocks = []
      · simp [hb, ih, functionBodies, Nested]
      · simp [hb]
    · rw [splitFunctions_cons hret, opcodes_cons, opcodes_cons]
      cases hop : v.opcode? with
      | none => exact ih blocks
      | some op =>
        have hne : op ≠ .ret := fun h => hret (hop.trans (congrArg some h))
        show misfit? blocks (op :: opcodes vs) = none ↔
          (nest blocks op).bind ((opcodes (splitFunctions vs).1).foldlM nest) = .ok [] ∧ _
        rw [misfit?, if_neg hne]
        cases hnest : nest blocks op with
        | error m => simp [Except.bind]
        | ok inner => exact ih inner

theorem misfit?_nil_eq_none_iff :
    misfit? [] (opcodes vs) = none ↔ ∀ body ∈ functionBodies vs, Nested (opcodes body) := by
  rw [misfit?_eq_none_iff, functionBodies, List.forall_mem_cons]
  rfl

/-! ### What counting tells -/

namespace Block

def depths (blocks : List Block) : Scan.Depths :=
  ⟨blocks.countP isLoop, blocks.countP isRep, blocks.countP isCond⟩

def deepen : Block → Scan.Depths → Scan.Depths
  | .loop, d => { d with loops := d.loops + 1 }
  | .rep, d => { d with reps := d.reps + 1 }
  | .cond _, d => { d with conds := d.conds + 1 }

theorem depths_cons (b : Block) (blocks : List Block) :
    depths (b :: blocks) = b.deepen (depths blocks) := by
  cases b <;> simp [depths, deepen, List.countP_cons, isLoop, isRep, isCond]

end Block

namespace Opcode

/-- How an instruction changes the number of open blocks. -/
def deepen (op : Opcode) (d : Scan.Depths) : Scan.Depths :=
  match op with
  | .loop => { d with loops := d.loops + 1 }
  | .endLoop => { d with loops := d.loops - 1 }
  | .rep => { d with reps := d.reps + 1 }
  | .endRep => { d with reps := d.reps - 1 }
  | .ifBool | .ifCompare => { d with conds := d.conds + 1 }
  | .endIf => { d with conds := d.conds - 1 }
  | _ => d

/-- What the numbers of open blocks have to be at an instruction. -/
def Allowed (op : Opcode) (d : Scan.Depths) : Prop :=
  match op with
  | .endLoop => d.loops ≠ 0
  | .endRep => d.reps ≠ 0
  | .otherwise | .endIf => d.conds ≠ 0
  | .ret => d.loops = 0 ∧ d.reps = 0
  | _ => True

end Opcode

/-- Every instruction is allowed where it stands, as far as the numbers of open blocks go. -/
def Counted (d : Scan.Depths) : List Opcode → Prop
  | [] => True
  | op :: ops => op.Allowed d ∧ Counted (op.deepen d) ops

namespace Misfit

/-- The misfits that counting does not find. -/
def Overlooked : Misfit → Prop
  | .unmatched => False
  | .crossed | .repeated | .openAtEnd _ => True
  | .openAtReturn blocks => ∀ b ∈ blocks, b.isCond = true

end Misfit

/-- If a block of the kind is open, the innermost block is one, or the misfit is overlooked. -/
theorem innermost_of_countP (h : blocks.countP kind ≠ 0) :
    (∃ b outer, blocks = b :: outer ∧ kind b = true ∧ innermost kind blocks = .ok (b, outer)) ∨
      innermost kind blocks = .error .crossed := by
  cases blocks with
  | nil => exact absurd rfl h
  | cons b outer =>
    cases hb : kind b with
    | true => exact .inl ⟨b, outer, rfl, hb, by simp [innermost, hb]⟩
    | false =>
      rw [List.countP_cons_of_neg (by simp [hb])] at h
      have hany : outer.any kind = true := by
        rw [List.any_eq_true]
        simpa [List.countP_eq_zero] using h
      exact .inr (by simp [innermost, hb, hany])

theorem nest_close (hnest : nest blocks op = (innermost kind blocks).map Prod.snd)
    (hdeepen : ∀ b d, kind b = true → op.deepen (b.deepen d) = d) (h : blocks.countP kind ≠ 0) :
    (∃ inner, nest blocks op = .ok inner ∧ Block.depths inner = op.deepen (Block.depths blocks)) ∨
      ∃ m, nest blocks op = .error m ∧ m.Overlooked := by
  rw [hnest]
  rcases innermost_of_countP h with ⟨b, outer, rfl, hb, hok⟩ | hcrossed
  · rw [hok]
    refine .inl ⟨outer, rfl, ?_⟩
    rw [Block.depths_cons, hdeepen b _ hb]
  · rw [hcrossed]
    exact .inr ⟨.crossed, rfl, trivial⟩

/-- An instruction that is allowed changes the blocks as it changes their numbers, unless it is a misfit
that counting does not find. -/
theorem nest_of_allowed (h : op.Allowed (Block.depths blocks)) :
    (∃ inner, nest blocks op = .ok inner ∧ Block.depths inner = op.deepen (Block.depths blocks)) ∨
      ∃ m, nest blocks op = .error m ∧ m.Overlooked := by
  cases op with
  | loop | rep | ifBool | ifCompare =>
    exact .inl ⟨_, rfl, Block.depths_cons _ blocks⟩
  | endLoop | endRep | endIf =>
    refine nest_close rfl ?_ h
    rintro (_ | _ | _) d hb <;> first | rfl | cases hb
  | otherwise =>
    rcases innermost_of_countP h with ⟨b, outer, rfl, hb, hok⟩ | hcrossed
    · cases b with
      | loop | rep => cases hb
      | cond alternative =>
        cases alternative with
        | true => exact .inr ⟨.repeated, by simp [nest, hok], trivial⟩
        | false =>
          refine .inl ⟨.cond true :: outer, by simp [nest, hok], ?_⟩
          rw [Block.depths_cons, Block.depths_cons]
          rfl
    · exact .inr ⟨.crossed, by simp [nest, hcrossed], trivial⟩
  | _ => exact .inl ⟨blocks, rfl, rfl⟩

theorem overlooked_of_counted {ops : List Opcode} {m : Misfit} (h : Counted (Block.depths blocks) ops)
    (hm : misfit? blocks ops = some m) : m.Overlooked := by
  induction ops generalizing blocks with
  | nil =>
    rw [misfit?] at hm
    split at hm
    · cases hm
    · -- what is still open at the end is not looked at
      cases hm
      trivial
  | cons op ops ih =>
    obtain ⟨hallowed, hrest⟩ := h
    rw [misfit?] at hm
    split at hm
    next hret =>
      subst hret
      split at hm
      next hnil =>
        subst hnil
        exact ih hrest hm
      next =>
        cases hm
        -- a return counts loops and repetitions, but no conditions
        obtain ⟨hloops, hreps⟩ := hallowed
        intro b hb
        have hloop := List.countP_eq_zero.mp hloops b hb
        have hrep := List.countP_eq_zero.mp hreps b hb
        cases b <;> simp_all [Block.isLoop, Block.isRep, Block.isCond]
    next =>
      rcases nest_of_allowed hallowed with ⟨inner, hok, hdepths⟩ | ⟨m', herror, hm'⟩
      · rw [hok] at hm
        exact ih (hdepths ▸ hrest) hm
      · rw [herror] at hm
        cases hm
        exact hm'

/-! ### Counting along a run -/

namespace Scan

variable {env : Env} {s t : Scan} {i : Instruction}

theorem Fetches.depths_eq (h : Fetches s t) : t.depths = s.depths := by
  rw [h.frame]
  rfl

theorem files_of_loop (hop : i.opcode = .loop) (legal : violations env s i = []) :
    (i.source 0).register.file = .loop ∧ (i.source 1).register.file = .constInt := by
  have hrule : firstFault [((i.source 0).register.file != .loop, .loopCounter),
      ((i.source 1).register.file != .constInt, .loopCount)] = [] := by
    rw [violations, hop] at legal
    exact legal
  by_cases h0 : (i.source 0).register.file = .loop
  · by_cases h1 : (i.source 1).register.file = .constInt
    · exact ⟨h0, h1⟩
    · simp [firstFault, h0, h1] at hrule
  · simp [firstFault, h0] at hrule

theorem depths_account (legal : violations env s i = []) :
    (account env s i).depths = i.opcode.deepen s.depths := by
  cases hbracket : i.opcode.isBracket with
  | false =>
    rw [(level_account env s i hbracket).depths]
    cases e : i.opcode with
    | loop | endLoop | rep | endRep | ifBool | ifCompare | endIf => rw [e] at hbracket; cases hbracket
    | _ => rfl
  | true =>
    cases e : i.opcode with
    | loop =>
      obtain ⟨h0, h1⟩ := files_of_loop e legal
      rw [account, e]
      simp only [h0, h1, decide_true, Bool.and_self, if_true]
      rfl
    | endLoop | rep | endRep | ifBool | ifCompare | endIf =>
      rw [account, e]
      rfl
    | texM3x2Pad | texM3x3Pad =>
      have hdoes := Consequence.of_account env s i
      generalize account env s i = t at hdoes ⊢
      cases hdoes with
      | blocks op => simp [e] at op
      | _ => rfl
    | _ => rw [e] at hbracket; cases hbracket

theorem allowed_of_legal (legal : violations env s i = []) : i.opcode.Allowed s.depths := by
  rw [violations] at legal
  cases e : i.opcode with
  | endLoop | endRep | otherwise | endIf =>
    rw [e] at legal
    exact of_decide_eq_false (faultIf_eq_nil legal)
  | ret =>
    rw [e] at legal
    obtain ⟨hloops, hreps⟩ := List.append_eq_nil_iff.mp legal
    exact ⟨Nat.eq_zero_of_not_pos (of_decide_eq_false (faultIf_eq_nil hloops)),
      Nat.eq_zero_of_not_pos (of_decide_eq_false (faultIf_eq_nil hreps))⟩
  | _ => trivial

theorem depths_executed (legal : violations env s i = []) (sound : (codeOf env s i).faults = []) :
    (executed env s i).depths = i.opcode.deepen s.depths := by
  rw [executed_eq sound]
  exact depths_account legal

theorem depths_close (env : Env) (s : Scan) : (s.close env).depths = s.depths := by
  rw [close_eq env s]
  rfl

end Scan

/-- A unit without a fault is allowed where it stands and changes the numbers as its opcode says. -/
theorem Visit.Does.depths_after (h : v.Does) :
    (v.opcode? = none ∧ v.after.depths = v.before.depths) ∨
      ∃ op, v.opcode? = some op ∧ op.Allowed v.before.depths ∧
        v.after.depths = op.deepen v.before.depths := by
  have hnone : v.instruction? = none → v.opcode? = none := by
    intro hnone
    rw [opcode?, hnone]
    rfl
  cases h with
  | idle other _ _ _ _ _ after | rest other _ _ after =>
    exact .inl ⟨hnone other, by rw [after]; rfl⟩
  | finish other _ _ after => exact .inl ⟨hnone other, by rw [after, Scan.depths_close]; rfl⟩
  | execute i s this h =>
    have hs : s.depths = v.before.depths := h.fetches.depths_eq
    refine .inr ⟨i.opcode, by rw [opcode?, this]; rfl, hs ▸ Scan.allowed_of_legal h.legal, ?_⟩
    rw [h.after, Scan.depths_executed h.legal h.sound, hs]

theorem Visit.Does.counted (h : v.Does) {vs : List Visit} (rest : Counted v.after.depths (opcodes vs)) :
    Counted v.before.depths (opcodes (v :: vs)) := by
  rcases h.depths_after with ⟨hop, hdepths⟩ | ⟨op, hop, hallowed, hdepths⟩
  · rw [opcodes_cons, hop, ← hdepths]
    exact rest
  · rw [opcodes_cons, hop]
    rw [hdepths] at rest
    exact ⟨hallowed, rest⟩

theorem Scan.Run.counted {env : Env} {s t : Scan} {n : Nat} {ws : List Word} {vs : List Visit}
    (r : Scan.Run env s n ws vs t) (does : ∀ v ∈ vs, v.Does) : Counted s.depths (opcodes vs) := by
  induction r with
  | done => trivial
  | cut s n w ws | stop s n w ws => exact (does _ List.mem_cons_self).counted trivial
  | next s n w ws _ _ _ ih =>
    exact (does _ List.mem_cons_self).counted (ih fun v hv => does v (List.mem_cons_of_mem _ hv))

/-! ### Braces of text -/

namespace Brace

/-- How many braces are open after some more, unless one is closed that is not open. -/
def depth? : Nat → List Brace → Option Nat
  | d, [] => some d
  | d, .opening :: bs => depth? (d + 1) bs
  | 0, .closing :: _ => none
  | d + 1, .closing :: bs => depth? d bs

theorem depth?_append_eq_bind (d : Nat) (as bs : List Brace) :
    depth? d (as ++ bs) = (depth? d as).bind fun d' => depth? d' bs := by
  induction as generalizing d with
  | nil => rfl
  | cons b as ih =>
    cases b with
    | opening => exact ih (d + 1)
    | closing =>
      cases d with
      | zero => rfl
      | succ d => exact ih d

theorem depth?_append {d d' : Nat} {as : List Brace} (h : depth? d as = some d') (bs : List Brace) :
    depth? d (as ++ bs) = depth? d' bs := by
  rw [depth?_append_eq_bind, h]
  rfl

theorem depth?_closing {d : Nat} (h : d ≠ 0) (bs : List Brace) :
    depth? d (.closing :: bs) = depth? (d - 1) bs := by
  cases d with
  | zero => exact absurd rfl h
  | succ d => rfl

end Brace

def Balanced (text : String) : Prop := Brace.depth? 0 (bracesOf text) = some 0

instance (text : String) : Decidable (Balanced text) :=
  inferInstanceAs (Decidable (Brace.depth? 0 (bracesOf text) = some 0))

namespace Glsl

variable {K : Register → Prop} {sh : Shader}
variable {c : Stmt} {test : Expr}

@[simp] theorem bracesOf_name (sh : Shader) (r : Register) : bracesOf (r.name sh) = [] :=
  (isPiece_name sh r).braces

theorem Expr.Within.bracesOf_text {e : Expr} (h : e.Within K) : bracesOf (e.text sh) = [] :=
  h.isPiece_text.braces

def Layout.braces : Layout → List Brace
  | .line text => bracesOf text
  | _ => []

theorem bracesOf_run (ls : List Layout) (depth : Int) :
    bracesOf (Layout.run ls depth).1 = ls.flatMap Layout.braces := by
  have htabs : ∀ n, bracesOf (String.ofList (List.replicate n '\t')) = [] := by
    intro n
    rw [bracesOf, String.toList_ofList, List.filterMap_eq_nil_iff]
    intro c hc
    rw [List.eq_of_mem_replicate hc]
    decide
  have hend : bracesOf "\n" = [] := by decide
  induction ls generalizing depth with
  | nil => exact (by decide : bracesOf "" = [])
  | cons l ls ih =>
    cases l with
    | line text => simp [Layout.run, Layout.lineAt, Layout.braces, htabs, hend, ih]
    | blank => simp [Layout.run, Layout.braces, hend, ih]
    | indent | outdent => simp [Layout.run, Layout.braces, ih]

def Stmt.braces (sh : Shader) (c : Stmt) : List Brace := (c.layout sh).flatMap Layout.braces

theorem Stmt.Plain.braces_eq (h : c.Plain K) : c.braces sh = [] := by
  cases c with
  | assign target e =>
    have htarget : bracesOf (target.expr.text sh) = [] := by
      apply Expr.Within.bracesOf_text (K := K)
      unfold Target.expr
      split <;> exact h.1
    simp +decide [braces, layout, Layout.braces, htarget, h.2.bracesOf_text]
  | vector3 n e => simp +decide [braces, layout, Layout.braces, (isPiece_ident n).braces, h.2.bracesOf_text]
  | _ => exact h.elim

theorem Stmt.braces_line {text : String} {more : List Layout} (h : c.layout sh = .line text :: more) :
    c.braces sh = bracesOf text ++ more.flatMap Layout.braces := by
  rw [braces, h]
  rfl

theorem Stmt.braces_callIf (h : test.Within K) (label : Nat) (counter : Bool) :
    (Stmt.callIf test label counter).braces sh = [.opening, .closing] := by
  rw [braces_line rfl]
  simp only [bracesOf_append, h.bracesOf_text, bracesOf_name]
  cases counter <;> decide

theorem Stmt.braces_call (label : Nat) (counter : Bool) :
    (Stmt.call label counter).braces sh = [] := by
  rw [braces_line rfl]
  simp only [bracesOf_append, bracesOf_name]
  cases counter <;> decide

theorem Stmt.braces_killIfNegative (r : Register) : (Stmt.killIfNegative r).braces sh = [] := by
  rw [braces_line rfl]
  simp only [bracesOf_append, bracesOf_name]
  decide

theorem Stmt.braces_openLoop (r : Register) :
    (Stmt.openLoop r).braces sh = [.opening, .opening] := by
  rw [braces_line rfl]
  simp only [List.flatMap_cons, Layout.braces, bracesOf_append, bracesOf_name]
  decide

theorem Stmt.braces_openRep {count : Expr} (h : count.Within K) (depth : Nat) :
    (Stmt.openRep depth count).braces sh = [.opening] := by
  have hstart : bracesOf (s!"for (int rep{depth} = 0; rep{depth} < ") = [] := by
    simp +decide
  have hstep : bracesOf (s!"; rep{depth}++) \x7b") = [.opening] := by
    simp +decide
  rw [braces_line rfl, bracesOf_append, bracesOf_append, hstart, hstep, h.bracesOf_text]
  rfl

theorem Stmt.braces_openIf (h : test.Within K) : (Stmt.openIf test).braces sh = [.opening] := by
  rw [braces_line rfl]
  simp only [bracesOf_append, h.bracesOf_text]
  decide

theorem Stmt.braces_leaveIf (h : test.Within K) :
    (Stmt.leaveIf test).braces sh = [.opening, .closing] := by
  rw [braces_line rfl]
  simp only [bracesOf_append, h.bracesOf_text]
  decide

def Stmt.isFrame : Stmt → Bool
  | .openFunction _ _ | .closeFunction => true
  | _ => false

def innerBraces (sh : Shader) (code : List Stmt) : List Brace :=
  (code.filter fun c => !c.isFrame).flatMap (Stmt.braces sh)

theorem innerBraces_singleton (h : c.isFrame = false) : innerBraces sh [c] = c.braces sh := by
  simp [innerBraces, h]

theorem innerBraces_of_plain {code : List Stmt} (h : ∀ c ∈ code, c.Plain K) :
    innerBraces sh code = [] := by
  rw [innerBraces, List.flatMap_eq_nil_iff]
  intro c hc
  exact (h c (List.mem_filter.mp hc).1).braces_eq

end Glsl

/-- The braces that an instruction is put out with, those around functions apart. -/
def Opcode.braces : Opcode → List Brace
  | .loop => [.opening, .opening]
  | .rep | .ifBool | .ifCompare => [.opening]
  | .otherwise => [.closing, .opening]
  | .endLoop => [.closing, .closing]
  | .endRep | .endIf => [.closing]
  | .callNz | .leaveCompare | .leavePredicate => [.opening, .closing]
  | _ => []

namespace Scan

variable {env : Env} {sh : Shader} {s : Scan} {i : Instruction}
variable {f : Expr → Stmt} {bs : List Brace}

theorem innerBraces_closeCode : innerBraces sh (closeCode sh s).code = [] := by
  rw [innerBraces, List.flatMap_eq_nil_iff]
  intro c hc
  obtain ⟨hmem, hframe⟩ := List.mem_filter.mp hc
  rcases mem_code_closeCode hmem with rfl | ⟨rfl, -⟩
  · cases hframe
  · exact Stmt.Plain.braces_eq (K := fun _ => True) ⟨trivial, trivial⟩

theorem innerBraces_conditionCode {a : Source} (hframe : ∀ test, (f test).isFrame = false)
    (h : ∀ test : Expr, (test.Within fun _ => True) → (f test).braces sh = bs) :
    innerBraces sh (conditionCode sh s a f).code = bs := by
  obtain ⟨test, htest, hcode⟩ :=
    code_conditionCode Expr.compositional_within f (yields_within a.within_any)
  rw [hcode, innerBraces_singleton (hframe test), h test htest]

theorem innerBraces_comparisonCode (sound : (comparisonCode sh s i f).faults = [])
    (hframe : ∀ test, (f test).isFrame = false)
    (h : ∀ test : Expr, (test.Within fun _ => True) → (f test).braces sh = bs) :
    innerBraces sh (comparisonCode sh s i f).code = bs := by
  obtain ⟨test, htest, hcode⟩ :=
    code_comparisonCode Expr.compositional_within f (fun _ _ => yields_within (Source.within_any _)) sound
  rw [hcode, innerBraces_singleton (hframe test), h test htest]

theorem innerBraces_instructionCode (sound : (instructionCode sh s i).faults = []) :
    innerBraces sh (instructionCode sh s i).code = i.opcode.braces := by
  cases hop : i.opcode.isFlow with
  | false =>
    rw [innerBraces_of_plain (says_instructionCode_plain (supplied_any sh s i) hop).code]
    cases e : i.opcode <;> first | rfl | (rw [e] at hop; cases hop)
  | true =>
    unfold instructionCode at sound ⊢
    cases e : i.opcode with
    | label | endLoop | endRep | endIf | otherwise | leave => rfl
    | call => exact (innerBraces_singleton rfl).trans (Stmt.braces_call _ _)
    | texKill => exact (innerBraces_singleton rfl).trans (Stmt.braces_killIfNegative _)
    | loop => exact (innerBraces_singleton rfl).trans (Stmt.braces_openLoop _)
    | callNz => exact innerBraces_conditionCode (fun _ => rfl) fun _ h => Stmt.braces_callIf h _ _
    | rep => exact innerBraces_conditionCode (fun _ => rfl) fun _ h => Stmt.braces_openRep h _
    | ifBool => exact innerBraces_conditionCode (fun _ => rfl) fun _ h => Stmt.braces_openIf h
    | leavePredicate => exact innerBraces_conditionCode (fun _ => rfl) fun _ h => Stmt.braces_leaveIf h
    -- with an unknown comparison there would be a fault, and no statement
    | ifCompare =>
      rw [e] at sound
      exact innerBraces_comparisonCode sound (fun _ => rfl) fun _ h => Stmt.braces_openIf h
    | leaveCompare =>
      rw [e] at sound
      exact innerBraces_comparisonCode sound (fun _ => rfl) fun _ h => Stmt.braces_leaveIf h
    | ret => exact innerBraces_closeCode
    | _ => rw [e] at hop; cases hop

end Scan

/-! ### Code of functions -/

namespace Visit

/-- How the code of a unit is laid out, what opens or closes a function apart. -/
def innerLayout (v : Visit) : List Layout :=
  (v.written.filter fun c => !c.isFrame).flatMap (Stmt.layout v.env.toShader)

def braces (v : Visit) : List Brace := (v.opcode?.map Opcode.braces).getD []

theorem Does.innerBraces_written {v : Visit} (h : v.Does) :
    innerBraces v.env.toShader v.written = v.braces := by
  have hother : v.instruction? = none → v.braces = [] := by
    intro hnone
    rw [braces, opcode?, hnone]
    rfl
  cases h with
  | idle other _ _ _ _ _ after | rest other _ _ after =>
    rw [written_eq ((congrArg Scan.code after).trans (List.append_nil _).symm), hother other]
    rfl
  | finish other _ _ after =>
    rw [written_eq (code_after_finish after), hother other]
    exact Scan.innerBraces_closeCode
  | execute i s this h =>
    have hbraces : v.braces = i.opcode.braces := by rw [braces, opcode?, this]; rfl
    rw [written_eq h.code_after, hbraces]
    exact Scan.innerBraces_instructionCode h.sound

theorem Does.braces_innerLayout {v : Visit} (h : v.Does) :
    v.innerLayout.flatMap Layout.braces = v.braces := by
  rw [← h.innerBraces_written, innerLayout, innerBraces, List.flatMap_assoc]
  rfl

end Visit

theorem flatMap_braces : vs.flatMap Visit.braces = (opcodes vs).flatMap Opcode.braces := by
  induction vs with
  | nil => rfl
  | cons v vs ih =>
    rw [List.flatMap_cons, opcodes_cons, List.flatMap_append, ih, Visit.braces]
    cases v.opcode? with
    | none => rfl
    | some op => simp

/-- The text of some units, what opens or closes a function apart. -/
def innerText (vs : List Visit) (depth : Int) : String :=
  (Layout.run (vs.flatMap Visit.innerLayout) depth).1

theorem bracesOf_innerText {vs : List Visit} (does : ∀ v ∈ vs, v.Does) (depth : Int) :
    bracesOf (innerText vs depth) = (opcodes vs).flatMap Opcode.braces := by
  rw [innerText, bracesOf_run, List.flatMap_assoc,
    List.flatMap_congr fun v hv => (does v hv).braces_innerLayout, flatMap_braces]

/-- How many braces are open in as many blocks. -/
def Scan.Depths.braces (d : Scan.Depths) : Nat := 2 * d.loops + d.reps + d.conds

theorem Opcode.Allowed.depth?_braces {d : Scan.Depths} (h : op.Allowed d) (n : Nat) :
    Brace.depth? (n + d.braces) op.braces = some (n + (op.deepen d).braces) := by
  cases op with
  | loop | rep | ifBool | ifCompare =>
    simp only [Opcode.braces, Brace.depth?, Opcode.deepen, Scan.Depths.braces, Option.some.injEq]
    omega
  | endLoop | endRep | endIf | otherwise =>
    simp only [Opcode.Allowed] at h
    simp (disch := omega) only [Opcode.braces, Brace.depth?_closing, Brace.depth?, Opcode.deepen,
      Scan.Depths.braces, Option.some.injEq]
    omega
  | _ => rfl

theorem Visit.Does.depth?_braces (h : v.Does) (n : Nat) :
    Brace.depth? (n + v.before.depths.braces) v.braces = some (n + v.after.depths.braces) := by
  rcases h.depths_after with ⟨hop, hdepths⟩ | ⟨op, hop, hallowed, hdepths⟩
  · rw [Visit.braces, hop, hdepths]
    rfl
  · rw [Visit.braces, hop, hdepths]
    exact hallowed.depth?_braces n

/-- The braces of the units before one are those of the blocks that are counted there. -/
theorem Scan.Run.depth?_braces {env : Env} {s t : Scan} {n : Nat} {ws : List Word}
    {earlier later : List Visit} (r : Scan.Run env s n ws (earlier ++ v :: later) t)
    (does : ∀ u ∈ earlier ++ v :: later, u.Does) (outer : Nat) :
    Brace.depth? (outer + s.depths.braces) (earlier.flatMap Visit.braces) =
      some (outer + v.before.depths.braces) := by
  -- each unit goes on from the braces that those before it leave open
  let follow (d? : Option Nat) (u : Visit) : Option Nat := d?.bind fun d => Brace.depth? d u.braces
  have hfold : ∀ (us : List Visit) (d? : Option Nat), us.foldl follow d? =
      d?.bind fun d => Brace.depth? d (us.flatMap Visit.braces) := by
    intro us
    induction us with
    | nil =>
      intro d?
      cases d? <;> rfl
    | cons u us ih =>
      intro d?
      rw [List.foldl_cons, ih]
      cases d? with
      | none => rfl
      | some d => exact (Brace.depth?_append_eq_bind d u.braces _).symm
  have hbefore := (r.observed_at (f := fun s => some (outer + s.depths.braces)) (g := follow)
    (fun _ _ => rfl) (fun _ => rfl) (fun u _ hu => (hu.depth?_braces outer).symm) does rfl).1
  rw [hbefore, hfold]
  rfl

def openBraces : List Block → Nat
  | [] => 0
  | b :: blocks => openBraces blocks + b.braces

theorem eq_cons_of_innermost {outer : List Block} {b : Block}
    (h : innermost kind blocks = .ok (b, outer)) : blocks = b :: outer ∧ kind b = true := by
  cases blocks with
  | nil => cases h
  | cons b' rest =>
    rw [innermost] at h
    split at h
    next hkind =>
      cases h
      exact ⟨rfl, hkind⟩
    next => split at h <;> cases h

theorem cons_of_close (h : (innermost kind blocks).map Prod.snd = .ok inner) :
    ∃ b, blocks = b :: inner ∧ kind b = true := by
  cases hinner : innermost kind blocks with
  | error m =>
    rw [hinner] at h
    cases h
  | ok p =>
    rw [hinner] at h
    cases h
    exact ⟨p.1, eq_cons_of_innermost hinner⟩

/-- An instruction that fits opens and closes the braces of the blocks that it opens and closes. -/
theorem depth?_braces (h : nest blocks op = .ok inner) :
    Brace.depth? (openBraces blocks) op.braces = some (openBraces inner) := by
  cases op with
  | loop | rep | ifBool | ifCompare =>
    cases h
    rfl
  | endLoop | endRep | endIf =>
    obtain ⟨b, rfl, hb⟩ := cons_of_close h
    cases b <;> first | rfl | cases hb
  | otherwise =>
    cases hinner : innermost Block.isCond blocks with
    | error m =>
      rw [nest, hinner] at h
      cases h
    | ok p =>
      obtain ⟨rfl, hb⟩ := eq_cons_of_innermost hinner
      rw [nest, hinner] at h
      dsimp only at h
      split at h
      · cases h
      · cases h
        cases hp : p.1 with
        | cond alternative => rfl
        | loop | rep => rw [hp] at hb; cases hb
  | _ =>
    cases h
    rfl

theorem depth?_flatMap_braces {body : List Opcode} (h : body.foldlM nest blocks = .ok inner) :
    Brace.depth? (openBraces blocks) (body.flatMap Opcode.braces) = some (openBraces inner) := by
  induction body generalizing blocks with
  | nil =>
    cases h
    rfl
  | cons op body ih =>
    cases hnest : nest blocks op with
    | error m =>
      rw [List.foldlM_cons, hnest] at h
      cases h
    | ok mid =>
      rw [List.foldlM_cons, hnest] at h
      rw [List.flatMap_cons, Brace.depth?_append (depth?_braces hnest)]
      exact ih h

theorem balanced_of_nested {vs : List Visit} (does : ∀ v ∈ vs, v.Does) (h : Nested (opcodes vs))
    (depth : Int) : Balanced (innerText vs depth) := by
  rw [Balanced, bracesOf_innerText does]
  exact depth?_flatMap_braces h

/-! ### Shaders -/

theorem mem_of_mem_functionBodies {vs body : List Visit} (h : body ∈ functionBodies vs) :
    ∀ v ∈ body, v ∈ vs := by
  induction vs generalizing body with
  | nil =>
    rw [List.mem_singleton.mp h]
    exact fun v hv => hv
  | cons u vs ih =>
    intro v hv
    by_cases hret : u.opcode? = some .ret
    · rw [functionBodies, splitFunctions_cons_ret hret] at h
      rcases List.mem_cons.mp h with rfl | h
      · cases hv
      · exact List.mem_cons_of_mem _ (ih h v hv)
    · rw [functionBodies, splitFunctions_cons hret] at h
      rcases List.mem_cons.mp h with rfl | h
      · rcases List.mem_cons.mp hv with rfl | hv
        · exact List.mem_cons_self
        · exact List.mem_cons_of_mem _ (ih List.mem_cons_self v hv)
      · exact List.mem_cons_of_mem _ (ih (List.mem_cons_of_mem _ h) v hv)

/-- What is known about the blocks of a shader that is read without a fault. -/
structure BlocksCounted (o : Options) (ws : List Word) : Prop where
  /-- The code of the shader is what its units add, one after the other. -/
  code : ∃ l, linkShader o ws = .ok l ∧ l.scan.code = (unitsOf o ws).flatMap Visit.written
  /-- A function that nests has balanced braces. -/
  balanced : ∀ body ∈ functionBodies (unitsOf o ws), Nested (opcodes body) →
    ∀ depth, Balanced (innerText body depth)
  /-- All functions nest, or the first misfit is one that counting does not find. -/
  nested : (∀ body ∈ functionBodies (unitsOf o ws), Nested (opcodes body)) ∨
    ∃ m, misfit? [] (opcodes (unitsOf o ws)) = some m ∧ m.Overlooked

/-- **Blocks nest as far as counting them can tell**: in a shader without a fault all functions nest and
have balanced braces, unless something is closed that is not innermost, a conditional has a second
alternative, a function ends with conditionals open, or the code ends with anything open. -/
theorem lift_blocks_counted (p : Profile) (o : Options) (ws : List Word)
    (clean : (liftWords p o ws).errors = []) : BlocksCounted o ws := by
  have hdoes := does_of_no_errors p o ws clean
  obtain ⟨w, us, env, t, -, hlink, hrun, hfinish, -, -⟩ := run_of_no_errors clean
  refine ⟨⟨_, hlink, ?_⟩, fun body hbody hnested depth => ?_, ?_⟩
  · show (Scan.ofUnits env us).code = _
    rw [hfinish]
    exact (hrun.code_eq hdoes).trans (List.nil_append _)
  · have hbody' : ∀ v ∈ body, v.Does :=
      fun v hv => hdoes v (mem_of_mem_functionBodies hbody v hv)
    exact balanced_of_nested hbody' hnested depth
  · cases hm : misfit? [] (opcodes (unitsOf o ws)) with
    | none => exact .inl ((misfit?_nil_eq_none_iff _).mp hm)
    | some m =>
      have hcounted : Counted (Block.depths []) (opcodes (unitsOf o ws)) := hrun.counted hdoes
      exact .inr ⟨m, rfl, overlooked_of_counted hcounted hm⟩

/-- A loop around a conditional with an alternative. -/
def loopedChoice : List Word :=
  [0xFFFE0200,
    0x0200001B, 0xF0E40800, 0xF0E40000,
    0x01000028, 0xE0E40800,
    0x0000002A,
    0x0000002B,
    0x0000001D,
    0xFFFF]

theorem blocks_counted_loopedChoice :
    (liftWords .glsl110 {} loopedChoice).errors = [] ∧ BlocksCounted {} loopedChoice := by
  have clean : (liftWords .glsl110 {} loopedChoice).errors = [] := by decide +kernel
  exact ⟨clean, lift_blocks_counted .glsl110 {} loopedChoice clean⟩

def openLoop : List Word :=
  [0xFFFE0200,
    0x0200001B, 0xF0E40800, 0xF0E40000,
    0xFFFF]

/-- The end mark is read whatever is open. -/
theorem openLoop_not_nested :
    (liftWords .glsl110 {} openLoop).errors = [] ∧
      ¬ ∀ body ∈ functionBodies (unitsOf {} openLoop), Nested (opcodes body) := by
  refine ⟨by decide +kernel, fun h => ?_⟩
  have hmisfit : misfit? [] (opcodes (unitsOf {} openLoop)) = some (.openAtEnd [.loop]) := by
    decide +kernel
  rw [(misfit?_nil_eq_none_iff _).mpr h] at hmisfit
  cases hmisfit

-- a repetition that is closed inside of a conditional that it is opened around
example : (liftWords .glsl110 {}
    [0xFFFE0200, 0x01000026, 0xF0E40000, 0x01000028, 0xE0E40800, 0x00000027, 0x0000002B,
      0xFFFF]).errors = [] := by
  decide +kernel

-- two alternatives of one conditional
example : (liftWords .glsl110 {}
    [0xFFFE0200, 0x01000028, 0xE0E40800, 0x0000002A, 0x0000002A, 0x0000002B, 0xFFFF]).errors = [] := by
  decide +kernel

-- a function that ends inside of a conditional
example : (liftWords .glsl110 {}
    [0xFFFE0200, 0x01000028, 0xE0E40800, 0x0000001C, 0xFFFF]).errors = [] := by
  decide +kernel

end ShaderLift
