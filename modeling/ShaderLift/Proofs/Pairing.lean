/-
The rows of texture matrices.  A texture matrix is worked out by several instructions: all rows but the
last one wait for an instruction that takes them up.  What waits is a small state machine, which every
unit moves, whether anything is wrong with it or not (`Visit.pads_after`):

* a row of a two-row matrix takes the place of the one that waits, if there is one;
* of the rows of a three-row matrix the first two wait, and further ones are forgotten;
* an instruction that takes rows up leaves none, of either kind.

So what waits is a function of the units since the last matrix (`pads_eq_waiting`).
-/
import ShaderLift.Proofs.Predicated

namespace ShaderLift

open Glsl

variable {u : Visit} {i : Instruction} (us : List Visit) {earlier later : List Visit}

/-! ### What an instruction does to the rows that wait -/

namespace Pads

/-- The six slots: source and destination of each row. -/
def slots (p : Pads) : List (Option Nat × Option Nat) :=
  [p.m3x2, p.m3x3First, p.m3x3Second].map fun row => (row.map Pad.source, row.map Pad.dest)

/-- Slots are set in pairs, and the second row of a matrix does not wait without the first. -/
structure InOrder (p : Pads) : Prop where
  pairs : ∀ slot ∈ p.slots, slot.1.isSome = slot.2.isSome
  second : p.m3x3Second.isSome = true → p.m3x3First.isSome = true

theorem pairs_slots (p : Pads) : ∀ slot ∈ p.slots, slot.1.isSome = slot.2.isSome := by
  intro slot hslot
  obtain ⟨row, -, rfl⟩ := List.mem_map.mp hslot
  simp

/-- Lets a row of a three-row matrix wait where there is room. -/
def push3 (p : Pads) (row : Pad) : Pads :=
  match p.m3x3First, p.m3x3Second with
  | none, _ => { p with m3x3First := some row }
  | some _, none => { p with m3x3Second := some row }
  | some _, some _ => p

end Pads

def Instruction.rowsAdded (i : Instruction) (p : Pads) : Pads :=
  match i.opcode with
  | .texM3x2Pad => { p with m3x2 := some (Scan.padOf i) }
  | .texM3x3Pad => p.push3 (Scan.padOf i)
  | _ => p

def Instruction.rowsAfter (i : Instruction) (p : Pads) : Pads :=
  if i.opcode.closesMatrix then {} else i.rowsAdded p

namespace Scan

variable {env : Env} {s t : Scan} {i : Instruction}

theorem pads_addPad3 (s : Scan) (i : Instruction) : (s.addPad3 i).pads = s.pads.push3 (padOf i) := by
  unfold addPad3 Pads.push3
  cases hfirst : s.pads.m3x3First with
  | none => rfl
  | some first => cases s.pads.m3x3Second <;> simp [hfirst]

theorem pads_failAll (s : Scan) (fs : List Fault) : (s.failAll fs).pads = s.pads := by
  rw [failAll_eq]

theorem pads_account (env : Env) (s : Scan) (i : Instruction) :
    (account env s i).pads = i.rowsAdded s.pads := by
  unfold Instruction.rowsAdded
  split
  next e =>
    rw [account, e]
    dsimp only
    rw [useTextures_eq (by rw [e]; rfl)]
    rfl
  next e =>
    rw [account, e]
    dsimp only
    rw [useTextures_eq (by rw [e]; rfl), pads_addPad3]
    rfl
  next h2 h3 =>
    have hdoes := Consequence.of_account env s i
    generalize account env s i = t at hdoes ⊢
    cases hdoes with
    | pad2 op => exact absurd op h2
    | pad3 op => exact absurd op h3
    | _ => rfl

theorem pads_generate (env : Env) (s : Scan) (i : Instruction) : (s.generate env i).pads = s.pads := by
  unfold generate
  split
  · rfl
  · split
    · rw [close_eq]
    · exact pads_failAll s _

theorem pads_execute (env : Env) (s : Scan) (i : Instruction) :
    (execute env s i).pads = i.rowsAfter s.pads := by
  have hjudge : (judge env s i).pads = i.rowsAdded s.pads := by
    rw [judge, pads_account, pads_failAll]
  unfold Instruction.rowsAfter execute
  dsimp only
  split
  · rfl
  · rw [pads_generate]
    exact hjudge

theorem rowsAfter_of_isReserved (h : i.opcode.isReserved = true) (p : Pads) : i.rowsAfter p = p := by
  unfold Instruction.rowsAfter Instruction.rowsAdded
  cases e : i.opcode <;> first | rfl | (rw [e] at h; cases h)

theorem Effect.pads_of_instruction {op : Opcode} {w : InstructionWord} {ws : List Word}
    (h : Effect env s ws (.instruction op w) t) :
    t.pads = (readOperands env op w (operandState env s op w) ws).1.rowsAfter s.pads := by
  cases h with
  | faults fs other =>
    rw [pads_failAll, rowsAfter_of_isReserved (by rw [opcode_readOperands]; exact other _ _ rfl)]
  | execute known =>
    have hfetch := ((fetches_operandState env s op w).readOperands env op w ws).pads_eq
    rw [pads_failAll, pads_execute]
    exact congrArg _ hfetch

theorem Effect.pads_of_other {head : UnitHead} {ws : List Word} (h : Effect env s ws head t)
    (other : ∀ op w, head ≠ .instruction op w) : t.pads = s.pads := by
  cases h with
  | close fs =>
    rw [close_eq]
    exact pads_failAll s fs
  | execute => exact absurd rfl (other _ _)
  | _ => exact pads_failAll s _

end Scan

/-! ### What a unit does to them -/

namespace Visit

/-- The instruction of a unit, if it is one, as it is read after the faults in its head.  Opcodes without a
meaning count too: they leave the rows alone. -/
def judged? (v : Visit) : Option Instruction :=
  match UnitHead.ofWord v.word with
  | .instruction op fields => some
    (Scan.readOperands v.env op fields (Scan.operandState v.env v.before op fields) v.rest).1
  | _ => none

/-- Whether the unit is an instruction that takes up the rows of a texture matrix. -/
def closesMatrix (v : Visit) : Bool :=
  match UnitHead.ofWord v.word with
  | .instruction op _ => op.closesMatrix
  | _ => false

theorem closesMatrix_of_judged? {v : Visit} {i : Instruction} (h : v.judged? = some i) :
    v.closesMatrix = i.opcode.closesMatrix := by
  unfold judged? at h
  unfold closesMatrix
  cases hhead : UnitHead.ofWord v.word with
  | instruction op fields =>
    rw [hhead] at h
    cases h
    rw [Scan.opcode_readOperands]
  | comment | finish | phase | unknown => rw [hhead] at h; cases h

theorem closesMatrix_of_other {v : Visit} (h : v.judged? = none) : v.closesMatrix = false := by
  unfold judged? at h
  unfold closesMatrix
  cases hhead : UnitHead.ofWord v.word with
  | instruction op fields => rw [hhead] at h; cases h
  | comment | finish | phase | unknown => rfl

/-- **Every unit moves the rows**, as its instruction says. -/
theorem pads_after (v : Visit) :
    v.after.pads = (v.judged?.elim v.before.pads fun i => i.rowsAfter v.before.pads) := by
  have heffect := Scan.effect_readUnit v.env v.before v.word v.rest
  have hnoted : (v.before.noteEnd v.word).pads = v.before.pads := by
    unfold Scan.noteEnd
    split <;> rfl
  unfold judged?
  cases hhead : UnitHead.ofWord v.word with
  | instruction op fields =>
    rw [hhead, Scan.noteEnd_of_ne v.before hhead (by simp)] at heffect
    exact heffect.pads_of_instruction
  | _ => exact (heffect.pads_of_other (by simp [hhead])).trans hnoted

theorem judged?_of_clean (v : Visit) (flag : v.before.failing = false) (clean : v.after.faults = []) :
    v.judged? = v.instruction? := by
  replace flag : v.after.failing = false := (v.records.failing_eq clean).trans flag
  unfold judged? instruction?
  cases hhead : UnitHead.ofWord v.word with
  | instruction op fields =>
    rw [after, Scan.readUnit, hhead] at flag
    dsimp only
    rw [(Scan.readInstruction_of_flag flag).1]
  | comment | finish | phase | unknown => rfl

end Visit

/-! ### What waits before a unit -/

/-- The units after the last one that takes up the rows of a texture matrix. -/
def sinceMatrix (us : List Visit) : List Visit :=
  (us.reverse.takeWhile fun u => !u.closesMatrix).reverse

/-- The instructions of units that have a certain opcode, in their order. -/
def instructionsWith (op : Opcode) (us : List Visit) : List Instruction :=
  (us.filterMap Visit.judged?).filter fun i => i.opcode = op

/-- The rows that wait after units that take none up. -/
def waiting (us : List Visit) : Pads where
  m3x2 := (instructionsWith .texM3x2Pad us).getLast?.map Scan.padOf
  m3x3First := (instructionsWith .texM3x3Pad us)[0]?.map Scan.padOf
  m3x3Second := (instructionsWith .texM3x3Pad us)[1]?.map Scan.padOf

theorem sinceMatrix_snoc (u : Visit) :
    sinceMatrix (us ++ [u]) = if u.closesMatrix then [] else sinceMatrix us ++ [u] := by
  unfold sinceMatrix
  cases h : u.closesMatrix <;> simp [h]

theorem instructionsWith_snoc (h : u.judged? = some i) (op : Opcode) (us : List Visit) :
    instructionsWith op (us ++ [u]) =
      if i.opcode = op then instructionsWith op us ++ [i] else instructionsWith op us := by
  unfold instructionsWith
  by_cases hop : i.opcode = op <;> simp [h, hop]

theorem instructionsWith_snoc_other (h : u.judged? = none) (op : Opcode) (us : List Visit) :
    instructionsWith op (us ++ [u]) = instructionsWith op us := by
  simp [instructionsWith, h]

theorem push3_rows (m3x2 : Option Pad) (rows : List Instruction) (i : Instruction) :
    Pads.push3 ⟨m3x2, rows[0]?.map Scan.padOf, rows[1]?.map Scan.padOf⟩ (Scan.padOf i) =
      ⟨m3x2, (rows ++ [i])[0]?.map Scan.padOf, (rows ++ [i])[1]?.map Scan.padOf⟩ := by
  match rows with
  | [] | [_] | _ :: _ :: _ => rfl

theorem waiting_snoc (h : u.judged? = some i) (us : List Visit) :
    waiting (us ++ [u]) = i.rowsAdded (waiting us) := by
  have hrows : ∀ op, instructionsWith op (us ++ [u]) = _ := fun op => instructionsWith_snoc h op us
  unfold waiting Instruction.rowsAdded
  split
  next e => simp [hrows, e]
  next e =>
    rw [push3_rows]
    simp [hrows, e]
  next h2 h3 => rw [hrows, if_neg h2, hrows, if_neg h3]

theorem waiting_snoc_other (h : u.judged? = none) (us : List Visit) :
    waiting (us ++ [u]) = waiting us := by
  rw [waiting, instructionsWith_snoc_other h, instructionsWith_snoc_other h, waiting]

theorem foldl_rowsAfter :
    us.foldl (fun p u => u.judged?.elim p fun i => i.rowsAfter p) {} = waiting (sinceMatrix us) := by
  -- the last unit decides, so the list is taken apart at its end
  induction us using List.reverseRecOn with
  | nil => rfl
  | append_singleton us u ih =>
    rw [List.foldl_append, ih, sinceMatrix_snoc, List.foldl_cons, List.foldl_nil]
    cases h : u.judged? with
    | none =>
      rw [Visit.closesMatrix_of_other h, if_neg Bool.false_ne_true, waiting_snoc_other h]
      rfl
    | some i =>
      rw [Visit.closesMatrix_of_judged? h, Option.elim_some, Instruction.rowsAfter]
      split
      · rfl
      · rw [waiting_snoc h]

/-- **What waits before a unit** follows from the units since the last matrix. -/
theorem pads_eq_waiting {o : Options} {ws : List Word} {v : Visit}
    (hsplit : unitsOf o ws = earlier ++ v :: later) :
    v.before.pads = waiting (sinceMatrix earlier) := by
  rcases run_unitsOf o ws with hnone | ⟨w, us, env, -, -, hrun⟩
  · rw [hnone] at hsplit
    simp at hsplit
  · have hstart : (Scan.start env).pads = {} := (Scan.Fetches.failIf .refl _ _).pads_eq
    have hbefore := (hrun.observed_at (f := Scan.pads) (Q := fun _ => True)
      (g := fun p u => u.judged?.elim p fun i => i.rowsAfter p) (fun _ _ => rfl) (fun _ => rfl)
      (fun u _ _ => u.pads_after) (fun _ _ => trivial) hsplit).1
    rw [hbefore, hstart, foldl_rowsAfter]

theorem pads_after_eq_waiting {o : Options} {ws : List Word} {v : Visit}
    (hsplit : unitsOf o ws = earlier ++ v :: later) :
    v.after.pads = waiting (sinceMatrix (earlier ++ [v])) := by
  rw [v.pads_after, pads_eq_waiting hsplit, ← foldl_rowsAfter, ← foldl_rowsAfter, List.foldl_append]
  rfl

theorem inOrder_waiting : (waiting us).InOrder where
  pairs := (waiting us).pairs_slots
  second := by
    unfold waiting
    match instructionsWith .texM3x3Pad us with
    | [] | [_] | _ :: _ :: _ => simp

/-! ### Matrices without a fault -/

namespace Instruction

def sourceXyz (i : Instruction) : Expr := .lanes (.register (i.source 0).register) [.x, .y, .z]

def destXyz (i : Instruction) : Expr := .lanes (.register i.dest.register) [.x, .y, .z]

def product (i : Instruction) : Expr := .dot i.sourceXyz i.destXyz

def destW (i : Instruction) : Expr := .lanes (.register i.dest.register) [.w]

/-- The instruction reads and writes a texture. -/
structure OnTextures (i : Instruction) : Prop where
  source : (i.source 0).register.file = .texture
  dest : i.dest.register.file = .texture

theorem onTextures_of_textureFaults {i : Instruction} (h : Scan.textureFaults i = []) : i.OnTextures := by
  obtain ⟨hfiles, -⟩ := List.append_eq_nil_iff.mp h
  obtain ⟨hdest, hsource⟩ := List.append_eq_nil_iff.mp hfiles
  exact ⟨by simpa using faultIf_eq_nil hsource, by simpa using faultIf_eq_nil hdest⟩

namespace OnTextures

variable {i : Instruction}

theorem sourceXyz_eq (h : i.OnTextures) :
    Scan.textureXyz (i.source 0).register.number = i.sourceXyz := by
  rw [Scan.textureXyz, Scan.textureLanes, sourceXyz, ← h.source]

theorem padProduct_eq (h : i.OnTextures) : Scan.padProduct (Scan.padOf i) = i.product := by
  have hdest : Scan.textureXyz i.dest.register.number = i.destXyz := by
    rw [Scan.textureXyz, Scan.textureLanes, destXyz, ← h.dest]
  show Expr.dot (Scan.textureXyz (i.source 0).register.number) (Scan.textureXyz i.dest.register.number) = _
  rw [h.sourceXyz_eq, hdest, product]

theorem destW_eq (h : i.OnTextures) : Scan.textureLanes (Scan.padOf i).dest [.w] = i.destW := by
  show Scan.textureLanes i.dest.register.number [.w] = _
  rw [Scan.textureLanes, destW, ← h.dest]

end OnTextures

end Instruction

/-- The last row of a two-row matrix, in the instruction `i`: the products of the last row before it and of
its own are the coordinates of a lookup. -/
structure TakesTwo (recent : List Visit) (v : Visit) (i : Instruction) (s : Scan) (row : Instruction) :
    Prop where
  last : (instructionsWith .texM3x2Pad recent).getLast? = some row
  textures : row.OnTextures ∧ i.OnTextures
  waits : (Scan.settled v.env s i).pads.m3x2 = some (Scan.padOf row)
  written : v.written = (Scan.assignTo v.env.toShader (Scan.settled v.env s i) i i.dest
    (.lookup .plane .implicit i.dest.register.number (.call2 "vec2" row.product i.product))).code

/-- The last row of a three-row matrix, in the instruction `i`: the products of the first two rows and of
its own are a colour, coordinates, or a normal. -/
structure TakesThree (recent : List Visit) (v : Visit) (i : Instruction) (s : Scan)
    (first second : Instruction) : Prop where
  firstTwo : ∃ more, instructionsWith .texM3x3Pad recent = first :: second :: more
  textures : first.OnTextures ∧ second.OnTextures ∧ i.OnTextures
  waits : (Scan.settled v.env s i).matrix3Pads? = some (Scan.padOf first, Scan.padOf second)
  color : i.opcode = .texM3x3 →
    v.written = (Scan.assignTo v.env.toShader (Scan.settled v.env s i) i i.dest
      (.call4 "vec4" first.product second.product (.dot i.destXyz i.sourceXyz) .one)).code
  lookup : i.opcode = .texM3x3Tex → ∃ kind,
    v.written = (Scan.assignTo v.env.toShader (Scan.settled v.env s i) i i.dest
      (.lookup kind .implicit i.dest.register.number
        (.call3 "vec3" first.product second.product (.dot i.destXyz i.sourceXyz)))).code
  reflection : i.opcode = .texM3x3Spec → ∃ kind,
    v.written = .vector3 (.normal i.dest.register)
        (.call1 "normalize" (.call3 "vec3" first.product second.product (.dot i.destXyz i.sourceXyz))) ::
      (Scan.assignTo v.env.toShader (Scan.settled v.env s i) i i.dest
        (.lookup kind .implicit i.dest.register.number
          (.call2 "TEXM3X3SPEC_reflection" (.name (.normal i.dest.register))
            (.lanes (.register (i.source 1).register) [.x, .y, .z])))).code
  ownReflection : i.opcode = .texM3x3VSpec → ∃ kind,
    v.written = .vector3 (.eyeRay i.dest.register) (.call3 "vec3" first.destW second.destW i.destW) ::
      .vector3 (.normal i.dest.register)
        (.call1 "normalize" (.call3 "vec3" first.product second.product (.dot i.destXyz i.sourceXyz))) ::
      (Scan.assignTo v.env.toShader (Scan.settled v.env s i) i i.dest
        (.lookup kind .implicit i.dest.register.number
          (.call2 "TEXM3X3SPEC_reflection" (.name (.normal i.dest.register))
            (.name (.eyeRay i.dest.register))))).code

namespace Scan

variable {env : Env} {sh : Shader} {s : Scan} {i : Instruction}

theorem row_of_faults {row : Option Pad} {fault : Fault} {before after : List Fault}
    (h : before ++ faultIf row.isNone fault ++ textureFaults i ++ after = []) :
    row.isSome = true ∧ i.OnTextures := by
  obtain ⟨hrest, -⟩ := List.append_eq_nil_iff.mp h
  obtain ⟨hrows, htextures⟩ := List.append_eq_nil_iff.mp hrest
  have hrow := faultIf_eq_nil (List.append_eq_nil_iff.mp hrows).2
  exact ⟨by simpa using hrow, Instruction.onTextures_of_textureFaults htextures⟩

theorem onTextures_of_pad (hop : i.opcode = .texM3x2Pad ∨ i.opcode = .texM3x3Pad)
    (legal : violations env s i = []) : i.OnTextures := by
  have hpad : padFaults env i = [] := by
    unfold violations at legal
    rcases hop with e | e
    · rw [e] at legal
      exact legal
    · rw [e] at legal
      exact legal
  exact Instruction.onTextures_of_textureFaults (List.append_eq_nil_iff.mp hpad).2

theorem instructionCode_texM3x2Tex (hop : i.opcode = .texM3x2Tex) {row : Pad}
    (hrow : s.pads.m3x2 = some row) :
    instructionCode sh s i = assignTo sh s i i.dest
      (.lookup .plane .implicit i.dest.register.number (.call2 "vec2" (padProduct row)
        (.dot (textureXyz (i.source 0).register.number) i.destXyz))) := by
  unfold instructionCode
  rw [hop]
  dsimp only
  rw [matrix2Code, hrow]
  rfl

theorem instructionCode_reflection (variableEye : Bool)
    (hop : i.opcode = if variableEye then .texM3x3VSpec else .texM3x3Spec) :
    instructionCode sh s i = reflectionCode sh s i variableEye := by
  unfold instructionCode
  rw [hop]
  cases variableEye <;> rfl

theorem const_of_texM3x3Spec (hop : i.opcode = .texM3x3Spec) (legal : violations env s i = []) :
    (i.source 1).register.file = .const := by
  unfold violations at legal
  rw [hop] at legal
  simpa using faultIf_eq_nil (List.append_eq_nil_iff.mp legal).2

section Three

variable {rows : Pad × Pad} (hrows : s.matrix3Pads? = some rows)
include hrows

theorem instructionCode_texM3x3 (hop : i.opcode = .texM3x3) :
    instructionCode sh s i = assignTo sh s i i.dest
      (.call4 "vec4" (padProduct rows.1) (padProduct rows.2)
        (.dot i.destXyz (textureXyz (i.source 0).register.number)) .one) := by
  unfold instructionCode
  rw [hop]
  dsimp only
  rw [matrix3Code, hrows]
  rfl

theorem instructionCode_texM3x3Tex (hop : i.opcode = .texM3x3Tex)
    (sound : (instructionCode sh s i).faults = []) : ∃ kind,
    instructionCode sh s i = assignTo sh s i i.dest
      (.lookup kind .implicit i.dest.register.number (.call3 "vec3" (padProduct rows.1)
        (padProduct rows.2) (.dot i.destXyz (textureXyz (i.source 0).register.number)))) := by
  unfold instructionCode at sound ⊢
  rw [hop] at sound ⊢
  dsimp only at sound ⊢
  rw [matrix3LookupCode, hrows] at sound ⊢
  dsimp only at sound ⊢
  cases hkind : s.spatialKind? i.dest.register.number with
  | none =>
    rw [hkind] at sound
    cases sound
  | some kind => exact ⟨kind, rfl⟩

/-- The code of a reflection: the eye ray where it is in the rows, the normal, the lookup. -/
theorem code_reflectionCode (variableEye : Bool)
    (sound : (reflectionCode sh s i variableEye).faults = []) : ∃ kind,
    (reflectionCode sh s i variableEye).code =
      (if variableEye then [.vector3 (.eyeRay i.dest.register) (.call3 "vec3"
          (textureLanes rows.1.dest [.w]) (textureLanes rows.2.dest [.w]) i.destW)] else []) ++
      .vector3 (.normal i.dest.register) (.call1 "normalize" (.call3 "vec3" (padProduct rows.1)
        (padProduct rows.2) (.dot i.destXyz (textureXyz (i.source 0).register.number)))) ::
      (assignTo sh s i i.dest (.lookup kind .implicit i.dest.register.number
        (.call2 "TEXM3X3SPEC_reflection" (.name (.normal i.dest.register))
          (if variableEye then .name (.eyeRay i.dest.register)
            else .lanes (.register ⟨.const, (i.source 1).register.number⟩) [.x, .y, .z])))).code := by
  unfold reflectionCode at sound ⊢
  rw [hrows] at sound ⊢
  dsimp only at sound ⊢
  cases hkind : s.spatialKind? i.dest.register.number with
  | none =>
    rw [hkind] at sound
    cases sound
  | some kind =>
    refine ⟨kind, ?_⟩
    cases variableEye <;> rfl

end Three

end Scan

theorem exists_of_mem_instructionsWith {op : Opcode} {us : List Visit}
    (h : i ∈ instructionsWith op us) : i.opcode = op ∧ ∃ u ∈ us, u.judged? = some i := by
  obtain ⟨hi, hop⟩ := List.mem_filter.mp h
  exact ⟨by simpa using hop, List.mem_filterMap.mp hi⟩

theorem mem_of_mem_sinceMatrix {us : List Visit} (h : u ∈ sinceMatrix us) : u ∈ us := by
  have hreverse := (List.takeWhile_prefix _).subset (List.mem_reverse.mp h)
  exact List.mem_reverse.mp hreverse

theorem rows_of_waiting {us : List Visit} (h : (waiting us).m3x3Second.isSome = true) :
    ∃ first second more, instructionsWith .texM3x3Pad us = first :: second :: more := by
  unfold waiting at h
  cases hrows : instructionsWith .texM3x3Pad us with
  | nil => simp [hrows] at h
  | cons first rest =>
    cases rest with
    | nil => simp [hrows] at h
    | cons second more => exact ⟨first, second, more, rfl⟩

section Clean

variable {earlier : List Visit} {v : Visit} {i : Instruction} {s : Scan}

theorem onTextures_of_mem {op : Opcode} (hop : op = .texM3x2Pad ∨ op = .texM3x3Pad)
    (does : ∀ u ∈ earlier, u.Does ∧ u.judged? = u.instruction?) {row : Instruction}
    (h : row ∈ instructionsWith op (sinceMatrix earlier)) : row.OnTextures := by
  obtain ⟨rfl, u, hu, hrow⟩ := exists_of_mem_instructionsWith h
  obtain ⟨hdoes, hsame⟩ := does u (mem_of_mem_sinceMatrix hu)
  obtain ⟨s, hexecutes⟩ := hdoes.executes (hsame.symm.trans hrow)
  exact Scan.onTextures_of_pad hop hexecutes.legal

theorem Visit.Executes.pads_settled (h : v.Executes i s) (hcloses : i.opcode.closesMatrix = true) :
    (Scan.settled v.env s i).pads = v.before.pads :=
  (Scan.pads_settled_of_closes hcloses).trans h.fetches.pads_eq

theorem takesTwo_of_executes (does : ∀ u ∈ earlier, u.Does ∧ u.judged? = u.instruction?)
    (hwaits : v.before.pads = waiting (sinceMatrix earlier)) (h : v.Executes i s)
    (hop : i.opcode = .texM3x2Tex) : ∃ row, TakesTwo (sinceMatrix earlier) v i s row := by
  have hcloses : i.opcode.closesMatrix = true := by rw [hop]; rfl
  have hfaults : Scan.matrix2Faults v.env s i = [] := by
    have hlegal := h.legal
    unfold Scan.violations at hlegal
    rw [hop] at hlegal
    exact hlegal
  obtain ⟨hsome, htextures⟩ := Scan.row_of_faults hfaults
  have hpads := (h.pads_settled hcloses).trans hwaits
  rw [h.fetches.pads_eq, hwaits] at hsome
  obtain ⟨row, hrow⟩ := Option.isSome_iff_exists.mp (Option.isSome_map.symm.trans hsome)
  have hwait : (Scan.settled v.env s i).pads.m3x2 = some (Scan.padOf row) := by
    rw [hpads, waiting, hrow]
    rfl
  have hrowTextures := onTextures_of_mem (.inl rfl) does (List.mem_of_getLast? hrow)
  refine ⟨row, hrow, ⟨hrowTextures, htextures⟩, hwait, ?_⟩
  rw [Visit.written_eq h.code_after, Scan.codeOf, Scan.instructionCode_texM3x2Tex hop hwait,
    hrowTextures.padProduct_eq, htextures.sourceXyz_eq]
  rfl

theorem takesThree_of_executes (does : ∀ u ∈ earlier, u.Does ∧ u.judged? = u.instruction?)
    (hwaits : v.before.pads = waiting (sinceMatrix earlier)) (h : v.Executes i s)
    (hcloses : i.opcode.closesMatrix = true) (hthree : i.opcode ≠ .texM3x2Tex) :
    ∃ first second, TakesThree (sinceMatrix earlier) v i s first second := by
  obtain ⟨hsome, htextures⟩ :=
    Scan.row_of_faults (Scan.matrix3Faults_of_legal hcloses hthree h.legal)
  have hpads := (h.pads_settled hcloses).trans hwaits
  rw [h.fetches.pads_eq, hwaits] at hsome
  obtain ⟨first, second, more, hrows⟩ := rows_of_waiting hsome
  -- the two rows that wait are the first ones since the last matrix
  have hwait : (Scan.settled v.env s i).matrix3Pads? =
      some (Scan.padOf first, Scan.padOf second) := by
    rw [Scan.matrix3Pads?, hpads, waiting, hrows]
    rfl
  have hfirst : first.OnTextures := onTextures_of_mem (.inr rfl) does (by simp [hrows])
  have hsecond : second.OnTextures := onTextures_of_mem (.inr rfl) does (by simp [hrows])
  have hwritten := Visit.written_eq h.code_after
  have hsound := h.sound
  unfold Scan.codeOf at hwritten hsound
  refine ⟨first, second, ⟨more, hrows⟩, ⟨hfirst, hsecond, htextures⟩, hwait, fun hop => ?_,
    fun hop => ?_, fun hop => ?_, fun hop => ?_⟩
  · rw [hwritten, Scan.instructionCode_texM3x3 hwait hop, hfirst.padProduct_eq, hsecond.padProduct_eq,
      htextures.sourceXyz_eq]
  · obtain ⟨kind, hcode⟩ := Scan.instructionCode_texM3x3Tex hwait hop hsound
    refine ⟨kind, ?_⟩
    rw [hwritten, hcode, hfirst.padProduct_eq, hsecond.padProduct_eq, htextures.sourceXyz_eq]
  · -- the eye is a constant
    rw [Scan.instructionCode_reflection false hop] at hwritten hsound
    obtain ⟨kind, hcode⟩ := Scan.code_reflectionCode hwait false hsound
    refine ⟨kind, ?_⟩
    rw [hwritten, hcode, hfirst.padProduct_eq, hsecond.padProduct_eq, htextures.sourceXyz_eq,
      ← Scan.const_of_texM3x3Spec hop h.legal]
    rfl
  · -- the eye is in the last components of the rows
    rw [Scan.instructionCode_reflection true hop] at hwritten hsound
    obtain ⟨kind, hcode⟩ := Scan.code_reflectionCode hwait true hsound
    refine ⟨kind, ?_⟩
    rw [hwritten, hcode, hfirst.padProduct_eq, hsecond.padProduct_eq, htextures.sourceXyz_eq,
      hfirst.destW_eq, hsecond.destW_eq]
    rfl

end Clean

theorem judged?_of_no_errors {p : Profile} {o : Options} {ws : List Word}
    (clean : (liftWords p o ws).errors = []) : ∀ u ∈ unitsOf o ws, u.judged? = u.instruction? :=
  fun u hu => u.judged?_of_clean (unitsOf_reported p o ws u hu).1 (unitsOf_of_no_errors p o ws clean u hu).2

/-- **Texture matrices have their rows.**  Before each unit of any shader those rows wait that the units
since the last matrix let wait.  In a shader without a fault the last instruction of a two-row matrix writes
the products of the last such row and its own; that of a three-row matrix those of the first two and its
own. -/
theorem lift_texture_matrices_have_their_rows (p : Profile) (o : Options) (ws : List Word) :
    (∀ earlier v later, unitsOf o ws = earlier ++ v :: later →
      v.before.pads = waiting (sinceMatrix earlier) ∧ v.before.pads.InOrder ∧ v.after.pads.InOrder ∧
      (v.closesMatrix = true → ∀ slot ∈ v.after.pads.slots, slot = (none, none))) ∧
    ((liftWords p o ws).errors = [] →
      (∃ l, linkShader o ws = .ok l ∧ l.scan.code = (unitsOf o ws).flatMap Visit.written) ∧
      (∀ u ∈ unitsOf o ws, u.judged? = u.instruction?) ∧
      ∀ earlier v later, unitsOf o ws = earlier ++ v :: later → ∀ i, v.instruction? = some i →
        ∃ s, v.Executes i s ∧
          (i.opcode = .texM3x2Tex → ∃ row, TakesTwo (sinceMatrix earlier) v i s row) ∧
          (i.opcode.closesMatrix = true → i.opcode ≠ .texM3x2Tex →
            ∃ first second, TakesThree (sinceMatrix earlier) v i s first second)) := by
  refine ⟨fun earlier v later hsplit => ?_, fun clean => ⟨?_, ?_, fun earlier v later hsplit i this => ?_⟩⟩
  · have hbefore := pads_eq_waiting hsplit
    have hafter := pads_after_eq_waiting hsplit
    refine ⟨hbefore, hbefore ▸ inOrder_waiting _, hafter ▸ inOrder_waiting _, fun hcloses => ?_⟩
    rw [hafter, sinceMatrix_snoc, if_pos hcloses]
    decide
  · obtain ⟨w, us, env, t, -, hlink, -⟩ := run_of_no_errors clean
    exact ⟨_, hlink, code_eq_written clean hlink⟩
  · exact judged?_of_no_errors clean
  · have hdoes : ∀ u ∈ unitsOf o ws, u.Does ∧ u.judged? = u.instruction? := fun u hu =>
      ⟨does_of_no_errors p o ws clean u hu, judged?_of_no_errors clean u hu⟩
    have hearlier : ∀ u ∈ earlier, u.Does ∧ u.judged? = u.instruction? := fun u hu =>
      hdoes u (by rw [hsplit]; exact List.mem_append_left _ hu)
    obtain ⟨s, h⟩ := (hdoes v (by simp [hsplit])).1.executes this
    exact ⟨s, h, takesTwo_of_executes hearlier (pads_eq_waiting hsplit) h,
      takesThree_of_executes hearlier (pads_eq_waiting hsplit) h⟩

/-- Code that looks a flat texture up by a two-row matrix, and a cube by a three-row matrix. -/
def bothMatrices : List Word :=
  [0xFFFF0101,
    0x42, 0xB00F0000,
    0x47, 0xB00F0001, 0xB0E40000,
    0x48, 0xB00F0002, 0xB0E40000,
    0x49, 0xB00F0001, 0xB0E40000,
    0x49, 0xB00F0002, 0xB0E40000,
    0x4A, 0xB00F0003, 0xB0E40000,
    0x1, 0x800F0000, 0xB0E40003,
    0xFFFF]

theorem exists_split_of_opcode {us : List Visit} {op : Opcode}
    (h : some op ∈ us.map fun v => v.instruction?.map Instruction.opcode) :
    ∃ earlier v later, us = earlier ++ v :: later ∧ ∃ i, v.instruction? = some i ∧ i.opcode = op := by
  obtain ⟨v, hv, hop⟩ := List.mem_map.mp h
  obtain ⟨earlier, later, hsplit⟩ := List.append_of_mem hv
  exact ⟨earlier, v, later, hsplit, Option.map_eq_some_iff.mp hop⟩

theorem rows_of_bothMatrices :
    (liftWords .glsl110 {} bothMatrices).errors = [] ∧
      (∃ earlier v later, unitsOf {} bothMatrices = earlier ++ v :: later ∧
        ∃ i s row, v.Executes i s ∧ TakesTwo (sinceMatrix earlier) v i s row) ∧
      ∃ earlier v later, unitsOf {} bothMatrices = earlier ++ v :: later ∧
        ∃ i s first second, v.Executes i s ∧ TakesThree (sinceMatrix earlier) v i s first second := by
  have clean : (liftWords .glsl110 {} bothMatrices).errors = [] := by decide +kernel
  have hrows := ((lift_texture_matrices_have_their_rows .glsl110 {} bothMatrices).2 clean).2.2
  refine ⟨clean, ?_, ?_⟩
  · obtain ⟨earlier, v, later, hsplit, i, hi, hop⟩ := exists_split_of_opcode
      (by decide +kernel : some Opcode.texM3x2Tex ∈ (unitsOf {} bothMatrices).map _)
    obtain ⟨s, h, hrow, -⟩ := hrows earlier v later hsplit i hi
    obtain ⟨row, hrow⟩ := hrow hop
    exact ⟨earlier, v, later, hsplit, i, s, row, h, hrow⟩
  · obtain ⟨earlier, v, later, hsplit, i, hi, hop⟩ := exists_split_of_opcode
      (by decide +kernel : some Opcode.texM3x3Tex ∈ (unitsOf {} bothMatrices).map _)
    obtain ⟨s, h, -, hrow⟩ := hrows earlier v later hsplit i hi
    obtain ⟨first, second, hrow⟩ := hrow (by rw [hop]; rfl) (by rw [hop]; decide)
    exact ⟨earlier, v, later, hsplit, i, s, first, second, h, hrow⟩

end ShaderLift
