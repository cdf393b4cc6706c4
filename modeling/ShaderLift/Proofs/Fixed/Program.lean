/-
The whole program on a machine of fixed width.  What is left is the text: lines are laid out at a depth
that is counted in 32 bits with a sign, and every statement turns it twice at most, so that it stays in
range whether or not the blocks of a shader are balanced.

Main result: for a shader of fewer than 2 ^ 28 words the machine has the result that the program has
(`Fixed.liftWords_eq`).
-/
import ShaderLift.Proofs.Fixed.Interface

namespace ShaderLift.Fixed

open Glsl (Layout Profile Stmt Helper turnsOf)

variable {env : Env} {s : Scan} {us ws : List Word}
variable (p : Profile) (o : Options) (l : LinkedShader)

/-! ### Layout -/

def turn (depth delta : Int) : Option Int :=
  if -2 ^ 31 ≤ depth + delta ∧ depth + delta < 2 ^ 31 then some (depth + delta) else none

def layout : List Layout → Int → Option (String × Int)
  | [], depth => some ("", depth)
  | .line text :: rest, depth => do
    let (after, last) ← layout rest depth
    return (Layout.lineAt depth text ++ after, last)
  | .blank :: rest, depth => do
    let (after, last) ← layout rest depth
    return ("\n" ++ after, last)
  | .indent :: rest, depth => do layout rest (← turn depth 1)
  | .outdent :: rest, depth => do layout rest (← turn depth (-1))

def layoutParts : List (List Layout) → Option String
  | [] => some ""
  | part :: parts => do return (← layout part 0).1 ++ (← layoutParts parts)

theorem turn_of_natAbs_lt {depth delta : Int} (h : depth.natAbs + delta.natAbs < 2 ^ 31) :
    turn depth delta = some (depth + delta) :=
  if_pos (by omega)

theorem layout_eq {steps : List Layout} {depth : Int}
    (h : depth.natAbs + steps.countP Layout.isTurn < 2 ^ 31) :
    layout steps depth = some (Layout.run steps depth) := by
  induction steps generalizing depth with
  | nil => rfl
  | cons step steps ih =>
    cases step with
    | line text =>
      rw [layout, ih h]
      rfl
    | blank =>
      rw [layout, ih h]
      rfl
    | indent =>
      rw [List.countP_cons_of_pos rfl] at h
      rw [layout, turn_of_natAbs_lt (show depth.natAbs + Int.natAbs 1 < 2 ^ 31 by omega)]
      exact ih (by omega)
    | outdent =>
      rw [List.countP_cons_of_pos rfl] at h
      rw [layout, turn_of_natAbs_lt (show depth.natAbs + Int.natAbs (-1) < 2 ^ 31 by omega)]
      exact ih (by omega)

theorem natAbs_run_le (steps : List Layout) (depth : Int) :
    (Layout.run steps depth).2.natAbs ≤ depth.natAbs + steps.countP Layout.isTurn := by
  induction steps generalizing depth with
  | nil => exact Nat.le_refl _
  | cons step steps ih =>
    cases step with
    | line | blank => exact ih depth
    | indent =>
      have hrest := ih (depth + 1)
      rw [List.countP_cons_of_pos rfl, Layout.run]
      omega
    | outdent =>
      have hrest := ih (depth - 1)
      rw [List.countP_cons_of_pos rfl, Layout.run]
      omega

theorem layoutParts_eq {parts : List (List Layout)}
    (h : ∀ part ∈ parts, part.countP Layout.isTurn < 2 ^ 31 ∧ (Layout.run part 0).2 = 0) :
    layoutParts parts = some (Layout.run parts.flatten 0).1 := by
  induction parts with
  | nil => rfl
  | cons part parts ih =>
    obtain ⟨⟨hturns, hlevel⟩, hparts⟩ := List.forall_mem_cons.mp h
    have hpart : layout part 0 = some (Layout.run part 0) := layout_eq (by simpa using hturns)
    rw [layoutParts, hpart, ih hparts, List.flatten_cons, Layout.run_append, hlevel]
    rfl

/-! ### Texts without turns -/

@[simp] theorem countP_isTurn_lines (ls : List String) :
    (Layout.lines ls).countP Layout.isTurn = 0 := by
  induction ls with
  | nil => rfl
  | cons l ls ih => exact ih

theorem countP_isTurn_preface : (Glsl.preface p o l).countP Layout.isTurn = 0 := by
  unfold Glsl.preface Glsl.sizeLayout
  dsimp only
  simp only [List.countP_append, countP_isTurn_lines]
  split <;> split <;> split <;> simp [Layout.isTurn]

theorem countP_isTurn_globals : (Glsl.globals p l).countP Layout.isTurn = 0 := by
  simp [Glsl.globals, Layout.isTurn]

theorem countP_isTurn_intro : (Glsl.intro o l).countP Layout.isTurn = 1 := by
  rw [Glsl.intro, List.countP_append, countP_isTurn_lines]
  rfl

theorem countP_isTurn_epilogue (sh : Shader) : (Glsl.epilogue o sh).countP Layout.isTurn = 0 := by
  unfold Glsl.epilogue
  split
  · split <;> split <;> rfl
  · rfl

theorem level_helper (h : Helper) :
    h.layout.countP Layout.isTurn < 2 ^ 31 ∧ (Layout.run h.layout 0).2 = 0 := by
  cases h <;> exact ⟨by decide, rfl⟩

theorem countP_isTurn_bodies (sh : Shader) (code : List Stmt) :
    (Glsl.bodies o sh code).1.countP Layout.isTurn + (Glsl.bodies o sh code).2.countP Layout.isTurn =
      turnsOf code := by
  have hsplit : code = (Glsl.mainBody code).1 ++ ((Glsl.mainBody code).2.take 1 ++
      (Glsl.mainBody code).2.drop 1) := by
    rw [List.take_append_drop, Glsl.mainBody, List.span_eq_takeWhile_dropWhile,
      List.takeWhile_append_dropWhile]
  have hturns : turnsOf code = turnsOf (Glsl.mainBody code).1 +
      (turnsOf ((Glsl.mainBody code).2.take 1) + turnsOf ((Glsl.mainBody code).2.drop 1)) := by
    rw [← Glsl.turnsOf_append, ← Glsl.turnsOf_append, ← hsplit]
  have hmain : (Glsl.bodies o sh code).1.countP Layout.isTurn =
      turnsOf (Glsl.mainBody code).1 + turnsOf ((Glsl.mainBody code).2.take 1) := by
    show List.countP _ ((Glsl.mainBody code).1.flatMap (Stmt.layout sh) ++ Glsl.epilogue o sh ++
      ((Glsl.mainBody code).2.take 1).flatMap (Stmt.layout sh)) = _
    rw [List.countP_append, List.countP_append, countP_isTurn_epilogue, Glsl.countP_isTurn_layout,
      Glsl.countP_isTurn_layout, Nat.add_zero]
  have hsubroutines : (Glsl.bodies o sh code).2.countP Layout.isTurn =
      turnsOf ((Glsl.mainBody code).2.drop 1) := Glsl.countP_isTurn_layout sh _
  omega

/-! ### The program -/

def program (p : Profile) (o : Options) (l : LinkedShader) : Option String := do
  let (main, subroutines) := Glsl.bodies o l.env.toShader l.scan.code
  let (mainText, depth) ← layout main 1
  return (← layout (Glsl.preface p o l) 0).1
    ++ (← layout (Glsl.globals p l) 0).1
    ++ (← layoutParts (l.scan.helpers.map Helper.layout))
    ++ (← layout subroutines depth).1
    ++ (← layout (Glsl.intro o l) 0).1
    ++ mainText

/-- Reads a shader and makes its interface out.  Lines are laid out while the units are read, so a
shader that turns out to be at fault has been laid out, too. -/
def linkShader (o : Options) : List Word → Option (Except (List LocatedFault) LinkedShader)
  | [] => some (.error [⟨.before, .noVersion⟩])
  | w :: us =>
    match Env.ofWord? o w with
    | none => some (.error [⟨.before, .notAShader⟩])
    | some env => do
      let s ← ofUnits env us
      let _ ← layout (s.code.flatMap (Stmt.layout env.toShader)) 1
      let _ ← layoutParts (s.helpers.map Helper.layout)
      if s.faults.isEmpty then
        let interface ← ofScan env.toShader s
        let found := Interface.faults env.toShader s
        if found.isEmpty then return .ok { env := env, scan := s, interface := interface }
        else return .error (found.map fun f => ⟨.after, f⟩)
      else return .error s.faults

def liftWords (p : Profile) (o : Options) (ws : List Word) : Option Lifted := do
  match ← linkShader o ws with
  | .error faults => return Lifted.failed p o faults
  | .ok l => return { l.lifted p o with output := ← program p o l }

theorem layoutParts_helpers (hs : List Helper) :
    layoutParts (hs.map Helper.layout) = some (Layout.run (hs.flatMap Helper.layout) 0).1 := by
  rw [List.flatMap_def]
  apply layoutParts_eq
  intro part hpart
  obtain ⟨h, -, rfl⟩ := List.mem_map.mp hpart
  exact level_helper h

theorem program_eq {l : LinkedShader} (h : turnsOf l.scan.code < 2 ^ 30) (p : Profile) (o : Options) :
    program p o l = some (Glsl.program p o l) := by
  have hturns := countP_isTurn_bodies o l.env.toShader l.scan.code
  have hmain : layout (Glsl.bodies o l.env.toShader l.scan.code).1 1 = some _ :=
    layout_eq (show Int.natAbs 1 + _ < 2 ^ 31 by omega)
  have hdepth := natAbs_run_le (Glsl.bodies o l.env.toShader l.scan.code).1 1
  have hsubroutines : layout (Glsl.bodies o l.env.toShader l.scan.code).2
      (Layout.run (Glsl.bodies o l.env.toShader l.scan.code).1 1).2 = some _ :=
    layout_eq (by omega)
  have hpreface : layout (Glsl.preface p o l) 0 = some _ :=
    layout_eq (by rw [countP_isTurn_preface]; decide)
  have hglobals : layout (Glsl.globals p l) 0 = some _ :=
    layout_eq (by rw [countP_isTurn_globals]; decide)
  have hintro : layout (Glsl.intro o l) 0 = some _ :=
    layout_eq (by rw [countP_isTurn_intro]; decide)
  simp only [program, hmain, hsubroutines, hpreface, hglobals, hintro, layoutParts_helpers,
    some_bind]
  rfl

theorem turnsOf_ofUnits_lt (env : Env) (few : us.length + 1 < 2 ^ 28) :
    turnsOf (Scan.ofUnits env us).code < 2 ^ 30 := by
  have hturns : turnsOf (Scan.ofUnits env us).code ≤ 2 * (1 + us.length) :=
    (Scan.Tally.Within.ofUnits env us).turns
  omega

theorem layout_ofUnits (env : Env) (few : us.length + 1 < 2 ^ 28) :
    layout ((Scan.ofUnits env us).code.flatMap (Stmt.layout env.toShader)) 1 =
      some (Layout.run ((Scan.ofUnits env us).code.flatMap (Stmt.layout env.toShader)) 1) := by
  have hturns := turnsOf_ofUnits_lt env few
  apply layout_eq
  rw [Glsl.countP_isTurn_layout]
  omega

theorem ofScan_ofUnits (env : Env) (few : us.length + 1 < 2 ^ 28) (sh : Shader) :
    ofScan sh (Scan.ofUnits env us) = some (Interface.ofScan sh (Scan.ofUnits env us)) := by
  have hconstants : (Scan.ofUnits env us).constants.length ≤ 1 + us.length :=
    (Scan.Tally.Within.ofUnits env us).constants
  exact ofScan_eq (Interface.placeable_ofUnits env us) (by omega) sh

theorem linkShader_eq (few : ws.length < 2 ^ 28) :
    linkShader o ws = some (ShaderLift.linkShader o ws) := by
  have hlink := linking_linkShader o ws
  generalize ShaderLift.linkShader o ws = outcome at hlink ⊢
  cases hlink with
  | noVersion => rfl
  | notAShader other => rw [linkShader, other]
  | @badUnits _ _ env version bad =>
    simp only [linkShader, version, ofUnits_eq env (Nat.le_of_lt few), layout_ofUnits env few,
      layoutParts_helpers, some_bind, List.isEmpty_iff, if_neg bad]
    rfl
  | @badInterface _ _ env version good bad =>
    simp only [linkShader, version, ofUnits_eq env (Nat.le_of_lt few), layout_ofUnits env few,
      layoutParts_helpers, some_bind, List.isEmpty_iff, if_pos good,
      ofScan_ofUnits env few, if_neg bad]
    rfl
  | @linked _ _ env version good fit =>
    simp only [linkShader, version, ofUnits_eq env (Nat.le_of_lt few), layout_ofUnits env few,
      layoutParts_helpers, some_bind, List.isEmpty_iff, if_pos good,
      ofScan_ofUnits env few, if_pos fit]
    rfl

/-- **A machine of fixed width has the result of the program for every shader of fewer than 2 ^ 28 words.**
-/
theorem liftWords_eq (few : ws.length < 2 ^ 28) :
    liftWords p o ws = some (ShaderLift.liftWords p o ws) := by
  have hlink := linking_linkShader o ws
  rw [liftWords, linkShader_eq o few, ShaderLift.liftWords_eq]
  generalize ShaderLift.linkShader o ws = outcome at hlink ⊢
  cases hlink with
  | @linked _ us env version good fit =>
    have hturns : turnsOf (LinkedShader.ofUnits env us).scan.code < 2 ^ 30 :=
      turnsOf_ofUnits_lt env few
    simp only [some_bind, program_eq hturns]
    rfl
  | _ => rfl

end ShaderLift.Fixed
