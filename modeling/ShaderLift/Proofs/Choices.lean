/-
The meaning of choices.  An instruction that chooses takes, in every lane of its mask, the second source
if the first one passes a test, and the third one otherwise.  Its code does so for one group of lanes
after another: the lanes of a group read the same component of the first source, so one test decides for
all.

Expressions are evaluated over any type of numbers, and statements change a store (`Glsl.Store`).  A group
leaves what the instruction asks for in its lanes (`exec_chooseGroupCode`).  All groups together do if no
group reads a component that a group before it has assigned; in `choiceInPlace 0xE1` one does.
-/
import ShaderLift.Proofs.Written

namespace ShaderLift

namespace Glsl

variable {V : Type}
variable {scalar : Register → Bool}

/-! ### Values -/

/-- What the components of all registers hold.  Of a scalar register only `x` counts. -/
def Store (V : Type) : Type := Register → Lane → V

/-- The numbers that programs compute with, and everything but registers that they can name. -/
structure Numbers (V : Type) where
  literal : String → V
  name : Ident → V
  add : V → V → V
  compare : Comparison → V → V → Bool
  /-- The components of an element of an array. -/
  element : Ident → V → Lane → V

/-- The value of an expression: one number or more, or a truth value. -/
inductive Value (V : Type) where
  | numbers (xs : List V)
  | truth (b : Bool)

namespace Value

def numbers? : Value V → Option (List V)
  | .numbers xs => some xs
  | .truth _ => none

def number? : Value V → Option V
  | .numbers [x] => some x
  | _ => none

def truth? : Value V → Option Bool
  | .truth b => some b
  | .numbers _ => none

def vector? : Value V → Option (Lane → V)
  | .numbers [x, y, z, w] => some fun
    | .x => x
    | .y => y
    | .z => z
    | .w => w
  | _ => none

@[simp] theorem vector?_numbers (f : Lane → V) : (numbers (Lane.all.map f)).vector? = some f := by
  refine congrArg some (funext fun l => ?_)
  cases l <;> rfl

end Value

/-- The value of an expression, if it has one.  The registers that `scalar` tells are single numbers.  Calls
and lookups have no value. -/
def Expr.eval (scalar : Register → Bool) (N : Numbers V) (σ : Store V) : Expr → Option (Value V)
  | .number text => some (.numbers [N.literal text])
  | .name (.register r) => some (.numbers (if scalar r then [σ r .x] else Lane.all.map (σ r)))
  | .name i => some (.numbers [N.name i])
  | .lanes e ls => ((e.eval scalar N σ).bind Value.vector?).map fun f => .numbers (ls.map f)
  | .element array index =>
    ((index.eval scalar N σ).bind Value.number?).map fun x =>
      .numbers (Lane.all.map (N.element array x))
  | .group e => e.eval scalar N σ
  | .binary .add a b =>
    ((a.eval scalar N σ).bind Value.number?).bind fun x =>
      ((b.eval scalar N σ).bind Value.number?).map fun y => .numbers [N.add x y]
  | .binary (.compare c) a b =>
    ((a.eval scalar N σ).bind Value.number?).bind fun x =>
      ((b.eval scalar N σ).bind Value.number?).map fun y => .truth (N.compare c x y)
  | .choose test a b =>
    ((test.eval scalar N σ).bind Value.truth?).bind fun t =>
      ((a.eval scalar N σ).bind Value.numbers?).bind fun xs =>
        ((b.eval scalar N σ).bind Value.numbers?).bind fun ys =>
          -- both branches are of one type
          if xs.length = ys.length then some (.numbers (if t then xs else ys)) else none
  | _ => none

namespace Expr

variable {scalar : Register → Bool} {N : Numbers V} {σ : Store V}

@[simp] theorem eval_number (text : String) :
    (number text).eval scalar N σ = some (.numbers [N.literal text]) := rfl

@[simp] theorem eval_arrayBase (base : Nat) :
    (name (.arrayBase base)).eval scalar N σ = some (.numbers [N.name (.arrayBase base)]) := rfl

@[simp] theorem eval_register (r : Register) : (register r).eval scalar N σ =
    some (.numbers (if scalar r then [σ r .x] else Lane.all.map (σ r))) := rfl

@[simp] theorem eval_lanes (e : Expr) (ls : List Lane) : (lanes e ls).eval scalar N σ =
    ((e.eval scalar N σ).bind Value.vector?).map fun f => .numbers (ls.map f) := rfl

@[simp] theorem eval_element (array : Ident) (index : Expr) : (element array index).eval scalar N σ =
    ((index.eval scalar N σ).bind Value.number?).map fun x =>
      .numbers (Lane.all.map (N.element array x)) := rfl

@[simp] theorem eval_group (e : Expr) : (group e).eval scalar N σ = e.eval scalar N σ := rfl

@[simp] theorem eval_add (a b : Expr) : (add a b).eval scalar N σ =
    ((a.eval scalar N σ).bind Value.number?).bind fun x =>
      ((b.eval scalar N σ).bind Value.number?).map fun y => .numbers [N.add x y] := rfl

@[simp] theorem eval_compare (c : Comparison) (a b : Expr) : (compare c a b).eval scalar N σ =
    ((a.eval scalar N σ).bind Value.number?).bind fun x =>
      ((b.eval scalar N σ).bind Value.number?).map fun y => .truth (N.compare c x y) := rfl

theorem eval_choose {test a b : Expr} {t : Bool} {ls : List Lane} {f g : Lane → V}
    (htest : test.eval scalar N σ = some (.truth t))
    (ha : a.eval scalar N σ = some (.numbers (ls.map f)))
    (hb : b.eval scalar N σ = some (.numbers (ls.map g))) :
    (choose test a b).eval scalar N σ = some (.numbers (ls.map fun l => if t then f l else g l)) := by
  show (((test.eval scalar N σ).bind Value.truth?).bind _) = _
  rw [htest, ha, hb]
  cases t <;> simp [Value.truth?, Value.numbers?]

end Expr

/-! ### Statements -/

def Store.set (σ : Store V) (r : Register) (ls : List Lane) (xs : List V) : Store V := fun q l =>
  if q = r then ((ls.zip xs).lookup l).getD (σ q l) else σ q l

theorem Store.set_map (σ : Store V) (r : Register) (ls : List Lane) (f : Lane → V) (q : Register)
    (l : Lane) : σ.set r ls (ls.map f) q l = if q = r ∧ l ∈ ls then f l else σ q l := by
  have hlookup : (ls.zip (ls.map f)).lookup l = if l ∈ ls then some (f l) else none := by
    induction ls with
    | nil => rfl
    | cons k ls ih =>
      rw [List.map_cons, List.zip_cons_cons, List.lookup_cons, ih]
      by_cases hk : l = k
      · simp [hk]
      · simp [hk, beq_false_of_ne hk]
  unfold set
  by_cases hq : q = r <;> by_cases hl : l ∈ ls <;> simp [hq, hl, hlookup]

def Target.lanes (t : Target) : List Lane := if t.scalar then [.x] else t.mask.lanes

/-- What an assignment makes of a store.  As many numbers are assigned as the target has components. -/
def Stmt.exec (scalar : Register → Bool) (N : Numbers V) (σ : Store V) : Stmt → Option (Store V)
  | .assign t e =>
    ((e.eval scalar N σ).bind Value.numbers?).bind fun xs =>
      if xs.length = t.lanes.length then some (σ.set t.register t.lanes xs) else none
  | _ => none

theorem Stmt.exec_assign {N : Numbers V} {σ : Store V} {t : Target} {e : Expr} {f : Lane → V}
    (he : e.eval scalar N σ = some (.numbers (t.lanes.map f))) :
    (Stmt.assign t e).exec scalar N σ = some (σ.set t.register t.lanes (t.lanes.map f)) := by
  show ((e.eval scalar N σ).bind Value.numbers?).bind _ = _
  rw [he]
  simp [Value.numbers?]

def execAll (scalar : Register → Bool) (N : Numbers V) (σ : Store V) (cs : List Stmt) :
    Option (Store V) :=
  cs.foldlM (Stmt.exec scalar N) σ

theorem execAll_singleton {N : Numbers V} {σ : Store V} (c : Stmt) :
    execAll scalar N σ [c] = c.exec scalar N σ := by
  rw [execAll, List.foldlM_cons]
  exact bind_pure _

end Glsl

open Glsl

/-! ### Sources -/

/-- The component of a register that a source reads in a lane.  A relative source reads its index. -/
def Source.cell (scalar : Register → Bool) (a : Source) (l : Lane) : Register × Lane :=
  match a.relative with
  | none => (a.register, if scalar a.register then .x else a.swizzle.lane l)
  | some index => (index.register, index.lane)

namespace Scan

variable {V : Type} {N : Numbers V} {σ τ : Store V} {sh : Shader} {s t : Scan} {a : Source}
  {mask : WriteMask}
variable {index : RelativeIndex} {e : Expr}

/-- What a source has in a lane.  A relative source has it from the element that its index chooses. -/
def valueOf (sh : Shader) (s : Scan) (N : Numbers V) (σ : Store V) (a : Source) (l : Lane) : Option V :=
  match a.relative with
  | none => some (σ a.register (if s.isScalar sh a.register then .x else a.swizzle.lane l))
  | some _ =>
    ((variableOf sh s a).toOption.bind fun e =>
      (e.eval (s.isScalar sh) N σ).bind Value.vector?).map fun f => f (a.swizzle.lane l)

def indexValue (N : Numbers V) (σ : Store V) (index : RelativeIndex) : V :=
  if index.register.file = .loop then N.name .loopCounter else σ index.register index.lane

theorem eval_indexExpr (ha : a.IsIndexed) (h : a.relative = some index) :
    (indexExpr index).eval (s.isScalar sh) N σ = some (.numbers [indexValue N σ index]) := by
  unfold indexExpr indexValue
  split
  · rfl
  next hloop => simp [isScalar_index ha h hloop]

/-- A relative source reads an element of an array.  Which one depends on the index alone. -/
theorem eval_variableOf (N : Numbers V) (ha : a.IsIndexed) (hrelative : a.relative = some index)
    (he : variableOf sh s a = .ok e) :
    ∃ array, ∃ place : V → V, ∀ σ : Store V, e.eval (s.isScalar sh) N σ =
      some (.numbers (Lane.all.map (N.element array (place (indexValue N σ index))))) := by
  rcases variableOf_cases he with ⟨hnone, -⟩ | ⟨other, hother, hread⟩
  · rw [hrelative] at hnone
    cases hnone
  obtain rfl : other = index := Option.some.inj (hother.symm.trans hrelative)
  rcases hread with ⟨-, rfl⟩ | ⟨-, array, delta, rfl⟩
  · refine ⟨.inputArray, id, fun σ => ?_⟩
    simp [eval_indexExpr ha hrelative, Value.number?]
  -- the index alone, or added to the place where the element would be
  unfold arrayElement
  by_cases hzero : delta = 0
  · cases array.isLiteral with
    | true =>
      refine ⟨.constArray array.index array.count, id, fun σ => ?_⟩
      simp [eval_indexExpr ha hrelative, Value.number?, hzero]
    | false =>
      refine ⟨.packed .float, N.add (N.name (.arrayBase array.index)), fun σ => ?_⟩
      simp [eval_indexExpr ha hrelative, Value.number?, hzero]
  · cases array.isLiteral with
    | true =>
      refine ⟨.constArray array.index array.count, N.add (N.literal (toString delta)), fun σ => ?_⟩
      simp [eval_indexExpr ha hrelative, Value.number?, hzero]
    | false =>
      refine ⟨.packed .float,
        N.add (N.add (N.name (.arrayBase array.index)) (N.literal (toString delta))), fun σ => ?_⟩
      simp [eval_indexExpr ha hrelative, Value.number?, hzero]

theorem eval_select {scalar : Register → Bool} {f : Lane → V}
    (he : e.eval scalar N σ = some (.numbers (Lane.all.map f))) (swizzle : Swizzle) (mask : WriteMask) :
    (e.select swizzle mask).eval scalar N σ =
      some (.numbers (mask.lanes.map fun l => f (swizzle.lane l))) := by
  unfold Expr.select
  split
  next hall =>
    rw [Bool.and_eq_true] at hall
    have hidentity : swizzle = .identity := of_decide_eq_true hall.1
    have hmask : mask.lanes = Lane.all := of_decide_eq_true hall.2
    have hlane : ∀ l, swizzle.lane l = l := fun l => by
      rw [hidentity]
      cases l <;> rfl
    simp only [he, hmask, hlane]
  next => simp [he, Function.comp_def]

/-- The code of a source has the values of the source, lane by lane.  A scalar register has one only. -/
theorem eval_pick (he : variableOf sh s a = .ok e) (ha : a.IsIndexed)
    (hone : s.isScalar sh a.register = true → mask.size = 1) :
    ∃ f, (∀ l, valueOf sh s N σ a l = some (f l)) ∧
      (pick sh s a mask e).eval (s.isScalar sh) N σ = some (.numbers (mask.lanes.map f)) := by
  rcases variableOf_cases he with ⟨hrelative, rfl⟩ | ⟨index, hrelative, -⟩
  · refine ⟨fun l => σ a.register (if s.isScalar sh a.register then .x else a.swizzle.lane l),
      fun l => by rw [valueOf, hrelative], ?_⟩
    unfold pick
    cases hscalar : s.isScalar sh a.register with
    | true =>
      obtain ⟨l, hl⟩ := List.length_eq_one_iff.mp (hone hscalar)
      simp [hscalar, hl]
    | false =>
      simp only [Bool.false_eq_true, if_false]
      exact eval_select (by simp [hscalar]) _ _
  · obtain ⟨array, place, heval⟩ := eval_variableOf N ha hrelative he
    refine ⟨fun l => N.element array (place (indexValue N σ index)) (a.swizzle.lane l), fun l => ?_, ?_⟩
    · rw [valueOf, hrelative, he]
      simp [Except.toOption, heval]
    · unfold pick
      rw [isScalar_of_relative he hrelative, if_neg Bool.false_ne_true]
      exact eval_select (heval σ) _ _

theorem valueOf_congr {l : Lane} (ha : a.IsIndexed)
    (h : τ (a.cell (s.isScalar sh) l).1 (a.cell (s.isScalar sh) l).2 =
      σ (a.cell (s.isScalar sh) l).1 (a.cell (s.isScalar sh) l).2) :
    valueOf sh s N τ a l = valueOf sh s N σ a l := by
  unfold valueOf
  unfold Source.cell at h
  cases hrelative : a.relative with
  | none =>
    rw [hrelative] at h
    exact congrArg some h
  | some index =>
    rw [hrelative] at h
    have hvalue : indexValue N τ index = indexValue N σ index := by
      unfold indexValue
      rw [h]
    cases he : variableOf sh s a with
    | error fault => rfl
    | ok e =>
      obtain ⟨array, place, heval⟩ := eval_variableOf N ha hrelative he
      simp only [Except.toOption, Option.bind_some, heval, hvalue]

theorem valueOf_eq_of_lane (sh : Shader) (s : Scan) (N : Numbers V) (σ : Store V) {k l : Lane}
    (h : a.swizzle.lane k = a.swizzle.lane l) :
    valueOf sh s N σ a k = valueOf sh s N σ a l := by
  unfold valueOf
  rw [h]

theorem valueOf_congr_arrays (harrays : t.arrays = s.arrays) (hscalar : t.isScalar sh = s.isScalar sh) :
    valueOf sh t N σ a = valueOf sh s N σ a := by
  unfold valueOf
  rw [hscalar, variableOf_congr harrays]

theorem eval_sourceExpr (N : Numbers V) (σ : Store V) (he : sourceExpr sh s a mask = .ok e)
    (hplain : a.modifier = .plain) (ha : a.IsIndexed)
    (hone : s.isScalar sh a.register = true → mask.size = 1) :
    ∃ f, (∀ l, valueOf sh s N σ a l = some (f l)) ∧
      e.eval (s.isScalar sh) N σ = some (.numbers (mask.lanes.map f)) := by
  obtain ⟨g, x, hg, hx, rfl⟩ := exists_variableOf he
  rw [hplain] at hg
  cases hg
  exact eval_pick hx ha hone

end Scan

/-! ### Groups of lanes -/

theorem WriteMask.lanes_single (l : Lane) : (single l).lanes = [l] := by
  cases l <;> decide

theorem WriteMask.isEmpty_ofLanes {ls : List Lane} (h : ls ≠ []) : (ofLanes ls).isEmpty = false := by
  refine decide_eq_false fun hnone => h ?_
  refine List.eq_nil_iff_forall_not_mem.mpr fun l hl => ?_
  have hmem := mem_lanes_ofLanes.mpr hl
  rw [hnone] at hmem
  cases hmem

theorem WriteMask.lanes_ofLanes_singleton (l : Lane) : (ofLanes [l]).lanes = [l] := by
  cases l <;> decide

namespace Scan

variable {swizzle : Swizzle} {ls : List Lane}

/-- The lanes of a group are given lanes, and they read the same component as the first one. -/
theorem of_mem_laneGroups {group : Lane × List Lane} (h : group ∈ laneGroups swizzle ls) :
    group.1 ∈ group.2 ∧
      ∀ l ∈ group.2, l ∈ ls ∧ swizzle.lane l = swizzle.lane group.1 := by
  obtain ⟨l, hl, rfl⟩ := List.mem_map.mp h
  have hfirst := of_decide_eq_true (List.mem_filter.mp hl).2
  refine ⟨List.mem_of_mem_head? hfirst, fun k hk => ?_⟩
  obtain ⟨hmem, hsame⟩ := List.mem_filter.mp hk
  exact ⟨hmem, of_decide_eq_true hsame⟩

theorem mem_laneGroups (l : Lane) : (∃ group ∈ laneGroups swizzle ls, l ∈ group.2) ↔ l ∈ ls := by
  constructor
  · rintro ⟨group, hgroup, hl⟩
    exact ((of_mem_laneGroups hgroup).2 l hl).1
  · intro hl
    have hself : l ∈ ls.filter fun k => swizzle.lane k = swizzle.lane l :=
      List.mem_filter.mpr ⟨hl, decide_eq_true rfl⟩
    -- the group is that of the first lane which reads the same component
    obtain ⟨first, hfirst⟩ : ∃ first,
        (ls.filter fun k => swizzle.lane k = swizzle.lane l).head? = some first := by
      cases hlist : ls.filter fun k => swizzle.lane k = swizzle.lane l with
      | nil =>
        rw [hlist] at hself
        cases hself
      | cons first rest => exact ⟨first, rfl⟩
    obtain ⟨hmem, hsame⟩ := List.mem_filter.mp (List.mem_of_mem_head? hfirst)
    have hlane : swizzle.lane first = swizzle.lane l := of_decide_eq_true hsame
    refine ⟨(first, ls.filter fun k => swizzle.lane k = swizzle.lane first), ?_, ?_⟩
    · refine List.mem_map.mpr ⟨first, List.mem_filter.mpr ⟨hmem, decide_eq_true ?_⟩, rfl⟩
      show (ls.filter fun k => swizzle.lane k = swizzle.lane first).head? = some first
      rw [hlane]
      exact hfirst
    · rw [hlane]
      exact hself

end Scan

/-! ### Choices -/

/-- Whether a number passes the test of an instruction that chooses. -/
def Glsl.Numbers.passes {V : Type} (N : Numbers V) : Opcode → V → Bool
  | .cnd, x => N.compare .greater x (N.literal "0.5")
  | _, x => N.compare .greaterEqual x (N.literal "0.0")

namespace Scan

variable {V : Type} {N : Numbers V} {σ ρ τ : Store V} {sh : Shader} {s : Scan} {i : Instruction}
  {passes : V → Bool}
variable {ls : List Lane} {c : Comparison} {text : String} {group : Lane × List Lane}

/-- From `σ` to `τ` the given lanes of the destination become what an instruction chooses, with all sources
read in `σ`, and all else is kept. -/
structure Chooses (sh : Shader) (s : Scan) (N : Numbers V) (passes : V → Bool) (i : Instruction)
    (ls : List Lane) (σ τ : Store V) : Prop where
  chosen : ∀ l ∈ ls, ∃ x y z, valueOf sh s N σ (i.source 0) l = some x ∧
    valueOf sh s N σ (i.source 1) l = some y ∧ valueOf sh s N σ (i.source 2) l = some z ∧
    τ i.dest.register l = if passes x then y else z
  kept : ∀ r l, (r = i.dest.register → l ∉ ls) → τ r l = σ r l

/-- The lanes `later` read no component of the destination that is one of the lanes `earlier`. -/
def Spares (scalar : Register → Bool) (i : Instruction) (earlier later : List Lane) : Prop :=
  ∀ j ∈ earlier, ∀ k ∈ later, ∀ n < 3, (i.source n).cell scalar k ≠ (i.dest.register, j)

instance (scalar : Register → Bool) (i : Instruction) (earlier later : List Lane) :
    Decidable (Spares scalar i earlier later) :=
  inferInstanceAs (Decidable (∀ j ∈ earlier, ∀ k ∈ later, ∀ n < 3,
    (i.source n).cell scalar k ≠ (i.dest.register, j)))

/-- Lanes may be chosen one after another if the later ones spare the earlier ones. -/
theorem Chooses.append {ks : List Lane} (h : Chooses sh s N passes i ls σ ρ)
    (hrest : Chooses sh s N passes i ks ρ τ) (hspares : Spares (s.isScalar sh) i ls ks)
    (hindexed : ∀ n < 3, (i.source n).IsIndexed) : Chooses sh s N passes i (ls ++ ks) σ τ := by
  have hsame : ∀ k ∈ ks, ∀ n < 3,
      valueOf sh s N ρ (i.source n) k = valueOf sh s N σ (i.source n) k := by
    intro k hk n hn
    refine valueOf_congr (hindexed n hn) (h.kept _ _ fun hr hmem => ?_)
    exact hspares _ hmem k hk n hn (Prod.ext hr rfl)
  constructor
  · intro l hl
    by_cases hlater : l ∈ ks
    · obtain ⟨x, y, z, hx, hy, hz, hτ⟩ := hrest.chosen l hlater
      rw [hsame l hlater _ (by decide)] at hx hy hz
      exact ⟨x, y, z, hx, hy, hz, hτ⟩
    · obtain ⟨x, y, z, hx, hy, hz, hρ⟩ := h.chosen l ((List.mem_append.mp hl).resolve_right hlater)
      exact ⟨x, y, z, hx, hy, hz, (hrest.kept _ _ fun _ => hlater).trans hρ⟩
  · intro r l hl
    have hnot : r = i.dest.register → l ∉ ls ∧ l ∉ ks := fun hr =>
      not_or.mp fun hmem => hl hr (List.mem_append.mpr hmem)
    exact (hrest.kept r l fun hr => (hnot hr).2).trans (h.kept r l fun hr => (hnot hr).1)

/-- What is asked of an instruction that chooses: its sources are read and its result is written as they
are. -/
structure IsPlain (sh : Shader) (s : Scan) (i : Instruction) : Prop where
  modifier : ∀ n < 3, (i.source n).modifier = .plain
  indexed : ∀ n < 3, (i.source n).IsIndexed
  shift : i.dest.shift = 0
  unbounded : i.dest.modifiers.saturate = false
  narrowed : s.isScalar sh i.dest.register = true → i.dest.mask = .x

/-- The lanes of a group can be assigned at once: what they are chosen from has as many components. -/
def Fits (scalar : Register → Bool) (i : Instruction) (ls : List Lane) : Prop :=
  1 < ls.length → scalar (i.source 1).register = false ∧ scalar (i.source 2).register = false

instance (scalar : Register → Bool) (i : Instruction) (ls : List Lane) : Decidable (Fits scalar i ls) :=
  inferInstanceAs (Decidable (1 < ls.length →
    scalar (i.source 1).register = false ∧ scalar (i.source 2).register = false))

/-- The groups of an instruction that chooses can be assigned one after another: none reads a component of
the destination that one before it assigns. -/
structure IsSequential (scalar : Register → Bool) (i : Instruction) : Prop where
  fits : ∀ group ∈ laneGroups (i.source 0).swizzle i.dest.mask.lanes, Fits scalar i group.2
  spares : (laneGroups (i.source 0).swizzle i.dest.mask.lanes).Pairwise fun earlier later =>
    Spares scalar i earlier.2 later.2

instance (scalar : Register → Bool) (i : Instruction) : Decidable (IsSequential scalar i) :=
  decidable_of_iff
    ((∀ group ∈ laneGroups (i.source 0).swizzle i.dest.mask.lanes, Fits scalar i group.2) ∧
      (laneGroups (i.source 0).swizzle i.dest.mask.lanes).Pairwise fun earlier later =>
        Spares scalar i earlier.2 later.2)
    ⟨fun h => ⟨h.1, h.2⟩, fun h => ⟨h.fits, h.spares⟩⟩

theorem code_chooseGroupCode {test : Expr → Expr} (hplain : IsPlain sh s i)
    (hsome : (WriteMask.ofLanes group.2).isEmpty = false)
    (sound : (chooseGroupCode sh s i test group).faults = []) :
    ∃ a b c, sourceExpr sh s (i.source 0) (.single group.1) = .ok a ∧
      sourceExpr sh s (i.source 1) (.ofLanes group.2) = .ok b ∧
      sourceExpr sh s (i.source 2) (.ofLanes group.2) = .ok c ∧
      (chooseGroupCode sh s i test group).code =
        [.assign ⟨i.dest.register, .ofLanes group.2, s.isScalar sh i.dest.register⟩
          (.group (.choose (.group (test a)) b c))] := by
  unfold chooseGroupCode at sound ⊢
  obtain ⟨a, ha, hcode⟩ := bind_sourceAt sound
  rw [hcode] at sound ⊢
  obtain ⟨b, hb, hcode⟩ := bind_sourceAt sound
  rw [hcode] at sound ⊢
  obtain ⟨c, hc, hcode⟩ := bind_sourceAt sound
  rw [hcode] at sound ⊢
  refine ⟨a, b, c, ha, hb, hc, ?_⟩
  rw [assignTo_eq sound hsome]
  simp [Emission.write, finished, shifted, hplain.shift, hplain.unbounded]

/-- A scalar that a fitting group is chosen from has a component for the only lane of the group. -/
theorem size_of_fits {r : Register} (h : 1 < ls.length → s.isScalar sh r = false) (hsome : ls ≠ [])
    (hscalar : s.isScalar sh r = true) : (WriteMask.ofLanes ls).size = 1 := by
  have hlength : ls.length = 1 := by
    have hpos := List.length_pos_iff.mpr hsome
    have hle : ¬ 1 < ls.length := fun hlt => by
      rw [h hlt] at hscalar
      cases hscalar
    omega
  obtain ⟨l, rfl⟩ := List.length_eq_one_iff.mp hlength
  rw [WriteMask.size, WriteMask.lanes_ofLanes_singleton]
  rfl

theorem lanes_target (hplain : IsPlain sh s i) (hsome : ls ≠ []) (hsub : ls ⊆ i.dest.mask.lanes) :
    (⟨i.dest.register, .ofLanes ls, s.isScalar sh i.dest.register⟩ : Target).lanes =
      (WriteMask.ofLanes ls).lanes := by
  unfold Target.lanes
  dsimp only
  split
  next hscalar =>
    have hx : (WriteMask.ofLanes ls).isX = true := by
      refine WriteMask.isX_of_subset (WriteMask.isEmpty_ofLanes hsome) ?_
      rw [← hplain.narrowed hscalar]
      exact List.Subset.trans (WriteMask.lanes_ofLanes_subset ls) hsub
    exact (of_decide_eq_true hx).symm
  next => rfl

theorem exec_chooseGroupCode (N : Numbers V) (σ : Store V) (hplain : IsPlain sh s i)
    (hfits : Fits (s.isScalar sh) i group.2)
    (hgroup : group ∈ laneGroups (i.source 0).swizzle i.dest.mask.lanes)
    (sound : (chooseGroupCode sh s i (fun a => .compare c a (.number text)) group).faults = []) :
    ∃ τ, execAll (s.isScalar sh) N σ
        (chooseGroupCode sh s i (fun a => .compare c a (.number text)) group).code = some τ ∧
      Chooses sh s N (fun x => N.compare c x (N.literal text)) i group.2 σ τ := by
  -- all lanes of a group read one component of the first source
  obtain ⟨hfirst, hlanes⟩ := of_mem_laneGroups hgroup
  have hsome : group.2 ≠ [] := List.ne_nil_of_mem hfirst
  obtain ⟨a, b, d, ha, hb, hd, hcode⟩ := code_chooseGroupCode hplain (WriteMask.isEmpty_ofLanes hsome) sound
  obtain ⟨f, hf, hevala⟩ := eval_sourceExpr N σ ha (hplain.modifier 0 (by decide))
    (hplain.indexed 0 (by decide)) fun _ => congrArg List.length (WriteMask.lanes_single group.1)
  obtain ⟨g, hg, hevalb⟩ := eval_sourceExpr N σ hb (hplain.modifier 1 (by decide))
    (hplain.indexed 1 (by decide)) (size_of_fits (fun hlt => (hfits hlt).1) hsome)
  obtain ⟨h, hh, hevald⟩ := eval_sourceExpr N σ hd (hplain.modifier 2 (by decide))
    (hplain.indexed 2 (by decide)) (size_of_fits (fun hlt => (hfits hlt).2) hsome)
  have htest : (Expr.group (.compare c a (.number text))).eval (s.isScalar sh) N σ =
      some (.truth (N.compare c (f group.1) (N.literal text))) := by
    rw [WriteMask.lanes_single] at hevala
    simp [hevala, Value.number?]
  let target : Target := ⟨i.dest.register, .ofLanes group.2, s.isScalar sh i.dest.register⟩
  have htarget : target.lanes = (WriteMask.ofLanes group.2).lanes :=
    lanes_target hplain hsome fun l hl => (hlanes l hl).1
  rw [← htarget] at hevalb hevald
  have hvalue := (Expr.eval_group _).trans (Expr.eval_choose htest hevalb hevald)
  have hexec := Stmt.exec_assign (t := target) hvalue
  have hrun := (congrArg (execAll (s.isScalar sh) N σ) hcode).trans ((execAll_singleton _).trans hexec)
  refine ⟨_, hrun, ?_, ?_⟩
  · intro l hl
    have hx : f l = f group.1 := by
      have hsame := valueOf_eq_of_lane sh s N σ (hlanes l hl).2
      rw [hf, hf] at hsame
      exact Option.some.inj hsame
    refine ⟨f l, g l, h l, hf l, hg l, hh l, ?_⟩
    have hmem : l ∈ target.lanes := htarget ▸ WriteMask.mem_lanes_ofLanes.mpr hl
    rw [Store.set_map, if_pos ⟨rfl, hmem⟩, hx]
  · -- no lane outside the group is assigned to
    intro r l hl
    rw [Store.set_map, htarget]
    exact if_neg fun hmem => hl hmem.1 (WriteMask.mem_lanes_ofLanes.mp hmem.2)

theorem exec_chooseGroupsCode (N : Numbers V) (σ : Store V) {groups : List (Lane × List Lane)}
    (hplain : IsPlain sh s i)
    (hgroups : ∀ group ∈ groups, group ∈ laneGroups (i.source 0).swizzle i.dest.mask.lanes ∧
      Fits (s.isScalar sh) i group.2)
    (hordered : groups.Pairwise fun earlier later => Spares (s.isScalar sh) i earlier.2 later.2)
    (sound : (chooseGroupsCode sh s i (fun a => .compare c a (.number text)) groups).faults = []) :
    ∃ τ, execAll (s.isScalar sh) N σ
        (chooseGroupsCode sh s i (fun a => .compare c a (.number text)) groups).code = some τ ∧
      Chooses sh s N (fun x => N.compare c x (N.literal text)) i (groups.flatMap Prod.snd) σ τ := by
  induction groups generalizing σ with
  | nil => exact ⟨σ, rfl, fun _ hl => absurd hl List.not_mem_nil, fun _ _ _ => rfl⟩
  | cons group groups ih =>
    obtain ⟨⟨hgroup, hfits⟩, hrest⟩ := List.forall_mem_cons.mp hgroups
    obtain ⟨hspares, hordered⟩ := List.pairwise_cons.mp hordered
    obtain ⟨hsound, hsoundRest⟩ := List.append_eq_nil_iff.mp
      (show _ ++ (chooseGroupsCode sh s i _ groups).faults = [] from sound)
    obtain ⟨ρ, hρ, hchooses⟩ := exec_chooseGroupCode N σ hplain hfits hgroup hsound
    obtain ⟨τ, hτ, hlater⟩ := ih ρ hrest hordered hsoundRest
    refine ⟨τ, ?_, ?_⟩
    · show (_ ++ _ : List Stmt).foldlM _ σ = _
      rw [List.foldlM_append]
      exact (congrArg (· >>= _) hρ).trans hτ
    · -- what the first group has assigned is not read by the others
      rw [List.flatMap_cons]
      refine hchooses.append hlater (fun j hj k hk => ?_) hplain.indexed
      obtain ⟨other, hother, hk⟩ := List.mem_flatMap.mp hk
      exact hspares other hother j hj k hk

theorem Chooses.of_mem_iff {ks : List Lane} (h : Chooses sh s N passes i ls σ τ)
    (hsame : ∀ l, l ∈ ls ↔ l ∈ ks) : Chooses sh s N passes i ks σ τ :=
  ⟨fun l hl => h.chosen l ((hsame l).mpr hl), fun r l hl => h.kept r l fun hr hmem =>
    hl hr ((hsame l).mp hmem)⟩

theorem exec_chooseCode (hplain : IsPlain sh s i) (hsequential : IsSequential (s.isScalar sh) i)
    (sound : (chooseCode sh s i fun a => .compare c a (.number text)).faults = []) :
    ∃ τ, execAll (s.isScalar sh) N σ (chooseCode sh s i fun a => .compare c a (.number text)).code =
        some τ ∧
      Chooses sh s N (fun x => N.compare c x (N.literal text)) i i.dest.mask.lanes σ τ := by
  obtain ⟨τ, hτ, hchooses⟩ := exec_chooseGroupsCode N σ hplain
    (fun group hgroup => ⟨hgroup, hsequential.fits group hgroup⟩) hsequential.spares sound
  refine ⟨τ, hτ, hchooses.of_mem_iff fun l => ?_⟩
  rw [List.mem_flatMap]
  exact mem_laneGroups l

end Scan

/-! ### The main result -/

/-- **Choices keep their meaning.**  The code of an accepted instruction that chooses, without modifiers, has
the effect of the instruction on every store, if no group of lanes reads a component of the destination that
a group before it assigns.  A scalar can be chosen for one lane at a time only. -/
theorem choice_keeps_meaning {V : Type} (N : Numbers V) (σ : Store V) (v : Visit) (i : Instruction)
    (h : v.instruction? = some i) (accepted : v.after.failing = false)
    (hop : i.opcode = .cmp ∨ i.opcode = .cnd) (hsources : ∀ n < 3, (i.source n).modifier = .plain)
    (hdest : i.dest.modifiers.saturate = false ∧ i.dest.shift = 0)
    (hsequential : Scan.IsSequential (v.after.isScalar v.env.toShader) i) :
    ∃ τ, execAll (v.after.isScalar v.env.toShader) N σ v.written = some τ ∧
      Scan.Chooses v.env.toShader v.after N (N.passes i.opcode) i i.dest.mask.lanes σ τ := by
  obtain ⟨t, hcode⟩ := Visit.generates h accepted
  have hscalar := hcode.isScalar_eq v.env.toShader
  -- both opcodes have one shape
  have hcount : i.opcode.info.shape.sourceCount v.env.toShader = 3 := by
    rcases hop with hop | hop <;> rw [hop] <;> rfl
  have hshape : i.opcode.info.shape.hasDest = true := by
    rcases hop with hop | hop <;> rw [hop] <;> rfl
  have hother : i.opcode ≠ .dcl := by
    rcases hop with hop | hop <;> rw [hop] <;> decide
  have hplain : Scan.IsPlain v.env.toShader t i :=
    { modifier := hsources
      indexed := fun n hn => hcode.indexed n (hcount ▸ hn)
      shift := hdest.2
      unbounded := hdest.1
      narrowed := hcode.mask hshape hother }
  have hsound := hcode.sound
  rw [hcode.code]
  rw [← hscalar] at hsequential ⊢
  have hvalues : ∀ {passes : V → Bool} {τ : Store V},
      Scan.Chooses v.env.toShader t N passes i i.dest.mask.lanes σ τ →
        Scan.Chooses v.env.toShader v.after N passes i i.dest.mask.lanes σ τ := by
    intro passes τ hchooses
    refine ⟨fun l hl => ?_, hchooses.kept⟩
    simp only [← Scan.valueOf_congr_arrays hcode.arrays hscalar]
    exact hchooses.chosen l hl
  unfold Scan.instructionCode at hsound ⊢
  rcases hop with hop | hop <;> rw [hop] at hsound ⊢
  all_goals
    obtain ⟨τ, hτ, hchooses⟩ := Scan.exec_chooseCode hplain hsequential hsound
    exact ⟨τ, hτ, hvalues hchooses⟩

/-! ### Choices in place -/

def halves : Numbers Int where
  literal text := if text = "0.5" then 1 else 0
  name _ := 0
  add := (· + ·)
  compare
    | .greater, x, y => y < x
    | .equal, x, y => x = y
    | .greaterEqual, x, y => y ≤ x
    | .less, x, y => x < y
    | .notEqual, x, y => x ≠ y
    | .lessEqual, x, y => x ≤ y
  element _ n _ := n

/-- Positive are the first constant and the first temporary but for its second component. -/
def mixedSigns : Store Int := fun r l =>
  if r = ⟨.temp, 0⟩ then if l = .y then -1 else 1
  else if r = ⟨.const, 1⟩ then 1
  else -1

/-- A pixel shader that chooses in place, by the components of the destination that a swizzle says. -/
def choiceInPlace (swizzle : Word) : List Word :=
  [0xFFFF0200,
    0x02000001, 0x800F0000, 0xA0E40000,
    0x04000058, 0x80030000, 0x80000000 + 0x10000 * swizzle, 0xA0E40001, 0xA0E40002,
    0x02000001, 0x800F0800, 0x80E40000,
    0xFFFF]

theorem choiceInPlace_keeps_meaning :
    ∃ v ∈ unitsOf {} (choiceInPlace 0xE4), ∃ i, v.instruction? = some i ∧ v.after.failing = false ∧
      i.opcode = .cmp ∧ (∀ n < 3, (i.source n).modifier = .plain) ∧
      (i.source 0).register = i.dest.register ∧
      ∃ τ, execAll (v.after.isScalar v.env.toShader) halves mixedSigns v.written = some τ ∧
        Scan.Chooses v.env.toShader v.after halves (halves.passes i.opcode) i i.dest.mask.lanes
          mixedSigns τ := by
  have hfound : ((unitsOf {} (choiceInPlace 0xE4)).any fun v => v.instruction?.any fun i =>
      decide (v.after.failing = false ∧ i.opcode = .cmp ∧
        (∀ n < (3 : Nat), (i.source n).modifier = .plain) ∧
        (i.source 0).register = i.dest.register ∧
        (i.dest.modifiers.saturate = false ∧ i.dest.shift = 0) ∧
        Scan.IsSequential (v.after.isScalar v.env.toShader) i)) = true := by
    decide +kernel
  obtain ⟨v, hv, i, hi, hfacts⟩ := exists_instruction hfound
  obtain ⟨haccepted, hop, hsources, hplace, hdest, hsequential⟩ := of_decide_eq_true hfacts
  exact ⟨v, hv, i, hi, haccepted, hop, hsources, hplace,
    choice_keeps_meaning halves mixedSigns v i hi haccepted (.inl hop) hsources hdest hsequential⟩

/-- If the swizzle exchanges the two components, the second choice is made by what the first one has
assigned. -/
theorem crossed_choiceInPlace_changes_meaning :
    (liftWords .glsl110 {} (choiceInPlace 0xE1)).errors = [] ∧
      ∃ v ∈ unitsOf {} (choiceInPlace 0xE1), ∃ i, v.instruction? = some i ∧ v.after.failing = false ∧
        i.opcode = .cmp ∧ (∀ n < 3, (i.source n).modifier = .plain) ∧
        (i.dest.modifiers.isEmpty = true ∧ i.dest.shift = 0) ∧
        ∃ τ, execAll (v.after.isScalar v.env.toShader) halves mixedSigns v.written = some τ ∧
          ¬ Scan.Chooses v.env.toShader v.after halves (halves.passes i.opcode) i i.dest.mask.lanes
            mixedSigns τ := by
  refine ⟨by decide +kernel, ?_⟩
  have hfound : ((unitsOf {} (choiceInPlace 0xE1)).any fun v => v.instruction?.any fun i =>
      decide (v.after.failing = false ∧ i.opcode = .cmp ∧
        (∀ n < (3 : Nat), (i.source n).modifier = .plain) ∧
        (i.dest.modifiers.isEmpty = true ∧ i.dest.shift = 0) ∧ Lane.y ∈ i.dest.mask.lanes ∧
        (execAll (v.after.isScalar v.env.toShader) halves mixedSigns v.written).map
          (fun τ => τ i.dest.register .y) = some (-1) ∧
        Scan.valueOf v.env.toShader v.after halves mixedSigns (i.source 0) .y = some 1 ∧
        Scan.valueOf v.env.toShader v.after halves mixedSigns (i.source 1) .y = some 1)) = true := by
    decide +kernel
  obtain ⟨v, hv, i, hi, hfacts⟩ := exists_instruction hfound
  obtain ⟨haccepted, hop, hsources, hdest, hlane, hrun, htest, hfirst⟩ := of_decide_eq_true hfacts
  obtain ⟨τ, hτ, hresult⟩ := Option.map_eq_some_iff.mp hrun
  refine ⟨v, hv, i, hi, haccepted, hop, hsources, hdest, τ, hτ, fun hchooses => ?_⟩
  obtain ⟨x, y, z, hx, hy, -, hchosen⟩ := hchooses.chosen .y hlane
  rw [htest] at hx
  rw [hfirst] at hy
  cases hx
  cases hy
  rw [hop, hresult, if_pos (by decide)] at hchosen
  exact absurd hchosen (by decide)

end ShaderLift
