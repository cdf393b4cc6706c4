/-
How the code of an instruction is put together: from what its operands give, from names that stand for no
register and from pieces of text (`IsPiece`).  A property of expressions that carries over to whatever is
put together from them (`Expr.Compositional`) is one of all values in the code of an instruction if its
operands and lookups have it (`Scan.Provides`).  What has to be gone through for every opcode is gone
through here, once: in `says_instructionCode` without control flow, and in `forall_mem_instructionCode`
for all of them.
-/
import ShaderLift.Proofs.Clear
import ShaderLift.Proofs.Consequences
import ShaderLift.Proofs.Readers

namespace ShaderLift

variable (n : Nat)

/-! ### Braces -/

inductive Brace where
  | opening
  | closing
  deriving Repr, DecidableEq

def Brace.ofChar? (c : Char) : Option Brace :=
  if c = '\x7b' then some .opening else if c = '\x7d' then some .closing else none

def bracesOf (text : String) : List Brace := text.toList.filterMap Brace.ofChar?

@[simp] theorem bracesOf_append (a b : String) : bracesOf (a ++ b) = bracesOf a ++ bracesOf b := by
  simp [bracesOf]

@[simp] theorem bracesOf_repr : bracesOf n.repr = [] := by
  show (String.ofList (Nat.toDigits 10 n)).toList.filterMap Brace.ofChar? = []
  rw [String.toList_ofList, List.filterMap_eq_nil_iff]
  intro c hc
  have hdigit : c.isDigit = true :=
    Nat.isDigit_of_mem_toDigits (by decide : 0 < 10) (by decide : 10 ≤ 10) hc
  have hopening : c ≠ '\x7b' := by
    rintro rfl
    exact absurd hdigit (by decide)
  have hclosing : c ≠ '\x7d' := by
    rintro rfl
    exact absurd hdigit (by decide)
  rw [Brace.ofChar?, if_neg hopening, if_neg hclosing]

/-! ### Pieces of text -/

/-- A piece of text that code is put together from: without braces and without names of the fixed-function
pipeline. -/
structure IsPiece (text : String) : Prop where
  braces : bracesOf text = []
  clear : Clear text

instance (text : String) : Decidable (IsPiece text) :=
  decidable_of_iff (bracesOf text = [] ∧ Clear text)
    ⟨fun h => ⟨h.1, h.2⟩, fun h => ⟨h.braces, h.clear⟩⟩

theorem IsPiece.append {a b : String} (ha : IsPiece a) (hb : IsPiece b) : IsPiece (a ++ b) :=
  ⟨by rw [bracesOf_append, ha.braces, hb.braces]; rfl, ha.clear.append hb.clear⟩

@[simp] theorem isPiece_repr : IsPiece n.repr := ⟨bracesOf_repr n, clear_repr n⟩

theorem isPiece_underscore_repr : IsPiece ("_" ++ n.repr) :=
  ⟨by rw [bracesOf_append, bracesOf_repr]; decide, clear_underscore_repr n⟩

/-! ### Operands -/

theorem WriteMask.mem_lanes_ofLanes {ls : List Lane} {l : Lane} : l ∈ (ofLanes ls).lanes ↔ l ∈ ls := by
  have hhas : ∀ x y z w : Bool, ∀ l : Lane, l ∈ (ofBools x y z w).lanes ↔
      (l = .x ∧ x = true) ∨ (l = .y ∧ y = true) ∨ (l = .z ∧ z = true) ∨ (l = .w ∧ w = true) := by
    intro x y z w l
    cases x <;> cases y <;> cases z <;> cases w <;> cases l <;> decide
  rw [ofLanes, hhas]
  simp only [List.contains_iff_mem]
  cases l <;> simp

theorem WriteMask.lanes_ofLanes_subset (ls : List Lane) : (ofLanes ls).lanes ⊆ ls :=
  fun _ => mem_lanes_ofLanes.mp

/-- Whether an opcode has to do with control flow. -/
def Opcode.isFlow : Opcode → Bool
  | .call | .callNz | .loop | .endLoop | .rep | .endRep | .ifBool | .ifCompare | .otherwise | .endIf
  | .leave | .leaveCompare | .leavePredicate | .label | .ret | .texKill => true
  | _ => false

def Opcode.readsTexture : Opcode → Bool
  | .texBem | .texBemL | .texM3x2Pad | .texM3x2Tex | .texM3x3Pad | .texM3x3Tex | .texM3x3
  | .texM3x3Spec | .texM3x3VSpec => true
  | _ => false

/-- Whether an opcode looks up a flat texture, without a look at what is known about the sampler. -/
def Opcode.looksUpPlane : Opcode → Bool
  | .texBem | .texBemL | .texM3x2Tex => true
  | _ => false

/-- Whether an opcode looks up with a reflected eye ray, for which it writes local vectors. -/
def Opcode.reflects : Opcode → Bool
  | .texM3x3Spec | .texM3x3VSpec => true
  | _ => false

def Pads.rows (ps : Pads) : List Pad :=
  ps.m3x2.toList ++ ps.m3x3First.toList ++ ps.m3x3Second.toList

namespace Glsl

@[simp] theorem isPiece_floatCast (n : Nat) : IsPiece (floatCast n) := by
  have hvec : IsPiece "vec" := by decide
  unfold floatCast
  split
  · decide
  · exact hvec.append (isPiece_repr n)

def Stmt.test? : Stmt → Option Expr
  | .callIf e _ _ | .openRep _ e | .openIf e | .leaveIf e => some e
  | _ => none

/-- Whether a statement names no register other than a label. -/
def Stmt.isMark : Stmt → Bool
  | .call _ _ | .closeLoop | .openElse | .closeBlock | .leave | .openFunction _ _ | .closeFunction => true
  | _ => false

/-- The opcode of a statement that opens or closes a function or opens a loop. -/
def Stmt.frame? : Stmt → Option Opcode
  | .openFunction _ _ => some .label
  | .closeFunction => some .ret
  | .openLoop _ => some .loop
  | _ => none

/-! ### Expressions put together -/

/-- A property of expressions that carries over to whatever is put together from them.  Components and
lookups can depend on the register or sampler, so they are left out. -/
structure Expr.Compositional (Q : Expr → Prop) : Prop where
  number : ∀ {t : String}, IsPiece t → Q (.number t)
  name : ∀ {n : Ident}, (∀ r, n ≠ .register r) → Q (.name n)
  lanes : ∀ {e : Expr} (ls : List Lane), (∀ r, e ≠ .register r) → Q e → Q (.lanes e ls)
  negate : ∀ {e : Expr}, Q e → Q (.negate e)
  not : ∀ {e : Expr}, Q e → Q (.not e)
  group : ∀ {e : Expr}, Q e → Q (.group e)
  binary : ∀ (op : BinaryOp) {a b : Expr}, Q a → Q b → Q (.binary op a b)
  choose : ∀ {test a b : Expr}, Q test → Q a → Q b → Q (.choose test a b)
  call : ∀ {f : String} {a : Expr}, IsPiece f → Q a → Q (.call f a)
  args : ∀ {a b : Expr}, Q a → Q b → Q (.args a b)

namespace Expr.Compositional

variable {Q : Expr → Prop} (hQ : Compositional Q) {a b c d : Expr} {f : String}
include hQ

theorem zero : Q .zero := hQ.number (by decide)

theorem half : Q .half := hQ.number (by decide)

theorem one : Q .one := hQ.number (by decide)

theorem two : Q .two := hQ.number (by decide)

theorem call2 (hf : IsPiece f) (ha : Q a) (hb : Q b) : Q (.call2 f a b) :=
  hQ.call hf (hQ.args ha hb)

theorem call3 (hf : IsPiece f) (ha : Q a) (hb : Q b) (hc : Q c) : Q (.call3 f a b c) :=
  hQ.call hf (hQ.args ha (hQ.args hb hc))

theorem call4 (hf : IsPiece f) (ha : Q a) (hb : Q b) (hc : Q c) (hd : Q d) :
    Q (.call4 f a b c d) :=
  hQ.call hf (hQ.args ha (hQ.args hb (hQ.args hc hd)))

theorem dot (ha : Q a) (hb : Q b) : Q (.dot a b) := hQ.call2 (by decide) ha hb

theorem select (h : ∀ r, a ≠ .register r) (ha : Q a) (swizzle : Swizzle) (mask : WriteMask) :
    Q (a.select swizzle mask) := by
  unfold Expr.select
  split
  · exact ha
  · exact hQ.lanes _ h ha

theorem listOf {es : List Expr} (h : ∀ e ∈ es, Q e) : Q (.listOf es) := by
  induction es with
  | nil => exact hQ.number (by decide)
  | cons e es ih =>
    have he : Q e := h e List.mem_cons_self
    have hes : ∀ e' ∈ es, Q e' := fun e' he' => h e' (List.mem_cons_of_mem _ he')
    cases es with
    | nil => exact he
    | cons e' es => exact hQ.args he (ih hes)

end Expr.Compositional

/-! ### What an emission says -/

namespace Emission

variable {α β : Type} {S : Stmt → Prop} {Q : α → Prop} {R : β → Prop}

/-- The value of an emission is one of `Q`, and its statements are some of `S`. -/
structure Says (S : Stmt → Prop) (Q : α → Prop) (e : Emission α) : Prop where
  value : Q e.value
  code : ∀ c ∈ e.code, S c

/-- The statements of an emission are some of `S`. -/
abbrev Writes (S : Stmt → Prop) (e : Emission α) : Prop := e.Says S fun _ => True

theorem says_pure {x : α} (h : Q x) : (pure x : Emission α).Says S Q :=
  ⟨h, fun _ hc => absurd hc List.not_mem_nil⟩

theorem says_bind {e : Emission α} {f : α → Emission β} (h : e.Says S Q)
    (hf : ∀ x, Q x → (f x).Says S R) : (e >>= f).Says S R := by
  have hrest := hf e.value h.value
  refine ⟨hrest.value, fun c hc => ?_⟩
  rcases List.mem_append.mp hc with hc | hc
  · exact h.code c hc
  · exact hrest.code c hc

theorem says_fault (f : Fault) : (fault f).Writes S :=
  ⟨trivial, fun _ hc => absurd hc List.not_mem_nil⟩

theorem says_require (r : Helper) : (require r).Writes S :=
  ⟨trivial, fun _ hc => absurd hc List.not_mem_nil⟩

theorem says_write {c : Stmt} (h : S c) : (write c).Writes S :=
  ⟨trivial, fun _ hc => by rwa [List.mem_singleton.mp hc]⟩

end Emission

end Glsl

open Glsl Glsl.Emission

namespace Scan

variable {sh : Shader} {s : Scan} {i : Instruction} {a : Source} {mask : WriteMask}

/-! ### Operands in code -/

/-- What a source reads is its register, or an element of an array if it is relative. -/
theorem variableOf_cases {e : Expr} (h : variableOf sh s a = .ok e) :
    (a.relative = none ∧ e = .register a.register) ∨
      ∃ index, a.relative = some index ∧
        (a.register.file = .input ∧ e = .element .inputArray (indexExpr index) ∨
          a.register.file = .const ∧ ∃ array delta, e = arrayElement array delta (indexExpr index)) := by
  unfold variableOf at h
  split at h
  · cases h
  · split at h
    next hrelative => exact .inl ⟨hrelative, (Except.ok.inj h).symm⟩
    next index hrelative =>
      refine .inr ⟨index, hrelative, ?_⟩
      split at h
      next hfile => exact .inl ⟨hfile, (Except.ok.inj h).symm⟩
      next hfile =>
        split at h
        · cases h
        · exact .inr ⟨hfile, _, _, (Except.ok.inj h).symm⟩
      next => cases h

def Yields (Q : Expr → Prop) (sh : Shader) (s : Scan) (a : Source) : Prop :=
  ∀ mask e, variableOf sh s a = .ok e → Q (pick sh s a mask e)

/-- An assignment of a value of `Q` by an instruction without a predicate is a statement of `S`. -/
def Assigns (S : Stmt → Prop) (Q : Expr → Prop) (sh : Shader) (s : Scan) (i : Instruction) : Prop :=
  i.predicated = false → ∀ mask e, mask.isEmpty = false → mask.lanes ⊆ i.dest.mask.lanes → Q e →
    S (.assign ⟨i.dest.register, mask, s.isScalar sh i.dest.register⟩ e)

/-- A destination and so many sources, each of which brings what the code needs. -/
structure Operands (S : Stmt → Prop) (Q : Expr → Prop) (sh : Shader) (s : Scan) (i : Instruction)
    (k : Nat) : Prop where
  assigns : Assigns S Q sh s i
  source : ∀ n < k, Yields Q sh s (i.source n)

section Composed

variable {S : Stmt → Prop} {Q : Expr → Prop} (hQ : Expr.Compositional Q)
include hQ

variable {pads : Pad × Pad} {f : Expr → Expr} {kind : TextureKind} {e : Expr}

theorem modifierExpr_composed {m : SourceModifier} (h : modifierExpr m = .ok f) (he : Q e) :
    Q (f e) := by
  have hbias : Q (.group (.sub e .half)) := hQ.group (hQ.binary _ he hQ.half)
  have hsign : Q (.group (.mul (.group (.sub e .half)) .two)) := hQ.group (hQ.binary _ hbias hQ.two)
  have hdouble : Q (.group (.mul e .two)) := hQ.group (hQ.binary _ he hQ.two)
  have habs : Q (.call1 "abs" e) := hQ.call (by decide) he
  cases m with
  | plain => cases h; exact he
  | negate => cases h; exact hQ.negate he
  | bias => cases h; exact hbias
  | biasNegate => cases h; exact hQ.negate hbias
  | sign => cases h; exact hsign
  | signNegate => cases h; exact hQ.negate hsign
  | complement => cases h; exact hQ.group (hQ.binary _ hQ.one he)
  | double => cases h; exact hdouble
  | doubleNegate => cases h; exact hQ.negate hdouble
  | divideByZ | divideByW => cases h
  | abs => cases h; exact habs
  | absNegate => cases h; exact hQ.negate habs
  | not => cases h; exact hQ.not he

theorem says_sourceAt (h : Yields Q sh s a) : (sourceAt sh s a mask).Says S Q := by
  unfold sourceAt
  cases he : sourceExpr sh s a mask with
  | error f => exact ⟨hQ.zero, fun _ hc => absurd hc List.not_mem_nil⟩
  | ok e =>
    refine says_pure ?_
    unfold sourceExpr at he
    cases hm : modifierExpr a.modifier with
    | error f =>
      rw [hm] at he
      cases he
    | ok apply =>
      cases hv : variableOf sh s a with
      | error f =>
        rw [hm, hv] at he
        cases he
      | ok x =>
        rw [hm, hv] at he
        cases he
        exact modifierExpr_composed hQ hm (h mask x hv)

theorem shifted_composed (code : Nat) (he : Q e) : Q (shifted code e) := by
  unfold shifted
  split
  case h_7 => exact he
  all_goals exact hQ.binary _ (hQ.group he) (hQ.number (by decide))

theorem finished_composed (d : Dest) (he : Q e) : Q (finished d e) := by
  have hshifted := shifted_composed hQ d.shift he
  have hcast : ∀ {x : Expr}, Q x → Q (.call1 (floatCast d.mask.size) x) :=
    hQ.call (isPiece_floatCast _)
  unfold finished saturated
  dsimp only
  split
  · split
    · exact hQ.call3 (by decide) hshifted hQ.zero hQ.one
    · exact hQ.call3 (by decide) hshifted (hcast hQ.zero) (hcast hQ.one)
  · exact hshifted

theorem says_assignPart (hS : Assigns S Q sh s i) {d : Dest} (hd : d.register = i.dest.register)
    (hmask : d.mask.lanes ⊆ i.dest.mask.lanes) (he : Q e) :
    (assignTo sh s i d e).Writes S := by
  unfold assignTo
  split
  · exact says_pure trivial
  next hsome =>
    split
    · exact says_fault _
    next hplain =>
      split
      · exact says_fault _
      · rw [hd]
        exact says_write (hS (Bool.eq_false_iff.mpr hplain) _ _
          (Bool.eq_false_iff.mpr hsome) hmask (finished_composed hQ d he))

theorem says_assignTo (hS : Assigns S Q sh s i) (he : Q e) :
    (assignTo sh s i i.dest e).Writes S :=
  says_assignPart hQ hS rfl (List.Subset.refl _) he

omit hQ in
theorem Operands.says_bind {k : Nat} (h : Operands S Q sh s i k) (hQ : Expr.Compositional Q) {β : Type}
    {R : β → Prop} (n : Nat) (hn : n < k) {g : Expr → Emission β} (hg : ∀ e, Q e → (g e).Says S R) :
    (sourceAt sh s (i.source n) mask >>= g).Says S R :=
  Emission.says_bind (says_sourceAt hQ (h.source n hn)) hg

/-! ### Arithmetic -/

theorem says_unaryCode (h : Operands S Q sh s i 1) (hf : ∀ a, Q a → Q (f a)) :
    (unaryCode sh s i f).Writes S :=
  h.says_bind hQ 0 (by decide) fun a ha => says_assignTo hQ h.assigns (hf a ha)

theorem says_binaryCode {f : Expr → Expr → Expr} (h : Operands S Q sh s i 2)
    (hf : ∀ a b, Q a → Q b → Q (f a b)) : (binaryCode sh s i f).Writes S :=
  h.says_bind hQ 0 (by decide) fun a ha =>
    h.says_bind hQ 1 (by decide) fun b hb =>
      says_assignTo hQ h.assigns (hf a b ha hb)

theorem says_ternaryCode {f : Expr → Expr → Expr → Expr} (h : Operands S Q sh s i 3)
    (hf : ∀ a b c, Q a → Q b → Q c → Q (f a b c)) : (ternaryCode sh s i f).Writes S :=
  h.says_bind hQ 0 (by decide) fun a ha =>
    h.says_bind hQ 1 (by decide) fun b hb =>
      h.says_bind hQ 2 (by decide) fun c hc =>
        says_assignTo hQ h.assigns (hf a b c ha hb hc)

theorem says_guardedCode (h : Operands S Q sh s i 1) (hf : ∀ a, Q a → Q (f a)) :
    (guardedCode sh s i f).Writes S := by
  refine says_bind (says_require _) fun _ _ =>
    h.says_bind hQ 0 (by decide) fun a ha => says_assignTo hQ h.assigns ?_
  have htest : Q (.group (.compare .equal a .zero)) := hQ.group (hQ.binary _ ha hQ.zero)
  exact hQ.call (isPiece_floatCast _) (hQ.choose htest (hQ.number (by decide)) (hf a ha))

theorem says_dotCode (h : Operands S Q sh s i 2) :
    (dotCode sh s i mask).Writes S :=
  h.says_bind hQ 0 (by decide) fun _ ha =>
    h.says_bind hQ 1 (by decide) fun _ hb =>
      says_assignTo hQ h.assigns (hQ.call (isPiece_floatCast _) (hQ.dot ha hb))

theorem says_dot2AddCode (h : Operands S Q sh s i 3) :
    (dot2AddCode sh s i).Writes S :=
  h.says_bind hQ 0 (by decide) fun _ ha =>
    h.says_bind hQ 1 (by decide) fun _ hb =>
      h.says_bind hQ 2 (by decide) fun _ hc =>
        says_assignTo hQ h.assigns
          (hQ.call (isPiece_floatCast _) (hQ.binary _ (hQ.dot ha hb) hc))

theorem says_productsCode {x : Expr} (hx : Q x) {rows : List Source}
    (h : ∀ row ∈ rows, Yields Q sh s row) :
    (productsCode sh s mask x rows).Says S fun es => ∀ e ∈ es, Q e := by
  induction rows with
  | nil => exact says_pure fun _ he => absurd he List.not_mem_nil
  | cons row rows ih =>
    refine says_bind (says_sourceAt hQ (h row List.mem_cons_self)) fun b hb =>
      says_bind (ih fun row' hrow => h row' (List.mem_cons_of_mem _ hrow)) fun es hes =>
        says_pure ?_
    intro e he
    rcases List.mem_cons.mp he with rfl | he
    · exact hQ.dot hx hb
    · exact hes e he

theorem says_matrixCode {form : MatrixForm} (h : Operands S Q sh s i 2)
    (hrows : ∀ row ∈ i.matrixRows form.rows, Yields Q sh s row) :
    (matrixCode sh s i mask form).Writes S :=
  h.says_bind hQ 0 (by decide) fun _ ha =>
    says_bind (says_productsCode hQ ha hrows) fun _ hes =>
      says_assignTo hQ h.assigns (hQ.call (isPiece_floatCast _) (hQ.listOf hes))

omit hQ in
theorem isPiece_vectorFunction (c : Comparison) : IsPiece c.vectorFunction := by
  cases c <;> decide

theorem says_compareCode {c : Comparison} (h : Operands S Q sh s i 2) :
    (compareCode sh s i c).Writes S := by
  refine says_binaryCode hQ h fun a b ha hb => ?_
  split
  · exact hQ.call (by decide) (hQ.binary _ ha hb)
  · exact hQ.call (isPiece_floatCast _) (hQ.call2 (isPiece_vectorFunction c) ha hb)

theorem says_lightingCode (h : Operands S Q sh s i 1) :
    (lightingCode sh s i).Writes S := by
  refine says_bind (says_require _) fun _ _ =>
    h.says_bind hQ 0 (by decide) fun a ha => says_assignTo hQ h.assigns ?_
  exact hQ.select (by simp [Expr.register]) (hQ.call (by decide) ha) _ _

theorem says_distanceCode (h : Operands S Q sh s i 2) :
    (distanceCode sh s i).Writes S := by
  refine h.says_bind hQ 0 (by decide) fun aY haY =>
    h.says_bind hQ 1 (by decide) fun bY hbY =>
      h.says_bind hQ 0 (by decide) fun aZ haZ =>
        h.says_bind hQ 1 (by decide) fun bW hbW => says_assignTo hQ h.assigns ?_
  exact hQ.select (by simp [Expr.call4, Expr.register])
    (hQ.call4 (by decide) hQ.one (hQ.binary _ haY hbY) haZ hbW) _ _

theorem says_crossCode (h : Operands S Q sh s i 2) :
    (crossCode sh s i).Writes S := by
  refine h.says_bind hQ 0 (by decide) fun a ha =>
    h.says_bind hQ 1 (by decide) fun b hb => says_assignTo hQ h.assigns ?_
  have hcross : Q (.call2 "cross" a b) := hQ.call2 (by decide) ha hb
  split
  · exact hcross
  · exact hQ.lanes _ nofun hcross

theorem says_sinCosCode (h : Operands S Q sh s i 1) :
    (sinCosCode sh s i).Writes S := by
  refine h.says_bind hQ 0 (by decide) fun a ha => says_assignTo hQ h.assigns ?_
  have hcos : Q (.call1 "cos" a) := hQ.call (by decide) ha
  have hsin : Q (.call1 "sin" a) := hQ.call (by decide) ha
  split
  · exact hcos
  · split
    · exact hsin
    · exact hQ.call2 (by decide) hcos hsin

theorem says_roundCode (h : Operands S Q sh s i 1) :
    (roundCode sh s i).Writes S := by
  have hivec : IsPiece "ivec" := by decide
  have hcast : IsPiece (if i.dest.mask.size = 1 then "int" else s!"ivec{i.dest.mask.size}") := by
    split
    · decide
    · exact hivec.append (isPiece_repr i.dest.mask.size)
  refine says_unaryCode hQ h fun a ha => ?_
  have hhalf : Q (if i.dest.mask.size = 1 then .half else .call1 (floatCast i.dest.mask.size) .half) := by
    split
    · exact hQ.half
    · exact hQ.call (isPiece_floatCast _) hQ.half
  have hfloor := hQ.call (f := "floor") (by decide)
    (hQ.binary .add (hQ.call (f := "abs") (by decide) ha) hhalf)
  exact hQ.call hcast (hQ.binary _ hfloor (hQ.call (by decide) ha))

/-! ### Choices -/

theorem says_chooseGroupCode {test : Expr → Expr} (h : Operands S Q sh s i 3)
    (htest : ∀ a, Q a → Q (test a)) {group : Lane × List Lane} (hgroup : group.2 ⊆ i.dest.mask.lanes) :
    (chooseGroupCode sh s i test group).Writes S :=
  h.says_bind hQ 0 (by decide) fun a ha =>
    h.says_bind hQ 1 (by decide) fun _ hb =>
      h.says_bind hQ 2 (by decide) fun _ hc =>
        says_assignPart hQ h.assigns rfl (List.Subset.trans (WriteMask.lanes_ofLanes_subset _) hgroup)
          (hQ.group (hQ.choose (hQ.group (htest a ha)) hb hc))

theorem says_chooseGroupsCode {test : Expr → Expr} (h : Operands S Q sh s i 3)
    (htest : ∀ a, Q a → Q (test a)) {groups : List (Lane × List Lane)}
    (hgroups : ∀ group ∈ groups, group.2 ⊆ i.dest.mask.lanes) :
    (chooseGroupsCode sh s i test groups).Writes S := by
  induction groups with
  | nil => exact says_pure trivial
  | cons group groups ih =>
    obtain ⟨hgroup, hrest⟩ := List.forall_mem_cons.mp hgroups
    exact says_bind (says_chooseGroupCode hQ h htest hgroup) fun _ _ => ih hrest

theorem says_chooseCode {test : Expr → Expr} (h : Operands S Q sh s i 3)
    (htest : ∀ a, Q a → Q (test a)) : (chooseCode sh s i test).Writes S := by
  refine says_chooseGroupsCode hQ h htest fun group hgroup => ?_
  obtain ⟨l, -, rfl⟩ := List.mem_map.mp hgroup
  exact List.filter_sublist.subset

theorem says_predicateCode (h : Operands S Q sh s i 2) :
    (predicateCode sh s i).Writes S := by
  unfold predicateCode
  split
  · exact says_fault _
  · refine says_binaryCode hQ h fun a b ha hb => ?_
    split
    · exact hQ.group (hQ.binary _ ha hb)
    · exact hQ.call2 (isPiece_vectorFunction _) ha hb

/-! ### Texture loads -/

/-- A lookup through a sampler of which the texture is known has what its arguments have. -/
def LooksUp (Q : Expr → Prop) (s : Scan) : Prop :=
  ∀ stage kind, s.textureKind stage = some kind → ∀ form a, Q a → Q (.lookup kind form stage a)

variable (hS : Assigns S Q sh s i)
include hS

theorem says_oldLoadCode (hlookup : LooksUp Q s)
    (hd : ∀ ls, Q (.lanes (.register i.dest.register) ls)) :
    (oldLoadCode sh s i).Writes S := by
  unfold oldLoadCode
  dsimp only
  split
  next => exact says_fault _
  next kind hkind => exact says_assignTo hQ hS (hlookup _ _ hkind _ _ (hd _))

theorem says_assignLookup {form : LookupForm} (hlookup : LooksUp Q s)
    (hkind : s.textureKind (i.source 1).register.number = some kind) (he : Q e) :
    (assignLookup sh s i kind form e).Writes S :=
  says_assignTo hQ hS (hQ.select (by simp [Expr.register]) (hlookup _ _ hkind form e he) _ _)

theorem says_loadCode (hlookup : LooksUp Q s)
    (hd : sh.atLeast 1 4 = false → ∀ ls, Q (.lanes (.register i.dest.register) ls))
    (h : sh.atLeast 2 0 = true → Yields Q sh s (i.source 0)) :
    (loadCode sh s i).Writes S := by
  unfold loadCode
  split
  next hold => exact says_oldLoadCode hQ hS hlookup (hd (by simpa using hold))
  next =>
    split
    next => exact says_fault _
    next hmodel =>
      have h0 : Yields Q sh s (i.source 0) := h (by simpa using hmodel)
      split
      next => exact says_fault _
      next kind hkind =>
        split
        · split
          · exact says_fault _
          · exact says_bind (says_sourceAt hQ h0) fun _ ha => says_assignLookup hQ hS hlookup hkind ha
        · refine says_bind (says_sourceAt hQ h0) fun coordinates hc => ?_
          split
          · exact says_bind (says_sourceAt hQ h0) fun _ hb =>
              says_assignLookup hQ hS hlookup hkind (hQ.args hc hb)
          · exact says_assignLookup hQ hS hlookup hkind hc

omit hS in
theorem says_gradientLoadCode (hlookup : LooksUp Q s) (h : Operands S Q sh s i 4) :
    (gradientLoadCode sh s i).Writes S := by
  unfold gradientLoadCode
  split
  next => exact says_fault _
  next kind hkind =>
    exact says_bind (says_require _) fun _ _ =>
      h.says_bind hQ 0 (by decide) fun _ ha =>
        h.says_bind hQ 2 (by decide) fun _ hb =>
          h.says_bind hQ 3 (by decide) fun _ hc =>
            says_assignLookup hQ h.assigns hlookup hkind (hQ.args ha (hQ.args hb hc))

omit hS in
theorem says_levelLoadCode (hlookup : LooksUp Q s) (h : Operands S Q sh s i 2) :
    (levelLoadCode sh s i).Writes S := by
  unfold levelLoadCode
  split
  next => exact says_fault _
  next kind hkind =>
    exact says_bind (says_require _) fun _ _ =>
      h.says_bind hQ 0 (by decide) fun _ ha =>
        h.says_bind hQ 0 (by decide) fun _ hb =>
          says_assignLookup hQ h.assigns hlookup hkind (hQ.args ha hb)

/-! ### Textures addressed by textures -/

def PadYields (Q : Expr → Prop) (p : Pad) : Prop :=
  ∀ ls, Q (textureLanes p.source ls) ∧ Q (textureLanes p.dest ls)

omit hS in
theorem padProduct_composed {p : Pad} (h : PadYields Q p) : Q (padProduct p) :=
  hQ.dot (h _).1 (h _).2

omit hQ hS in
theorem padYields_matrix3Pads (h : ∀ p ∈ s.pads.rows, PadYields Q p) (hp : s.matrix3Pads? = some pads) :
    PadYields Q pads.1 ∧ PadYields Q pads.2 := by
  obtain ⟨first, hfirst, hp⟩ := Option.bind_eq_some_iff.mp hp
  obtain ⟨second, hsecond, hp⟩ := Option.bind_eq_some_iff.mp hp
  cases hp
  exact ⟨h first (by simp [Pads.rows, hfirst]), h second (by simp [Pads.rows, hsecond])⟩

omit hQ hS in
theorem textureKind_of_spatialKind? {stage : Nat} (h : s.spatialKind? stage = some kind) :
    s.textureKind stage = some kind := by
  unfold spatialKind? at h
  split at h
  · cases h
    assumption
  · cases h
    assumption
  · cases h

variable (hd : ∀ ls, Q (.lanes (.register i.dest.register) ls))
  (ht : ∀ ls, Q (textureLanes (i.source 0).register.number ls))
include hd ht

omit hS in
theorem bumpedCoordinate_composed (lane a b : Lane) :
    Q (bumpedCoordinate i.dest.register (i.source 0).register.number lane a b) := by
  have hmatrix : ∀ l, Q (.lanes (.name (.bumpMatrix i.dest.register.number)) [l]) := fun l =>
    hQ.lanes _ nofun (hQ.name nofun)
  exact hQ.binary _ (hQ.binary _ (hd _) (hQ.group (hQ.binary _ (hmatrix a) (ht _))))
    (hQ.group (hQ.binary _ (hmatrix b) (ht _)))

theorem says_bumpCode {luminance : Bool}
    (hplane : ∀ a, Q a → Q (.lookup .plane .implicit i.dest.register.number a))
    (hr : luminance = true → Q (.register i.dest.register)) :
    (bumpCode sh s i luminance).Writes S := by
  have hx := bumpedCoordinate_composed hQ hd ht .x .x .z
  have hy := bumpedCoordinate_composed hQ hd ht .y .y .w
  refine says_bind (says_assignTo hQ hS (hplane _ (hQ.call2 (by decide) hx hy))) fun _ _ => ?_
  cases luminance with
  | false => exact says_pure trivial
  | true =>
    have hscale : ∀ l, Q (.lanes (.name (.bumpLuminance i.dest.register.number)) [l]) := fun l =>
      hQ.lanes _ nofun (hQ.name nofun)
    exact says_assignTo hQ hS (hQ.binary _ (hr rfl)
      (hQ.group (hQ.binary _ (hQ.group (hQ.binary _ (ht _) (hscale _))) (hscale _))))

variable (hpads : ∀ p ∈ s.pads.rows, PadYields Q p)
include hpads

theorem says_matrix2Code (hplane : ∀ a, Q a → Q (.lookup .plane .implicit i.dest.register.number a)) :
    (matrix2Code sh s i).Writes S := by
  unfold matrix2Code
  split
  next => exact says_pure trivial
  next p hp =>
    have hfirst := padProduct_composed hQ (hpads p (by simp [Pads.rows, hp]))
    exact says_assignTo hQ hS (hplane _ (hQ.call2 (by decide) hfirst (hQ.dot (ht _) (hd _))))

omit hS hpads in
theorem matrix3Vector_composed (h1 : PadYields Q pads.1) (h2 : PadYields Q pads.2) :
    Q (matrix3Vector i pads) :=
  hQ.call3 (by decide) (padProduct_composed hQ h1) (padProduct_composed hQ h2) (hQ.dot (hd _) (ht _))

theorem says_matrix3Code : (matrix3Code sh s i).Writes S := by
  unfold matrix3Code
  split
  next => exact says_pure trivial
  next pads hp =>
    obtain ⟨h1, h2⟩ := padYields_matrix3Pads hpads hp
    exact says_assignTo hQ hS (hQ.call4 (by decide) (padProduct_composed hQ h1)
      (padProduct_composed hQ h2) (hQ.dot (hd _) (ht _)) hQ.one)

variable (hlookup : LooksUp Q s)
include hlookup

theorem says_matrix3LookupCode : (matrix3LookupCode sh s i).Writes S := by
  unfold matrix3LookupCode
  dsimp only
  split
  next => exact says_pure trivial
  next pads hp =>
    obtain ⟨h1, h2⟩ := padYields_matrix3Pads hpads hp
    split
    next => exact says_fault _
    next kind hkind =>
      exact says_assignTo hQ hS (hlookup _ _ (textureKind_of_spatialKind? hkind) _ _
        (matrix3Vector_composed hQ hd ht h1 h2))

theorem says_reflectionCode {variableEye : Bool}
    (hvector : ∀ n e, (∀ r, n ≠ .register r) → Q e → S (.vector3 n e))
    (heye : variableEye = false → ∀ ls, Q (.lanes (.register ⟨.const, (i.source 1).register.number⟩) ls)) :
    (reflectionCode sh s i variableEye).Writes S := by
  unfold reflectionCode
  dsimp only
  split
  next => exact says_pure trivial
  next pads hp =>
    obtain ⟨h1, h2⟩ := padYields_matrix3Pads hpads hp
    split
    next => exact says_fault _
    next kind hkind =>
      have hassign : ∀ eye, Q eye → (assignTo sh s i i.dest (.lookup kind .implicit i.dest.register.number
          (.call2 "TEXM3X3SPEC_reflection" (.name (.normal i.dest.register)) eye))).Writes S :=
        fun eye h => says_assignTo hQ hS (hlookup _ _ (textureKind_of_spatialKind? hkind) _ _
          (hQ.call2 (by decide) (hQ.name nofun) h))
      have hnormal : S (.vector3 (.normal i.dest.register)
          (.call1 "normalize" (matrix3Vector i pads))) :=
        hvector _ _ nofun (hQ.call (by decide) (matrix3Vector_composed hQ hd ht h1 h2))
      refine says_bind (says_require _) fun _ _ => ?_
      -- the eye ray is a local vector of its own, or a constant
      cases variableEye with
      | true =>
        refine says_bind (says_write (hvector _ _ nofun ?_)) fun _ _ =>
          says_bind (says_write hnormal) fun _ _ => hassign _ (hQ.name nofun)
        exact hQ.call3 (by decide) (h1 _).2 (h2 _).2 (hd _)
      | false => exact says_bind (says_write hnormal) fun _ _ => hassign _ (heye rfl _)

end Composed

/-! ### Instructions -/

/-- What an instruction has to bring for all the values in its code to be expressions of `Q`, and its
statements some of `S`. -/
structure Provides (S : Stmt → Prop) (Q : Expr → Prop) (sh : Shader) (s : Scan) (i : Instruction) :
    Prop where
  assigns : i.opcode.info.shape.hasDest = true → Assigns S Q sh s i
  vector : i.opcode.reflects = true → ∀ n e, (∀ r, n ≠ .register r) → Q e → S (.vector3 n e)
  source : ∀ n < i.opcode.info.shape.sourceCount sh, Yields Q sh s (i.source n)
  row : ∀ form, i.opcode.matrixForm? = some form → ∀ a ∈ i.matrixRows form.rows, Yields Q sh s a
  lookup : i.opcode.looksUpPlane = false → LooksUp Q s
  /-- The lookup that goes with the destination, for an instruction that takes its kind for granted. -/
  plane : i.opcode.looksUpPlane = true → ∀ a, Q a → Q (.lookup .plane .implicit i.dest.register.number a)
  /-- Components of the destination are coordinates for the first loads and for texture matrices. -/
  dest : i.opcode.readsTexture = true ∨ (i.opcode = .texLd ∧ sh.atLeast 1 4 = false) →
    ∀ ls, Q (.lanes (.register i.dest.register) ls)
  scaled : i.opcode = .texBemL → Q (.register i.dest.register)
  texture : i.opcode.readsTexture = true → ∀ ls, Q (textureLanes (i.source 0).register.number ls)
  pads : ∀ p ∈ s.pads.rows, PadYields Q p
  eye : i.opcode = .texM3x3Spec →
    ∀ ls, Q (.lanes (.register ⟨.const, (i.source 1).register.number⟩) ls)

section Instructions

variable {S : Stmt → Prop} {Q : Expr → Prop}

theorem Provides.operands {op : Opcode} {k : Nat} (h : Provides S Q sh s i) (hop : i.opcode = op)
    (hshape : op.info.shape = .dest k) : Operands S Q sh s i k := by
  subst hop
  refine ⟨h.assigns (by rw [hshape]; rfl), fun n hn => h.source n ?_⟩
  rw [hshape]
  exact hn

theorem Provides.textures {op : Opcode} (h : Provides S Q sh s i) (hop : i.opcode = op)
    (hreads : op.readsTexture = true) :
    Assigns S Q sh s i ∧ (∀ ls, Q (.lanes (.register i.dest.register) ls)) ∧
      ∀ ls, Q (textureLanes (i.source 0).register.number ls) := by
  subst hop
  refine ⟨h.assigns ?_, h.dest (.inl hreads), h.texture hreads⟩
  cases e : i.opcode <;> first | rfl | (rw [e] at hreads; cases hreads)

theorem says_instructionCode (hQ : Expr.Compositional Q) (h : Provides S Q sh s i)
    (hop : i.opcode.isFlow = false) : (instructionCode sh s i).Writes S := by
  have hlookup : ∀ {op : Opcode}, i.opcode = op → op.looksUpPlane = false → LooksUp Q s :=
    fun e hplane => h.lookup (e ▸ hplane)
  have hplane : ∀ {op : Opcode}, i.opcode = op → op.looksUpPlane = true →
      ∀ a, Q a → Q (.lookup .plane .implicit i.dest.register.number a) :=
    fun e hplane => h.plane (e ▸ hplane)
  unfold instructionCode
  cases e : i.opcode with
  | nop | dcl | texM3x2Pad | texM3x3Pad | defF | defI | defB | reserved _ => exact says_pure trivial
  | mov => exact says_unaryCode hQ (h.operands e rfl) fun _ ha => ha
  | exp | expP | log | logP | frc | abs | nrm | dsx | dsy =>
    exact says_unaryCode hQ (h.operands e rfl) fun _ ha => hQ.call (by decide) ha
  | sgn =>
    -- two further sources are operands, but not read
    have hs := h.operands e rfl
    have hone : Operands S Q sh s i 1 := ⟨hs.assigns, fun n hn => hs.source n (by omega)⟩
    exact says_unaryCode hQ hone fun _ ha => hQ.call (by decide) ha
  | add | sub | mul => exact says_binaryCode hQ (h.operands e rfl) fun _ _ ha hb => hQ.binary _ ha hb
  | min | max =>
    exact says_binaryCode hQ (h.operands e rfl) fun _ _ ha hb => hQ.call2 (by decide) ha hb
  | pow =>
    exact says_binaryCode hQ (h.operands e rfl) fun _ _ ha hb =>
      hQ.call2 (by decide) (hQ.call (by decide) ha) hb
  | mad =>
    exact says_ternaryCode hQ (h.operands e rfl) fun _ _ _ ha hb hc =>
      hQ.binary _ (hQ.group (hQ.binary _ ha hb)) hc
  | lrp =>
    exact says_ternaryCode hQ (h.operands e rfl) fun _ _ _ ha hb hc => hQ.call3 (by decide) hc hb ha
  | rcp => exact says_guardedCode hQ (h.operands e rfl) fun _ ha => hQ.binary _ hQ.one ha
  | rsq =>
    exact says_guardedCode hQ (h.operands e rfl) fun _ ha =>
      hQ.call (by decide) (hQ.call (by decide) ha)
  | dp3 | dp4 => exact says_dotCode hQ (h.operands e rfl)
  | dp2Add => exact says_dot2AddCode hQ (h.operands e rfl)
  | slt | sge => exact says_compareCode hQ (h.operands e rfl)
  | lit => exact says_lightingCode hQ (h.operands e rfl)
  | dst => exact says_distanceCode hQ (h.operands e rfl)
  | m4x4 | m4x3 | m3x4 | m3x3 | m3x2 =>
    exact says_matrixCode hQ (h.operands e rfl) (h.row _ (by rw [e]; rfl))
  | crs => exact says_crossCode hQ (h.operands e rfl)
  | sinCos =>
    refine says_sinCosCode hQ ⟨h.assigns (by rw [e]; rfl), fun n hn => h.source n ?_⟩
    rw [e]
    show n < if sh.atLeast 3 0 then 1 else 3
    split <;> omega
  | movA => exact says_roundCode hQ (h.operands e rfl)
  | setP => exact says_predicateCode hQ (h.operands e rfl)
  | cnd => exact says_chooseCode hQ (h.operands e rfl) fun _ ha => hQ.binary _ ha hQ.half
  | cmp => exact says_chooseCode hQ (h.operands e rfl) fun _ ha => hQ.binary _ ha hQ.zero
  | texLd =>
    refine says_loadCode hQ (h.assigns (by rw [e]; rfl)) (hlookup e rfl)
      (fun hold => h.dest (.inr ⟨e, hold⟩)) fun hmodel => h.source 0 ?_
    rw [e]
    show 0 < if sh.atLeast 2 0 then 2 else if sh.atLeast 1 4 then 1 else 0
    rw [if_pos hmodel]
    decide
  | texLdd => exact says_gradientLoadCode hQ (hlookup e rfl) (h.operands e rfl)
  | texLdl => exact says_levelLoadCode hQ (hlookup e rfl) (h.operands e rfl)
  | texBem =>
    obtain ⟨hS, hd, ht⟩ := h.textures e rfl
    exact says_bumpCode hQ hS hd ht (hplane e rfl) fun hfalse => by cases hfalse
  | texBemL =>
    obtain ⟨hS, hd, ht⟩ := h.textures e rfl
    exact says_bumpCode hQ hS hd ht (hplane e rfl) fun _ => h.scaled e
  | texM3x2Tex =>
    obtain ⟨hS, hd, ht⟩ := h.textures e rfl
    exact says_matrix2Code hQ hS hd ht h.pads (hplane e rfl)
  | texM3x3Tex =>
    obtain ⟨hS, hd, ht⟩ := h.textures e rfl
    exact says_matrix3LookupCode hQ hS hd ht h.pads (hlookup e rfl)
  | texM3x3 =>
    obtain ⟨hS, hd, ht⟩ := h.textures e rfl
    exact says_matrix3Code hQ hS hd ht h.pads
  | texM3x3Spec =>
    obtain ⟨hS, hd, ht⟩ := h.textures e rfl
    exact says_reflectionCode hQ hS hd ht h.pads (hlookup e rfl) (h.vector (by rw [e]; rfl))
      fun _ => h.eye e
  | texM3x3VSpec =>
    obtain ⟨hS, hd, ht⟩ := h.textures e rfl
    exact says_reflectionCode hQ hS hd ht h.pads (hlookup e rfl) (h.vector (by rw [e]; rfl))
      fun hfalse => by cases hfalse
  | texCrd | texReg2Ar | texReg2Gb | texReg2Rgb | texDp3Tex | texM3x2Depth | texDp3 | texDepth | bem =>
    exact says_fault _
  | _ => rw [e] at hop; cases hop

theorem code_conditionCode (hQ : Expr.Compositional Q) (f : Expr → Stmt) (h : Yields Q sh s a) :
    ∃ test : Expr, Q test ∧ (conditionCode sh s a f).code = [f test] := by
  have hsays : (sourceAt sh s a .x).Says (fun _ => False) Q := says_sourceAt hQ h
  refine ⟨(sourceAt sh s a .x).value, hsays.value, ?_⟩
  show (sourceAt sh s a .x).code ++ [f _] = _
  rw [List.eq_nil_iff_forall_not_mem.mpr hsays.code]
  rfl

theorem code_comparisonCode (hQ : Expr.Compositional Q) (f : Expr → Stmt)
    (h : ∀ n < 2, Yields Q sh s (i.source n)) (clean : (comparisonCode sh s i f).faults = []) :
    ∃ test : Expr, Q test ∧ (comparisonCode sh s i f).code = [f test] := by
  unfold comparisonCode at clean ⊢
  split at clean
  next => cases clean
  next c hc =>
    have h0 : (sourceAt sh s (i.source 0) .x).Says (fun _ => False) Q := says_sourceAt hQ (h 0 (by decide))
    have h1 : (sourceAt sh s (i.source 1) .x).Says (fun _ => False) Q := says_sourceAt hQ (h 1 (by decide))
    refine ⟨.compare c _ _, hQ.binary _ h0.value h1.value, ?_⟩
    show (sourceAt sh s (i.source 0) .x).code ++ ((sourceAt sh s (i.source 1) .x).code ++ [f _]) = _
    rw [List.eq_nil_iff_forall_not_mem.mpr h0.code, List.eq_nil_iff_forall_not_mem.mpr h1.code]
    rfl

theorem exists_code_of_isFlow (hop : i.opcode.isFlow = true) (hret : i.opcode ≠ .ret)
    (clean : (instructionCode sh s i).faults = []) : ∃ c, (instructionCode sh s i).code = [c] := by
  have hany : Expr.Compositional fun _ => True := by
    constructor <;> intros <;> trivial
  have hsource : ∀ a, Yields (fun _ => True) sh s a := fun _ _ _ _ => trivial
  unfold instructionCode at clean ⊢
  cases e : i.opcode with
  | callNz | rep | ifBool | leavePredicate =>
    obtain ⟨test, -, hcode⟩ := code_conditionCode hany _ (hsource _)
    exact ⟨_, hcode⟩
  | ifCompare | leaveCompare =>
    rw [e] at clean
    obtain ⟨test, -, hcode⟩ := code_comparisonCode hany _ (fun _ _ => hsource _) clean
    exact ⟨_, hcode⟩
  | ret => exact absurd e hret
  | call | loop | endLoop | endRep | endIf | label | otherwise | leave | texKill => exact ⟨_, rfl⟩
  | _ => rw [e] at hop; cases hop

theorem says_comparisonCode (hQ : Expr.Compositional Q) {f : Expr → Stmt}
    (h : ∀ n < 2, Yields Q sh s (i.source n)) (hf : ∀ test, Q test → S (f test)) :
    (comparisonCode sh s i f).Writes S := by
  unfold comparisonCode
  split
  · exact says_fault _
  · exact says_bind (says_sourceAt hQ (h 0 (by decide))) fun _ ha =>
      says_bind (says_sourceAt hQ (h 1 (by decide))) fun _ hb => says_write (hf _ (hQ.binary _ ha hb))

/-- What closes a function, the colour of the pixel coming first if it is copied. -/
theorem mem_code_closeCode {c : Stmt} (h : c ∈ (closeCode sh s).code) :
    c = .closeFunction ∨ (c = copyColor ∧ s.inMain = true ∧ colorFromTemp sh = true) := by
  unfold closeCode at h
  split at h
  next hcopy =>
    rw [Bool.and_eq_true] at hcopy
    rcases List.mem_append.mp h with h | h
    · exact .inr ⟨List.mem_singleton.mp h, hcopy⟩
    · exact .inl (List.mem_singleton.mp h)
  next => exact .inl (List.mem_singleton.mp h)

/-- What the statements of control flow have to be for all of them to be some of `S`. -/
structure Controls (S : Stmt → Prop) (Q : Expr → Prop) (sh : Shader) (s : Scan) (i : Instruction) :
    Prop where
  marks : ∀ c : Stmt, c.isMark = true → (∀ op ∈ c.frame?, i.opcode = op) → S c
  tests : ∀ (c : Stmt) (test : Expr), c.test? = some test → Q test → S c
  bounds : i.opcode = .loop → S (.openLoop (i.source 1).register)
  kill : i.opcode = .texKill → S (.killIfNegative i.dest.register)
  color : i.opcode = .ret → s.inMain = true → colorFromTemp sh = true → S copyColor

theorem forall_mem_instructionCode (hQ : Expr.Compositional Q) (h : Provides S Q sh s i)
    (hflow : Controls S Q sh s i) : ∀ c ∈ (instructionCode sh s i).code, S c := by
  intro c hc
  cases hop : i.opcode.isFlow with
  | false => exact (says_instructionCode hQ h hop).code c hc
  | true =>
    -- one source for a condition, two for a comparison
    have hsource : ∀ n k, i.opcode.info.shape = .sources k → n < k → Yields Q sh s (i.source n) := by
      intro n k hshape hn
      apply h.source
      rw [hshape]
      exact hn
    have hone : ∀ {c'}, (instructionCode sh s i).code = [c'] → S c' → S c := by
      intro c' hcode h
      rw [hcode] at hc
      exact List.mem_singleton.mp hc ▸ h
    cases e : i.opcode with
    | call | label | endLoop | endRep | endIf | otherwise | leave =>
      exact hone (by simp only [instructionCode, e]; rfl) (hflow.marks _ rfl (by simp [Stmt.frame?, e]))
    | loop => exact hone (by simp only [instructionCode, e]; rfl) (hflow.bounds e)
    | texKill => exact hone (by simp only [instructionCode, e]; rfl) (hflow.kill e)
    | callNz =>
      obtain ⟨test, htest, hcode⟩ := code_conditionCode hQ _ (hsource 1 2 (by rw [e]; rfl) (by decide))
      exact hone (by simp only [instructionCode, e]; exact hcode) (hflow.tests _ test rfl htest)
    | rep | ifBool | leavePredicate =>
      obtain ⟨test, htest, hcode⟩ := code_conditionCode hQ _ (hsource 0 1 (by rw [e]; rfl) (by decide))
      exact hone (by simp only [instructionCode, e]; exact hcode) (hflow.tests _ test rfl htest)
    | ifCompare | leaveCompare =>
      simp only [instructionCode, e] at hc
      have hsources : ∀ n < 2, Yields Q sh s (i.source n) := fun n hn => hsource n 2 (by rw [e]; rfl) hn
      exact (says_comparisonCode hQ hsources fun test htest => hflow.tests _ test rfl htest).code c hc
    | ret =>
      simp only [instructionCode, e] at hc
      rcases mem_code_closeCode hc with rfl | ⟨rfl, hmain, hcolor⟩
      · exact hflow.marks _ rfl (by simp [Stmt.frame?, e])
      · exact hflow.color e hmain hcolor
    | _ => rw [e] at hop; cases hop

/-- What opens or closes a function is written by instructions of its own, and so is the head of a loop. -/
theorem opcode_of_frame : ∀ c ∈ (instructionCode sh s i).code, ∀ op ∈ c.frame?, i.opcode = op := by
  have hany : Expr.Compositional fun _ => True := by
    constructor <;> intros <;> trivial
  have hprovides : Provides (fun c => ∀ op ∈ c.frame?, i.opcode = op) (fun _ => True) sh s i := by
    constructor
    case assigns => exact fun _ _ _ _ _ _ _ _ hop => nomatch hop
    case vector => exact fun _ _ _ _ _ _ hop => nomatch hop
    case source => exact fun _ _ _ _ _ => trivial
    case row => exact fun _ _ _ _ _ _ _ => trivial
    case lookup => exact fun _ _ _ _ _ _ _ => trivial
    case pads => exact fun _ _ _ => ⟨trivial, trivial⟩
    all_goals
      intros
      trivial
  refine forall_mem_instructionCode hany hprovides ⟨fun _ _ h => h, ?_, ?_, ?_, ?_⟩
  · intro c test htest _ op hop
    cases c with
    | openFunction | closeFunction | openLoop => cases htest
    | _ => cases hop
  · rintro hloop op ⟨⟩
    exact hloop
  all_goals
    intros
    contradiction

end Instructions

theorem isMark_of_slots (hslots : i.opcode.info.slots = 0) {c : Stmt}
    (hc : c ∈ (instructionCode sh s i).code) : c.isMark = true := by
  unfold instructionCode at hc
  cases e : i.opcode with
  | dcl | defF | defI | defB | reserved =>
    rw [e] at hc
    cases hc
  | label =>
    rw [e] at hc
    rw [List.mem_singleton.mp hc]
    rfl
  | _ =>
    rw [e] at hslots
    cases hslots

end Scan

end ShaderLift
