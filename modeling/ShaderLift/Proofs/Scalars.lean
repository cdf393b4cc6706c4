/-
Registers are accessed as they are declared.  Whether a register is scalar is asked at three places: when
a destination is read, which has its mask narrowed then, when an operand is written, which goes without
components then, and when the register is declared.  The answers are the same for all registers:

* a declaration has a scalar type exactly if the register is scalar in the end (`isScalar_of_declaredAs`);
* only the answer for a general output depends on the state, and it stays what it is from where no unit
  declares the register any more (`Scan.isScalar_unchanged`);
* the code of an instruction goes by the answer throughout (`Scan.accesses_codeOf`).
-/
import ShaderLift.Proofs.Types

namespace ShaderLift

open Glsl

variable {i : Instruction} {s : Scan}

/-! ### Scalar registers -/

/-- Whether no register of the file is scalar, whatever is declared for it. -/
def RegisterFile.isVector : RegisterFile → Bool
  | .temp | .input | .const | .address | .attrOut | .constInt | .colorOut | .sampler => true
  | _ => false

/-- The only mask within `x` that is not empty is `x`. -/
theorem WriteMask.isX_of_subset {m : WriteMask} (hsome : m.isEmpty = false)
    (h : m.lanes ⊆ WriteMask.x.lanes) : m.isX = true := by
  have hself : WriteMask.x.lanes = [.x] := by decide
  have hother : ∀ l : Lane, l ≠ .x → m.has l = false := by
    intro l hl
    refine eq_false_of_ne_true fun hm => hl ?_
    have hmem : l ∈ m.lanes := List.mem_filter.mpr ⟨by cases l <;> decide, hm⟩
    rw [hself] at h
    exact List.mem_singleton.mp (h hmem)
  cases hm : m.has .x with
  | true =>
    refine decide_eq_true ?_
    rw [hself]
    simp [lanes, Lane.all, hm, hother]
  | false =>
    have hnone : m.lanes = [] := by simp [lanes, Lane.all, hm, hother]
    rw [isEmpty, decide_eq_true hnone] at hsome
    cases hsome

namespace Scan

variable {env : Env} {sh : Shader} {s t : Scan} {r : Register} {i : Instruction}

theorem isScalar_congr (h : t.attributes.find? r = s.attributes.find? r) :
    t.isScalar sh r = s.isScalar sh r := by
  unfold isScalar
  rw [h]

theorem isScalar_of_ne_output (h : r.file ≠ .output) : s.isScalar sh r = r.isScalarIn sh :=
  if_neg h

theorem isScalar_of_isVector (h : r.file.isVector = true) : s.isScalar sh r = false := by
  obtain ⟨file, number⟩ := r
  cases file <;> first | rfl | cases h

theorem isScalar_normalize : s.isScalar sh r.normalize = s.isScalar sh r := by
  obtain ⟨file, number⟩ := r
  cases file <;> rfl

/-! ### Masks of destinations -/

theorem mask_destOfWord (d : DestWord) :
    (destOfWord env s d).mask =
      if s.isScalar env.toShader (destOfWord env s d).register then .x
      else (destOfWord env s d).statedMask := by
  unfold destOfWord
  dsimp only
  rw [isScalar_normalize]

/-- The destination was read from a word, in a state with the meanings of `s`. -/
def ReadsDest (env : Env) (s : Scan) (d : Dest) : Prop :=
  ∃ t w, t.attributes = s.attributes ∧ d = destOfWord env t w

theorem readsDest_readDest {centroidAllowed : Bool} {ws : List Word}
    (flag : (readDest env centroidAllowed s ws).2.2.failing = false) :
    ReadsDest env s (readDest env centroidAllowed s ws).1 := by
  cases ws with
  | nil => simp [readDest, fail] at flag
  | cons w ws => exact ⟨s, DestWord.ofWord w, rfl, rfl⟩

theorem readsDest_readArguments {shape : Shape} {ws : List Word} (hshape : shape.hasDest = true)
    (flag : (readArguments env shape s ws).2.2.2.failing = false) :
    ReadsDest env s (readArguments env shape s ws).1.dest := by
  obtain ⟨centroidAllowed, u, us, hbefore, hdest, hafter⟩ := dest_readArguments env hshape s ws
  obtain ⟨t, w, ht, hread⟩ := readsDest_readDest (hafter.records.flag flag)
  exact ⟨t, w, ht.trans hbefore.attributes_eq.1, hdest.trans hread⟩

end Scan

theorem Visit.Executes.mask_eq {v : Visit} (h : v.Executes i s)
    (hshape : i.opcode.info.shape.hasDest = true) :
    i.dest.mask =
      if v.before.isScalar v.env.toShader i.dest.register then .x else i.dest.statedMask := by
  obtain ⟨hi, hflag, -⟩ := h.arguments
  obtain ⟨t, w, ht, hw⟩ := Scan.readsDest_readArguments hshape hflag
  have hattributes : t.attributes = v.before.attributes :=
    ht.trans (Scan.Fetches.advance .refl).attributes_eq.1
  have hsame : t.isScalar v.env.toShader i.dest.register =
      v.before.isScalar v.env.toShader i.dest.register :=
    Scan.isScalar_congr (by rw [hattributes])
  rw [← hsame, show i.dest = _ from (congrArg Arguments.dest hi).trans hw]
  exact Scan.mask_destOfWord w

/-! ### Components in code -/

namespace Glsl

def Expr.register? : Expr → Option Register
  | .name (.register r) => some r
  | _ => none

/-- The registers that are written with components in an expression. -/
def Expr.suffixed : Expr → List Register
  | .number _ | .name _ => []
  | .lanes e _ => e.register?.toList ++ e.suffixed
  | .element _ e | .negate e | .not e | .group e | .call _ e | .lookup _ _ _ e => e.suffixed
  | .binary _ a b | .args a b => a.suffixed ++ b.suffixed
  | .choose test a b => test.suffixed ++ a.suffixed ++ b.suffixed

def Stmt.suffixed : Stmt → List Register
  | .assign t e => t.expr.suffixed ++ e.suffixed
  | .vector3 _ e | .callIf e _ _ | .openRep _ e | .openIf e | .leaveIf e => e.suffixed
  | .openLoop r | .killIfNegative r => [r]
  | .call _ _ | .closeLoop | .openElse | .closeBlock | .leave | .openFunction _ _ | .closeFunction => []

def Stmt.target? : Stmt → Option Target
  | .assign t _ => some t
  | _ => none

/-- The statement accesses registers as `scalar` says: those that are scalar without components, and if it
assigns to one, then to its only component. -/
structure Stmt.Accesses (scalar : Register → Bool) (c : Stmt) : Prop where
  suffixed : ∀ r ∈ c.suffixed, scalar r = false
  target : ∀ t, c.target? = some t → t.scalar = scalar t.register ∧ (t.scalar = true → t.mask.isX = true)

variable {scalar : Register → Bool}

/-- The expression writes no scalar register with components. -/
def Expr.Accesses (scalar : Register → Bool) (e : Expr) : Prop := ∀ r ∈ e.suffixed, scalar r = false

theorem Expr.accesses_register (r : Register) : (Expr.register r).Accesses scalar :=
  fun _ hx => absurd hx List.not_mem_nil

theorem Expr.accesses_lanes {r : Register} (h : scalar r = false) (ls : List Lane) :
    (Expr.lanes (.register r) ls).Accesses scalar :=
  List.forall_mem_singleton.mpr h

theorem Expr.compositional_accesses : Expr.Compositional (Expr.Accesses scalar) where
  number _ := fun _ hx => absurd hx List.not_mem_nil
  name _ := fun _ hx => absurd hx List.not_mem_nil
  lanes {e} ls h he := by
    have hnone : e.register? = none := by
      unfold Expr.register?
      split
      next r => exact absurd rfl (h r)
      next => rfl
    unfold Expr.Accesses Expr.suffixed
    rw [hnone]
    exact he
  negate h := h
  not h := h
  group h := h
  binary _ _ _ ha hb := List.forall_mem_append.mpr ⟨ha, hb⟩
  choose ht ha hb := List.forall_mem_append.mpr ⟨List.forall_mem_append.mpr ⟨ht, ha⟩, hb⟩
  call _ ha := ha
  args ha hb := List.forall_mem_append.mpr ⟨ha, hb⟩

theorem Stmt.accesses_mark {c : Stmt} (h : c.isMark = true) : c.Accesses scalar := by
  cases c with
  | call | closeLoop | openElse | closeBlock | leave | openFunction | closeFunction =>
    exact ⟨fun _ hx => absurd hx List.not_mem_nil, fun _ ht => by cases ht⟩
  | _ => cases h

theorem Stmt.accesses_test {c : Stmt} {test : Expr} (h : c.test? = some test)
    (htest : test.Accesses scalar) : c.Accesses scalar := by
  cases c with
  | callIf | openRep | openIf | leaveIf =>
    cases h
    exact ⟨htest, fun _ ht => by cases ht⟩
  | _ => cases h

theorem Stmt.accesses_assign {t : Target} {e : Expr} (hscalar : t.scalar = scalar t.register)
    (hmask : t.scalar = true → t.mask.isX = true) (he : e.Accesses scalar) :
    (Stmt.assign t e).Accesses scalar := by
  refine ⟨List.forall_mem_append.mpr ⟨?_, he⟩, fun t' ht => by cases ht; exact ⟨hscalar, hmask⟩⟩
  unfold Target.expr
  split
  · exact Expr.accesses_register _
  next hother =>
    refine Expr.accesses_lanes (hscalar.symm.trans ?_) _
    simp only [Bool.or_eq_true, not_or] at hother
    exact eq_false_of_ne_true hother.1

end Glsl

namespace Scan

variable {env : Env} {sh : Shader} {s : Scan} {i : Instruction} {a : Source}

theorem accesses_indexExpr {index : RelativeIndex}
    (h : index.register.file = .loop ∨ index.register.file = .address) :
    (indexExpr index).Accesses (s.isScalar sh) := by
  unfold indexExpr
  split
  next => exact fun _ hx => absurd hx List.not_mem_nil
  next hloop =>
    refine Expr.accesses_lanes (isScalar_of_isVector ?_) _
    rw [h.resolve_left hloop]
    rfl

theorem accesses_arrayElement (array : ConstantArray) (delta : Nat) {index : Expr}
    (h : index.Accesses (s.isScalar sh)) :
    (arrayElement array delta index).Accesses (s.isScalar sh) := by
  unfold arrayElement
  dsimp only
  split <;> split <;> exact h

theorem accesses_variableOf {e : Expr}
    (h : ∀ index, a.relative = some index →
      index.register.file = .loop ∨ index.register.file = .address)
    (he : variableOf sh s a = .ok e) :
    e.Accesses (s.isScalar sh) ∧ ∀ r ∈ e.register?, r = a.register := by
  rcases variableOf_cases he with ⟨-, rfl⟩ | ⟨index, hindex, ⟨-, rfl⟩ | ⟨-, array, delta, rfl⟩⟩
  · exact ⟨Expr.accesses_register _, fun r hr => by cases hr; rfl⟩
  · exact ⟨accesses_indexExpr (h index hindex), fun r hr => by cases hr⟩
  · refine ⟨accesses_arrayElement _ _ (accesses_indexExpr (h index hindex)), fun r hr => ?_⟩
    unfold arrayElement at hr
    dsimp only at hr
    split at hr <;> cases hr

theorem yields_accesses (h : ∀ index, a.relative = some index →
      index.register.file = .loop ∨ index.register.file = .address) :
    Yields (Expr.Accesses (s.isScalar sh)) sh s a := by
  intro mask e he
  obtain ⟨hvariable, hregister⟩ := accesses_variableOf h he
  unfold pick
  split
  · exact hvariable
  next hvector =>
    unfold Expr.select
    split
    · exact hvariable
    · refine List.forall_mem_append.mpr ⟨fun r hr => ?_, hvariable⟩
      rw [hregister r (Option.mem_toList.mp hr)]
      exact eq_false_of_ne_true hvector

theorem accesses_copyColor : copyColor.Accesses (s.isScalar sh) :=
  Stmt.accesses_assign rfl (fun h => by cases h) (Expr.accesses_register _)

theorem file_of_oldLoad (hop : i.opcode = .texLd) (hmodel : env.atLeast 1 4 = false)
    (legal : violations env s i = []) : i.dest.register.file = .texture := by
  have hlater : env.atLeast 2 0 = false := env.atLeast_eq_false_of_le hmodel (by decide)
  have hload : loadFaults env.toShader i = [] := by
    unfold violations at legal
    rw [hop] at legal
    exact legal
  unfold loadFaults at hload
  rw [hlater, hmodel] at hload
  have hfile := faultIf_eq_nil hload
  simpa using hfile

/-- The operands of an instruction are accessed as the state says in which its code is written. -/
theorem provides_accesses (fetched : ArgumentsFetched env.toShader i.opcode.info.shape i.toArguments s)
    (legal : violations env s i = [])
    (hmask : i.opcode.info.shape.hasDest = true →
      (settled env s i).isScalar env.toShader i.dest.register = true → i.dest.mask = .x) :
    Provides (Stmt.Accesses ((settled env s i).isScalar env.toShader))
      (Expr.Accesses ((settled env s i).isScalar env.toShader)) env.toShader (settled env s i) i := by
  have htexture : ∀ number, (settled env s i).isScalar env.toShader ⟨.texture, number⟩ = false :=
    fun _ => isScalar_of_isVector rfl
  constructor
  case assigns =>
    intro hd _ mask e hsome hsubset he
    refine Stmt.accesses_assign rfl (fun hscalar => ?_) he
    -- the destination is narrowed, so no other component is left to assign to
    rw [hmask hd hscalar] at hsubset
    exact WriteMask.isX_of_subset hsome hsubset
  case vector =>
    intro _ n e _ he
    exact ⟨he, fun _ ht => by cases ht⟩
  case source => exact fun n hn => yields_accesses (fetched_source fetched hn).indexFile
  case row =>
    intro form hform a ha
    -- all rows are read as the second source is
    have hone : 1 < i.opcode.info.shape.sourceCount env.toShader := by
      cases e : i.opcode <;> first | exact Nat.one_lt_two | (rw [e] at hform; cases hform)
    refine yields_accesses ?_
    rw [(mem_matrixRows ha).1]
    exact (fetched_source fetched hone).indexFile
  case lookup => exact fun _ _ _ _ _ _ he => he
  case plane => exact fun _ _ he => he
  case dest =>
    -- only instructions of texture registers read what they write to
    intro hop ls
    refine Expr.accesses_lanes (isScalar_of_isVector ?_) ls
    have hfile : i.dest.register.file = .texture := by
      rcases hop with hop | ⟨hop, hmodel⟩
      · exact (files_of_readsTexture hop legal).1
      · exact file_of_oldLoad hop hmodel legal
    rw [hfile]
    rfl
  case scaled => exact fun _ => Expr.accesses_register _
  case texture => exact fun _ ls => Expr.accesses_lanes (htexture _) ls
  case pads => exact fun p _ ls => ⟨Expr.accesses_lanes (htexture _) ls, Expr.accesses_lanes (htexture _) ls⟩
  case eye => exact fun _ ls => Expr.accesses_lanes (isScalar_of_isVector rfl) ls

theorem controls_accesses (legal : violations env s i = []) :
    Controls (Stmt.Accesses ((settled env s i).isScalar env.toShader))
      (Expr.Accesses ((settled env s i).isScalar env.toShader)) env.toShader (settled env s i) i := by
  have hbare : ∀ r : Register, r.file.isVector = true →
      (settled env s i).isScalar env.toShader r = false := fun _ => isScalar_of_isVector
  constructor
  case marks => exact fun c hc _ => Stmt.accesses_mark hc
  case tests => exact fun c test htest => Stmt.accesses_test htest
  case bounds =>
    intro hop
    have hfile : (i.source 1).register.file = .constInt := by
      unfold violations at legal
      rw [hop] at legal
      by_contra hfile
      by_cases hloop : (i.source 0).register.file = .loop <;>
        simp [firstFault, hloop, hfile] at legal
    refine ⟨List.forall_mem_singleton.mpr (hbare _ ?_), fun _ ht => by cases ht⟩
    rw [hfile]
    rfl
  case kill =>
    intro hop
    have hfile : i.dest.register.file = .temp ∨ i.dest.register.file = .texture := by
      unfold violations at legal
      rw [hop] at legal
      by_contra hfile
      obtain ⟨htemp, htexture⟩ := not_or.mp hfile
      cases hxyzw : i.dest.mask.isXyzw <;> simp [firstFault, hxyzw, htemp, htexture] at legal
    refine ⟨List.forall_mem_singleton.mpr (hbare _ ?_), fun _ ht => by cases ht⟩
    rcases hfile with hfile | hfile <;> rw [hfile] <;> rfl
  case color => exact fun _ _ _ => accesses_copyColor

theorem accesses_codeOf (fetched : ArgumentsFetched env.toShader i.opcode.info.shape i.toArguments s)
    (legal : violations env s i = [])
    (hmask : i.opcode.info.shape.hasDest = true →
      (settled env s i).isScalar env.toShader i.dest.register = true → i.dest.mask = .x) :
    ∀ c ∈ (codeOf env s i).code, c.Accesses ((settled env s i).isScalar env.toShader) :=
  forall_mem_instructionCode Expr.compositional_accesses (provides_accesses fetched legal hmask)
    (controls_accesses legal)

theorem accesses_closeCode (t : Scan) : ∀ c ∈ (closeCode sh s).code, c.Accesses (t.isScalar sh) := by
  have hclose : Stmt.closeFunction.Accesses (t.isScalar sh) := Stmt.accesses_mark rfl
  unfold closeCode
  split
  · exact List.forall_mem_cons.mpr ⟨accesses_copyColor, List.forall_mem_singleton.mpr hclose⟩
  · exact List.forall_mem_singleton.mpr hclose

end Scan

/-! ### Declarations of scalar registers -/

namespace Glsl

theorem Binding.isScalar_ofVertexOutput (p : Profile) (usage : Usage) (index : Nat) :
    (ofVertexOutput p usage index).type.isScalar = (usage = .fog || usage = .pointSize) := by
  unfold ofVertexOutput vertexBuiltin?
  split
  next b hb =>
    split at hb
    case h_1 | h_2 =>
      cases hb
      rfl
    case h_7 => cases hb
    all_goals
      split at hb
      · cases hb
        rfl
      · cases hb
  next =>
    show (Varying.type _).isScalar = _
    unfold Varying.type
    dsimp only
    split
    next h => exact h.symm
    next h => exact (eq_false_of_ne_true h).symm

theorem Binding.isScalar_ofPixelInput (p : Profile) (usage : Usage) (index : Nat) :
    (ofPixelInput p usage index).type.isScalar = false := by
  unfold ofPixelInput pixelBuiltin?
  split
  next b hb =>
    split at hb
    next =>
      split at hb
      case h_1 | h_2 =>
        cases hb
        rfl
      case h_3 =>
        split at hb
        · cases hb
          rfl
        · cases hb
      case h_4 => cases hb
    next => cases hb
  next => rfl

end Glsl

theorem Scan.isScalar_constant {sh : Shader} (kind : ConstantKind) (number : Nat) :
    s.isScalar sh ⟨kind.file, number⟩ = (VarType.ofConstant kind).isScalar := by
  cases kind <;> rfl

theorem Scan.isScalar_variable {p : Profile} {sh : Shader} {x : Register} {d : Decl} {type : VarType}
    (h : d ∈ variableDecls sh x) (htype : d.type? p = some type) : s.isScalar sh x = type.isScalar := by
  obtain ⟨file, number⟩ := x
  cases file with
  | address =>
    simp only [variableDecls] at h
    split at h
    · rw [List.mem_singleton.mp h] at htype
      cases htype
      rfl
    · split at h
      · cases h
      · rw [List.mem_singleton.mp h] at htype
        cases htype
        rfl
  | predicate =>
    have hd : d = _ := List.mem_singleton.mp h
    rw [hd] at htype
    split at htype
    next hscalar =>
      cases htype
      exact hscalar
    next hvector =>
      cases htype
      exact eq_false_of_ne_true hvector
  | temp =>
    rw [List.mem_singleton.mp h] at htype
    cases htype
    rfl
  | _ => cases h

section Outputs

variable {env : Env} {us : List Word} (clean : (Scan.ofUnits env us).faults = [])
  (hstage : env.stage = .vertex)
include clean hstage

theorem Scan.find?_output (hmodel : env.atLeast 3 0 = false) {r : Register}
    (hfile : r.file.isOutput = true) : (ofUnits env us).attributes.find? r = none := by
  rw [Option.eq_none_iff_forall_ne_some]
  intro a ha
  cases given_ofUnits clean r a ha with
  | declared d w rule register allowed =>
    subst register
    simp only [declarationRule, hstage, hmodel, Bool.false_eq_true, if_false] at allowed
    split at allowed
    · split at allowed
      next hinput =>
        rw [hinput] at hfile
        cases hfile
      next => cases allowed
    · cases allowed
  | coordinates h =>
    rw [h.1] at hfile
    cases hfile

theorem isScalar_outputMeaning (fits : Interface.Fits env.toShader (Scan.ofUnits env us))
    {e : Register × Attribute} (he : e ∈ (LinkedShader.ofUnits env us).interface.attributes)
    (hinput : e.1.file ≠ .input) :
    (Scan.ofUnits env us).isScalar env.toShader e.1 =
      ((outputMeaning env.toShader e.1 e.2).1 = .fog ||
        (outputMeaning env.toShader e.1 e.2).1 = .pointSize) := by
  have hknown := Interface.isVertexAttribute_of_faults (fits.attributes e he) hstage
  have hgiven := Interface.given_or_implied (Scan.tablesSorted_ofUnits env us).attributes he
  have hvertex : env.isVertex = true := by simp [Shader.isVertex, hstage]
  obtain ⟨⟨file, number⟩, a⟩ := e
  cases hmodel : env.atLeast 3 0 with
  | true =>
    -- from shader model 3 on only general outputs are left, and they are declared
    have hfile : file = .output := by
      cases file <;> first
        | rfl
        | exact absurd rfl hinput
        | (simp [Interface.isVertexAttribute, hmodel] at hknown)
    subst hfile
    have hfind : (Scan.ofUnits env us).attributes.find? ⟨.output, number⟩ = some a := by
      refine hgiven.resolve_right fun himplied => ?_
      have hneeds := fits.outputs _ himplied.1
      simp [Interface.needsDeclaration, RegisterFile.isOutput, hvertex, hmodel] at hneeds
    unfold Scan.isScalar outputMeaning
    rw [if_pos rfl, hfind, if_pos hmodel]
    exact Bool.or_comm _ _
  | false =>
    -- before that the registers tell what they are for themselves
    have hnone : file.isOutput = true →
        (Scan.ofUnits env us).attributes.find? ⟨file, number⟩ = none :=
      fun h => Scan.find?_output clean hstage hmodel h
    unfold outputMeaning
    rw [if_neg (by simp [hmodel])]
    cases file with
    | texCoordOut =>
      unfold Scan.isScalar
      rw [if_pos rfl, hnone rfl]
      rfl
    | attrOut => rfl
    | rastOut =>
      -- position, fog and point size go by the number
      have himplied := (hgiven.resolve_left (by rw [hnone rfl]; simp)).2
      have husage : a.usage = Interface.outputUsage ⟨.rastOut, number⟩ :=
        congrArg Attribute.usage (Option.some.inj himplied).symm
      have hmeaning : ((Interface.outputUsage ⟨.rastOut, number⟩ = .fog ||
          Interface.outputUsage ⟨.rastOut, number⟩ = .pointSize : Bool)) =
          Register.isScalarIn env.toShader ⟨.rastOut, number⟩ := by
        unfold Interface.outputUsage Register.isScalarIn
        dsimp only
        split
        next h => simp [h]
        next =>
          split
          next h => simp [h]
          next hfog =>
            split
            next h => simp [h]
            next hsize => simp [hfog, hsize]
      dsimp only
      rw [husage, ite_self, hmeaning]
      rfl
    | input => exact absurd rfl hinput
    | _ => cases hknown

end Outputs

section Declared

variable {p : Profile} {env : Env} {us : List Word} (clean : (Scan.ofUnits env us).faults = [])
  (fits : Interface.Fits env.toShader (Scan.ofUnits env us)) {r : Register} {type : VarType}
include clean fits

theorem isScalar_of_attributeDecl {e : Register × Attribute} {d : Decl} {many : Bool}
    (he : e ∈ (LinkedShader.ofUnits env us).interface.attributes)
    (hd : d ∈ attributeDecls env.toShader many e.1 e.2) (hr : d.register? = some r)
    (htype : d.type? p = some type) :
    (Scan.ofUnits env us).isScalar env.toShader r = type.isScalar := by
  cases hstage : env.stage with
  | vertex =>
    have hout := isScalar_outputMeaning clean hstage fits he
    unfold attributeDecls at hd
    rw [hstage] at hd
    generalize outputMeaning env.toShader e.1 e.2 = meaning at hd hout
    obtain ⟨usage, index⟩ := meaning
    by_cases hinput : e.1.file = .input
    · -- an attribute of a vertex is always a vector
      rw [if_pos hinput] at hd
      rw [List.mem_singleton.mp hd] at hr htype
      cases hr
      cases htype
      exact Scan.isScalar_of_isVector (by rw [hinput]; rfl)
    · -- an output is as wide as its binding, which goes by the meaning
      rw [if_neg hinput] at hd
      rw [List.mem_singleton.mp hd] at hr htype
      cases hr
      cases htype
      rw [hout hinput, Binding.isScalar_ofVertexOutput]
  | pixel =>
    rw [attributeDecls, hstage] at hd
    obtain ⟨⟨file, number⟩, a⟩ := e
    cases file with
    | colorOut | depthOut =>
      -- no declaration changes the width of these
      rw [List.mem_singleton.mp hd] at hr htype
      cases hr
      cases htype
      rfl
    | input =>
      rw [List.mem_singleton.mp hd] at hr htype
      cases hr
      cases htype
      rw [Binding.isScalar_ofPixelInput]
      rfl
    | address =>
      -- a texture coordinate before 1.4 is declared as a variable instead
      dsimp only at hd
      split at hd
      · cases hd
      · rw [List.mem_singleton.mp hd] at hr htype
        cases hr
        cases htype
        rw [Binding.isScalar_ofPixelInput]
        rfl
    | misc =>
      -- the flip of the position is no register
      dsimp only at hd
      split at hd
      · rw [List.mem_singleton.mp hd] at hr
        cases hr
      · cases hd
    | _ => cases hd

omit clean fits in
theorem isScalar_of_local {s : Scan} {sh : Shader} {x : Register} {d : Local}
    (hd : d ∈ attributeLocals sh x) : s.isScalar sh d.register = d.type.isScalar := by
  unfold attributeLocals at hd
  split at hd
  next hmisc =>
    have hfile : x.file = .misc := by simpa using (Bool.and_eq_true_iff.mp hmisc).2
    have hscalar : s.isScalar sh x = decide (x.number = Register.miscFace) := by
      rw [Scan.isScalar_of_ne_output (by rw [hfile]; decide), Register.isScalarIn, hfile]
    split at hd
    next hface =>
      rw [List.mem_singleton.mp hd]
      exact hscalar.trans (decide_eq_true hface)
    next hface =>
      split at hd
      · rw [List.mem_singleton.mp hd]
        exact hscalar.trans (decide_eq_false hface)
      · cases hd
  next => cases hd

/-- **Declarations and scalar registers.**  A register is declared with a scalar type exactly if it is scalar
when all units are read. -/
theorem isScalar_of_declaredAs (h : DeclaredAs p (.ofUnits env us) r type) :
    (Scan.ofUnits env us).isScalar env.toShader r = type.isScalar := by
  rcases h with ⟨d, hd, hr, htype⟩ | ⟨d, hd, rfl, rfl⟩
  · obtain ⟨origin, hintroduction⟩ := introduction_of_mem_declarations hd hr
    cases hintroduction with
    | @literal c | @constant c =>
      cases htype
      exact Scan.isScalar_constant c.kind _
    | global _ hd => exact Scan.isScalar_variable hd htype
    | sampler =>
      cases htype
      rfl
    | inOut he hd => exact isScalar_of_attributeDecl clean fits he hd hr htype
  · obtain ⟨e, -, hx⟩ := List.mem_flatMap.mp hd
    exact isScalar_of_local hx

end Declared

/-! ### The run of a shader -/

/-- The code of an instruction is written with the meanings that it leaves behind. -/
theorem Visit.Executes.attributes_settled {v : Visit} (h : v.Executes i s) :
    (Scan.settled v.env s i).attributes = v.after.attributes := by
  rw [h.after, Scan.attributes_executed h.sound]
  rfl

namespace Scan

variable {env : Env} {us : List Word} (clean : (ofUnits env us).faults = [])
include clean

variable {v : Visit}

/-- Where no unit declares it any more, a register is scalar or not as it is in the end. -/
theorem isScalar_unchanged {earlier later : List Visit}
    (hvs : visits env (start env) 1 us = earlier ++ v :: later) {r : Register}
    (hnone : ∀ u ∈ v :: later, u.declares r = false) (sh : Shader) :
    v.before.isScalar sh r = (ofUnits env us).isScalar sh r ∧
      v.after.isScalar sh r = (ofUnits env us).isScalar sh r := by
  by_cases hfile : r.file = .output
  · obtain ⟨hend, hafter⟩ := find?_unchanged clean hvs (by rw [hfile]; decide) hnone
    exact ⟨isScalar_congr hend.symm, isScalar_congr (hafter.trans hend.symm)⟩
  · simp only [isScalar_of_ne_output hfile, and_self]

/-- An instruction that takes a slot decodes and writes its operands as it does in the end. -/
theorem isScalar_settled (hv : v ∈ visits env (start env) 1 us) {i : Instruction} {s : Scan}
    (this : v.instruction? = some i) (h : v.Executes i s) (hslots : 0 < i.opcode.info.slots)
    (sh : Shader) (r : Register) :
    v.before.isScalar sh r = (ofUnits env us).isScalar sh r ∧
      (settled v.env s i).isScalar sh r = (ofUnits env us).isScalar sh r := by
  obtain ⟨earlier, later, hvs⟩ := List.append_of_mem hv
  obtain ⟨hbefore, hafter⟩ :=
    isScalar_unchanged clean hvs (not_declares_of_slots clean hvs this h hslots r) sh
  exact ⟨hbefore, (isScalar_congr (by rw [h.attributes_settled])).trans hafter⟩

theorem accesses_written (hv : v ∈ visits env (start env) 1 us) (hdoes : v.Does) :
    ∀ c ∈ v.written, c.Accesses ((ofUnits env us).isScalar env.toShader) := by
  obtain ⟨t, hrun, -, -⟩ := run_of_clean clean
  obtain rfl : v.env = env := hrun.env_eq v hv
  cases hdoes with
  | idle other unmarked haveTable symbols more preshader after | rest other mark closed after =>
    have hnone : v.written = [] := Visit.written_eq (by simp [after, annotated])
    rw [hnone]
    exact fun c hc => absurd hc List.not_mem_nil
  | finish other mark opened after =>
    rw [Visit.written_eq (Visit.code_after_finish after)]
    exact accesses_closeCode _
  | execute i s this h =>
    rw [Visit.written_eq h.code_after]
    rcases Nat.eq_zero_or_pos i.opcode.info.slots with hzero | hslots
    · exact fun c hc => Stmt.accesses_mark (isMark_of_slots hzero hc)
    · have hsame := isScalar_settled clean hv this h hslots v.env.toShader
      have hmask : i.opcode.info.shape.hasDest = true →
          (settled v.env s i).isScalar v.env.toShader i.dest.register = true → i.dest.mask = .x := by
        intro hd hscalar
        rw [h.mask_eq hd, (hsame _).1, ← (hsame _).2, hscalar, if_pos rfl]
      rw [← funext fun r => (hsame r).2]
      exact accesses_codeOf h.fetchedArguments h.legal hmask

end Scan

/-! ### Registers and their declarations -/

/-- The register is accessed as one that is scalar, or as one that is not. -/
structure Accessed (o : Options) (ws : List Word) (l : LinkedShader) (r : Register) (scalar : Bool) :
    Prop where
  /-- That is what the register is taken for from where no unit declares it any more. -/
  stable : ∀ earlier v later, unitsOf o ws = earlier ++ v :: later →
    (∀ u ∈ v :: later, u.declares r = false) →
      v.before.isScalar l.env.toShader r = scalar ∧ v.after.isScalar l.env.toShader r = scalar
  /-- Instructions that take a slot come after all declarations.  If they write the register their mask is
  narrowed or not. -/
  narrowed : ∀ v ∈ unitsOf o ws, ∀ i, v.instruction? = some i → 0 < i.opcode.info.slots →
    i.opcode.info.shape.hasDest = true → i.dest.register = r →
      i.dest.mask = if scalar then .x else i.dest.statedMask
  /-- If they read it, it is written as a whole or by its components. -/
  picked : ∀ v ∈ unitsOf o ws, ∀ i s, v.instruction? = some i → v.Executes i s →
    0 < i.opcode.info.slots → ∀ a : Source, a.register = r → ∀ mask e,
      Scan.pick l.env.toShader (Scan.settled v.env s i) a mask e =
        if scalar then e else e.select a.swizzle mask
  /-- A scalar is never written with components. -/
  whole : scalar = true → ∀ c ∈ l.scan.code, r ∉ c.suffixed
  /-- It is assigned to as a whole, and what is assigned goes by the mask that is narrowed. -/
  assigned : ∀ c ∈ l.scan.code, ∀ t, c.target? = some t → t.register = r →
    t.scalar = scalar ∧ (scalar = true → t.mask.isX = true)

theorem accessed_of_isScalar {p : Profile} {o : Options} {ws : List Word} {l : LinkedShader}
    (clean : (liftWords p o ws).errors = []) (hlink : linkShader o ws = .ok l) (r : Register) :
    Accessed o ws l r (l.scan.isScalar l.env.toShader r) := by
  have hdoes := does_of_no_errors p o ws clean
  have hcode := code_eq_written clean hlink
  obtain ⟨w, us, env, rfl, hversion, hclean, hlinked⟩ := linkShader_of_no_errors p o ws clean
  cases hlinked.symm.trans hlink
  rw [unitsOf_cons o hversion] at hdoes hcode
  have haccesses : ∀ c ∈ (LinkedShader.ofUnits env us).scan.code,
      c.Accesses ((Scan.ofUnits env us).isScalar env.toShader) := by
    intro c hc
    rw [hcode] at hc
    obtain ⟨v, hv, hwritten⟩ := List.mem_flatMap.mp hc
    exact Scan.accesses_written hclean hv (hdoes v hv) c hwritten
  constructor
  case stable =>
    intro earlier v later hvs hnone
    rw [unitsOf_cons o hversion] at hvs
    exact Scan.isScalar_unchanged hclean hvs hnone env.toShader
  case narrowed =>
    intro v hv i this hslots hshape hr
    rw [unitsOf_cons o hversion] at hv
    obtain ⟨t, hrun, -, -⟩ := Scan.run_of_clean hclean
    obtain ⟨s, h⟩ := (hdoes v hv).executes this
    have henv : v.env = env := hrun.env_eq v hv
    rw [h.mask_eq hshape, henv, hr,
      (Scan.isScalar_settled hclean hv this h hslots env.toShader r).1]
    rfl
  case picked =>
    rintro v hv i s this h hslots a rfl mask e
    rw [unitsOf_cons o hversion] at hv
    unfold Scan.pick
    rw [(Scan.isScalar_settled hclean hv this h hslots _ a.register).2]
    rfl
  case whole =>
    intro hscalar c hc hr
    have hvector := (haccesses c hc).suffixed r hr
    exact absurd (hscalar.symm.trans hvector) Bool.noConfusion
  case assigned =>
    rintro c hc t ht rfl
    obtain ⟨hscalar, hmask⟩ := (haccesses c hc).target t ht
    exact ⟨hscalar, fun h => hmask (hscalar.trans h)⟩

/-- **Registers are accessed as they are declared.**  In the text of a program without a fault the name of a
register has the type that the register is declared with.  If that is a scalar, masks are narrowed to one
component and the register is never written with components; otherwise masks and swizzles stay as they are.
-/
theorem lift_scalars_as_declared (p : Profile) (o : Options) (ws : List Word)
    (clean : (liftWords p o ws).errors = []) :
    ∃ l, linkShader o ws = .ok l ∧
      (∀ r type, DeclaredAs p l r type →
        Typed (liftWords p o ws).output (r.name l.env.toShader) type ∧
        Accessed o ws l r type.isScalar) ∧
      ∀ c ∈ l.scan.code, ∀ r ∈ c.registers, r.file ≠ .label → r.file ≠ .loop →
        (∃ type, DeclaredAs p l r type) ∨ (Stray l r ∧ Accessed o ws l r false) := by
  obtain ⟨env, us, hlink, hclean, hfits⟩ := linked_of_no_errors clean
  refine ⟨.ofUnits env us, hlink, fun r type h => ⟨?_, ?_⟩, fun c hc r hr hlabel hloop => ?_⟩
  · rw [liftWords_eq, hlink]
    exact typed_of_declaredAs o h
  · rw [← isScalar_of_declaredAs hclean hfits h]
    exact accessed_of_isScalar clean hlink r
  · by_cases hstray : Stray (.ofUnits env us) r
    · have htexture : r.file = .texture := (hstray.resolve_left hloop).2.2.1
      have hvector : (Scan.ofUnits env us).isScalar env.toShader r = false :=
        Scan.isScalar_of_isVector (by rw [htexture]; rfl)
      refine .inr ⟨hstray, ?_⟩
      rw [← hvector]
      exact accessed_of_isScalar clean hlink r
    · exact .inl ((declares_of_mem_registers clean hlink hc hr hlabel hstray).declaredAs p)

/-- Code that declares an output as a fog factor and writes it if a truth value holds. -/
def foggedVertex : List Word :=
  [0xFFFE0300,
    0x0200001F, 0x80000000, 0xE00F0000,
    0x0200001F, 0x8000000B, 0xE00F0001,
    0x02000001, 0xE00F0000, 0xA0E40000,
    0x01000028, 0xE0E40800,
    0x02000001, 0xE00F0001, 0xA0E40001,
    0x0000002B,
    0xFFFF]

theorem scalars_as_declared_foggedVertex :
    (liftWords .glsl400 {} foggedVertex).errors = [] ∧
      ∃ l, linkShader {} foggedVertex = .ok l ∧
        (∀ r type, DeclaredAs .glsl400 l r type →
          Typed (liftWords .glsl400 {} foggedVertex).output (r.name l.env.toShader) type ∧
          Accessed {} foggedVertex l r type.isScalar) ∧
        ∀ c ∈ l.scan.code, ∀ r ∈ c.registers, r.file ≠ .label → r.file ≠ .loop →
          (∃ type, DeclaredAs .glsl400 l r type) ∨ (Stray l r ∧ Accessed {} foggedVertex l r false) := by
  have clean : (liftWords .glsl400 {} foggedVertex).errors = [] := by decide +kernel
  exact ⟨clean, lift_scalars_as_declared .glsl400 {} foggedVertex clean⟩

end ShaderLift
