/-
What the code of an instruction names.  `Within K` says of an expression or a statement that the registers
it names are among those of `K`, and that the text in it is made of pieces.  The code of every instruction
is within whatever its operands are within (`within_instructionCode`), so each statement about names or
braces is a matter of choosing `K`.  Instructions that have nothing to do with control flow write
assignments and local vectors only (`says_instructionCode_plain`).
-/
import ShaderLift.Proofs.Composition
import ShaderLift.Proofs.Spelling

namespace ShaderLift

/-! ### Operands -/

variable {K : Register → Prop}

/-- The registers that the expression of a source can name: the source itself, or the register that it is
relative to. -/
structure Source.Within (K : Register → Prop) (a : Source) : Prop where
  plain : a.relative = none → K a.register
  index : ∀ index, a.relative = some index → a.register.file = .input ∨ a.register.file = .const →
    index.register.file ≠ .loop → K index.register

theorem Source.within_any (a : Source) : a.Within fun _ => True :=
  ⟨fun _ => trivial, fun _ _ _ _ => trivial⟩

def Pad.Within (K : Register → Prop) (p : Pad) : Prop :=
  K ⟨.texture, p.source⟩ ∧ K ⟨.texture, p.dest⟩

def Pads.Within (K : Register → Prop) (ps : Pads) : Prop := ∀ p ∈ ps.rows, p.Within K

namespace Glsl

/-! ### Expressions and statements within registers -/

@[simp] def Ident.Within (K : Register → Prop) : Ident → Prop
  | .register r => K r
  | _ => True

@[simp] def Expr.Within (K : Register → Prop) : Expr → Prop
  | .number t => IsPiece t
  | .name n => n.Within K
  | .lanes e _ | .negate e | .not e | .group e => e.Within K
  | .element array index => array.Within K ∧ index.Within K
  | .binary _ a b | .args a b => a.Within K ∧ b.Within K
  | .choose test a b => test.Within K ∧ a.Within K ∧ b.Within K
  | .call f a => IsPiece f ∧ a.Within K
  | .lookup _ _ stage a => K (sampler stage) ∧ a.Within K

/-- Statements that only give a value to something. -/
@[simp] def Stmt.Plain (K : Register → Prop) : Stmt → Prop
  | .assign t e => K t.register ∧ e.Within K
  | .vector3 n e => (∀ r, n ≠ .register r) ∧ e.Within K
  | _ => False

@[simp] def Stmt.Within (K : Register → Prop) : Stmt → Prop
  | .assign t e => K t.register ∧ e.Within K
  | .vector3 n e => (∀ r, n ≠ .register r) ∧ e.Within K
  | .callIf e _ _ | .openRep _ e | .openIf e | .leaveIf e => e.Within K
  | .openLoop r | .killIfNegative r => K r
  | _ => True

theorem Stmt.Plain.within {c : Stmt} (h : c.Plain K) : c.Within K := by
  cases c with
  | assign t e => exact h
  | vector3 n e => exact h
  | _ => exact h.elim

section Mono

variable {L : Register → Prop}

theorem Ident.Within.mono {n : Ident} (hKL : ∀ r, K r → L r) (h : n.Within K) : n.Within L := by
  cases n with
  | register r => exact hKL r h
  | _ => trivial

theorem Expr.Within.mono {e : Expr} (hKL : ∀ r, K r → L r) (h : e.Within K) : e.Within L := by
  induction e with
  | number t => exact h
  | name n => exact Ident.Within.mono hKL h
  | lanes e ls ih | negate e ih | not e ih | group e ih => exact ih h
  | element array index ih => exact ⟨h.1.mono hKL, ih h.2⟩
  | binary op a b iha ihb | args a b iha ihb => exact ⟨iha h.1, ihb h.2⟩
  | choose test a b ih iha ihb => exact ⟨ih h.1, iha h.2.1, ihb h.2.2⟩
  | call f a ih => exact ⟨h.1, ih h.2⟩
  | lookup kind form stage a ih => exact ⟨hKL _ h.1, ih h.2⟩

theorem Stmt.Within.mono {c : Stmt} (hKL : ∀ r, K r → L r) (h : c.Within K) : c.Within L := by
  cases c with
  | assign target e => exact ⟨hKL _ h.1, h.2.mono hKL⟩
  | vector3 n e => exact ⟨h.1, h.2.mono hKL⟩
  | callIf e label counter | openRep depth e | openIf e | leaveIf e => exact Expr.Within.mono hKL h
  | openLoop r | killIfNegative r => exact hKL r h
  | _ => trivial

end Mono

theorem Expr.compositional_within : Expr.Compositional (Expr.Within K) where
  number h := h
  name {n} h := by
    cases n with
    | register r => exact absurd rfl (h r)
    | _ => trivial
  lanes _ _ h := h
  negate h := h
  not h := h
  group h := h
  binary _ _ _ ha hb := ⟨ha, hb⟩
  choose ht ha hb := ⟨ht, ha, hb⟩
  call hf ha := ⟨hf, ha⟩
  args ha hb := ⟨ha, hb⟩

end Glsl

/-! ### The text of expressions -/

section Text

variable {sh : Shader}

theorem isPiece_shortName (sh : Shader) : IsPiece sh.shortName := by
  unfold Shader.shortName
  cases sh.stage <;> decide

theorem RegisterFile.isPiece_letters? {f : RegisterFile} {letters : String}
    (h : f.letters? sh = some letters) : IsPiece ("_" ++ letters) := by
  cases f <;> simp only [letters?, Option.some.injEq, reduceCtorEq] at h
  case address => subst h; cases sh.isVertex <;> decide
  case texCoordOut => subst h; cases sh.isVertex && sh.atLeast 3 0 <;> decide
  all_goals subst h; decide

/-- Names of registers are pieces.  What a register is spelled with is one together with the underscore
before it. -/
theorem isPiece_name (sh : Shader) (r : Register) : IsPiece (r.name sh) := by
  have hspelling : IsPiece ("_" ++ (r.spelling? sh).getD "???") := by
    cases hletters : r.file.letters? sh with
    | none =>
      have hall : ∀ text ∈ Register.unnumbered, IsPiece ("_" ++ text) := by decide
      exact hall _ (Register.mem_unnumbered hletters)
    | some letters =>
      rw [Register.spelling?_of_letters? hletters, Option.getD_some, ← String.append_assoc]
      exact (RegisterFile.isPiece_letters? hletters).append (isPiece_repr r.number)
  rw [Register.name, String.append_assoc]
  exact (isPiece_shortName sh).append hspelling

namespace Glsl

theorem isPiece_constantType (kind : ConstantKind) : IsPiece (constantType kind) := by
  cases kind <;> decide

theorem isPiece_ident (n : Ident) : IsPiece (n.text sh) := by
  cases n with
  | register r => exact isPiece_name sh r
  | packed kind =>
    have hrest : IsPiece ("_uniforms_" ++ constantType kind) := by cases kind <;> decide
    rw [Ident.text, String.append_assoc]
    exact (isPiece_shortName sh).append hrest
  | constArray base count =>
    have htext : (Ident.constArray base count).text sh =
        sh.shortName ++ "_const_array" ++ ("_" ++ base.repr) ++ ("_" ++ count.repr) := by
      have hstem : "_const_array_" = "_const_array" ++ "_" := rfl
      simp only [Ident.text, hstem, String.append_assoc]
      rfl
    have hstem := (isPiece_shortName sh).append (by decide : IsPiece "_const_array")
    rw [htext]
    exact (hstem.append (isPiece_underscore_repr base)).append (isPiece_underscore_repr count)
  | arrayBase base =>
    have hstem : "ARRAYBASE_" = "ARRAYBASE" ++ "_" := rfl
    show IsPiece ("ARRAYBASE_" ++ base.repr)
    rw [hstem, String.append_assoc]
    exact IsPiece.append (by decide) (isPiece_underscore_repr base)
  | inputArray => exact (by decide : IsPiece "vertex_input_array")
  | loopCounter => exact (by decide : IsPiece "aL")
  | bumpMatrix stage | bumpLuminance stage => exact (isPiece_name sh _).append (by decide)
  | eyeRay r | normal r => exact (isPiece_name sh r).append (by decide)

theorem isPiece_lettersOf (ls : List Lane) : IsPiece (lettersOf ls) := by
  constructor
  · unfold bracesOf lettersOf
    rw [String.toList_ofList, List.filterMap_eq_nil_iff]
    intro c hc
    obtain ⟨l, -, rfl⟩ := List.mem_map.mp hc
    cases l <;> decide
  · apply clear_of_forall_ne
    unfold lettersOf
    rw [String.toList_ofList]
    intro c hc
    obtain ⟨l, -, rfl⟩ := List.mem_map.mp hc
    cases l <;> decide

theorem isPiece_lookupFunction (kind : TextureKind) (form : LookupForm) :
    IsPiece (lookupFunction kind form) := by
  cases kind <;> cases form <;> decide

theorem BinaryOp.isPiece_text (op : BinaryOp) : IsPiece op.text := by
  cases op with
  | compare c => cases c <;> decide
  | _ => decide

theorem Expr.Within.isPiece_text {e : Expr} (h : e.Within K) : IsPiece (e.text sh) := by
  induction e with
  | number t => exact h
  | name n => exact isPiece_ident n
  | lanes e ls ih => exact ((ih h).append (by decide)).append (isPiece_lettersOf ls)
  | element array index ih =>
    exact (((isPiece_ident array).append (by decide)).append (ih h.2)).append (by decide)
  | negate e ih | not e ih => exact IsPiece.append (by decide) (ih h)
  | group e ih => exact (IsPiece.append (by decide) (ih h)).append (by decide)
  | binary op a b iha ihb =>
    exact ((((iha h.1).append (by decide)).append op.isPiece_text).append (by decide)).append (ihb h.2)
  | choose test a b ih iha ihb =>
    exact ((((ih h.1).append (by decide)).append (iha h.2.1)).append (by decide)).append (ihb h.2.2)
  | call f a ih => exact ((h.1.append (by decide)).append (ih h.2)).append (by decide)
  | lookup kind form stage a ih =>
    have hfunction := (isPiece_lookupFunction kind form).append (by decide : IsPiece "(")
    have hsampler := (hfunction.append (isPiece_name sh (sampler stage))).append (by decide : IsPiece ", ")
    exact (hsampler.append (ih h.2)).append (by decide)
  | args a b iha ihb => exact ((iha h.1).append (by decide)).append (ihb h.2)

end Glsl

end Text

open Glsl Glsl.Emission

namespace Scan

variable {sh : Shader} {s : Scan} {i : Instruction} {a : Source}

/-! ### Code within registers -/

theorem within_indexExpr {index : RelativeIndex}
    (h : index.register.file ≠ .loop → K index.register) : (indexExpr index).Within K := by
  unfold indexExpr
  split
  next => trivial
  next hfile => exact h hfile

theorem within_arrayElement (array : ConstantArray) (delta : Nat) {index : Expr}
    (h : index.Within K) : (arrayElement array delta index).Within K := by
  unfold arrayElement
  dsimp only
  split <;> split <;> simp [Expr.add, h]

theorem within_variableOf {e : Expr} (h : a.Within K) (he : variableOf sh s a = .ok e) :
    e.Within K := by
  rcases variableOf_cases he with ⟨hplain, rfl⟩ | ⟨index, hindex, ⟨hfile, rfl⟩ | ⟨hfile, array, delta, rfl⟩⟩
  · exact h.plain hplain
  · exact ⟨trivial, within_indexExpr (h.index index hindex (.inl hfile))⟩
  · exact within_arrayElement _ _ (within_indexExpr (h.index index hindex (.inr hfile)))

theorem yields_within (h : a.Within K) : Yields (Expr.Within K) sh s a := by
  intro mask e he
  have hwithin := within_variableOf h he
  unfold pick Expr.select
  split
  · exact hwithin
  · split <;> exact hwithin

/-- What the code of an instruction can name is all in `K`. -/
structure Supplied (K : Register → Prop) (sh : Shader) (s : Scan) (i : Instruction) : Prop where
  dest : i.opcode.info.shape.hasDest = true → K i.dest.register
  source : ∀ n < i.opcode.info.shape.sourceCount sh, (i.source n).Within K
  row : ∀ form, i.opcode.matrixForm? = some form → ∀ a ∈ i.matrixRows form.rows, a.Within K
  /-- The source of an instruction of texture matrices or bump mapping is a texture register. -/
  texture : i.opcode.readsTexture = true → K ⟨.texture, (i.source 0).register.number⟩
  /-- The sampler that goes with the destination, for an instruction that takes its kind for granted. -/
  plane : i.opcode.looksUpPlane = true → K (sampler i.dest.register.number)
  eye : i.opcode = .texM3x3Spec → K ⟨.const, (i.source 1).register.number⟩
  bounds : i.opcode = .loop → K (i.source 1).register
  color : i.opcode = .ret → s.inMain = true → colorFromTemp sh = true →
    K ⟨.colorOut, 0⟩ ∧ K ⟨.temp, 0⟩
  stage : ∀ stage kind, s.textureKind stage = some kind → K (sampler stage)
  pads : s.pads.Within K

theorem supplied_any (sh : Shader) (s : Scan) (i : Instruction) :
    Supplied (fun _ => True) sh s i := by
  constructor
  case source => exact fun n _ => Source.within_any _
  case row => exact fun form _ a _ => a.within_any
  case pads => exact fun p _ => ⟨trivial, trivial⟩
  case color => exact fun _ _ _ => ⟨trivial, trivial⟩
  all_goals intros; trivial

namespace Supplied

theorem provides {S : Stmt → Prop} (h : Supplied K sh s i)
    (hS : ∀ c : Stmt, c.Plain K → S c) : Provides S (Expr.Within K) sh s i := by
  constructor
  case assigns => exact fun hd _ mask e _ _ he => hS _ ⟨h.dest hd, he⟩
  case vector => exact fun _ n e hn he => hS _ ⟨hn, he⟩
  case source => exact fun n hn => yields_within (h.source n hn)
  case row => exact fun form hform a ha => yields_within (h.row form hform a ha)
  case lookup => exact fun _ stage kind hkind form e he => ⟨h.stage stage kind hkind, he⟩
  case plane => exact fun hop e he => ⟨h.plane hop, he⟩
  case dest =>
    intro hop ls
    apply h.dest
    cases e : i.opcode <;> first | rfl | (simp [e, Opcode.readsTexture] at hop)
  case scaled => exact fun hop => h.dest (by rw [hop]; rfl)
  case texture => exact fun hop ls => h.texture hop
  case pads => exact fun p hp ls => h.pads p hp
  case eye => exact fun hop ls => h.eye hop

theorem controls (h : Supplied K sh s i) : Controls (Stmt.Within K) (Expr.Within K) sh s i := by
  constructor
  case marks =>
    intro c hc _
    cases c <;> trivial
  case tests =>
    intro c test htest hwithin
    cases c <;> cases htest <;> exact hwithin
  case bounds => exact h.bounds
  case kill => exact fun hop => h.dest (by rw [hop]; rfl)
  case color => exact h.color

end Supplied

/-- Instructions that have nothing to do with control flow only give values to registers of `K`. -/
theorem says_instructionCode_plain (h : Supplied K sh s i) (hop : i.opcode.isFlow = false) :
    (instructionCode sh s i).Says (Stmt.Plain K) fun _ => True :=
  says_instructionCode Expr.compositional_within (h.provides fun _ hc => hc) hop

theorem within_instructionCode (h : Supplied K sh s i) :
    ∀ c ∈ (instructionCode sh s i).code, c.Within K :=
  forall_mem_instructionCode Expr.compositional_within (h.provides fun _ hc => hc.within) h.controls

end Scan

end ShaderLift
