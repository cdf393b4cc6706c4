/-
Where the names in code come from.  Each register that the code of an instruction names has come up by
then: as an operand, as the index of a relative source, a further row of a matrix, the sampler of a
lookup, a texture register of a matrix whose rows wait, or one of the two registers of the colour that is
copied at the end.  Reading records all of them (`Recorded`), and what is recorded is never taken back
(`Grows`).  Likewise every register that counts as defined has something that defines it.
-/
import ShaderLift.Proofs.Temporaries

namespace ShaderLift

open Glsl

variable {v : Visit} {i : Instruction} {s : Scan}

theorem Shader.atLeast_of_le (sh : Shader) {major minor major' minor' : Nat}
    (h : sh.atLeast major minor = true)
    (hle : (Version.mk major' minor').packed ≤ (Version.mk major minor).packed) :
    sh.atLeast major' minor' = true :=
  decide_eq_true (Nat.le_trans hle (of_decide_eq_true h))

theorem Shader.atLeast_eq_false_of_le (sh : Shader) {major minor major' minor' : Nat}
    (h : sh.atLeast major' minor' = false)
    (hle : (Version.mk major' minor').packed ≤ (Version.mk major minor).packed) :
    sh.atLeast major minor = false := by
  rw [Bool.eq_false_iff] at h ⊢
  exact fun hlater => h (sh.atLeast_of_le hlater hle)

namespace Scan

variable {env : Env} {s t u : Scan} {r : Register} {i : Instruction} {ws : List Word}
variable {p : Pad} {sh : Shader} {index : RelativeIndex} {a : Source} {shape : Shape}

/-! ### What is never taken back -/

/-- What is recorded in `s` is recorded in `t`. -/
structure Grows (s t : Scan) : Prop where
  used : ∀ r ∈ s.used.registers, r ∈ t.used.registers
  samplers : ∀ r ∈ s.samplers.registers, r ∈ t.samplers.registers
  attributes : ∀ r ∈ s.attributes.registers, r ∈ t.attributes.registers
  constants : ∀ c ∈ s.constants, c ∈ t.constants
  relativeInput : s.relativeInput = true → t.relativeInput = true

namespace Grows

theorem refl (s : Scan) : Grows s s :=
  ⟨fun _ h => h, fun _ h => h, fun _ h => h, fun _ h => h, id⟩

theorem trans (h : Grows s t) (h' : Grows t u) : Grows s u where
  used r hr := h'.used r (h.used r hr)
  samplers r hr := h'.samplers r (h.samplers r hr)
  attributes r hr := h'.attributes r (h.attributes r hr)
  constants c hc := h'.constants c (h.constants c hc)
  relativeInput hs := h'.relativeInput (h.relativeInput hs)

end Grows

theorem mem_used_markUsed (s : Scan) (r : Register) (written : Bool) :
    r ∈ (s.markUsed r written).used.registers :=
  (RegisterTable.mem_registers_update _ _ _ _ _).mpr (.inl rfl)

theorem mem_registers_update_of_mem {α : Type} {table : RegisterTable α} {x : Register}
    (h : x ∈ table.registers) (r : Register) (fresh : α) (f : α → α) :
    x ∈ (table.update r fresh f).registers :=
  (RegisterTable.mem_registers_update table r fresh f x).mpr (.inr h)

theorem Fetch.grows (h : Fetch s t) : Grows s t := by
  cases h with
  | use r written => exact { Grows.refl s with used := fun _ h => mem_registers_update_of_mem h _ _ _ }
  | relativeInput => exact { Grows.refl s with relativeInput := fun _ => rfl }
  | _ => exact { Grows.refl s with }

theorem Fetches.grows (h : Fetches s t) : Grows s t := by
  induction h with
  | refl => exact .refl s
  | tail _ step ih => exact ih.trans step.grows

theorem Move.grows (h : Move env s t) : Grows s t := by
  cases h with
  | fetch h => exact h.grows
  | define c early => exact { Grows.refl s with constants := fun _ h => List.mem_append_left _ h }
  | sampler stage kind bump =>
    exact { Grows.refl s with samplers := fun _ h => mem_registers_update_of_mem h _ _ _ }
  | meaning r a => exact { Grows.refl s with attributes := fun _ h => mem_registers_update_of_mem h _ _ _ }
  | call label known => exact { Grows.refl s with used := fun _ h => mem_registers_update_of_mem h _ _ _ }
  | _ => exact { Grows.refl s with }

theorem Moves.grows (h : Moves env s t) : Grows s t := by
  induction h with
  | refl => exact .refl s
  | tail _ step ih => exact ih.trans step.grows

theorem invariant_used (env : Env) (r : Register) : Invariant env fun s => r ∈ s.used.registers where
  move h hs := h.grows.used r hs
  startUnit _ hs := hs
  ended hs := hs
  cutOff hs := hs

theorem invariant_sampler (env : Env) (r : Register) :
    Invariant env fun s => r ∈ s.samplers.registers where
  move h hs := h.grows.samplers r hs
  startUnit _ hs := hs
  ended hs := hs
  cutOff hs := hs

/-! ### Operands -/

/-- The source is recorded, and so is the register that it is relative to; a relative input is recorded
as such instead. -/
structure Fetched (s : Scan) (a : Source) : Prop where
  used : a.register ∈ s.used.registers
  index : ∀ index, a.relative = some index → a.register.file = .input ∨ a.register.file = .const →
    s.relativeInput = true ∨ index.register ∈ s.used.registers
  /-- A source is relative to the counter of a loop or to an address register. -/
  indexFile : ∀ index, a.relative = some index →
    index.register.file = .loop ∨ index.register.file = .address

theorem Fetched.mono (h : Fetched s a) (hst : Grows s t) : Fetched t a where
  used := hst.used _ h.used
  index index hindex hfile :=
    (h.index index hindex hfile).imp hst.relativeInput (hst.used _)
  indexFile := h.indexFile

theorem recorded_resolveRelative (flag : (resolveRelative env r index s).2.failing = false)
    (hfile : r.file = .input ∨ r.file = .const) :
    (resolveRelative env r index s).2.relativeInput = true ∨
      (resolveRelative env r index s).1.register ∈ (resolveRelative env r index s).2.used.registers := by
  unfold resolveRelative at flag ⊢
  rcases hfile with hinput | hconst
  · rw [hinput]
    exact .inl rfl
  · rw [hconst] at flag ⊢
    dsimp only at flag ⊢
    split
    next htable =>
      rw [if_pos htable] at flag
      split
      next place hplace => exact .inr (mem_used_markUsed _ _ _)
      next hnone => simp [hnone, fail] at flag
    next htable => simp [htable, fail] at flag

theorem file_readIndex (flag : (readIndex env s ws).2.2.failing = false) :
    (readIndex env s ws).1.register.file = .loop ∨ (readIndex env s ws).1.register.file = .address := by
  cases ws with
  | nil => exact .inr rfl
  | cons w ws =>
    simp only [readIndex] at flag ⊢
    split
    next hmodel =>
      rw [if_pos hmodel] at flag
      have hchecked : (RegisterFile.ofCode? (RelativeWord.ofWord w).fileCode != some .loop &&
          RegisterFile.ofCode? (RelativeWord.ofWord w).fileCode != some .address) = false := by
        refine eq_false_of_failIf (Records.flag ?_ flag) (f := .relativeRegister)
          (s := (s.advance.failIf (!(RelativeWord.ofWord w).marked) .relativeUnmarked).failIf
            (RelativeWord.ofWord w).reserved .relativeReserved)
        exact ((Fetches.failIf .refl _ _).failIf _ _).records
      cases hcode : RegisterFile.ofCode? (RelativeWord.ofWord w).fileCode with
      | none => exact .inr rfl
      | some file =>
        rw [hcode] at hchecked
        cases file <;> simp at hchecked <;> simp
    next => exact .inr rfl

theorem file_readRelative (flag : (readRelative env r s ws).2.2.failing = false) :
    (readRelative env r s ws).1.register.file = .loop ∨
      (readRelative env r s ws).1.register.file = .address := by
  unfold readRelative at flag ⊢
  dsimp only at flag ⊢
  rw [register_resolveRelative]
  exact file_readIndex ((fetches_readRelative env r s ws).records.flag flag)

/-- A relative source has its index read, and after that only its modifier is looked at. -/
theorem relative_readSource {w : Word} (h : (readSource env s (w :: ws)).1.relative = some index) :
    ∃ s' ws', index = (readRelative env (readSource env s (w :: ws)).1.register s' ws').1 ∧
      Fetches (readRelative env (readSource env s (w :: ws)).1.register s' ws').2.2
        (readSource env s (w :: ws)).2.2 := by
  simp only [readSource] at h ⊢
  split at h
  next hrelative =>
    cases h
    rw [if_pos hrelative]
    exact ⟨_, ws, rfl, (Fetches.checkModifier .refl env _ _).markRead _⟩
  next => cases h

theorem file_of_relative (flag : (readSource env s ws).2.2.failing = false)
    (hindex : (readSource env s ws).1.relative = some index) :
    index.register.file = .loop ∨ index.register.file = .address := by
  cases ws with
  | nil => cases hindex
  | cons w ws =>
    obtain ⟨s', ws', rfl, hafter⟩ := relative_readSource hindex
    exact file_readRelative (hafter.records.flag flag)

theorem fetched_readSource (flag : (readSource env s ws).2.2.failing = false) :
    Fetched (readSource env s ws).2.2 (readSource env s ws).1 := by
  cases ws with
  | nil => simp [readSource, fail] at flag
  | cons w ws =>
    refine ⟨?_, fun index hindex hfile => ?_, fun index hindex => file_of_relative flag hindex⟩
    · obtain ⟨u, -, hflag, heq⟩ := readSource_of_flag flag
      rw [heq, markRead, hflag, if_neg Bool.false_ne_true, used_failIf]
      exact mem_used_markUsed _ _ _
    · obtain ⟨s', ws', rfl, hafter⟩ := relative_readSource hindex
      have hrelative := recorded_resolveRelative (hafter.records.flag flag) hfile
      exact hrelative.imp hafter.grows.relativeInput (hafter.grows.used _)

theorem used_of_readDest {centroidAllowed : Bool}
    (flag : (readDest env centroidAllowed s ws).2.2.failing = false) :
    (readDest env centroidAllowed s ws).1.register ∈
      (readDest env centroidAllowed s ws).2.2.used.registers := by
  cases ws with
  | nil => simp [readDest, fail] at flag
  | cons w ws =>
    simp only [readDest] at flag ⊢
    split
    next hfailing =>
      rw [if_pos hfailing, hfailing] at flag
      cases flag
    next => exact mem_used_markUsed _ _ _

/-- What arguments leave behind: their destination, if they have one, and all their sources are
recorded.  Pixel shaders declare nothing before shader model 2. -/
structure ArgumentsFetched (sh : Shader) (shape : Shape) (a : Arguments) (t : Scan) : Prop where
  dest : shape.hasDest = true → a.dest.register ∈ t.used.registers
  length : a.sources.length = shape.sourceCount sh
  sources : ∀ x ∈ a.sources, Fetched t x
  declares : shape = .declaration → sh.isPixel = true → sh.atLeast 2 0 = true

theorem ArgumentsFetched.mono {a : Arguments} (h : ArgumentsFetched sh shape a s) (hst : Grows s t) :
    ArgumentsFetched sh shape a t where
  dest hd := hst.used _ (h.dest hd)
  length := h.length
  sources x hx := (h.sources x hx).mono hst
  declares := h.declares

theorem declarationRule_of_old (hpixel : sh.isPixel = true) (hmodel : sh.atLeast 2 0 = false)
    (w : Word) (d : Dest) : declarationRule sh w d = none := by
  have hstage : sh.stage = .pixel := by simpa [Shader.isPixel] using hpixel
  have hlater : sh.atLeast 3 0 = false := sh.atLeast_eq_false_of_le hmodel (by decide)
  simp [declarationRule, hstage, hmodel, hlater]

theorem declares_of_readDeclaration (flag : (readDeclaration env s ws).2.2.failing = false)
    (hpixel : env.isPixel = true) : env.atLeast 2 0 = true := by
  cases hmodel : env.atLeast 2 0 with
  | true => rfl
  | false => simp [readDeclaration, declarationRule_of_old hpixel hmodel, fail] at flag

theorem fetched_readArguments (flag : (readArguments env shape s ws).2.2.2.failing = false) :
    ArgumentsFetched env.toShader shape (readArguments env shape s ws).1
      (readArguments env shape s ws).2.2.2 where
  dest has := by
    obtain ⟨centroidAllowed, u, us, -, hdest, hafter⟩ := dest_readArguments env has s ws
    rw [hdest]
    exact hafter.grows.used _ (used_of_readDest (hafter.records.flag flag))
  length := length_readArguments env s ws shape
  sources a ha := by
    obtain ⟨u, us, -, rfl, hafter⟩ := source_readArguments env shape s ws a ha
    exact (fetched_readSource (hafter.records.flag flag)).mono hafter.grows
  declares hshape hpixel := by
    subst hshape
    exact declares_of_readDeclaration flag hpixel

/-! ### Instructions -/

/-- The register is recorded as used or as a sampler, or the colour of a pixel is copied from it in the end.
Inputs read as an array are a fault in the end. -/
def Recorded (env : Env) (s : Scan) (r : Register) : Prop :=
  s.relativeInput = false → r ∈ s.used.registers ∨ r ∈ s.samplers.registers ∨
    (r = ⟨.temp, 0⟩ ∧ colorFromTemp env.toShader = true)

theorem recorded_of_used (env : Env) (h : r ∈ s.used.registers) : Recorded env s r :=
  fun _ => .inl h

theorem recorded_of_sampler (env : Env) (h : r ∈ s.samplers.registers) : Recorded env s r :=
  fun _ => .inr (.inl h)

theorem Recorded.mono (hst : Grows s t) (h : Recorded env s r) : Recorded env t r := by
  intro hinput
  have hs : s.relativeInput = false := by
    cases hs : s.relativeInput with
    | false => rfl
    | true =>
      rw [hst.relativeInput hs] at hinput
      cases hinput
  exact (h hs).imp (hst.used r) (Or.imp_left (hst.samplers r))

theorem Fetched.within (h : Fetched s a) : a.Within (Recorded env s) where
  plain _ := recorded_of_used env h.used
  index index hindex hfile _ := by
    rcases h.index index hindex hfile with hinput | hused
    · intro hno
      rw [hinput] at hno
      cases hno
    · exact recorded_of_used env hused

theorem files_of_textureFaults (h : textureFaults i = []) :
    i.dest.register.file = .texture ∧ (i.source 0).register.file = .texture := by
  obtain ⟨hfiles, -⟩ := List.append_eq_nil_iff.mp h
  obtain ⟨hdest, hsource⟩ := List.append_eq_nil_iff.mp hfiles
  exact ⟨by simpa using faultIf_eq_nil hdest, by simpa using faultIf_eq_nil hsource⟩

theorem files_of_readsTexture (hop : i.opcode.readsTexture = true) (legal : violations env s i = []) :
    i.dest.register.file = .texture ∧ (i.source 0).register.file = .texture := by
  apply files_of_textureFaults
  rw [violations] at legal
  cases e : i.opcode with
  | texBem | texBemL | texM3x2Pad | texM3x3Pad =>
    rw [e] at legal
    exact (List.append_eq_nil_iff.mp legal).2
  | texM3x2Tex | texM3x3Tex | texM3x3VSpec =>
    rw [e] at legal
    exact (List.append_eq_nil_iff.mp (List.append_eq_nil_iff.mp legal).1).2
  | texM3x3 =>
    rw [e] at legal
    exact (List.append_eq_nil_iff.mp (List.append_eq_nil_iff.mp
      (List.append_eq_nil_iff.mp legal).2).1).2
  | texM3x3Spec =>
    rw [e] at legal
    exact (List.append_eq_nil_iff.mp (List.append_eq_nil_iff.mp
      (List.append_eq_nil_iff.mp legal).1).1).2
  | _ => rw [e] at hop; cases hop

theorem grows_declare (env : Env) (s : Scan) (i : Instruction) : Grows s (s.declare env i) := by
  unfold declare
  dsimp only
  split
  · exact { Grows.refl _ with }
  · split
    · exact (Move.sampler s _ _ _ : Move env s _).grows.trans { Grows.refl _ with }
    · split
      · exact .refl s
      · exact (Move.meaning s _ _ : Move env s _).grows.trans { Grows.refl _ with }

theorem grows_account (env : Env) (s : Scan) (i : Instruction) : Grows s (account env s i) := by
  by_cases hop : i.opcode = .dcl
  · rw [account, hop]
    exact grows_declare env s i
  · have hmoves : Moves env s (account env s i) :=
      Moves.account .refl i fun h => absurd h hop
    exact hmoves.grows

theorem grows_settled (env : Env) (s : Scan) (i : Instruction) : Grows s (settled env s i) :=
  (grows_account env s i).trans { Grows.refl _ with }

theorem grows_ready (env : Env) (s : Scan) (i : Instruction) :
    Grows (settled env s i) (ready env s i) := by
  unfold ready markColor
  split
  · split
    · exact (Fetch.use _ _ _).grows
    · exact .refl _
  · exact .refl _

theorem grows_executed (env : Env) (s : Scan) (i : Instruction) :
    Grows (ready env s i) (executed env s i) := by
  have hmoves : Moves env (ready env s i) (executed env s i) :=
    (Moves.emit .refl (codeOf env s i)).tail (.conclude _ _ _)
  exact hmoves.grows

/-! ### Rows of matrices -/

theorem mem_matrixRows {rows : Nat} (h : a ∈ i.matrixRows rows) :
    a.relative = (i.source 1).relative ∧ a.register.file = (i.source 1).register.file ∧
      (a.register = (i.source 1).register ∨ a ∈ (i.matrixRows rows).drop 1) := by
  have hshift : ∃ n, (i.source 1).shift n = a := by
    obtain ⟨n, -, hn⟩ := List.mem_map.mp h
    exact ⟨n, hn⟩
  obtain ⟨n, rfl⟩ := hshift
  refine ⟨rfl, rfl, ?_⟩
  cases rows with
  | zero => cases h
  | succ rows =>
    rw [Instruction.matrixRows, List.range_succ_eq_map, List.map_cons] at h ⊢
    rcases List.mem_cons.mp h with hfirst | hlater
    · rw [hfirst]
      exact .inl rfl
    · exact .inr hlater

theorem mem_used_markRows {rows : List Source} (h : a ∈ rows) (s : Scan) :
    a.register ∈
      (rows.foldl (fun s row => s.markUsed row.register false) s).used.registers := by
  have hkeep : ∀ (rows : List Source) (s : Scan), a.register ∈ s.used.registers →
      a.register ∈ (rows.foldl (fun s row => s.markUsed row.register false) s).used.registers := by
    intro rows
    induction rows with
    | nil => exact fun s hs => hs
    | cons row rows ih => exact fun s hs => ih _ (mem_registers_update_of_mem hs _ _ _)
  induction rows generalizing s with
  | nil => cases h
  | cons row rows ih =>
    rcases List.mem_cons.mp h with rfl | h
    · exact hkeep rows _ (mem_used_markUsed s _ _)
    · exact ih h _

theorem used_matrixRows {form : MatrixForm} (hform : i.opcode.matrixForm? = some form)
    (h : a ∈ (i.matrixRows form.rows).drop 1) (env : Env) (s : Scan) :
    a.register ∈ (settled env s i).used.registers := by
  have haccount : account env s i = s.useRows i form := by
    rw [account]
    cases e : i.opcode with
    | m4x4 | m4x3 | m3x4 | m3x3 | m3x2 =>
      rw [e] at hform
      cases hform
      rfl
    | _ => rw [e] at hform; cases hform
  show a.register ∈ (account env s i).used.registers
  rw [haccount]
  exact mem_used_markRows h s

/-! ### Rows of texture matrices -/

theorem rows_addPad2 (h : p ∈ (s.addPad2 i).pads.rows) : p ∈ s.pads.rows ∨ p = padOf i := by
  simp only [addPad2, Pads.rows, Option.toList_some, List.mem_append, List.mem_singleton] at h ⊢
  rcases h with (h | h) | h
  · exact .inr h
  · exact .inl (.inl (.inr h))
  · exact .inl (.inr h)

theorem rows_addPad3 (h : p ∈ (s.addPad3 i).pads.rows) : p ∈ s.pads.rows ∨ p = padOf i := by
  unfold addPad3 at h
  split at h
  next =>
    simp only [Pads.rows, Option.toList_some, List.mem_append, List.mem_singleton] at h ⊢
    rcases h with (h | h) | h
    · exact .inl (.inl (.inl h))
    · exact .inr h
    · exact .inl (.inr h)
  next =>
    simp only [Pads.rows, Option.toList_some, List.mem_append, List.mem_singleton] at h ⊢
    rcases h with h | h
    · exact .inl (.inl h)
    · exact .inr h
  next => exact .inl h

theorem rows_account (h : p ∈ (account env s i).pads.rows) :
    p ∈ s.pads.rows ∨ (p = padOf i ∧ i.opcode.readsTexture = true) := by
  have hdoes := Consequence.of_account env s i
  generalize account env s i = t at hdoes h
  cases hdoes with
  | pad2 op => exact (rows_addPad2 h).imp_right fun hp => ⟨hp, by rw [op]; rfl⟩
  | pad3 op => exact (rows_addPad3 h).imp_right fun hp => ⟨hp, by rw [op]; rfl⟩
  | _ => exact .inl h

/-- The sampler of a flat texture is recorded by the instruction that looks it up. -/
theorem sampler_of_looksUpPlane (hop : i.opcode.looksUpPlane = true) (env : Env) (s : Scan) :
    sampler i.dest.register.number ∈ (settled env s i).samplers.registers := by
  have haccount : ∃ bump, account env s i = s.useTextures env i bump := by
    rw [account]
    cases e : i.opcode with
    | texBem | texBemL | texM3x2Tex => exact ⟨_, rfl⟩
    | _ => rw [e] at hop; cases hop
  have hkind : i.opcode.lookupKind? = some .plane := by
    cases e : i.opcode <;> first | rfl | (rw [e] at hop; cases hop)
  obtain ⟨bump, haccount⟩ := haccount
  show _ ∈ (account env s i).samplers.registers
  rw [haccount, useTextures, hkind]
  exact (RegisterTable.mem_registers_update _ _ _ _ _).mpr (.inl rfl)

/-! ### Code of instructions -/

section Code

variable (fetched : ArgumentsFetched env.toShader i.opcode.info.shape i.toArguments s)
include fetched

theorem fetched_source {n : Nat} (hn : n < i.opcode.info.shape.sourceCount env.toShader) :
    Fetched s (i.source n) := by
  apply fetched.sources
  rw [← fetched.length] at hn
  rw [Instruction.source, List.getD_eq_getElem?_getD, List.getElem?_eq_getElem hn]
  exact List.getElem_mem hn

theorem recorded_textures (legal : violations env s i = []) (hop : i.opcode.readsTexture = true) :
    (⟨.texture, i.dest.register.number⟩ : Register) ∈ s.used.registers ∧
      (⟨.texture, (i.source 0).register.number⟩ : Register) ∈ s.used.registers := by
  obtain ⟨hdest, hsource⟩ := files_of_readsTexture hop legal
  have hshape : i.opcode.info.shape.hasDest = true ∧
      0 < i.opcode.info.shape.sourceCount env.toShader := by
    cases e : i.opcode <;> first | exact ⟨rfl, Nat.succ_pos _⟩ | (rw [e] at hop; cases hop)
  have hd : i.dest.register = ⟨.texture, i.dest.register.number⟩ := by rw [← hdest]
  have hs : (i.source 0).register = ⟨.texture, (i.source 0).register.number⟩ := by rw [← hsource]
  rw [← hd, ← hs]
  exact ⟨fetched.dest hshape.1, (fetched_source fetched hshape.2).used⟩

theorem within_pads (legal : violations env s i = []) (hpads : s.pads.Within (Recorded env s)) :
    (settled env s i).pads.Within (Recorded env (settled env s i)) := by
  have hgrows := grows_settled env s i
  intro p hp
  have hrows : p ∈ (account env s i).pads.rows := hp
  rcases rows_account hrows with hold | ⟨rfl, hop⟩
  · obtain ⟨hsource, hdest⟩ := hpads p hold
    exact ⟨hsource.mono hgrows, hdest.mono hgrows⟩
  · obtain ⟨hdest, hsource⟩ := recorded_textures fetched legal hop
    exact ⟨recorded_of_used env (hgrows.used _ hsource), recorded_of_used env (hgrows.used _ hdest)⟩

theorem supplied_ready (legal : violations env s i = []) (hpads : s.pads.Within (Recorded env s)) :
    Supplied (Recorded env (ready env s i)) env.toShader (settled env s i) i := by
  have hsettled := grows_settled env s i
  have hready := grows_ready env s i
  have hgrows := hsettled.trans hready
  have husedBefore : ∀ r ∈ s.used.registers, Recorded env (ready env s i) r :=
    fun r hr => recorded_of_used env (hgrows.used r hr)
  have hsource : ∀ n < i.opcode.info.shape.sourceCount env.toShader,
      (i.source n).Within (Recorded env (ready env s i)) :=
    fun n hn => ((fetched_source fetched hn).mono hgrows).within
  constructor
  case dest => exact fun hd => husedBefore _ (fetched.dest hd)
  case source => exact hsource
  case row =>
    intro form hform a ha
    -- the first row is a source, and the others are marked with the instruction
    obtain ⟨hrelative, hfile, hregister⟩ := mem_matrixRows ha
    have hone : 1 < i.opcode.info.shape.sourceCount env.toShader := by
      cases e : i.opcode <;> first | exact Nat.one_lt_two | (rw [e] at hform; cases hform)
    refine ⟨fun _ => ?_, fun index hindex hindexed => ?_⟩
    · rcases hregister with hfirst | hlater
      · rw [hfirst]
        exact husedBefore _ (fetched_source fetched hone).used
      · exact recorded_of_used env (hready.used _ (used_matrixRows hform hlater env s))
    · rw [hrelative] at hindex
      rw [hfile] at hindexed
      exact (hsource 1 hone).index index hindex hindexed
  case texture => exact fun hop => husedBefore _ (recorded_textures fetched legal hop).2
  case plane =>
    exact fun hop => recorded_of_sampler env (hready.samplers _ (sampler_of_looksUpPlane hop env s))
  case eye =>
    intro hop
    -- the eye is in a constant, or the instruction would not be legal
    have hfile : (i.source 1).register.file = .const := by
      rw [violations, hop] at legal
      simpa using faultIf_eq_nil (List.append_eq_nil_iff.mp legal).2
    have hregister : (i.source 1).register = ⟨.const, (i.source 1).register.number⟩ := by
      rw [← hfile]
    rw [← hregister]
    refine husedBefore _ (fetched_source fetched ?_).used
    rw [hop]
    exact Nat.one_lt_two
  case bounds =>
    intro hop
    refine husedBefore _ (fetched_source fetched ?_).used
    rw [hop]
    exact Nat.one_lt_two
  case color =>
    intro hop hmain hcolor
    -- the end of `main` marks the colour that it copies
    have hmark : ready env s i = (settled env s i).markUsed ⟨.colorOut, 0⟩ true := by
      rw [ready, if_pos hop, markColor, hmain, hcolor]
      rfl
    rw [hmark]
    exact ⟨recorded_of_used env (mem_used_markUsed _ _ _), fun _ => .inr (.inr ⟨rfl, hcolor⟩)⟩
  case stage =>
    intro stage kind hkind
    -- a stage whose kind is known is in the table of samplers
    obtain ⟨use, hfind, -⟩ := Option.bind_eq_some_iff.mp hkind
    exact recorded_of_sampler env (hready.samplers _ (RegisterTable.mem_registers_of_find? hfind))
  case pads =>
    intro p hp
    obtain ⟨hs, hd⟩ := within_pads fetched legal hpads p hp
    exact ⟨hs.mono hready, hd.mono hready⟩

end Code

/-! ### Definitions -/

/-- Something defines the register: a constant, a sampler or a declaration of an input or output, which
pixel shaders have from shader model 2 on. -/
def Backed (env : Env) (s : Scan) (r : Register) : Prop :=
  (∃ c ∈ s.constants, c.register = r) ∨ r ∈ s.samplers.registers ∨
    (r ∈ s.attributes.registers ∧ (env.isPixel = true → env.atLeast 2 0 = true))

theorem Backed.mono (h : Backed env s r) (hst : Grows s t) : Backed env t r := by
  rcases h with ⟨c, hc, hr⟩ | hsampler | ⟨hattribute, hmodel⟩
  · exact .inl ⟨c, hst.constants c hc, hr⟩
  · exact .inr (.inl (hst.samplers r hsampler))
  · exact .inr (.inr ⟨hst.attributes r hattribute, hmodel⟩)

theorem backed_account (legal : violations env s i = [])
    (hmodel : i.opcode.info.shape = .declaration → env.isPixel = true → env.atLeast 2 0 = true)
    (h : r ∈ (account env s i).defined) :
    r ∈ s.defined ∨ r.file = .label ∨ Backed env (account env s i) r := by
  have hdoes := Consequence.of_account env s i
  generalize account env s i = t at hdoes h ⊢
  -- a register that is new among those accounted for is the one that is added
  have hnew : ∀ d, r ∈ s.defined ++ [d] → r ∈ s.defined ∨ r = d := by simp
  cases hdoes with
  | define _ kind empty =>
    refine (hnew _ h).imp_right fun hr => .inr (.inl ⟨_, List.mem_append_cons_self, ?_⟩)
    show Register.mk kind.file i.dest.register.number = r
    rw [hr, ← ((defineFaults_isEmpty_iff i kind).mp empty).2]
  | label =>
    refine (hnew _ h).imp_right fun hr => .inl ?_
    rw [hr]
  | late op slots =>
    rw [violations, op] at legal
    simp [declareFaults, firstFault, slots] at legal
  | sampler op file =>
    refine (hnew _ h).imp_right fun hr => .inr (.inr (.inl ?_))
    refine (RegisterTable.mem_registers_update _ _ _ _ _).mpr (.inl ?_)
    rw [hr, sampler, ← file]
  | meaning op =>
    refine (hnew _ h).imp_right fun hr => .inr (.inr (.inr ⟨?_, hmodel (by rw [op]; rfl)⟩))
    exact (RegisterTable.mem_registers_update _ _ _ _ _).mpr (.inl hr)
  | _ => exact .inl h

/-! ### Units and runs -/

/-- All that the code and the waiting rows name is recorded, and what counts as defined has something that
defines it. -/
structure Bound (env : Env) (s : Scan) : Prop where
  code : ∀ c ∈ s.code, c.Within (Recorded env s)
  pads : s.pads.Within (Recorded env s)
  defined : ∀ r ∈ s.defined, r.file = .label ∨ Backed env s r

theorem Bound.of_grows (h : Bound env s) (hst : Grows s t) (hcode : t.code = s.code)
    (hpads : t.pads = s.pads) (hdefined : t.defined = s.defined) : Bound env t where
  code := by
    rw [hcode]
    exact fun c hc => (h.code c hc).mono fun _ => .mono hst
  pads := by
    rw [hpads]
    exact fun p hp => ⟨(h.pads p hp).1.mono hst, (h.pads p hp).2.mono hst⟩
  defined := by
    rw [hdefined]
    exact fun r hr => (h.defined r hr).imp_right fun hb => hb.mono hst

theorem Bound.fetches (h : Bound env s) (hst : Fetches s t) : Bound env t :=
  h.of_grows hst.grows hst.code_eq hst.pads_eq (by rw [hst.frame])

theorem Bound.executed (h : Bound env s)
    (fetched : ArgumentsFetched env.toShader i.opcode.info.shape i.toArguments s)
    (legal : violations env s i = []) (sound : (codeOf env s i).faults = []) :
    Bound env (executed env s i) := by
  have hready := grows_executed env s i
  have hgrows := ((grows_settled env s i).trans (grows_ready env s i)).trans hready
  refine ⟨fun c hc => ?_, ?_, fun r hr => ?_⟩
  · rw [code_executed sound] at hc
    rcases List.mem_append.mp hc with hold | hnew
    · exact (h.code c hold).mono fun _ => .mono hgrows
    · have hwithin := within_instructionCode (supplied_ready fetched legal h.pads) c hnew
      exact hwithin.mono fun _ => .mono hready
  · have hrows : (Scan.executed env s i).pads =
        if i.opcode.closesMatrix then {} else (account env s i).pads := by rw [executed_eq sound]
    rw [hrows]
    split
    · exact fun p hp => absurd hp List.not_mem_nil
    · have hlater := (grows_ready env s i).trans hready
      intro p hp
      obtain ⟨hsource, hdest⟩ := within_pads fetched legal h.pads p hp
      exact ⟨hsource.mono hlater, hdest.mono hlater⟩
  · have hr' : r ∈ (account env s i).defined := by
      rw [executed_eq sound] at hr
      exact hr
    have hcharge : Grows (account env s i) (settled env s i) := { Grows.refl _ with }
    have haccount := (hcharge.trans (grows_ready env s i)).trans hready
    rcases backed_account legal fetched.declares hr' with hold | hlabel | hbacked
    · exact (h.defined r hold).imp_right fun hb => hb.mono hgrows
    · exact .inl hlabel
    · exact .inr (hbacked.mono haccount)

theorem Bound.close (h : Bound env s) : Bound env (s.close env) := by
  have hgrows : Grows s (s.close env) := (Moves.close .refl).grows
  refine ⟨fun c hc => ?_, fun p hp => ?_, fun r hr => ?_⟩
  · rw [code_close] at hc
    rcases List.mem_append.mp hc with hold | hnew
    · exact (h.code c hold).mono fun _ => .mono hgrows
    · rcases mem_code_closeCode hnew with rfl | ⟨rfl, hmain, hcolor⟩
      · trivial
      · have hmark : s.markColor env = s.markUsed ⟨.colorOut, 0⟩ true := by
          rw [markColor, hmain, hcolor]
          rfl
        have hemit : Grows (s.markUsed ⟨.colorOut, 0⟩ true) (s.close env) := by
          rw [Scan.close, hmark]
          exact (Moves.emit .refl _ : Moves env _ _).grows
        exact ⟨recorded_of_used env (hemit.used _ (mem_used_markUsed _ _ _)),
          fun _ => .inr (.inr ⟨rfl, hcolor⟩)⟩
  · rw [close_eq] at hp
    exact ⟨(h.pads p hp).1.mono hgrows, (h.pads p hp).2.mono hgrows⟩
  · rw [close_eq] at hr
    exact (h.defined r hr).imp_right fun hb => hb.mono hgrows

end Scan

theorem Visit.Executes.fetchedArguments (h : v.Executes i s) :
    Scan.ArgumentsFetched v.env.toShader i.opcode.info.shape i.toArguments s := by
  obtain ⟨hi, hflag, hrest⟩ := h.arguments
  rw [hi]
  exact (Scan.fetched_readArguments hflag).mono hrest.grows

theorem Visit.Executes.grows (h : v.Executes i s) : Scan.Grows s v.after := by
  rw [h.after]
  exact ((Scan.grows_settled v.env s i).trans (Scan.grows_ready v.env s i)).trans
    (Scan.grows_executed v.env s i)

theorem Visit.Does.bound (h : v.Does) (hb : Scan.Bound v.env v.before) :
    Scan.Bound v.env v.after := by
  cases h with
  | idle _ _ _ _ _ _ after | rest _ _ _ after =>
    rw [after]
    exact hb.of_grows { Scan.Grows.refl _ with } rfl rfl rfl
  | finish other mark opened after =>
    have hended : Scan.Bound v.env { v.before with ended := true } :=
      hb.of_grows { Scan.Grows.refl _ with } rfl rfl rfl
    rw [after]
    exact hended.close
  | execute i s this h =>
    rw [h.after]
    exact (hb.fetches h.fetches).executed h.fetchedArguments h.legal h.sound

theorem Scan.Run.bound {env : Env} {t : Scan} {n : Nat} {ws : List Word} {vs : List Visit}
    (r : Scan.Run env s n ws vs t) (does : ∀ v ∈ vs, v.Does) (hs : Scan.Bound env s) :
    Scan.Bound env t := by
  refine r.preserves (fun s p hs => ?_) (fun s hs => ?_) ?_ does hs
  · exact hs.of_grows { Scan.Grows.refl _ with } rfl rfl rfl
  · exact hs.of_grows { Scan.Grows.refl _ with } rfl rfl rfl
  · rintro v rfl - hdoes hb
    exact hdoes.bound hb

theorem bound_of_no_errors {p : Glsl.Profile} {o : Options} {ws : List Word} {l : LinkedShader}
    (clean : (liftWords p o ws).errors = []) (hlink : linkShader o ws = .ok l) :
    Scan.Bound l.env l.scan := by
  obtain ⟨w, us, env, t, rfl, hlinked, hrun, hscan, -, -⟩ := run_of_no_errors clean
  cases hlinked.symm.trans hlink
  have hstart : Scan.Bound env { position := .before } :=
    ⟨fun c hc => absurd hc List.not_mem_nil, fun q hq => absurd hq List.not_mem_nil,
      fun r hr => absurd hr List.not_mem_nil⟩
  show Scan.Bound env (Scan.ofUnits env us)
  rw [hscan]
  exact (hrun.bound (does_of_no_errors p o _ clean) hstart).of_grows
    { Scan.Grows.refl _ with } rfl rfl rfl

end ShaderLift
