/-
How operands are read, said once.  There are four ways of reading arguments, which `Reader` lists: sources
alone, a destination and sources, a definition, and a declaration.

All that readers do to a state is done in steps.  `Walks m s ws k t us` says that such steps lead from `s`
to `t` while the words of `ws` are passed up to `us`.  A register that comes to be used is one that a word
can name, and `m` knows whether it is written, and `k` times the position moves past a word that may not
be there.  Every reader is such a walk, so what the steps keep is kept by all of them.
-/
import ShaderLift.Scan.Stream

namespace ShaderLift

/-! ### Shapes -/

namespace Shape

def hasDest : Shape → Bool
  | .sources _ => false
  | _ => true

def sourceCount (sh : Shader) : Shape → Nat
  | .sources n | .dest n => n
  | .sinCos => if sh.atLeast 3 0 then 1 else 3
  | .texCoord => if sh.atLeast 1 4 then 1 else 0
  | .texLoad => if sh.atLeast 2 0 then 2 else if sh.atLeast 1 4 then 1 else 0
  | .declaration | .defineBool | .defineInt | .defineFloat => 0

def isDefinition : Shape → Bool
  | .defineFloat | .defineInt | .defineBool => true
  | _ => false

end Shape

theorem Register.number_normalize_lt {r : Register} (h : r.number < 2048) :
    r.normalize.number < 8192 := by
  unfold Register.normalize
  split
  · show r.number + 2048 < 8192
    omega
  · show r.number + 4096 < 8192
    omega
  · show r.number + 6144 < 8192
    omega
  · omega

namespace Scan

variable (env : Env) (s : Scan) (ws : List Word)

/-! ### Ways of reading arguments -/

/-- How the arguments of a shape are read. -/
inductive Reader (env : Env) : Shape → (Scan → List Word → Arguments × Nat × List Word × Scan) → Prop
  | sources (n : Nat) : Reader env (.sources n) fun s ws =>
      let r := readSources env s n ws
      ({ sources := r.1 }, 1 + (ws.length - r.2.1.length), r.2)
  | dest {shape : Shape} (n : Nat) (has : shape.hasDest = true)
      (count : shape.sourceCount env.toShader = n) (plain : shape.isDefinition = false)
      (other : shape ≠ .declaration) : Reader env shape fun s ws =>
      let r := readDestSources env s n ws
      (r.1, 1 + (ws.length - r.2.1.length), r.2)
  | define {shape : Shape} (kind : ConstantKind) (has : shape.hasDest = true)
      (count : shape.sourceCount env.toShader = 0) (other : shape ≠ .declaration) :
      Reader env shape fun s ws =>
      let r := readDefinition env kind s ws
      (r.1, if kind = .bool then 3 else 6, r.2)
  | declare : Reader env .declaration fun s ws =>
      let r := readDeclaration env s ws
      (r.1, 3, r.2)

theorem reader_readArguments (shape : Shape) : Reader env shape (readArguments env shape) := by
  cases shape with
  | sources n => exact .sources n
  | dest n => exact .dest n rfl rfl rfl (by simp)
  | sinCos | texCoord | texLoad => exact .dest (ite _ _ _) rfl rfl rfl (by simp)
  | defineFloat => exact .define .float rfl rfl (by simp)
  | defineInt => exact .define .int rfl rfl (by simp)
  | defineBool => exact .define .bool rfl rfl (by simp)
  | declaration => exact .declare

def declaredDest (env : Env) (s : Scan) (ws : List Word) : Dest × List Word × Scan :=
  readDest env true (s.failIf (!Word.flag (ws.headD 0) 31) .declareUnmarked).advance ws.tail

theorem operands_readDeclaration :
    (readDeclaration env s ws).1.dest = (declaredDest env s ws).1 ∧
      (readDeclaration env s ws).1.sources = [] ∧
      (readDeclaration env s ws).2.1 = (declaredDest env s ws).2.1 := by
  unfold readDeclaration declaredDest
  dsimp only
  split <;> exact ⟨rfl, rfl, rfl⟩

theorem length_readSources (n : Nat) : (readSources env s n ws).1.length = n := by
  induction n generalizing s ws with
  | zero => rfl
  | succ n ih => exact congrArg (· + 1) (ih _ _)

/-- There are as many sources as the shape says, whatever words there are. -/
theorem length_readArguments (shape : Shape) :
    (readArguments env shape s ws).1.sources.length = shape.sourceCount env.toShader := by
  have hread := reader_readArguments env shape
  generalize readArguments env shape = read at hread ⊢
  cases hread with
  | sources n => exact length_readSources env s ws n
  | dest n _ count => exact (length_readSources env _ _ n).trans count.symm
  | define kind _ count => exact count.symm
  | declare => exact congrArg List.length (operands_readDeclaration env s ws).2.1

def written? (shape : Shape) (a : Arguments) : Option Register :=
  if shape.hasDest then some a.dest.register else none

/-- The source reads the register, or it is relative to it. -/
def Involves (a : Source) (r : Register) : Prop :=
  a.register = r ∨ ∃ index, a.relative = some index ∧ index.register = r

/-- The registers that arguments of a shape write to, and those that they read. -/
def Marks (shape : Shape) (a : Arguments) (r : Register) (written : Bool) : Prop :=
  if written then written? shape a = some r else ∃ x ∈ a.sources, Involves x r

theorem register_resolveRelative (r : Register) (index : RelativeIndex) (s : Scan) :
    (resolveRelative env r index s).1.register = index.register := by
  unfold resolveRelative
  split
  · rfl
  · split
    · dsimp only
      split <;> rfl
    · rfl
  · rfl

/-! ### Registers that words name -/

theorem number_readDest_lt (centroidAllowed : Bool) (s : Scan) (ws : List Word) :
    (readDest env centroidAllowed s ws).1.register.number < 8192 := by
  cases ws with
  | nil => exact (by decide : 0 < 8192)
  | cons w ws => exact Register.number_normalize_lt (Word.field_lt w 0 11)

theorem number_readIndex_lt : (readIndex env s ws).1.register.number < 2048 := by
  cases ws with
  | nil => exact (by decide : 0 < 2048)
  | cons w ws =>
    unfold readIndex
    dsimp only
    split
    · exact Word.field_lt w 0 11
    · exact (by decide : 0 < 2048)

theorem number_readSource_lt : (readSource env s ws).1.register.number < 8192 := by
  cases ws with
  | nil => exact (by decide : 0 < 8192)
  | cons w ws =>
    simp only [readSource]
    split <;> exact Register.number_normalize_lt (Word.field_lt w 0 11)

/-! ### Words that are left -/

theorem rest_readDest (centroidAllowed : Bool) (s : Scan) (ws : List Word) :
    (readDest env centroidAllowed s ws).2.1 = ws.tail := by
  cases ws <;> rfl

theorem rest_readIndex : (readIndex env s ws).2.1 = if env.atLeast 2 0 then ws.tail else ws := by
  cases ws with
  | nil => simp [readIndex]
  | cons w ws =>
    unfold readIndex
    dsimp only
    split <;> rfl

theorem rest_readSource (w : Word) (ws : List Word) :
    (readSource env s (w :: ws)).2.1 =
      if (SourceWord.ofWord w).relative && env.atLeast 2 0 then ws.tail else ws := by
  simp only [readSource]
  cases ws with
  | nil => simp
  | cons w' ws =>
    cases (SourceWord.ofWord w).relative with
    | false => rfl
    | true => cases hmodel : env.atLeast 2 0 <;> simp [readRelative, readIndex, hmodel]

/-! ### Steps of readers -/

/-- From `s` with the words `ws` readers get to a state and the words that are left then. -/
inductive Walks (m : Register → Bool → Prop) (s : Scan) (ws : List Word) : Nat → Scan → List Word → Prop
  | refl : Walks m s ws 0 s ws
  | fail {k t us} (h : Walks m s ws k t us) (f : Fault) :
      Walks m s ws k (t.fail f) us
  | advance {k t w us} (h : Walks m s ws k t (w :: us)) :
      Walks m s ws k t.advance us
  /-- The position moves on even if there is no word. -/
  | skip {k t us} (h : Walks m s ws k t us) :
      Walks m s ws (k + 1) t.advance us.tail
  | mark {k t us} (h : Walks m s ws k t us) (r : Register) (written : Bool) (low : r.number < 8192)
      (known : m r written) : Walks m s ws k (t.markUsed r written) us
  | group {k t us} (h : Walks m s ws k t us) (first : t.grouped = false) :
      Walks m s ws k { t with
        grouped := true
        arrays := t.arrays ++ ConstantArray.ofConstants t.constants } us
  | useArray {k t us} (h : Walks m s ws k t us) (number place : Nat)
      (found : t.floatArray? number = some place) : Walks m s ws k (t.markArrayUsed place) us
  | relativeInput {k t us} (h : Walks m s ws k t us) :
      Walks m s ws k { t with relativeInput := true } us

namespace Walks

variable {m : Register → Bool → Prop} {k : Nat} {s t : Scan} {w : Word} {ws us : List Word}
variable {vs : List Word} (env : Env)

theorem here (s : Scan) : Walks (fun _ _ => True) s [] 0 s [] := .refl

theorem failIf (h : Walks m s ws k t us) (b : Bool) (f : Fault) : Walks m s ws k (t.failIf b f) us := by
  unfold Scan.failIf
  split
  · exact h.fail f
  · exact h

theorem failAll (h : Walks m s ws k t us) (fs : List Fault) : Walks m s ws k (t.failAll fs) us := by
  induction fs generalizing t with
  | nil => exact h
  | cons f fs ih => exact ih (h.fail f)

/-! ### Destinations -/

theorem checkDest (h : Walks m s ws k t us) (env : Env) (centroidAllowed : Bool) (word : DestWord) :
    Walks m s ws k (Scan.checkDest env centroidAllowed word t) us := by
  unfold Scan.checkDest
  dsimp only
  -- the checks are undone from the last one to the first
  split
  · apply Walks.fail
    repeat apply Walks.failIf
    exact h
  · repeat apply Walks.failIf
    exact h

theorem readDest (h : Walks m s ws k t us) (env : Env) (centroidAllowed : Bool)
    (known : m (Scan.readDest env centroidAllowed t us).1.register true) :
    Walks m s ws k (Scan.readDest env centroidAllowed t us).2.2
      (Scan.readDest env centroidAllowed t us).2.1 := by
  cases us with
  | nil => exact h.fail _
  | cons w us =>
    have hchecked := h.advance.checkDest env centroidAllowed (DestWord.ofWord w)
    have hlow := number_readDest_lt env centroidAllowed t (w :: us)
    simp only [Scan.readDest] at hlow known ⊢
    split
    · exact hchecked
    · exact hchecked.mark _ true hlow known

/-! ### Sources -/

theorem checkRelative (h : Walks m s ws k t us) (r : RelativeWord) :
    Walks m s ws k (Scan.checkRelative r t) us := by
  unfold Scan.checkRelative
  repeat apply Walks.failIf
  exact h

theorem readIndex (h : Walks m s ws k t us) (env : Env) :
    Walks m s ws k (Scan.readIndex env t us).2.2 (Scan.readIndex env t us).2.1 := by
  cases us with
  | nil => exact h
  | cons w us =>
    unfold Scan.readIndex
    dsimp only
    split
    · exact h.advance.checkRelative _
    · exact h

theorem groupConstants (h : Walks m s ws k t us) : Walks m s ws k t.groupConstants us := by
  unfold Scan.groupConstants
  split
  next => exact h
  next first => exact h.group (Bool.eq_false_iff.mpr first)

theorem resolveRelative (h : Walks m s ws k t us) (env : Env) (r : Register) {index : RelativeIndex}
    (low : index.register.number < 8192) (known : m index.register false) :
    Walks m s ws k (Scan.resolveRelative env r index t).2 us := by
  unfold Scan.resolveRelative
  split
  · exact (h.failIf _ _).relativeInput
  · split
    · dsimp only
      split
      next place found => exact (h.groupConstants.useArray _ place found).mark _ false low known
      next => exact h.groupConstants.fail _
    · exact h.fail _
  · exact h

theorem readRelative (h : Walks m s ws k t us) (env : Env) {r : Register}
    (known : m (Scan.readRelative env r t us).1.register false) :
    Walks m s ws k (Scan.readRelative env r t us).2.2 (Scan.readRelative env r t us).2.1 :=
  ((h.failIf _ _).readIndex env).resolveRelative env r
    (Nat.lt_trans (number_readIndex_lt env _ us) (by decide)) (register_resolveRelative env r _ _ ▸ known)

theorem checkModifier (h : Walks m s ws k t us) (env : Env) (r : Register) (x : Option SourceModifier) :
    Walks m s ws k (Scan.checkModifier env r x t) us := by
  unfold Scan.checkModifier
  split
  · exact h.fail _
  · exact h.failIf _ _
  · exact h.failIf _ _

theorem markRead (h : Walks m s ws k t us) {r : Register} (low : r.number < 8192) (known : m r false) :
    Walks m s ws k (t.markRead r) us := by
  unfold Scan.markRead
  split
  · exact h
  · exact (h.mark r false low known).failIf _ _

theorem readSource_eq_markRead (h : Walks m s ws k t (w :: us)) (env : Env)
    (known : ∀ r, Involves (Scan.readSource env t (w :: us)).1 r → m r false) :
    ∃ u, Walks m s ws k u (Scan.readSource env t (w :: us)).2.1 ∧
      (Scan.readSource env t (w :: us)).2.2 =
        u.markRead (Scan.readSource env t (w :: us)).1.register := by
  simp only [Scan.readSource] at known ⊢
  split
  next hrelative =>
    rw [if_pos hrelative] at known
    refine ⟨_, (Walks.readRelative ?_ env (known _ (.inr ⟨_, rfl, rfl⟩))).checkModifier env _ _, rfl⟩
    repeat apply Walks.failIf
    exact h.advance
  next =>
    refine ⟨_, Walks.checkModifier ?_ env _ _, rfl⟩
    repeat apply Walks.failIf
    exact h.advance

theorem readSource (h : Walks m s ws k t us) (env : Env)
    (known : ∀ r, Involves (Scan.readSource env t us).1 r → m r false) :
    Walks m s ws k (Scan.readSource env t us).2.2 (Scan.readSource env t us).2.1 := by
  cases us with
  | nil => exact h.fail _
  | cons w us =>
    obtain ⟨u, hu, heq⟩ := h.readSource_eq_markRead env known
    rw [heq]
    exact hu.markRead (number_readSource_lt env t (w :: us)) (known _ (.inl rfl))

theorem readSources (h : Walks m s ws k t us) (env : Env) (n : Nat)
    (known : ∀ a ∈ (Scan.readSources env t n us).1, ∀ r, Involves a r → m r false) :
    Walks m s ws k (Scan.readSources env t n us).2.2 (Scan.readSources env t n us).2.1 := by
  induction n generalizing t us with
  | zero => exact h
  | succ n ih =>
    obtain ⟨hfirst, hrest⟩ := List.forall_mem_cons.mp known
    exact ih (h.readSource env hfirst) hrest

theorem checkPredicate (h : Walks m s ws k (Scan.readSource env t us).2.2 vs) :
    Walks m s ws k (readPredicate env t us) vs := by
  unfold readPredicate
  dsimp only
  split
  · exact h
  · repeat apply Walks.failIf
    exact h

/-! ### Arguments -/

theorem readDestSources (h : Walks m s ws k t us) (env : Env) (n : Nat)
    (known : m (Scan.readDestSources env t n us).1.dest.register true)
    (reads : ∀ a ∈ (Scan.readDestSources env t n us).1.sources, ∀ r, Involves a r → m r false) :
    Walks m s ws k (Scan.readDestSources env t n us).2.2 (Scan.readDestSources env t n us).2.1 :=
  (h.readDest env false known).readSources env n reads

theorem checkDefinition (kind : ConstantKind)
    (h : Walks m s ws k (Scan.readDest env false t us).2.2 vs) :
    Walks m s ws k (readDefinition env kind t us).2.2 vs :=
  (h.failIf _ _).failIf _ _

theorem checkDeclaration (h : Walks m s ws k (declaredDest env t us).2.2 vs) :
    Walks m s ws k (readDeclaration env t us).2.2 vs := by
  unfold readDeclaration
  dsimp only
  split
  · apply Walks.failIf
    apply Walks.failAll
    repeat apply Walks.failIf
    exact h
  · apply Walks.fail
    repeat apply Walks.failIf
    exact h

/-- Only a declaration can move past a word that is not there, and it does so once. -/
theorem readArguments (shape : Shape) (s : Scan) (ws : List Word)
    (known : ∀ r written, Marks shape (Scan.readArguments env shape s ws).1 r written → m r written) :
    ∃ k ≤ 1, Walks m s ws k (Scan.readArguments env shape s ws).2.2.2
      (Scan.readArguments env shape s ws).2.2.1 := by
  have hreads : ∀ a ∈ (Scan.readArguments env shape s ws).1.sources, ∀ r, Involves a r → m r false :=
    fun a ha r hr => known r false ⟨a, ha, hr⟩
  have hwrites : shape.hasDest = true → m (Scan.readArguments env shape s ws).1.dest.register true :=
    fun has => known _ true (if_pos has)
  have hread := reader_readArguments env shape
  generalize Scan.readArguments env shape = read at hread hreads hwrites ⊢
  cases hread with
  | sources n => exact ⟨0, Nat.zero_le 1, refl.readSources env n hreads⟩
  | dest n has => exact ⟨0, Nat.zero_le 1, refl.readDestSources env n (hwrites has) hreads⟩
  | define kind has =>
    exact ⟨0, Nat.zero_le 1, (refl.readDest env false (hwrites has)).checkDefinition env kind⟩
  | declare =>
    obtain ⟨hdest, -, hrest⟩ := operands_readDeclaration env s ws
    refine ⟨1, Nat.le_refl 1, checkDeclaration env ?_⟩
    dsimp only
    rw [hrest]
    exact (refl.failIf _ _).skip.readDest env true (hdest ▸ hwrites rfl)

/-- A predicate is read after the arguments. -/
def OperandMarks (env : Env) (op : Opcode) (w : InstructionWord) (s : Scan) (ws : List Word)
    (r : Register) (written : Bool) : Prop :=
  Marks op.info.shape (Scan.readArguments env op.info.shape s ws).1 r written ∨
    w.predicated = true ∧ written = false ∧
      Involves (Scan.readSource env (Scan.readArguments env op.info.shape s ws).2.2.2
        (Scan.readArguments env op.info.shape s ws).2.2.1).1 r

theorem readOperands (op : Opcode) (w : InstructionWord) (s : Scan) (ws : List Word) :
    ∃ k ≤ 1, ∃ us, Walks (OperandMarks env op w s ws) s ws k (Scan.readOperands env op w s ws).2.2 us := by
  obtain ⟨k, hk, h⟩ := readArguments (m := OperandMarks env op w s ws) env op.info.shape s ws
    fun _ _ hm => .inl hm
  unfold Scan.readOperands
  dsimp only
  split
  next hp => exact ⟨k, hk, _, checkPredicate env (h.readSource env fun r hr => .inr ⟨hp, rfl, hr⟩)⟩
  next => exact ⟨k, hk, _, h⟩

end Walks

end Scan

end ShaderLift
