/-
Texture lookups and the declarations of their samplers.  The function of a lookup is chosen when its
instruction is read, by what the table of samplers says then (`Scan.textureKind`).  The declaration and
the report of a sampler go by the table after all units are read.  In between a unit may state another
kind of texture for the same sampler (`Visit.stated?`), and an override by the caller goes before whatever
is stated.

So a lookup is made through a function of another kind than its sampler is declared with in two cases
only: another kind is stated for the sampler later on, or the lookup is one of bump mapping, which takes
its texture to be flat whatever the caller says about it.  From shader model 1.4 on neither can be.
-/
import ShaderLift.Proofs.DeclaredOnce

namespace ShaderLift

variable {env : Env} {kind : TextureKind}

/-! ### Lookups in code -/

namespace Glsl

variable (kind : TextureKind)

def dimension : TextureKind → String
  | .plane => "2D"
  | .cube => "Cube"
  | .volume => "3D"

def LookupForm.suffix : LookupForm → String
  | .implicit => ""
  | .projected => "Proj"
  | .gradient => "Grad"
  | .level => "Lod"

theorem lookupFunction_eq (form : LookupForm) :
    lookupFunction kind form = "texture" ++ dimension kind ++ form.suffix := by
  cases kind <;> cases form <;> rfl

theorem samplerType_eq : samplerType kind = "sampler" ++ dimension kind := by
  cases kind <;> rfl

/-- A texture lookup: the kind of texture that its function is for, its form and its sampler. -/
structure Lookup where
  kind : TextureKind
  form : LookupForm
  stage : Nat
  deriving Repr, DecidableEq

def Expr.lookups : Expr → List Lookup
  | .number _ | .name _ => []
  | .lanes e _ | .negate e | .not e | .group e | .element _ e | .call _ e => e.lookups
  | .binary _ a b | .args a b => a.lookups ++ b.lookups
  | .choose test a b => test.lookups ++ a.lookups ++ b.lookups
  | .lookup kind form stage a => ⟨kind, form, stage⟩ :: a.lookups

def Stmt.lookups : Stmt → List Lookup
  | .assign _ e | .vector3 _ e | .callIf e _ _ | .openRep _ e | .openIf e | .leaveIf e => e.lookups
  | _ => []

/-- The text calls the function of a lookup on its sampler. -/
def Lookup.IsIn (sh : Shader) (x : Lookup) (text : String) : Prop :=
  ∃ before after, text = before ++ ("texture" ++ dimension x.kind ++ x.form.suffix ++ "("
    ++ (sampler x.stage).name sh ++ ", ") ++ after

namespace Lookup.IsIn

variable {sh : Shader} {x : Lookup} {a : String}

theorem append (h : x.IsIn sh a) (b : String) : x.IsIn sh (a ++ b) := by
  obtain ⟨before, after, rfl⟩ := h
  exact ⟨before, after ++ b, String.append_assoc⟩

theorem prepend (h : x.IsIn sh a) (b : String) : x.IsIn sh (b ++ a) := by
  obtain ⟨before, after, rfl⟩ := h
  exact ⟨b ++ before, after, by simp only [String.append_assoc]⟩

end Lookup.IsIn

section Text

variable {sh : Shader} {x : Lookup}

theorem Expr.isIn_text {e : Expr} (h : x ∈ e.lookups) : x.IsIn sh (e.text sh) := by
  induction e with
  | number | name => cases h
  | lanes e ls ih => exact ((ih h).append _).append _
  | element _ _ ih | call _ _ ih | group _ ih => exact ((ih h).prepend _).append _
  | negate e ih | not e ih => exact (ih h).prepend _
  | binary op a b iha ihb =>
    rcases List.mem_append.mp h with h | h
    · exact ((((iha h).append _).append _).append _).append _
    · exact (ihb h).prepend _
  | choose test a b ih iha ihb =>
    rcases List.mem_append.mp h with h | h
    · rcases List.mem_append.mp h with h | h
      · exact ((((ih h).append _).append _).append _).append _
      · exact (((iha h).prepend _).append _).append _
    · exact (ihb h).prepend _
  | lookup kind form stage a ih =>
    rcases List.mem_cons.mp h with rfl | h
    · refine ⟨"", a.text sh ++ ")", ?_⟩
      rw [Expr.text, lookupFunction_eq, String.empty_append]
      simp only [String.append_assoc]
    · exact ((ih h).prepend _).append _
  | args a b iha ihb =>
    rcases List.mem_append.mp h with h | h
    · exact ((iha h).append _).append _
    · exact (ihb h).prepend _

theorem Stmt.exists_line {c : Stmt} (h : x ∈ c.lookups) :
    ∃ line, .line line ∈ c.layout sh ∧ x.IsIn sh line := by
  cases c with
  | assign | vector3 | openRep | openIf | leaveIf =>
    exact ⟨_, List.mem_cons_self, ((Expr.isIn_text h).prepend _).append _⟩
  | callIf e label counter =>
    exact ⟨_, List.mem_cons_self,
      ((((((Expr.isIn_text h).prepend _).append _).append _).append _).append _).append _⟩
  | _ => cases h

end Text

def Expr.LooksUp (P : Lookup → Prop) (e : Expr) : Prop := ∀ x ∈ e.lookups, P x

theorem Expr.compositional_looksUp (P : Lookup → Prop) : Expr.Compositional (Expr.LooksUp P) where
  number _ := fun _ hx => absurd hx List.not_mem_nil
  name _ := fun _ hx => absurd hx List.not_mem_nil
  lanes _ _ h := h
  negate h := h
  not h := h
  group h := h
  binary _ _ _ ha hb := List.forall_mem_append.mpr ⟨ha, hb⟩
  choose ht ha hb := List.forall_mem_append.mpr ⟨List.forall_mem_append.mpr ⟨ht, ha⟩, hb⟩
  call _ ha := ha
  args ha hb := List.forall_mem_append.mpr ⟨ha, hb⟩

end Glsl

open Glsl

namespace Scan

variable {env : Env} {sh : Shader} {s : Scan} {i : Instruction}

theorem lookups_variableOf {a : Source} {e : Expr} (h : variableOf sh s a = .ok e) : e.lookups = [] := by
  have hindex : ∀ index, (indexExpr index).lookups = [] := by
    intro index
    unfold indexExpr
    split <;> rfl
  rcases variableOf_cases h with ⟨-, rfl⟩ | ⟨index, -, ⟨-, rfl⟩ | ⟨-, array, delta, rfl⟩⟩
  · rfl
  · exact hindex index
  · unfold arrayElement
    dsimp only
    split <;> split <;> simp [Expr.lookups, Expr.add, hindex]

theorem yields_looksUp (P : Lookup → Prop) (sh : Shader) (s : Scan) (a : Source) :
    Yields (Expr.LooksUp P) sh s a := by
  intro mask e he
  have hnone := lookups_variableOf he
  have hpick : (pick sh s a mask e).lookups = [] := by
    unfold pick Expr.select
    split
    · exact hnone
    · split <;> exact hnone
  intro x hx
  rw [hpick] at hx
  cases hx

/-- The lookups that an instruction may make: by what is known about the sampler, or in a flat texture at
the sampler that goes with its destination. -/
def MayLookUp (s : Scan) (i : Instruction) (x : Lookup) : Prop :=
  if i.opcode.looksUpPlane then x = ⟨.plane, .implicit, i.dest.register.number⟩
  else s.textureKind x.stage = some x.kind

theorem mayLookUp_of_mem {c : Stmt}
    (hc : c ∈ (instructionCode sh s i).code) {x : Lookup} (hx : x ∈ c.lookups) : MayLookUp s i x := by
  have hnone : ∀ e : Expr, e.lookups = [] → e.LooksUp (MayLookUp s i) := by
    intro e he x hx
    rw [he] at hx
    cases hx
  have hprovides : Provides (fun c => ∀ x ∈ c.lookups, MayLookUp s i x)
      (Expr.LooksUp (MayLookUp s i)) sh s i := by
    -- of the operands only lookups have stages
    constructor
    case assigns => exact fun _ _ mask e _ _ he => he
    case vector => exact fun _ n e _ he => he
    case source => exact fun n _ => yields_looksUp _ _ _ _
    case row => exact fun _ _ a _ => yields_looksUp _ _ _ _
    case lookup =>
      intro hop stage kind hkind form a ha
      refine List.forall_mem_cons.mpr ⟨?_, ha⟩
      rw [MayLookUp, hop]
      exact hkind
    case plane =>
      intro hop a ha
      refine List.forall_mem_cons.mpr ⟨?_, ha⟩
      rw [MayLookUp, hop]
      rfl
    case pads => exact fun p _ ls => ⟨hnone _ rfl, hnone _ rfl⟩
    all_goals intros; exact hnone _ rfl
  have hcontrols : Controls (fun c => ∀ x ∈ c.lookups, MayLookUp s i x)
      (Expr.LooksUp (MayLookUp s i)) sh s i := by
    constructor
    case marks =>
      intro c hc _ x hx
      cases c <;> first | cases hx | cases hc
    case tests =>
      intro c test htest hlooks
      cases c <;> cases htest <;> exact hlooks
    all_goals
      intros
      rename_i hx
      cases hx
  exact forall_mem_instructionCode (Expr.compositional_looksUp _) hprovides hcontrols c hc x hx

end Scan

/-! ### What is stated about samplers -/

/-- The kind of texture that an instruction states for the sampler with the number of its destination. -/
def Instruction.stated? (sh : Shader) (i : Instruction) : Option TextureKind :=
  match i.opcode with
  | .dcl => if i.dest.register.file = .sampler then i.declared.kind else none
  | .texLd => if sh.atLeast 1 4 then none else some .plane
  | op => op.lookupKind?

def Visit.stated? (stage : Nat) (v : Visit) : Option TextureKind :=
  v.instruction?.bind fun i =>
    if i.dest.register.number = stage then i.stated? v.env.toShader else none

/-- The kind of texture that is stated last for a sampler. -/
def lastStated? (stage : Nat) (vs : List Visit) : Option TextureKind :=
  vs.reverse.findSome? (Visit.stated? stage)

/-- What is known of a sampler once a kind is stated for it, or none is. -/
def Env.restated (env : Env) (stage : Nat) (known stated : Option TextureKind) : Option TextureKind :=
  stated.elim known fun kind => env.textureKind stage (some kind)

theorem lastStated?_cons (stage : Nat) (v : Visit) (vs : List Visit) :
    lastStated? stage (v :: vs) = (lastStated? stage vs).or (v.stated? stage) := by
  unfold lastStated?
  rw [List.reverse_cons, List.findSome?_append, List.findSome?_singleton]

theorem foldl_restated (env : Env) (stage : Nat) (known : Option TextureKind) (vs : List Visit) :
    vs.foldl (fun known v => env.restated stage known (v.stated? stage)) known =
      env.restated stage known (lastStated? stage vs) := by
  induction vs generalizing known with
  | nil => rfl
  | cons v vs ih =>
    rw [List.foldl_cons, ih, lastStated?_cons]
    cases lastStated? stage vs <;> rfl

namespace Scan

variable {env : Env} {s t : Scan} {i : Instruction}

theorem textureKind_addSampler (env : Env) (s : Scan) (n : Nat) (kind : TextureKind) (bump : Bool)
    (stage : Nat) : (s.addSampler env n (some kind) bump).textureKind stage =
      env.restated stage (s.textureKind stage) (if n = stage then some kind else none) := by
  unfold textureKind addSampler
  by_cases hn : n = stage
  · subst hn
    obtain ⟨use, hfind, -⟩ := s.samplers.exists_find?_update (sampler n) {}
      fun u => ⟨env.textureKind n (some kind), u.bump || bump⟩
    rw [if_pos rfl]
    dsimp only
    rw [hfind]
    rfl
  · have hne : sampler n ≠ sampler stage := by simpa [sampler] using hn
    rw [if_neg hn]
    dsimp only
    rw [RegisterTable.find?_update_of_ne _ hne]
    rfl

theorem textureKind_of_samplers (h : t.samplers = s.samplers) (stage : Nat) :
    t.textureKind stage = s.textureKind stage := by
  unfold textureKind
  rw [h]

theorem samplers_useTextures {kind : TextureKind} (h : i.opcode.lookupKind? = some kind) (env : Env)
    (s : Scan) (bump : Bool) : (s.useTextures env i bump).samplers =
      (s.addSampler env i.dest.register.number (some kind) bump).samplers := by
  unfold useTextures
  rw [h]
  rfl

theorem samplers_account_eq (hdcl : i.opcode ≠ .dcl) (hlookup : i.opcode.lookupKind? = none)
    (hnew : i.opcode = .texLd → env.atLeast 1 4 = true) :
    (account env s i).samplers = s.samplers := by
  have hdoes := Consequence.of_account env s i
  generalize account env s i = t at hdoes ⊢
  cases hdoes with
  | sampler op => exact absurd op hdcl
  | plane op old => exact absurd (hnew op) old
  | lookup op =>
    rw [op] at hlookup
    cases hlookup
  | _ => rfl

/-- What an instruction does to the samplers: nothing, or it states the kind of one of them. -/
theorem samplers_account (legal : violations env s i = [])
    (declared : i.opcode = .dcl → i.dest.register.file = .sampler → i.declared.kind.isSome = true) :
    (i.stated? env.toShader = none ∧ (account env s i).samplers = s.samplers) ∨
      ∃ kind bump, i.stated? env.toShader = some kind ∧ (account env s i).samplers =
        (s.addSampler env i.dest.register.number (some kind) bump).samplers := by
  unfold violations at legal
  unfold Instruction.stated?
  cases e : i.opcode with
  | dcl =>
    -- no slots are taken yet, so the declaration counts
    rw [e] at legal
    have hslots := slots_of_declareFaults legal
    rw [account, e]
    dsimp only
    unfold declare
    dsimp only
    rw [hslots, if_neg (Nat.lt_irrefl 0)]
    split
    next hfile =>
      obtain ⟨kind, hkind⟩ := Option.isSome_iff_exists.mp (declared e hfile)
      rw [hkind]
      exact .inr ⟨kind, false, rfl, rfl⟩
    next =>
      left
      refine ⟨rfl, ?_⟩
      split <;> rfl
  | texBem | texBemL | texM3x2Tex | texM3x3Tex | texM3x3Spec | texM3x3VSpec =>
    rw [account, e]
    exact .inr ⟨_, _, rfl, samplers_useTextures (by rw [e]; rfl) env s _⟩
  | texLd =>
    dsimp only
    by_cases hnew : env.atLeast 1 4 = true
    · rw [if_pos hnew]
      exact .inl ⟨rfl, samplers_account_eq (by simp [e]) (by rw [e]; rfl) fun _ => hnew⟩
    · -- an old lookup declares the stage of its destination
      have hold : ¬ env.atLeast 2 0 = true := fun h => hnew (env.atLeast_of_le h (by decide))
      rw [if_neg hnew, account, e]
      simp only [if_neg hnew, if_neg hold]
      exact .inr ⟨.plane, false, rfl, rfl⟩
  | _ => exact .inl ⟨rfl, samplers_account_eq (by simp [e]) (by rw [e]; rfl) (by simp [e])⟩

theorem textureKind_account (legal : violations env s i = [])
    (declared : i.opcode = .dcl → i.dest.register.file = .sampler → i.declared.kind.isSome = true)
    (stage : Nat) : (account env s i).textureKind stage = env.restated stage (s.textureKind stage)
      (if i.dest.register.number = stage then i.stated? env.toShader else none) := by
  rcases samplers_account legal declared with ⟨hnone, hsame⟩ | ⟨kind, bump, hkind, hnew⟩
  · rw [hnone, ite_self]
    exact textureKind_of_samplers hsame stage
  · rw [hkind, textureKind_of_samplers hnew]
    exact textureKind_addSampler env s _ kind bump stage

theorem samplers_executed (sound : (codeOf env s i).faults = []) :
    (executed env s i).samplers = (account env s i).samplers := by
  rw [executed_eq sound]

theorem samplers_close (env : Env) (s : Scan) : (s.close env).samplers = s.samplers := by
  rw [close_eq env s]

theorem Fetches.samplers_eq (h : Fetches s t) : t.samplers = s.samplers := by
  rw [h.frame]

theorem kind_of_declarationRule {sh : Shader} {w : Word} {d : Dest} {rule : DeclarationRule}
    (h : declarationRule sh w d = some rule) (sound : rule.faults = [])
    (hfile : d.register.file = .sampler) : rule.declared.kind.isSome = true := by
  have hrule : ∃ stage reserved, rule = samplerRule stage reserved w := by
    unfold declarationRule at h
    dsimp only at h
    rw [hfile] at h
    repeat' split at h
    all_goals first | contradiction | exact ⟨_, _, (Option.some.inj h).symm⟩
  obtain ⟨stage, reserved, rfl⟩ := hrule
  unfold samplerRule at sound ⊢
  dsimp only at sound ⊢
  cases hkind : TextureKind.ofCode? (Word.field w 27 4) with
  | none =>
    rw [hkind] at sound
    cases sound
  | some kind => rfl

end Scan

/-! ### Samplers after a unit -/

namespace Visit

variable {v : Visit} {i : Instruction} {s : Scan}

theorem Executes.textureKind_after (h : v.Executes i s) (stage : Nat) :
    v.after.textureKind stage = v.env.restated stage (v.before.textureKind stage)
      (if i.dest.register.number = stage then i.stated? v.env.toShader else none) := by
  have hdeclared : i.opcode = .dcl → i.dest.register.file = .sampler →
      i.declared.kind.isSome = true := by
    intro hop hfile
    obtain ⟨w, rule, hallowed, hdeclared, hsound⟩ := h.declared hop
    rw [hdeclared]
    exact Scan.kind_of_declarationRule hallowed hsound hfile
  rw [h.after, Scan.textureKind_of_samplers (Scan.samplers_executed h.sound),
    Scan.textureKind_account h.legal hdeclared, Scan.textureKind_of_samplers h.fetches.samplers_eq]

theorem Does.textureKind_after (h : v.Does) (stage : Nat) :
    v.after.textureKind stage =
      v.env.restated stage (v.before.textureKind stage) (v.stated? stage) := by
  have hother : v.instruction? = none → v.after.samplers = v.before.samplers →
      v.after.textureKind stage =
        v.env.restated stage (v.before.textureKind stage) (v.stated? stage) := by
    intro hnone hsame
    rw [stated?, hnone]
    exact Scan.textureKind_of_samplers hsame stage
  cases h with
  | idle other _ _ _ _ _ after | rest other _ _ after =>
    exact hother other ((congrArg Scan.samplers after).trans rfl)
  | finish other _ _ after =>
    exact hother other ((congrArg Scan.samplers after).trans (Scan.samplers_close v.env _))
  | execute i s this h =>
    rw [h.textureKind_after, stated?, this]
    rfl

end Visit

/-! ### Lookups of a unit -/

/-- Whether an opcode is one of bump mapping. -/
def Opcode.isBump : Opcode → Bool
  | .texBem | .texBemL => true
  | _ => false

def Visit.bumps (v : Visit) : Bool := v.instruction?.any fun i => i.opcode.isBump

namespace Visit

variable {v : Visit} {i : Instruction} {s : Scan}

theorem Executes.textureKind_of_matrix2 (h : v.Executes i s) (hop : i.opcode = .texM3x2Tex) :
    v.after.textureKind i.dest.register.number = some .plane := by
  have hstated : i.stated? v.env.toShader = some .plane := by rw [Instruction.stated?, hop]; rfl
  have hlegal := h.legal
  rw [Scan.violations, hop] at hlegal
  have hplane := faultIf_eq_nil (List.append_eq_nil_iff.mp hlegal).2
  rw [h.textureKind_after, if_pos rfl, hstated]
  show v.env.textureKind _ (some .plane) = some .plane
  simpa using hplane

/-- The sampler of a lookup is in the table.  The function is the one for what the table says about it after
the instruction, or it is bump mapping that looks up a flat texture. -/
theorem Executes.lookup_of_mem (this : v.instruction? = some i) (h : v.Executes i s) {c : Stmt}
    (hc : c ∈ v.written) {x : Lookup} (hx : x ∈ c.lookups) :
    sampler x.stage ∈ v.after.samplers.registers ∧
      ((v.bumps = false ∧ v.after.textureKind x.stage = some x.kind) ∨
        (v.bumps = true ∧ x.kind = .plane ∧ v.stated? x.stage = some .plane)) := by
  rw [written_eq h.code_after] at hc
  have hafter : v.after.samplers = (Scan.settled v.env s i).samplers := by
    rw [h.after]
    exact Scan.samplers_executed h.sound
  have hbumps : v.bumps = i.opcode.isBump := by
    rw [bumps, this]
    rfl
  have hmay := Scan.mayLookUp_of_mem hc hx
  unfold Scan.MayLookUp at hmay
  rw [hbumps]
  cases hop : i.opcode.looksUpPlane with
  | false =>
    -- the kind comes from the table
    rw [hop, if_neg Bool.false_ne_true, ← Scan.textureKind_of_samplers hafter] at hmay
    obtain ⟨use, hfind, -⟩ := Option.bind_eq_some_iff.mp hmay
    refine ⟨RegisterTable.mem_registers_of_find? hfind, .inl ⟨?_, hmay⟩⟩
    cases e : i.opcode <;> first | rfl | (rw [e] at hop; cases hop)
  | true =>
    rw [hop, if_pos rfl] at hmay
    -- the kind is taken for granted, and stated by the instruction
    subst hmay
    refine ⟨hafter ▸ Scan.sampler_of_looksUpPlane hop v.env s, ?_⟩
    by_cases hmatrix : i.opcode = .texM3x2Tex
    · exact .inl ⟨by rw [hmatrix]; rfl, h.textureKind_of_matrix2 hmatrix⟩
    · right
      have hbump : i.opcode = .texBem ∨ i.opcode = .texBemL := by
        cases e : i.opcode <;> simp_all [Opcode.looksUpPlane]
      have hstated : v.stated? i.dest.register.number = i.stated? v.env.toShader := by
        rw [stated?, this]
        exact if_pos rfl
      rw [hstated, Instruction.stated?]
      rcases hbump with hbump | hbump <;> rw [hbump] <;> exact ⟨rfl, rfl, rfl⟩

theorem Does.executes_of_lookup (h : v.Does) {c : Stmt} (hc : c ∈ v.written) {x : Lookup}
    (hx : x ∈ c.lookups) :
    ∃ i s, v.instruction? = some i ∧ v.Executes i s := by
  have hother : v.after.code = v.before.code → ∃ i s, v.instruction? = some i ∧ v.Executes i s := by
    intro hsame
    rw [written_eq (hsame.trans (List.append_nil _).symm)] at hc
    cases hc
  cases h with
  | idle _ _ _ _ _ _ after | rest _ _ _ after => exact hother ((congrArg Scan.code after).trans rfl)
  | finish _ _ _ after =>
    rw [written_eq (code_after_finish after)] at hc
    rcases Scan.mem_code_closeCode hc with rfl | ⟨rfl, -⟩ <;> cases hx
  | execute i s this h => exact ⟨i, s, this, h⟩

end Visit

/-! ### Declarations of samplers -/

theorem Interface.map_placeSamplers (slots : Slots) (entries : List (Register × SamplerUse)) :
    ((placeSamplers slots entries).1.map fun p => (p.stage, p.kind)) =
      entries.map fun e => (e.1.number, e.2.kind) := by
  induction entries generalizing slots with
  | nil => rfl
  | cons e entries ih =>
    obtain ⟨r, u⟩ := e
    exact congrArg ((r.number, u.kind) :: ·) (ih _)

/-- A program declares and reports a sampler with one kind of textures. -/
structure DeclaresSampler (l : LinkedShader) (result : Lifted) (stage : Nat) (kind : TextureKind) :
    Prop where
  declared : ∀ k, .sampler stage k ∈ declarations l ↔ k = kind
  line : HasLine result.output
    ("uniform sampler" ++ dimension kind ++ " " ++ (sampler stage).name l.env.toShader ++ ";")
  reported : ∃ b ∈ result.samplers, b.index = stage ∧ b.name = (sampler stage).name l.env.toShader
  known : ∀ b ∈ result.samplers, b.index = stage → b.kind = some kind

section Samplers

variable {env : Env} {us : List Word} {stage : Nat}

theorem Interface.mem_samplers_iff (k : Option TextureKind) :
    (∃ x ∈ (LinkedShader.ofUnits env us).interface.samplers, x.stage = stage ∧ x.kind = k) ↔
      ∃ use, (Scan.ofUnits env us).samplers.find? (sampler stage) = some use ∧ use.kind = k := by
  have hsorted := (Scan.tablesSorted_ofUnits env us).samplers
  have hplaced : ((LinkedShader.ofUnits env us).interface.samplers.map fun p => (p.stage, p.kind)) =
      (Scan.ofUnits env us).samplers.entries.map fun e => (e.1.number, e.2.kind) :=
    map_placeSamplers _ _
  have hmem : (∃ x ∈ (LinkedShader.ofUnits env us).interface.samplers, x.stage = stage ∧ x.kind = k) ↔
      (stage, k) ∈ (LinkedShader.ofUnits env us).interface.samplers.map fun p => (p.stage, p.kind) := by
    simp [List.mem_map]
  rw [hmem, hplaced, List.mem_map]
  constructor
  · rintro ⟨⟨r, use⟩, he, heq⟩
    obtain ⟨rfl, rfl⟩ := Prod.mk.inj heq
    have hfile : r.file = .sampler := Scan.file_of_sampler (List.mem_map_of_mem he)
    refine ⟨use, ?_, rfl⟩
    show (Scan.ofUnits env us).samplers.find? (sampler r.number) = some use
    rw [sampler, ← hfile]
    exact hsorted.mem_entries_iff.mp he
  · rintro ⟨use, hfind, rfl⟩
    exact ⟨(sampler stage, use), hsorted.mem_entries_iff.mpr hfind, rfl⟩

theorem sampler_mem_declarations_iff (l : LinkedShader) (k : TextureKind) :
    .sampler stage k ∈ declarations l ↔
      ∃ x ∈ l.interface.samplers, x.stage = stage ∧ x.kind = some k := by
  constructor
  · intro h
    obtain ⟨x, hx, hd⟩ := List.mem_flatMap.mp (mem_declarationsOf h)
    rcases mem_samplerDecls_iff.mp hd with ⟨kind, hkind, heq⟩ | ⟨slot, -, heq⟩
    · cases heq
      exact ⟨x, hx, rfl, hkind⟩
    · cases heq
  · rintro ⟨x, hx, rfl, hkind⟩
    have hd : .sampler x.stage k ∈ samplerDecls x := mem_samplerDecls_iff.mpr (.inl ⟨k, hkind, rfl⟩)
    exact mem_declarations .sampler (List.mem_flatMap.mpr ⟨x, hx, hd⟩)

/-- A sampler is declared and reported with what the table says about it in the end. -/
theorem declaresSampler_of_textureKind {kind : TextureKind} (p : Profile) (o : Options)
    (h : (Scan.ofUnits env us).textureKind stage = some kind) :
    DeclaresSampler (.ofUnits env us) ((LinkedShader.ofUnits env us).lifted p o) stage kind := by
  obtain ⟨use, hfind, hkind⟩ := Option.bind_eq_some_iff.mp h
  have hunique : ∀ k, (∃ x ∈ (LinkedShader.ofUnits env us).interface.samplers,
      x.stage = stage ∧ x.kind = k) ↔ k = some kind := by
    intro k
    rw [Interface.mem_samplers_iff, hfind, ← hkind]
    constructor
    · rintro ⟨use', huse, rfl⟩
      rw [Option.some.inj huse]
    · rintro rfl
      exact ⟨use, rfl, rfl⟩
  obtain ⟨x, hx, hstage, -⟩ := (hunique (some kind)).mpr rfl
  have hdeclared : ∀ k, .sampler stage k ∈ declarations (.ofUnits env us) ↔ k = kind := fun k =>
    (sampler_mem_declarations_iff _ k).trans ((hunique (some k)).trans Option.some_inj)
  refine ⟨hdeclared, ?_, ⟨_, List.mem_map_of_mem hx, hstage, by rw [← hstage]⟩, ?_⟩
  · have hline : "uniform sampler" ++ dimension kind ++ " " ++ (sampler stage).name env.toShader ++ ";" ∈
        (Decl.sampler stage kind).lines p env.toShader := by
      refine List.mem_singleton.mpr ?_
      have huniform : "uniform sampler" = "uniform " ++ "sampler" := rfl
      rw [samplerType_eq, huniform]
      simp only [String.append_assoc]
    exact hasLine_program_of_declaration p o
      (List.mem_flatMap.mpr ⟨_, (hdeclared kind).mpr rfl, hline⟩)
  · rintro b hb rfl
    obtain ⟨y, hy, rfl⟩ := List.mem_map.mp hb
    exact (hunique y.kind).mp ⟨y, hy, rfl, rfl⟩

end Samplers

/-! ### Lookups and declarations -/

/-- What is known about a lookup `x` of the unit `v`, with the units `later` after it. -/
structure LookedUp (p : Profile) (o : Options) (ws : List Word) (l : LinkedShader) (v : Visit)
    (later : List Visit) (x : Lookup) : Prop where
  /-- A line of the program calls its function. -/
  shown : ∃ line, HasLine (liftWords p o ws).output line ∧ x.IsIn l.env.toShader line
  /-- Its sampler is declared with the kind that is stated last, unless the caller says otherwise. -/
  sampled : ∃ kind stated, DeclaresSampler l (liftWords p o ws) x.stage kind ∧
    lastStated? x.stage (unitsOf o ws) = some stated ∧
    l.env.textureKind x.stage (some stated) = some kind ∧
    -- The function is one for that kind if bump mapping is left its flat texture and nothing that is
    -- stated later makes it another kind.
    (x.kind = kind ↔
      (v.bumps = true → l.env.textureKind x.stage (some .plane) = some .plane) ∧
        ∀ k, lastStated? x.stage later = some k → l.env.textureKind x.stage (some k) = some x.kind) ∧
    (l.env.atLeast 1 4 = true → x.kind = kind)

theorem Env.textureKind_idem {stage : Nat} {k : Option TextureKind}
    (h : env.textureKind stage k = some kind) : env.textureKind stage (some kind) = some kind := by
  unfold textureKind at h ⊢
  split at h
  next o hfind => exact h
  next hfind => rfl

theorem Scan.slots_pos_of_lookup {sh : Shader} {s : Scan} {i : Instruction} {c : Stmt}
    (hc : c ∈ (instructionCode sh s i).code) {x : Lookup} (hx : x ∈ c.lookups) :
    0 < i.opcode.info.slots := by
  refine Nat.pos_of_ne_zero fun hzero => ?_
  have hmark := isMark_of_slots hzero hc
  cases c <;> first | cases hx | cases hmark

namespace Visit

variable {v : Visit} {i : Instruction} {s : Scan}

theorem Executes.readsTexture_of_new (h : v.Executes i s) (hmodel : v.env.atLeast 1 4 = true) :
    i.opcode.readsTexture = false := by
  have hlegal := h.legal
  unfold Scan.violations at hlegal
  cases e : i.opcode with
  | texBem | texBemL | texM3x2Pad | texM3x3Pad | texM3x2Tex | texM3x3 | texM3x3Tex | texM3x3Spec
    | texM3x3VSpec =>
    rw [e] at hlegal
    simp [Scan.bumpFaults, Scan.padFaults, Scan.matrix2Faults, Scan.matrix3Faults, faultIf, hmodel]
      at hlegal
  | _ => rfl

theorem Executes.bumps_of_new (this : v.instruction? = some i) (h : v.Executes i s)
    (hmodel : v.env.atLeast 1 4 = true) : v.bumps = false := by
  have hreads := h.readsTexture_of_new hmodel
  rw [bumps, this]
  show i.opcode.isBump = false
  cases e : i.opcode <;> first | rfl | (rw [e] at hreads; cases hreads)

theorem Executes.stated?_of_new (h : v.Executes i s) (hmodel : v.env.atLeast 1 4 = true)
    (hop : i.opcode ≠ .dcl) : i.stated? v.env.toShader = none := by
  have hreads := h.readsTexture_of_new hmodel
  unfold Instruction.stated?
  cases e : i.opcode with
  | dcl => exact absurd e hop
  | texLd =>
    dsimp only
    rw [if_pos hmodel]
  | texBem | texBemL | texM3x2Tex | texM3x3Tex | texM3x3Spec | texM3x3VSpec =>
    rw [e] at hreads
    cases hreads
  | _ => rfl

theorem Does.stated?_of_late (h : v.Does) (hmodel : v.env.atLeast 1 4 = true)
    (hslots : 0 < v.before.slots) (stage : Nat) : v.stated? stage = none := by
  cases h with
  | idle other | rest other | finish other => rw [stated?, other]; rfl
  | execute i s this h =>
    have hop : i.opcode ≠ .dcl := by
      intro hop
      have hlegal := h.legal
      rw [Scan.violations, hop] at hlegal
      have hnone := Scan.slots_of_declareFaults hlegal
      rw [h.fetches.attributes_eq.2] at hnone
      omega
    rw [stated?, this]
    show (if _ then i.stated? v.env.toShader else none) = none
    rw [h.stated?_of_new hmodel hop, ite_self]

end Visit

theorem lastStated?_of_new {s t : Scan} {n : Nat} {ws : List Word} {earlier later : List Visit}
    {v : Visit} (r : Scan.Run env s n ws (earlier ++ v :: later) t) (does : ∀ u ∈ later, u.Does)
    (henv : ∀ u ∈ later, u.env = env) (hmodel : env.atLeast 1 4 = true) (hslots : 0 < v.after.slots)
    (stage : Nat) : lastStated? stage later = none := by
  have hlate := (Scan.invariant_slots env).later r rfl hslots
  unfold lastStated?
  rw [List.findSome?_eq_none_iff]
  intro u hu
  have hu := List.mem_reverse.mp hu
  exact (does u hu).stated?_of_late (henv u hu ▸ hmodel) (hlate u hu).1 stage

theorem exists_textureKind_of_sampler {us : List Word} {stage : Nat}
    (hfaults : Interface.faults env.toShader (Scan.ofUnits env us) = [])
    (h : sampler stage ∈ (Scan.ofUnits env us).samplers.registers) :
    ∃ kind, (Scan.ofUnits env us).textureKind stage = some kind := by
  obtain ⟨e, he, hstage⟩ := List.mem_map.mp h
  obtain ⟨kind, hkind⟩ :=
    Option.isSome_iff_exists.mp ((Interface.fits_of_faults hfaults).samplers e he)
  have hfind := (Scan.tablesSorted_ofUnits env us).samplers.mem_entries_iff.mp he
  refine ⟨kind, ?_⟩
  rw [Scan.textureKind, ← hstage, hfind]
  exact hkind

theorem kind_eq_iff {stage : Nat} {kind' : TextureKind} {bumps : Bool}
    {after later : Option TextureKind} (hafter : (bumps = false ∧ after = some kind) ∨
      (bumps = true ∧ kind = .plane ∧ after = env.textureKind stage (some .plane)))
    (hend : some kind' = env.restated stage after later) :
    kind = kind' ↔ (bumps = true → env.textureKind stage (some .plane) = some .plane) ∧
      ∀ k, later = some k → env.textureKind stage (some k) = some kind := by
  cases later with
  | none =>
    have hend : some kind' = after := hend
    rcases hafter with ⟨rfl, rfl⟩ | ⟨rfl, rfl, rfl⟩
    · simp [Option.some.inj hend]
    · rw [← hend]
      simp [eq_comm]
  | some k =>
    have hend : some kind' = env.textureKind stage (some k) := hend
    constructor
    · rintro rfl
      refine ⟨fun hbumps => ?_, fun k' hk => Option.some.inj hk ▸ hend.symm⟩
      rcases hafter with ⟨rfl, -⟩ | ⟨-, rfl, -⟩
      · cases hbumps
      · exact env.textureKind_idem hend.symm
    · rintro ⟨-, hlater⟩
      exact (Option.some.inj (hend.trans (hlater k rfl))).symm

/-- **Lookups and their samplers.**  In a shader without a fault each sampler that is looked up is declared
and reported with one kind of textures.  The function of a lookup is for that kind unless bump mapping looks
up a texture that the caller has made another one, or another kind is stated for the sampler later on; from
shader model 1.4 on it always is. -/
theorem lift_lookups_declared (p : Profile) (o : Options) (ws : List Word)
    (clean : (liftWords p o ws).errors = []) :
    ∃ l, linkShader o ws = .ok l ∧ l.scan.code = (unitsOf o ws).flatMap Visit.written ∧
      ∀ earlier v later, unitsOf o ws = earlier ++ v :: later →
        ∀ c ∈ v.written, ∀ x ∈ c.lookups, LookedUp p o ws l v later x := by
  have hdoes := does_of_no_errors p o ws clean
  obtain ⟨w, us, env, t, -, hlink, hrun, hscan, hfaults, -⟩ := run_of_no_errors clean
  refine ⟨.ofUnits env us, hlink, code_eq_written clean hlink, fun earlier v later hunits c hc x hx => ?_⟩
  have hv : v ∈ unitsOf o ws := hunits ▸ List.mem_append_cons_self
  have hlaterMem : ∀ u ∈ later, u ∈ unitsOf o ws := fun u hu =>
    hunits ▸ List.mem_append_right _ (List.mem_cons_of_mem _ hu)
  have henv := hrun.env_eq
  obtain ⟨i, s, this, hexecutes⟩ := (hdoes v hv).executes_of_lookup hc hx
  obtain ⟨hmem, hafter⟩ := hexecutes.lookup_of_mem this hc hx
  -- what is known of the sampler at the end, from the start on and from the unit on
  have hstep : ∀ u : Visit, u.env = env → u.Does → u.after.textureKind x.stage =
      env.restated x.stage (u.before.textureKind x.stage) (u.stated? x.stage) := by
    rintro u rfl hu
    exact hu.textureKind_after x.stage
  have hend : (Scan.ofUnits env us).textureKind x.stage = t.textureKind x.stage := by
    rw [hscan]
    rfl
  have hall := hrun.observed (f := fun s => s.textureKind x.stage)
    (g := fun known u => env.restated x.stage known (u.stated? x.stage)) (fun _ _ => rfl) (fun _ => rfl)
    hstep hdoes
  have hrest := (hrun.observed_at (f := fun s => s.textureKind x.stage)
    (g := fun known u => env.restated x.stage known (u.stated? x.stage)) (fun _ _ => rfl) (fun _ => rfl)
    hstep hdoes hunits).2
  rw [foldl_restated, ← hend] at hall hrest
  obtain ⟨kind, hkind⟩ : ∃ kind, (Scan.ofUnits env us).textureKind x.stage = some kind := by
    have hlast := (Scan.invariant_sampler env _).last hrun hv hmem
    apply exists_textureKind_of_sampler hfaults
    rw [hscan]
    exact hlast
  obtain ⟨stated, hstated, htexture⟩ : ∃ stated, lastStated? x.stage (unitsOf o ws) = some stated ∧
      env.textureKind x.stage (some stated) = some kind := by
    rw [hkind] at hall
    cases hlast : lastStated? x.stage (unitsOf o ws) with
    | none =>
      rw [hlast] at hall
      cases hall
    | some stated =>
      rw [hlast] at hall
      exact ⟨stated, rfl, hall.symm⟩
  have hiff := kind_eq_iff (hafter.imp_right fun ⟨hbumps, hplane, hstated⟩ => ⟨hbumps, hplane, by
    rw [(hdoes v hv).textureKind_after, henv v hv, hstated]
    rfl⟩) (hkind ▸ hrest)
  refine ⟨?_, kind, stated, ?_, hstated, htexture, hiff, fun hmodel => hiff.mpr ⟨?_, ?_⟩⟩
  · obtain ⟨line, hline, hin⟩ : ∃ line, .line line ∈ c.layout env.toShader ∧
        x.IsIn env.toShader line := Stmt.exists_line hx
    exact ⟨line, hasLine_of_written clean hlink hv hc hline, hin⟩
  · rw [liftWords_eq, hlink]
    exact declaresSampler_of_textureKind p o hkind
  · intro hbumps
    rw [hexecutes.bumps_of_new this (henv v hv ▸ hmodel)] at hbumps
    cases hbumps
  · -- only declarations state something there, and they come first
    intro k hk
    have hslots : 0 < v.after.slots :=
      hexecutes.slots_after (Scan.slots_pos_of_lookup (Visit.written_eq hexecutes.code_after ▸ hc) hx)
    have hnone := lastStated?_of_new (hunits ▸ hrun) (fun u hu => hdoes u (hlaterMem u hu))
      (fun u hu => henv u (hlaterMem u hu)) hmodel hslots x.stage
    rw [hnone] at hk
    cases hk

/-- Code that looks a flat texture up, and a cube by the product of a matrix with it. -/
def cubeByMatrix : List Word :=
  [0xFFFF0101,
    0x42, 0xB00F0000,
    0x49, 0xB00F0001, 0xB0E40000,
    0x49, 0xB00F0002, 0xB0E40000,
    0x4A, 0xB00F0003, 0xB0E40000,
    0x1, 0x800F0000, 0xB0E40003,
    0xFFFF]

theorem lookups_declared_cubeByMatrix :
    (liftWords .glsl110 {} cubeByMatrix).errors = [] ∧
      ∃ l, linkShader {} cubeByMatrix = .ok l ∧
        l.scan.code = (unitsOf {} cubeByMatrix).flatMap Visit.written ∧
        ∀ earlier v later, unitsOf {} cubeByMatrix = earlier ++ v :: later →
          ∀ c ∈ v.written, ∀ x ∈ c.lookups, LookedUp .glsl110 {} cubeByMatrix l v later x := by
  have clean : (liftWords .glsl110 {} cubeByMatrix).errors = [] := by decide +kernel
  exact ⟨clean, lift_lookups_declared .glsl110 {} cubeByMatrix clean⟩

/-- Bump mapping of the texture of stage 1. -/
def bumpedTexture : List Word :=
  [0xFFFF0101,
    0x42, 0xB00F0000,
    0x43, 0xB00F0001, 0xB0E40000,
    0x1, 0x800F0000, 0xB0E40001,
    0xFFFF]

/-- The texture of stage 1 is a cube, says the caller. -/
def cubeAtOne : Options := { samplers := [⟨1, some .cube⟩] }

/-- Bump mapping looks a cube up as a flat texture. -/
theorem bumpedTexture_looks_up_plane :
    (liftWords .glsl110 cubeAtOne bumpedTexture).errors = [] ∧
      ∃ l, linkShader cubeAtOne bumpedTexture = .ok l ∧
        (∃ c ∈ l.scan.code, ⟨.plane, .implicit, 1⟩ ∈ c.lookups) ∧
        DeclaresSampler l (liftWords .glsl110 cubeAtOne bumpedTexture) 1 .cube := by
  have clean : (liftWords .glsl110 cubeAtOne bumpedTexture).errors = [] := by decide +kernel
  have hlookup : ((linkShader cubeAtOne bumpedTexture).toOption.any fun l =>
      decide ((∃ c ∈ l.scan.code, ⟨.plane, .implicit, 1⟩ ∈ c.lookups) ∧
        l.scan.textureKind 1 = some .cube)) = true := by decide +kernel
  obtain ⟨env, us, hlink, -, -⟩ := linked_of_no_errors clean
  rw [hlink] at hlookup
  obtain ⟨hplane, hcube⟩ := of_decide_eq_true hlookup
  refine ⟨clean, _, hlink, hplane, ?_⟩
  rw [liftWords_eq, hlink]
  exact declaresSampler_of_textureKind .glsl110 cubeAtOne hcube

end ShaderLift
