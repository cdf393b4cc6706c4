/-
The slots that a shader takes.  Every opcode takes a number of slots, some of them more in some places:
products and comparisons before shader model 1.4, and lookups in cubes.  What is looked up is asked while
units are still read, but from shader model 1.4 on only declarations say it, and none of them may follow
an instruction that took a slot.  So the answer is the one that the result gives
(`textureKind_of_lookup`).
-/
import ShaderLift.Proofs.Lookups

namespace ShaderLift

/-- Whether an opcode defines a constant or declares a register. -/
def Opcode.standsFirst : Opcode → Bool
  | .defF | .defI | .defB | .dcl => true
  | _ => false

namespace Instruction

/-- Whether the instruction is one that takes a slot more before shader model 1.4. -/
def isLong (i : Instruction) : Bool := i.opcode = .dp4 || i.opcode = .cmp

/-- Whether the instruction looks a cube up by a sampler that it names, if `kind?` says what textures are
behind samplers. -/
def readsCube (version : Version) (kind? : Nat → Option TextureKind) (i : Instruction) : Bool :=
  (i.opcode = .texLdl || (i.opcode = .texLd && version.atLeast 2 0)) &&
    kind? (i.source 1).register.number = some .cube

def cost (version : Version) (kind? : Nat → Option TextureKind) (i : Instruction) : Nat :=
  i.opcode.info.slots + (if !version.atLeast 1 4 && i.isLong then 1 else 0) +
    (if i.readsCube version kind? then 3 else 0)

end Instruction

theorem sum_cost (version : Version) (kind? : Nat → Option TextureKind) (is : List Instruction) :
    (is.map (Instruction.cost version kind?)).sum =
      (is.map fun i => i.opcode.info.slots).sum +
        (if version.atLeast 1 4 then 0 else is.countP Instruction.isLong) +
        3 * is.countP (Instruction.readsCube version kind?) := by
  induction is with
  | nil => simp
  | cons i is ih =>
    rw [List.map_cons, List.sum_cons, ih, List.map_cons, List.sum_cons, List.countP_cons,
      List.countP_cons, Instruction.cost]
    cases version.atLeast 1 4 <;> cases i.isLong <;> cases i.readsCube version kind? <;> simp <;> omega

/-! ### What an instruction takes -/

namespace Scan

variable {env : Env} {s t : Scan} {i : Instruction}

theorem slots_account_of_not_varies (env : Env) (s : Scan) (h : i.opcode.varies = false) :
    (account env s i).slots = s.slots := by
  have hdoes := Consequence.of_account env s i
  generalize account env s i = t at hdoes ⊢
  cases hdoes with
  | charge op | compare op =>
    rw [op] at h
    cases h
  | _ => rfl

theorem slots_chargeLookup (s : Scan) (stage : Nat) :
    (s.chargeLookup stage).slots = s.slots + if s.textureKind stage = some .cube then 3 else 0 := by
  unfold chargeLookup
  split <;> rfl

theorem texLdl_of_legal (hop : i.opcode = .texLdl) (legal : violations env s i = []) :
    env.atLeast 3 0 = true ∧ (i.source 1).register.file = .sampler := by
  unfold violations at legal
  rw [hop] at legal
  dsimp only at legal
  cases hmodel : env.atLeast 3 0 with
  | false => simp [firstFault, hmodel] at legal
  | true =>
    refine ⟨rfl, ?_⟩
    by_contra hfile
    simp [firstFault, hmodel, hfile] at legal

theorem slots_account (legal : violations env s i = []) :
    (account env s i).slots + i.opcode.info.slots =
      s.slots + i.cost env.version s.textureKind := by
  have hatLeast : ∀ major minor, env.version.atLeast major minor = env.atLeast major minor :=
    fun _ _ => rfl
  unfold Instruction.cost Instruction.isLong Instruction.readsCube
  cases hvaries : i.opcode.varies with
  | false =>
    -- the cost is that of the opcode alone
    rw [slots_account_of_not_varies env s hvaries]
    have hother : ∀ op : Opcode, op.varies = true → i.opcode ≠ op := by
      rintro op hop rfl
      rw [hop] at hvaries
      cases hvaries
    simp [hother .dp4 rfl, hother .cmp rfl, hother .texLd rfl, hother .texLdl rfl]
  | true =>
    unfold account
    cases e : i.opcode with
    | dp4 | cmp =>
      -- one more slot before 1.4
      rw [hatLeast]
      cases env.atLeast 1 4 with
      | true => simp
      | false =>
        simp [charge]
        omega
    | texLd =>
      rw [hatLeast, hatLeast]
      dsimp only
      cases env.atLeast 2 0 with
      | true =>
        -- three more in a cube, but only from 2.0 on
        rw [if_pos rfl, slots_chargeLookup]
        by_cases hcube : s.textureKind (i.source 1).register.number = some .cube
        · simp [hcube]
          omega
        · simp [hcube]
      | false => cases env.atLeast 1 4 <;> simp [addSampler]
    | texLdl =>
      -- legal only from 3.0 on and with a sampler
      obtain ⟨hmodel, hfile⟩ := texLdl_of_legal e legal
      dsimp only
      rw [if_pos (by simp [hmodel, hfile]), slots_chargeLookup]
      by_cases hcube : s.textureKind (i.source 1).register.number = some .cube
      · simp [hcube]
        omega
      · simp [hcube]
    | _ =>
      rw [e] at hvaries
      cases hvaries

end Scan

/-! ### What a unit takes -/

namespace Visit

variable {v : Visit} {i : Instruction} {s : Scan}

def cost (v : Visit) : Nat :=
  v.instruction?.elim 0 (Instruction.cost v.env.version v.before.textureKind)

/-- **A unit takes the slots that it costs.** -/
theorem Does.slots_after (h : v.Does) : v.after.slots = v.before.slots + v.cost := by
  unfold cost
  cases h with
  | idle other _ _ _ _ _ after | rest other _ _ after =>
    rw [after, other]
    rfl
  | finish other mark opened after =>
    rw [after, other]
    exact congrArg Inventory.slots (Scan.inventory_close v.env { v.before with ended := true })
  | execute i s this h =>
    have hslots : v.after.slots = (Scan.account v.env s i).slots + i.opcode.info.slots := by
      rw [h.after]
      exact congrArg Inventory.slots (Scan.inventory_executed h.sound)
    have hkind : s.textureKind = v.before.textureKind := by
      funext stage
      exact Scan.textureKind_of_samplers h.fetches.samplers_eq stage
    rw [hslots, Scan.slots_account h.legal, h.fetches.attributes_eq.2, hkind, this]
    rfl

theorem Executes.slots_of_standsFirst (h : v.Executes i s) (hfirst : i.opcode.standsFirst = true) :
    v.before.slots = 0 := by
  have hlegal := h.legal
  unfold Scan.violations at hlegal
  rw [← h.fetches.attributes_eq.2]
  cases e : i.opcode with
  | defF | defI | defB =>
    rw [e] at hlegal
    exact (Scan.inventory_define hlegal).1
  | dcl =>
    rw [e] at hlegal
    exact Scan.slots_of_declareFaults hlegal
  | _ =>
    rw [e] at hfirst
    cases hfirst

end Visit

/-! ### What a shader takes -/

/-- What a result says about the textures behind a sampler. -/
def Lifted.samplerKind? (l : Lifted) (stage : Nat) : Option TextureKind :=
  (l.samplers.find? fun b => b.index = stage).bind SamplerBinding.kind

theorem samplerKind?_ofUnits (p : Glsl.Profile) (o : Options) (env : Env) (us : List Word)
    (stage : Nat) :
    ((LinkedShader.ofUnits env us).lifted p o).samplerKind? stage =
      (Scan.ofUnits env us).textureKind stage := by
  have hiff := @Interface.mem_samplers_iff env us stage
  unfold Lifted.samplerKind? Scan.textureKind
  cases hfind : ((LinkedShader.ofUnits env us).lifted p o).samplers.find? fun b => b.index = stage with
  | some b =>
    have hindex : b.index = stage := by simpa using List.find?_some hfind
    obtain ⟨x, hx, rfl⟩ := List.mem_map.mp (List.mem_of_find?_eq_some hfind)
    obtain ⟨use, huse, hkind⟩ := (hiff x.kind).mp ⟨x, hx, hindex, rfl⟩
    rw [huse]
    exact hkind.symm
  | none =>
    cases huse : (Scan.ofUnits env us).samplers.find? (Glsl.sampler stage) with
    | none => rfl
    | some use =>
      -- a sampler of the table is reported
      obtain ⟨x, hx, hstage, -⟩ := (hiff use.kind).mpr ⟨use, huse, rfl⟩
      have hnone := List.find?_eq_none.mp hfind _ (List.mem_map_of_mem hx)
      simp [hstage] at hnone

section Run

variable {env : Env} {t : Scan} {us : List Word} {vs : List Visit}
  (r : Scan.Run env { position := .before } 1 us vs t) (does : ∀ v ∈ vs, v.Does)
include r does

variable {earlier later : List Visit} {i : Instruction}

theorem Scan.Run.slots_eq : t.slots = (vs.map Visit.cost).sum := by
  have hfold := r.observed (f := Scan.slots) (g := fun n v => n + v.cost) (fun _ _ => rfl)
    (fun _ => rfl) (fun _ _ h => h.slots_after) does
  rw [hfold, List.sum_eq_foldl, List.foldl_map]

/-- **What is behind the sampler of a lookup is known before it**: nothing later changes it. -/
theorem Scan.Run.textureKind_of_lookup {v : Visit} (hvs : vs = earlier ++ v :: later)
    (this : v.instruction? = some i)
    (hop : i.opcode = .texLdl ∨ (i.opcode = .texLd ∧ env.atLeast 2 0 = true)) (stage : Nat) :
    v.before.textureKind stage = t.textureKind stage := by
  subst hvs
  have henv := r.env_eq
  have hv : v ∈ earlier ++ v :: later := by simp
  have hlater : ∀ u ∈ later, u ∈ earlier ++ v :: later := fun u hu => by simp [hu]
  obtain ⟨s, h⟩ := (does v hv).executes this
  have hmodel : env.atLeast 1 4 = true := by
    rcases hop with hop | ⟨-, hmodel⟩
    · have hthree := (Scan.texLdl_of_legal hop h.legal).1
      rw [henv v hv] at hthree
      exact env.atLeast_of_le hthree (by decide)
    · exact env.atLeast_of_le hmodel (by decide)
  -- the lookup declares nothing itself
  have hstates : v.stated? stage = none := by
    have hnone := h.stated?_of_new (henv v hv ▸ hmodel)
      (by rcases hop with hop | ⟨hop, -⟩ <;> simp [hop])
    rw [Visit.stated?, this]
    show (if _ then i.stated? v.env.toShader else none) = none
    rw [hnone, ite_self]
  -- it takes slots, so no declaration can follow
  have hslots : 0 < v.after.slots := by
    refine h.slots_after ?_
    rcases hop with hop | ⟨hop, -⟩ <;> (rw [hop]; decide)
  have hnone := lastStated?_of_new r (fun u hu => does u (hlater u hu))
    (fun u hu => henv u (hlater u hu)) hmodel hslots stage
  have hstep : ∀ u : Visit, u.env = env → u.Does → u.after.textureKind stage =
      env.restated stage (u.before.textureKind stage) (u.stated? stage) := by
    rintro u rfl hu
    exact hu.textureKind_after stage
  have hrest := (r.observed_at (f := fun s => s.textureKind stage)
    (g := fun known u => env.restated stage known (u.stated? stage)) (fun _ _ => rfl) (fun _ => rfl)
    hstep does rfl).2
  rw [foldl_restated, hnone, (does v hv).textureKind_after, hstates] at hrest
  exact hrest.symm

theorem Scan.Run.cost_eq : ∀ v ∈ vs, v.cost =
    v.instruction?.elim 0 (Instruction.cost env.version t.textureKind) := by
  intro v hv
  rw [Visit.cost, r.env_eq v hv]
  cases this : v.instruction? with
  | none => rfl
  | some i =>
    obtain ⟨earlier, later, hvs⟩ := List.append_of_mem hv
    have hreads : i.readsCube env.version v.before.textureKind =
        i.readsCube env.version t.textureKind := by
      unfold Instruction.readsCube
      by_cases hop : i.opcode = .texLdl ∨ (i.opcode = .texLd ∧ env.atLeast 2 0 = true)
      · rw [r.textureKind_of_lookup does hvs this hop]
      · have hfalse : (decide (i.opcode = .texLdl) ||
            (decide (i.opcode = .texLd) && env.version.atLeast 2 0)) = false := by
          rw [Bool.eq_false_iff]
          intro h
          have hlookup : i.opcode = .texLdl ∨ (i.opcode = .texLd ∧ env.version.atLeast 2 0 = true) := by
            simpa using h
          exact hop hlookup
        rw [hfalse, Bool.false_and, Bool.false_and]
    simp only [Option.elim_some, Instruction.cost, hreads]

theorem Scan.Run.free_of_standsFirst {v : Visit} (hvs : vs = earlier ++ v :: later)
    (this : v.instruction? = some i) (hfirst : i.opcode.standsFirst = true) :
    ∀ u ∈ earlier, ∀ j, u.instruction? = some j → j.opcode.info.slots = 0 := by
  intro u hu j that
  obtain ⟨a, b, rfl⟩ := List.append_of_mem hu
  have hsplit : vs = a ++ u :: (b ++ v :: later) := by simpa using hvs
  obtain ⟨s, h⟩ := (does v (by simp [hvs])).executes this
  obtain ⟨s', h'⟩ := (does u (by simp [hvs])).executes that
  by_contra hslots
  have hafter := h'.slots_after (Nat.pos_of_ne_zero hslots)
  have hlate := ((Scan.invariant_slots env).later r hsplit hafter v (by simp)).1
  rw [h.slots_of_standsFirst hfirst] at hlate
  cases hlate

end Run

/-- **Declarations come first, and the slots are counted exactly**: those of all opcodes, one more for each
product of four components and each comparison before shader model 1.4, and three more for each lookup in a
cube. -/
theorem lift_counts_slots (p : Glsl.Profile) (o : Options) (ws : List Word)
    (clean : (liftWords p o ws).errors = []) :
    (∀ earlier v later, unitsOf o ws = earlier ++ v :: later →
      ∀ i, v.instruction? = some i → i.opcode.standsFirst = true →
        ∀ u ∈ earlier, ∀ j, u.instruction? = some j → j.opcode.info.slots = 0) ∧
    (liftWords p o ws).instructionCount =
      ((instructionsOf o ws).map fun i => i.opcode.info.slots).sum +
        (if (liftWords p o ws).version.atLeast 1 4 then 0
          else (instructionsOf o ws).countP Instruction.isLong) +
        3 * (instructionsOf o ws).countP
          (Instruction.readsCube (liftWords p o ws).version (liftWords p o ws).samplerKind?) := by
  have hdoes := does_of_no_errors p o ws clean
  obtain ⟨w, us, env, t, -, hlink, hrun, hscan, -, -⟩ := run_of_no_errors clean
  refine ⟨fun earlier v later hunits i this hfirst =>
    hrun.free_of_standsFirst hdoes hunits this hfirst, ?_⟩
  have hresult : liftWords p o ws = (LinkedShader.ofUnits env us).lifted p o := by
    rw [liftWords_eq, hlink]
  have hkinds : (liftWords p o ws).samplerKind? = t.textureKind := by
    funext stage
    rw [hresult, samplerKind?_ofUnits, hscan]
    rfl
  have hversion : (liftWords p o ws).version = env.version := by
    rw [hresult]
    rfl
  have hcount : (liftWords p o ws).instructionCount = t.slots := by
    rw [hresult]
    show (Scan.ofUnits env us).slots = _
    rw [hscan]
    rfl
  -- units that are no instructions cost nothing
  have hsum : ((unitsOf o ws).map Visit.cost).sum =
      ((instructionsOf o ws).map (Instruction.cost env.version t.textureKind)).sum := by
    rw [List.map_congr_left (hrun.cost_eq hdoes), instructionsOf]
    generalize unitsOf o ws = vs
    induction vs with
    | nil => rfl
    | cons v vs ih =>
      cases hv : v.instruction? with
      | none => simp [hv, ih]
      | some i => simp [hv, ih]
  rw [hcount, hrun.slots_eq hdoes, hsum, sum_cost, hkinds, hversion]

def colorFromCube : List Word :=
  [0xFFFF0200,
    0x0200001F, 0x98000000, 0xA00F0800,
    0x0200001F, 0x80000000, 0xB00F0000,
    0x03000042, 0x800F0000, 0xB0E40000, 0xA0E40800,
    0x02000001, 0x800F0800, 0x80E40000,
    0xFFFF]

theorem slots_of_colorFromCube :
    (liftWords .glsl110 {} colorFromCube).errors = [] ∧
      (liftWords .glsl110 {} colorFromCube).instructionCount = 5 ∧
      5 = ((instructionsOf {} colorFromCube).map fun i => i.opcode.info.slots).sum +
        (if (liftWords .glsl110 {} colorFromCube).version.atLeast 1 4 then 0
          else (instructionsOf {} colorFromCube).countP Instruction.isLong) +
        3 * (instructionsOf {} colorFromCube).countP
          (Instruction.readsCube (liftWords .glsl110 {} colorFromCube).version
            (liftWords .glsl110 {} colorFromCube).samplerKind?) := by
  have clean : (liftWords .glsl110 {} colorFromCube).errors = [] := by decide +kernel
  have hfive : (liftWords .glsl110 {} colorFromCube).instructionCount = 5 := by decide +kernel
  exact ⟨clean, hfive, hfive.symm.trans (lift_counts_slots .glsl110 {} colorFromCube clean).2⟩

end ShaderLift
