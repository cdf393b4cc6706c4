/-
Which override turns the components that a read of an input names.  Overrides go by the meaning of an
input, which is looked up while the words of the source are read, long before the meanings are made out
that a result reports.

From shader model 2 on both are the same.  An input has to be declared, declarations come before the first
instruction that takes a slot, and an instruction with a source takes one: the meaning that is looked up
stays (`Scan.find?_settled`).  Before, the meaning is looked up by the number of the register, as if it
were an undeclared input of a vertex shader.
-/
import ShaderLift.Proofs.DeclaredOnce

namespace ShaderLift

variable {env : Env} {us : List Word} {r : Register}

/-! ### Components -/

theorem Lane.index_ofIndex (n : Nat) : (ofIndex n).index = n % 4 := by
  have hlt : n % 4 < 4 := Nat.mod_lt n (by decide)
  unfold ofIndex
  generalize n % 4 = m at hlt ⊢
  match m, hlt with
  | 0, _ | 1, _ | 2, _ | 3, _ => rfl

theorem SourceWord.index_lane_ofWord (w : Word) (l : Lane) :
    ((ofWord w).swizzle.lane l).index = Word.field w (16 + 2 * l.index) 2 := by
  have hfield : ∀ n width, Word.field w n width = w.toNat / 2 ^ n % 2 ^ width := fun _ _ => rfl
  cases l <;>
    refine (Lane.index_ofIndex _).trans ?_ <;>
    simp only [Lane.index, hfield] <;>
    omega

/-- The number that an override gives for a component. -/
def SwizzleOverride.number (o : SwizzleOverride) (n : Nat) : Nat :=
  [o.swizzle.1, o.swizzle.2.1, o.swizzle.2.2.1, o.swizzle.2.2.2].getD n 0

/-- The component that is read for one that is named. -/
def turned : Option SwizzleOverride → Nat → Nat
  | some o, n => o.number n % 4
  | none, n => n

/-- The first override for a meaning; an unknown usage has none. -/
def overrideFor? (os : List SwizzleOverride) (usage : Usage) (index : Nat) : Option SwizzleOverride :=
  if usage = .unknown then none else os.find? fun o => o.usage = usage && o.index = index

/-- In every lane the source reads the component that the word names, turned by the override. -/
def Source.IsTurned (a : Source) (w : Word) (o : Option SwizzleOverride) : Prop :=
  ∀ l : Lane, (a.swizzle.lane l).index = turned o (Word.field w (16 + 2 * l.index) 2)

namespace Scan

variable {env : Env} {s t : Scan} {r : Register} {ws : List Word}

theorem index_adjustSwizzle (env : Env) (s : Scan) (r : Register) (q : Swizzle) (l : Lane) :
    ((adjustSwizzle env s r q).lane l).index = turned (override? env s r) (q.lane l).index := by
  have hlane : ∀ (f : Lane → Lane) (l : Lane), (q.map f).lane l = f (q.lane l) := by
    intro f l
    cases l <;> rfl
  unfold adjustSwizzle
  cases override? env s r with
  | none => rfl
  | some o =>
    dsimp only
    rw [hlane]
    cases q.lane l <;> exact Lane.index_ofIndex _

theorem override?_of_input (hfile : r.file = .input) :
    override? env s r =
      if env.atLeast 2 0 then (s.attributes.find? r).bind fun a => overrideFor? env.swizzles a.usage a.index
      else (Usage.ofVertexInput? r.number).bind fun m => overrideFor? env.swizzles m.1 m.2 := by
  unfold override?
  rw [if_pos hfile]
  split
  · cases s.attributes.find? r <;> rfl
  · cases Usage.ofVertexInput? r.number <;> rfl

theorem override?_congr (h : t.attributes = s.attributes) (r : Register) :
    override? env t r = override? env s r := by
  unfold override?
  rw [h]

end Scan

/-! ### Words of sources -/

def SourceWord.register (d : SourceWord) : Register :=
  Register.normalize ⟨(RegisterFile.ofCode? d.fileCode).getD .temp, d.number⟩

/-- The first words of so many sources.  From shader model 2 on a relative source has another word. -/
def sourceWords (sh : Shader) : Nat → List Word → List Word
  | 0, _ => []
  | _ + 1, [] => []
  | n + 1, w :: ws =>
    w :: sourceWords sh n (if (SourceWord.ofWord w).relative && sh.atLeast 2 0 then ws.tail else ws)

def Visit.sourceWords (v : Visit) : List Word :=
  match UnitHead.ofWord v.word with
  | .instruction op _ =>
    ShaderLift.sourceWords v.env.toShader (op.info.shape.sourceCount v.env.toShader)
      (if op.info.shape.hasDest then v.rest.tail else v.rest)
  | _ => []

namespace Scan

variable {env : Env} {s t : Scan} {ws : List Word}

/-- The source that a word gives in the state `s`. -/
structure Decodes (env : Env) (s : Scan) (w : Word) (a : Source) : Prop where
  register : a.register = (SourceWord.ofWord w).register
  turned : a.IsTurned w (override? env s a.register)

theorem Decodes.congr {w : Word} {a : Source} (h : t.attributes = s.attributes)
    (ha : Decodes env t w a) : Decodes env s w a where
  register := ha.register
  turned := by
    rw [← override?_congr h]
    exact ha.turned

theorem decodes_readSource (env : Env) (s : Scan) (w : Word) (ws : List Word) :
    Decodes env s w (readSource env s (w :: ws)).1 := by
  have hread : (readSource env s (w :: ws)).1.register = (SourceWord.ofWord w).register ∧
      (readSource env s (w :: ws)).1.swizzle =
        adjustSwizzle env s (SourceWord.ofWord w).register (SourceWord.ofWord w).swizzle := by
    simp only [readSource]
    split <;> exact ⟨rfl, rfl⟩
  refine ⟨hread.1, fun l => ?_⟩
  rw [hread.1, hread.2, index_adjustSwizzle, SourceWord.index_lane_ofWord]

theorem decodes_readSources {n : Nat} (flag : (readSources env s n ws).2.2.failing = false) :
    List.Forall₂ (Decodes env s) (sourceWords env.toShader n ws) (readSources env s n ws).1 := by
  induction n generalizing s ws with
  | zero => exact .nil
  | succ n ih =>
    have hfirst : (readSource env s ws).2.2.failing = false :=
      (Fetches.readSources .refl env n _).records.flag flag
    cases ws with
    | nil => simp [readSource, fail] at hfirst
    | cons w ws =>
      -- Reading a source changes no meaning, so the words that follow decode as before it.
      have hkept := (Fetches.readSource .refl env (w :: ws)).attributes_eq (s := s)
      have hwords : sourceWords env.toShader (n + 1) (w :: ws) =
          w :: sourceWords env.toShader n (readSource env s (w :: ws)).2.1 := by
        rw [rest_readSource]
        rfl
      rw [hwords]
      exact .cons (decodes_readSource env s w ws) ((ih flag).imp fun _ _ h => h.congr hkept.1)

theorem decodes_readDestSources {n : Nat} (flag : (readDestSources env s n ws).2.2.failing = false) :
    List.Forall₂ (Decodes env s) (sourceWords env.toShader n ws.tail)
      (readDestSources env s n ws).1.sources := by
  have hkept := (Fetches.readDest .refl env false ws).attributes_eq (s := s)
  rw [← rest_readDest env false s ws]
  exact (decodes_readSources flag).imp fun _ _ h => h.congr hkept.1

theorem decodes_readArguments {shape : Shape}
    (flag : (readArguments env shape s ws).2.2.2.failing = false) :
    List.Forall₂ (Decodes env s)
      (sourceWords env.toShader (shape.sourceCount env.toShader) (if shape.hasDest then ws.tail else ws))
      (readArguments env shape s ws).1.sources := by
  have hread := reader_readArguments env shape
  generalize readArguments env shape = read at hread flag ⊢
  cases hread with
  | sources n => exact decodes_readSources flag
  | dest n has count =>
    rw [count, if_pos has]
    exact decodes_readDestSources flag
  | define kind _ count =>
    rw [count]
    exact .nil
  | declare =>
    dsimp only
    rw [(operands_readDeclaration env s ws).2.1]
    exact .nil

end Scan

/-! ### Meanings of inputs while units are read -/

namespace Visit

variable {v : Visit} {i : Instruction} {s : Scan} {r : Register}

/-- The sources of an instruction are what their words give in the state before the unit. -/
theorem Executes.decodes (h : v.Executes i s) :
    List.Forall₂ (Scan.Decodes v.env v.before) v.sourceWords i.sources := by
  obtain ⟨fields, hhead, -, -⟩ := h.fetched
  obtain ⟨hi, hflag, -⟩ := h.arguments
  have hwords : v.sourceWords = ShaderLift.sourceWords v.env.toShader
      (i.opcode.info.shape.sourceCount v.env.toShader)
      (if i.opcode.info.shape.hasDest then v.rest.tail else v.rest) := by
    rw [sourceWords, hhead]
  have hkept := (Scan.Fetches.advance .refl).attributes_eq (s := v.before)
  rw [hwords, show i.sources = _ from congrArg Arguments.sources hi]
  exact (Scan.decodes_readArguments hflag).imp fun _ _ h => h.congr hkept.1

theorem Executes.reads_input (h : v.Executes i s) {a : Source}
    (ha : a ∈ i.sources) (hfile : a.register.file = .input) : 0 < i.opcode.info.slots :=
  h.slots_pos ha (by rw [hfile]; decide)

end Visit

namespace Scan

section Clean

variable {env : Env} {us : List Word} (clean : (ofUnits env us).faults = [])
include clean

variable {i : Instruction}

theorem find?_settled {v : Visit} (hv : v ∈ visits env (start env) 1 us) {s : Scan}
    (this : v.instruction? = some i) (h : v.Executes i s) {a : Source} (ha : a ∈ i.sources)
    (hfile : a.register.file = .input) :
    (ofUnits env us).attributes.find? a.register = v.before.attributes.find? a.register := by
  obtain ⟨t, hrun, -, -⟩ := run_of_clean clean
  obtain ⟨earlier, later, hvs⟩ := List.append_of_mem hv
  have hslots := h.reads_input ha hfile
  exact (find?_unchanged clean hvs (by rw [hfile]; decide)
    (not_declares_of_slots clean hvs this h hslots _)).1

theorem find?_undeclared {r : Register} (hfile : r.file = .input)
    (hnone : ∀ v ∈ visits env (start env) 1 us, ∀ i, v.instruction? = some i → i.opcode = .dcl →
      i.dest.register ≠ r) : (ofUnits env us).attributes.find? r = none := by
  obtain ⟨t, hrun, hend, hclean⟩ := run_of_clean clean
  rw [hend]
  refine hrun.preserves (P := fun u => u.attributes.find? r = none)
    (Q := fun v => v.Does ∧ ∀ i, v.instruction? = some i → i.opcode = .dcl → i.dest.register ≠ r)
    (fun _ _ h => h) (fun _ h => h) ?_ (fun v hv => ⟨hrun.does hclean v hv, hnone v hv⟩) rfl
  rintro v - - ⟨hdoes, hother⟩ hv
  refine (hdoes.means.find?_kept (by rw [hfile]; decide) ?_).trans hv
  cases hi : v.instruction? with
  | none => simp [Visit.declares, hi]
  | some i => simpa [Visit.declares, hi] using hother i hi

theorem used_of_source {v : Visit} (hv : v ∈ visits env (start env) 1 us) {s : Scan}
    (h : v.Executes i s) {a : Source} (ha : a ∈ i.sources) :
    a.register ∈ (ofUnits env us).used.registers := by
  obtain ⟨t, hrun, hend, -⟩ := run_of_clean clean
  have hfetched := h.fetchedArguments.sources a ha
  have hlast := (invariant_used env a.register).last hrun hv (h.grows.used _ hfetched.used)
  rw [hend]
  exact hlast

end Clean

end Scan

/-! ### Reported meanings -/

/-- What a result says of the register `r`: it has one input with that name. -/
structure Lifted.Reports (l : Lifted) (sh : Shader) (r : Register) (b : AttributeBinding) : Prop where
  mem : b ∈ l.attributes
  name : b.name = r.name sh
  only : ∀ c ∈ l.attributes, c.name = b.name → c = b

theorem reports_input {ws : List Word} {p : Glsl.Profile} {o : Options}
    (hlink : linkShader o ws = .ok (.ofUnits env us)) {a : Attribute} (hfile : r.file = .input)
    (ha : (Interface.attributesOf env.toShader (Scan.ofUnits env us)).find? r = some a) :
    (liftWords p o ws).Reports env.toShader r ⟨a.usage, a.index, r.name env.toShader⟩ := by
  have hsorted := Interface.sorted_attributesOf env.toShader (Scan.tablesSorted_ofUnits env us).attributes
  have hlifted : (liftWords p o ws).attributes =
      (LinkedShader.ofUnits env us).interface.attributeBindings env.toShader false := by
    rw [liftWords_eq, hlink]
    rfl
  refine ⟨?_, rfl, fun c hc hname => ?_⟩
  · rw [hlifted]
    refine List.mem_map.mpr ⟨(r, a), List.mem_filter.mpr ⟨hsorted.mem_entries_iff.mpr ha, ?_⟩, rfl⟩
    simp [hfile, RegisterFile.isOutput]
  · rw [hlifted] at hc
    obtain ⟨⟨x, b⟩, he, rfl⟩ := List.mem_map.mp hc
    have hletters : r.file.letters? env.toShader = some "v" := by rw [hfile]; rfl
    obtain rfl : x = r := Register.eq_of_name_eq hletters hname
    have hb := hsorted.mem_entries_iff.mp (List.mem_filter.mp he).1
    obtain rfl : a = b := Option.some.inj (ha.symm.trans hb)
    rfl

/-- The shader has a declaration of the register. -/
def IsDeclared (o : Options) (ws : List Word) (r : Register) : Prop :=
  ∃ v ∈ unitsOf o ws, ∃ i, v.instruction? = some i ∧ i.opcode = .dcl ∧ i.dest.register = r

/-- How the read `a` of an input goes that is reported as `b`. -/
structure Overridden (o : Options) (ws : List Word) (sh : Shader) (w : Word) (a : Source)
    (b : AttributeBinding) : Prop where
  /-- From shader model 2 on the first override for the meaning that is reported turns the components. -/
  later : sh.atLeast 2 0 = true → a.IsTurned w (overrideFor? o.swizzles b.usage b.index)
  /-- Before, it is the first one for the meaning that the number of the register would give to an input
  of a vertex shader. -/
  early : sh.atLeast 2 0 = false → a.IsTurned w
    ((Usage.ofVertexInput? a.register.number).bind fun m => overrideFor? o.swizzles m.1 m.2)
  /-- That is the meaning reported of vertex inputs, if they are not declared. -/
  vertex : sh.atLeast 2 0 = false → sh.isVertex = true → ¬ IsDeclared o ws a.register →
    Usage.ofVertexInput? a.register.number = some (b.usage, b.index)
  /-- The inputs of pixel shaders are reported as colours. -/
  pixel : sh.atLeast 2 0 = false → sh.isPixel = true →
    (b.usage, b.index) = (.color, a.register.number)

theorem Interface.impliedAttribute?_of_input (sh : Shader) (hfile : r.file = .input) :
    impliedAttribute? sh r =
      if sh.atLeast 2 0 then none
      else match sh.stage with
        | .pixel => some ⟨.color, r.number, false⟩
        | .vertex => (Usage.ofVertexInput? r.number).map fun m => ⟨m.1, m.2, false⟩ := by
  unfold impliedAttribute?
  rw [hfile]
  cases sh.atLeast 2 0 <;> rfl

theorem implied_of_find? {x : Attribute}
    (hx : (Interface.attributesOf env.toShader (Scan.ofUnits env us)).find? r = some x)
    (hnone : (Scan.ofUnits env us).attributes.find? r = none) :
    Interface.impliedAttribute? env.toShader r = some x := by
  have hsorted := (Scan.tablesSorted_ofUnits env us).attributes
  rw [Interface.find?_attributesOf _ hsorted, hnone] at hx
  split at hx
  · rwa [Option.or_none] at hx
  · cases hx

theorem find?_of_later (hmodel : env.atLeast 2 0 = true) (hfile : r.file = .input) (us : List Word) :
    (Interface.attributesOf env.toShader (Scan.ofUnits env us)).find? r =
      (Scan.ofUnits env us).attributes.find? r := by
  have hnone : Interface.impliedAttribute? env.toShader r = none := by
    rw [Interface.impliedAttribute?_of_input _ hfile, if_pos hmodel]
  rw [Interface.find?_attributesOf _ (Scan.tablesSorted_ofUnits env us).attributes, hnone]
  split <;> rfl

theorem overridden_of_decodes {o : Options} {word : Word} (hversion : Env.ofWord? o word = some env)
    (clean : (Scan.ofUnits env us).faults = []) {v : Visit} (hv : v ∈ unitsOf o (word :: us))
    {i : Instruction} {s : Scan} (this : v.instruction? = some i) (h : v.Executes i s) {w : Word}
    {a : Source} (ha : a ∈ i.sources) (decodes : Scan.Decodes env v.before w a)
    (hfile : a.register.file = .input) {x : Attribute}
    (hx : (Interface.attributesOf env.toShader (Scan.ofUnits env us)).find? a.register = some x) :
    Overridden o (word :: us) env.toShader w a
      ⟨x.usage, x.index, a.register.name env.toShader⟩ := by
  have hunits : unitsOf o (word :: us) = Scan.visits env (Scan.start env) 1 us := unitsOf_cons o hversion
  have hswizzles : env.swizzles = o.swizzles := by
    obtain ⟨sh, -, rfl⟩ := Option.map_eq_some_iff.mp hversion
    rfl
  have hturned := decodes.turned
  rw [Scan.override?_of_input hfile, hswizzles] at hturned
  refine ⟨fun hmodel => ?_, fun hmodel => ?_, fun hmodel hvertex hnone => ?_, fun hmodel hpixel => ?_⟩
  · -- the meaning that was looked up is the one that is found in the end
    rw [find?_of_later hmodel hfile] at hx
    rw [if_pos hmodel, ← Scan.find?_settled clean (hunits ▸ hv) this h ha hfile, hx] at hturned
    exact hturned
  · -- before 2.0 the number of the register gives the meaning
    rw [hmodel] at hturned
    exact hturned
  · -- without a declaration the meaning is implied
    have hundeclared := Scan.find?_undeclared clean hfile fun u hu j hj hdcl hsame =>
      hnone ⟨u, hunits ▸ hu, j, hj, hdcl, hsame⟩
    have himplied := implied_of_find? hx hundeclared
    have hstage : env.stage = .vertex := by simpa [Shader.isVertex] using hvertex
    rw [Interface.impliedAttribute?_of_input _ hfile, hmodel, hstage] at himplied
    obtain ⟨m, hm, rfl⟩ := Option.map_eq_some_iff.mp himplied
    exact hm
  · -- an old pixel shader declares only its textures
    have hsorted :=
      Interface.sorted_attributesOf env.toShader (Scan.tablesSorted_ofUnits env us).attributes
    have hstage : env.stage = .pixel := by simpa [Shader.isPixel] using hpixel
    rcases Glsl.attributes_of_old clean hpixel hmodel (hsorted.mem_entries_iff.mpr hx) with
      ⟨htexture, -⟩ | himplied
    · rw [hfile] at htexture
      cases htexture
    · rw [Interface.impliedAttribute?_of_input _ hfile, hmodel, hstage] at himplied
      cases himplied
      rfl

/-- **Overrides follow meanings.**  If a source of a shader without a fault is an input, the result reports
just one input of this name, and an override turns the components of the read: from shader model 2 on the
first one for the meaning that is reported, before that the first one for the meaning that goes with its
number. -/
theorem lift_inputs_overridden (p : Glsl.Profile) (o : Options) (ws : List Word)
    (clean : (liftWords p o ws).errors = []) :
    ∀ v ∈ unitsOf o ws, ∀ i, v.instruction? = some i →
      List.Forall₂ (fun w a => a.register = (SourceWord.ofWord w).register ∧
        (a.register.file = .input → ∃ b, (liftWords p o ws).Reports v.env.toShader a.register b ∧
          Overridden o ws v.env.toShader w a b)) v.sourceWords i.sources := by
  intro v hv i this
  have hdoes := does_of_no_errors p o ws clean v hv
  obtain ⟨word, us, env, rfl, hversion, hclean, hlink⟩ := linkShader_of_no_errors p o ws clean
  have hfits := Interface.fits_of_faults (interface_of_linkShader hversion hclean hlink)
  have hvisit : v ∈ Scan.visits env (Scan.start env) 1 us := unitsOf_cons o hversion ▸ hv
  obtain ⟨t, hrun, -, -⟩ := Scan.run_of_clean hclean
  obtain rfl : v.env = env := hrun.env_eq v hvisit
  obtain ⟨s, h⟩ := hdoes.executes this
  obtain ⟨hlength, hdecodes⟩ := List.forall₂_iff_zip.mp h.decodes
  refine List.forall₂_iff_zip.mpr ⟨hlength, fun {w a} hmem => ⟨(hdecodes hmem).register, fun hfile => ?_⟩⟩
  have ha := (List.of_mem_zip hmem).2
  obtain ⟨x, hx⟩ := Scan.exists_meaning hclean hfits (by simp [Interface.isVariable, hfile])
    (by simp [Interface.constantKind?, hfile]) (by simp [hfile])
    (Scan.used_of_source hclean hvisit h ha)
  exact ⟨_, reports_input hlink hfile hx,
    overridden_of_decodes hversion hclean hv this h ha (hdecodes hmem) hfile hx⟩

/-- Reads of a colour have red and blue exchanged. -/
def exchangedColors : Options := { swizzles := [⟨.color, 0, (2, 1, 0, 3)⟩] }

/-- A vertex shader that passes on a colour. -/
def passedColor : List Word :=
  [0xFFFE0200, 0x0200001F, 0x8000000A, 0x900F0002, 0x02000001, 0xD00F0000, 0x90E40002, 0xFFFF]

theorem inputs_overridden_passedColor :
    (liftWords .glsl110 exchangedColors passedColor).errors = [] ∧
      { register := ⟨.input, 2⟩, swizzle := ⟨.z, .y, .x, .w⟩ } ∈ sourcesOf exchangedColors passedColor ∧
      ∀ v ∈ unitsOf exchangedColors passedColor, ∀ i, v.instruction? = some i →
        List.Forall₂ (fun w a => a.register = (SourceWord.ofWord w).register ∧
          (a.register.file = .input → ∃ b,
            (liftWords .glsl110 exchangedColors passedColor).Reports v.env.toShader a.register b ∧
            Overridden exchangedColors passedColor v.env.toShader w a b)) v.sourceWords i.sources := by
  have clean : (liftWords .glsl110 exchangedColors passedColor).errors = [] := by decide +kernel
  exact ⟨clean, by decide +kernel, lift_inputs_overridden .glsl110 exchangedColors passedColor clean⟩

/-- A pixel shader of model 1.1 that takes the colour that it is passed. -/
def copiedColor : List Word := [0xFFFF0101, 0x00000001, 0x800F0000, 0x90E40000, 0xFFFF]

/-- The colour is reported as one, but it is read as it is. -/
theorem copiedColor_not_overridden :
    (liftWords .glsl110 exchangedColors copiedColor).errors = [] ∧
      (liftWords .glsl110 exchangedColors copiedColor).attributes = [⟨.color, 0, "ps_v0"⟩] ∧
      ∃ v ∈ unitsOf exchangedColors copiedColor, ∃ i a, v.instruction? = some i ∧
        v.sourceWords = [0x90E40000] ∧ i.sources = [a] ∧ a.register = ⟨.input, 0⟩ ∧
        ¬ a.IsTurned 0x90E40000 (overrideFor? exchangedColors.swizzles .color 0) := by
  have hread : ([0x90E40000], some [{ register := ⟨.input, 0⟩ }]) ∈
      (unitsOf exchangedColors copiedColor).map fun v =>
        (v.sourceWords, v.instruction?.map fun i => i.sources) := by decide +kernel
  obtain ⟨v, hv, heq⟩ := List.mem_map.mp hread
  obtain ⟨hwords, hsources⟩ := Prod.mk.inj heq
  obtain ⟨i, hi, hsource⟩ := Option.map_eq_some_iff.mp hsources
  refine ⟨by decide +kernel, by decide +kernel, v, hv, i, _, hi, hwords, hsource, rfl, ?_⟩
  intro h
  exact absurd (h .x) (by decide)

end ShaderLift
