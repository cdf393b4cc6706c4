/-
The colours that pixel shaders put out.  One colour is written to a variable of its own, several to the
elements of an array.  Which it is depends on whether any colour but the first is recorded as used, which
is known only after the last unit.

A colour is recorded where a unit has it as an operand, or as a further row of a matrix; before shader
model 2 the end of the entry point records the first one, too.  `UsesOnly` says of a step that there is
nothing else that it records, and `color_mem_used_iff` says so of a shader.
-/
import ShaderLift.Proofs.EntryPoint

namespace ShaderLift

namespace Visit

/-- The unit has `r` as an operand, or as a further row of a matrix. -/
def Mentions (v : Visit) (r : Register) : Prop := v.Names r ∨ v.Reads r

end Visit

/-! ### Units -/

namespace Visit

variable {v : Visit} {i : Instruction} {s : Scan} {x : Register}

theorem Executes.mentions_of_used (h : v.Executes i s) (this : v.instruction? = some i)
    (hx : x ∈ s.used.registers) (hcolor : x.file = .colorOut) :
    x ∈ v.before.used.registers ∨ v.Mentions x := by
  obtain ⟨fields, hhead, -, hs⟩ := h.fetched
  obtain ⟨hi, hread, -⟩ := h.arguments
  have hflag := h.flag
  rw [hs] at hflag hx
  obtain ⟨_, -, _, hwalks⟩ := Scan.Walks.readOperands v.env i.opcode fields v.before.advance v.rest
  have hmarked := hwalks.marksOnly.1 x hx
  rw [Scan.used_advance] at hmarked
  refine hmarked.imp_right ?_
  -- neither what a source is relative to nor a predicate is a colour
  have hindex : ∀ {u us index}, (Scan.readSource v.env u us).2.2.failing = false →
      (Scan.readSource v.env u us).1.relative = some index → index.register.file ≠ .colorOut := by
    intro u us index hu hindex hcolor
    have hfile := Scan.file_of_relative hu hindex
    rw [hcolor] at hfile
    simp at hfile
  rintro ⟨written, hmarks | ⟨hp, rfl, hx⟩⟩
  · cases written with
    | true =>
      have hdest : Scan.written? i.opcode.info.shape i.toArguments = some x := hi ▸ hmarks
      exact .inl ⟨i, this, hdest⟩
    | false =>
      obtain ⟨a, ha, hx⟩ := hmarks
      rcases hx with rfl | ⟨index, ha', rfl⟩
      · refine .inr (.source a ?_ rfl)
        simp only [sources, hhead]
        exact List.mem_append_left _ ha
      · obtain ⟨u, us, -, rfl, hafter⟩ := Scan.source_readArguments _ _ _ _ a ha
        exact absurd hcolor (hindex (hafter.records.flag hread) ha')
  · rcases hx with rfl | ⟨index, ha, rfl⟩
    · rw [Scan.file_of_readOperands hp hflag] at hcolor
      cases hcolor
    · simp only [Scan.readOperands, if_pos hp] at hflag
      exact absurd hcolor (hindex ((Scan.fetches_readPredicate _ _ _).records.flag hflag) ha)

theorem Does.mentions_of_used (h : v.Does) (hx : x ∈ v.after.used.registers)
    (hcolor : x.file = .colorOut) : x ∈ v.before.used.registers ∨ v.Mentions x ∨
      x = ⟨.colorOut, 0⟩ ∧ Scan.colorFromTemp v.env.toShader = true := by
  cases h with
  | idle other unmarked haveTable symbols more preshader after | rest other mark closed after =>
    rw [after] at hx
    exact .inl hx
  | finish other mark opened after =>
    rw [after, Scan.close, Scan.used_emit] at hx
    rcases (Scan.marksOnly_markColor v.env { v.before with ended := true }).1 x hx with hs | ⟨_, hput⟩
    · exact .inl hs
    · exact .inr (.inr hput)
  | execute i s this h =>
    rw [h.after] at hx
    rcases (Scan.marksOnly_executed v.env s i).1 x hx with hs | ⟨_, ⟨-, hrow⟩ | hput⟩
    · exact (h.mentions_of_used this hs hcolor).imp_right .inl
    · exact .inr (.inl (.inr (.row i this (hrow hcolor))))
    · exact .inr (.inr hput)

theorem Does.mem_used (h : v.Does) (hx : v.Mentions x)
    (hcolor : x.file = .colorOut) : x ∈ v.after.used.registers := by
  -- only instructions mention registers
  cases h with
  | idle other | rest other | finish other =>
    rcases hx with ⟨i, this, -⟩ | ⟨a, ha, -⟩ | ⟨i, this, -⟩ | ⟨i, this, -⟩
    · simp [other] at this
    · simp [sources_of_other other] at ha
    · simp [other] at this
    · simp [other] at this
  | execute i s this h =>
    have hfetched := h.fetchedArguments
    have hdest : i.dest? = some x → x ∈ v.after.used.registers := by
      intro hdest
      unfold Instruction.dest? at hdest
      split at hdest
      next has =>
        cases hdest
        exact h.grows.used _ (hfetched.dest has)
      next => cases hdest
    rcases hx with ⟨j, that, hj⟩ | ⟨a, ha, rfl⟩ | ⟨j, that, hrow⟩ | ⟨j, that, -, hj⟩
    · cases this.symm.trans that
      exact hdest hj
    · obtain ⟨fields, hhead, -, hs⟩ := h.fetched
      simp only [sources, hhead, List.mem_append] at ha
      rcases ha with ha | ha
      · rw [← h.arguments.1] at ha
        exact h.grows.used _ (hfetched.sources a ha).used
      · -- a predicate is no colour
        have hflag := h.flag
        rw [hs] at hflag
        split at ha
        next hp =>
          rw [List.mem_singleton.mp ha, Scan.file_of_readOperands hp hflag] at hcolor
          cases hcolor
        next => cases ha
    · cases this.symm.trans that
      unfold Instruction.impliedRows at hrow
      split at hrow
      next form hform =>
        obtain ⟨a, ha, rfl⟩ := List.mem_map.mp hrow
        rw [h.after]
        exact (Scan.grows_executed v.env s i).used _
          ((Scan.grows_ready v.env s i).used _ (Scan.used_matrixRows hform ha v.env s))
      next => cases hrow
    · cases this.symm.trans that
      exact hdest hj

end Visit

/-! ### Shaders -/

open Glsl (Profile HasLine defineLine)

section Shaders

variable {p : Profile} {o : Options} {ws : List Word} {l : LinkedShader}
  (clean : (liftWords p o ws).errors = []) (hlink : linkShader o ws = .ok l)
include clean hlink

theorem mem_used_of_colorFromTemp (h : Scan.colorFromTemp l.env.toShader = true) :
    ⟨.colorOut, 0⟩ ∈ l.scan.used.registers := by
  obtain ⟨earlier, v, later, hunits, hcloses, hfirst, -⟩ := exists_first_closing clean
  have hv : v ∈ unitsOf o ws := hunits ▸ List.mem_append_cons_self
  have hdoes := does_of_no_errors p o ws clean
  obtain ⟨w, us, env, t, -, hlinked, hrun, -, hfaults, -⟩ := run_of_no_errors clean
  cases hlinked.symm.trans hlink
  have henv := hrun.env_eq v hv
  have hcolor : Scan.colorFromTemp env.toShader = true := h
  have hcopied : Scan.copyColor ∈ v.written := by
    rw [hunits] at hrun hdoes
    have hmain := (hrun.inMain_before hdoes).mpr hfirst
    rcases (hdoes v (hunits ▸ hv)).frames with ⟨-, hwritten⟩ | ⟨hopen, -⟩
    · rw [hwritten, henv, Scan.code_closeCode, hmain, if_pos rfl, Scan.closingCode, if_pos hcolor]
      exact List.mem_append_left _ List.mem_cons_self
    · simp [hcloses] at hopen
  have hcode : Scan.copyColor ∈ (LinkedShader.ofUnits env us).scan.code := by
    rw [code_eq_written clean hlink]
    exact List.mem_flatMap.mpr ⟨v, hv, hcopied⟩
  have hrecorded := ((bound_of_no_errors clean hlink).code _ hcode).1
    (Interface.fits_of_faults hfaults).relativeInput
  rcases hrecorded with hused | hsampler | ⟨htemp, -⟩
  · exact hused
  · cases Scan.file_of_sampler hsampler
  · cases htemp

theorem color_mem_used_iff (n : Nat) : ⟨.colorOut, n⟩ ∈ l.scan.used.registers ↔
    (∃ v ∈ unitsOf o ws, v.Mentions ⟨.colorOut, n⟩) ∨
      n = 0 ∧ Scan.colorFromTemp l.env.toShader = true := by
  have hdoes := does_of_no_errors p o ws clean
  obtain ⟨w, us, env, t, -, hlinked, hrun, hscan, -, -⟩ := run_of_no_errors clean
  cases hlinked.symm.trans hlink
  constructor
  · intro hused
    have horigin := hrun.preserves (Q := fun v => v.Does ∧ v ∈ unitsOf o ws)
      (P := fun s => ∀ x ∈ s.used.registers, x.file = .colorOut → (∃ v ∈ unitsOf o ws, v.Mentions x) ∨
        x = ⟨.colorOut, 0⟩ ∧ Scan.colorFromTemp env.toShader = true)
      (fun _ _ h => h) (fun _ h => h)
      (by
        rintro v rfl - ⟨hv, hmem⟩ hbefore x hx hfile
        rcases hv.mentions_of_used hx hfile with hold | hnew
        · exact hbefore x hold hfile
        · exact hnew.imp_left fun h => ⟨v, hmem, h⟩)
      (fun v hv => ⟨hdoes v hv, hv⟩) fun x hx => absurd hx List.not_mem_nil
    have hused' : ⟨.colorOut, n⟩ ∈ (Scan.ofUnits env us).used.registers := hused
    rw [hscan] at hused'
    exact (horigin _ hused' rfl).imp_right fun h => ⟨congrArg Register.number h.1, h.2⟩
  · rintro (⟨v, hv, hmentions⟩ | ⟨rfl, hcolor⟩)
    · have hafter := (hdoes v hv).mem_used hmentions rfl
      show _ ∈ (Scan.ofUnits env us).used.registers
      rw [hscan]
      have hlast := (Scan.invariant_used env _).last hrun hv hafter
      exact hlast
    · exact mem_used_of_colorFromTemp clean hlink hcolor

/-- Pixel shaders cannot declare colours, so the colours among the outputs are those recorded. -/
theorem color_mem_attributes_iff (hpixel : l.env.isPixel = true) (n : Nat) :
    (∃ a, (⟨.colorOut, n⟩, a) ∈ l.interface.attributes) ↔ ⟨.colorOut, n⟩ ∈ l.scan.used.registers := by
  obtain ⟨w, us, env, rfl, hversion, hgood, hlinked⟩ := linkShader_of_no_errors p o ws clean
  cases hlinked.symm.trans hlink
  have hfits := Interface.fits_of_faults (interface_of_linkShader hversion hgood hlink)
  have hstage : env.stage = .pixel := of_decide_eq_true hpixel
  have hsorted := (Scan.tablesSorted_ofUnits env us).attributes
  constructor
  · rintro ⟨a, ha⟩
    rcases Interface.given_or_implied hsorted ha with hgiven | ⟨hundeclared, -⟩
    · cases Scan.given_ofUnits hgood _ _ hgiven with
      | declared d w rule register allowed =>
        have hfile : d.register.file = .colorOut := by rw [register]
        unfold Scan.declarationRule at allowed
        rw [hstage, hfile] at allowed
        dsimp only at allowed
        split_ifs at allowed
      | coordinates h => cases h.1
    · exact (List.mem_filter.mp hundeclared).1
  · intro hused
    obtain ⟨a, ha⟩ := Scan.exists_meaning hgood hfits rfl rfl (by simp) hused
    exact ⟨a, (Interface.sorted_attributesOf env.toShader hsorted).mem_entries_iff.mpr ha⟩

theorem hasLine_color {n : Nat} (hpixel : l.env.isPixel = true)
    (h : ⟨.colorOut, n⟩ ∈ l.scan.used.registers) :
    HasLine (liftWords p o ws).output (defineLine (Register.name l.env.toShader ⟨.colorOut, n⟩)
      (if l.interface.manyColors then "gl_FragData[" ++ toString n ++ "]" else "gl_FragColor")) := by
  obtain ⟨a, ha⟩ := (color_mem_attributes_iff clean hlink hpixel n).mpr h
  have hstage : l.env.stage = .pixel := of_decide_eq_true hpixel
  have hdecl : .color n l.interface.manyColors ∈ Glsl.declarations l :=
    Glsl.mem_declarations_of_attribute ha (by rw [Glsl.attributeDecls, hstage])
  rw [liftWords_eq, hlink]
  exact Glsl.hasLine_program_of_declaration p o (List.mem_flatMap.mpr ⟨_, hdecl, List.mem_cons_self⟩)

theorem manyColors_iff :
    l.interface.manyColors = true ↔ ∃ v ∈ unitsOf o ws, ∃ n > 0, v.Mentions ⟨.colorOut, n⟩ := by
  have hany : l.interface.manyColors = true ↔ ∃ n > 0, ⟨.colorOut, n⟩ ∈ l.scan.used.registers := by
    obtain ⟨w, us, env, -, -, -, hlinked⟩ := linkShader_of_no_errors p o ws clean
    cases hlinked.symm.trans hlink
    show (List.any _ _) = true ↔ _
    simp only [List.any_eq_true, Bool.and_eq_true, decide_eq_true_iff]
    constructor
    · rintro ⟨⟨file, n⟩, hr, rfl, hn⟩
      exact ⟨n, hn, hr⟩
    · rintro ⟨n, hn, hr⟩
      exact ⟨_, hr, rfl, hn⟩
  rw [hany]
  constructor
  · rintro ⟨n, hn, hr⟩
    rcases (color_mem_used_iff clean hlink n).mp hr with ⟨v, hv, hmentions⟩ | ⟨rfl, -⟩
    · exact ⟨v, hv, n, hn, hmentions⟩
    · cases hn
  · rintro ⟨v, hv, n, hn, hmentions⟩
    exact ⟨n, hn, (color_mem_used_iff clean hlink n).mpr (.inl ⟨v, hv, hmentions⟩)⟩

end Shaders

/-! ### Outputs -/

def AttributeBinding.IsColor (sh : Shader) (b : AttributeBinding) (n : Nat) : Prop :=
  b.name = Register.name sh ⟨.colorOut, n⟩

section Outputs

variable {p : Profile} {o : Options} {ws : List Word} {l : LinkedShader}

theorem outputs_eq (hlink : linkShader o ws = .ok l) : (liftWords p o ws).outputs =
    (l.interface.attributes.filter fun e => e.1.file.isOutput == true).map fun e =>
      ⟨e.2.usage, e.2.index, e.1.name l.env.toShader⟩ := by
  rw [liftWords_eq, hlink]
  rfl

theorem AttributeBinding.IsColor.register_eq {sh : Shader} {r : Register} {usage : Usage} {index n : Nat}
    (h : IsColor sh ⟨usage, index, r.name sh⟩ n) : r = ⟨.colorOut, n⟩ :=
  Register.eq_of_name_eq (rfl : RegisterFile.letters? _ .colorOut = some "oC") h

theorem exists_isColor_iff (clean : (liftWords p o ws).errors = []) (hlink : linkShader o ws = .ok l)
    (hpixel : l.env.isPixel = true) (n : Nat) :
    (∃ b ∈ (liftWords p o ws).outputs, b.IsColor l.env.toShader n) ↔
      ⟨.colorOut, n⟩ ∈ l.scan.used.registers := by
  rw [outputs_eq hlink, ← color_mem_attributes_iff clean hlink hpixel]
  constructor
  · rintro ⟨b, hb, hcolor⟩
    obtain ⟨⟨r, a⟩, he, rfl⟩ := List.mem_map.mp hb
    cases hcolor.register_eq
    exact ⟨a, (List.mem_filter.mp he).1⟩
  · rintro ⟨a, ha⟩
    exact ⟨_, List.mem_map_of_mem (List.mem_filter.mpr ⟨ha, rfl⟩), rfl⟩

theorem pairwise_isColor (clean : (liftWords p o ws).errors = []) (hlink : linkShader o ws = .ok l) :
    (liftWords p o ws).outputs.Pairwise fun b c =>
      ∀ n, b.IsColor l.env.toShader n → ¬ c.IsColor l.env.toShader n := by
  rw [outputs_eq hlink]
  obtain ⟨w, us, env, -, -, -, hlinked⟩ := linkShader_of_no_errors p o ws clean
  cases hlinked.symm.trans hlink
  have hsorted := Interface.sorted_attributesOf env.toShader (Scan.tablesSorted_ofUnits env us).attributes
  refine List.pairwise_map.mpr (List.Pairwise.filter _ (hsorted.imp ?_))
  intro e e' hbefore n hn hn'
  rw [hn.register_eq, hn'.register_eq] at hbefore
  simp [Register.before] at hbefore

end Outputs

/-- How the colours of a pixel shader are defined. -/
structure ColorsDefined (sh : Shader) (units : List Visit) (result : Lifted) : Prop where
  /-- The colours that units mention are put out; before shader model 2 so is the first one. -/
  outputs : ∀ n, (∃ b ∈ result.outputs, b.IsColor sh n) ↔
    (∃ v ∈ units, v.Mentions ⟨.colorOut, n⟩) ∨ n = 0 ∧ sh.atLeast 2 0 = false
  /-- If units mention any but the first one, all are elements of an array. -/
  indexed : (∃ v ∈ units, ∃ n > 0, v.Mentions ⟨.colorOut, n⟩) →
    ∀ b ∈ result.outputs, ∀ n, b.IsColor sh n →
      HasLine result.output (defineLine b.name ("gl_FragData[" ++ toString n ++ "]"))
  /-- Otherwise there is no colour but the first one. -/
  single : (¬ ∃ v ∈ units, ∃ n > 0, v.Mentions ⟨.colorOut, n⟩) →
    result.outputs.Pairwise (fun b c => ¬ ((∃ n, b.IsColor sh n) ∧ ∃ n, c.IsColor sh n)) ∧
      ∀ b ∈ result.outputs, ∀ n, b.IsColor sh n →
        n = 0 ∧ HasLine result.output (defineLine b.name "gl_FragColor")

/-- **Colours are single or indexed.**  If a unit mentions a colour other than the first one, all colours are
elements of an array; otherwise there is at most one, a variable of its own. -/
theorem lift_colors_single_or_indexed (p : Profile) (o : Options) (ws : List Word)
    (success : (liftWords p o ws).errors = []) :
    ∃ l, linkShader o ws = .ok l ∧
      (l.env.isPixel = true → ColorsDefined l.env.toShader (unitsOf o ws) (liftWords p o ws)) := by
  obtain ⟨w, us, env, -, -, -, hlink⟩ := linkShader_of_no_errors p o ws success
  refine ⟨_, hlink, fun hpixel => ?_⟩
  generalize LinkedShader.ofUnits env us = l at hlink hpixel ⊢
  have hput := exists_isColor_iff success hlink hpixel
  have hmany := manyColors_iff success hlink
  -- the line of a colour that is put out
  have hline : ∀ b ∈ (liftWords p o ws).outputs, ∀ n, b.IsColor l.env.toShader n →
      HasLine (liftWords p o ws).output (defineLine b.name
        (if l.interface.manyColors then "gl_FragData[" ++ toString n ++ "]" else "gl_FragColor")) := by
    intro b hb n hn
    rw [hn]
    exact hasLine_color success hlink hpixel ((hput n).mp ⟨b, hb, hn⟩)
  refine ⟨fun n => ?_, fun hmentions b hb n hn => ?_, fun hnone => ?_⟩
  · rw [hput, color_mem_used_iff success hlink, Scan.colorFromTemp]
    show _ ∨ n = 0 ∧ (l.env.isPixel && _) = true ↔ _
    rw [hpixel, Bool.true_and, Bool.not_eq_true']
  · have h := hline b hb n hn
    rwa [if_pos (hmany.mpr hmentions)] at h
  · have hfirst : ∀ b ∈ (liftWords p o ws).outputs, ∀ n, b.IsColor l.env.toShader n → n = 0 := by
      intro b hb n hn
      by_contra hpos
      rcases (color_mem_used_iff success hlink n).mp ((hput n).mp ⟨b, hb, hn⟩) with ⟨v, hv, h⟩ | ⟨h, -⟩
      · exact hnone ⟨v, hv, n, Nat.pos_of_ne_zero hpos, h⟩
      · exact hpos h
    refine ⟨?_, fun b hb n hn => ⟨hfirst b hb n hn, ?_⟩⟩
    · refine (pairwise_isColor success hlink).imp_of_mem ?_
      rintro b c hb hc hne ⟨⟨n, hn⟩, m, hm⟩
      cases hfirst b hb n hn
      cases hfirst c hc m hm
      exact hne 0 hn hm
    · have h := hline b hb n hn
      rwa [if_neg fun h => hnone (hmany.mp h)] at h

def twoColors : List Word :=
  [0xFFFF0200,
    0x02000001, 0x800F0000, 0xA0E40000,
    0x02000001, 0x800F0800, 0x80E40000,
    0x02000001, 0x800F0801, 0x80E40000,
    0xFFFF]

theorem twoColors_single_or_indexed :
    (liftWords .glsl110 {} twoColors).errors = [] ∧ ∃ l, linkShader {} twoColors = .ok l ∧
      (l.env.isPixel = true →
        ColorsDefined l.env.toShader (unitsOf {} twoColors) (liftWords .glsl110 {} twoColors)) :=
  ⟨by decide +kernel, lift_colors_single_or_indexed .glsl110 {} twoColors (by decide +kernel)⟩

/-- A pixel shader with a matrix that begins at the first colour, the only one among its operands. -/
def colorMatrix : List Word :=
  [0xFFFF0200,
    0x02000001, 0x800F0000, 0xA0E40000,
    0x03000014, 0x800F0001, 0x80E40000, 0x80E40800,
    0xFFFF]

/-- It has a second colour among its outputs. -/
theorem colorMatrix_puts_rows_out :
    (liftWords .glsl110 {} colorMatrix).errors = [] ∧
      (liftWords .glsl110 {} colorMatrix).stage = some .pixel ∧
      (∀ v ∈ unitsOf {} colorMatrix, ∀ n > 0, ¬ v.Names ⟨.colorOut, n⟩ ∧
        ∀ a ∈ v.sources, a.register ≠ ⟨.colorOut, n⟩) ∧
      ∃ b ∈ (liftWords .glsl110 {} colorMatrix).outputs,
        b.IsColor ⟨.pixel, ⟨2, 0⟩⟩ 1 := by
  have hoperands : ((unitsOf {} colorMatrix).all fun v =>
      (v.instruction?.bind Instruction.dest?).all (fun r => r.file != .colorOut || r.number == 0) &&
        v.sources.all fun a => a.register.file != .colorOut || a.register.number == 0) = true := by
    decide +kernel
  have houtput : ((liftWords .glsl110 {} colorMatrix).outputs.any fun b =>
      b.name = Register.name ⟨.pixel, ⟨2, 0⟩⟩ ⟨.colorOut, 1⟩) = true := by
    decide +kernel
  refine ⟨by decide +kernel, by decide +kernel, fun v hv n hn => ⟨?_, fun a ha hcolor => ?_⟩, ?_⟩
  · rintro ⟨i, hi, hdest⟩
    have hv' := (Bool.and_eq_true_iff.mp (List.all_eq_true.mp hoperands v hv)).1
    simp [hi, hdest] at hv'
    omega
  · have hv' := (Bool.and_eq_true_iff.mp (List.all_eq_true.mp hoperands v hv)).2
    have ha' := List.all_eq_true.mp hv' a ha
    simp [hcolor] at ha'
    omega
  · obtain ⟨b, hb, hname⟩ := List.any_eq_true.mp houtput
    have hcolor : b.name = Register.name ⟨.pixel, ⟨2, 0⟩⟩ ⟨.colorOut, 1⟩ := of_decide_eq_true hname
    exact ⟨b, hb, hcolor⟩

end ShaderLift
