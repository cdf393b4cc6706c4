/-
Where the values of temporaries come from.  Reading keeps a flag for every register that says whether it
was written, and takes it for a fault if a source is a temporary whose flag is down.  The flag goes up for
destinations only, so that an instruction that reads a temporary as a source has another one before it
that names the temporary as its destination.

Three reads are not looked at closely enough.  The destination of an instruction counts as written before
its own sources are read.  The further rows of a matrix have no operand that could be checked. And the
operand of `texKill` stands where a destination stands, so it is never checked and counts as written.
-/
import ShaderLift.Proofs.Code
import ShaderLift.Proofs.Execution
import ShaderLift.Proofs.Registers

namespace ShaderLift

/-! ### Registers that are read and written -/

namespace Instruction

/-- The register of the destination operand, if there is one. -/
def dest? (i : Instruction) : Option Register :=
  if i.opcode.info.shape.hasDest then some i.dest.register else none

/-- The further rows of a matrix, which are read without an operand of their own. -/
def impliedRows (i : Instruction) : List Register :=
  match i.opcode.matrixForm? with
  | some form => ((i.matrixRows form.rows).drop 1).map Source.register
  | none => []

end Instruction

namespace Visit

/-- The sources of an instruction that are decoded from words: those that follow its destination, and
its predicate. -/
def sources (v : Visit) : List Source :=
  match UnitHead.ofWord v.word with
  | .instruction op fields =>
    let a := Scan.readArguments v.env op.info.shape v.before.advance v.rest
    a.1.sources ++ if fields.predicated then [(Scan.readSource v.env a.2.2.2 a.2.2.1).1] else []
  | _ => []

def Names (v : Visit) (r : Register) : Prop := ∃ i, v.instruction? = some i ∧ i.dest? = some r

/-- The unit gives the pixel up depending on `r`. -/
def Kills (v : Visit) (r : Register) : Prop :=
  ∃ i, v.instruction? = some i ∧ i.opcode = .texKill ∧ i.dest? = some r

def Writes (v : Visit) (r : Register) : Prop :=
  ∃ i, v.instruction? = some i ∧ i.opcode ≠ .texKill ∧ i.dest? = some r

inductive Reads (v : Visit) (r : Register) : Prop
  | source (a : Source) (mem : a ∈ v.sources) (eq : a.register = r)
  | row (i : Instruction) (this : v.instruction? = some i) (mem : r ∈ i.impliedRows)
  | kill (h : v.Kills r)

end Visit

namespace Scan

variable {env : Env} {s t u : Scan} {r : Register} {ws : List Word}

/-! ### Registers that come to be used -/

/-- On the way from `s` to `t` no registers came to be used but those of `R`, and none to be written but
those of which `R` says so. -/
def MarksOnly (R : Register → Bool → Prop) (s t : Scan) : Prop :=
  (∀ x ∈ t.used.registers, x ∈ s.used.registers ∨ ∃ written, R x written) ∧
    ∀ x, t.wasWritten x = true → s.wasWritten x = true ∨ R x true

namespace MarksOnly

variable {R R' : Register → Bool → Prop}

theorem of_used (h : t.used = s.used) : MarksOnly R s t := by
  constructor
  · intro x hx
    rw [h] at hx
    exact .inl hx
  · intro x hx
    rw [wasWritten, h] at hx
    exact .inl hx

theorem trans (h : MarksOnly R s t) (h' : MarksOnly R t u) : MarksOnly R s u :=
  ⟨fun x hx => (h'.1 x hx).elim (h.1 x) .inr, fun x hx => (h'.2 x hx).elim (h.2 x) .inr⟩

theorem mono (h : MarksOnly R s t) (himp : ∀ x written, R x written → R' x written) : MarksOnly R' s t :=
  ⟨fun x hx => (h.1 x hx).imp_right (Exists.imp (himp x)),
    fun x hx => (h.2 x hx).imp_right (himp x true)⟩

/-- A change of records that lets no flag go up but by `b`. -/
theorem update {s : Scan} {f : Use → Use} {b : Bool} (hr : R r b)
    (hf : ∀ u, (f u).written = true → u.written = true ∨ b = true) :
    MarksOnly R s { s with used := s.used.update r {} f } := by
  refine ⟨fun x hx => ?_, fun x hx => ?_⟩
  · rcases (RegisterTable.mem_registers_update _ _ _ _ _).mp hx with rfl | hold
    · exact .inr ⟨b, hr⟩
    · exact .inl hold
  · unfold wasWritten at hx
    split at hx
    next u hu =>
      rcases RegisterTable.find?_update hu with hold | ⟨rfl, rfl | ⟨old, hold, rfl⟩⟩
      · left
        rw [wasWritten, hold]
        exact hx
      · rcases hf {} hx with hfresh | rfl
        · cases hfresh
        · exact .inr hr
      · rcases hf old hx with hwritten | rfl
        · left
          rw [wasWritten, hold]
          exact hwritten
        · exact .inr hr
    next => cases hx

theorem markUsed (s : Scan) {b : Bool} (hr : R r b) : MarksOnly R s (s.markUsed r b) :=
  update hr fun _ hu => by simpa using hu

end MarksOnly

/-! ### Reading operands -/

@[simp] theorem used_failIf (s : Scan) (b : Bool) (f : Fault) : (s.failIf b f).used = s.used := by
  unfold failIf
  split <;> rfl

@[simp] theorem used_failAll (s : Scan) (fs : List Fault) : (s.failAll fs).used = s.used := by
  rw [failAll_eq]

@[simp] theorem used_advance (s : Scan) : s.advance.used = s.used := by
  unfold advance
  split <;> rfl

theorem Walks.marksOnly {m : Register → Bool → Prop} {k : Nat} {us : List Word} (h : Walks m s ws k t us) :
    MarksOnly m s t := by
  induction h with
  | refl => exact .of_used rfl
  | fail _ _ ih => exact ih
  | advance _ ih => exact ih.trans (.of_used (used_advance _))
  | skip _ ih => exact ih.trans (.of_used (used_advance _))
  | mark _ r written _ known ih => exact ih.trans (.markUsed _ known)
  | group _ _ ih => exact ih
  | useArray _ _ _ _ ih => exact ih
  | relativeInput _ ih => exact ih

/-- Nothing is wrong with the state in which a source without a fault is recorded. -/
theorem readSource_of_flag {w : Word} (flag : (readSource env s (w :: ws)).2.2.failing = false) :
    ∃ u, MarksOnly (fun _ written => written = false) s u ∧ u.failing = false ∧
      (readSource env s (w :: ws)).2.2 = u.markRead (readSource env s (w :: ws)).1.register := by
  obtain ⟨u, hu, heq⟩ := Walks.readSource_eq_markRead
    (.refl : Walks (fun _ written => written = false) s (w :: ws) 0 s (w :: ws)) env fun _ _ => rfl
  rw [heq] at flag
  exact ⟨u, hu.marksOnly, (Fetches.markRead .refl _).records.flag flag, heq⟩

theorem wasWritten_of_markRead (flag : (s.markRead r).failing = false) (htemp : r.file = .temp) :
    s.wasWritten r = true := by
  have hbefore := (Fetches.markRead .refl r).records.flag flag
  simp only [markRead, hbefore, Bool.false_eq_true, if_false] at flag
  have hmarked : (s.markUsed r false).wasWritten r = true := by
    cases hw : (s.markUsed r false).wasWritten r with
    | true => rfl
    | false => simp [failIf, fail, htemp, hw] at flag
  have hread : MarksOnly (fun _ written => written = false) s (s.markUsed r false) := .markUsed s rfl
  exact (hread.2 r hmarked).resolve_right (by simp)

theorem wasWritten_of_readSource (flag : (readSource env s ws).2.2.failing = false)
    (htemp : (readSource env s ws).1.register.file = .temp) :
    s.wasWritten (readSource env s ws).1.register = true := by
  cases ws with
  | nil => simp [readSource, fail] at flag
  | cons w ws =>
    obtain ⟨u, hu, -, heq⟩ := readSource_of_flag flag
    rw [heq] at flag
    exact (hu.2 _ (wasWritten_of_markRead flag htemp)).resolve_right (by simp)

theorem wasWritten_of_readArguments {shape : Shape}
    (flag : (readArguments env shape s ws).2.2.2.failing = false) :
    ∀ x ∈ (readArguments env shape s ws).1.sources, x.register.file = .temp →
      s.wasWritten x.register = true ∨
        written? shape (readArguments env shape s ws).1 = some x.register := by
  intro x hx htemp
  obtain ⟨u, us, hu, rfl, hafter⟩ := source_readArguments env shape s ws x hx
  exact (hu.marksOnly.2 _ (wasWritten_of_readSource (hafter.records.flag flag) htemp)).imp_right
    fun h => h rfl

theorem file_of_readPredicate (flag : (readPredicate env s ws).failing = false) :
    (readSource env s ws).1.register.file = .predicate := by
  have hne : ws.isEmpty = false := by
    cases ws with
    | nil => simp [readPredicate, readSource, fail] at flag
    | cons => rfl
  cases hfile : (readSource env s ws).1.register.file != .predicate with
  | false => simpa using hfile
  | true =>
    have hfetches : Fetches ((readSource env s ws).2.2.fail .predicateRegister)
        (readPredicate env s ws) := by
      simp only [readPredicate, hne, hfile, Bool.false_eq_true, if_false]
      exact ((Fetches.failIf .refl _ _).failIf _ _).failIf _ _
    exact absurd (hfetches.records.flag flag) (by simp [fail])

theorem file_of_readOperands {op : Opcode} {w : InstructionWord} (hp : w.predicated = true)
    (flag : (readOperands env op w s ws).2.2.failing = false) :
    (readSource env (readArguments env op.info.shape s ws).2.2.2
      (readArguments env op.info.shape s ws).2.2.1).1.register.file = .predicate := by
  simp only [readOperands, if_pos hp] at flag
  exact file_of_readPredicate flag

/-! ### Executing instructions -/

theorem marksOnly_useRows (s : Scan) (i : Instruction) (form : MatrixForm) :
    MarksOnly (fun x written => written = false ∧ x ∈ ((i.matrixRows form.rows).drop 1).map Source.register)
      s (s.useRows i form) := by
  unfold useRows
  generalize (i.matrixRows form.rows).drop 1 = rows
  induction rows generalizing s with
  | nil => exact .of_used rfl
  | cons row rows ih =>
    exact (MarksOnly.markUsed s ⟨rfl, List.mem_cons_self⟩).trans
      ((ih _).mono fun x _ hx => ⟨hx.1, List.mem_cons_of_mem _ hx.2⟩)

theorem marksOnly_account (env : Env) (s : Scan) (i : Instruction) :
    MarksOnly (fun x written => written = false ∧ (x.file = .colorOut → x ∈ i.impliedRows)) s
      (account env s i) := by
  have hdoes := Consequence.of_account env s i
  generalize account env s i = t at hdoes ⊢
  cases hdoes with
  | rows form op =>
    refine (marksOnly_useRows s i form).mono fun x _ hx => ⟨hx.1, fun _ => ?_⟩
    rw [Instruction.impliedRows, op]
    exact hx.2
  | call =>
    -- what is called is a label
    refine .update ⟨rfl, nofun⟩ fun u hu => .inl ?_
    split at hu <;> exact hu
  | _ => exact .of_used rfl

/-- The end of the entry point may put out the first colour, and writes nothing else. -/
theorem marksOnly_markColor (env : Env) (s : Scan) :
    MarksOnly (fun x _ => x = ⟨.colorOut, 0⟩ ∧ colorFromTemp env.toShader = true) s (s.markColor env) := by
  unfold markColor
  split
  next h => exact .markUsed s ⟨rfl, (Bool.and_eq_true_iff.mp h).2⟩
  next => exact .of_used rfl

theorem used_emit (s : Scan) (e : Glsl.Emission Unit) : (s.emit e).used = s.used := used_failAll s _

theorem marksOnly_executed (env : Env) (s : Scan) (i : Instruction) :
    MarksOnly (fun x written => written = false ∧ (x.file = .colorOut → x ∈ i.impliedRows) ∨
      x = ⟨.colorOut, 0⟩ ∧ colorFromTemp env.toShader = true) s (executed env s i) := by
  refine MarksOnly.trans ?_ (.of_used (used_emit (ready env s i) _))
  refine MarksOnly.trans (t := settled env s i) ?_ ?_
  · exact (marksOnly_account env s i).mono fun _ _ => .inl
  · unfold ready
    split
    · exact (marksOnly_markColor env _).mono fun _ _ => .inr
    · exact .of_used rfl

end Scan

namespace Visit

variable {v : Visit} {i : Instruction} {s : Scan}

/-! ### Units -/

/-- What an instruction without a fault says about the flags, its predicate included. -/
theorem Executes.initialized (h : v.Executes i s) :
    (∀ x, s.wasWritten x = true → v.before.wasWritten x = true ∨ i.dest? = some x) ∧
      ∀ a ∈ v.sources, a.register.file = .temp →
        v.before.wasWritten a.register = true ∨ i.dest? = some a.register := by
  obtain ⟨fields, hhead, -, hs⟩ := h.fetched
  obtain ⟨hi, hflag, -⟩ := h.arguments
  have hdest : i.dest? = Scan.written? i.opcode.info.shape
      (Scan.readArguments v.env i.opcode.info.shape v.before.advance v.rest).1 := hi ▸ rfl
  have hadvance : ∀ x, v.before.advance.wasWritten x = v.before.wasWritten x := by
    intro x
    rw [Scan.wasWritten, Scan.used_advance]
    rfl
  have hoperands := h.flag
  rw [hs] at hoperands ⊢
  obtain ⟨_, -, _, hwalks⟩ := Scan.Walks.readOperands v.env i.opcode fields v.before.advance v.rest
  rw [hdest]
  refine ⟨fun x hx => ?_, fun a ha htemp => ?_⟩
  · exact (hwalks.marksOnly.2 x hx).imp (hadvance x).symm.trans fun h => h.elim id fun hp => by cases hp.2.1
  simp only [sources, hhead] at ha
  rw [List.mem_append] at ha
  rcases ha with ha | ha
  · exact (Scan.wasWritten_of_readArguments hflag a ha htemp).imp_left (hadvance _).symm.trans
  · split at ha
    next hp =>
      rw [List.mem_singleton.mp ha, Scan.file_of_readOperands hp hoperands] at htemp
      cases htemp
    next => cases ha

/-- A unit without a fault lets no register count as written but its destination, and the colour that
the end of the entry point puts out. -/
theorem Does.writesOnly (h : v.Does) (x : Register) (hx : x ≠ ⟨.colorOut, 0⟩)
    (hafter : v.after.wasWritten x = true) :
    v.before.wasWritten x = true ∨ v.Names x := by
  cases h with
  | idle _ _ _ _ _ _ after | rest _ _ _ after =>
    rw [after] at hafter
    exact .inl hafter
  | finish _ _ _ after =>
    rw [after] at hafter
    have hclose := ((Scan.marksOnly_markColor v.env { v.before with ended := true }).trans
      (.of_used (Scan.used_emit _ _))).2 x hafter
    exact .inl (hclose.resolve_right fun hc => hx hc.1)
  | execute i s this h =>
    rw [h.after] at hafter
    have hs := ((Scan.marksOnly_executed v.env s i).2 x hafter).resolve_right (by simp [hx])
    exact (h.initialized.1 x hs).imp_right fun hd => ⟨i, this, hd⟩

theorem sources_of_other (other : v.instruction? = none) : v.sources = [] := by
  unfold instruction? at other
  unfold sources
  split
  next hhead => simp [hhead] at other
  next => rfl

/-- A temporary among the sources of a unit was written before it, or it is its destination. -/
theorem Does.reads (h : v.Does) :
    ∀ a ∈ v.sources, a.register.file = .temp →
      v.before.wasWritten a.register = true ∨ v.Names a.register := by
  intro a ha htemp
  cases h with
  | idle other | rest other | finish other =>
    rw [sources_of_other other] at ha
    cases ha
  | execute i s this h =>
    exact (h.initialized.2 a ha htemp).imp_right fun hd => ⟨i, this, hd⟩

theorem Names.writes_or_kills {r : Register} (h : v.Names r) : v.Writes r ∨ v.Kills r := by
  obtain ⟨i, this, hdest⟩ := h
  by_cases hop : i.opcode = .texKill
  · exact .inr ⟨i, this, hop, hdest⟩
  · exact .inl ⟨i, this, hop, hdest⟩

end Visit

/-! ### Runs -/

theorem Scan.Run.names_of_wasWritten {env : Env} {s t : Scan} {n : Nat} {ws : List Word}
    {vs : List Visit} (r : Scan.Run env s n ws vs t) (does : ∀ v ∈ vs, v.Does) {x : Register}
    (hx : x ≠ ⟨.colorOut, 0⟩) :
    ∀ earlier v later, vs = earlier ++ v :: later → v.before.wasWritten x = true →
      s.wasWritten x = true ∨ ∃ u ∈ earlier, u.Names x := by
  induction r with
  | done => simp
  | cut s n w ws | stop s n w ws =>
    intro earlier v later hvs hwritten
    cases earlier with
    | nil =>
      obtain ⟨rfl, -⟩ := List.cons.inj hvs
      exact .inl hwritten
    | cons => simp at hvs
  | next s n w ws _ _ _ ih =>
    intro earlier v later hvs hwritten
    cases earlier with
    | nil =>
      obtain ⟨rfl, -⟩ := List.cons.inj hvs
      exact .inl hwritten
    | cons u earlier =>
      obtain ⟨rfl, htail⟩ := List.cons.inj hvs
      have hrest := ih (fun v hv => does v (List.mem_cons_of_mem _ hv)) earlier v later htail hwritten
      rcases hrest with hafter | ⟨u, hu, hnames⟩
      · -- the flag went up in the first unit, or was up before it
        have hfirst := (does _ List.mem_cons_self).writesOnly x hx hafter
        exact hfirst.imp_right fun hnames => ⟨_, List.mem_cons_self, hnames⟩
      · exact .inr ⟨u, List.mem_cons_of_mem _ hu, hnames⟩

/-! ### Shaders -/

/-- Every temporary that a unit reads is written by a unit before it. -/
def InitializedBefore (units : List Visit) : Prop :=
  ∀ earlier v later, units = earlier ++ v :: later → ∀ r : Register, r.file = .temp → v.Reads r →
    ∃ u ∈ earlier, u.Writes r

/-- A read that is not looked at closely enough, by a unit after those given. -/
inductive Overlooked (earlier : List Visit) (v : Visit) (r : Register) : Prop
  /-- The register is the destination operand of the unit as well. -/
  | own (h : v.Names r)
  /-- It is a further row of a matrix and no source. -/
  | row (i : Instruction) (this : v.instruction? = some i) (mem : r ∈ i.impliedRows)
      (noSource : ∀ a ∈ v.sources, a.register ≠ r)
  /-- All that came before is a kill that depends on it. -/
  | killed (u : Visit) (mem : u ∈ earlier) (h : u.Kills r)

theorem Scan.wasWritten_start (env : Env) (x : Register) : (Scan.start env).wasWritten x = false := by
  have hused : (Scan.start env).used = .empty := Scan.used_failIf _ _ _
  rw [Scan.wasWritten, hused]
  rfl

theorem names_of_mem_sources {p : Glsl.Profile} {o : Options} {ws : List Word}
    (clean : (liftWords p o ws).errors = []) {earlier later : List Visit} {v : Visit}
    (hunits : unitsOf o ws = earlier ++ v :: later) {a : Source} (mem : a ∈ v.sources)
    (htemp : a.register.file = .temp) :
    (∃ u ∈ earlier, u.Names a.register) ∨ v.Names a.register := by
  have hdoes := does_of_no_errors p o ws clean
  have hv : v ∈ unitsOf o ws := hunits ▸ List.mem_append_cons_self
  rcases (hdoes v hv).reads a mem htemp with hwritten | hnames
  · rcases run_unitsOf o ws with hnone | ⟨w, us, env, -, -, r⟩
    · rw [hnone] at hv
      cases hv
    · have hcolor : a.register ≠ ⟨.colorOut, 0⟩ := by
        intro heq
        rw [heq] at htemp
        cases htemp
      rcases r.names_of_wasWritten hdoes hcolor earlier v later hunits hwritten with hstart | hearlier
      · rw [Scan.wasWritten_start] at hstart
        cases hstart
      · exact .inl hearlier
  · exact .inr hnames

/-- **Temporaries are written before they are read**, if nothing is wrong, unless the read is one of
the three that are overlooked. -/
theorem lift_temporaries_initialized (p : Glsl.Profile) (o : Options) (ws : List Word)
    (clean : (liftWords p o ws).errors = []) :
    ∀ earlier v later, unitsOf o ws = earlier ++ v :: later →
      ∀ r : Register, r.file = .temp → v.Reads r →
        (∃ u ∈ earlier, u.Writes r) ∨ Overlooked earlier v r := by
  intro earlier v later hunits r htemp hreads
  have hsource : ∀ a ∈ v.sources, a.register = r →
      (∃ u ∈ earlier, u.Writes r) ∨ Overlooked earlier v r := by
    rintro a mem rfl
    rcases names_of_mem_sources clean hunits mem htemp with ⟨u, hu, hnames⟩ | hnames
    · rcases hnames.writes_or_kills with hwrites | hkills
      · exact .inl ⟨u, hu, hwrites⟩
      · exact .inr (.killed u hu hkills)
    · exact .inr (.own hnames)
  cases hreads with
  | source a mem eq => exact hsource a mem eq
  | row i this mem =>
    by_cases hsome : ∃ a ∈ v.sources, a.register = r
    · obtain ⟨a, ha, heq⟩ := hsome
      exact hsource a ha heq
    · exact .inr (.row i this mem fun a ha heq => hsome ⟨a, ha, heq⟩)
  | kill h =>
    obtain ⟨i, this, -, hdest⟩ := h
    exact .inr (.own ⟨i, this, hdest⟩)

/-- Code that moves a constant to r0 and r0 to the position. -/
def copyThrough : List Word :=
  [0xFFFE0200,
    0x02000001, 0x800F0000, 0xA0E40000,
    0x02000001, 0xC00F0000, 0x80E40000,
    0xFFFF]

theorem temporaries_initialized_copyThrough :
    (liftWords .glsl110 {} copyThrough).errors = [] ∧
      ∀ earlier v later, unitsOf {} copyThrough = earlier ++ v :: later →
        ∀ r : Register, r.file = .temp → v.Reads r →
          (∃ u ∈ earlier, u.Writes r) ∨ Overlooked earlier v r := by
  have clean : (liftWords .glsl110 {} copyThrough).errors = [] := by decide +kernel
  exact ⟨clean, lift_temporaries_initialized .glsl110 {} copyThrough clean⟩

/-- Code that moves r0 to itself and then to the position, without ever giving it a value. -/
def selfMove : List Word :=
  [0xFFFE0200,
    0x02000001, 0x800F0000, 0x80E40000,
    0x02000001, 0xC00F0000, 0x80E40000,
    0xFFFF]

/-- The destination of an instruction counts as written when its own sources are read. -/
theorem selfMove_uninitialized :
    (liftWords .glsl110 {} selfMove).errors = [] ∧ ¬ InitializedBefore (unitsOf {} selfMove) := by
  refine ⟨by decide +kernel, fun hinit => ?_⟩
  have hreads : (unitsOf {} selfMove).head?.map (fun v => v.sources.map Source.register) =
      some [⟨.temp, 0⟩] := by decide +kernel
  cases hunits : unitsOf {} selfMove with
  | nil => simp [hunits] at hreads
  | cons v later =>
    rw [hunits, List.head?_cons, Option.map_some, Option.some.injEq] at hreads
    have hmem : (⟨.temp, 0⟩ : Register) ∈ v.sources.map Source.register := by simp [hreads]
    obtain ⟨a, ha, heq⟩ := List.mem_map.mp hmem
    obtain ⟨u, hu, -⟩ := hinit [] v later hunits ⟨.temp, 0⟩ rfl (.source a ha heq)
    cases hu

-- a pixel that is given up depending on r0, and then given the colour r0
example : (liftWords .glsl110 {}
    [0xFFFF0200, 0x01000041, 0x800F0000, 0x02000001, 0x800F0800, 0x80E40000, 0xFFFF]).errors = [] := by
  decide +kernel

-- a product with the matrix in r0 to r3, of which only r0 was written
example : (liftWords .glsl110 {}
    [0xFFFE0200, 0x02000001, 0x800F0000, 0xA0E40000, 0x03000014, 0xC00F0000, 0xA0E40000, 0x80E40000,
      0xFFFF]).errors = [] := by
  decide +kernel

end ShaderLift
