/-
What reading knows about arrays of constants, and what a unit does to it.  The `Inventory` of a state
holds the arrays with everything that they are made from.  A unit without a fault has four ways to deal
with it (`Inventory.Turn`):

* it leaves the inventory alone;
* it is the symbol table, of which there is one, and adds the arrays of its ranges;
* it defines a constant, before the first instruction that takes a slot;
* it reads sources.  A relative read of a constant has the defined constants made out as arrays and is
  taken to read the newest array of floats with its register, and its instruction takes a slot.
-/
import ShaderLift.Proofs.Names

namespace ShaderLift

variable {env : Env} {s t : Scan} {n : Nat} {ws : List Word} {vs : List Visit}

/-! ### Inventories -/

/-- What is known about arrays of constants. -/
structure Inventory where
  haveTable : Bool
  symbols : List Symbol
  constants : List Constant
  arrays : List ConstantArray
  grouped : Bool
  slots : Nat

def Scan.inventory (s : Scan) : Inventory :=
  ⟨s.haveTable, s.symbols, s.constants, s.arrays, s.grouped, s.slots⟩

def Source.arrayPlace? (a : Source) : Option Nat := a.relative.bind RelativeIndex.array

/-- Whether a source reads a constant register that it does not name. -/
def Source.IsRelativeConstant (a : Source) : Prop :=
  a.relative.isSome = true ∧ a.register.file = .const

namespace Inventory

def group (k : Inventory) : Inventory :=
  if k.grouped then k
  else { k with grouped := true, arrays := k.arrays ++ ConstantArray.ofConstants k.constants }

def floatArray? (k : Inventory) (number : Nat) : Option Nat :=
  ConstantArray.newest? (fun a => a.kind = .float && a.contains number) k.arrays

def mark (k : Inventory) (place : Nat) : Inventory :=
  { k with arrays := k.arrays.modify place fun a => { a with used := true } }

def define (k : Inventory) (c : Constant) : Inventory :=
  { k with constants := k.constants ++ [c] }

def charge (k : Inventory) (n : Nat) : Inventory := { k with slots := k.slots + n }

def addTable (k : Inventory) (symbols : List Symbol) : Inventory :=
  { k with
    haveTable := true
    symbols := symbols
    arrays := k.arrays ++ Scan.rangeArrays symbols }

inductive Taken (k : Inventory) (a : Source) : Inventory → Prop
  | direct (named : ¬ a.IsRelativeConstant) (unplaced : a.arrayPlace? = none) : Taken k a k
  | relative (place : Nat) (unnamed : a.IsRelativeConstant) (table : k.haveTable = true)
      (found : k.group.floatArray? a.register.number = some place)
      (recorded : a.arrayPlace? = some place) : Taken k a (k.group.mark place)

/-- What reading sources one after the other does. -/
inductive TakenAll : Inventory → List Source → Inventory → Prop
  | nil (k : Inventory) : TakenAll k [] k
  | cons {k k' k'' : Inventory} {a : Source} {as : List Source} (first : Taken k a k')
      (rest : TakenAll k' as k'') : TakenAll k (a :: as) k''

inductive Turn (k : Inventory) : Inventory → Prop
  | keep : Turn k k
  | table (symbols : List Symbol) (first : k.haveTable = false) : Turn k (k.addTable symbols)
  | define (c : Constant) (early : k.slots = 0) : Turn k (k.define c)
  | read (sources : List Source) {k' : Inventory} (taken : TakenAll k sources k') (n : Nat)
      (charged : (∃ a ∈ sources, a.IsRelativeConstant) → 0 < n) : Turn k (k'.charge n)

theorem TakenAll.eq_of_named {k k' : Inventory} {as : List Source} (h : TakenAll k as k')
    (named : ∀ a ∈ as, ¬ a.IsRelativeConstant) : k' = k := by
  induction h with
  | nil => rfl
  | cons first _ ih =>
    obtain ⟨ha, has⟩ := List.forall_mem_cons.mp named
    rw [ih has]
    cases first with
    | direct => rfl
    | relative place unnamed => exact absurd unnamed ha

end Inventory

theorem Opcode.sourceCount_of_free {op : Opcode} (sh : Shader)
    (h : op.info.slots = 0) : op = .label ∨ op.info.shape.sourceCount sh = 0 := by
  cases op with
  | label => exact .inl rfl
  | dcl | defF | defI | defB | reserved => exact .inr rfl
  | _ => cases h

theorem Opcode.slots_of_isDefinition {op : Opcode} (h : op.info.shape.isDefinition = true) :
    op.info.slots = 0 := by
  cases op with
  | defF | defI | defB => rfl
  | _ => cases h

theorem Symbol.value_of_table {payload : List Word} {version : Word}
    (h : (Symbol.table payload version).faults = []) :
    ∃ symbols, (Symbol.table payload version).value = some symbols := by
  unfold Symbol.table at h ⊢
  dsimp only at h ⊢
  split at h
  · cases h
  next hsize =>
    rw [if_neg hsize]
    split
    next symbols hsymbols => exact ⟨symbols, rfl⟩
    next hnone =>
      rw [hnone] at h
      simp at h

namespace Scan

variable {env : Env} {s t : Scan} {ws : List Word} {i : Instruction}
variable {payload : List Word} {symbols : List Symbol}

/-! ### Steps that have nothing to do with arrays -/

@[simp] theorem inventory_fail (s : Scan) (f : Fault) : (s.fail f).inventory = s.inventory := rfl

@[simp] theorem inventory_failIf (s : Scan) (b : Bool) (f : Fault) :
    (s.failIf b f).inventory = s.inventory := by
  cases b <;> rfl

@[simp] theorem inventory_failAll (s : Scan) (fs : List Fault) :
    (s.failAll fs).inventory = s.inventory := by
  rw [failAll_eq]
  rfl

@[simp] theorem inventory_advance (s : Scan) : s.advance.inventory = s.inventory := by
  unfold advance
  split <;> rfl

@[simp] theorem inventory_markUsed (s : Scan) (r : Register) (written : Bool) :
    (s.markUsed r written).inventory = s.inventory := rfl

@[simp] theorem inventory_groupConstants (s : Scan) :
    s.groupConstants.inventory = s.inventory.group := by
  unfold groupConstants Inventory.group
  show _ = if s.grouped = true then _ else _
  split <;> rfl

theorem inventory_checkDest (env : Env) (centroidAllowed : Bool) (d : DestWord) (s : Scan) :
    (checkDest env centroidAllowed d s).inventory = s.inventory := by
  unfold checkDest
  dsimp only
  split <;> simp

theorem inventory_readDest (env : Env) (centroidAllowed : Bool) (s : Scan) (ws : List Word) :
    (readDest env centroidAllowed s ws).2.2.inventory = s.inventory := by
  cases ws with
  | nil => rfl
  | cons w ws =>
    simp only [readDest]
    split <;> simp [inventory_checkDest]

theorem inventory_checkModifier (env : Env) (r : Register) (m : Option SourceModifier) (s : Scan) :
    (checkModifier env r m s).inventory = s.inventory := by
  unfold checkModifier
  split <;> simp

theorem inventory_markRead (s : Scan) (r : Register) : (s.markRead r).inventory = s.inventory := by
  unfold markRead
  split <;> simp

theorem inventory_readIndex (env : Env) (s : Scan) (ws : List Word) :
    (readIndex env s ws).1.array = none ∧ (readIndex env s ws).2.2.inventory = s.inventory := by
  unfold readIndex
  split
  · exact ⟨rfl, rfl⟩
  · split
    · exact ⟨rfl, by simp [checkRelative]⟩
    · exact ⟨rfl, rfl⟩

/-! ### Sources -/

theorem taken_resolveRelative {r : Register} {index : RelativeIndex} (fresh : index.array = none)
    (flag : (resolveRelative env r index s).2.failing = false) {a : Source} (hr : a.register = r)
    (ha : a.relative = some (resolveRelative env r index s).1) :
    s.inventory.Taken a (resolveRelative env r index s).2.inventory := by
  subst hr
  unfold resolveRelative at flag ha ⊢
  split at ha
  next hfile =>
    -- inputs are no arrays of constants
    show s.inventory.Taken a
      (s.failIf (env.isPixel || !env.atLeast 3 0) .relativeInput).inventory
    rw [inventory_failIf]
    refine .direct (fun h => ?_) ?_
    · rw [h.2] at hfile
      cases hfile
    · rw [Source.arrayPlace?, ha]
      exact fresh
  next hfile =>
    rw [hfile] at flag
    dsimp only at flag ha ⊢
    split at ha
    next htable =>
      -- the constants are grouped first, and then one array is marked
      rw [if_pos htable] at flag ⊢
      split at ha
      next place found =>
        have hmark := Inventory.Taken.relative (k := s.inventory) place
          ⟨by rw [ha]; rfl, hfile⟩ htable (inventory_groupConstants s ▸ found)
          (by rw [Source.arrayPlace?, ha]; rfl)
        rw [← inventory_groupConstants] at hmark
        exact hmark
      next hnone => simp [hnone, fail] at flag
    next htable => simp [htable, fail] at flag
  next hinput hconst =>
    refine .direct (fun h => hconst h.2) ?_
    rw [Source.arrayPlace?, ha]
    exact fresh

theorem taken_readRelative {k : Inventory} {r : Register} (hs : s.inventory = k)
    (flag : (readRelative env r s ws).2.2.failing = false) {a : Source} (hr : a.register = r)
    (ha : a.relative = some (readRelative env r s ws).1) :
    k.Taken a (readRelative env r s ws).2.2.inventory := by
  have hindex := inventory_readIndex env
    (s.failIf (env.isPixel && !env.atLeast 3 0) .relativePixel) ws
  have htaken := taken_resolveRelative (s := (readIndex env
    (s.failIf (env.isPixel && !env.atLeast 3 0) .relativePixel) ws).2.2) hindex.1 flag hr ha
  rw [hindex.2, inventory_failIf, hs] at htaken
  exact htaken

theorem taken_readSource (flag : (readSource env s ws).2.2.failing = false) :
    s.inventory.Taken (readSource env s ws).1 (readSource env s ws).2.2.inventory := by
  cases ws with
  | nil => simp [readSource, fail] at flag
  | cons w ws =>
    simp only [readSource] at flag ⊢
    split
    next hrelative =>
      rw [if_pos hrelative] at flag
      dsimp only at flag ⊢
      rw [inventory_markRead, inventory_checkModifier]
      -- after the index only the modifier and the read itself are looked at
      have hindex := ((Fetches.checkModifier .refl env _ _).markRead _).records.flag flag
      exact taken_readRelative (by simp) hindex rfl rfl
    next =>
      rw [inventory_markRead, inventory_checkModifier]
      simp only [inventory_failIf, inventory_advance]
      exact .direct (fun h => absurd h.1 Bool.false_ne_true) rfl

theorem taken_readSources {n : Nat} (flag : (readSources env s n ws).2.2.failing = false) :
    s.inventory.TakenAll (readSources env s n ws).1 (readSources env s n ws).2.2.inventory := by
  induction n generalizing s ws with
  | zero => exact .nil _
  | succ n ih =>
    have hfirst : (readSource env s ws).2.2.failing = false :=
      (Fetches.readSources .refl env n _).records.flag flag
    exact .cons (taken_readSource hfirst) (ih flag)

theorem inventory_readPredicate (flag : (readPredicate env s ws).failing = false) :
    (readPredicate env s ws).inventory = s.inventory := by
  have hfile := file_of_readPredicate flag
  have hsource := (fetches_readPredicate env _ ws).records.flag flag
  have hread : (readPredicate env s ws).inventory = (readSource env s ws).2.2.inventory := by
    unfold readPredicate
    dsimp only
    split
    · rfl
    · simp only [inventory_failIf]
  rw [hread]
  have htaken := taken_readSource hsource
  generalize (readSource env s ws).2.2.inventory = k at htaken ⊢
  cases htaken with
  | direct => rfl
  | relative place unnamed =>
    have hconst := unnamed.2
    rw [hfile] at hconst
    cases hconst

/-! ### Operands -/

theorem taken_readDestSources {n : Nat} (flag : (readDestSources env s n ws).2.2.failing = false) :
    s.inventory.TakenAll (readDestSources env s n ws).1.sources
      (readDestSources env s n ws).2.2.inventory := by
  have hsources := taken_readSources (s := (readDest env false s ws).2.2) flag
  rw [inventory_readDest] at hsources
  exact hsources

theorem taken_readDefinition (env : Env) (kind : ConstantKind) (s : Scan) (ws : List Word) :
    s.inventory.TakenAll (readDefinition env kind s ws).1.sources
      (readDefinition env kind s ws).2.2.inventory := by
  simp only [readDefinition, inventory_failIf, inventory_readDest]
  exact .nil _

theorem taken_readDeclaration (env : Env) (s : Scan) (ws : List Word) :
    s.inventory.TakenAll (readDeclaration env s ws).1.sources
      (readDeclaration env s ws).2.2.inventory := by
  unfold readDeclaration
  dsimp only
  split
  · simp only [inventory_failIf, inventory_failAll, inventory_readDest, inventory_advance]
    exact .nil _
  · simp only [inventory_fail, inventory_failIf, inventory_readDest, inventory_advance]
    exact .nil _

theorem taken_readArguments {shape : Shape}
    (flag : (readArguments env shape s ws).2.2.2.failing = false) :
    s.inventory.TakenAll (readArguments env shape s ws).1.sources
      (readArguments env shape s ws).2.2.2.inventory := by
  have hread := reader_readArguments env shape
  generalize readArguments env shape = read at hread flag ⊢
  cases hread with
  | sources n => exact taken_readSources flag
  | dest n => exact taken_readDestSources flag
  | define kind => exact taken_readDefinition env kind s ws
  | declare => exact taken_readDeclaration env s ws

theorem taken_readOperands {op : Opcode} {w : InstructionWord}
    (flag : (readOperands env op w s ws).2.2.failing = false) :
    s.inventory.TakenAll (readOperands env op w s ws).1.sources
      (readOperands env op w s ws).2.2.inventory := by
  simp only [readOperands] at flag ⊢
  split at flag
  next hp =>
    rw [if_pos hp]
    dsimp only
    rw [inventory_readPredicate flag]
    exact taken_readArguments ((Fetches.readPredicate .refl env _).records.flag flag)
  next hp =>
    rw [if_neg hp]
    exact taken_readArguments flag

/-! ### Consequences -/

def Charges (s t : Scan) : Prop := ∃ n, t.inventory = s.inventory.charge n

theorem Charges.of_eq (h : t.inventory = s.inventory) : Charges s t := ⟨0, h⟩

theorem charges_account (env : Env) (s : Scan) (i : Instruction)
    (h : i.opcode.info.shape.isDefinition = false) : Charges s (account env s i) := by
  have hdoes := Consequence.of_account env s i
  generalize account env s i = t at hdoes ⊢
  cases hdoes with
  | define op => rcases op with e | e | e <;> rw [e] at h <;> cases h
  | charge _ n | compare _ n => exact ⟨n, rfl⟩
  | _ => exact .of_eq rfl

theorem inventory_define {kind : ConstantKind} (legal : defineFaults s i kind = []) :
    s.inventory.slots = 0 ∧ (s.define i kind).inventory =
      s.inventory.define ⟨kind, i.dest.register.number, i.literals⟩ := by
  have hempty : (defineFaults s i kind).isEmpty = true := by rw [legal]; rfl
  refine ⟨((defineFaults_isEmpty_iff i kind).mp hempty).1, ?_⟩
  rw [define, if_pos hempty]
  rfl

theorem inventory_account_of_definition (h : i.opcode.info.shape.isDefinition = true)
    (legal : violations env s i = []) :
    s.inventory.slots = 0 ∧ ∃ c, (account env s i).inventory = s.inventory.define c := by
  unfold violations at legal
  unfold account
  cases e : i.opcode with
  | defF | defI | defB =>
    rw [e] at legal
    exact ⟨(inventory_define legal).1, _, (inventory_define legal).2⟩
  | _ =>
    rw [e] at h
    cases h

theorem inventory_close (env : Env) (s : Scan) : (s.close env).inventory = s.inventory := by
  rw [close_eq env s]
  rfl

theorem inventory_executed (sound : (codeOf env s i).faults = []) :
    (executed env s i).inventory = (account env s i).inventory.charge i.opcode.info.slots := by
  rw [executed_eq sound]
  rfl

/-! ### Comments -/

theorem readTable_of_some (first : s.haveTable = false)
    (hvalue : (Symbol.table payload env.versionWord).value = some symbols) :
    s.readTable env payload = { s.failAll (Symbol.table payload env.versionWord).faults with
      haveTable := true
      symbols := symbols
      arrays := s.arrays ++ rangeArrays symbols } := by
  unfold readTable
  rw [first, if_neg Bool.false_ne_true]
  dsimp only
  rw [hvalue, absorb, failAll_eq]
  rfl

theorem readTable_of_none (first : s.haveTable = false)
    (hvalue : (Symbol.table payload env.versionWord).value = none) :
    s.readTable env payload =
      { s.failAll (Symbol.table payload env.versionWord).faults with haveTable := true } := by
  unfold readTable
  rw [first, if_neg Bool.false_ne_true]
  dsimp only
  rw [hvalue, absorb]

theorem readTable_eq (first : s.haveTable = false)
    (hfaults : (Symbol.table payload env.versionWord).faults = [])
    (hvalue : (Symbol.table payload env.versionWord).value = some symbols) :
    s.readTable env payload = { s with
      haveTable := true
      symbols := symbols
      arrays := s.arrays ++ rangeArrays symbols } := by
  rw [readTable_of_some first hvalue, hfaults]
  rfl

theorem first_of_readTable (clean : (s.readTable env payload).faults = []) :
    s.haveTable = false ∧ (Symbol.table payload env.versionWord).faults = [] := by
  unfold readTable at clean
  split at clean
  · simp [fail] at clean
  next hfirst =>
    refine ⟨Bool.eq_false_iff.mpr hfirst, ?_⟩
    have habsorb : (s.failAll (Symbol.table payload env.versionWord).faults).faults = [] := by
      dsimp only at clean
      split at clean <;> exact clean
    exact eq_nil_of_faults_failAll habsorb

theorem Effect.turn {t : Scan} {head : UnitHead} (h : Effect env s ws head t) (unmarked : head ≠ .finish)
    (other : ∀ op w, head ≠ .instruction op w) (clean : t.faults = []) : s.inventory.Turn t.inventory := by
  have hfaults : ∀ fs, s.inventory.Turn (s.failAll fs).inventory := by
    intro fs
    rw [inventory_failAll]
    exact .keep
  cases h with
  | faults fs => exact hfaults fs
  | preshader fs p => exact hfaults fs
  | table fs first unread =>
    obtain ⟨symbols, hvalue⟩ :=
      Symbol.value_of_table (List.append_eq_nil_iff.mp (eq_nil_of_faults_failAll (s := s) clean)).2
    rw [unread] at hvalue
    cases hvalue
  | symbols fs symbols first =>
    rw [failAll_eq]
    exact .table symbols first
  | close => exact absurd rfl unmarked
  | execute => exact absurd rfl (other _ _)

end Scan

/-! ### Units -/

namespace Visit

variable {v : Visit} {i : Instruction} {s : Scan}

theorem Executes.taken (h : v.Executes i s) : v.before.inventory.TakenAll i.sources s.inventory := by
  obtain ⟨fields, -, hi, hs⟩ := h.fetched
  have hflag := h.flag
  rw [hs] at hflag ⊢
  have htaken := Scan.taken_readOperands hflag
  rw [← hi, Scan.inventory_advance] at htaken
  exact htaken

theorem Executes.slots_pos (h : v.Executes i s) {a : Source}
    (ha : a ∈ i.sources) (hother : a.register.file ≠ .label) : 0 < i.opcode.info.slots := by
  have hlength := h.fetchedArguments.length
  rw [Nat.pos_iff_ne_zero]
  intro hzero
  rcases Opcode.sourceCount_of_free v.env.toShader hzero with hlabel | hnone
  · -- what a label names is a label
    have hlegal := h.legal
    unfold Scan.violations at hlegal
    rw [hlabel] at hlegal hlength
    have hfaults := (List.append_eq_nil_iff.mp hlegal).2
    have hfile := faultIf_eq_nil (List.append_eq_nil_iff.mp (List.append_eq_nil_iff.mp hfaults).1).1
    obtain ⟨b, hb⟩ := List.length_eq_one_iff.mp hlength
    rw [hb, List.mem_singleton] at ha
    have hsource : i.source 0 = a := by rw [Instruction.source, hb, ha]; rfl
    rw [hsource] at hfile
    simp [hother] at hfile
  · rw [hnone, List.length_eq_zero_iff] at hlength
    rw [hlength] at ha
    cases ha

theorem Executes.inventory_after (h : v.Executes i s) :
    (i.opcode.info.shape.isDefinition = true ∧ s.inventory.slots = 0 ∧
        ∃ c, v.after.inventory = s.inventory.define c) ∨
      (i.opcode.info.shape.isDefinition = false ∧
        ∃ n, v.after.inventory = s.inventory.charge (n + i.opcode.info.slots)) := by
  rw [h.after, Scan.inventory_executed h.sound]
  cases hdefinition : i.opcode.info.shape.isDefinition with
  | true =>
    obtain ⟨hearly, c, hc⟩ := Scan.inventory_account_of_definition hdefinition h.legal
    refine .inl ⟨rfl, hearly, c, ?_⟩
    rw [hc, Opcode.slots_of_isDefinition hdefinition]
    rfl
  | false =>
    obtain ⟨n, hn⟩ := Scan.charges_account v.env s i hdefinition
    refine .inr ⟨rfl, n, ?_⟩
    rw [hn]
    unfold Inventory.charge
    rw [Nat.add_assoc]

theorem Executes.slots_after (h : v.Executes i s) (hslots : 0 < i.opcode.info.slots) :
    0 < v.after.slots := by
  rcases h.inventory_after with ⟨hdefinition, -⟩ | ⟨-, n, hn⟩
  · rw [Opcode.slots_of_isDefinition hdefinition] at hslots
    cases hslots
  · have hafter : v.after.slots = s.slots + (n + i.opcode.info.slots) := congrArg Inventory.slots hn
    omega

theorem Executes.turn (h : v.Executes i s) :
    v.before.inventory.Turn v.after.inventory := by
  rcases h.inventory_after with ⟨hdefinition, hearly, c, hc⟩ | ⟨-, n, hn⟩
  · -- a definition has no sources
    have hnone : i.sources = [] := by
      have hlength := h.fetchedArguments.length
      cases hshape : i.opcode.info.shape with
      | defineFloat | defineInt | defineBool =>
        rw [hshape] at hlength
        exact List.length_eq_zero_iff.mp hlength
      | _ =>
        rw [hshape] at hdefinition
        cases hdefinition
    have hsame : s.inventory = v.before.inventory :=
      h.taken.eq_of_named (by rw [hnone]; exact fun a ha => absurd ha List.not_mem_nil)
    rw [hc, hsame]
    exact .define c (hsame ▸ hearly)
  · rw [hn]
    refine .read i.sources h.taken _ ?_
    rintro ⟨a, ha, hconst⟩
    refine Nat.add_pos_right n (h.slots_pos ha ?_)
    rw [hconst.2]
    decide

theorem turn_of_clean (v : Visit) (flag : v.before.failing = false) (clean : v.after.faults = []) :
    v.before.inventory.Turn v.after.inventory := by
  replace flag : v.after.failing = false := (v.records.failing_eq clean).trans flag
  cases hhead : UnitHead.ofWord v.word with
  | finish =>
    cases does_of_endMark hhead flag with
    | idle other unmarked => exact absurd ((Scan.ofWord_eq_finish_iff _).mp hhead) unmarked
    | rest other mark closed after =>
      rw [after]
      exact .keep
    | finish other mark opened after =>
      rw [after, Scan.inventory_close]
      exact .keep
    | execute i s this => simp [instruction?, hhead] at this
  | instruction op fields =>
    cases does_of_instruction hhead flag clean with
    | execute i s this h => exact h.turn
    | idle other | rest other | finish other => simp [instruction?, hhead] at other
  | comment | phase | unknown =>
    have heffect := Scan.effect_readUnit v.env v.before v.word v.rest
    rw [Scan.noteEnd, if_neg (word_ne_endMark hhead (by simp))] at heffect
    exact heffect.turn (by simp [hhead]) (by simp [hhead]) clean

end Visit

/-! ### Runs -/

abbrev Inventory.Turns : Inventory → Inventory → Prop := Relation.ReflTransGen Inventory.Turn

theorem Inventory.Turns.preserves {P : Inventory → Prop} (step : ∀ {k k'}, Turn k k' → P k → P k')
    {k k' : Inventory} (h : Turns k k') (hk : P k) : P k' := by
  induction h with
  | refl => exact hk
  | tail _ hturn ih => exact step hturn ih

theorem Scan.Run.env_eq (r : Scan.Run env s n ws vs t) : ∀ v ∈ vs, v.env = env := by
  induction r with
  | done => exact fun v hv => absurd hv List.not_mem_nil
  | cut | stop => exact List.forall_mem_singleton.mpr rfl
  | next _ _ _ _ _ _ _ ih => exact List.forall_mem_cons.mpr ⟨rfl, ih⟩

theorem Scan.run_of_clean {us : List Word} (clean : (ofUnits env us).faults = []) :
    ∃ t, Run env { position := .before } 1 us (visits env (start env) 1 us) t ∧
      ofUnits env us = t.moveTo .after ∧ t.faults = [] := by
  have hrun := run_readUnits env (start env) 1 us
  have hfinish := (finish_of_flag (flag_of_clean clean)).1
  rw [start_of_clean clean] at hrun hfinish
  have hend : ofUnits env us = (readUnits env { position := .before } 1 us).moveTo .after := by
    rw [ofUnits, start_of_clean clean]
    exact hfinish
  refine ⟨_, ?_, hend, ?_⟩
  · rw [start_of_clean clean]
    exact hrun
  · rw [hend] at clean
    exact clean

theorem Scan.Run.does (r : Scan.Run env s n ws vs t) (clean : t.faults = []) : ∀ v ∈ vs, v.Does := by
  intro v hv
  exact v.does_of_clean (r.cleared v hv) (r.faults_after clean v hv)

theorem Scan.bound_ofUnits {us : List Word} (clean : (ofUnits env us).faults = []) :
    Bound env (ofUnits env us) := by
  obtain ⟨t, hrun, hend, hclean⟩ := run_of_clean clean
  have hstart : Bound env { position := .before } :=
    ⟨fun c hc => absurd hc List.not_mem_nil, fun q hq => absurd hq List.not_mem_nil,
      fun r hr => absurd hr List.not_mem_nil⟩
  rw [hend]
  exact (hrun.bound (hrun.does hclean) hstart).of_grows { Grows.refl _ with } rfl rfl rfl

theorem Scan.Run.turns (r : Scan.Run env s n ws vs t) (clean : t.faults = []) :
    s.inventory.Turns t.inventory ∧ ∀ v ∈ vs, s.inventory.Turns v.before.inventory ∧
      v.after.inventory.Turns t.inventory := by
  have hclean := r.faults_after clean
  induction r with
  | done s n => exact ⟨.refl, fun v hv => absurd hv List.not_mem_nil⟩
  | cut s n w ws => simp [cutOff, fail] at clean
  | stop s n w ws =>
    have hturn := (visit env s n w ws).turn_of_clean rfl clean
    exact ⟨.single hturn, List.forall_mem_singleton.mpr ⟨.refl, .refl⟩⟩
  | next s n w ws _ _ _ ih =>
    obtain ⟨hfirst, hrest⟩ := List.forall_mem_cons.mp hclean
    have hturn : s.inventory.Turn (visit env s n w ws).after.inventory :=
      (visit env s n w ws).turn_of_clean rfl hfirst
    obtain ⟨hall, hlater⟩ := ih clean hrest
    refine ⟨.head hturn hall, List.forall_mem_cons.mpr ⟨⟨.refl, hall⟩, fun v hv => ?_⟩⟩
    exact ⟨.head hturn (hlater v hv).1, (hlater v hv).2⟩

end ShaderLift
