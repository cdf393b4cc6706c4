/-
What a translation comes to.  After the last unit the declarations are made one by one, and each of them
is put out, takes its place and may turn out to be wrong.  All of them together give the interface of the
shader, its faults and the declarations of `Glsl.program`.  So lifting a shader is reading and linking it
first and writing its program then (`liftWords_eq`).  That is how the other modules see it.
-/
import ShaderLift.Proofs.Linking
import ShaderLift.Proofs.Translations

namespace ShaderLift

open Glsl

/-! ### Text of declarations -/

namespace Glsl.Buffer

/-- With more declarations, and more at the start of the entry point. -/
def extended (b : Buffer) (globals intro : String) : Buffer :=
  { b with
    text := fun
      | .globals => b.text .globals ++ globals
      | .intro => b.text .intro ++ intro
      | s => b.text s }

theorem extended_extended (b : Buffer) (g i g' i' : String) :
    (b.extended g i).extended g' i' = b.extended (g ++ g') (i ++ i') := by
  unfold extended
  congr 1
  funext s
  cases s <;> first | rfl | exact String.append_assoc

theorem extended_empty (b : Buffer) : b.extended "" "" = b := by
  have htext : (b.extended "" "").text = b.text := by
    funext s
    cases s <;> first | rfl | exact String.append_empty
  exact congrArg (fun text => { b with text }) htext

theorem redirect_globals (b : Buffer) (steps : List Layout) :
    b.redirect .globals steps = b.extended (Layout.run steps 0).1 "" := by
  have htext : (b.redirect .globals steps).text = (b.extended (Layout.run steps 0).1 "").text := by
    funext s
    cases s <;> first | rfl | exact String.append_empty.symm
  exact congrArg (fun text => { b with text }) htext

theorem redirect_intro (b : Buffer) (steps : List Layout) :
    b.redirect .intro steps = b.extended "" (Layout.run steps 0).1 := by
  have htext : (b.redirect .intro steps).text = (b.extended "" (Layout.run steps 0).1).text := by
    funext s
    cases s <;> first | rfl | exact String.append_empty.symm
  exact congrArg (fun text => { b with text }) htext

end Glsl.Buffer

namespace Task

variable (k : Task)

def declText (ds : List Decl) : String := unlines (ds.flatMap (Decl.lines k.profile k.shader))

def localText (xs : List Local) : String := (Layout.run (Layout.lines (xs.map (Local.line k.shader))) 1).1

theorem declText_append (a b : List Decl) : k.declText (a ++ b) = k.declText a ++ k.declText b := by
  rw [declText, List.flatMap_append, unlines_append]
  rfl

theorem localText_append (a b : List Local) : k.localText (a ++ b) = k.localText a ++ k.localText b := by
  have hlevel : ∀ ls : List String, (Layout.run (Layout.lines ls) 1).2 = 1 := by
    intro ls
    induction ls with
    | nil => rfl
    | cons l ls ih => exact ih
  rw [localText, List.map_append, Layout.lines, List.map_append, Layout.run_append]
  show _ ++ (Layout.run _ (Layout.run (Layout.lines (a.map _)) 1).2).1 = _
  rw [hlevel]
  rfl

end Task

/-- With more faults, and with the given meanings. -/
def Scan.judged (s : Scan) (fs : List Fault) (attributes : RegisterTable Attribute) : Scan :=
  { s.failAll fs with attributes }

theorem Scan.judged_eq (s : Scan) (fs : List Fault) (a : RegisterTable Attribute) :
    s.judged fs a = { s with
      failing := s.failing || !fs.isEmpty
      faults := s.faults ++ fs.map fun f => ⟨s.position, f⟩
      attributes := a } := by
  rw [judged, failAll_eq]

theorem Scan.failAll_judged (s : Scan) (fs gs : List Fault) (a : RegisterTable Attribute) :
    (s.judged fs a).failAll gs = s.judged (fs ++ gs) a := by
  rw [failAll_eq, judged_eq, judged_eq]
  cases fs <;> simp

theorem Scan.judged_judged (s : Scan) (fs gs : List Fault) (a b : RegisterTable Attribute) :
    (s.judged fs a).judged gs b = s.judged (fs ++ gs) b := by
  rw [judged, failAll_judged]
  rfl

theorem Scan.usedArrays_judged (s : Scan) (fs : List Fault) (a : RegisterTable Attribute) :
    Interface.usedArrays (s.judged fs a) = Interface.usedArrays s := by
  rw [judged_eq]
  unfold Interface.usedArrays groupConstants
  dsimp only
  split <;> rfl

theorem Scan.samplers_judged (s : Scan) (fs : List Fault) (a : RegisterTable Attribute) :
    (s.judged fs a).samplers = s.samplers := by
  rw [judged_eq]

theorem Scan.used_judged (s : Scan) (fs : List Fault) (a : RegisterTable Attribute) :
    (s.judged fs a).used = s.used := by
  rw [judged_eq]

theorem Scan.judged_nil (s : Scan) : s.judged [] s.attributes = s := rfl

namespace Declaring

variable (k : Task) (d : Declaring)

theorem output_declare (ds : List Decl) : (d.declare k ds).output = d.output.extended (k.declText ds) "" := by
  rw [declare, Buffer.redirect_globals, Task.declLayout, Layout.run_lines]
  rfl

theorem declare_eq (ds : List Decl) :
    d.declare k ds = { d with output := d.output.extended (k.declText ds) "" } := by
  rw [← output_declare]
  rfl

/-! ### Registers -/

theorem impliedAttribute?_of_isVariable (sh : Shader) {r : Register} (h : Interface.isVariable r = true) :
    Interface.constantKind? r = none ∧ Interface.impliedAttribute? sh r = none := by
  unfold Interface.isVariable at h
  unfold Interface.constantKind? Interface.impliedAttribute?
  cases hfile : r.file <;> rw [hfile] at h <;> first | exact ⟨rfl, rfl⟩ | cases h

theorem impliedAttribute?_of_constantKind? (sh : Shader) {r : Register} {kind : ConstantKind}
    (h : Interface.constantKind? r = some kind) : Interface.impliedAttribute? sh r = none := by
  unfold Interface.constantKind? at h
  unfold Interface.impliedAttribute?
  cases hfile : r.file <;> rw [hfile] at h <;> first | rfl | cases h

theorem addRegister_eq (r : Register) :
    d.addRegister k r = { d with
      scan := d.scan.judged (Interface.registerFaults k.shader r)
        (Interface.imply k.shader d.scan.attributes r)
      output := d.output.extended (k.declText (([r].filter Interface.isVariable).flatMap
        (variableDecls k.shader))) ""
      interface := { d.interface with globals := d.interface.globals ++ [r].filter Interface.isVariable }
      unplaced := d.unplaced ++ [r].filterMap fun r =>
        (Interface.constantKind? r).map fun kind => (kind, r.number) } := by
  unfold addRegister Interface.registerFaults Interface.imply
  cases hvariable : Interface.isVariable r with
  | true =>
    obtain ⟨hkind, hattribute⟩ := impliedAttribute?_of_isVariable k.shader hvariable
    simp [hvariable, hkind, hattribute, declare_eq, faultIf, Scan.judged_nil]
  | false =>
    cases hkind : Interface.constantKind? r with
    | some kind =>
      have hattribute := impliedAttribute?_of_constantKind? k.shader hkind
      simp [hvariable, hkind, hattribute, faultIf, Scan.judged_nil, Task.declText, unlines,
        Buffer.extended_empty]
    | none =>
      cases hattribute : Interface.impliedAttribute? k.shader r with
      | some a =>
        simp [hvariable, hkind, faultIf, Task.declText, unlines, Buffer.extended_empty]
        rfl
      | none =>
        simp [hvariable, hkind, faultIf, Task.declText, unlines, Buffer.extended_empty, fail]
        rfl

theorem foldl_addRegister (rs : List Register) :
    rs.foldl (addRegister k) d = { d with
      scan := d.scan.judged (rs.flatMap (Interface.registerFaults k.shader))
        (rs.foldl (Interface.imply k.shader) d.scan.attributes)
      output := d.output.extended (k.declText ((rs.filter Interface.isVariable).flatMap
        (variableDecls k.shader))) ""
      interface := { d.interface with globals := d.interface.globals ++ rs.filter Interface.isVariable }
      unplaced := d.unplaced ++ rs.filterMap fun r =>
        (Interface.constantKind? r).map fun kind => (kind, r.number) } := by
  induction rs generalizing d with
  | nil => simp [Scan.judged_nil, Task.declText, unlines, Buffer.extended_empty]
  | cons r rs ih =>
    have hsplit : r :: rs = [r] ++ rs := rfl
    rw [List.foldl_cons, ih, addRegister_eq, hsplit, List.filter_append, List.filterMap_append,
      List.flatMap_append, List.flatMap_append, k.declText_append]
    simp [Buffer.extended_extended, Scan.judged_judged]
    rfl

theorem faults_addAll_of_any {rs : List Register} (h : rs.any (Interface.needsDeclaration k.shader) = true) :
    (addAll k d rs).scan.faults =
      d.scan.faults ++ (Interface.undeclaredFaults k.shader rs).map fun f => ⟨d.scan.position, f⟩ := by
  induction rs generalizing d with
  | nil => cases h
  | cons r rs ih =>
    unfold addAll Interface.undeclaredFaults
    split
    · rfl
    next hr =>
      have hlater : rs.any (Interface.needsDeclaration k.shader) = true := by
        simpa [hr] using h
      rw [ih _ hlater, addRegister_eq, Scan.judged_eq]
      simp

theorem addAll_of_not_any {rs : List Register} (h : rs.any (Interface.needsDeclaration k.shader) = false) :
    addAll k d rs = (rs.foldl (addRegister k) d).addRest k ∧
      Interface.undeclaredFaults k.shader rs = rs.flatMap (Interface.registerFaults k.shader) := by
  induction rs generalizing d with
  | nil => exact ⟨rfl, rfl⟩
  | cons r rs ih =>
    obtain ⟨hr, hlater⟩ := Bool.or_eq_false_iff.mp h
    unfold addAll Interface.undeclaredFaults
    rw [hr, List.flatMap_cons, (ih d hlater).2]
    exact ⟨(ih _ hlater).1, rfl⟩

/-! ### Constants, samplers, inputs and outputs -/

theorem foldl_addArray (as : List ConstantArray) :
    as.foldl (addArray k) d = { d with
      output := d.output.extended (k.declText ((Interface.placeArrays d.interface.slots.float as).1.map
        arrayDecl)) ""
      interface := { d.interface with
        arrays := d.interface.arrays ++ (Interface.placeArrays d.interface.slots.float as).1
        slots := { d.interface.slots with
          float := (Interface.placeArrays d.interface.slots.float as).2 } } } := by
  induction as generalizing d with
  | nil => simp [Interface.placeArrays, Task.declText, unlines, Buffer.extended_empty]
  | cons a as ih =>
    rw [List.foldl_cons, ih, addArray, declare_eq]
    cases ha : a.isLiteral <;>
      simp [Interface.placeArrays, ha, Slots.add, Buffer.extended_extended, Task.declText, unlines_append]

theorem foldl_addConstant (cs : List (ConstantKind × Nat)) :
    cs.foldl (addConstant k) d = { d with
      output := d.output.extended (k.declText
        ((Interface.placeConstants d.interface.arrays d.interface.slots cs).1.map .constant)) ""
      interface := { d.interface with
        constants := d.interface.constants
          ++ (Interface.placeConstants d.interface.arrays d.interface.slots cs).1
        slots := (Interface.placeConstants d.interface.arrays d.interface.slots cs).2 } } := by
  induction cs generalizing d with
  | nil => simp [Interface.placeConstants, Task.declText, unlines, Buffer.extended_empty]
  | cons c cs ih =>
    obtain ⟨kind, number⟩ := c
    rw [List.foldl_cons, ih]
    cases ha : Interface.arrayOf? d.interface.arrays kind number <;>
      simp [addConstant, declare_eq, Interface.placeConstants, ha, Buffer.extended_extended, Task.declText,
        unlines_append]

theorem foldl_addSampler (es : List (Register × SamplerUse)) :
    es.foldl (addSampler k) d = { d with
      scan := d.scan.failAll (es.flatMap Interface.samplerFaults)
      output := d.output.extended (k.declText
        ((Interface.placeSamplers d.interface.slots es).1.flatMap samplerDecls)) ""
      interface := { d.interface with
        samplers := d.interface.samplers ++ (Interface.placeSamplers d.interface.slots es).1
        slots := (Interface.placeSamplers d.interface.slots es).2 } } := by
  induction es generalizing d with
  | nil => simp [Interface.placeSamplers, Task.declText, unlines, Buffer.extended_empty, Scan.failAll]
  | cons e es ih =>
    rw [List.foldl_cons, ih, addSampler, declare_eq]
    simp [Interface.placeSamplers, fail, Buffer.extended_extended, Task.declText, unlines_append,
      Scan.failAll_failAll]

theorem foldl_declareLocal (xs : List Local) :
    xs.foldl (declareLocal k) d = { d with output := d.output.extended "" (k.localText xs) } := by
  induction xs generalizing d with
  | nil => exact congrArg (fun output => { d with output }) d.output.extended_empty.symm
  | cons x xs ih =>
    have hsplit : x :: xs = [x] ++ xs := rfl
    rw [List.foldl_cons, ih, declareLocal, Buffer.redirect_intro, hsplit, k.localText_append]
    exact congrArg (fun output => { d with output }) (Buffer.extended_extended _ _ _ _ _)

theorem foldl_addAttribute (many : Bool) (es : List (Register × Attribute)) :
    es.foldl (addAttribute k many) d = { d with
      scan := d.scan.failAll (es.flatMap (Interface.attributeFaults k.shader))
      output := d.output.extended
        (k.declText (es.flatMap fun e => attributeDecls k.shader many e.1 e.2))
        (k.localText (es.flatMap fun e => attributeLocals k.shader e.1)) } := by
  induction es generalizing d with
  | nil =>
    exact congrArg (fun output => { d with output }) d.output.extended_empty.symm
  | cons e es ih =>
    rw [List.foldl_cons, ih, addAttribute, foldl_declareLocal, declare_eq]
    simp [fail, Buffer.extended_extended, k.declText_append, k.localText_append, Scan.failAll_failAll]

/-! ### All declarations -/

/-- What the declarations are that are made after the last unit. -/
def decls (sh : Shader) (i : Interface) : List Decl :=
  i.globals.flatMap (variableDecls sh) ++ i.arrays.map arrayDecl ++ i.constants.map .constant
    ++ i.samplers.flatMap samplerDecls ++ i.attributes.flatMap fun e => attributeDecls sh i.manyColors e.1 e.2

/-- What is wrong with them if none hides another. -/
def found (sh : Shader) (s : Scan) : List Fault :=
  Interface.undeclaredFaults sh (Interface.undeclared s) ++ s.samplers.entries.flatMap Interface.samplerFaults
    ++ (Interface.attributesOf sh s).entries.flatMap (Interface.attributeFaults sh)

theorem addAll_eq (t : Translation)
    (h : (Interface.undeclared t.scan).any (Interface.needsDeclaration k.shader) = false) :
    addAll k { toTranslation := t } (Interface.undeclared t.scan) = {
      scan := t.scan.judged (found k.shader t.scan) (Interface.attributesOf k.shader t.scan)
      output := t.output.extended (k.declText (decls k.shader (Interface.ofScan k.shader t.scan)))
        (k.localText ((Interface.ofScan k.shader t.scan).attributes.flatMap fun e =>
          attributeLocals k.shader e.1))
      interface := Interface.ofScan k.shader t.scan
      unplaced := (Interface.undeclared t.scan).filterMap fun r =>
        (Interface.constantKind? r).map fun kind => (kind, r.number) } := by
  obtain ⟨hall, hfaults⟩ := addAll_of_not_any k { toTranslation := t } h
  rw [hall, foldl_addRegister, addRest]
  simp only [foldl_addArray, foldl_addConstant, foldl_addSampler, foldl_addAttribute, Scan.usedArrays_judged,
    Buffer.extended_extended, String.append_empty, String.empty_append, List.nil_append, Scan.failAll_judged,
    Scan.samplers_judged, Scan.used_judged]
  rw [found, hfaults, decls]
  simp only [Task.declText_append]
  rfl

theorem undeclaredFaults_ne_nil {sh : Shader} {rs : List Register}
    (h : rs.any (Interface.needsDeclaration sh) = true) : Interface.undeclaredFaults sh rs ≠ [] := by
  induction rs with
  | nil => cases h
  | cons r rs ih =>
    unfold Interface.undeclaredFaults
    split
    · exact List.cons_ne_nil _ _
    next hr => exact List.append_ne_nil_of_right_ne_nil _ (ih (by simpa [hr] using h))

theorem faults_interface (sh : Shader) (s : Scan) :
    Interface.faults sh s =
      if (Interface.undeclared s).any (Interface.needsDeclaration sh) then
        Interface.undeclaredFaults sh (Interface.undeclared s)
      else if (found sh s).isEmpty then faultIf s.relativeInput .relativeInputUnsupported
      else found sh s := by
  unfold Interface.faults found
  dsimp only
  split
  next h => rw [if_neg (by simpa using undeclaredFaults_ne_nil h)]
  next => rfl

variable {k d} {t : Translation}

theorem faults_ofTranslation (clean : t.scan.faults = []) (after : t.scan.position = .after) :
    (ofTranslation k t).scan.faults = (Interface.faults k.shader t.scan).map fun f => ⟨.after, f⟩ := by
  unfold ofTranslation
  rw [faults_interface]
  cases hany : (Interface.undeclared t.scan).any (Interface.needsDeclaration k.shader) with
  | true =>
    have hfaults := faults_addAll_of_any k { toTranslation := t } hany
    rw [clean, after, List.nil_append] at hfaults
    rw [if_pos rfl, ← hfaults, if_neg]
    rw [hfaults]
    simpa using undeclaredFaults_ne_nil hany
  | false =>
    rw [if_neg Bool.false_ne_true, addAll_eq k t hany, Scan.judged_eq, clean, after]
    cases hfound : found k.shader t.scan with
    | cons f fs => rfl
    | nil =>
      unfold finish
      cases t.scan.relativeInput <;> simp [fail, Scan.failAll, Scan.fail, faultIf]

/-- The sections with the declarations of an interface. -/
def sections (k : Task) (t : Translation) (i : Interface) : Buffer :=
  ((t.output.extended (k.declText (decls k.shader i))
      (k.localText (i.attributes.flatMap fun e => attributeLocals k.shader e.1))).redirect
    .globals [.blank]).redirect .preface (sizeLayout k.options k.shader t.scan.helpers i.slots)

theorem ofTranslation_eq (clean : t.scan.faults = []) (fit : Interface.faults k.shader t.scan = []) :
    (ofTranslation k t).interface = Interface.ofScan k.shader t.scan ∧
      (ofTranslation k t).scan = t.scan.judged [] (Interface.attributesOf k.shader t.scan) ∧
      (ofTranslation k t).output = sections k t (Interface.ofScan k.shader t.scan) := by
  rw [faults_interface] at fit
  cases hany : (Interface.undeclared t.scan).any (Interface.needsDeclaration k.shader) with
  | true =>
    rw [hany] at fit
    exact absurd fit (undeclaredFaults_ne_nil hany)
  | false =>
    rw [hany, if_neg Bool.false_ne_true] at fit
    cases hfound : found k.shader t.scan with
    | cons f fs =>
      rw [hfound] at fit
      cases fit
    | nil =>
      rw [hfound] at fit
      have hrelative : t.scan.relativeInput = false := by
        cases h : t.scan.relativeInput with
        | false => rfl
        | true =>
          rw [h] at fit
          cases fit
      unfold ofTranslation
      rw [addAll_eq k t hany, hfound]
      unfold finish sections
      simp [Scan.judged_eq, clean, hrelative]

end Declaring

/-! ### The end of the entry point -/

namespace Scan

variable {env : Env} {s : Scan} {i : Instruction}

theorem invariant_mem_code (env : Env) (c : Stmt) : Invariant env fun s => c ∈ s.code where
  move h hs := by
    cases h with
    | fetch h => cases h <;> exact hs
    | write => exact List.mem_append_left _ hs
    | _ => exact hs
  startUnit _ hs := hs
  ended hs := hs
  cutOff hs := hs

theorem closeFunction_mem_close (env : Env) (s : Scan) : .closeFunction ∈ (s.close env).code := by
  rw [close_eq, code_closeCode]
  simp

theorem closeFunction_mem_execute (hret : i.opcode = .ret) (flag : (execute env s i).failing = false) :
    .closeFunction ∈ (execute env s i).code := by
  have hdown : ((judge env s i).charge i.opcode.info.slots).failing = false :=
    (moves_judge_execute env s i).records.flag flag
  unfold execute generate
  dsimp only
  rw [if_neg (Bool.eq_false_iff.mp hdown), if_pos hret]
  exact closeFunction_mem_close env _

/-- If the last instruction was a return, or the end mark was read, a function was closed. -/
def Closed (s : Scan) : Prop := s.previous = some .ret ∨ s.ended = true → .closeFunction ∈ s.code

theorem closed_after {v : Visit} (flag : v.after.failing = false) (h : v.before.Closed) : v.after.Closed := by
  intro hafter
  by_cases hbefore : .closeFunction ∈ v.before.code
  · exact (invariant_mem_code v.env .closeFunction).after v rfl hbefore
  · have hprevious : v.before.previous ≠ some .ret := fun hret => hbefore (h (.inl hret))
    have hended : v.before.ended ≠ true := fun hend => hbefore (h (.inr hend))
    by_cases hmark : v.word = Word.endMark
    · -- no return comes right before the end mark, so it closes a function itself
      have hhead := (ofWord_eq_finish_iff v.word).mpr hmark
      unfold Visit.after readUnit at flag ⊢
      rw [hhead] at flag ⊢
      dsimp only at flag ⊢
      split at flag
      next hstays =>
        rw [flag, Bool.false_or, failIf_eq, failAll_eq] at hstays
        exact absurd (of_decide_eq_true hstays) hprevious
      next hcloses =>
        rw [if_neg hcloses]
        exact closeFunction_mem_close v.env _
    · -- then a return must have come, and it closes a function
      rw [v.ended_after, Bool.eq_false_iff.mpr hended, beq_false_of_ne hmark] at hafter
      have hret := hafter.resolve_right Bool.false_ne_true
      have heffect := effect_readUnit v.env v.before v.word v.rest
      rw [noteEnd, if_neg hmark] at heffect
      change Effect _ _ _ _ v.after at heffect
      generalize hhead : UnitHead.ofWord v.word = head, v.after = u at heffect flag hret ⊢
      cases heffect with
      | execute known =>
        have hflag := (Fetches.failAll .refl _).records.flag flag
        rw [failAll_eq] at hret ⊢
        exact closeFunction_mem_execute (Option.some.inj hret) hflag
      | close => exact absurd ((ofWord_eq_finish_iff v.word).mp hhead) hmark
      | _ =>
        rw [failAll_eq] at hret
        exact absurd hret hprevious

theorem closeFunction_mem_of_ofUnits {ws : List Word} (clean : (ofUnits env ws).faults = []) :
    .closeFunction ∈ (ofUnits env ws).code := by
  have hread := readUnits_of_ofUnits clean
  have hrun := run_readUnits env (start env) 1 ws
  have hflags := ((hrun.faults_eq_nil_iff (start_flag env)).mp hread).2.1
  have hstart : (start env).Closed := by
    unfold start Closed
    rw [failIf_eq, failAll_eq]
    simp
  have hclosed : (readUnits env (start env) 1 ws).Closed :=
    hrun.preserves (P := Closed) (Q := fun v => v.after.failing = false) (fun _ _ h => h)
      (fun _ h => h) (fun _ _ _ flag h => closed_after flag h) hflags hstart
  exact (invariant_mem_code env .closeFunction).moves (moves_finish env _)
    (hclosed (.inr (ended_of_ofUnits clean)))

end Scan

theorem Scan.Run.foldl_after {env : Env} {s t : Scan} {n : Nat} {ws : List Word} {vs : List Visit}
    (r : Run env s n ws vs t) (clean : t.faults = []) : vs.foldl (fun _ v => v.after) s = t := by
  induction r with
  | done | stop => rfl
  | cut => simp [cutOff, fail] at clean
  | next _ _ _ _ _ _ _ ih => exact ih clean

/-! ### Results -/

section Results

variable (k : Task) (ws : List Word)

def Task.units : List Visit := Scan.visits k.env (Scan.start k.env) 1 ws

theorem Translation.follows_afterUnits {done rest : List Visit} (h : k.units ws = done ++ rest) :
    (afterUnits k done).Follows (done.foldl (fun _ v => v.after) (Scan.start k.env)) :=
  (follows_start k).visits (Scan.run_readUnits k.env _ 1 ws) h

/-- Two translations that have read the same and go on in the same section. -/
structure Translation.InStep (t t' : Translation) : Prop where
  scan : t.scan = t'.scan
  current : t.output.current = t'.output.current
  stack : t.output.stack = t'.output.stack

theorem Translation.inStep_afterUnits {k k' : Task} (henv : k.env = k'.env) {done rest : List Visit}
    (h : k.units ws = done ++ rest) : (afterUnits k done).InStep (afterUnits k' done) := by
  have hfirst := follows_afterUnits k ws h
  have hsecond := follows_afterUnits k' ws (by rw [← h, Task.units, Task.units, henv])
  rw [← henv] at hsecond
  exact ⟨hfirst.scan.trans hsecond.scan.symm, hfirst.current.trans hsecond.current.symm,
    hfirst.stack.trans hsecond.stack.symm⟩

theorem Translation.ofUnits_eq :
    ofUnits k ws = ⟨Scan.ofUnits k.env ws, (afterUnits k (k.units ws)).output⟩ := by
  rw [ofUnits, readUnits_eq (Scan.run_readUnits k.env _ 1 ws) (follows_start k)]
  rfl

theorem Translation.scan_ofUnits : (ofUnits k ws).scan = Scan.ofUnits k.env ws := by
  rw [ofUnits_eq]

variable {k ws}

theorem Translation.written_afterUnits (clean : (Scan.ofUnits k.env ws).faults = []) {done rest : List Visit}
    (h : k.units ws = done ++ rest) : (afterUnits k done).Written k (afterUnits k done).scan.constants := by
  have hrun : Scan.Run k.env (Scan.start k.env) 1 ws (k.units ws) _ := Scan.run_readUnits k.env _ 1 ws
  obtain ⟨hstart, hflags, -⟩ :=
    (hrun.faults_eq_nil_iff (Scan.start_flag k.env)).mp (Scan.readUnits_of_ofUnits clean)
  have hflag : (Scan.start k.env).failing = false :=
    Bool.eq_false_iff.mpr fun hup => Scan.start_flag k.env hup hstart
  have hnone : (Scan.start k.env).constants = [] := by
    rw [Scan.start, Scan.failIf_eq, Scan.failAll_eq]
  rw [(follows_afterUnits k ws h).scan]
  exact (hnone ▸ written_start hflag : (start k).Written k (Scan.start k.env).constants).visits hrun hflags
    (follows_start k) h

theorem Translation.written_ofUnits (clean : (Scan.ofUnits k.env ws).faults = []) :
    (ofUnits k ws).Written k (Scan.ofUnits k.env ws).constants := by
  have hread := Scan.readUnits_of_ofUnits clean
  have hrun : Scan.Run k.env (Scan.start k.env) 1 ws (k.units ws) _ := Scan.run_readUnits k.env _ 1 ws
  have hfollows := follows_afterUnits k ws (List.append_nil _).symm
  rw [hrun.foldl_after hread] at hfollows
  have hquiet : (afterUnits k (k.units ws)).scan.Quiet (Scan.ofUnits k.env ws) := by
    rw [hfollows.scan]
    exact (Scan.fetches_finish k.env _).quiet
  rw [ofUnits_eq]
  exact (written_afterUnits clean (List.append_nil _).symm).moveOn hquiet

theorem Task.run_head_snd (k : Task) (hs : List Helper) : (Layout.run (k.head hs) 0).2 = 0 := by
  unfold head
  split <;> simp [Layout.run_append, Layout.run_lines, Layout.run]

section Sections

variable {t : Translation} (h : t.Written k t.scan.constants) {l : LinkedShader} (henv : l.env = k.env)
  (hscan : l.scan = t.scan)
include h henv hscan

theorem Translation.Written.text_preface :
    (Declaring.sections k t l.interface).text .preface =
      (Layout.run (Glsl.preface k.profile k.options l) 0).1 := by
  unfold Glsl.preface
  rw [henv, hscan]
  show t.output.text .preface ++ _ = (Layout.run (k.head t.scan.helpers ++ _) 0).1
  rw [Layout.run_append, k.run_head_snd, h.preface]
  rfl

theorem Translation.Written.text_globals :
    (Declaring.sections k t l.interface).text .globals = (Layout.run (Glsl.globals k.profile l) 0).1 := by
  have hsh : l.env.toShader = k.shader := by
    rw [henv]
    rfl
  have hall : declarations l = t.scan.constants.map .literal ++ Declaring.decls k.shader l.interface := by
    unfold declarations Declaring.decls
    rw [hsh, hscan]
    simp only [List.append_assoc]
  unfold Glsl.globals
  rw [hall, hsh, Layout.run_append, Layout.run_lines]
  show t.output.text .globals ++ _ ++ _ = _
  rw [h.globals, Task.declLayout, Layout.run_lines]
  exact congrArg (· ++ _) (k.declText_append _ _).symm

theorem Translation.Written.joined_eq_program (hclosed : .closeFunction ∈ t.scan.code) :
    (Declaring.sections k t l.interface).joined = program k.profile k.options l := by
  have hsh : l.env.toShader = k.shader := by
    rw [henv]
    rfl
  have hfunctions : k.functions t.scan.code = bodies k.options k.shader t.scan.code := if_pos hclosed
  have hintro : (Layout.run (Glsl.intro k.options l) 0).1 = t.output.text .intro
      ++ k.localText (l.interface.attributes.flatMap fun e => attributeLocals k.shader e.1) := by
    unfold Glsl.intro localDeclarations
    rw [hsh, h.intro, Layout.run_append]
    rfl
  unfold program
  rw [← h.text_preface henv hscan, ← h.text_globals henv hscan, hintro, hsh, hscan, ← hfunctions, ← h.helpers]
  dsimp only
  rw [← h.main, ← h.subroutines]
  rfl

end Sections

theorem Task.lifted_eq : k.lifted ws =
    if (Scan.ofUnits k.env ws).faults ≠ [] then .failed k.profile k.options (Scan.ofUnits k.env ws).faults
    else if Interface.faults k.shader (Scan.ofUnits k.env ws) ≠ [] then
      .failed k.profile k.options
        ((Interface.faults k.shader (Scan.ofUnits k.env ws)).map fun f => ⟨.after, f⟩)
    else (LinkedShader.ofUnits k.env ws).lifted k.profile k.options := by
  have hscan := Translation.scan_ofUnits k ws
  have hafter : (Scan.ofUnits k.env ws).position = .after := by
    rw [Scan.ofUnits, Scan.finish, Scan.failIf_eq, Scan.failIf_eq, Scan.failAll_eq, Scan.failAll_eq]
    rfl
  unfold Task.lifted
  dsimp only
  rw [hscan]
  by_cases good : (Scan.ofUnits k.env ws).faults = []
  · have hfaults := Declaring.faults_ofTranslation (k := k) (hscan ▸ good) (hscan ▸ hafter)
    rw [hscan] at hfaults
    rw [hfaults]
    by_cases fit : Interface.faults k.shader (Scan.ofUnits k.env ws) = []
    · obtain ⟨hinterface, hjudged, houtput⟩ :=
        Declaring.ofTranslation_eq (k := k) (hscan ▸ good) (hscan.symm ▸ fit)
      have hwritten := hscan.symm ▸ Translation.written_ofUnits good
      have hprogram := Translation.Written.joined_eq_program (l := LinkedShader.ofUnits k.env ws) hwritten
        rfl hscan.symm (hscan.symm ▸ Scan.closeFunction_mem_of_ofUnits good)
      rw [hscan] at hinterface hjudged houtput
      simp only [good, fit, List.isEmpty_nil, List.map_nil, Bool.not_true, Bool.false_eq_true, if_false,
        ne_eq,
        not_true_eq_false]
      rw [hinterface, hjudged, houtput]
      exact congrArg (LinkedShader.liftedAs k.profile k.options (LinkedShader.ofUnits k.env ws)) hprogram
    · simp [good, fit]
  · simp [good]

end Results

theorem Task.exists_of_ofWord? (p : Profile) {o : Options} {w : Word} {env : Env}
    (h : Env.ofWord? o w = some env) :
    ∃ k, Task.ofWord? p o w = some k ∧ k.env = env ∧ k.profile = p ∧ k.options = o := by
  obtain ⟨sh, hsh, rfl⟩ := Option.map_eq_some_iff.mp h
  exact ⟨⟨p, o, sh, w⟩, by rw [Task.ofWord?, hsh]; rfl, rfl, rfl, rfl⟩

theorem Task.units_of_ofWord? {p : Profile} {o : Options} {w : Word} {k : Task}
    (h : Task.ofWord? p o w = some k) (us : List Word) : unitsOf o (w :: us) = k.units us := by
  obtain ⟨sh, hsh, rfl⟩ := Option.map_eq_some_iff.mp h
  have hversion : Env.ofWord? o w = some (Task.env ⟨p, o, sh, w⟩) := by
    rw [Env.ofWord?, hsh]
    rfl
  exact unitsOf_cons o hversion

/-- Between any two units of a shader the translations for both dialects and wishes are in step. -/
def StayInStep (p q : Profile) (o o' : Options) (ws : List Word) : Prop :=
  ∀ w us k k', ws = w :: us → Task.ofWord? p o w = some k → Task.ofWord? q o' w = some k' →
    ∀ done rest, unitsOf o ws = done ++ rest →
      (Translation.afterUnits k done).InStep (Translation.afterUnits k' done)

theorem stayInStep {o o' : Options} (halike : ∀ w, Env.ofWord? o w = Env.ofWord? o' w) (p q : Profile)
    (ws : List Word) : StayInStep p q o o' ws := by
  rintro w us k k' rfl hk hk' done rest hunits
  have henv : k.env = k'.env := by
    obtain ⟨sh, hsh, rfl⟩ := Option.map_eq_some_iff.mp hk
    obtain ⟨sh', hsh', rfl⟩ := Option.map_eq_some_iff.mp hk'
    have hsame := halike w
    unfold Env.ofWord? at hsame
    rw [hsh] at hsame hsh'
    cases hsh'
    exact Option.some.inj hsame
  rw [Task.units_of_ofWord? hk] at hunits
  exact Translation.inStep_afterUnits us henv hunits

/-- **Lifting is reading, linking and writing**, one after the other. -/
theorem liftWords_eq (p : Profile) (o : Options) (ws : List Word) :
    liftWords p o ws =
      match linkShader o ws with
      | .error faults => .failed p o faults
      | .ok l => l.lifted p o := by
  have hlink := linking_linkShader o ws
  generalize linkShader o ws = outcome at hlink ⊢
  cases hlink with
  | noVersion => rfl
  | notAShader other =>
    rw [liftWords, Task.ofWord?, Option.map_eq_none_iff.mp other]
    rfl
  | badUnits version bad =>
    obtain ⟨k, hk, rfl, rfl, rfl⟩ := Task.exists_of_ofWord? p version
    rw [liftWords, hk]
    exact Task.lifted_eq.trans (if_pos bad)
  | badInterface version good bad =>
    obtain ⟨k, hk, rfl, rfl, rfl⟩ := Task.exists_of_ofWord? p version
    rw [liftWords, hk]
    exact Task.lifted_eq.trans ((if_neg (not_not.mpr good)).trans (if_pos bad))
  | linked version good fit =>
    obtain ⟨k, hk, rfl, rfl, rfl⟩ := Task.exists_of_ofWord? p version
    rw [liftWords, hk]
    exact Task.lifted_eq.trans ((if_neg (not_not.mpr good)).trans (if_neg (not_not.mpr fit)))

end ShaderLift
