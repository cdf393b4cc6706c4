/-
Arrays are made out of the constants defined only when a relative read asks for them, or at the end if
none does.  It makes no difference when: the arrays of a shader without a fault are the ranges of its
symbol table followed by those of all the constants that it defines.  For nothing is made out before there
is a symbol table, there is only one of those, and what asks for arrays takes a slot, after which no
constant is defined any more (`Inventory.Discovered`).
-/
import Mathlib.Data.List.Nodup
import ShaderLift.Proofs.Grouping
import ShaderLift.Proofs.Inventory
import ShaderLift.Proofs.Origins
import ShaderLift.Proofs.Places

namespace ShaderLift

variable {env : Env} {l : LinkedShader} {us : List Word} {a : ConstantArray}

/-! ### The invariant -/

def ConstantArray.unread (a : ConstantArray) : ConstantArray := { a with used := false }

namespace ConstantArray

theorem map_unread_eq_self {as : List ConstantArray} (h : ∀ a ∈ as, a.used = false) :
    as.map unread = as := by
  have hsame : ∀ a ∈ as, a.unread = a := by
    intro a ha
    show { a with used := false } = a
    rw [← h a ha]
  exact (List.map_congr_left hsame).trans (List.map_id as)

theorem map_unread_modify (as : List ConstantArray) (place : Nat) :
    (as.modify place fun a => { a with used := true }).map unread = as.map unread := by
  induction as generalizing place with
  | nil => rw [List.modify_nil]
  | cons a as ih =>
    cases place with
    | zero => rfl
    | succ place => exact congrArg (a.unread :: ·) (ih place)

end ConstantArray

namespace Inventory

variable {k k' : Inventory}
variable {as : List Source}

/-- What the arrays are, while sources are read. -/
structure Listed (k : Inventory) : Prop where
  /-- Nothing is made out before there is a symbol table. -/
  unseen : k.haveTable = false → k.symbols = [] ∧ k.arrays = [] ∧ k.grouped = false
  arrays : k.arrays.map ConstantArray.unread = Scan.rangeArrays k.symbols ++
    if k.grouped then ConstantArray.ofConstants k.constants else []

/-- What the arrays are between two units. -/
structure Discovered (k : Inventory) : Prop extends Listed k where
  /-- Something that takes a slot had the constants made out. -/
  late : k.grouped = true → 0 < k.slots

theorem arrays_group (h : k.Listed) :
    k.group.arrays.map ConstantArray.unread =
      Scan.rangeArrays k.symbols ++ ConstantArray.ofConstants k.constants := by
  have harrays := h.arrays
  unfold group
  split
  next hgrouped => rwa [if_pos hgrouped] at harrays
  next hgrouped =>
    rw [if_neg hgrouped, List.append_nil] at harrays
    show (k.arrays ++ _).map _ = _
    rw [List.map_append, harrays,
      ConstantArray.map_unread_eq_self fun _ => ConstantArray.used_ofConstants]

theorem group_fields (k : Inventory) :
    k.group.haveTable = k.haveTable ∧ k.group.symbols = k.symbols ∧
      k.group.constants = k.constants ∧ k.group.grouped = true ∧ k.group.slots = k.slots := by
  unfold group
  split
  next hgrouped => exact ⟨rfl, rfl, rfl, hgrouped, rfl⟩
  next => exact ⟨rfl, rfl, rfl, rfl, rfl⟩

theorem Taken.listed {a : Source} (h : Taken k a k') (hk : k.Listed) : k'.Listed := by
  cases h with
  | direct => exact hk
  | relative place unnamed table found recorded =>
    obtain ⟨htable, hsymbols, hconstants, hgrouped, -⟩ := k.group_fields
    refine ⟨fun hunseen => ?_, ?_⟩
    · have hfalse : k.haveTable = false := htable.symm.trans hunseen
      rw [table] at hfalse
      cases hfalse
    · show (k.group.arrays.modify place _).map _ = Scan.rangeArrays k.group.symbols ++
        if k.group.grouped then ConstantArray.ofConstants k.group.constants else []
      rw [ConstantArray.map_unread_modify, arrays_group hk, hsymbols, hconstants, hgrouped, if_pos rfl]

theorem TakenAll.listed (h : TakenAll k as k') (hk : k.Listed) : k'.Listed := by
  induction h with
  | nil => exact hk
  | cons first _ ih => exact ih (first.listed hk)

theorem TakenAll.slots_eq (h : TakenAll k as k') : k'.slots = k.slots := by
  induction h with
  | nil => rfl
  | cons first _ ih =>
    rw [ih]
    cases first with
    | direct => rfl
    | relative => exact (Inventory.group_fields _).2.2.2.2

theorem TakenAll.grouped (h : TakenAll k as k') (hgrouped : k'.grouped = true) :
    k.grouped = true ∨ ∃ a ∈ as, a.IsRelativeConstant := by
  induction h with
  | nil => exact .inl hgrouped
  | cons first _ ih =>
    cases first with
    | direct =>
      refine (ih hgrouped).imp_right ?_
      rintro ⟨a, ha, hconst⟩
      exact ⟨a, List.mem_cons_of_mem _ ha, hconst⟩
    | relative place unnamed => exact .inr ⟨_, List.mem_cons_self, unnamed⟩

theorem Turn.discovered (h : Turn k k') (hk : k.Discovered) : k'.Discovered := by
  cases h with
  | keep => exact hk
  | table symbols first =>
    obtain ⟨-, harrays, hgrouped⟩ := hk.unseen first
    refine ⟨⟨fun hunseen => (by cases hunseen), ?_⟩, hk.late⟩
    show (k.arrays ++ Scan.rangeArrays symbols).map _ = Scan.rangeArrays symbols ++
      if k.grouped then _ else []
    rw [harrays, hgrouped, List.nil_append, if_neg Bool.false_ne_true, List.append_nil]
    exact ConstantArray.map_unread_eq_self fun _ => Scan.used_rangeArrays
  | define c early =>
    -- nothing was made out yet, so no array is missing the new constant
    have hgrouped : k.grouped = false := by
      cases hg : k.grouped with
      | false => rfl
      | true => exact absurd early (Nat.ne_of_gt (hk.late hg))
    refine ⟨⟨hk.unseen, ?_⟩, hk.late⟩
    have harrays := hk.arrays
    rw [hgrouped] at harrays
    show k.arrays.map _ = Scan.rangeArrays k.symbols ++ if k.grouped then _ else []
    rw [hgrouped]
    exact harrays
  | @read sources k' taken n charged =>
    have hlisted := taken.listed hk.toListed
    refine ⟨⟨hlisted.unseen, hlisted.arrays⟩, fun hgrouped => ?_⟩
    show 0 < k'.slots + n
    rw [taken.slots_eq]
    rcases taken.grouped hgrouped with hbefore | hsource
    · exact Nat.add_pos_left (hk.late hbefore) n
    · exact Nat.add_pos_right _ (charged hsource)

end Inventory

/-! ### Arrays of a shader -/

theorem Inventory.discovered_start : (Scan.inventory { position := .before }).Discovered :=
  ⟨⟨fun _ => ⟨rfl, rfl, rfl⟩, rfl⟩, fun h => by cases h⟩

theorem Scan.discovered_ofUnits (clean : (ofUnits env us).faults = []) :
    (ofUnits env us).inventory.Discovered := by
  obtain ⟨t, hrun, hend, hclean⟩ := run_of_clean clean
  rw [hend]
  exact Inventory.Turns.preserves Inventory.Turn.discovered (hrun.turns hclean).1
    Inventory.discovered_start

/-- The arrays of a shader without a fault: the ranges of its symbol table, then those of its
constants. -/
theorem Scan.arrays_ofUnits (clean : (ofUnits env us).faults = []) :
    (ofUnits env us).groupConstants.arrays.map ConstantArray.unread =
      rangeArrays (ofUnits env us).symbols ++
        ConstantArray.ofConstants (ofUnits env us).constants := by
  have harrays := Inventory.arrays_group (discovered_ofUnits clean).toListed
  rw [← inventory_groupConstants] at harrays
  exact harrays

/-! ### Arrays of literals -/

namespace Interface

variable {as : List ConstantArray} {p : PlacedArray}

theorem isLiteral_of_placeArrays {slot : Nat} (h : p ∈ (placeArrays slot as).1) :
    p.slot = none ↔ p.array.isLiteral = true := by
  induction as generalizing slot with
  | nil => cases h
  | cons a as ih =>
    unfold placeArrays at h
    split at h
    next hliteral =>
      rcases List.mem_cons.mp h with rfl | h
      · exact ⟨fun _ => hliteral, fun _ => rfl⟩
      · exact ih h
    next hhost =>
      rcases List.mem_cons.mp h with rfl | h
      · exact ⟨fun hslot => (by cases hslot), fun hliteral => absurd hliteral hhost⟩
      · exact ih h

theorem mem_usedArrays_of_placeArrays {slot : Nat} (h : p ∈ (placeArrays slot as).1) :
    p.array ∈ as := by
  rw [← map_array_placeArrays slot as]
  exact List.mem_map_of_mem h

end Interface

theorem Scan.unread_mem_ofConstants (clean : (ofUnits env us).faults = [])
    (ha : a ∈ Interface.usedArrays (ofUnits env us)) (hliteral : a.isLiteral = true) :
    a.unread ∈ ConstantArray.ofConstants (ofUnits env us).constants := by
  have hmem := (List.mem_filter.mp (List.mem_reverse.mp ha)).1
  have hunread := List.mem_map_of_mem (f := ConstantArray.unread) hmem
  rw [arrays_ofUnits clean] at hunread
  refine (List.mem_append.mp hunread).resolve_left fun hrange => ?_
  -- the host provides the ranges, so they have no literals
  obtain ⟨range, -, hrange⟩ := List.mem_map.mp hrange
  have hnone : a.constants = [] := (congrArg ConstantArray.constants hrange).symm
  rw [ConstantArray.isLiteral, hnone] at hliteral
  cases hliteral

namespace Glsl

def elementTexts (a : ConstantArray) : List String := a.constants.map literalText

def literalsLine (sh : Shader) (base : Nat) (texts : List String) : String :=
  let count := toString texts.length
  let size := "[" ++ count ++ "]"
  "const vec4 " ++ sh.shortName ++ "_const_array_" ++ toString base ++ "_" ++ count ++ size
    ++ " = vec4" ++ size ++ "(" ++ ", ".intercalate texts ++ ");"

def constantLine (sh : Shader) (number : Nat) (text : String) : String :=
  "const vec4 " ++ sh.shortName ++ "_c" ++ toString number ++ " = " ++ text ++ ";"

theorem name_const (sh : Shader) (number : Nat) :
    (Register.mk .const number).name sh = sh.shortName ++ "_c" ++ toString number := by
  have hname : (Register.mk .const number).name sh =
      sh.shortName ++ "_" ++ ("c" ++ toString number) := rfl
  have hletter : sh.shortName ++ "_c" ++ toString number =
      sh.shortName ++ ("_" ++ "c") ++ toString number := rfl
  rw [hname, hletter]
  simp only [String.append_assoc]

theorem lines_literal {p : Profile} {sh : Shader} {c : Constant} (hkind : c.kind = .float) :
    Decl.lines p sh (.literal c) = [constantLine sh c.index (literalText c)] := by
  rw [Decl.lines, hkind]
  show ["const vec4 " ++ (Register.mk .const c.index).name sh ++ " = " ++ literalText c ++ ";"] = _
  rw [name_const]
  unfold constantLine
  simp only [String.append_assoc]

theorem lines_literalArray {p : Profile} (hp : p.hasArrayConstants = true) (sh : Shader)
    {a : ConstantArray} (hrun : a.unread.IsRun) (hkinds : ∀ c ∈ a.constants, c.kind = .float) :
    Decl.lines p sh (.literalArray a) = [literalsLine sh a.index (elementTexts a)] := by
  have htexts : (a.constants.map fun c => vectorText "vec4" (c.singles.map Single.literal)) =
      elementTexts a := by
    refine List.map_congr_left fun c hc => ?_
    rw [literalText, hkinds c hc]
  have hcount : a.count = (elementTexts a).length :=
    hrun.count.trans (List.length_map _).symm
  have hstring : ∀ text : String, toString text = text := fun _ => rfl
  show [literalArrayLine p sh a] = _
  unfold literalArrayLine literalsLine
  rw [if_pos hp, htexts, hcount]
  simp only [Ident.text, hstring, String.append_assoc]

end Glsl

open Glsl (Profile HasLine elementTexts literalsLine constantLine literalText)

/-- An array of literals and the single constants have the same values. -/
structure LiteralsAgree (sh : Shader) (constants : List Constant) (text : String)
    (a : ConstantArray) : Prop where
  count : (elementTexts a).length = a.count
  array : HasLine text (literalsLine sh a.index (elementTexts a))
  /-- Every element is declared with the same text as a constant of its register. -/
  element : ∀ k value, (elementTexts a)[k]? = some value →
    HasLine text (constantLine sh (a.index + k) value)
  /-- If no register is defined twice, no other text is declared for it. -/
  unique : ((Constant.floats constants).map Constant.index).Nodup → ∀ c ∈ constants,
    c.kind = .float → ∀ k < a.count, c.index = a.index + k →
      (elementTexts a)[k]? = some (literalText c)

theorem mem_arrays_of_origin {d : Glsl.Decl} (h : d ∈ Glsl.declarations l) (hd : d.origin = .array) :
    ∃ q ∈ l.interface.arrays, Glsl.arrayDecl q = d := by
  have h := Glsl.mem_declarationsOf h
  rw [hd] at h
  exact List.mem_map.mp h

theorem arrayDecl_mem_declarations {q : PlacedArray} (h : q ∈ l.interface.arrays) :
    Glsl.arrayDecl q ∈ Glsl.declarations l :=
  Glsl.mem_declarations .array (List.mem_map_of_mem h)

theorem literalArray_mem_declarations (env : Env) (us : List Word) (a : ConstantArray) :
    .literalArray a ∈ Glsl.declarations (.ofUnits env us) ↔
      a ∈ Interface.usedArrays (Scan.ofUnits env us) ∧ a.isLiteral = true := by
  constructor
  · intro h
    obtain ⟨q, hq, hdecl⟩ := mem_arrays_of_origin h rfl
    unfold Glsl.arrayDecl at hdecl
    split at hdecl
    · cases hdecl
    next hslot =>
      cases hdecl
      exact ⟨Interface.mem_usedArrays_of_placeArrays hq,
        (Interface.isLiteral_of_placeArrays hq).mp hslot⟩
  · rintro ⟨ha, hliteral⟩
    rw [← Interface.map_array_placeArrays 0 (Interface.usedArrays (Scan.ofUnits env us))] at ha
    obtain ⟨q, hq, rfl⟩ := List.mem_map.mp ha
    have hdecl : Glsl.arrayDecl q = .literalArray q.array := by
      rw [Glsl.arrayDecl, (Interface.isLiteral_of_placeArrays hq).mpr hliteral]
    exact hdecl ▸ arrayDecl_mem_declarations hq

/-- The elements of an array of literals are float constants of the shader, at consecutive registers. -/
theorem mem_floats_of_literalArray (clean : (Scan.ofUnits env us).faults = [])
    (ha : .literalArray a ∈ Glsl.declarations (.ofUnits env us)) :
    a.unread.IsRun ∧ ∀ c ∈ a.constants, c ∈ Constant.floats (Scan.ofUnits env us).constants := by
  obtain ⟨hused, hliteral⟩ := (literalArray_mem_declarations env us a).mp ha
  have hmade := Scan.unread_mem_ofConstants clean hused hliteral
  refine ⟨ConstantArray.isRun_of_mem hmade, fun c hc => ?_⟩
  have hsorted := Constant.stablySorted_inOrder (Constant.floats (Scan.ofUnits env us).constants)
  rw [← hsorted.perm.mem_iff, ← ConstantArray.flatMap_constants]
  exact List.mem_flatMap.mpr ⟨_, hmade, hc⟩

theorem hasLine_constantLine (p : Profile) (o : Options) {c : Constant}
    (hc : c ∈ Constant.floats l.scan.constants) :
    HasLine (Glsl.program p o l) (constantLine l.env.toShader c.index (literalText c)) := by
  obtain ⟨hmem, hkind⟩ := List.mem_filter.mp hc
  have hconstant : Glsl.Decl.literal c ∈ Glsl.declarations l := by
    unfold Glsl.declarations
    simp only [List.mem_append]
    exact .inl (.inl (.inl (.inl (.inl (List.mem_map_of_mem hmem)))))
  apply Glsl.hasLine_program_of_declaration
  refine List.mem_flatMap.mpr ⟨_, hconstant, ?_⟩
  rw [Glsl.lines_literal (of_decide_eq_true hkind)]
  exact List.mem_cons_self

theorem literalsAgree_ofUnits {p : Profile} (o : Options) (hp : p.hasArrayConstants = true)
    (clean : (Scan.ofUnits env us).faults = [])
    (ha : .literalArray a ∈ Glsl.declarations (.ofUnits env us)) :
    LiteralsAgree env.toShader (Scan.ofUnits env us).constants
      (Glsl.program p o (.ofUnits env us)) a := by
  obtain ⟨hrun, hfloats⟩ := mem_floats_of_literalArray clean ha
  have hkinds : ∀ c ∈ a.constants, c.kind = .float := fun c hc =>
    of_decide_eq_true (List.mem_filter.mp (hfloats c hc)).2
  have hcount : (elementTexts a).length = a.count :=
    (List.length_map _).trans hrun.count.symm
  refine ⟨hcount, ?_, fun k value hk => ?_, fun distinct c hc hkind k hk hindex => ?_⟩
  · apply Glsl.hasLine_program_of_declaration
    refine List.mem_flatMap.mpr ⟨_, ha, ?_⟩
    show _ ∈ Glsl.Decl.lines p env.toShader _
    rw [Glsl.lines_literalArray hp env.toShader hrun hkinds]
    exact List.mem_cons_self
  · rw [elementTexts, List.getElem?_map] at hk
    obtain ⟨c, hc, rfl⟩ := Option.map_eq_some_iff.mp hk
    have hmem := List.mem_of_getElem? hc
    rw [← show c.index = a.index + k from hrun.consecutive k c hc]
    exact hasLine_constantLine p o (hfloats c hmem)
  · have hplace : k < a.constants.length := by
      rw [← hcount] at hk
      exact (List.length_map _).symm ▸ hk
    have hd := List.getElem?_eq_getElem hplace
    have hsame : a.constants[k] = c := by
      refine List.inj_on_of_nodup_map distinct (hfloats _ (List.getElem_mem hplace)) ?_ ?_
      · exact List.mem_filter.mpr ⟨hc, decide_eq_true hkind⟩
      · exact (hrun.consecutive k _ hd).trans hindex.symm
    rw [elementTexts, List.getElem?_map, hd, hsame]
    rfl

/-! ### The main result -/

/-- The arrays `as` are the runs of the float constants of `cs`. -/
structure ConstantArray.Groups (cs : List Constant) (as : List ConstantArray) : Prop where
  /-- Together they are the float constants in order. -/
  exact : Constant.StablySorted (Constant.floats cs) (as.flatMap ConstantArray.constants)
  runs : ∀ a ∈ as, a.IsRun
  /-- If no register is defined twice, no run goes on where another begins. -/
  maximal : ((Constant.floats cs).map Constant.index).Nodup → as.Pairwise ConstantArray.Apart

theorem ConstantArray.groups_ofConstants (cs : List Constant) : Groups cs (ofConstants cs) where
  exact := by
    rw [flatMap_constants]
    exact Constant.stablySorted_inOrder _
  runs _ := isRun_of_mem
  maximal := pairwise_apart

/-- What a lifted shader has for arrays: the ranges of its symbol table and then the runs of all its
constants. -/
structure ArraysDiscovered (p : Profile) (o : Options) (l : LinkedShader) : Prop where
  arrays : l.scan.groupConstants.arrays.map ConstantArray.unread =
    Scan.rangeArrays l.scan.symbols ++ ConstantArray.ofConstants l.scan.constants
  /-- The arrays of literals that are read are declared. -/
  declared : ∀ a, .literalArray a ∈ Glsl.declarations l ↔
    a ∈ Interface.usedArrays l.scan ∧ a.isLiteral = true
  literals : p.hasArrayConstants = true → ∀ a, .literalArray a ∈ Glsl.declarations l →
    LiteralsAgree l.env.toShader l.scan.constants (Glsl.program p o l) a

/-- **Discovery of arrays.**  The constants of any list are grouped into runs without losing one, and
the arrays of a shader without a fault are its declared ranges and the runs of all its constants. -/
theorem lift_discovers_arrays (p : Profile) (o : Options) (ws : List Word) :
    (∀ cs, ConstantArray.Groups cs (ConstantArray.ofConstants cs)) ∧
      ((liftWords p o ws).errors = [] → ∃ l, linkShader o ws = .ok l ∧
        (liftWords p o ws).output = Glsl.program p o l ∧ ArraysDiscovered p o l) := by
  refine ⟨ConstantArray.groups_ofConstants, fun success => ?_⟩
  obtain ⟨w, us, env, -, -, good, hlink⟩ := linkShader_of_no_errors p o ws success
  refine ⟨.ofUnits env us, hlink, ?_, Scan.arrays_ofUnits good, literalArray_mem_declarations env us,
    fun hp a ha => ?_⟩
  · rw [liftWords_eq, hlink]
    rfl
  · exact literalsAgree_ofUnits o hp good ha

/-- A vertex shader that reads two neighbours among its own constants, the second of which it defines first, as
an array.  The host provides eight more, which it does not read. -/
def paletteCode : List Word :=
  [0xFFFE0101,
    -- a symbol table with one symbol, `bone`, in the registers 0 to 7
    0x0016FFFE, 0x42415443, 28, 0, 0xFFFE0101, 1, 28, 0, 0, 64, 2, 8, 48, 0, 0x00030001, 0x00040001,
    8, 0, 0x656E6F62, 115, 0, 0, 0,
    0x30, 0xF00F0000, 1, 2, 3, 4,
    0x51, 0xA00F0015, 0x3F800000, 0, 0, 0,
    0x51, 0xA00F0014, 0, 0x3F000000, 0, 0,
    1, 0xB0010000, 0x90000000,
    1, 0x800F0000, 0xA0E42014,
    1, 0xC00F0000, 0x80E40000,
    0xFFFF]

theorem discovers_arrays_paletteCode :
    (liftWords .glsl120 {} paletteCode).errors = [] ∧
      ∃ l, linkShader {} paletteCode = .ok l ∧
        (liftWords .glsl120 {} paletteCode).output = Glsl.program .glsl120 {} l ∧
        ArraysDiscovered .glsl120 {} l :=
  ⟨by decide +kernel, (lift_discovers_arrays .glsl120 {} paletteCode).2 (by decide +kernel)⟩

example : (match linkShader {} paletteCode with
    | .ok l => (Interface.usedArrays l.scan).map fun a => (a.index, Glsl.elementTexts a)
    | .error _ => []) =
    [(20, ["vec4(0.0, 0.5, 0.0, 0.0)", "vec4(1.0, 0.0, 0.0, 0.0)"])] := by
  decide +kernel

end ShaderLift
