/-
The names of a program by their families.  A name that is repeated is repeated among the names of its
family, and each family comes from few places: the words and packed constants from the lines before the
declarations and from the helpers, and everything else from the declarations, which are told apart by what
they are made for (`Decl.origin`).
-/
import Mathlib.Data.List.Duplicate
import Mathlib.Data.List.Flatten
import ShaderLift.Proofs.Closed
import ShaderLift.Proofs.Introduced

namespace ShaderLift

/-! ### Repeated elements -/

section Lists

variable {α β : Type}
variable {f : α → Option β} {l : List α} {b : β}

theorem duplicate_filterMap_iff :
    (l.filterMap f).Duplicate b ↔
      (∃ a, f a = some b ∧ l.Duplicate a) ∨
        ∃ a ∈ l, ∃ a' ∈ l, a ≠ a' ∧ f a = some b ∧ f a' = some b := by
  induction l with
  | nil => simp
  | cons x l ih =>
    cases hx : f x with
    | none =>
      rw [List.filterMap_cons_none hx, ih]
      simp only [List.duplicate_cons_iff, List.mem_cons]
      grind
    | some y =>
      rw [List.filterMap_cons_some hx, List.duplicate_cons_iff, ih]
      simp only [List.duplicate_cons_iff, List.mem_cons, List.mem_filterMap]
      grind

theorem duplicate_filterMap_of_nodup (nodup : l.Nodup) :
    (l.filterMap f).Duplicate b ↔ ∃ a ∈ l, ∃ a' ∈ l, a ≠ a' ∧ f a = some b ∧ f a' = some b := by
  rw [duplicate_filterMap_iff]
  refine or_iff_right ?_
  rintro ⟨a, -, hduplicate⟩
  exact hduplicate.not_nodup nodup

theorem duplicate_family_iff {g : β → α} (h : ∀ a b, f a = some b ↔ a = g b) :
    l.Duplicate (g b) ↔ (l.filterMap f).Duplicate b := by
  rw [duplicate_filterMap_iff]
  constructor
  · intro hduplicate
    exact .inl ⟨g b, (h _ _).mpr rfl, hduplicate⟩
  · rintro (⟨a, ha, hduplicate⟩ | ⟨a, -, a', -, hne, ha, ha'⟩)
    · rwa [← (h _ _).mp ha]
    · exact absurd (((h _ _).mp ha).trans ((h _ _).mp ha').symm) hne

theorem not_duplicate_family {g : β → α} (h : ∀ a b, f a = some b ↔ a = g b)
    (nodup : (l.filterMap f).Nodup) (b : β) : ¬ l.Duplicate (g b) := by
  rw [duplicate_family_iff h]
  exact fun hduplicate => hduplicate.not_nodup nodup

section Append

variable [DecidableEq α] {as bs : List α} {x : α}

theorem duplicate_append_left_iff (nodup : bs.Nodup) (disjoint : ∀ a ∈ as, a ∉ bs) :
    (as ++ bs).Duplicate x ↔ as.Duplicate x := by
  rw [List.duplicate_iff_two_le_count, List.duplicate_iff_two_le_count, List.count_append]
  have hone := List.nodup_iff_count_le_one.mp nodup x
  by_cases hx : x ∈ as
  · rw [List.count_eq_zero_of_not_mem (disjoint x hx), Nat.add_zero]
  · rw [List.count_eq_zero_of_not_mem hx]
    omega

theorem duplicate_append_right_iff (nodup : as.Nodup) (disjoint : ∀ a ∈ as, a ∉ bs) :
    (as ++ bs).Duplicate x ↔ bs.Duplicate x := by
  rw [List.duplicate_iff_two_le_count, List.duplicate_iff_two_le_count, List.count_append, Nat.add_comm,
    ← List.count_append, ← List.duplicate_iff_two_le_count, ← List.duplicate_iff_two_le_count]
  exact duplicate_append_left_iff nodup fun a ha hb => disjoint a hb ha

end Append

theorem nodup_append_of {P : α → Prop} {as bs : List α} (ha : as.Nodup) (hb : bs.Nodup)
    (hP : ∀ a ∈ as, P a) (hnot : ∀ b ∈ bs, ¬ P b) : (as ++ bs).Nodup := by
  refine List.nodup_append.mpr ⟨ha, hb, ?_⟩
  rintro a hmem _ hmem' rfl
  exact hnot a hmem' (hP a hmem)

theorem flatMap_sublist_map {f : α → List β} {g : α → β} (h : ∀ a, (f a).Sublist [g a])
    (l : List α) : (l.flatMap f).Sublist (l.map g) := by
  rw [List.map_eq_flatMap]
  exact .flatMap_right l fun a _ => h a

end Lists

namespace Glsl

/-! ### Names by their family -/

namespace Name

def register? : Name → Option Register
  | .register r => some r
  | _ => none

def varying? : Name → Option (Usage × Nat)
  | .varying usage index => some (usage, index)
  | _ => none

def arrayBase? : Name → Option Nat
  | .arrayBase base => some base
  | _ => none

def constArray? : Name → Option (Nat × Nat)
  | .constArray base count => some (base, count)
  | _ => none

def bump? : Name → Option (Bool × Nat)
  | .bumpMatrix stage => some (false, stage)
  | .bumpLuminance stage => some (true, stage)
  | _ => none

def packed? : Name → Option ConstantKind
  | .packed kind => some kind
  | _ => none

def word? : Name → Option String
  | .word text => some text
  | _ => none

end Name

/-! ### Names before the declarations -/

def allLevelNames : List Name :=
  [.word "texture2DGrad", .word "texture2DProjGrad", .word "textureCubeGrad", .word "texture3DGrad",
    .word "texture2DLod", .word "textureCubeLod", .word "texture3DLod"]

def allPrefaceNames : List Name :=
  allLevelNames ++ [Name.packed .float, Name.packed .int, Name.packed .bool] ++ [Name.word "vpFlip"]
    ++ [Name.word "FLT_MAX"]

section Preface

variable (branch : Nat) (p : Profile) (o : Options) (l : LinkedShader)

def prefaceNames : List Name :=
  (if l.scan.helpers.contains .textureLevels then levelNames p l.env.toShader branch else [])
    ++ (packedNames l.interface.slots .float ++ packedNames l.interface.slots .int
      ++ packedNames l.interface.slots .bool)
    ++ (if o.flipRenderTarget && l.env.toShader.isVertex then [Name.word "vpFlip"] else [])
    ++ (if l.scan.helpers.contains .largest then [Name.word "FLT_MAX"] else [])

theorem programNames_eq :
    programNames branch p o l = prefaceNames branch p o l ++ (declarations l).flatMap (Decl.names p)
      ++ l.scan.helpers.flatMap Helper.names := rfl

theorem levelNames_sublist (sh : Shader) : (levelNames p sh branch).Sublist allLevelNames := by
  unfold levelNames
  split
  · exact .refl _
  · split
    · split <;> decide
    · exact List.nil_sublist _

theorem packedNames_sublist (slots : Slots) (kind : ConstantKind) :
    (packedNames slots kind).Sublist [.packed kind] := by
  unfold packedNames
  split
  · exact List.nil_sublist _
  · exact .refl _

theorem ite_nil_sublist {α : Type} {c : Prop} [Decidable c] {as bs : List α} (h : as.Sublist bs) :
    (if c then as else []).Sublist bs := by
  split
  · exact h
  · exact List.nil_sublist _

theorem prefaceNames_sublist : (prefaceNames branch p o l).Sublist allPrefaceNames := by
  have hsizes : (packedNames l.interface.slots .float ++ packedNames l.interface.slots .int
      ++ packedNames l.interface.slots .bool).Sublist [.packed .float, .packed .int, .packed .bool] :=
    ((packedNames_sublist _ _).append (packedNames_sublist _ _)).append (packedNames_sublist _ _)
  refine List.Sublist.append (.append (.append ?_ hsizes) ?_) ?_
  · exact ite_nil_sublist (levelNames_sublist branch p l.env.toShader)
  · exact ite_nil_sublist (.refl _)
  · exact ite_nil_sublist (.refl _)

theorem nodup_prefaceNames : (prefaceNames branch p o l).Nodup := by
  have hall : allPrefaceNames.Nodup := by decide
  exact (prefaceNames_sublist branch p o l).nodup hall

theorem family_of_mem_prefaceNames {n : Name} (h : n ∈ prefaceNames branch p o l) :
    n.family = .word ∨ n.family = .packed := by
  have hall : ∀ n ∈ allPrefaceNames, n.family = .word ∨ n.family = .packed := by decide
  exact hall n ((prefaceNames_sublist branch p o l).subset h)

theorem mem_helperNames {n : Name} {hs : List Helper} (h : n ∈ hs.flatMap Helper.names) :
    n = .word "LIT" ∨ n = .word "TEXM3X3SPEC_reflection" := by
  obtain ⟨x, -, hn⟩ := List.mem_flatMap.mp h
  cases x with
  | lighting => exact .inl (List.mem_singleton.mp hn)
  | reflection => exact .inr (List.mem_singleton.mp hn)
  | textureLevels | largest => cases hn

theorem filterMap_programNames {β : Type} {f : Name → Option β} (hword : ∀ text, f (.word text) = none)
    (hpacked : ∀ kind, f (.packed kind) = none) :
    (programNames branch p o l).filterMap f =
      (declarations l).flatMap fun d => (d.names p).filterMap f := by
  have hpreface : (prefaceNames branch p o l).filterMap f = [] := by
    rw [List.filterMap_eq_nil_iff]
    intro n hn
    have hfamily := family_of_mem_prefaceNames branch p o l hn
    cases n with
    | word text => exact hword text
    | packed kind => exact hpacked kind
    | _ => rcases hfamily with h | h <;> cases h
  have hhelpers : (l.scan.helpers.flatMap Helper.names).filterMap f = [] := by
    rw [List.filterMap_eq_nil_iff]
    intro n hn
    rcases mem_helperNames hn with rfl | rfl
    · exact hword _
    · exact hword _
  rw [programNames_eq, List.filterMap_append, List.filterMap_append, hpreface, hhelpers, List.append_nil,
    List.nil_append, List.filterMap_flatMap]

end Preface

/-! ### Names of declarations -/

/-- The names that a declaration introduces, varyings apart. -/
def Decl.ownNames : Decl → List Name
  | .literal c => [.register c.register]
  | .vector r | .integers r | .truth r | .truths r | .vertexInput r | .vertexOutput r _ _
  | .pixelInput r _ _ | .depth r => [.register r]
  | .coordinates number => [.register ⟨.texture, number⟩]
  | .arrayBase base _ => [.arrayBase base]
  | .literalArray a => [.constArray a.index a.count]
  | .constant c => [.register c.register]
  | .sampler stage _ => [.register (Glsl.sampler stage)]
  | .bump stage _ => [.bumpMatrix stage, .bumpLuminance stage]
  | .color number _ => [.register ⟨.colorOut, number⟩]
  | .positionFlip => [.word "vposFlip"]

theorem Decl.filterMap_names (p : Profile) {β : Type} {f : Name → Option β}
    (h : ∀ usage index, f (.varying usage index) = none) (d : Decl) :
    (d.names p).filterMap f = d.ownNames.filterMap f := by
  have hbinding : ∀ (n : Name) (b : Binding), (b.names n).filterMap f = [n].filterMap f := by
    intro n b
    cases b with
    | builtin b => rfl
    | varying v => exact List.filterMap_cons_none (h _ _)
  cases d with
  | coordinates number =>
    show (if _ then _ else _ : List Name).filterMap f = _
    split
    · rfl
    · exact List.filterMap_cons_none (h _ _)
  | vertexOutput r usage index => exact hbinding _ _
  | pixelInput r usage index => exact hbinding _ _
  | _ => rfl

def Decl.varying? (p : Profile) : Decl → Option (Usage × Nat)
  | .coordinates number =>
    if p.hasFixedFunction && number < 4 then none else some (.texCoord, number)
  | .vertexOutput _ usage index =>
    if (Binding.vertexBuiltin? p usage index).isSome then none else some (usage, index)
  | .pixelInput _ usage index =>
    if (Binding.pixelBuiltin? p usage index).isSome then none else some (usage, index)
  | _ => none

theorem Decl.filterMap_varying? (p : Profile) (d : Decl) :
    (d.names p).filterMap Name.varying? = (d.varying? p).toList := by
  cases d with
  | coordinates number =>
    show (if _ then _ else _ : List Name).filterMap Name.varying? = Option.toList (if _ then _ else _)
    split <;> rfl
  | vertexOutput r usage index =>
    show ((Binding.ofVertexOutput p usage index).names _).filterMap _ = Option.toList (if _ then _ else _)
    unfold Binding.ofVertexOutput
    cases Binding.vertexBuiltin? p usage index <;> rfl
  | pixelInput r usage index =>
    show ((Binding.ofPixelInput p usage index).names _).filterMap _ = Option.toList (if _ then _ else _)
    unfold Binding.ofPixelInput
    cases Binding.pixelBuiltin? p usage index <;> rfl
  | _ => rfl

section Families

variable (branch : Nat) (p : Profile) (o : Options) (l : LinkedShader)
variable {text : String} {hs : List Helper} {rs : List Register}

theorem registers_programNames :
    (programNames branch p o l).filterMap Name.register? = (declarations l).filterMap Decl.register? := by
  have hdecl : ∀ d : Decl, (d.names p).filterMap Name.register? = d.register?.toList := by
    intro d
    rw [d.filterMap_names p fun _ _ => rfl]
    cases d <;> rfl
  rw [filterMap_programNames branch p o l (fun _ => rfl) (fun _ => rfl),
    List.filterMap_eq_flatMap_toList]
  exact congrArg (declarations l).flatMap (funext hdecl)

theorem mem_programNames_iff {r : Register} :
    .register r ∈ programNames branch p o l ↔ r ∈ (declarations l).filterMap Decl.register? := by
  rw [← registers_programNames branch p o, List.mem_filterMap]
  constructor
  · intro h
    exact ⟨_, h, rfl⟩
  · rintro ⟨n, hn, hregister⟩
    cases n with
    | register x =>
      cases hregister
      exact hn
    | _ => cases hregister

theorem varyings_programNames :
    (programNames branch p o l).filterMap Name.varying? = (declarations l).filterMap (Decl.varying? p) := by
  rw [filterMap_programNames branch p o l (fun _ => rfl) (fun _ => rfl),
    List.filterMap_eq_flatMap_toList]
  exact congrArg (declarations l).flatMap (funext (Decl.filterMap_varying? p))

theorem filterMap_of_origin (origin : Decl.Origin) {β : Type} {f : Name → Option β}
    (hword : ∀ text, f (.word text) = none) (hpacked : ∀ kind, f (.packed kind) = none)
    (hvarying : ∀ usage index, f (.varying usage index) = none)
    (h : ∀ d : Decl, d.origin ≠ origin → d.ownNames.filterMap f = []) :
    (programNames branch p o l).filterMap f =
      (declarationsOf l origin).flatMap fun d => d.ownNames.filterMap f := by
  rw [filterMap_programNames branch p o l hword hpacked,
    funext fun d => Decl.filterMap_names p hvarying d]
  exact flatMap_declarations origin h l

def hostBase? (q : PlacedArray) : Option Nat := q.slot.map fun _ => q.array.index

theorem arrayBases_programNames :
    (programNames branch p o l).filterMap Name.arrayBase? = l.interface.arrays.filterMap hostBase? := by
  rw [filterMap_of_origin branch p o l .array (fun _ => rfl) (fun _ => rfl) (fun _ _ => rfl)]
  · show (l.interface.arrays.map arrayDecl).flatMap _ = _
    rw [List.flatMap_map, List.filterMap_eq_flatMap_toList]
    refine congrArg l.interface.arrays.flatMap (funext fun q => ?_)
    unfold arrayDecl hostBase?
    cases q.slot <;> rfl
  · intro d hd
    cases d <;> first | rfl | exact absurd rfl hd

theorem constArrays_programNames :
    ((programNames branch p o l).filterMap Name.constArray?).Sublist
      (l.interface.arrays.map fun q => (q.array.index, q.array.count)) := by
  rw [filterMap_of_origin branch p o l .array (fun _ => rfl) (fun _ => rfl) (fun _ _ => rfl)]
  · show ((l.interface.arrays.map arrayDecl).flatMap _).Sublist _
    rw [List.flatMap_map]
    refine flatMap_sublist_map (fun q => ?_) _
    unfold arrayDecl
    cases q.slot with
    | none => exact .refl _
    | some slot => exact List.nil_sublist _
  · intro d hd
    cases d <;> first | rfl | exact absurd rfl hd

theorem bumps_programNames :
    ((programNames branch p o l).filterMap Name.bump?).Sublist
      ((l.interface.samplers.map PlacedSampler.stage).flatMap fun stage =>
        [(false, stage), (true, stage)]) := by
  rw [filterMap_of_origin branch p o l .sampler (fun _ => rfl) (fun _ => rfl) (fun _ _ => rfl)]
  · show ((l.interface.samplers.flatMap samplerDecls).flatMap _).Sublist _
    rw [List.flatMap_assoc, List.flatMap_map]
    refine .flatMap_right _ fun x _ => ?_
    unfold samplerDecls
    cases x.kind <;> cases x.bumpSlot <;> simp [Decl.ownNames, Name.bump?]
  · intro d hd
    cases d <;> first | rfl | exact absurd rfl hd

/-! ### Words -/

def prefaceWords : List String := allPrefaceNames.filterMap Name.word?

theorem mem_prefaceWords (h : text ∈ (prefaceNames branch p o l).filterMap Name.word?) :
    text ∈ prefaceWords :=
  ((prefaceNames_sublist branch p o l).filterMap Name.word?).subset h

theorem mem_helperWords (h : text ∈ (hs.flatMap Helper.names).filterMap Name.word?) :
    text ∈ ["LIT", "TEXM3X3SPEC_reflection"] := by
  obtain ⟨n, hn, hword⟩ := List.mem_filterMap.mp h
  rcases mem_helperNames hn with rfl | rfl
  · rw [← Option.some.inj hword]
    exact List.mem_cons_self
  · rw [← Option.some.inj hword]
    exact List.mem_cons_of_mem _ List.mem_cons_self

def positionWord? (sh : Shader) (r : Register) : Option String :=
  if sh.stage = .pixel ∧ r = ⟨.misc, Register.miscPosition⟩ then some "vposFlip" else none

theorem mem_positionWords {sh : Shader} (h : text ∈ rs.filterMap (positionWord? sh)) :
    text = "vposFlip" := by
  obtain ⟨r, -, hr⟩ := List.mem_filterMap.mp h
  unfold positionWord? at hr
  split at hr
  · exact (Option.some.inj hr).symm
  · cases hr

theorem words_attributeDecls (sh : Shader) (many : Bool) (e : Register × Attribute) :
    ((attributeDecls sh many e.1 e.2).flatMap fun d => d.ownNames.filterMap Name.word?) =
      (positionWord? sh e.1).toList := by
  obtain ⟨r, a⟩ := e
  cases hstage : sh.stage with
  | vertex =>
    have hnone : positionWord? sh r = none := by
      unfold positionWord?
      simp [hstage]
    rw [hnone]
    rcases attributeDecls_cases sh many r a with hnil | ⟨d, hone, -, hregister | rfl⟩
    · rw [hnil]
      rfl
    · rw [hone]
      cases d <;> first | rfl | cases hregister
    · obtain ⟨d, hone', -, hregister⟩ := attributeDecls_of_vertex hstage many r a
      rw [hone] at hone'
      cases hone'
      cases hregister
  | pixel =>
    unfold attributeDecls positionWord?
    rw [hstage]
    obtain ⟨file, number⟩ := r
    cases file with
    | address =>
      dsimp only
      split <;> simp [Decl.ownNames, Name.word?]
    | misc =>
      dsimp only
      split
      next h => simp [h, Decl.ownNames, Name.word?]
      next h => simp [h]
    | _ => simp [Decl.ownNames, Name.word?]

theorem declaredWords_eq :
    ((declarations l).flatMap fun d => (d.names p).filterMap Name.word?) =
      (l.interface.attributes.map Prod.fst).filterMap (positionWord? l.env.toShader) := by
  rw [funext fun d => Decl.filterMap_names p (fun _ _ => rfl) d, flatMap_declarations .inOut]
  · show (l.interface.attributes.flatMap _).flatMap _ = _
    rw [List.flatMap_assoc, List.filterMap_map, List.filterMap_eq_flatMap_toList]
    exact congrArg l.interface.attributes.flatMap (funext (words_attributeDecls _ _))
  · intro d hd
    cases d <;> first | rfl | exact absurd rfl hd

theorem words_programNames :
    (programNames branch p o l).filterMap Name.word? =
      (prefaceNames branch p o l).filterMap Name.word?
        ++ (l.interface.attributes.map Prod.fst).filterMap (positionWord? l.env.toShader)
        ++ (l.scan.helpers.flatMap Helper.names).filterMap Name.word? := by
  rw [programNames_eq, List.filterMap_append, List.filterMap_append, List.filterMap_flatMap,
    declaredWords_eq]

theorem Name.word?_eq_some_iff (n : Name) (text : String) : n.word? = some text ↔ n = .word text := by
  cases n <;> simp [Name.word?]

theorem nodup_positionWords (sh : Shader) (h : rs.Nodup) : (rs.filterMap (positionWord? sh)).Nodup := by
  refine h.filterMap fun r x text hr hx => ?_
  have hregister : ∀ {r}, text ∈ positionWord? sh r → r = ⟨.misc, Register.miscPosition⟩ := by
    intro r hr
    unfold positionWord? at hr
    split at hr
    next hposition => exact hposition.2
    next => cases hr
  rw [hregister hr, hregister hx]

theorem nodup_helperWords (h : hs.Nodup) : ((hs.flatMap Helper.names).filterMap Name.word?).Nodup := by
  rw [List.filterMap_flatMap, List.nodup_flatMap]
  constructor
  · intro x _
    cases x <;> simp [Helper.names, Name.word?]
  · refine h.imp fun {x y} hne => ?_
    cases x <;> cases y <;> simp_all [Function.onFun, Helper.names, Name.word?]

theorem nodup_words (hattributes : (l.interface.attributes.map Prod.fst).Nodup)
    (hhelpers : l.scan.helpers.Nodup) : ((programNames branch p o l).filterMap Name.word?).Nodup := by
  rw [words_programNames]
  have hpreface : ((prefaceNames branch p o l).filterMap Name.word?).Nodup := by
    refine (nodup_prefaceNames branch p o l).filterMap fun n m text hn hm => ?_
    rw [(Name.word?_eq_some_iff n text).mp hn, (Name.word?_eq_some_iff m text).mp hm]
  refine nodup_append_of (P := fun text => text ∈ "vposFlip" :: prefaceWords)
    (nodup_append_of (P := fun text => text ∈ prefaceWords) hpreface
      (nodup_positionWords _ hattributes) ?_ ?_) (nodup_helperWords hhelpers) ?_ ?_
  · exact fun text htext => mem_prefaceWords branch p o l htext
  · intro text htext
    rw [mem_positionWords htext]
    decide
  · intro text htext
    rcases List.mem_append.mp htext with htext | htext
    · exact List.mem_cons_of_mem _ (mem_prefaceWords branch p o l htext)
    · rw [mem_positionWords htext]
      exact List.mem_cons_self
  · intro text htext
    have hother : ∀ text ∈ ["LIT", "TEXM3X3SPEC_reflection"], text ∉ "vposFlip" :: prefaceWords := by
      decide
    exact hother text (mem_helperWords htext)

theorem mem_words_of_mem_programNames (h : .word text ∈ programNames branch p o l) :
    text ∈ Name.words := by
  have hmem : text ∈ (programNames branch p o l).filterMap Name.word? :=
    List.mem_filterMap.mpr ⟨_, h, rfl⟩
  rw [words_programNames, List.mem_append, List.mem_append] at hmem
  rcases hmem with (hpreface | hposition) | hhelper
  · have hwords : ∀ text ∈ prefaceWords, text ∈ Name.words := by decide
    exact hwords text (mem_prefaceWords branch p o l hpreface)
  · rw [mem_positionWords hposition]
    exact List.mem_cons_self
  · have hwords : ∀ text ∈ ["LIT", "TEXM3X3SPEC_reflection"], text ∈ Name.words := by decide
    exact hwords text (mem_helperWords hhelper)

theorem Name.packed?_eq_some_iff (n : Name) (kind : ConstantKind) :
    n.packed? = some kind ↔ n = .packed kind := by
  cases n <;> simp [Name.packed?]

theorem nodup_packed : ((programNames branch p o l).filterMap Name.packed?).Nodup := by
  have hdeclared : ((declarations l).flatMap fun d => (d.names p).filterMap Name.packed?) = [] := by
    rw [List.flatMap_eq_nil_iff]
    intro d _
    rw [d.filterMap_names p fun _ _ => rfl]
    cases d <;> rfl
  have hhelpers : (l.scan.helpers.flatMap Helper.names).filterMap Name.packed? = [] := by
    rw [List.filterMap_eq_nil_iff]
    intro n hn
    rcases mem_helperNames hn with rfl | rfl <;> rfl
  rw [programNames_eq, List.filterMap_append, List.filterMap_append, List.filterMap_flatMap, hdeclared,
    hhelpers, List.append_nil, List.append_nil]
  refine (nodup_prefaceNames branch p o l).filterMap fun n m kind hn hm => ?_
  rw [(Name.packed?_eq_some_iff n kind).mp hn, (Name.packed?_eq_some_iff m kind).mp hm]

end Families

end Glsl

end ShaderLift
