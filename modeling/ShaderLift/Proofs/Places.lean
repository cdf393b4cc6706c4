/-
Where the host has to put the constants of a program.  The result of lifting lists the constants and
arrays that the program reads, without the places at which the program looks for them.  A host finds the
places by going through the list: within each kind an entry starts where the one before it ends, and after
the last constant every sampler with bump mapping takes two places.  `Lifted.packing` is that walk, and
`packing_lifted` says that it finds the places which were handed out.
-/
import Mathlib.Data.List.Basic
import ShaderLift.Proofs.AllOrNothing
import ShaderLift.Proofs.Registers

namespace ShaderLift

/-! ### The walk of the host -/

namespace Uniform

/-- How many places an entry takes; what the code defines takes none. -/
def width (u : Uniform) : Nat :=
  if u.constant then 0 else if u.arrayCount = 0 then 1 else u.arrayCount

/-- The entries of a list, each with its first place if it takes any. -/
def places (free : Slots) : List Uniform → List (Uniform × Option Nat)
  | [] => []
  | u :: us =>
    (u, if u.constant then none else some (free.count u.kind)) :: places (free.add u.width u.kind) us

def freeAfter (free : Slots) (us : List Uniform) : Slots :=
  us.foldl (fun free u => free.add u.width u.kind) free

def isSingle (u : Uniform) : Bool := u.arrayCount = 0

def register (u : Uniform) : Register := ⟨u.kind.file, u.index⟩

def holds (u : Uniform) (r : Register) : Bool :=
  u.kind.file = r.file && u.index ≤ r.number && r.number < u.index + max 1 u.arrayCount

end Uniform

namespace SamplerBinding

def places (free : Nat) : List SamplerBinding → List (SamplerBinding × Option Nat)
  | [] => []
  | s :: ss =>
    if s.bump then (s, some free) :: places (free + 2) ss else (s, none) :: places free ss

def freeAfter (free : Nat) (ss : List SamplerBinding) : Nat :=
  free + 2 * ss.countP SamplerBinding.bump

end SamplerBinding

/-- Where the constants of a program are. -/
structure Packing where
  entries : List (Uniform × Option Nat)
  samplers : List (SamplerBinding × Option Nat)
  size : Slots

namespace Packing

def entrySlots (kind : ConstantKind) (e : Uniform × Option Nat) : List Nat :=
  match e.2 with
  | some slot => if e.1.kind = kind then List.range' slot e.1.width else []
  | none => []

def samplerSlots (e : SamplerBinding × Option Nat) : List Nat :=
  match e.2 with
  | some slot => [slot, slot + 1]
  | none => []

/-- The places of a kind that entries and samplers take, in the order of the walk. -/
def taken (k : Packing) (kind : ConstantKind) : List Nat :=
  k.entries.flatMap (entrySlots kind)
    ++ if kind = .float then k.samplers.flatMap samplerSlots else []

def element (sh : Shader) (kind : ConstantKind) (slot : Nat) : String :=
  sh.shortName ++ "_uniforms_" ++ Glsl.constantType kind ++ "[" ++ toString slot ++ "]"

def baseLines (e : Uniform × Option Nat) : List String :=
  match e.2 with
  | some slot =>
    if e.1.isSingle then []
    else ["#define ARRAYBASE_" ++ toString e.1.index ++ " " ++ toString slot]
  | none => []

/-- Where a register is: in the first entry that has it. -/
def location (k : Packing) (sh : Shader) (r : Register) : String :=
  match k.entries.find? fun e => e.1.holds r with
  | some (u, some slot) => element sh u.kind (slot + (r.number - u.index))
  | some (u, none) => u.name ++ "[" ++ toString (r.number - u.index) ++ "]"
  | none => ""

def registerLine (k : Packing) (sh : Shader) (r : Register) : String :=
  "#define " ++ r.name sh ++ " " ++ k.location sh r

def bumpLines (sh : Shader) (e : SamplerBinding × Option Nat) : List String :=
  match e.2 with
  | some slot =>
    ["#define " ++ e.1.name ++ "_texbem " ++ element sh .float slot,
      "#define " ++ e.1.name ++ "_texbeml " ++ element sh .float (slot + 1)]
  | none => []

end Packing

namespace Lifted

/-- The walk through the constants and samplers of a result. -/
def packing (r : Lifted) : Packing :=
  let free := Uniform.freeAfter {} r.uniforms
  { entries := Uniform.places {} r.uniforms
    samplers := SamplerBinding.places free.float r.samplers
    size := { free with float := SamplerBinding.freeAfter free.float r.samplers } }

def hostRegisters (r : Lifted) (used : List Register) : List Register :=
  used.filter fun x =>
    (Interface.constantKind? x).isSome && !r.constants.any fun c => c.register = x

/-- Whether a register belongs to an array of the result. -/
def coversByArray (r : Lifted) (x : Register) : Bool :=
  r.uniforms.any fun u => !u.isSingle && u.holds x

end Lifted

/-- Whether a declaration says where a constant is. -/
def Glsl.Decl.isPlacement : Glsl.Decl → Bool
  | .arrayBase _ _ | .constant _ | .bump _ _ => true
  | _ => false

/-! ### Places are taken one after another -/

theorem Slots.count_add (s : Slots) (n : Nat) (kind other : ConstantKind) :
    (s.add n kind).count other = s.count other + if kind = other then n else 0 := by
  cases kind <;> cases other <;> simp [Slots.add, Slots.count]

theorem Slots.add_zero (s : Slots) (kind : ConstantKind) : s.add 0 kind = s := by
  cases kind <;> rfl

theorem range_append_range' (n m : Nat) : List.range n ++ List.range' n m = List.range (n + m) := by
  rw [List.range_eq_range', List.range_eq_range', ← List.range'_append]
  simp

namespace Uniform

theorem places_append (free : Slots) (us vs : List Uniform) :
    places free (us ++ vs) = places free us ++ places (freeAfter free us) vs := by
  induction us generalizing free with
  | nil => rfl
  | cons u us ih => simp only [List.cons_append, places, freeAfter, List.foldl_cons, ih]

theorem freeAfter_append (free : Slots) (us vs : List Uniform) :
    freeAfter free (us ++ vs) = freeAfter (freeAfter free us) vs :=
  List.foldl_append

theorem range_append_taken (kind : ConstantKind) (free : Slots) (us : List Uniform) :
    List.range (free.count kind) ++ (places free us).flatMap (Packing.entrySlots kind) =
      List.range ((freeAfter free us).count kind) := by
  induction us generalizing free with
  | nil => simp [places, freeAfter]
  | cons u us ih =>
    rw [places, List.flatMap_cons, ← List.append_assoc]
    rw [show freeAfter free (u :: us) = freeAfter (free.add u.width u.kind) us from rfl, ← ih,
      Slots.count_add]
    congr 1
    by_cases hc : u.constant = true
    · simp [Packing.entrySlots, hc, width]
    · by_cases hk : u.kind = kind
      · simp only [Packing.entrySlots, hc, hk, if_true, Bool.false_eq_true, if_false]
        exact range_append_range' _ _
      · simp [Packing.entrySlots, hc, hk]

end Uniform

namespace SamplerBinding

theorem freeAfter_cons (free : Nat) (s : SamplerBinding) (ss : List SamplerBinding) :
    freeAfter free (s :: ss) = freeAfter (if s.bump then free + 2 else free) ss := by
  unfold freeAfter
  rw [List.countP_cons]
  cases s.bump with
  | true =>
    simp only [if_true]
    omega
  | false => rfl

theorem range_append_taken (free : Nat) (ss : List SamplerBinding) :
    List.range free ++ (places free ss).flatMap Packing.samplerSlots =
      List.range (freeAfter free ss) := by
  induction ss generalizing free with
  | nil => simp [places, freeAfter]
  | cons s ss ih =>
    rw [freeAfter_cons, places]
    cases s.bump with
    | true =>
      simp only [if_true, List.flatMap_cons]
      rw [← ih, ← List.append_assoc]
      congr 1
      exact range_append_range' free 2
    | false => exact ih free

end SamplerBinding

/-- The places that the walk takes are all places of each kind, in order and each once. -/
theorem taken_packing (r : Lifted) (kind : ConstantKind) :
    r.packing.taken kind = List.range (r.packing.size.count kind) := by
  have hu := Uniform.range_append_taken kind {} r.uniforms
  have hs := SamplerBinding.range_append_taken (Uniform.freeAfter {} r.uniforms).float r.samplers
  have hzero : Slots.count {} kind = 0 := by cases kind <;> rfl
  rw [hzero, List.range_zero, List.nil_append] at hu
  unfold Packing.taken Lifted.packing
  dsimp only
  rw [hu]
  cases kind with
  | float => exact hs
  | int | bool => exact List.append_nil _

/-! ### The interface hands out the same places -/

namespace Interface

variable (sh : Shader) {c : PlacedConstant}

def arrayUniform (sh : Shader) (p : PlacedArray) : Uniform where
  kind := .float
  index := p.array.index
  arrayCount := p.array.count
  constant := p.array.isLiteral
  name := (Glsl.Ident.constArray p.array.index p.array.count).text sh

/-- The entry of a register that has a place of its own, with that place. -/
def ownUniform? (sh : Shader) (c : PlacedConstant) : Option (Uniform × Option Nat) :=
  match c.place with
  | .own slot => some (⟨c.kind, c.number, 0, false, c.register.name sh⟩, some slot)
  | _ => none

theorem ownUniform?_of_own {slot : Nat} (h : c.place = .own slot) :
    ownUniform? sh c = some (⟨c.kind, c.number, 0, false, c.register.name sh⟩, some slot) := by
  rw [ownUniform?, h]

theorem ownUniform?_of_placeIn {p : PlacedArray} (h : c.place = placeIn p c.number) :
    ownUniform? sh c = none := by
  rw [ownUniform?, h, placeIn]
  cases p.slot <;> rfl

def samplerBinding (sh : Shader) (s : PlacedSampler) : SamplerBinding :=
  ⟨s.kind, s.stage, (Glsl.sampler s.stage).name sh, s.bumpSlot.isSome⟩

theorem uniforms_eq (i : Interface) :
    i.uniforms sh =
      i.arrays.map (arrayUniform sh) ++ (i.constants.filterMap (ownUniform? sh)).map Prod.fst := by
  rw [List.map_filterMap]
  unfold uniforms
  dsimp only
  congr 2
  funext c
  unfold ownUniform?
  cases c.place <;> rfl

theorem map_array_placeArrays (slot : Nat) (as : List ConstantArray) :
    (placeArrays slot as).1.map PlacedArray.array = as := by
  induction as generalizing slot with
  | nil => rfl
  | cons a as ih =>
    unfold placeArrays
    split
    · exact congrArg (a :: ·) (ih slot)
    · exact congrArg (a :: ·) (ih (slot + a.count))

theorem places_placeArrays (free : Slots) (as : List ConstantArray) (nonempty : ∀ a ∈ as, 0 < a.count) :
    Uniform.places free ((placeArrays free.float as).1.map (arrayUniform sh)) =
        (placeArrays free.float as).1.map (fun p => (arrayUniform sh p, p.slot)) ∧
      Uniform.freeAfter free ((placeArrays free.float as).1.map (arrayUniform sh)) =
        { free with float := (placeArrays free.float as).2 } := by
  induction as generalizing free with
  | nil => exact ⟨rfl, rfl⟩
  | cons a as ih =>
    obtain ⟨hcount, hrest⟩ := List.forall_mem_cons.mp nonempty
    unfold placeArrays
    split
    next literal =>
      -- the code defines the array, so it takes no place
      have hwidth : (arrayUniform sh ⟨a, none⟩).width = 0 := if_pos literal
      obtain ⟨hplaces, hfree⟩ := ih free hrest
      simp only [List.map_cons, Uniform.places, Uniform.freeAfter, List.foldl_cons, hwidth,
        Slots.add_zero]
      refine ⟨?_, hfree⟩
      rw [hplaces]
      exact congrArg (fun slot => (_, slot) :: _) (if_pos literal)
    next host =>
      -- the host provides the array, and it takes a place for each element
      have hconstant : (arrayUniform sh ⟨a, some free.float⟩).constant = false :=
        Bool.eq_false_iff.mpr host
      have hwidth : (arrayUniform sh ⟨a, some free.float⟩).width = a.count := by
        unfold Uniform.width
        rw [hconstant]
        exact if_neg (Nat.ne_of_gt hcount)
      obtain ⟨hplaces, hfree⟩ := ih (free.add a.count .float) hrest
      simp only [List.map_cons, Uniform.places, Uniform.freeAfter, List.foldl_cons, hwidth,
        hconstant]
      refine ⟨?_, hfree⟩
      exact congrArg ((_, some free.float) :: ·) hplaces

theorem places_placeConstants (arrays : List PlacedArray) (free : Slots)
    (ks : List (ConstantKind × Nat)) :
    Uniform.places free (((placeConstants arrays free ks).1.filterMap (ownUniform? sh)).map Prod.fst) =
        (placeConstants arrays free ks).1.filterMap (ownUniform? sh) ∧
      Uniform.freeAfter free
          (((placeConstants arrays free ks).1.filterMap (ownUniform? sh)).map Prod.fst) =
        (placeConstants arrays free ks).2 := by
  induction ks generalizing free with
  | nil => exact ⟨rfl, rfl⟩
  | cons k ks ih =>
    obtain ⟨kind, number⟩ := k
    unfold placeConstants
    split
    next p _ =>
      have hnone : ownUniform? sh ⟨kind, number, placeIn p number⟩ = none :=
        ownUniform?_of_placeIn sh rfl
      simp only [List.filterMap_cons, hnone]
      exact ih free
    next =>
      obtain ⟨hplaces, hfree⟩ := ih (free.add 1 kind)
      refine ⟨?_, hfree⟩
      exact congrArg ((_, some (free.count kind)) :: ·) hplaces

theorem places_placeSamplers (free : Slots) (es : List (Register × SamplerUse)) :
    SamplerBinding.places free.float ((placeSamplers free es).1.map (samplerBinding sh)) =
        (placeSamplers free es).1.map (fun s => (samplerBinding sh s, s.bumpSlot)) ∧
      (placeSamplers free es).2 =
        { free with
          float := SamplerBinding.freeAfter free.float
            ((placeSamplers free es).1.map (samplerBinding sh)) } := by
  induction es generalizing free with
  | nil => exact ⟨rfl, rfl⟩
  | cons e es ih =>
    obtain ⟨r, u⟩ := e
    unfold placeSamplers
    cases hbump : u.bump with
    | true =>
      obtain ⟨hplaces, hfree⟩ := ih (free.add 2 .float)
      simp only [if_true, List.map_cons, SamplerBinding.freeAfter_cons]
      refine ⟨?_, hfree⟩
      exact congrArg ((_, some free.float) :: ·) hplaces
    | false =>
      obtain ⟨hplaces, hfree⟩ := ih free
      simp only [Bool.false_eq_true, if_false, List.map_cons, SamplerBinding.freeAfter_cons]
      refine ⟨?_, hfree⟩
      exact congrArg ((_, none) :: ·) hplaces

/-- The constant registers that the code uses and does not account for, by kind and number. -/
def openConstants (s : Scan) : List (ConstantKind × Nat) :=
  (undeclared s).filterMap fun r => (constantKind? r).map fun kind => (kind, r.number)

def packing (sh : Shader) (i : Interface) : Packing where
  entries := i.arrays.map (fun p => (arrayUniform sh p, p.slot))
    ++ i.constants.filterMap (ownUniform? sh)
  samplers := i.samplers.map fun s => (samplerBinding sh s, s.bumpSlot)
  size := i.slots

theorem places_uniforms (s : Scan) (nonempty : ∀ a ∈ usedArrays s, 0 < a.count) :
    Uniform.places {} ((ofScan sh s).uniforms sh) = ((ofScan sh s).packing sh).entries ∧
      Uniform.freeAfter {} ((ofScan sh s).uniforms sh) =
        (placeConstants (ofScan sh s).arrays { float := (placeArrays 0 (usedArrays s)).2 }
          (openConstants s)).2 := by
  have harrays : Uniform.places {} ((ofScan sh s).arrays.map (arrayUniform sh)) =
      (ofScan sh s).arrays.map fun p => (arrayUniform sh p, p.slot) :=
    (places_placeArrays sh {} (usedArrays s) nonempty).1
  have hfree : Uniform.freeAfter {} ((ofScan sh s).arrays.map (arrayUniform sh)) =
      { float := (placeArrays 0 (usedArrays s)).2 } :=
    (places_placeArrays sh {} (usedArrays s) nonempty).2
  have hconstants := places_placeConstants sh (ofScan sh s).arrays
    { float := (placeArrays 0 (usedArrays s)).2 } (openConstants s)
  rw [uniforms_eq, Uniform.places_append, Uniform.freeAfter_append, harrays, hfree]
  exact ⟨congrArg (_ ++ ·) hconstants.1, hconstants.2⟩

end Interface

theorem packing_lifted (p : Glsl.Profile) (o : Options) (env : Env) (us : List Word) :
    ((LinkedShader.ofUnits env us).lifted p o).packing =
      (LinkedShader.ofUnits env us).interface.packing env.toShader := by
  have nonempty : ∀ a ∈ Interface.usedArrays (Scan.ofUnits env us), 0 < a.count :=
    fun a ha => (Scan.sound_usedArrays env us a ha).2
  obtain ⟨hplaces, hfree⟩ := Interface.places_uniforms env.toShader (Scan.ofUnits env us) nonempty
  obtain ⟨hsamplers, hsize⟩ := Interface.places_placeSamplers env.toShader
    (Uniform.freeAfter {} ((LinkedShader.ofUnits env us).interface.uniforms env.toShader))
    (Scan.ofUnits env us).samplers.entries
  -- samplers and sizes of the interface are placed from where the constants end
  have hs : Interface.placeSamplers
      (Uniform.freeAfter {} ((LinkedShader.ofUnits env us).interface.uniforms env.toShader))
      (Scan.ofUnits env us).samplers.entries =
      ((LinkedShader.ofUnits env us).interface.samplers,
        (LinkedShader.ofUnits env us).interface.slots) :=
    congrArg (Interface.placeSamplers · _) hfree
  rw [hs] at hsamplers hsize
  rw [Lifted.packing, Packing.mk.injEq]
  exact ⟨hplaces, hsamplers, hsize.symm⟩

end ShaderLift
