/-
How deep types can be nested.  A description refers to those of its members by offsets, so that nothing
keeps descriptions from referring to each other in circles.  Reading them comes to an end all the same,
since the depth is counted: members are read one level deeper, and from level 301 on there may be none.

`readLevel` reads one description and leaves the members to another reader, and `readAt`, which reads
whole types, is the only reader that leaves them to itself.

    Refers b pos q     the description at `pos` has a member described at `q`,
    Calls b c c'       what is left to be read at `c'`, depth and offset, is read at `c`,
    t.Holds depth u    the type `u` is found in `t` at that depth.
-/
import ShaderLift.Proofs.SymbolTable

namespace ShaderLift

variable {v : Visit} {payload : List Word}

theorem Attempt.bind_congr_of_value {α β : Type} {a : Attempt α} {f g : α → Attempt β}
    (h : ∀ x, a.value = some x → f x = g x) : a >>= f = a >>= g := by
  obtain ⟨faults, _ | x⟩ := a
  · rfl
  · show Attempt.mk _ _ = Attempt.mk _ _
    rw [h x rfl]

namespace Symbol

variable {b : Block} {depth pos : Nat}
variable {chain : List Nat} {q : Nat}

/-! ### Reading level by level -/

/-- The type described at `pos`, at some depth in a type.  The types of its members are read by `read`. -/
def readLevel (b : Block) (read : (depth pos : Nat) → Attempt TypeInfo) (depth pos : Nat) :
    Attempt TypeInfo := do
  let d ← description b pos
  if 0 < d.memberCount ∧ maxDepth < depth then Attempt.stop .endlessType
  else
    let members ← (List.range d.memberCount).mapM fun i =>
      member b (read (depth + 1)) (d.memberOffset + i * 8)
    return d.typeInfo members

def readAt (b : Block) (depth pos : Nat) : Attempt TypeInfo := typeInfo b (maxDepth + 1 - depth) pos

/-- The description at `pos` has a member that is described at `q`. -/
def Refers (b : Block) (pos q : Nat) : Prop :=
  ∃ i < memberCount b pos, b.word? (memberEntry b pos i + 4) = some q

/-- To read the type at one depth and offset, that at another one is read first. -/
def Calls (b : Block) (callee caller : Nat × Nat) : Prop :=
  caller.1 ≤ maxDepth ∧ callee.1 = caller.1 + 1 ∧ Refers b caller.2 callee.2

theorem wellFounded_calls (b : Block) : WellFounded (Calls b) := by
  refine Subrelation.wf (fun {callee caller} h => ?_) (measure fun c : Nat × Nat => maxDepth + 1 - c.1).wf
  obtain ⟨inner, deeper, -⟩ := h
  show maxDepth + 1 - callee.1 < maxDepth + 1 - caller.1
  omega

theorem eq_descriptionAt {d : Description} (h : (description b pos).value = some d) :
    d = descriptionAt b pos := by
  have hexact := exact_description b pos
  by_cases room : pos + 16 + memberCount b pos * 8 < b.size
  · rw [hexact.accepts room] at h
    exact (Option.some.inj h).symm
  · rw [hexact.rejects room] at h
    cases h

theorem member_congr {read read' : Nat → Attempt TypeInfo} {offset : Nat}
    (h : ∀ q, b.word? (offset + 4) = some q → read q = read' q) :
    member b read offset = member b read' offset := by
  unfold member
  refine Attempt.bind_congr_of_value fun name _ => Attempt.bind_congr_of_value fun q hq => ?_
  have hword : b.word? (offset + 4) = some q := by
    cases hw : b.word? (offset + 4) with
    | none =>
      rw [hw] at hq
      cases hq
    | some q' =>
      rw [hw] at hq
      exact hq
  rw [h q hword]

theorem mapM_congr {ι α : Type} {l : List ι} {f g : ι → Attempt α} (h : ∀ i ∈ l, f i = g i) :
    l.mapM f = l.mapM g := by
  induction l with
  | nil => rfl
  | cons i l ih =>
    obtain ⟨hi, hl⟩ := List.forall_mem_cons.mp h
    rw [List.mapM_cons, List.mapM_cons, hi, ih hl]

/-- A level makes no other use of its reader than to read the members that are called for. -/
theorem readLevel_congr {read read' : Nat → Nat → Attempt TypeInfo}
    (h : ∀ q, Calls b (depth + 1, q) (depth, pos) → read (depth + 1) q = read' (depth + 1) q) :
    readLevel b read depth pos = readLevel b read' depth pos := by
  refine Attempt.bind_congr_of_value fun d hd => ?_
  obtain rfl := eq_descriptionAt hd
  split
  next => rfl
  next inner =>
    congr 1
    refine mapM_congr fun i hi => member_congr fun q hq => h q ⟨?_, rfl, i, List.mem_range.mp hi, hq⟩
    -- There is a member, so that it was the depth that let the level go on.
    exact Nat.not_lt.mp fun deep => inner ⟨Nat.zero_lt_of_lt (List.mem_range.mp hi), deep⟩

theorem readAt_eq (b : Block) (depth pos : Nat) :
    readAt b depth pos = readLevel b (readAt b) depth pos := by
  unfold readAt readLevel
  by_cases inner : depth ≤ maxDepth
  · have hlevels : maxDepth + 1 - depth = maxDepth - depth + 1 := by omega
    have hnext : maxDepth + 1 - (depth + 1) = maxDepth - depth := by omega
    rw [hlevels, typeInfo]
    refine Attempt.bind_congr_of_value fun d _ => ?_
    rw [if_neg fun h => absurd inner (Nat.not_le.mpr h.2)]
    dsimp only
    rw [hnext]
  · have hlevels : maxDepth + 1 - depth = 0 := by omega
    rw [hlevels, typeInfo]
    refine Attempt.bind_congr_of_value fun d _ => ?_
    by_cases none : d.memberCount = 0
    · rw [if_pos none, if_neg (by omega), none]
      rfl
    · rw [if_neg none, if_pos (by omega)]

/-- Level by level, there is one way to read types: the calls that are made come to an end. -/
theorem eq_readAt_iff (read : Nat → Nat → Attempt TypeInfo) :
    (∀ depth pos, read depth pos = readLevel b read depth pos) ↔ read = readAt b := by
  constructor
  · intro h
    have hall : ∀ c : Nat × Nat, read c.1 c.2 = readAt b c.1 c.2 := by
      intro c
      induction c using (wellFounded_calls b).induction with
      | _ c ih =>
        rw [h, readAt_eq]
        exact readLevel_congr fun q hq => ih (c.1 + 1, q) hq
    funext depth pos
    exact hall (depth, pos)
  · rintro rfl depth pos
    exact readAt_eq b depth pos

theorem exact_readAt (b : Block) (pos : Nat) :
    Attempt.Exact (IsTypeFault b) (readAt b 0 pos) (IsDescription b 0 pos)
      (typeFaults b (maxDepth + 1) pos) (typeAt b (maxDepth + 1) pos) :=
  exact_typeInfo b (by decide) pos

/-! ### The depth of types -/

def TypeInfo.members : TypeInfo → List (String × TypeInfo)
  | .mk _ _ _ _ _ members => members

/-- A type is found in another one at some depth: its members at depth 1. -/
inductive TypeInfo.Holds (t : TypeInfo) : (depth : Nat) → TypeInfo → Prop
  | self : Holds t 0 t
  | member {depth : Nat} {u : TypeInfo} {m : String × TypeInfo} (outer : Holds t depth u)
      (mem : m ∈ u.members) : Holds t (depth + 1) m.2

theorem exists_of_holds_typeAt {levels : Nat} {u : TypeInfo} (h : (typeAt b levels pos).Holds depth u) :
    ∃ q left, levels = depth + left ∧ u = typeAt b left q := by
  induction h with
  | self => exact ⟨pos, levels, (Nat.zero_add _).symm, rfl⟩
  | @member depth u m _ mem ih =>
    obtain ⟨q, left, hlevels, rfl⟩ := ih
    cases left with
    | zero => exact absurd mem List.not_mem_nil
    | succ left =>
      obtain ⟨i, -, rfl⟩ := List.mem_map.mp mem
      exact ⟨_, left, by omega, rfl⟩

theorem depth_le_of_holds {t u : TypeInfo} (ht : (readAt b 0 pos).value = some t)
    (h : t.Holds depth u) : depth ≤ maxDepth + 1 ∧ (u.members ≠ [] → depth ≤ maxDepth) := by
  have hexact := exact_readAt b pos
  by_cases hd : IsDescription b 0 pos
  · rw [hexact.accepts hd] at ht
    obtain rfl := Option.some.inj ht
    obtain ⟨q, left, hlevels, rfl⟩ := exists_of_holds_typeAt h
    refine ⟨by omega, fun hmembers => ?_⟩
    cases left with
    | zero => exact absurd rfl hmembers
    | succ left => omega
  · rw [hexact.rejects hd] at ht
    cases ht

/-! ### Chains of references -/

theorem IsDescription.next (h : IsDescription b depth pos) (ref : Refers b pos q) :
    depth ≤ maxDepth ∧ IsDescription b (depth + 1) q := by
  obtain ⟨room, nested, entries, members⟩ := h
  obtain ⟨i, hi, hq⟩ := ref
  rw [Block.word?_eq] at hq
  have hinside : memberEntry b pos i + 4 + 4 ≤ b.size := entries i hi
  rw [if_pos hinside] at hq
  exact ⟨nested (Nat.zero_lt_of_lt hi), Option.some.inj hq ▸ members i hi⟩

/-- Every description of a chain is one level deeper than the one before, and only so many are left. -/
theorem IsDescription.chain_le (h : IsDescription b depth pos) (hdepth : depth ≤ maxDepth + 1)
    (linked : (pos :: chain).IsChain (Refers b)) : depth + chain.length ≤ maxDepth + 1 := by
  induction chain generalizing depth pos with
  | nil => exact hdepth
  | cons q chain ih =>
    obtain ⟨ref, linked⟩ := List.isChain_cons_cons.mp linked
    obtain ⟨inner, hq⟩ := h.next ref
    have hrest := ih hq (Nat.succ_le_succ inner) linked
    rw [List.length_cons]
    omega

theorem readAt_of_chain (linked : (pos :: chain).IsChain (Refers b))
    (long : maxDepth + 2 < (pos :: chain).length) : (readAt b 0 pos).value = none := by
  refine (exact_readAt b pos).rejects fun h => ?_
  have hle := h.chain_le (Nat.zero_le _) linked
  rw [List.length_cons] at long
  omega

theorem IsDescription.acc (h : IsDescription b depth pos) : Acc (Function.swap (Refers b)) pos := by
  induction h with
  | @intro depth pos room nested entries members ih =>
    refine ⟨pos, fun q ref => ?_⟩
    obtain ⟨i, hi, hq⟩ := ref
    rw [Block.word?_eq, if_pos (show memberEntry b pos i + 4 + 4 ≤ b.size from entries i hi)] at hq
    exact Option.some.inj hq ▸ ih i hi

theorem IsDescription.reached (h : IsDescription b depth pos)
    (path : Relation.ReflTransGen (Refers b) pos q) : ∃ depth, IsDescription b depth q := by
  induction path with
  | refl => exact ⟨depth, h⟩
  | tail _ ref ih =>
    obtain ⟨depth, hq⟩ := ih
    exact ⟨depth + 1, (hq.next ref).2⟩

theorem IsDescription.not_circle (h : IsDescription b depth pos) :
    ¬ Relation.TransGen (Refers b) pos pos := by
  intro circle
  have hcircle := Relation.transGen_swap.mpr circle
  have hacc := h.acc.transGen
  clear h circle
  induction hacc with
  | intro pos _ ih => exact ih pos hcircle hcircle

theorem readAt_of_circle (path : Relation.ReflTransGen (Refers b) pos q)
    (circle : Relation.TransGen (Refers b) q q) : (readAt b 0 pos).value = none := by
  refine (exact_readAt b pos).rejects fun h => ?_
  obtain ⟨depth, hq⟩ := h.reached path
  exact hq.not_circle circle

/-! ### Tables -/

def IsTypeOffset (b : Block) (pos : Nat) : Prop :=
  ∃ i < recordCount b, b.word (recordBase b i + 12) = pos

theorem IsTypeOffset.not_isTable {version : Word} (h : IsTypeOffset b pos)
    (bad : (readAt b 0 pos).value = none) : ¬ IsTable b version := by
  intro htable
  obtain ⟨i, hi, rfl⟩ := h
  have haccepts := (exact_readAt b _).accepts (htable.records i hi).type
  rw [haccepts] at bad
  cases bad

end Symbol

open ShaderLift.Symbol

def Visit.tableWords? (v : Visit) : Option (List Word) :=
  match UnitHead.ofWord v.word with
  | .comment length =>
    if length ≤ v.rest.length then
      match v.rest.take length with
      | id :: word :: rest => if id = Word.symbolTableId then some (word :: rest) else none
      | _ => none
    else none
  | _ => none

theorem Visit.after_of_tableWords? (h : v.tableWords? = some payload) :
    v.after = (v.before.failIf (Word.flag v.word 31) .commentHighBit).readTable v.env payload := by
  unfold Visit.tableWords? at h
  split at h
  next length hhead =>
    split at h
    next fits =>
      split at h
      next id word rest hwords =>
        split at h
        next hid =>
          obtain rfl := Option.some.inj h
          rw [Visit.after, Scan.readUnit, hhead]
          dsimp only
          rw [if_pos fits, hwords, hid, Scan.readComment, if_neg (by decide), if_pos rfl]
        next => cases h
      next => cases h
    next => cases h
  next => cases h

theorem Visit.faults_of_not_isTable (h : v.tableWords? = some payload)
    (bad : ∀ version, ¬ IsTable (Block.ofWords payload) version) : v.after.faults ≠ [] := by
  intro clean
  rw [Visit.after_of_tableWords? h] at clean
  obtain ⟨-, hnone⟩ := Scan.first_of_readTable clean
  obtain ⟨faults, -, htable⟩ := table_of_not_isTable (bad v.env.versionWord)
  rw [htable] at hnone
  exact List.append_ne_nil_of_right_ne_nil faults (List.cons_ne_nil _ _) hnone

theorem liftWords_of_not_isTable (p : Glsl.Profile) (o : Options) (ws : List Word)
    (hv : v ∈ unitsOf o ws) (h : v.tableWords? = some payload)
    (bad : ∀ version, ¬ IsTable (Block.ofWords payload) version) :
    (liftWords p o ws).errors ≠ [] ∧ (liftWords p o ws).symbols = [] := by
  have herrors : (liftWords p o ws).errors ≠ [] := by
    intro hnone
    have hreported := (unitsOf_reported p o ws v hv).2
    rw [hnone, List.prefix_nil, List.map_eq_nil_iff] at hreported
    exact Visit.faults_of_not_isTable h bad hreported
  refine ⟨herrors, ?_⟩
  rw [liftWords_of_errors p o ws herrors]

namespace Symbol

/-- **Types are read to a bounded depth, whatever the bytes.**  Reading level by level comes to an end and
has one outcome.  Members are at most at level 301. A chain of more than 302 descriptions cannot be read, nor
can a circle, and a table with such a type has no symbols and at least one fault. -/
theorem readAt_bounded (b : Block) (pos : Nat) :
    readAt b 0 pos = typeInfo b (maxDepth + 1) pos ∧
    WellFounded (Calls b) ∧
    (∀ read : Nat → Nat → Attempt TypeInfo,
      (∀ depth pos, read depth pos = readLevel b read depth pos) ↔ read = readAt b) ∧
    (∀ t, (readAt b 0 pos).value = some t → ∀ depth u, t.Holds depth u →
      depth ≤ 301 ∧ (u.members ≠ [] → depth ≤ 300)) ∧
    (∀ chain, (pos :: chain).IsChain (Refers b) → 302 < (pos :: chain).length →
      (readAt b 0 pos).value = none) ∧
    (∀ q, Relation.ReflTransGen (Refers b) pos q → Relation.TransGen (Refers b) q q →
      (readAt b 0 pos).value = none) ∧
    (∀ payload, Block.ofWords payload = b → IsTypeOffset b pos → (readAt b 0 pos).value = none →
      (∀ version, ∃ faults, table payload version = ⟨faults ++ [refusal b], none⟩) ∧
      ∀ p o ws, ∀ v ∈ unitsOf o ws, v.tableWords? = some payload →
        (liftWords p o ws).errors ≠ [] ∧ (liftWords p o ws).symbols = []) := by
  refine ⟨rfl, wellFounded_calls b, eq_readAt_iff, fun t ht depth u hu => depth_le_of_holds ht hu,
    fun chain linked long => readAt_of_chain linked long,
    fun q path circle => readAt_of_circle path circle, ?_⟩
  rintro payload rfl htype bad
  have hno : ∀ version, ¬ IsTable (Block.ofWords payload) version := fun version => htype.not_isTable bad
  refine ⟨fun version => ?_, fun p o ws v hv h => liftWords_of_not_isTable p o ws hv h hno⟩
  obtain ⟨faults, -, htable⟩ := table_of_not_isTable (hno version)
  exact ⟨faults, htable⟩

/-- A table with one symbol, a structure whose only member has the type of the structure itself. -/
def circularDescription : List Word :=
  [28, 72, 0xFFFE0200, 1, 28, 0, 72,
    72, 0x00040002, 1, 48, 0,
    5, 0x00010001, 0x00010001, 64,
    72, 48,
    0x00620061]

theorem refers_circularDescription : Refers (Block.ofWords circularDescription) 48 48 :=
  ⟨0, by decide +kernel, by decide +kernel⟩

/-- The structure that holds itself is refused, and its table with it. -/
theorem readAt_circularDescription :
    Relation.TransGen (Refers (Block.ofWords circularDescription)) 48 48 ∧
      IsTypeOffset (Block.ofWords circularDescription) 48 ∧
      (readAt (Block.ofWords circularDescription) 0 48).value = none ∧
      (table circularDescription 0xFFFE0200).value = none := by
  have hcircle := Relation.TransGen.single refers_circularDescription
  have htype : IsTypeOffset (Block.ofWords circularDescription) 48 :=
    ⟨0, by decide +kernel, by decide +kernel⟩
  obtain ⟨-, -, -, -, -, hnone, htable⟩ := readAt_bounded (Block.ofWords circularDescription) 48
  have hbad := hnone 48 .refl hcircle
  obtain ⟨faults, heq⟩ := (htable circularDescription rfl htype hbad).1 0xFFFE0200
  exact ⟨hcircle, htype, hbad, congrArg Attempt.value heq⟩

end Symbol

end ShaderLift
