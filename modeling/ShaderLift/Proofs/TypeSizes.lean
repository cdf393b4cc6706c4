/-
How large types can be.  A type is a tree, but its description is not: members may share a description,
and then everything below it is read once for each of them.  `places` lists the descriptions that are read
for a type, as often as they are, and a type has one node for each.

A table where no symbol reads a description too often has no more than quadratically many nodes.  What
holds of all tables is only what the depth allows, which is as good as no bound: a few shared descriptions
make a complete tree (`length_places_of_alike`).
-/
import Mathlib.Algebra.BigOperators.Group.Finset.Basic
import Mathlib.Algebra.Order.BigOperators.Group.Finset
import ShaderLift.Proofs.TypeNesting

namespace ShaderLift.Symbol

variable {b : Block} {levels depth pos : Nat}

/-! ### Nodes -/

mutual

/-- The number of nodes of a type: itself, and those of its members. -/
def TypeInfo.nodes : TypeInfo → Nat
  | .mk _ _ _ _ _ members => 1 + memberNodes members

def memberNodes : List (String × TypeInfo) → Nat
  | [] => 0
  | (_, t) :: members => t.nodes + memberNodes members

end

def symbolNodes : List Symbol → Nat
  | [] => 0
  | s :: ss => s.type.nodes + symbolNodes ss

/-- Where the descriptions are that are read for the type described at `pos`, one for each time. -/
def places (b : Block) : (levels pos : Nat) → List Nat
  | 0, pos => [pos]
  | levels + 1, pos => pos :: (List.range (memberCount b pos)).flatMap fun i =>
      places b levels (b.word (memberEntry b pos i + 4))

def symbolPlaces (b : Block) (i : Nat) : List Nat :=
  places b (maxDepth + 1) (b.word (recordBase b i + 12))

theorem memberNodes_map {ι : Type} (l : List ι) (f : ι → String × TypeInfo) (g : ι → List Nat)
    (h : ∀ i ∈ l, (f i).2.nodes = (g i).length) : memberNodes (l.map f) = (l.flatMap g).length := by
  induction l with
  | nil => rfl
  | cons i l ih =>
    obtain ⟨hi, hl⟩ := List.forall_mem_cons.mp h
    rw [List.map_cons, List.flatMap_cons, List.length_append, ← ih hl, ← hi]
    rfl

theorem nodes_typeAt (b : Block) (levels pos : Nat) :
    (typeAt b levels pos).nodes = (places b levels pos).length := by
  induction levels generalizing pos with
  | zero => rfl
  | succ levels ih =>
    show 1 + memberNodes _ = ((_ :: _ : List Nat)).length
    rw [memberNodes_map _ _ _ fun i _ => ih (b.word (memberEntry b pos i + 4)), List.length_cons,
      Nat.add_comm]

theorem symbolNodes_tableSymbols (b : Block) :
    symbolNodes (tableSymbols b) = ((List.range (recordCount b)).flatMap (symbolPlaces b)).length := by
  unfold tableSymbols
  induction List.range (recordCount b) with
  | nil => rfl
  | cons i l ih =>
    rw [List.map_cons, List.flatMap_cons, List.length_append, symbolNodes, ih]
    exact congrArg (· + _) (nodes_typeAt b _ _)

/-! ### Bounds -/

/-- The number of nodes of the tree in which all nodes have `m` children, so many levels deep. -/
def treeSize (m : Nat) : (levels : Nat) → Nat
  | 0 => 1
  | levels + 1 => 1 + m * treeSize m levels

theorem length_flatMap_le {ι : Type} {l : List ι} {g : ι → List Nat} {n : Nat}
    (h : ∀ i ∈ l, (g i).length ≤ n) : (l.flatMap g).length ≤ l.length * n := by
  have hsum := List.sum_le_card_nsmul (l.map fun i => (g i).length) n (List.forall_mem_map.mpr h)
  rw [List.length_map] at hsum
  rw [List.length_flatMap]
  exact hsum

theorem length_le_of_count_le {l : List Nat} {k n : Nat} (few : ∀ q, l.count q ≤ k)
    (below : ∀ q ∈ l, q < n) : l.length ≤ n * k := by
  have hmem : ∀ q ∈ (l : Multiset Nat), q ∈ Finset.range n := fun q hq => Finset.mem_range.mpr (below q hq)
  calc l.length = ∑ q ∈ Finset.range n, Multiset.count q (l : Multiset Nat) :=
        (Multiset.sum_count_eq_card hmem).symm
    _ ≤ (Finset.range n).card * k := Finset.sum_le_card_nsmul _ _ k fun q _ => by
        rw [Multiset.coe_count]
        exact few q
    _ = n * k := by rw [Finset.card_range]

theorem IsDescription.inside (h : IsDescription b depth pos) (sum : levels + depth = 301) :
    ∀ q ∈ places b levels pos, q + 16 < b.size := by
  induction levels generalizing depth pos with
  | zero =>
    obtain ⟨room, -, -, -⟩ := h
    exact List.forall_mem_singleton.mpr (by omega)
  | succ levels ih =>
    obtain ⟨room, -, -, members⟩ := h
    refine List.forall_mem_cons.mpr ⟨by omega, fun q hq => ?_⟩
    obtain ⟨i, hi, hq⟩ := List.mem_flatMap.mp hq
    exact ih (members i (List.mem_range.mp hi)) (by omega) q hq

theorem IsDescription.length_places_le (h : IsDescription b depth pos) (sum : levels + depth = 301) :
    (places b levels pos).length ≤ treeSize (b.size / 8) levels := by
  induction levels generalizing depth pos with
  | zero => exact Nat.le_refl _
  | succ levels ih =>
    obtain ⟨room, -, -, members⟩ := h
    have hmembers := length_flatMap_le (l := List.range (memberCount b pos)) fun i hi =>
      ih (members i (List.mem_range.mp hi)) (by omega)
    have hcount : memberCount b pos ≤ b.size / 8 := by omega
    rw [List.length_range] at hmembers
    have hall := Nat.le_trans hmembers (Nat.mul_le_mul_right _ hcount)
    rw [places, List.length_cons, treeSize]
    omega

/-- The nodes of a table whose symbols have no more than `n` each. -/
theorem IsTable.nodes_le {version : Word} {n : Nat} (h : IsTable b version)
    (each : ∀ i < recordCount b, (symbolPlaces b i).length ≤ n) :
    20 * symbolNodes (tableSymbols b) ≤ b.size * n := by
  have hroom : b.word 16 + recordCount b * 20 ≤ b.size := h.room
  have hlength := length_flatMap_le (l := List.range (recordCount b)) fun i hi =>
    each i (List.mem_range.mp hi)
  rw [List.length_range, ← symbolNodes_tableSymbols] at hlength
  calc 20 * symbolNodes (tableSymbols b)
      ≤ 20 * (recordCount b * n) := Nat.mul_le_mul_left 20 hlength
    _ = recordCount b * 20 * n := by rw [← Nat.mul_assoc, Nat.mul_comm 20]
    _ ≤ b.size * n := Nat.mul_le_mul_right n (by omega)

/-! ### Shared descriptions -/

/-- The description at `pos` has `m` members, all of which are described at `q`. -/
structure Alike (b : Block) (pos m q : Nat) : Prop where
  count : memberCount b pos = m
  room : pos + 16 + m * 8 < b.size
  entries : ∀ i < m, memberEntry b pos i + 8 ≤ b.size
  members : ∀ i < m, b.word (memberEntry b pos i + 4) = q

instance (b : Block) (pos m q : Nat) : Decidable (Alike b pos m q) :=
  decidable_of_iff
    (memberCount b pos = m ∧ pos + 16 + m * 8 < b.size ∧ (∀ i < m, memberEntry b pos i + 8 ≤ b.size) ∧
      ∀ i < m, b.word (memberEntry b pos i + 4) = q)
    ⟨fun ⟨count, room, entries, members⟩ => ⟨count, room, entries, members⟩,
      fun ⟨count, room, entries, members⟩ => ⟨count, room, entries, members⟩⟩

section Alike

variable {m q : Nat}

theorem Alike.isDescription (h : Alike b pos m q) (inner : depth ≤ 300)
    (hq : IsDescription b (depth + 1) q) : IsDescription b depth pos := by
  obtain ⟨rfl, room, entries, members⟩ := h
  exact .intro room (fun _ => inner) entries fun i hi => (members i hi).symm ▸ hq

theorem Alike.length_places (h : Alike b pos m q) (levels : Nat) :
    (places b (levels + 1) pos).length = 1 + m * (places b levels q).length := by
  obtain ⟨rfl, -, -, members⟩ := h
  have hsame : ((List.range (memberCount b pos)).flatMap fun i =>
      places b levels (b.word (memberEntry b pos i + 4))) =
      (List.range (memberCount b pos)).flatMap fun _ => places b levels q :=
    List.flatMap_congr fun i hi => by rw [members i (List.mem_range.mp hi)]
  rw [places, List.length_cons, hsame, List.length_flatMap]
  simp [Nat.add_comm]

/-- Descriptions in a row, each shared by all members of the one before, are read as a complete tree. -/
theorem length_places_of_alike {q : Nat → Nat} {n : Nat}
    (alike : ∀ k < n, Alike b (q k) m (q (k + 1))) (last : memberCount b (q n) = 0) (levels : Nat) :
    (places b (n + levels) (q 0)).length = treeSize m n := by
  induction n generalizing q with
  | zero =>
    cases levels with
    | zero => rfl
    | succ levels =>
      rw [Nat.zero_add, places, last]
      rfl
  | succ n ih =>
    have hrest := ih (q := fun k => q (k + 1)) (fun k hk => alike (k + 1) (Nat.succ_lt_succ hk)) last
    rw [Nat.succ_add, (alike 0 (Nat.succ_pos n)).length_places, hrest, treeSize]

theorem length_symbolPlaces_of_alike {i n : Nat} {q : Nat → Nat}
    (start : b.word (recordBase b i + 12) = q 0) (shallow : n ≤ 301)
    (alike : ∀ k < n, Alike b (q k) m (q (k + 1))) (last : memberCount b (q n) = 0) :
    (symbolPlaces b i).length = treeSize m n := by
  have hlevels : maxDepth + 1 = n + (301 - n) := by
    rw [maxDepth]
    omega
  rw [symbolPlaces, start, hlevels, length_places_of_alike alike last]

theorem isDescription_of_alike {q : Nat → Nat} {n : Nat}
    (alike : ∀ k < n, Alike b (q k) m (q (k + 1))) (last : memberCount b (q n) = 0)
    (room : q n + 16 < b.size) (shallow : depth + n ≤ 301) : IsDescription b depth (q 0) := by
  induction n generalizing q depth with
  | zero =>
    refine .intro ?_ ?_ ?_ ?_
    all_goals simp [last, room]
  | succ n ih =>
    refine (alike 0 (Nat.succ_pos n)).isDescription (by omega) ?_
    exact ih (q := fun k => q (k + 1)) (fun k hk => alike (k + 1) (Nat.succ_lt_succ hk)) last room
      (by omega)

end Alike

/-! ### Tables -/

/-- What is known about the number of nodes of the symbols of a table. -/
structure NodesBounded (b : Block) (ss : List Symbol) : Prop where
  /-- There is one for each description that is read. -/
  counted : symbolNodes ss = ((List.range (recordCount b)).flatMap (symbolPlaces b)).length
  inside : ∀ i < recordCount b, ∀ q ∈ symbolPlaces b i, q + 16 < b.size
  /-- If no description is read more than `k` times for a symbol, there are at most `k / 20` times the
  square of the size. -/
  rare : ∀ k, (∀ i < recordCount b, ∀ q, (symbolPlaces b i).count q ≤ k) →
    20 * symbolNodes ss ≤ b.size * (b.size * k)
  /-- In any case there are no more than members that take eight bytes each can make in so many levels. -/
  deep : 20 * symbolNodes ss ≤ b.size * treeSize (b.size / 8) 301
  /-- Complete trees come up: where a symbol starts with descriptions in a row, each shared by all members
  of the one before. -/
  complete : ∀ i < recordCount b, ∀ (q : Nat → Nat) (m n : Nat), b.word (recordBase b i + 12) = q 0 →
    n ≤ 301 → (∀ k < n, Alike b (q k) m (q (k + 1))) → memberCount b (q n) = 0 →
    (symbolPlaces b i).length = treeSize m n

/-- **The nodes of a table are as many as descriptions are read**: quadratically many unless these are
shared. -/
theorem table_nodes_bounded (payload : List Word) (version : Word) (ss : List Symbol)
    (accepted : (table payload version).value = some ss) :
    NodesBounded (Block.ofWords payload) ss := by
  have htable : IsTable (Block.ofWords payload) version := by
    by_contra hno
    obtain ⟨faults, -, hrefused⟩ := table_of_not_isTable hno
    rw [hrefused] at accepted
    cases accepted
  rw [table_of_isTable htable] at accepted
  obtain rfl := Option.some.inj accepted
  have hinside : ∀ i < recordCount (Block.ofWords payload),
      ∀ q ∈ symbolPlaces (Block.ofWords payload) i, q + 16 < (Block.ofWords payload).size :=
    fun i hi => (htable.records i hi).type.inside rfl
  refine ⟨symbolNodes_tableSymbols _, hinside, fun k few => htable.nodes_le fun i hi => ?_,
    htable.nodes_le fun i hi => (htable.records i hi).type.length_places_le rfl, ?_⟩
  · refine length_le_of_count_le (few i hi) fun q hq => ?_
    have hroom := hinside i hi q hq
    omega
  · exact fun i _ q m n start shallow alike last => length_symbolPlaces_of_alike start shallow alike last

theorem table_nodes_bounded_sharedDescription :
    (table Scan.sharedDescription 0xFFFE0200).value =
        some (tableSymbols (Block.ofWords Scan.sharedDescription)) ∧
      NodesBounded (Block.ofWords Scan.sharedDescription)
        (tableSymbols (Block.ofWords Scan.sharedDescription)) := by
  have haccepted := congrArg Attempt.value (table_of_isTable Scan.isTable_sharedDescription)
  exact ⟨haccepted, table_nodes_bounded Scan.sharedDescription 0xFFFE0200 _ haccepted⟩

/-- A table with a structure of six members that share one description, that of such a structure again, for
seven levels. -/
def sharedMembers : List Word :=
  [28, 20, 0xFFFE0200, 1, 28, 0, 20,
    20, 2, 1, 48, 20,
    0x00030005, 0x00010001, 0x00060001, 176,
    0x00030005, 0x00010001, 0x00060001, 224,
    0x00030005, 0x00010001, 0x00060001, 272,
    0x00030005, 0x00010001, 0x00060001, 320,
    0x00030005, 0x00010001, 0x00060001, 368,
    0x00030005, 0x00010001, 0x00060001, 416,
    0x00030005, 0x00010001, 0x00060001, 464,
    0x00030000, 0x00010001, 1, 0,
    20, 64, 20, 64, 20, 64, 20, 64, 20, 64, 20, 64,
    20, 80, 20, 80, 20, 80, 20, 80, 20, 80, 20, 80,
    20, 96, 20, 96, 20, 96, 20, 96, 20, 96, 20, 96,
    20, 112, 20, 112, 20, 112, 20, 112, 20, 112, 20, 112,
    20, 128, 20, 128, 20, 128, 20, 128, 20, 128, 20, 128,
    20, 144, 20, 144, 20, 144, 20, 144, 20, 144, 20, 144,
    20, 160, 20, 160, 20, 160, 20, 160, 20, 160, 20, 160]

theorem alike_sharedMembers :
    ∀ k < 7, Alike (Block.ofWords sharedMembers) (48 + k * 16) 6 (48 + (k + 1) * 16) := by
  decide +kernel

theorem memberCount_sharedMembers : memberCount (Block.ofWords sharedMembers) 160 = 0 := by
  decide +kernel

theorem recordCount_sharedMembers : recordCount (Block.ofWords sharedMembers) = 1 := by decide +kernel

theorem typeOffset_sharedMembers : (Block.ofWords sharedMembers).word
    (recordBase (Block.ofWords sharedMembers) 0 + 12) = 48 := by
  decide +kernel

theorem isTable_sharedMembers : IsTable (Block.ofWords sharedMembers) 0xFFFE0200 where
  header := by decide +kernel
  size := by decide +kernel
  creator := by decide +kernel
  version := by decide +kernel
  count := by decide +kernel
  start := by decide +kernel
  room := by decide +kernel
  target := by decide +kernel
  records i hi := by
    have hcount := recordCount_sharedMembers
    obtain rfl : i = 0 := by omega
    refine ⟨by decide +kernel, by decide +kernel, ?_, by decide +kernel⟩
    rw [typeOffset_sharedMembers]
    exact isDescription_of_alike (q := fun k => 48 + k * 16) alike_sharedMembers
      memberCount_sharedMembers (by decide +kernel) (by decide)

/-- The table is accepted, and has more nodes than the square of its size. -/
theorem sharedMembers_exceed_square :
    ∃ ss, (table sharedMembers 0xFFFE0200).value = some ss ∧
      (Block.ofWords sharedMembers).size = 512 ∧ symbolNodes ss = 335923 ∧ 512 * 512 < symbolNodes ss := by
  have hplaces : (symbolPlaces (Block.ofWords sharedMembers) 0).length = 335923 :=
    length_symbolPlaces_of_alike (q := fun k => 48 + k * 16) typeOffset_sharedMembers (by decide)
      alike_sharedMembers memberCount_sharedMembers
  have hnodes : symbolNodes (tableSymbols (Block.ofWords sharedMembers)) = 335923 := by
    rw [symbolNodes_tableSymbols, recordCount_sharedMembers, List.range_one, List.flatMap_singleton, hplaces]
  refine ⟨_, congrArg Attempt.value (table_of_isTable isTable_sharedMembers), by decide +kernel, hnodes, ?_⟩
  rw [hnodes]
  decide

end ShaderLift.Symbol
