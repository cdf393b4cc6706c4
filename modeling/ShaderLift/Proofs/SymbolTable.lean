/-
The layout of symbol tables.  A table is a block of bytes in which everything is found by offsets, and
the decoder checks each offset before it follows it.  The layout says at one go what these checks come to:

    IsTable b version       for the header,
    IsRecord b base         for a symbol,
    IsDescription b 0 pos   for a type, which goes on to the types of its members.

What a block with this layout says can be read off without a check (`tableSymbols`).  Decoders are
compared with the layout part by part.  One is `Exact` if it comes to a result just where the layout asks
for it, and if this result and the faults on the way are those that can be read off.  This carries over to
decoders that go on with each other's results, and to lists of them.
-/
import ShaderLift.Proofs.Inventory

namespace ShaderLift

/-! ### Exact decoders -/

namespace Attempt

variable {α β : Type}

/-- The decoder gives `x`, with some faults on the way, where `ok` holds, and gives up elsewhere.  All
its faults are of one kind. -/
structure Exact (kind : Fault → Prop) (a : Attempt α) (ok : Prop) (faults : List Fault) (x : α) :
    Prop where
  accepts : ok → a = ⟨faults, some x⟩
  rejects : ¬ ok → a.value = none
  known : ∀ f ∈ a.faults, kind f

namespace Exact

variable {kind : Fault → Prop} {a : Attempt α} {ok ok' : Prop} {faults faults' : List Fault}
variable {x x' : α}

theorem congr (h : Exact kind a ok faults x) (hok : ok ↔ ok') (hfaults : ok → faults = faults')
    (hx : ok → x = x') : Exact kind a ok' faults' x' where
  accepts h' := by
    have hthis := hok.mpr h'
    rw [h.accepts hthis, hfaults hthis, hx hthis]
  rejects h' := h.rejects (mt hok.mp h')
  known := h.known

theorem pure (x : α) : Exact kind (Pure.pure x) True [] x where
  accepts _ := rfl
  rejects h := absurd trivial h
  known _ hf := absurd hf List.not_mem_nil

theorem require (b : Bool) : Exact kind (Attempt.require b) (b = true) [] () := by
  cases b with
  | true => exact (pure ()).congr (iff_of_true trivial rfl) (fun _ => rfl) fun _ => rfl
  | false =>
    exact ⟨fun h => absurd h Bool.false_ne_true, fun _ => rfl, fun _ hf => absurd hf List.not_mem_nil⟩

theorem ofOption {o : Option α} [Decidable ok] (h : o = if ok then some x else none) :
    Exact kind (Attempt.ofOption o) ok [] x := by
  subst h
  split
  next hok => exact (pure x).congr (iff_of_true trivial hok) (fun _ => rfl) fun _ => rfl
  next hok => exact ⟨fun h => absurd h hok, fun _ => rfl, fun _ hf => absurd hf List.not_mem_nil⟩

theorem bind {f : α → Attempt β} {y : β} (h : Exact kind a ok faults x)
    (hf : ok → Exact kind (f x) ok' faults' y) :
    Exact kind (a >>= f) (ok ∧ ok') (faults ++ faults') y := by
  by_cases hok : ok
  · have hnext := hf hok
    have hfaults : ∀ g ∈ faults, kind g := by
      intro g hg
      exact h.known g (by rw [h.accepts hok]; exact hg)
    have hbind : a >>= f = ⟨faults ++ (f x).faults, (f x).value⟩ := by
      rw [h.accepts hok]
      rfl
    rw [hbind]
    refine ⟨fun hboth => ?_, fun hnot => ?_, fun g hg => ?_⟩
    · rw [hnext.accepts hboth.2]
    · exact hnext.rejects fun hok' => hnot ⟨hok, hok'⟩
    · rcases List.mem_append.mp hg with hg | hg
      · exact hfaults g hg
      · exact hnext.known g hg
  -- What `f` does plays no part: nothing is left to go on with.
  · have hbind : a >>= f = ⟨a.faults, none⟩ := by
      have hnone := h.rejects hok
      obtain ⟨fs, value⟩ := a
      cases hnone
      rfl
    rw [hbind]
    exact ⟨fun hboth => absurd hboth.1 hok, fun _ => rfl, h.known⟩

theorem map (h : Exact kind a ok faults x) (g : α → β) :
    Exact kind (a >>= fun y => Pure.pure (g y)) ok faults (g x) :=
  (h.bind fun _ => pure (g x)).congr (and_iff_left trivial) (fun _ => List.append_nil faults)
    fun _ => rfl

theorem mapM {ι : Type} {l : List ι} {f : ι → Attempt α} {ok : ι → Prop} {faults : ι → List Fault}
    {x : ι → α} (h : ∀ i ∈ l, Exact kind (f i) (ok i) (faults i) (x i)) :
    Exact kind (l.mapM f) (∀ i ∈ l, ok i) (l.flatMap faults) (l.map x) := by
  induction l with
  | nil => exact (pure []).congr (by simp) (fun _ => rfl) fun _ => rfl
  | cons i l ih =>
    obtain ⟨hi, hl⟩ := List.forall_mem_cons.mp h
    rw [List.mapM_cons]
    refine (hi.bind fun _ => (ih hl).map (x i :: ·)).congr List.forall_mem_cons.symm ?_ fun _ => rfl
    intro _
    rw [List.flatMap_cons]

end Exact

end Attempt

namespace Symbol

variable {kind : Fault → Prop} {payload : List Word} {depth : Nat} {version : Word}

/-! ### Numbers and texts of a block -/

namespace Block

def byte (b : Block) (n : Nat) : Nat := (b[n]?.getD 0).toNat

def half (b : Block) (n : Nat) : Nat := b.byte n + 256 * b.byte (n + 1)

def word (b : Block) (n : Nat) : Nat := b.half n + 65536 * b.half (n + 2)

/-- The text from an offset on, up to a zero byte or the end; outside of the block it is empty. -/
def text (b : Block) (n : Nat) : String :=
  if n < b.size then Utf8.decode ((b.toList.drop n).takeWhile (· != 0)) else ""

theorem half?_eq (b : Block) (n : Nat) :
    b.half? n = if n + 2 ≤ b.size then some (b.half n) else none := by
  unfold half?
  split
  next h =>
    rw [half, byte, byte, Array.getElem?_eq_getElem (show n < b.size by omega),
      Array.getElem?_eq_getElem (show n + 1 < b.size by omega)]
    rfl
  next h =>
    rw [Array.getElem?_eq_none (show b.size ≤ n + 1 by omega)]
    cases b[n]? <;> rfl

theorem word?_eq (b : Block) (n : Nat) :
    b.word? n = if n + 4 ≤ b.size then some (b.word n) else none := by
  unfold word?
  split
  next h =>
    rw [half?_eq, half?_eq, if_pos (show n + 2 ≤ b.size by omega),
      if_pos (show n + 2 + 2 ≤ b.size by omega)]
    rfl
  next h =>
    rw [half?_eq b (n + 2), if_neg (show ¬ n + 2 + 2 ≤ b.size by omega)]
    cases b.half? n <;> rfl

theorem text?_eq (b : Block) (n : Nat) :
    b.text? n = if n < b.size then some (b.text n) else none := by
  unfold text? text
  split <;> rfl

theorem getD_text? (b : Block) (n : Nat) : (b.text? n).getD "" = b.text n := by
  unfold text? text
  split <;> rfl

end Block

/-! ### The layout -/

def memberCount (b : Block) (pos : Nat) : Nat := b.half (pos + 10)

def memberEntry (b : Block) (pos i : Nat) : Nat := b.word (pos + 12) + i * 8

/-- There is a type description at `pos`, at some depth in a type. -/
inductive IsDescription (b : Block) : (depth pos : Nat) → Prop
  | intro {depth pos : Nat}
      -- Room for the entries is asked for behind the description, wherever the entries are.
      (room : pos + 16 + memberCount b pos * 8 < b.size)
      (nested : 0 < memberCount b pos → depth ≤ 300)
      (entries : ∀ i < memberCount b pos, memberEntry b pos i + 8 ≤ b.size)
      (members : ∀ i < memberCount b pos,
        IsDescription b (depth + 1) (b.word (memberEntry b pos i + 4))) :
      IsDescription b depth pos

/-- There is the record of a symbol at `base`. -/
structure IsRecord (b : Block) (base : Nat) : Prop where
  name : b.word base < b.size
  set : b.half (base + 4) ≤ 3
  type : IsDescription b 0 (b.word (base + 12))
  default : b.word (base + 16) < b.size

def recordCount (b : Block) : Nat := b.word 12

def recordBase (b : Block) (i : Nat) : Nat := b.word 16 + i * 20

/-- The block is a symbol table for a version of shaders. -/
structure IsTable (b : Block) (version : Word) : Prop where
  header : 28 ≤ b.size
  size : b.word 0 = 28
  creator : b.word 4 < b.size
  version : b.word 8 = version.toNat
  count : recordCount b ≤ 1000000
  start : b.word 16 < b.size
  room : recordBase b (recordCount b) ≤ b.size
  target : b.word 24 < b.size
  records : ∀ i < recordCount b, IsRecord b (recordBase b i)

/-! ### What a table says -/

def arrangementAt (b : Block) (pos : Nat) : Arrangement :=
  (Arrangement.ofCode? (b.half pos)).getD .scalar

def baseTypeAt (b : Block) (pos : Nat) : BaseType :=
  (BaseType.ofCode? (b.half (pos + 2))).getD .int

def descriptionAt (b : Block) (pos : Nat) : Description :=
  { arrangement := arrangementAt b pos
    base := baseTypeAt b pos
    rows := b.half (pos + 4)
    columns := b.half (pos + 6)
    elements := b.half (pos + 8)
    memberCount := memberCount b pos
    memberOffset := b.word (pos + 12) }

def unknownCodes (b : Block) (pos : Nat) : List Fault :=
  faultIf (Arrangement.ofCode? (b.half pos)).isNone (.unknownClass (b.half pos))
    ++ faultIf (BaseType.ofCode? (b.half (pos + 2))).isNone (.unknownType (b.half (pos + 2)))

def typeAt (b : Block) : (levels pos : Nat) → TypeInfo
  | 0, pos => (descriptionAt b pos).typeInfo []
  | levels + 1, pos =>
    (descriptionAt b pos).typeInfo <| (List.range (memberCount b pos)).map fun i =>
      (b.text (b.word (memberEntry b pos i)), typeAt b levels (b.word (memberEntry b pos i + 4)))

def typeFaults (b : Block) : (levels pos : Nat) → List Fault
  | 0, pos => unknownCodes b pos
  | levels + 1, pos =>
    unknownCodes b pos ++ (List.range (memberCount b pos)).flatMap fun i =>
      typeFaults b levels (b.word (memberEntry b pos i + 4))

def setAt (b : Block) (base : Nat) : RegisterSet :=
  (RegisterSet.ofCode? (b.half (base + 4))).getD .sampler

def symbolAt (b : Block) (base : Nat) : Symbol :=
  { name := b.text (b.word base)
    registerSet := setAt b base
    registerIndex := b.half (base + 6)
    registerCount := b.half (base + 8)
    type := typeAt b (maxDepth + 1) (b.word (base + 12)) }

def tableSymbols (b : Block) : List Symbol :=
  (List.range (recordCount b)).map fun i => symbolAt b (recordBase b i)

def arrayAt? (b : Block) (base : Nat) : Option ConstantArray :=
  [ConstantKind.bool, .int, .float][b.half (base + 4)]?.map fun kind =>
    { kind, index := b.half (base + 6), count := b.half (base + 8) }

def tableArrays (b : Block) : List ConstantArray :=
  (List.range (recordCount b)).filterMap fun i => arrayAt? b (recordBase b i)

def tableFaults (b : Block) : List Fault :=
  (List.range (recordCount b)).flatMap fun i =>
    typeFaults b (maxDepth + 1) (b.word (recordBase b i + 12))

/-! ### Exactness of the decoders -/

/-- The faults that can come up in type descriptions: a code is unknown, or there are members where a
type has to end. -/
inductive IsTypeFault (b : Block) : Fault → Prop
  | unknownClass {pos : Nat} (inside : pos + 16 ≤ b.size)
      (unknown : Arrangement.ofCode? (b.half pos) = none) : IsTypeFault b (.unknownClass (b.half pos))
  | unknownType {pos : Nat} (inside : pos + 16 ≤ b.size)
      (unknown : BaseType.ofCode? (b.half (pos + 2)) = none) :
      IsTypeFault b (.unknownType (b.half (pos + 2)))
  | endlessType {pos : Nat} (room : pos + 16 + memberCount b pos * 8 < b.size)
      (more : 0 < memberCount b pos) : IsTypeFault b .endlessType

open Attempt (Exact)

variable {b : Block} {pos : Nat}

theorem exact_arrangement (inside : pos + 16 ≤ b.size) :
    Exact (IsTypeFault b) (arrangement (b.half pos)) True
      (faultIf (Arrangement.ofCode? (b.half pos)).isNone (.unknownClass (b.half pos)))
      (arrangementAt b pos) := by
  unfold arrangement arrangementAt
  cases h : Arrangement.ofCode? (b.half pos) with
  | some a => exact Exact.pure a
  | none =>
    refine ⟨fun _ => rfl, fun hno => absurd trivial hno, fun f hf => ?_⟩
    rw [List.mem_singleton.mp hf]
    exact .unknownClass inside h

theorem exact_baseType (inside : pos + 16 ≤ b.size) :
    Exact (IsTypeFault b) (baseType (b.half (pos + 2))) True
      (faultIf (BaseType.ofCode? (b.half (pos + 2))).isNone (.unknownType (b.half (pos + 2))))
      (baseTypeAt b pos) := by
  unfold baseType baseTypeAt
  cases h : BaseType.ofCode? (b.half (pos + 2)) with
  | some t => exact Exact.pure t
  | none =>
    refine ⟨fun _ => rfl, fun hno => absurd trivial hno, fun f hf => ?_⟩
    rw [List.mem_singleton.mp hf]
    exact .unknownType inside h

theorem exact_half (b : Block) (n : Nat) :
    Exact kind (Attempt.ofOption (b.half? n)) (n + 2 ≤ b.size) [] (b.half n) :=
  Exact.ofOption (b.half?_eq n)

theorem exact_word (b : Block) (n : Nat) :
    Exact kind (Attempt.ofOption (b.word? n)) (n + 4 ≤ b.size) [] (b.word n) :=
  Exact.ofOption (b.word?_eq n)

theorem exact_description (b : Block) (pos : Nat) :
    Exact (IsTypeFault b) (description b pos) (pos + 16 + memberCount b pos * 8 < b.size)
      (unknownCodes b pos) (descriptionAt b pos) := by
  unfold description
  refine ((Exact.require _).bind fun inside => (exact_half b pos).bind fun _ =>
    (exact_half b (pos + 2)).bind fun _ => (exact_half b (pos + 4)).bind fun _ =>
    (exact_half b (pos + 6)).bind fun _ => (exact_half b (pos + 8)).bind fun _ =>
    (exact_half b (pos + 10)).bind fun _ => (exact_word b (pos + 12)).bind fun _ =>
    (exact_arrangement (of_decide_eq_true inside)).bind fun _ =>
    (exact_baseType (of_decide_eq_true inside)).bind fun _ =>
    (Exact.require _).bind fun _ => Exact.pure (descriptionAt b pos)).congr ?_ ?_ fun _ => rfl
  · simp only [decide_eq_true_eq, true_and, and_true, memberCount]
    omega
  · intro _
    simp only [List.nil_append, List.append_nil, unknownCodes]

theorem exact_member {read : Nat → Attempt TypeInfo} {offset : Nat} {ok : Prop}
    {faults : List Fault} {t : TypeInfo}
    (h : Exact (IsTypeFault b) (read (b.word (offset + 4))) ok faults t) :
    Exact (IsTypeFault b) (member b read offset) (offset + 8 ≤ b.size ∧ ok) faults
      (b.text (b.word offset), t) := by
  unfold member
  refine ((exact_word b offset).bind fun _ => (exact_word b (offset + 4)).bind fun _ =>
    h.map ((b.text? (b.word offset)).getD "", ·)).congr ?_ (fun _ => rfl) fun _ => ?_
  · have hroom : offset + 4 ≤ b.size ∧ offset + 4 + 4 ≤ b.size ↔ offset + 8 ≤ b.size := by omega
    rw [← and_assoc, hroom]
  · rw [Block.getD_text?]

theorem isDescription_last (last : 300 < depth) :
    IsDescription b depth pos ↔
      pos + 16 + memberCount b pos * 8 < b.size ∧ memberCount b pos = 0 := by
  constructor
  · rintro ⟨room, nested, -, -⟩
    exact ⟨room, Nat.eq_zero_of_not_pos fun h => absurd (nested h) (Nat.not_le.mpr last)⟩
  · rintro ⟨room, none⟩
    refine .intro room (fun h => ?_) (fun i h => ?_) fun i h => ?_
    all_goals omega

theorem isDescription_succ (inner : depth ≤ 300) :
    IsDescription b depth pos ↔
      pos + 16 + memberCount b pos * 8 < b.size ∧
        ∀ i ∈ List.range (memberCount b pos), memberEntry b pos i + 8 ≤ b.size ∧
          IsDescription b (depth + 1) (b.word (memberEntry b pos i + 4)) := by
  constructor
  · rintro ⟨room, -, entries, members⟩
    refine ⟨room, fun i hi => ?_⟩
    have hlt := List.mem_range.mp hi
    exact ⟨entries i hlt, members i hlt⟩
  · rintro ⟨room, h⟩
    exact .intro room (fun _ => inner) (fun i hi => (h i (List.mem_range.mpr hi)).1)
      fun i hi => (h i (List.mem_range.mpr hi)).2

theorem exact_typeInfo_last (room : pos + 16 + memberCount b pos * 8 < b.size) :
    Exact (IsTypeFault b)
      (if (descriptionAt b pos).memberCount = 0 then pure ((descriptionAt b pos).typeInfo [])
        else Attempt.stop .endlessType)
      (memberCount b pos = 0) [] ((descriptionAt b pos).typeInfo []) := by
  split
  next h => exact (Exact.pure _).congr (iff_of_true trivial h) (fun _ => rfl) fun _ => rfl
  next h =>
    refine ⟨fun hno => absurd hno h, fun _ => rfl, fun f hf => ?_⟩
    rw [List.mem_singleton.mp hf]
    exact .endlessType room (Nat.pos_of_ne_zero h)

/-- Types are decoded by their layout.  The levels left and the depth reached always add up. -/
theorem exact_typeInfo (b : Block) {levels : Nat} (sum : levels + depth = 301) (pos : Nat) :
    Exact (IsTypeFault b) (typeInfo b levels pos) (IsDescription b depth pos)
      (typeFaults b levels pos) (typeAt b levels pos) := by
  induction levels generalizing depth pos with
  | zero =>
    -- No level is left, so that the depth is the first one at which members are refused.
    rw [typeInfo, isDescription_last (by omega)]
    exact ((exact_description b pos).bind exact_typeInfo_last).congr Iff.rfl
      (fun _ => List.append_nil _) fun _ => rfl
  | succ levels ih =>
    have hmember : ∀ i ∈ List.range (memberCount b pos),
        Exact (IsTypeFault b) (member b (typeInfo b levels) (memberEntry b pos i)) _ _ _ :=
      fun i _ => exact_member (ih (show levels + (depth + 1) = 301 by omega) _)
    rw [typeInfo, isDescription_succ (by omega)]
    exact (exact_description b pos).bind fun _ => (Exact.mapM hmember).map _

theorem ofCode?_eq (code : Nat) :
    RegisterSet.ofCode? code =
      if code ≤ 3 then some ((RegisterSet.ofCode? code).getD .sampler) else none := by
  match code with
  | 0 | 1 | 2 | 3 => rfl
  | code + 4 =>
    rw [if_neg (by omega)]
    rfl

theorem exact_record {base : Nat} (room : base + 20 ≤ b.size) :
    Exact (IsTypeFault b) (record b base) (IsRecord b base)
      (typeFaults b (maxDepth + 1) (b.word (base + 12))) (symbolAt b base) := by
  have htop : maxDepth + 1 + 0 = 301 := by decide
  unfold record
  refine ((exact_word b base).bind fun _ => (exact_half b (base + 4)).bind fun _ =>
    (exact_half b (base + 6)).bind fun _ => (exact_half b (base + 8)).bind fun _ =>
    (exact_word b (base + 12)).bind fun _ => (exact_word b (base + 16)).bind fun _ =>
    (Exact.ofOption (b.text?_eq (b.word base))).bind fun _ => (Exact.require _).bind fun _ =>
    (Exact.ofOption (ofCode?_eq (b.half (base + 4)))).bind fun _ =>
    (exact_typeInfo b htop (b.word (base + 12))).map _).congr ?_ (fun _ => rfl) fun _ => rfl
  constructor
  · rintro ⟨-, -, -, -, -, -, name, default, set, type⟩
    exact ⟨name, set, type, of_decide_eq_true default⟩
  -- The record itself lies in the block, so that only what it refers to can be missing.
  · rintro ⟨name, set, type, default⟩
    refine ⟨?_, ?_, ?_, ?_, ?_, ?_, name, decide_eq_true default, set, type⟩
    all_goals omega

theorem exact_symbols (header : 28 ≤ b.size) :
    Exact (IsTypeFault b) (symbols b version) (IsTable b version) (tableFaults b) (tableSymbols b) := by
  unfold symbols
  refine ((exact_word b 0).bind fun _ => (exact_word b 4).bind fun _ => (exact_word b 8).bind fun _ =>
    (exact_word b 12).bind fun _ => (exact_word b 16).bind fun _ => (exact_word b 24).bind fun _ =>
    (Exact.require _).bind fun hfields => Exact.mapM fun i hi => exact_record ?_).congr ?_
    (fun _ => rfl) fun _ => rfl
  -- Records are only read once the header is known to be right, and then they lie in the block.
  · simp only [Bool.and_eq_true, decide_eq_true_eq] at hfields
    have hroom : b.word 16 + b.word 12 * 20 ≤ b.size := hfields.1.2
    have hlt := List.mem_range.mp hi
    simp only [recordSize]
    omega
  · simp only [Bool.and_eq_true, decide_eq_true_eq, List.mem_range]
    constructor
    · rintro ⟨-, -, -, -, -, -, fields, records⟩
      obtain ⟨⟨⟨⟨⟨⟨size, count⟩, version⟩, creator⟩, start⟩, room⟩, target⟩ := fields
      exact ⟨header, size, creator, version, count, start, room, target, records⟩
    · rintro ⟨-, size, creator, version, count, start, room, target, records⟩
      refine ⟨?_, ?_, ?_, ?_, ?_, ?_,
        ⟨⟨⟨⟨⟨⟨size, count⟩, version⟩, creator⟩, start⟩, room⟩, target⟩, records⟩
      all_goals omega

/-! ### Tables -/

/-- What is said of a block that is no table. -/
def refusal (b : Block) : Fault := if b.size < 28 then .truncatedTable else .corruptTable

theorem table_of_isTable (h : IsTable (Block.ofWords payload) version) :
    table payload version =
      ⟨tableFaults (Block.ofWords payload), some (tableSymbols (Block.ofWords payload))⟩ := by
  unfold table headerSize
  dsimp only
  rw [if_neg (Nat.not_lt.mpr h.header), (exact_symbols h.header).accepts h]

theorem table_of_not_isTable (h : ¬ IsTable (Block.ofWords payload) version) :
    ∃ faults, (∀ f ∈ faults, IsTypeFault (Block.ofWords payload) f) ∧
      table payload version = ⟨faults ++ [refusal (Block.ofWords payload)], none⟩ := by
  unfold table refusal headerSize
  dsimp only
  split
  next => exact ⟨[], fun _ hf => absurd hf List.not_mem_nil, rfl⟩
  next hsize =>
    have hexact : Exact (IsTypeFault _) _ (IsTable _ version) _ _ :=
      exact_symbols (Nat.not_lt.mp hsize)
    have hnone := hexact.rejects h
    refine ⟨_, hexact.known, ?_⟩
    -- `table` looks at faults and value at once, which opens only if both are variables.
    revert hnone
    obtain ⟨faults, value⟩ := symbols (Block.ofWords payload) version
    rintro rfl
    rfl

theorem map_array_range? (b : Block) (base : Nat) :
    (range? (symbolAt b base)).map Range.array = arrayAt? b base := by
  simp only [range?, symbolAt, setAt, arrayAt?]
  match b.half (base + 4) with
  | 0 | 1 | 2 | 3 => rfl
  | code + 4 => rfl

theorem rangeArrays_tableSymbols (b : Block) :
    Scan.rangeArrays (tableSymbols b) = tableArrays b := by
  rw [Scan.rangeArrays, tableSymbols, List.filterMap_map, List.map_filterMap, tableArrays]
  simp only [Function.comp_apply, map_array_range?]

end Symbol

namespace Scan

open ShaderLift.Symbol

/-- **A symbol table is taken over as a whole or not at all.**  The first table of a shader can be read just
if it has the layout of a table.  Otherwise the only things that change are the faults, the last of which
says that the table is to blame, and that there has been a table. -/
theorem readTable_layout (env : Env) (s : Scan) (payload : List Word) (first : s.haveTable = false) :
    ((table payload env.versionWord).value.isSome ↔
      IsTable (Block.ofWords payload) env.versionWord) ∧
    (IsTable (Block.ofWords payload) env.versionWord →
      table payload env.versionWord =
        ⟨tableFaults (Block.ofWords payload), some (tableSymbols (Block.ofWords payload))⟩ ∧
      s.readTable env payload = { s.failAll (tableFaults (Block.ofWords payload)) with
        haveTable := true
        symbols := tableSymbols (Block.ofWords payload)
        arrays := s.arrays ++ tableArrays (Block.ofWords payload) }) ∧
    (¬ IsTable (Block.ofWords payload) env.versionWord →
      ∃ faults, (∀ f ∈ faults, IsTypeFault (Block.ofWords payload) f) ∧
        table payload env.versionWord = ⟨faults ++ [refusal (Block.ofWords payload)], none⟩ ∧
        s.readTable env payload =
          { s.failAll (faults ++ [refusal (Block.ofWords payload)]) with haveTable := true }) ∧
    (payload ≠ [] →
      s.readComment env (Word.symbolTableId :: payload) = s.readTable env payload) := by
  refine ⟨⟨fun h => ?_, fun h => ?_⟩, fun h => ?_, fun h => ?_, fun h => ?_⟩
  · by_contra hnot
    obtain ⟨faults, -, htable⟩ := table_of_not_isTable hnot
    rw [htable] at h
    exact Bool.false_ne_true h
  · rw [table_of_isTable h]
    rfl
  · have htable := table_of_isTable h
    refine ⟨htable, ?_⟩
    rw [readTable_of_some first (congrArg Attempt.value htable), htable, rangeArrays_tableSymbols]
  · obtain ⟨faults, known, htable⟩ := table_of_not_isTable h
    refine ⟨faults, known, htable, ?_⟩
    rw [readTable_of_none first (congrArg Attempt.value htable), htable]
  · match payload with
    | [] => exact absurd rfl h
    | word :: rest => rw [readComment, if_neg (by decide), if_pos rfl]

/-- A table with a structure and a sampler.  The description of the sampler has an unknown code, and it is
also that of the structure's only member, whose name lies outside of the table. -/
def sharedDescription : List Word :=
  [28, 108, 0xFFFE0200, 2, 28, 0, 110,
    108, 0x00040002, 1, 68, 0,
    110, 3, 1, 84, 0,
    5, 0x00010001, 0x00010001, 100,
    0x000C0009, 0x00010001, 1, 0,
    0xFFFF, 84,
    0x00620061]

theorem isDescription_member (depth : Nat) :
    IsDescription (Block.ofWords sharedDescription) depth 84 := by
  have hcount : memberCount (Block.ofWords sharedDescription) 84 = 0 := by decide +kernel
  refine .intro (by decide +kernel) ?_ ?_ ?_
  all_goals simp [hcount]

theorem isDescription_struct : IsDescription (Block.ofWords sharedDescription) 0 68 := by
  refine .intro (by decide +kernel) (fun _ => Nat.zero_le _) (by decide +kernel) fun i hi => ?_
  have hcount : memberCount (Block.ofWords sharedDescription) 68 = 1 := by decide +kernel
  have hinfo : (Block.ofWords sharedDescription).word
      (memberEntry (Block.ofWords sharedDescription) 68 0 + 4) = 84 := by decide +kernel
  obtain rfl : i = 0 := by omega
  rw [hinfo]
  exact isDescription_member 1

theorem isTable_sharedDescription : IsTable (Block.ofWords sharedDescription) 0xFFFE0200 where
  header := by decide +kernel
  size := by decide +kernel
  creator := by decide +kernel
  version := by decide +kernel
  count := by decide +kernel
  start := by decide +kernel
  room := by decide +kernel
  target := by decide +kernel
  records i hi := by
    have hcount : recordCount (Block.ofWords sharedDescription) = 2 := by decide +kernel
    have hfirst : (Block.ofWords sharedDescription).word
        (recordBase (Block.ofWords sharedDescription) 0 + 12) = 68 := by decide +kernel
    have hsecond : (Block.ofWords sharedDescription).word
        (recordBase (Block.ofWords sharedDescription) 1 + 12) = 84 := by decide +kernel
    obtain rfl | rfl : i = 0 ∨ i = 1 := by omega
    · exact ⟨by decide +kernel, by decide +kernel, hfirst ▸ isDescription_struct,
        by decide +kernel⟩
    · exact ⟨by decide +kernel, by decide +kernel, hsecond ▸ isDescription_member 0,
        by decide +kernel⟩

def earlyVertex : Env :=
  { stage := .vertex
    version := ⟨2, 0⟩
    versionWord := 0xFFFE0200
    swizzles := []
    samplers := []
    knownSize := true }

theorem readTable_sharedDescription :
    (start earlyVertex).haveTable = false ∧
      IsTable (Block.ofWords sharedDescription) earlyVertex.versionWord ∧
      (start earlyVertex).readTable earlyVertex sharedDescription =
        { (start earlyVertex).failAll [.unknownClass 9, .unknownClass 9] with
          haveTable := true
          symbols := [symbolAt (Block.ofWords sharedDescription) 28,
            symbolAt (Block.ofWords sharedDescription) 48]
          arrays := [{ kind := .float, index := 4, count := 1 }] } := by
  have hfaults : tableFaults (Block.ofWords sharedDescription) =
      [.unknownClass 9, .unknownClass 9] := by decide +kernel
  have harrays : tableArrays (Block.ofWords sharedDescription) =
      [{ kind := .float, index := 4, count := 1 }] := by decide +kernel
  have hcount : recordCount (Block.ofWords sharedDescription) = 2 := by decide +kernel
  have hbase : recordBase (Block.ofWords sharedDescription) = (28 + · * 20) := by
    have hstart : (Block.ofWords sharedDescription).word 16 = 28 := by decide +kernel
    funext i
    rw [recordBase, hstart]
  have hsymbols : tableSymbols (Block.ofWords sharedDescription) =
      [symbolAt (Block.ofWords sharedDescription) 28,
        symbolAt (Block.ofWords sharedDescription) 48] := by
    rw [tableSymbols, hcount, hbase]
    rfl
  have hfirst : (start earlyVertex).haveTable = false := rfl
  have hread := ((readTable_layout earlyVertex (start earlyVertex) sharedDescription hfirst).2.1
    isTable_sharedDescription).2
  rw [hfaults, harrays, hsymbols] at hread
  exact ⟨hfirst, isTable_sharedDescription, hread⟩

end Scan

end ShaderLift
