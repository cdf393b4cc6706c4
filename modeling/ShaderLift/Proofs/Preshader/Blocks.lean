/-
The order of the blocks of a preshader.  A preshader is laid out as a sequence of blocks, each in a
comment of its own, with empty comments anywhere between them and, perhaps, an end word and anything at
all behind it.  Collecting is a loop that fills in one block at a time.  `Blocks.Holds` says which blocks
have been filled in so far, without saying in which order, and this is enough to know all that has been
collected.
-/
import ShaderLift.Proofs.Comments

namespace ShaderLift.Preshader

/-! ### Blocks and layouts -/

inductive Part where
  | table
  | outputs
  | literals
  | code
  deriving Repr, DecidableEq

def Part.id : Part → Word
  | .table => Word.symbolTableId
  | .outputs => Word.outputMapId
  | .literals => Word.literalsId
  | .code => Word.codeId

/-- A block.  With the word that names it, it is short enough for a comment. -/
structure Section where
  part : Part
  body : List Word
  short : body.length + 1 < 65536
  deriving Repr, DecidableEq

def Section.words (s : Section) : List Word := commentUnit (s.part.id :: s.body)

def emptyComments (n : Nat) : List Word := (List.replicate n (commentUnit [])).flatten

/-- How the blocks of a preshader are laid out. -/
structure Layout where
  /-- The blocks, each with the number of empty comments in front of it. -/
  spaced : List (Nat × Section)
  space : Nat
  ending : Option (List Word)
  deriving Repr, DecidableEq

namespace Layout

def sections (l : Layout) : List Section := l.spaced.map Prod.snd

def words (l : Layout) : List Word :=
  (l.spaced.flatMap fun x => emptyComments x.1 ++ x.2.words)
    ++ (emptyComments l.space ++ l.ending.elim [] (Word.endMark :: ·))

end Layout

/-! ### Filling in blocks -/

namespace Blocks

def get (bs : Blocks) : Part → Option (List Word)
  | .table => bs.table
  | .outputs => bs.outputs
  | .literals => bs.literals
  | .code => bs.code

def put (bs : Blocks) (s : Section) : Blocks :=
  match s.part with
  | .table => { bs with table := some s.body }
  | .outputs => { bs with outputs := some s.body }
  | .literals => { bs with literals := some s.body }
  | .code => { bs with code := some s.body }

theorem ext_get {bs bs' : Blocks} (h : ∀ part, bs.get part = bs'.get part) : bs = bs' := by
  obtain ⟨table, outputs, literals, code⟩ := bs
  obtain ⟨table', outputs', literals', code'⟩ := bs'
  obtain rfl : table = table' := h .table
  obtain rfl : outputs = outputs' := h .outputs
  obtain rfl : literals = literals' := h .literals
  obtain rfl : code = code' := h .code
  rfl

theorem get_put (bs : Blocks) (s : Section) (part : Part) :
    (bs.put s).get part = if s.part = part then some s.body else bs.get part := by
  obtain ⟨own, body, short⟩ := s
  cases own <;> cases part <;> rfl

theorem insert_of_free {bs : Blocks} {s : Section} (free : bs.get s.part = none) :
    bs.insert s.part.id s.body = pure (bs.put s) := by
  obtain ⟨part, body, short⟩ := s
  obtain ⟨table, outputs, literals, code⟩ := bs
  cases part <;> cases free <;> rfl

def Holds (bs : Blocks) (ss : List Section) : Prop :=
  ∀ part body, bs.get part = some body ↔ ∃ s ∈ ss, s.part = part ∧ s.body = body

namespace Holds

variable {bs bs' : Blocks} {ss ss' : List Section}

theorem nil : Holds {} [] := by
  intro part body
  cases part <;> simp [get]

theorem free (h : bs.Holds ss) {part : Part} (new : ∀ s ∈ ss, s.part ≠ part) :
    bs.get part = none := by
  cases hget : bs.get part with
  | none => rfl
  | some body =>
    obtain ⟨s, hs, hpart, -⟩ := (h part body).mp hget
    exact absurd hpart (new s hs)

theorem put (h : bs.Holds ss) {s : Section} (new : ∀ t ∈ ss, t.part ≠ s.part) :
    (bs.put s).Holds (ss ++ [s]) := by
  intro part body
  rw [get_put]
  by_cases hpart : s.part = part
  · subst hpart
    constructor
    · intro hbody
      rw [if_pos rfl] at hbody
      exact ⟨s, List.mem_append_right ss List.mem_cons_self, rfl, Option.some.inj hbody⟩
    · rintro ⟨t, ht, hpart, rfl⟩
      rcases List.mem_append.mp ht with ht | ht
      · exact absurd hpart (new t ht)
      · rw [List.mem_singleton.mp ht, if_pos rfl]
  -- the places of other blocks are as before
  · rw [if_neg hpart, h part body]
    simp [or_and_right, exists_or, hpart]

theorem fill (h : bs.Holds ss) (new : ∀ s ∈ ss', ∀ t ∈ ss, t.part ≠ s.part)
    (distinct : (ss'.map Section.part).Nodup) : (ss'.foldl Blocks.put bs).Holds (ss ++ ss') := by
  induction ss' generalizing bs ss with
  | nil => rwa [List.append_nil]
  | cons s ss' ih =>
    obtain ⟨hs, hdistinct⟩ := List.nodup_cons.mp distinct
    rw [List.append_cons]
    refine ih (h.put (new s List.mem_cons_self)) (fun u hu t ht => ?_) hdistinct
    rcases List.mem_append.mp ht with ht | ht
    · exact new u (List.mem_cons_of_mem s hu) t ht
    · rw [List.mem_singleton.mp ht]
      intro hpart
      exact hs (List.mem_map.mpr ⟨u, hu, hpart.symm⟩)

theorem unique (h : bs.Holds ss) (h' : bs'.Holds ss') (same : ∀ s, s ∈ ss ↔ s ∈ ss') : bs = bs' := by
  apply ext_get
  intro part
  apply Option.ext
  intro body
  rw [h, h']
  simp only [same]

end Holds

end Blocks

/-! ### Collecting -/

theorem collect_emptyComments (bs : Blocks) (n : Nat) (rest : List Word) :
    collect bs (emptyComments n ++ rest) = collect bs rest := by
  induction n with
  | zero => rfl
  | succ n ih =>
    have hwords : emptyComments (n + 1) ++ rest = Word.commentHead 0 :: (emptyComments n ++ rest) := rfl
    rw [hwords, collect, Word.commentLength?_commentHead (by decide)]
    simpa using ih

theorem collect_section {bs : Blocks} {s : Section} (free : bs.get s.part = none) (rest : List Word) :
    collect bs (s.words ++ rest) = collect (bs.put s) rest := by
  have hlength : (s.part.id :: s.body).length < 65536 := s.short
  have hroom : ¬ ((s.part.id :: s.body) ++ rest).length < (s.part.id :: s.body).length := by simp
  rw [Section.words, commentUnit, List.cons_append, collect, Word.commentLength?_commentHead hlength]
  dsimp only
  rw [if_neg hroom, List.take_left, List.drop_left]
  dsimp only
  rw [Blocks.insert_of_free free, pure_bind]

theorem collect_ending (bs : Blocks) (ending : Option (List Word)) :
    collect bs (ending.elim [] (Word.endMark :: ·)) = pure bs := by
  cases ending with
  | none => exact collect.eq_1 bs
  | some rest =>
    show collect bs (Word.endMark :: rest) = pure bs
    have hword : Word.commentLength? Word.endMark = none := by decide
    rw [collect, hword]
    exact if_pos rfl

theorem collect_spaced {spaced : List (Nat × Section)} {bs : Blocks}
    (free : ∀ x ∈ spaced, bs.get x.2.part = none)
    (distinct : ((spaced.map Prod.snd).map Section.part).Nodup) (rest : List Word) :
    collect bs ((spaced.flatMap fun x => emptyComments x.1 ++ x.2.words) ++ rest) =
      collect ((spaced.map Prod.snd).foldl Blocks.put bs) rest := by
  induction spaced generalizing bs with
  | nil => rfl
  | cons x spaced ih =>
    obtain ⟨hx, hdistinct⟩ := List.nodup_cons.mp distinct
    have hfree : ∀ y ∈ spaced, (bs.put x.2).get y.2.part = none := by
      intro y hy
      have hne : x.2.part ≠ y.2.part := by
        intro hpart
        exact hx (hpart ▸ List.mem_map_of_mem (List.mem_map_of_mem hy))
      rw [Blocks.get_put, if_neg hne]
      exact free y (List.mem_cons_of_mem x hy)
    rw [List.flatMap_cons, List.append_assoc, List.append_assoc, collect_emptyComments,
      collect_section (free x List.mem_cons_self), ih hfree hdistinct]
    rfl

theorem collect_layout {l : Layout} (distinct : (l.sections.map Section.part).Nodup) :
    collect {} l.words = pure (l.sections.foldl Blocks.put {}) := by
  have hfree : ∀ x ∈ l.spaced, Blocks.get {} x.2.part = none :=
    fun x _ => Blocks.Holds.nil.free (by simp)
  rw [Layout.words, collect_spaced hfree distinct, collect_emptyComments, collect_ending]
  rfl

theorem holds_layout {l : Layout} (distinct : (l.sections.map Section.part).Nodup) :
    (l.sections.foldl Blocks.put {}).Holds l.sections :=
  Blocks.Holds.nil.fill (by simp) distinct

/-! ### Decoding -/

/-- **The blocks of a preshader may come in any order.**  Two layouts of the same blocks, each for another
purpose, are decoded alike. -/
theorem decode_any_order (version : Word) {l l' : Layout}
    (distinct : (l.sections.map Section.part).Nodup) (same : l.sections.Perm l'.sections) :
    decode (version :: l.words) = decode (version :: l'.words) ∧
      ∃ bs, collect {} l.words = pure bs ∧ ∀ part body,
        bs.get part = some body ↔ ∃ s ∈ l.sections, s.part = part ∧ s.body = body := by
  have hdistinct' := (same.map Section.part).nodup distinct
  have hblocks := (holds_layout distinct).unique (holds_layout hdistinct') fun s => same.mem_iff
  refine ⟨?_, _, collect_layout distinct, holds_layout distinct⟩
  unfold decode
  rw [List.tail_cons, List.tail_cons, collect_layout distinct, collect_layout hdistinct', hblocks]
  rfl

/-! ### A preshader in two layouts -/

/-- One symbol, the vector `k` in register 2. -/
def tintTable : Section where
  part := .table
  body :=
    [28, 64, 0x46580200, 1, 28, 0, 64,
      64, 0x00020002, 1, 48, 0,
      0x00030001, 0x00040001, 1, 0,
      0x0000006B]
  short := by decide

def tintOutputs : Section where
  part := .outputs
  body := [0, 0, 0, 0, 0, 0, 1, 0, 1, 0, 0]
  short := by decide

def tintLiterals : Section where
  part := .literals
  body := [1, 0, 0x3FE00000]
  short := by decide

/-- A product of the first component of the symbol and a literal, which is moved to an output. -/
def tintCode (literal : Word) : Section where
  part := .code
  body := [2, 0x20500001, 2, 0, 2, 8, 0, 1, literal, 0, 7, 5, 0x10000001, 1, 0, 7, 5, 0, 4, 2]
  short := by simp

def tint (literal : Word) : Layout where
  spaced := [(0, tintTable), (0, tintOutputs), (0, tintLiterals), (0, tintCode literal)]
  space := 0
  ending := none

/-- The blocks in another order, between empty comments and in front of words that are no block. -/
def scatteredTint (literal : Word) : Layout where
  spaced := [(2, tintCode literal), (0, tintLiterals), (1, tintTable), (0, tintOutputs)]
  space := 3
  ending := some [0x53455250, 0x0001FFFE]

theorem decode_scatteredTint :
    ((tint 0).sections.map Section.part).Nodup ∧ (tint 0).sections.Perm (scatteredTint 0).sections ∧
      decode (minVersion :: (tint 0).words) = decode (minVersion :: (scatteredTint 0).words) :=
  ⟨by decide, by decide, (decode_any_order minVersion (by decide) (by decide)).1⟩

end ShaderLift.Preshader
