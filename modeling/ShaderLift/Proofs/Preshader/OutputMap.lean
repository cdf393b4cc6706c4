/-
What the output map of a preshader is decoded to.  The block starts with the word that names it; its
words 1 to 6 are not looked at, and word 7 is the number of ranges that follow it, two words each.

The number is checked against the words that are left, but there has to be room for one range more than
there are (`Fits`).  So a block that ends with its last range is refused: see `tightTint`.
-/
import Mathlib.Data.List.GetD
import ShaderLift.Proofs.Preshader.Checks

namespace ShaderLift.Preshader

variable {front ws : List Word} (id : Word) {rest : List Word}

/-! ### Ranges -/

def rangeCount (block : List Word) : Nat := (block.getD 7 0).toNat

/-- The first register of a range and its number of registers. -/
def rangeAt (block : List Word) (i : Nat) : Word × Word :=
  (block.getD (8 + 2 * i) 0, block.getD (9 + 2 * i) 0)

def rangeRoom (block : List Word) : Nat := (block.length - 8) / 2

/-- The block has a number of ranges, and room for more ranges than that. -/
def Fits (block : List Word) : Prop := 8 ≤ block.length ∧ rangeCount block < rangeRoom block

instance (block : List Word) : Decidable (Fits block) :=
  inferInstanceAs (Decidable (8 ≤ block.length ∧ rangeCount block < rangeRoom block))

theorem take_pairs {n : Nat} (room : 2 * n ≤ ws.length) :
    (pairs ws).take n = (List.range n).map fun i => (ws.getD (2 * i) 0, ws.getD (2 * i + 1) 0) := by
  induction n generalizing ws with
  | zero => rfl
  | succ n ih =>
    match ws with
    | [] | [_] =>
      simp only [List.length_nil, List.length_singleton] at room
      omega
    | a :: b :: ws =>
      have hrest : 2 * n ≤ ws.length := by
        simp only [List.length_cons] at room
        omega
      rw [pairs, List.take_succ_cons, ih hrest, List.range_succ_eq_map, List.map_cons, List.map_map]
      rfl

theorem outputMap_of_short (h : ws.length < 7) : outputMap ws = Attempt.stop .preshaderOutputs := by
  have hnone : ws.drop 6 = [] := List.drop_eq_nil_of_le (by omega)
  rw [outputMap, hnone]

theorem outputMap_of_count (count : Word) (h : front.length = 6) :
    outputMap (front ++ count :: rest) =
      if rest.length < 2 * (count.toNat + 1) then Attempt.stop .preshaderOutputs
      else pure ((pairs rest).take count.toNat) := by
  have hdrop : (front ++ count :: rest).drop 6 = count :: rest := by
    rw [← h, List.drop_left]
  rw [outputMap, hdrop]

theorem exists_of_seven_le (h : 7 ≤ ws.length) :
    ∃ front count rest, front.length = 6 ∧ ws = front ++ count :: rest := by
  refine ⟨ws.take 6, ws[6], ws.drop 7, List.length_take_of_le (by omega), ?_⟩
  rw [← List.drop_eq_getElem_cons (by omega), List.take_append_drop]

theorem rangeAt_append (count : Word) (h : front.length = 6) (i : Nat) :
    rangeAt (id :: (front ++ count :: rest)) i = (rest.getD (2 * i) 0, rest.getD (2 * i + 1) 0) := by
  have hget : ∀ k, (id :: (front ++ count :: rest)).getD (8 + k) 0 = rest.getD k 0 := by
    intro k
    have hplace : 8 + k = (id :: front).length + (k + 1) := by
      rw [List.length_cons, h]
      omega
    rw [← List.cons_append, hplace, List.getD_append_right _ _ _ _ (by omega), Nat.add_sub_cancel_left]
    rfl
  have hsecond : 9 + 2 * i = 8 + (2 * i + 1) := by omega
  rw [rangeAt, hsecond, hget, hget]

/-! ### The output map -/

theorem outputMap_eq (ws : List Word) :
    outputMap ws =
      if Fits (id :: ws) then ⟨[], some ((List.range (rangeCount (id :: ws))).map (rangeAt (id :: ws)))⟩
      else ⟨[.preshaderOutputs], none⟩ := by
  rcases Nat.lt_or_ge ws.length 7 with hshort | hlong
  · have hfits : ¬ Fits (id :: ws) := by
      intro h
      have hlength := h.1
      rw [List.length_cons] at hlength
      omega
    rw [outputMap_of_short hshort, if_neg hfits]
    rfl
  · obtain ⟨front, count, rest, hfront, rfl⟩ := exists_of_seven_le hlong
    have hcount : rangeCount (id :: (front ++ count :: rest)) = count.toNat := by
      rw [rangeCount, ← List.cons_append, List.getD_append_right _ _ _ _ (by simp [hfront])]
      simp [hfront]
    have hlength : (id :: (front ++ count :: rest)).length = 8 + rest.length := by
      simp only [List.length_cons, List.length_append, hfront]
      omega
    have hfits : Fits (id :: (front ++ count :: rest)) ↔ ¬ rest.length < 2 * (count.toNat + 1) := by
      rw [Fits, rangeRoom, hcount, hlength]
      omega
    rw [outputMap_of_count count hfront, hcount]
    by_cases hroom : rest.length < 2 * (count.toNat + 1)
    · rw [if_pos hroom, if_neg (fun h => hfits.mp h hroom)]
      rfl
    · rw [if_neg hroom, if_pos (hfits.mpr hroom), take_pairs (by omega),
        funext (rangeAt_append id count hfront)]
      rfl

theorem isSome_outputMap (ws : List Word) : (outputMap ws).value.isSome = true ↔ Fits (id :: ws) := by
  rw [outputMap_eq id]
  by_cases hfits : Fits (id :: ws) <;> simp [hfits]

/-- **The output map is read as it is laid out, if there is room for one range more.**  Any other block gives
one fault and nothing else. -/
theorem outputMap_reads_ranges (id : Word) (ws : List Word) :
    (outputMap ws =
        if 8 ≤ (id :: ws).length ∧ 2 * (rangeCount (id :: ws) + 1) ≤ (id :: ws).length - 8 then
          ⟨[], some ((List.range (rangeCount (id :: ws))).map (rangeAt (id :: ws)))⟩
        else ⟨[.preshaderOutputs], none⟩) ∧
      (rangeRoom (id :: ws) ≠ rangeCount (id :: ws) →
        ((outputMap ws).value.isSome = true ↔
          8 ≤ (id :: ws).length ∧ 2 * rangeCount (id :: ws) ≤ (id :: ws).length - 8)) := by
  have hfits : Fits (id :: ws) ↔
      8 ≤ (id :: ws).length ∧ 2 * (rangeCount (id :: ws) + 1) ≤ (id :: ws).length - 8 := by
    unfold Fits rangeRoom
    omega
  refine ⟨?_, fun hroom => ?_⟩
  · simp only [← hfits]
    exact outputMap_eq id ws
  · rw [isSome_outputMap id, hfits]
    unfold rangeRoom at hroom
    omega

/-- The output map of `tint` has room for two ranges and holds one. -/
theorem outputMap_tintOutputs :
    rangeRoom (Word.outputMapId :: tintOutputs.body) ≠ rangeCount (Word.outputMapId :: tintOutputs.body) ∧
      ((outputMap tintOutputs.body).value.isSome = true ↔
        8 ≤ (Word.outputMapId :: tintOutputs.body).length ∧
          2 * rangeCount (Word.outputMapId :: tintOutputs.body) ≤
            (Word.outputMapId :: tintOutputs.body).length - 8) :=
  ⟨by decide, (outputMap_reads_ranges Word.outputMapId tintOutputs.body).2 (by decide)⟩

/-! ### A block without room to spare -/

/-- Register 0 is written, and the block ends there. -/
def tightOutputs : Section where
  part := .outputs
  body := [0, 0, 0, 0, 0, 0, 1, 0, 1]
  short := by decide

/-- The blocks of `tint`, but for the output map. -/
def tightTint : Layout where
  spaced := [(0, tintTable), (0, tightOutputs), (0, tintLiterals), (0, tintCode 0)]
  space := 0
  ending := none

/-- The block holds its only range, but it is refused and the preshader with it. -/
theorem tightTint_refused :
    rangeCount (Word.outputMapId :: tightOutputs.body) = 1 ∧
      rangeAt (Word.outputMapId :: tightOutputs.body) 0 = (0, 1) ∧
      8 ≤ (Word.outputMapId :: tightOutputs.body).length ∧
      2 * 1 ≤ (Word.outputMapId :: tightOutputs.body).length - 8 ∧
      outputMap tightOutputs.body = ⟨[.preshaderOutputs], none⟩ ∧
      decode (minVersion :: tightTint.words) = ⟨[.preshaderOutputs], none⟩ := by
  refine ⟨by decide, by decide, by decide, by decide, rfl, ?_⟩
  unfold decode
  rw [List.tail_cons, collect_layout (by decide)]
  rfl

end ShaderLift.Preshader
