/-
Arrays of constants with numbers of fixed width.  `ConstantArray.ofConstants` cuts a list of constants
where one does not follow its predecessor.  The machine counts instead: from the place `i` on, how many
constants have the registers `start`, `start + 1` and so on.  `runs_eq` says that both find the same
arrays.  A loop that does not move on has no result either, so that the result says that it does.
-/
import ShaderLift.Proofs.Fixed.Arithmetic
import ShaderLift.Proofs.Grouping
import ShaderLift.Proofs.Registers

namespace ShaderLift.Fixed

/-! ### Runs of constants -/

/-- How many constants from place `i` on are a run that begins with the register `start`, if the first
`count` of them are known to be. -/
def runLength (floats : List Constant) (i start count : Nat) : Option Nat := do
  let next ← add 64 i count
  if i + count < floats.length then
    let c ← item floats next
    if c.index = (← add 32 start count) then
      let _ ← add 32 count 1
      runLength floats i start (count + 1)
    else return count
  else return count
termination_by floats.length - (i + count)

def runs (floats : List Constant) (i : Nat) : Option (List ConstantArray) :=
  if i < floats.length then do
    let first ← item floats i
    let count ← runLength floats i first.index 1
    let last ← add 64 i count
    let constants ← slice floats i last
    if i < last then
      let rest ← runs floats last
      return { kind := .float, index := first.index, count, constants } :: rest
    else none
  else return []
termination_by floats.length - i

def groupConstants (s : Scan) : Option Scan :=
  if s.grouped then return s
  else do
    let arrays ← runs (Constant.inOrder (Constant.floats s.constants)) 0
    return { s with grouped := true, arrays := s.arrays ++ arrays }

variable {floats : List Constant} {i start count : Nat}

theorem runLength_spec (short : floats.length < 2 ^ 31) (low : start < 2 ^ 31)
    (hcount : i + count ≤ floats.length)
    (hrun : ∀ j < count, ∀ c, floats[i + j]? = some c → c.index = start + j) :
    ∃ k, runLength floats i start count = some k ∧ count ≤ k ∧ i + k ≤ floats.length ∧
      (∀ j < k, ∀ c, floats[i + j]? = some c → c.index = start + j) ∧
      ∀ c, floats[i + k]? = some c → c.index ≠ start + k := by
  induction hleft : floats.length - (i + count) generalizing count with
  | zero =>
    refine ⟨count, ?_, Nat.le_refl _, hcount, hrun, ?_⟩
    · rw [runLength, add_of_lt (by omega)]
      simp [show ¬ i + count < floats.length by omega]
    · intro c hc
      rw [List.getElem?_eq_none (by omega)] at hc
      cases hc
  | succ left ih =>
    have hlt : i + count < floats.length := by omega
    have hget : floats[i + count]? = some floats[i + count] := List.getElem?_eq_getElem hlt
    by_cases hnext : floats[i + count].index = start + count
    · -- the run goes on
      obtain ⟨k, heq, hle, hrest⟩ := ih (show i + (count + 1) ≤ floats.length by omega) (by
        intro j hj c hc
        rcases Nat.lt_succ_iff_lt_or_eq.mp hj with hlow | rfl
        · exact hrun j hlow c hc
        · rw [hget] at hc
          rw [← Option.some.inj hc, hnext]) (by omega)
      refine ⟨k, ?_, by omega, hrest⟩
      rw [runLength, add_of_lt (by omega)]
      simp [hlt, item, add_of_lt (show start + count < 2 ^ 32 by omega), hnext,
        add_of_lt (show count + 1 < 2 ^ 32 by omega), heq]
    · -- the run ends here
      refine ⟨count, ?_, Nat.le_refl _, hcount, hrun, ?_⟩
      · rw [runLength, add_of_lt (by omega)]
        simp [hlt, item, add_of_lt (show start + count < 2 ^ 32 by omega), hnext]
      · intro c hc
        rw [hget] at hc
        rw [← Option.some.inj hc]
        exact hnext

theorem splitBy_run {run rest : List Constant} (hne : run ≠ [])
    (hrun : ∀ j c, run[j]? = some c → c.index = start + j)
    (hrest : ∀ c, rest.head? = some c → c.index ≠ start + run.length) :
    (run ++ rest).splitBy Constant.followedBy = run :: rest.splitBy Constant.followedBy := by
  have hchain : run.IsChain fun a b => Constant.followedBy a b = true := by
    rw [List.isChain_iff_getElem]
    intro j hj
    have hfirst := hrun j _ (List.getElem?_eq_getElem (by omega))
    have hsecond := hrun (j + 1) _ (List.getElem?_eq_getElem hj)
    rw [Constant.followedBy, beq_iff_eq]
    omega
  rw [List.splitBy_append, List.splitBy_of_isChain hne hchain, List.singleton_append]
  intro a ha b hb
  have hpos : 0 < run.length := List.length_pos_iff.mpr hne
  rw [Option.mem_def, List.getLast?_eq_getElem?] at ha
  have hlast := hrun _ a ha
  have hbreak := hrest b hb
  rw [Constant.followedBy, beq_eq_false_iff_ne]
  omega

theorem runLength_piece (short : floats.length < 2 ^ 31) (low : ∀ c ∈ floats, c.index < 2 ^ 31)
    (hlt : i < floats.length) :
    ∃ k, runLength floats i floats[i].index 1 = some k ∧ 1 ≤ k ∧ i + k ≤ floats.length ∧
      (floats.drop i).splitBy Constant.followedBy =
        (floats.drop i).take k :: (floats.drop (i + k)).splitBy Constant.followedBy := by
  have hfirst : floats[i]? = some floats[i] := List.getElem?_eq_getElem hlt
  have hsingle : ∀ j < 1, ∀ c, floats[i + j]? = some c → c.index = floats[i].index + j := by
    intro j hj c hc
    obtain rfl : j = 0 := by omega
    rw [Nat.add_zero, hfirst] at hc
    rw [← Option.some.inj hc, Nat.add_zero]
  obtain ⟨k, hk, hpos, hend, hrun, hbreak⟩ :=
    runLength_spec short (low _ (List.getElem_mem hlt)) (by omega) hsingle
  have hlength : ((floats.drop i).take k).length = k := by
    rw [List.length_take, List.length_drop]
    omega
  have hpieces := @splitBy_run floats[i].index ((floats.drop i).take k) ((floats.drop i).drop k)
    (List.ne_nil_of_length_pos (by omega))
    (by
      intro j c hc
      obtain ⟨hj, -⟩ := List.getElem?_eq_some_iff.mp hc
      rw [hlength] at hj
      rw [List.getElem?_take_of_lt hj, List.getElem?_drop] at hc
      exact hrun j hj c hc)
    (by
      intro c hc
      rw [List.drop_drop, List.head?_drop] at hc
      rw [hlength]
      exact hbreak c hc)
  rw [List.take_append_drop, List.drop_drop] at hpieces
  exact ⟨k, hk, hpos, hend, hpieces⟩

theorem runs_eq (short : floats.length < 2 ^ 31) (low : ∀ c ∈ floats, c.index < 2 ^ 31) (i : Nat) :
    runs floats i =
      some (((floats.drop i).splitBy Constant.followedBy).map ConstantArray.ofRun) := by
  induction hleft : floats.length - i using Nat.strongRecOn generalizing i with
  | _ left ih =>
    rw [runs]
    split
    next hlt =>
      obtain ⟨k, hk, hpos, hend, hpieces⟩ := runLength_piece short low hlt
      have hfirst : floats[i]? = some floats[i] := List.getElem?_eq_getElem hlt
      have hcut : (floats.take (i + k)).drop i = (floats.drop i).take k := by
        rw [List.drop_take, Nat.add_sub_cancel_left]
      have hlength : ((floats.drop i).take k).length = k := by
        rw [List.length_take, List.length_drop]
        omega
      have hhead : (((floats.drop i).take k).head?.map Constant.index).getD 0 = floats[i].index := by
        rw [List.head?_take, if_neg (by omega), List.head?_drop, hfirst]
        rfl
      -- the loop goes on behind the run, with fewer constants left
      have hnext := ih (floats.length - (i + k)) (by omega) (i + k) rfl
      rw [item, hfirst, hpieces, List.map_cons]
      simp only [some_bind, hk, add_of_lt (show i + k < 2 ^ 64 by omega),
        slice_of_le (show i ≤ i + k by omega) hend, hcut, show i < i + k by omega, if_true, hnext,
        Option.pure_def, ConstantArray.ofRun, hhead, hlength]
    next hge =>
      rw [List.drop_eq_nil_of_le (by omega)]
      rfl

theorem groupConstants_eq {s : Scan} (short : s.constants.length < 2 ^ 31)
    (low : ∀ c ∈ s.constants, c.index < 2 ^ 31) : groupConstants s = some s.groupConstants := by
  unfold groupConstants Scan.groupConstants
  split
  · rfl
  · have hperm := (Constant.stablySorted_inOrder (Constant.floats s.constants)).perm
    have hlength : (Constant.floats s.constants).length ≤ s.constants.length :=
      List.length_filter_le _ _
    have hruns := runs_eq (by rw [hperm.length_eq]; omega)
      (fun c hc => low c (List.mem_of_mem_filter (hperm.mem_iff.mp hc))) 0
    rw [hruns, List.drop_zero, ConstantArray.ofConstants_eq]
    rfl

/-! ### Looking arrays up -/

def contains (a : ConstantArray) (number : Nat) : Option Bool :=
  if a.index ≤ number then do return number < (← add 32 a.index a.count) else return false

def floatArray? (arrays : List ConstantArray) (number : Nat) : Option (Option Nat) := do
  let found ← arrays.zipIdx.reverse.findM? fun e =>
    if e.1.kind = .float then contains e.1 number else return false
  return found.map Prod.snd

def markArrayUsed (s : Scan) (place : Nat) : Option Scan := do
  let _ ← item s.arrays place
  return s.markArrayUsed place

theorem contains_eq {a : ConstantArray} (small : a.index + a.count < 2 ^ 32) (number : Nat) :
    contains a number = some (a.contains number) := by
  unfold contains ConstantArray.contains
  split
  next hle => simp [add_of_lt small, hle]
  next hgt => simp [hgt]

theorem floatArray?_eq {s : Scan} (small : ∀ a ∈ s.arrays, a.index + a.count < 2 ^ 32)
    (number : Nat) : floatArray? s.arrays number = some (s.floatArray? number) := by
  have hfind := findM?_eq (m := Option) (l := s.arrays.zipIdx.reverse)
    (p := fun e => if e.1.kind = .float then contains e.1 number else return false)
    (q := fun e => e.1.kind = .float && e.1.contains number) (by
      intro e he
      have hmem : e.1 ∈ s.arrays := List.fst_mem_of_mem_zipIdx (List.mem_reverse.mp he)
      split
      next hkind => simp [contains_eq (small _ hmem), hkind]
      next hkind => simp [hkind])
  rw [floatArray?, hfind]
  rfl

theorem markArrayUsed_eq {s : Scan} {number place : Nat} (found : s.floatArray? number = some place) :
    markArrayUsed s place = some (s.markArrayUsed place) := by
  obtain ⟨a, ha, -⟩ := ConstantArray.getElem?_of_newest? found
  rw [markArrayUsed, item, ha]
  rfl

end ShaderLift.Fixed
