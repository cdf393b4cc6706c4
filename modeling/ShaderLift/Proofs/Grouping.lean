/-
The arrays that a list of constants makes up.  `ConstantArray.ofConstants` orders the float constants
by their registers and cuts the result wherever a register is left out.  So for any list of constants

* put together again, the arrays are the float constants in order, those of one register as they came;
* the elements of each array are constants of registers that follow one another;
* if no register is defined twice, between any two arrays a register is missing.
-/
import Mathlib.Data.List.Sort
import Mathlib.Data.List.SplitBy
import ShaderLift.Constant

namespace ShaderLift

/-! ### The order of constants -/

def Constant.floats (cs : List Constant) : List Constant :=
  cs.filter fun c => c.kind = .float

/-- `ordered` has the constants of `cs` in the order of their registers, and those of one register in
the order that they have in `cs`. -/
structure Constant.StablySorted (cs ordered : List Constant) : Prop where
  perm : ordered.Perm cs
  sorted : ordered.Pairwise fun a b => a.index ≤ b.index
  stable : ∀ n, (ordered.filter fun c => c.index = n) = cs.filter fun c => c.index = n

namespace Constant

def followedBy (a b : Constant) : Bool := b.index == a.index + 1

theorem inOrder_eq (cs : List Constant) : inOrder cs = cs.insertionSort fun a b => a.index ≤ b.index := by
  have hinsert : ∀ c cs, insert c cs = List.orderedInsert (fun a b : Constant => a.index ≤ b.index) c cs := by
    intro c cs
    induction cs with
    | nil => rfl
    | cons d ds ih => rw [insert, List.orderedInsert_cons, ih]
  induction cs with
  | nil => rfl
  | cons c cs ih =>
    rw [List.insertionSort_cons, ← ih, ← hinsert]
    rfl

theorem stablySorted_inOrder (cs : List Constant) : StablySorted cs (inOrder cs) := by
  have : Std.Total fun a b : Constant => a.index ≤ b.index := ⟨fun a b => Nat.le_total a.index b.index⟩
  have : IsTrans Constant fun a b => a.index ≤ b.index := ⟨fun _ _ _ => Nat.le_trans⟩
  rw [inOrder_eq]
  have hperm := List.perm_insertionSort (fun a b : Constant => a.index ≤ b.index) cs
  refine ⟨hperm, List.pairwise_insertionSort _ cs, fun n => ?_⟩
  -- the constants of one register are in order already, so sorting keeps them as they are
  have hsame : (cs.filter fun c => c.index = n).Pairwise fun a b => a.index ≤ b.index := by
    refine List.pairwise_of_forall_mem_list fun a ha b hb => ?_
    have hn := of_decide_eq_true (List.mem_filter.mp ha).2
    have hm := of_decide_eq_true (List.mem_filter.mp hb).2
    exact (hn.trans hm.symm).le
  have hfilter := (List.sublist_insertionSort hsame List.filter_sublist).filter fun c => decide (c.index = n)
  rw [List.filter_filter] at hfilter
  simp only [Bool.and_self] at hfilter
  exact (hfilter.eq_of_length (hperm.filter _).length_eq.symm).symm

end Constant

/-! ### Runs -/

/-- The elements of an array are float constants of the registers from its first one on. -/
structure ConstantArray.IsRun (a : ConstantArray) : Prop where
  kind : a.kind = .float
  nonempty : 0 < a.count
  count : a.count = a.constants.length
  consecutive : ∀ k c, a.constants[k]? = some c → c.index = a.index + k

/-- Between two arrays a register is missing. -/
def ConstantArray.Apart (a b : ConstantArray) : Prop := a.index + a.count < b.index

namespace ConstantArray

variable (cs : List Constant) {run : List Constant} {a : ConstantArray}

theorem Apart.trans {b c : ConstantArray} (h : a.Apart b) (h' : b.Apart c) : a.Apart c := by
  unfold Apart at *
  omega

instance : Trans Apart Apart Apart := ⟨Apart.trans⟩

theorem ofConstants_eq :
    ofConstants cs =
      ((Constant.inOrder (Constant.floats cs)).splitBy Constant.followedBy).map ofRun :=
  rfl

theorem index_of_isChain {c : Constant}
    (h : (c :: run).IsChain fun a b => Constant.followedBy a b = true) {k : Nat} {d : Constant}
    (hk : (c :: run)[k]? = some d) : d.index = c.index + k := by
  induction run generalizing c k with
  | nil =>
    obtain ⟨rfl, rfl⟩ : k = 0 ∧ c = d := by
      cases k with
      | zero => exact ⟨rfl, Option.some.inj hk⟩
      | succ k => cases hk
    rfl
  | cons e run ih =>
    obtain ⟨hnext, htail⟩ := List.isChain_cons_cons.mp h
    have he : e.index = c.index + 1 := eq_of_beq hnext
    cases k with
    | zero => rw [← Option.some.inj hk, Nat.add_zero]
    | succ k =>
      rw [ih htail hk, he]
      omega

theorem isRun_ofRun {ordered : List Constant} (h : run ∈ ordered.splitBy Constant.followedBy) :
    (ofRun run).IsRun := by
  have hne := List.ne_nil_of_mem_splitBy h
  have hchain := List.isChain_of_mem_splitBy h
  obtain ⟨c, rest, rfl⟩ := List.exists_cons_of_ne_nil hne
  exact ⟨rfl, Nat.succ_pos _, rfl, fun k d hk => index_of_isChain hchain hk⟩

theorem isRun_of_mem {cs : List Constant} (h : a ∈ ofConstants cs) : a.IsRun := by
  rw [ofConstants_eq] at h
  obtain ⟨run, hrun, rfl⟩ := List.mem_map.mp h
  exact isRun_ofRun hrun

theorem flatMap_constants :
    (ofConstants cs).flatMap ConstantArray.constants = Constant.inOrder (Constant.floats cs) := by
  rw [ofConstants_eq, List.flatMap_map]
  show List.flatMap id _ = _
  rw [List.flatMap_id, List.flatten_splitBy]

theorem IsRun.index_getLast (h : (ofRun run).IsRun) (hne : run ≠ []) :
    (run.getLast hne).index + 1 = (ofRun run).index + (ofRun run).count := by
  have hpos : 0 < run.length := h.nonempty
  have hlast : run[run.length - 1]? = some (run.getLast hne) := by
    rw [List.getLast_eq_getElem]
    exact List.getElem?_eq_getElem (by omega)
  have hindex := h.consecutive _ _ hlast
  show _ = (ofRun run).index + run.length
  omega

/-- If no register is defined twice, the arrays do not touch. -/
theorem pairwise_apart {cs : List Constant}
    (distinct : ((Constant.floats cs).map Constant.index).Nodup) :
    (ofConstants cs).Pairwise Apart := by
  have hsorted := Constant.stablySorted_inOrder (Constant.floats cs)
  generalize hordered : Constant.inOrder (Constant.floats cs) = ordered at hsorted
  have hstrict : ordered.Pairwise fun a b => a.index < b.index := by
    have hnodup := (hsorted.perm.map Constant.index).nodup_iff.mpr distinct
    have hne : ordered.Pairwise fun a b => a.index ≠ b.index := List.pairwise_map.mp hnodup
    exact (hsorted.sorted.and hne).imp fun h => Nat.lt_of_le_of_ne h.1 h.2
  rw [ofConstants_eq, hordered, ← List.isChain_iff_pairwise, List.isChain_map]
  -- every constant of a piece has a lower register than every constant of a later piece
  have hpieces : (ordered.splitBy Constant.followedBy).Pairwise
      fun l m => ∀ a ∈ l, ∀ b ∈ m, a.index < b.index := by
    rw [← List.flatten_splitBy Constant.followedBy ordered] at hstrict
    exact (List.pairwise_flatten.mp hstrict).2
  -- and where one is cut off from the next, the next register is left out
  have hcuts := List.isChain_getLast_head_splitBy Constant.followedBy ordered
  have hruns : ∀ run ∈ ordered.splitBy Constant.followedBy, (ofRun run).IsRun :=
    fun run hrun => isRun_ofRun hrun
  generalize ordered.splitBy Constant.followedBy = runs at hpieces hcuts hruns
  induction hcuts with
  | nil => exact .nil
  | singleton run => exact .singleton run
  | @cons_cons first second more hcut _ ih =>
    obtain ⟨hfirst, hsecond, hcut⟩ := hcut
    obtain ⟨hbefore, hrest⟩ := List.pairwise_cons.mp hpieces
    refine .cons_cons ?_ (ih hrest fun run hrun => hruns run (List.mem_cons_of_mem _ hrun))
    have hlt := hbefore second List.mem_cons_self _ (List.getLast_mem hfirst) _
      (List.head_mem hsecond)
    have hlast := (hruns first List.mem_cons_self).index_getLast hfirst
    have hhead : (ofRun second).index = (second.head hsecond).index := by
      rw [ofRun, List.head?_eq_some_head hsecond]
      rfl
    have hgap : (second.head hsecond).index ≠ (first.getLast hfirst).index + 1 := by
      simpa [Constant.followedBy] using hcut
    show (ofRun first).index + (ofRun first).count < (ofRun second).index
    omega

end ConstantArray

end ShaderLift
