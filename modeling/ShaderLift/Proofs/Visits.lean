/-
The units that reading goes through, as a list.  `Scan.readUnits` only gives its last state; here every
pass of it is recorded as a `Visit`: where the unit starts, the state in which it is read, its first
word and the words after it.  `Run` says how the visits, the words and the last state belong together,
with one case for each way a pass can end.  An `Invariant` is what every step of reading keeps.
-/
import ShaderLift.Proofs.Moves

namespace ShaderLift

/-! ### Visits -/

/-- A unit as it is come upon: the state it is read in, its first word and all words after that. -/
structure Visit where
  env : Env
  start : Nat
  before : Scan
  word : Word
  rest : List Word

namespace Visit

def after (v : Visit) : Scan := (Scan.readUnit v.env v.before v.word v.rest).1

def length (v : Visit) : Nat := (Scan.readUnit v.env v.before v.word v.rest).2

/-- Whether the unit takes no more words than there are. -/
def Fits (v : Visit) : Prop := v.length ≤ v.rest.length + 1

def words (v : Visit) : List Word := (v.word :: v.rest).take v.length

def remainder (v : Visit) : List Word := v.rest.drop (v.length - 1)

theorem records (v : Visit) : Scan.Records v.before v.after := by
  have h := (Scan.moves_readUnit v.env v.before v.word v.rest).records
  unfold Scan.noteEnd at h
  split at h
  · exact h
  · exact h

/-- The end mark is noted when its unit is read, and not otherwise. -/
theorem ended_after (v : Visit) : v.after.ended = (v.before.ended || v.word == Word.endMark) := by
  have h := (Scan.moves_readUnit v.env v.before v.word v.rest).marks_eq.1
  by_cases hw : v.word = Word.endMark
  · rw [after, h, Scan.noteEnd, if_pos hw]
    simp [hw]
  · rw [after, h, Scan.noteEnd, if_neg hw]
    simp [hw]

theorem words_of_endMark (v : Visit) (h : v.word = Word.endMark) : v.words = [Word.endMark] := by
  have hl : v.length = 1 := by
    unfold length Scan.readUnit
    rw [(Scan.ofWord_eq_finish_iff v.word).mpr h]
  rw [words, hl, h]
  rfl

end Visit

namespace Scan

variable {s t : Scan} {env : Env} {n : Nat} {ws : List Word} {vs : List Visit}

def visit (env : Env) (s : Scan) (n : Nat) (w : Word) (ws : List Word) : Visit :=
  ⟨env, n, s.startUnit (.word n), w, ws⟩

def visits (env : Env) (s : Scan) (n : Nat) : List Word → List Visit
  | [] => []
  | w :: ws =>
    let v := visit env s n w ws
    if ws.length + 1 < v.length then [v]
    else if stopsAt env w then [v]
    else v :: visits env v.after (n + v.length) v.remainder
termination_by ws => ws.length
decreasing_by
  simp only [Visit.remainder, visit, List.length_drop, List.length_cons]
  omega

def cutOff (s : Scan) : Scan := { s.fail .truncated with truncated := true }

/-- How reading goes on from a state: by the visits `vs` to the state `t`. -/
inductive Run (env : Env) : Scan → Nat → List Word → List Visit → Scan → Prop
  | done (s : Scan) (n : Nat) : Run env s n [] [] s
  | cut (s : Scan) (n : Nat) (w : Word) (ws : List Word) (tooLong : ¬ (visit env s n w ws).Fits) :
      Run env s n (w :: ws) [visit env s n w ws] (visit env s n w ws).after.cutOff
  /-- The unit ends a shader of unknown length. -/
  | stop (s : Scan) (n : Nat) (w : Word) (ws : List Word) (fits : (visit env s n w ws).Fits)
      (last : stopsAt env w) :
      Run env s n (w :: ws) [visit env s n w ws] (visit env s n w ws).after
  | next (s : Scan) (n : Nat) (w : Word) (ws : List Word) {vs : List Visit} {t : Scan}
      (fits : (visit env s n w ws).Fits) (more : ¬ stopsAt env w)
      (r : Run env (visit env s n w ws).after (n + (visit env s n w ws).length)
        (visit env s n w ws).remainder vs t) :
      Run env s n (w :: ws) (visit env s n w ws :: vs) t

theorem run_readUnits (env : Env) (s : Scan) (n : Nat) (ws : List Word) :
    Run env s n ws (visits env s n ws) (readUnits env s n ws) := by
  -- `visits` and `readUnits` take the same branches, so the cases of one settle the other
  fun_induction visits env s n ws with
  | case1 s n =>
    rw [readUnits]
    exact .done s n
  | case2 s n w ws v tooLong =>
    rw [readUnits]
    have h : ws.length + 1 < (readUnit env (s.startUnit (.word n)) w ws).2 := tooLong
    simp only [h, if_true]
    exact .cut s n w ws (Nat.not_le_of_lt tooLong)
  | case3 s n w ws v fits last =>
    rw [readUnits]
    have h : ¬ ws.length + 1 < (readUnit env (s.startUnit (.word n)) w ws).2 := fits
    simp only [h, last, if_true, if_false]
    exact .stop s n w ws (Nat.le_of_not_lt fits) last
  | case4 s n w ws v fits more ih =>
    rw [readUnits]
    have h : ¬ ws.length + 1 < (readUnit env (s.startUnit (.word n)) w ws).2 := fits
    simp only [h, more, if_false]
    exact .next s n w ws (Nat.le_of_not_lt fits) more ih

section Preserves

variable {env : Env} {P : Scan → Prop} {Q : Visit → Prop} (start : ∀ s p, P s → P (s.startUnit p))
  (cut : ∀ s, P s → P s.cutOff)
  (step : ∀ v : Visit, v.env = env → v.before.failing = false → Q v → P v.before → P v.after)
  {s t : Scan} {n : Nat} {ws : List Word} {vs : List Visit}
include start cut step

theorem Run.preserves (r : Run env s n ws vs t) (hvs : ∀ v ∈ vs, Q v) (hs : P s) : P t := by
  induction r with
  | done => exact hs
  | cut s n w ws =>
    exact cut _ (step _ rfl rfl (hvs _ List.mem_cons_self) (start s _ hs))
  | stop s n w ws => exact step _ rfl rfl (hvs _ List.mem_cons_self) (start s _ hs)
  | next s n w ws _ _ _ ih =>
    have hafter := step _ rfl rfl (hvs _ List.mem_cons_self) (start s _ hs)
    exact ih (fun v hv => hvs v (List.mem_cons_of_mem _ hv)) hafter

omit cut

theorem Run.throughout (r : Run env s n ws vs t) (hvs : ∀ v ∈ vs, Q v) (hs : P s) :
    ∀ v ∈ vs, P v.before ∧ P v.after := by
  induction r with
  | done => exact fun v hv => absurd hv List.not_mem_nil
  | cut s n w ws | stop s n w ws =>
    have hbefore := start s (.word n) hs
    exact List.forall_mem_singleton.mpr ⟨hbefore, step _ rfl rfl (hvs _ List.mem_cons_self) hbefore⟩
  | next s n w ws _ _ _ ih =>
    obtain ⟨hfirst, hlater⟩ := List.forall_mem_cons.mp hvs
    have hbefore := start s (.word n) hs
    have hafter := step _ rfl rfl hfirst hbefore
    exact List.forall_mem_cons.mpr ⟨⟨hbefore, hafter⟩, ih hlater hafter⟩

theorem Run.preserves_before (r : Run env s n ws vs t) (hvs : ∀ v ∈ vs, Q v) (hs : P s) :
    ∀ v ∈ vs, P v.before :=
  fun v hv => (r.throughout start step hvs hs v hv).1

end Preserves

/-! ### Invariants -/

/-- A property of states that no step of reading takes away. -/
structure Invariant (env : Env) (P : Scan → Prop) : Prop where
  move : ∀ {s t : Scan}, Move env s t → P s → P t
  startUnit : ∀ {s : Scan} (p : Position), P s → P (s.startUnit p)
  ended : ∀ {s : Scan}, P s → P { s with ended := true }
  cutOff : ∀ {s : Scan}, P s → P s.cutOff

namespace Invariant

variable {P : Scan → Prop}

theorem moves (h : Invariant env P) (hm : Moves env s t) (hs : P s) : P t := by
  induction hm with
  | refl => exact hs
  | tail _ step ih => exact h.move step ih

theorem after (h : Invariant env P) (v : Visit) (henv : v.env = env) (hv : P v.before) :
    P v.after := by
  subst henv
  refine h.moves (moves_readUnit v.env v.before v.word v.rest) ?_
  unfold noteEnd
  split
  · exact h.ended hv
  · exact hv

theorem run (h : Invariant env P) (r : Run env s n ws vs t) (hs : P s) :
    (∀ v ∈ vs, P v.before ∧ P v.after) ∧ P t := by
  have hstart : ∀ s p, P s → P (s.startUnit p) := fun s p => h.startUnit p
  have hstep : ∀ v : Visit, v.env = env → v.before.failing = false → True → P v.before → P v.after :=
    fun v henv _ _ => h.after v henv
  exact ⟨r.throughout hstart hstep (fun _ _ => trivial) hs,
    r.preserves hstart (fun s => h.cutOff) hstep (fun _ _ => trivial) hs⟩

theorem later (h : Invariant env P) (r : Run env s n ws vs t) {earlier later : List Visit} {v : Visit}
    (hvs : vs = earlier ++ v :: later) (hv : P v.after) : ∀ u ∈ later, P u.before ∧ P u.after := by
  induction r generalizing earlier with
  | done => simp at hvs
  | cut s n w ws | stop s n w ws =>
    obtain ⟨-, -, rfl⟩ : earlier = [] ∧ visit env s n w ws = v ∧ later = [] := by
      cases earlier <;> simp_all
    exact fun u hu => absurd hu List.not_mem_nil
  | next s n w ws _ _ hrest ih =>
    cases earlier with
    | nil =>
      obtain ⟨rfl, rfl⟩ := List.cons.inj hvs
      exact (h.run hrest hv).1
    | cons u earlier =>
      obtain ⟨-, hsplit⟩ := List.cons.inj hvs
      exact ih hsplit

theorem last (h : Invariant env P) (r : Run env s n ws vs t) {v : Visit} (hv : v ∈ vs)
    (hP : P v.after) : P t := by
  induction r with
  | done => cases hv
  | cut s n w ws =>
    rw [List.mem_singleton.mp hv] at hP
    exact h.cutOff hP
  | stop s n w ws =>
    rw [List.mem_singleton.mp hv] at hP
    exact hP
  | next s n w ws _ _ hrest ih =>
    rcases List.mem_cons.mp hv with rfl | hv
    · exact (h.run hrest hP).2
    · exact ih hv

theorem start (h : Invariant env P) (h0 : P { position := .before }) : P (start env) :=
  h.moves (moves_start env) h0

theorem ofUnits (h : Invariant env P) (h0 : P { position := .before }) (ws : List Word) :
    P (ofUnits env ws) :=
  h.moves (moves_finish env _) (h.run (run_readUnits env _ 1 ws) (h.start h0)).2

end Invariant

/-! ### Faults along the units -/

theorem invariant_isPrefix (env : Env) (found : List LocatedFault) :
    Invariant env fun s => found <+: s.faults where
  move h hs := hs.trans h.records.isPrefix
  startUnit _ hs := hs
  ended hs := hs
  cutOff hs := hs.trans (List.prefix_append _ _)

theorem invariant_flag (env : Env) :
    Invariant env fun s => s.failing = true → s.faults ≠ [] where
  move h hs ht := by
    obtain ⟨new, hf, hb⟩ := h.records
    rw [hb, Bool.or_eq_true] at ht
    rw [hf]
    rcases ht with hold | hnew
    · exact List.append_ne_nil_of_left_ne_nil (hs hold) new
    · exact List.append_ne_nil_of_right_ne_nil _ (by simpa using hnew)
  startUnit _ _ ht := nomatch ht
  ended hs := hs
  cutOff _ _ := by simp [cutOff, fail]

/-- The flag is cleared before a unit, so it can only be up through the unit itself. -/
theorem visit_flag (env : Env) (s : Scan) (n : Nat) (w : Word) (ws : List Word) :
    (visit env s n w ws).before.failing = true → (visit env s n w ws).before.faults ≠ [] :=
  fun hup => absurd hup Bool.false_ne_true

namespace Run

theorem cleared (r : Run env s n ws vs t) : ∀ v ∈ vs, v.before.failing = false := by
  induction r with
  | done => simp
  | cut | stop => simp [visit, startUnit]
  | next _ _ _ _ _ _ _ ih => exact List.forall_mem_cons.mpr ⟨rfl, ih⟩

/-- What was found up to some unit is what is found in the end, as far as it goes. -/
theorem after_isPrefix (r : Run env s n ws vs t) : ∀ v ∈ vs, v.after.faults <+: t.faults := by
  induction r with
  | done => simp
  | cut s n w ws => exact List.forall_mem_singleton.mpr (List.prefix_append _ _)
  | stop s n w ws => exact List.forall_mem_singleton.mpr (List.prefix_refl _)
  | next s n w ws _ _ r ih =>
    have hp := ((invariant_isPrefix env (visit env s n w ws).after.faults).run r
      (List.prefix_refl _)).2
    exact List.forall_mem_cons.mpr ⟨hp, ih⟩

theorem faults_after (r : Run env s n ws vs t) (clean : t.faults = []) :
    ∀ v ∈ vs, v.after.faults = [] := by
  intro v hv
  have hprefix := r.after_isPrefix v hv
  rwa [clean, List.prefix_nil] at hprefix

/-- Nothing is found in a run exactly if the flag is down after every unit of it and in the end. -/
theorem faults_eq_nil_iff (r : Run env s n ws vs t) (hs : s.failing = true → s.faults ≠ []) :
    t.faults = [] ↔
      s.faults = [] ∧ (∀ v ∈ vs, v.after.failing = false) ∧ t.failing = false := by
  induction r with
  | done s n =>
    have h := (Records.refl s).faults_eq_nil_iff hs
    simpa using h
  | cut s n w ws => simp [cutOff, fail]
  | stop s n w ws =>
    have h := (visit env s n w ws).records.faults_eq_nil_iff (visit_flag env s n w ws)
    rw [List.forall_mem_singleton, and_self]
    exact h
  | next s n w ws _ _ _ ih =>
    have h := (visit env s n w ws).records.faults_eq_nil_iff (visit_flag env s n w ws)
    have hflag : (visit env s n w ws).after.failing = true →
        (visit env s n w ws).after.faults ≠ [] :=
      (invariant_flag env).after _ rfl (visit_flag env s n w ws)
    rw [ih hflag, h, List.forall_mem_cons, and_assoc, and_assoc]
    exact Iff.rfl

end Run

end Scan

/-- The units that reading a shader goes through. -/
def unitsOf (o : Options) : List Word → List Visit
  | [] => []
  | w :: ws =>
    match Env.ofWord? o w with
    | none => []
    | some env => Scan.visits env (Scan.start env) 1 ws

theorem unitsOf_cons (o : Options) {w : Word} {us : List Word} {env : Env} (h : Env.ofWord? o w = some env) :
    unitsOf o (w :: us) = Scan.visits env (Scan.start env) 1 us := by
  simp only [unitsOf, h]

end ShaderLift
