/-
Which words reading a unit looks at.  A reader is given all words that are left, so its type does not
say which of them matter.  `Takes read ws k` says that the first `k` do: the reader leaves the words
after them, and it does the same whatever those are.  There have to be as many of them, as a reader asks
whether there are any; if nothing is wrong, it found what it asked for, and there may be more (`Alike`).

`unitReads` then lists the words that a unit is decoded from, by their distance from its first word,
and `readUnit_congr` says that reading the unit depends on no others.  Operands are taken in order.
The literals of a definition are looked at and not taken, so a predicate after them is read from the
first literal: the words of a predicated definition are the exception in `unitReads_eq`.
-/
import ShaderLift.Proofs.Visits

namespace ShaderLift

namespace Scan

variable {α β γ : Type}
variable (env : Env) {shape : Shape} (s : Scan) {n : Nat} {ws : List Word} {k : Nat} {ws' : List Word}
  {read : List Word → Arguments × List Word × Scan}

/-! ### Readers -/

/-- There are as many words, or no fewer where nothing is wrong. -/
def Alike (s : Scan) (ws ws' : List Word) : Prop :=
  ws'.length = ws.length ∨ ws.length ≤ ws'.length ∧ s.faults = []

namespace Alike

variable {s t : Scan} {ws ws' : List Word}

theorem refl (s : Scan) (ws : List Word) : Alike s ws ws := .inl rfl

theorem le (h : Alike s ws ws') : ws.length ≤ ws'.length :=
  h.elim (fun h => Nat.le_of_eq h.symm) And.left

theorem of_records (h : Alike t ws ws') (hr : Records s t) : Alike s ws ws' :=
  h.imp_right (And.imp_right hr.faults_eq_nil)

theorem drop (h : Alike s ws ws') (k : Nat) : Alike s (ws.drop k) (ws'.drop k) := by
  unfold Alike at *
  rw [List.length_drop, List.length_drop]
  exact h.imp (congrArg (· - k)) (And.imp_left (Nat.sub_le_sub_right · k))

theorem of_cons {w w' : Word} (h : Alike s (w :: ws) (w' :: ws')) : Alike s ws ws' := h.drop 1

theorem isEmpty_eq (h : Alike s ws ws') (hne : s.faults = [] → ws ≠ []) : ws'.isEmpty = ws.isEmpty := by
  rw [Bool.eq_iff_iff, List.isEmpty_iff_length_eq_zero, List.isEmpty_iff_length_eq_zero]
  rcases h with h | ⟨hle, clean⟩
  · rw [h]
  · have := List.length_pos_iff.mpr (hne clean)
    omega

end Alike

/-- The first `k` words of `ws` are those that `read` takes and looks at.  Each matters, as it must not be
zero. -/
structure Takes (read : List Word → α × List Word × Scan) (ws : List Word) (k : Nat) : Prop where
  le : k ≤ ws.length
  rest : (read ws).2.1 = ws.drop k
  congr : ∀ ws' : List Word, Alike (read ws).2.2 ws ws' → ws'.take k = ws.take k →
    read ws' = ((read ws).1, ws'.drop k, (read ws).2.2)
  needs : ∀ j < k, (read (ws.set j 0)).2.2.faults ≠ []

namespace Takes

variable {ws : List Word} {k m : Nat} {read : List Word → α × List Word × Scan}

theorem length_sub (h : Takes read ws k) : ws.length - (read ws).2.1.length = k := by
  have hle := h.le
  rw [h.rest, List.length_drop]
  omega

theorem nil (h : (read []).2.1 = []) (missed : (read []).2.2.faults ≠ []) : Takes read [] 0 where
  le := Nat.le_refl 0
  rest := h
  congr := by
    intro ws' hlen _
    obtain rfl := List.eq_nil_of_length_eq_zero (hlen.resolve_right fun hmore => missed hmore.2)
    exact Prod.ext rfl (Prod.ext h rfl)
  needs j hj := absurd hj (Nat.not_lt_zero j)

theorem none (a : α) (s : Scan) : Takes (fun ws => (a, ws, s)) ws 0 :=
  ⟨Nat.zero_le _, rfl, fun _ _ _ => rfl, fun j hj => absurd hj (Nat.not_lt_zero j)⟩

theorem map (h : Takes read ws k) (c : α → Scan → β) (f : α → Scan → Scan)
    (hf : ∀ ws, Records (read ws).2.2 (f (read ws).1 (read ws).2.2)) :
    Takes (fun ws => (c (read ws).1 (read ws).2.2, (read ws).2.1, f (read ws).1 (read ws).2.2))
      ws k where
  le := h.le
  rest := h.rest
  congr := by
    intro ws' hlen htake
    rw [h.congr ws' (hlen.of_records (hf ws)) htake]
  needs j hj := (hf _).faults_ne_nil (h.needs j hj)

theorem cons {w : Word} {read' : List Word → α × List Word × Scan} (h : Takes read ws k)
    (hread : ∀ ws' : List Word, Alike (read ws).2.2 ws ws' → read' (w :: ws') = read ws')
    (hzero : (read' (0 :: ws)).2.2.faults ≠ []) : Takes read' (w :: ws) (k + 1) where
  le := Nat.succ_le_succ h.le
  rest := by
    rw [hread ws (.refl _ _)]
    exact h.rest
  congr := by
    intro ws' hlen htake
    rw [hread ws (.refl _ _)] at hlen ⊢
    match ws' with
    | [] => exact absurd hlen.le (by simp)
    | w' :: ws' =>
      rw [List.take_succ_cons, List.take_succ_cons, List.cons.injEq] at htake
      obtain ⟨rfl, htake⟩ := htake
      rw [hread ws' hlen.of_cons]
      exact h.congr ws' hlen.of_cons htake
  needs
  | 0, _ => hzero
  | j + 1, hj => by
    rw [List.set_cons_succ, hread _ (.inl List.length_set)]
    exact h.needs j (Nat.lt_of_succ_lt_succ hj)

theorem bind {g : Scan → List Word → β × List Word × Scan} (c : α → β → γ)
    (h : Takes read ws k) (h' : Takes (g (read ws).2.2) (ws.drop k) m)
    (hg : ∀ ws, Records (read ws).2.2 (g (read ws).2.2 (read ws).2.1).2.2) :
    Takes (fun ws =>
      (c (read ws).1 (g (read ws).2.2 (read ws).2.1).1, (g (read ws).2.2 (read ws).2.1).2))
      ws (k + m) where
  le := by
    -- the second reader takes from what the first one leaves
    have hle := h'.le
    rw [List.length_drop] at hle
    have := h.le
    omega
  rest := by
    dsimp only
    rw [h.rest, h'.rest, List.drop_drop]
  congr := by
    intro ws' hlen htake
    rw [List.take_add, List.take_add] at htake
    have hk : (ws'.take k).length = (ws.take k).length := by
      rw [List.length_take_of_le h.le, List.length_take_of_le (Nat.le_trans h.le hlen.le)]
    obtain ⟨hfirst, hsecond⟩ := List.append_inj htake hk
    dsimp only at hlen ⊢
    rw [h.congr ws' (hlen.of_records (hg ws)) hfirst]
    rw [h.rest] at hlen ⊢
    dsimp only
    rw [h'.congr (ws'.drop k) (hlen.drop k) hsecond, List.drop_drop]
  needs := by
    intro j hj
    by_cases hfirst : j < k
    · exact (hg _).faults_ne_nil (h.needs j hfirst)
    · -- the first reader does not look at the word, and leaves it to the second
      have hsame : (ws.set j 0).take k = ws.take k := List.take_set_of_le (Nat.le_of_not_lt hfirst)
      have hrest : (ws.set j 0).drop k = (ws.drop k).set (j - k) 0 := by
        rw [List.drop_set, if_neg hfirst]
      dsimp only
      rw [h.congr _ (.inl List.length_set) hsame]
      dsimp only
      rw [hrest]
      exact h'.needs (j - k) (by omega)

end Takes

/-! ### Operands -/

theorem faults_readDest_zero (centroidAllowed : Bool) (s : Scan) (ws : List Word) :
    (readDest env centroidAllowed s (0 :: ws)).2.2.faults ≠ [] := by
  have hmarked : (DestWord.ofWord 0).marked = false := by decide
  have hrelative : (DestWord.ofWord 0).relative = false := by decide
  have hbad : (checkDest env centroidAllowed (DestWord.ofWord 0) s.advance).faults ≠ [] := by
    simp [checkDest, hmarked, hrelative, failIf_eq, failAll_eq, faultIf]
  unfold readDest
  dsimp only
  split
  · exact hbad
  · exact hbad

theorem faults_readSource_zero (s : Scan) (ws : List Word) :
    (readSource env s (0 :: ws)).2.2.faults ≠ [] := by
  have hmarked : (SourceWord.ofWord 0).marked = false := by decide
  have hrelative : (SourceWord.ofWord 0).relative = false := by decide
  simp only [readSource, hmarked, hrelative, Bool.false_and, Bool.not_false]
  refine ((Fetches.checkModifier .refl env _ _).markRead _).records.faults_ne_nil ?_
  simp [failIf_eq, failAll_eq, faultIf]

theorem takes_readDest (centroidAllowed : Bool) (s : Scan) (ws : List Word) :
    ∃ k, Takes (readDest env centroidAllowed s) ws k := by
  cases ws with
  | nil => exact ⟨0, .nil rfl (by simp [readDest, fail])⟩
  | cons w ws =>
    have h : Takes (fun ws => ((readDest env centroidAllowed s [w]).1, ws,
        (readDest env centroidAllowed s [w]).2.2)) ws 0 := .none _ _
    exact ⟨1, h.cons (fun _ _ => rfl) (faults_readDest_zero env centroidAllowed s ws)⟩

theorem takes_readIndex (hne : ws ≠ []) : ∃ k, Takes (readIndex env s) ws k := by
  cases ws with
  | nil => exact absurd rfl hne
  | cons w ws =>
    cases hm : env.atLeast 2 0 with
    | true =>
      have h : Takes (fun ws => ((readIndex env s [w]).1, ws, (readIndex env s [w]).2.2)) ws 0 :=
        .none _ _
      refine ⟨1, h.cons (fun ws' _ => ?_) ?_⟩
      · simp only [readIndex, hm, if_true]
      · have hmarked : (RelativeWord.ofWord 0).marked = false := by decide
        simp [readIndex, hm, checkRelative, hmarked, failIf_eq, failAll_eq, faultIf]
    | false =>
      refine ⟨0, Nat.zero_le _, ?_, ?_, fun j hj => absurd hj (Nat.not_lt_zero j)⟩
      · simp only [readIndex, hm, Bool.false_eq_true, if_false, List.drop_zero]
      · intro ws' hlen _
        cases ws' with
        | nil => exact absurd hlen.le (by simp)
        | cons w' ws' =>
          simp only [readIndex, hm, Bool.false_eq_true, if_false, List.drop_zero]

theorem takes_readRelative (r : Register) (s : Scan) (hne : ws ≠ []) :
    ∃ k, Takes (readRelative env r s) ws k := by
  obtain ⟨k, hk⟩ := takes_readIndex env
    (s.failIf (env.isPixel && !env.atLeast 3 0) .relativePixel) hne
  exact ⟨k, hk.map (fun index s => (resolveRelative env r index s).1)
    (fun index s => (resolveRelative env r index s).2)
    fun ws => (fetches_readRelative env r s ws).records⟩

theorem ne_nil_of_readSource {w : Word} (clean : (readSource env s (w :: ws)).2.2.faults = [])
    (hrel : (SourceWord.ofWord w).relative = true) : ws ≠ [] := by
  rintro rfl
  -- what is checked after the missing word takes no fault away
  have hmissing : ∀ u : Scan, ∀ r m, ((checkModifier env r m
      (u.failIf true .relativeMissing)).markRead r).faults ≠ [] := by
    intro u r m
    have hf : Fetches (u.failIf true .relativeMissing)
        ((checkModifier env r m (u.failIf true .relativeMissing)).markRead r) :=
      (Fetches.checkModifier .refl env r m).markRead r
    exact hf.records.faults_ne_nil (by simp [failIf, fail])
  simp only [readSource, hrel] at clean
  exact hmissing _ _ _ clean

theorem takes_readSource (ws : List Word) :
    ∃ k, Takes (readSource env s) ws k ∧
      (ws ≠ [] → (readSource env s ws).1.relative = none → k = 1) := by
  match ws with
  | [] => exact ⟨0, .nil rfl (by simp [readSource, fail]), fun h => absurd rfl h⟩
  | w :: ws =>
    -- the parts of the source, and the state once its own word has been judged
    let d := SourceWord.ofWord w
    let file := RegisterFile.ofCode? d.fileCode
    let r := Register.normalize ⟨file.getD .temp, d.number⟩
    let modifier := SourceModifier.ofCode? d.modifierCode
    let plain : Source :=
      { register := r, swizzle := adjustSwizzle env s r d.swizzle, modifier := modifier.getD .plain }
    let s' := s.advance.failIf (d.reservedLow != 0) .sourceReservedLow
      |>.failIf (!d.marked) .sourceUnmarked
      |>.failIf file.isNone .fileRange
      |>.failIf (d.relative && ws.isEmpty) .relativeMissing
    let judge := fun s => (checkModifier env r modifier s).markRead r
    have hempty : ∀ ws' : List Word, Alike (readSource env s (w :: ws)).2.2 ws ws' →
        ((SourceWord.ofWord w).relative && ws'.isEmpty) = ((SourceWord.ofWord w).relative && ws.isEmpty) ∧
        ((SourceWord.ofWord w).relative && !ws'.isEmpty) =
          ((SourceWord.ofWord w).relative && !ws.isEmpty) := by
      intro ws' hlen
      cases hrelative : (SourceWord.ofWord w).relative with
      | false => exact ⟨rfl, rfl⟩
      | true =>
        rw [hlen.isEmpty_eq fun clean => ne_nil_of_readSource env s clean hrelative]
        exact ⟨rfl, rfl⟩
    cases hrel : d.relative && !ws.isEmpty with
    | true =>
      have hne : ws ≠ [] := by simpa using (Bool.and_eq_true_iff.mp hrel).2
      obtain ⟨k, hk⟩ := takes_readRelative env r s' hne
      have hread : ∀ ws' : List Word, Alike (readSource env s (w :: ws)).2.2 ws ws' →
          readSource env s (w :: ws') =
            ({ plain with relative := some (readRelative env r s' ws').1 },
              (readRelative env r s' ws').2.1, judge (readRelative env r s' ws').2.2) := by
        intro ws' hlen
        simp only [readSource, hempty ws' hlen]
        exact if_pos hrel
      refine ⟨k + 1, (hk.map (fun index _ => { plain with relative := some index })
        (fun _ s => judge s) fun _ => ((Fetches.checkModifier .refl env _ _).markRead _).records).cons
        (fun ws' hlen => hread ws' ?_) (faults_readSource_zero env s ws), fun _ h => ?_⟩
      · rw [hread ws (.refl _ _)]
        exact hlen
      · rw [hread ws (.refl _ _)] at h
        cases h
    | false =>
      have hread : ∀ ws' : List Word, Alike (readSource env s (w :: ws)).2.2 ws ws' →
          readSource env s (w :: ws') = (plain, ws', judge s') := by
        intro ws' hlen
        simp only [readSource, hempty ws' hlen]
        exact if_neg (Bool.eq_false_iff.1 hrel)
      refine ⟨1, (Takes.none plain (judge s')).cons (fun ws' hlen => hread ws' ?_)
        (faults_readSource_zero env s ws), fun _ _ => rfl⟩
      rw [hread ws (.refl _ _)]
      exact hlen

theorem takes_readSources (n : Nat) (ws : List Word) :
    ∃ k, Takes (fun ws => readSources env s n ws) ws k := by
  induction n generalizing s ws with
  | zero => exact ⟨0, .none [] s⟩
  | succ n ih =>
    obtain ⟨k, hk, -⟩ := takes_readSource env s ws
    obtain ⟨m, hm⟩ := ih (readSource env s ws).2.2 (ws.drop k)
    exact ⟨k + m, hk.bind List.cons (g := fun s ws => readSources env s n ws) hm
      fun _ => (Fetches.readSources .refl env n _).records⟩

theorem takes_readDestSources (n : Nat) (ws : List Word) :
    ∃ k, Takes (fun ws => readDestSources env s n ws) ws k := by
  obtain ⟨k, hk⟩ := takes_readDest env false s ws
  obtain ⟨m, hm⟩ := takes_readSources env (readDest env false s ws).2.2 n (ws.drop k)
  exact ⟨k + m, hk.bind (fun dest sources => ({ dest, sources } : Arguments))
    (g := fun s ws => readSources env s n ws) hm fun _ => (Fetches.readSources .refl env n _).records⟩

/-! ### Arguments -/

/-- The words after an opcode that its arguments are decoded from. -/
def argumentReads (env : Env) (shape : Shape) (s : Scan) (ws : List Word) : List Nat :=
  match shape with
  | .defineFloat | .defineInt => List.range 5
  | .defineBool | .declaration => List.range 2
  | _ => List.range (ws.length - (readArguments env shape s ws).2.2.1.length)

/-- The arguments are read otherwise from other words: there is a fault, or there are other literals. -/
def ReadOtherwise (env : Env) (shape : Shape) (s : Scan) (ws ws' : List Word) : Prop :=
  (readArguments env shape s ws').2.2.2.faults ≠ [] ∨ shape.isDefinition = true ∧
    (readArguments env shape s ws').1.literals ≠ (readArguments env shape s ws).1.literals

/-- What arguments are read from: the words after them are left, and just the words listed matter.  Of a
definition only the destination is taken. -/
structure ArgumentsTake (env : Env) (shape : Shape) (s : Scan) (ws : List Word) (k : Nat) :
    Prop where
  le : k ≤ ws.length
  rest : (readArguments env shape s ws).2.2.1 = ws.drop k
  congr : ∀ ws' : List Word, Alike (readArguments env shape s ws).2.2.2 ws ws' →
    (∀ i ∈ argumentReads env shape s ws, ws'[i]? = ws[i]?) →
      readArguments env shape s ws' =
        ((readArguments env shape s ws).1, (readArguments env shape s ws).2.1, ws'.drop k,
          (readArguments env shape s ws).2.2.2)
  needs : ∀ j ∈ argumentReads env shape s ws, j < ws.length → ∃ w, ReadOtherwise env shape s ws (ws.set j w)
  counted : (if shape.isDefinition then 3 else 1) ≤ (readArguments env shape s ws).2.1
  reads : argumentReads env shape s ws = List.range ((readArguments env shape s ws).2.1 - 1)
  taken : (readArguments env shape s ws).2.2.2.faults = [] →
    k = if shape.isDefinition then 1 else (readArguments env shape s ws).2.1 - 1

theorem take_eq_of_getElem? (h : ∀ i ∈ List.range k, ws'[i]? = ws[i]?) : ws'.take k = ws.take k := by
  apply List.ext_getElem?
  intro i
  rw [List.getElem?_take, List.getElem?_take]
  split
  next hi => exact h i (List.mem_range.mpr hi)
  next => rfl

theorem drop_min_length : ws.drop (min n ws.length) = ws.drop n := by
  rcases Nat.le_total n ws.length with hle | hle
  · rw [Nat.min_eq_left hle]
  · rw [Nat.min_eq_right hle, List.drop_length, List.drop_eq_nil_of_le hle]

theorem ArgumentsTake.of_takes {env : Env} {s : Scan} (h : Takes read ws k)
    (hread : ∀ ws, readArguments env shape s ws =
      ((read ws).1, 1 + (ws.length - (read ws).2.1.length), (read ws).2))
    (hreads : argumentReads env shape s ws =
      List.range (ws.length - (readArguments env shape s ws).2.2.1.length))
    (hshape : shape.isDefinition = false) : ArgumentsTake env shape s ws k := by
  have hrest : (readArguments env shape s ws).2.2.1 = (read ws).2.1 := by rw [hread]
  have hcount : (readArguments env shape s ws).2.1 = 1 + k := by rw [hread, h.length_sub]
  rw [hrest, h.length_sub] at hreads
  refine ⟨h.le, hrest.trans h.rest, ?_, fun j hj _ => ⟨0, .inl ?_⟩, ?_, ?_, ?_⟩
  · intro ws' hlen hsame
    rw [hreads] at hsame
    rw [hread] at hlen ⊢
    have hcount' : ws'.length - (ws'.drop k).length = k := by
      rw [List.length_drop]
      have := Nat.le_trans h.le hlen.le
      omega
    rw [h.congr ws' hlen (take_eq_of_getElem? hsame), hread, h.length_sub, hcount']
  · rw [hreads, List.mem_range] at hj
    rw [hread]
    exact h.needs j hj
  · rw [hshape, hcount]
    exact Nat.le_add_right 1 k
  · rw [hreads, hcount, Nat.add_sub_cancel_left]
  · intro _
    rw [hshape, hcount, Nat.add_sub_cancel_left]
    rfl

/-- A destination and sources, whose number is left open, as it goes by the version for some shapes. -/
theorem ArgumentsTake.of_dest {env : Env} {s : Scan}
    (hread : readArguments env shape = readArguments env (.dest n))
    (hreads : argumentReads env shape s ws =
      List.range (ws.length - (readArguments env shape s ws).2.2.1.length))
    (hshape : shape.isDefinition = false) : ∃ k, ArgumentsTake env shape s ws k := by
  obtain ⟨k, hk⟩ := takes_readDestSources env s n ws
  refine ⟨k, .of_takes hk (fun ws => ?_) hreads hshape⟩
  rw [hread]
  rfl

theorem ArgumentsTake.of_fixed {env : Env} {s : Scan} {count : Nat}
    (hread : ∀ ws, readArguments env shape s ws = ((read ws).1, count + 1, (read ws).2))
    (hreads : argumentReads env shape s ws = List.range count)
    (hcongr : ∀ ws' : List Word, (∀ i ∈ List.range count, ws'[i]? = ws[i]?) →
      read ws' = ((read ws).1, ws'.drop n, (read ws).2.2))
    (hneeds : ∀ j < count, j < ws.length → ∃ w, (read (ws.set j w)).2.2.faults ≠ [] ∨
      shape.isDefinition = true ∧ (read (ws.set j w)).1.literals ≠ (read ws).1.literals)
    (hlength : (read ws).2.2.faults = [] → n ≤ ws.length)
    (hn : n = if shape.isDefinition then 1 else count)
    (hcount : (if shape.isDefinition then 3 else 1) ≤ count + 1) :
    ArgumentsTake env shape s ws (min n ws.length) := by
  have hself := hcongr ws fun _ _ => rfl
  refine ⟨Nat.min_le_right _ _, ?_, ?_, fun j hj hlt => ?_, ?_, ?_, ?_⟩
  · rw [hread]
    exact (congrArg (fun r => r.2.1) hself).trans drop_min_length.symm
  · intro ws' hlen hsame
    have hdrop : ws'.drop n = ws'.drop (min n ws.length) := by
      rw [hread] at hlen
      rcases hlen with hlen | ⟨-, clean⟩
      · rw [← hlen, drop_min_length]
      · rw [Nat.min_eq_left (hlength clean)]
    rw [hread, hread, hcongr ws' (hreads ▸ hsame), hdrop]
  · rw [hreads, List.mem_range] at hj
    simp only [ReadOtherwise, hread]
    exact hneeds j hj hlt
  · rw [hread]
    exact hcount
  · rw [hreads, hread]
    rfl
  · intro clean
    rw [hread] at clean ⊢
    rw [Nat.min_eq_left (hlength clean)]
    exact hn

/-- A definition takes its destination and looks at so many words after it. -/
theorem readDefinition_congr (kind : ConstantKind) (s : Scan)
    (h : ∀ i ∈ List.range (if kind = .bool then 2 else 5), ws'[i]? = ws[i]?) :
    readDefinition env kind s ws' =
      ((readDefinition env kind s ws).1, ws'.drop 1, (readDefinition env kind s ws).2.2) := by
  have h0 := h 0 (by split <;> decide)
  match ws, ws' with
  | [], [] => rfl
  | [], w' :: ws' | w :: ws, [] => simp at h0
  | w :: ws, w' :: ws' =>
    have hhead : w' = w := by simpa using h0
    have hword : ∀ n, n + 1 < (if kind = .bool then 2 else 5) → ws'.getD n 0 = ws.getD n 0 := by
      intro n hn
      have hn1 := h (n + 1) (List.mem_range.mpr hn)
      rw [List.getElem?_cons_succ, List.getElem?_cons_succ] at hn1
      rw [List.getD_eq_getElem?_getD, List.getD_eq_getElem?_getD, hn1]
    subst hhead
    cases kind with
    | bool =>
      have htruth : (if ws'.getD 0 0 = 0 then (0 : Word) else 0xFFFFFFFF) =
          if ws.getD 0 0 = 0 then 0 else 0xFFFFFFFF := by rw [hword 0 (by decide)]
      exact congrArg (fun x => (Arguments.mk _ [] ⟨x, 0, 0, 0⟩ {}, ws', _)) htruth
    | float | int =>
      have h0 := hword 0 (by decide)
      have h1 := hword 1 (by decide)
      have h2 := hword 2 (by decide)
      have h3 := hword 3 (by decide)
      simp only [readDefinition, readDest, h0, h1, h2, h3, List.drop_succ_cons, List.drop_zero]

theorem readDefinition_needs (kind : ConstantKind) {s : Scan} {j : Nat}
    (hj : j < if kind = .bool then 2 else 5) (hlt : j < ws.length) :
    ∃ w, (readDefinition env kind s (ws.set j w)).2.2.faults ≠ [] ∨
      (readDefinition env kind s (ws.set j w)).1.literals ≠ (readDefinition env kind s ws).1.literals := by
  match ws, j with
  | u :: ws, 0 =>
    -- a destination of zero is a fault
    exact ⟨0, .inl ((fetches_readDefinition env kind s _).records.faults_ne_nil
      (faults_readDest_zero env false s ws))⟩
  | u :: ws, j + 1 =>
    have hset : ∀ w, (ws.set j w).getD j 0 = w := by
      intro w
      rw [List.getD_eq_getElem?_getD, List.getElem?_set_self (Nat.lt_of_succ_lt_succ hlt)]
      rfl
    have hother : (if ws.getD j 0 = 0 then (1 : Word) else 0) ≠ ws.getD j 0 := by
      split
      next h => rw [h]; decide
      next h => exact Ne.symm h
    -- any other literal makes another constant
    refine ⟨if ws.getD j 0 = 0 then 1 else 0, .inr fun hsame => ?_⟩
    cases kind with
    | bool =>
      -- of a truth value it only counts whether it is zero
      obtain rfl : j = 0 := by
        simp at hj
        omega
      have htruth : (if (ws.set 0 (if ws.getD 0 0 = 0 then 1 else 0)).getD 0 0 = 0 then (0 : Word)
          else 0xFFFFFFFF) = if ws.getD 0 0 = 0 then 0 else 0xFFFFFFFF := congrArg Quad.x hsame
      rw [hset] at htruth
      by_cases h : ws.getD 0 0 = 0
      · rw [if_pos h, if_pos h] at htruth
        exact absurd htruth (by decide)
      · rw [if_neg h, if_neg h] at htruth
        exact absurd htruth (by decide)
    | float | int =>
      have hwords := congrArg Quad.toList hsame
      simp only [readDefinition, readDest, List.set_cons_succ, Quad.toList, List.cons.injEq] at hwords
      have hcases : j = 0 ∨ j = 1 ∨ j = 2 ∨ j = 3 := by
        simp at hj
        omega
      rcases hcases with rfl | rfl | rfl | rfl
      · exact hother ((hset _).symm.trans hwords.1)
      · exact hother ((hset _).symm.trans hwords.2.1)
      · exact hother ((hset _).symm.trans hwords.2.2.1)
      · exact hother ((hset _).symm.trans hwords.2.2.2.1)

theorem readDeclaration_needs {j : Nat} (hj : j < 2) (hlt : j < ws.length) :
    (readDeclaration env s (ws.set j 0)).2.2.faults ≠ [] := by
  refine (fetches_readDeclaration env s _).records.faults_ne_nil ?_
  match ws, j with
  | u :: ws, 0 =>
    have hflag : Word.flag 0 31 = false := by decide
    refine ((Fetches.advance .refl).readDest env true _).records.faults_ne_nil ?_
    rw [List.set_cons_zero, List.headD_cons, hflag]
    simp [failIf_eq, failAll_eq, faultIf]
  | u :: d :: ws, 1 => exact faults_readDest_zero env true _ ws

theorem readDeclaration_congr (h : ∀ i ∈ List.range 2, ws'[i]? = ws[i]?) :
    readDeclaration env s ws' =
      ((readDeclaration env s ws).1, ws'.drop 2, (readDeclaration env s ws).2.2) := by
  have h0 := h 0 (by decide)
  have h1 := h 1 (by decide)
  match ws, ws' with
  | [], _ :: _ | _ :: _, [] => simp at h0
  | [_], _ :: _ :: _ | _ :: _ :: _, [_] => simp at h1
  | [], [] =>
    unfold readDeclaration
    dsimp only
    split <;> rfl
  | [u], [u'] =>
    obtain rfl : u' = u := by simpa using h0
    unfold readDeclaration
    dsimp only
    split <;> rfl
  | u :: d :: ws, u' :: d' :: ws' =>
    obtain rfl : u' = u := by simpa using h0
    obtain rfl : d' = d := by simpa using h1
    simp only [readDeclaration, readDest, List.headD_cons, List.tail_cons, List.drop_succ_cons,
      List.drop_zero]
    split <;> rfl

theorem length_of_readDefinition {env : Env} {kind : ConstantKind} {s : Scan}
    (clean : (readDefinition env kind s ws).2.2.faults = []) : 1 ≤ ws.length := by
  have hnone := (fetches_readDefinition env kind s ws).records.faults_eq_nil clean
  match ws with
  | [] => simp [readDest, fail] at hnone
  | _ :: _ => simp

theorem length_of_readDeclaration {env : Env} {s : Scan}
    (clean : (readDeclaration env s ws).2.2.faults = []) : 2 ≤ ws.length := by
  have hnone := (fetches_readDeclaration env s ws).records.faults_eq_nil clean
  match ws with
  | [] | [_] => simp [declaredDest, readDest, fail] at hnone
  | _ :: _ :: _ => simp

theorem ArgumentsTake.of_definition {env : Env} {s : Scan} (kind : ConstantKind)
    (hread : ∀ ws, readArguments env shape s ws = ((readDefinition env kind s ws).1,
      (if kind = .bool then 2 else 5) + 1, (readDefinition env kind s ws).2))
    (hreads : argumentReads env shape s ws = List.range (if kind = .bool then 2 else 5))
    (hshape : shape.isDefinition = true) : ∃ k, ArgumentsTake env shape s ws k := by
  refine ⟨_, .of_fixed hread hreads (fun _ => readDefinition_congr env kind s) (fun _ hj hlt => ?_)
    length_of_readDefinition ?_ ?_⟩
  · exact (readDefinition_needs env kind hj hlt).imp fun _ => .imp_right fun h => ⟨hshape, h⟩
  · rw [hshape]
    rfl
  · rw [hshape]
    cases kind <;> decide

theorem argumentsTake (shape : Shape) (s : Scan) (ws : List Word) :
    ∃ k, ArgumentsTake env shape s ws k := by
  cases shape with
  | sources n =>
    obtain ⟨k, hk⟩ := takes_readSources env s n ws
    exact ⟨k, .of_takes (hk.map (fun sources _ => ({ sources } : Arguments)) (fun _ s => s)
      fun _ => .refl _) (fun _ => rfl) rfl rfl⟩
  | dest n => exact ArgumentsTake.of_dest rfl rfl rfl
  | sinCos | texCoord | texLoad => exact ArgumentsTake.of_dest (n := ite _ _ _) rfl rfl rfl
  | defineFloat => exact ArgumentsTake.of_definition .float (fun _ => rfl) rfl rfl
  | defineInt => exact ArgumentsTake.of_definition .int (fun _ => rfl) rfl rfl
  | defineBool => exact ArgumentsTake.of_definition .bool (fun _ => rfl) rfl rfl
  | declaration =>
    exact ⟨_, .of_fixed (fun _ => rfl) rfl (fun _ => readDeclaration_congr env s)
      (fun _ hj hlt => ⟨0, .inl (readDeclaration_needs env s hj hlt)⟩)
      length_of_readDeclaration rfl (by decide)⟩

/-! ### Instructions -/

/-- The words that the predicate of an instruction is decoded from, where the words `rest` are left
after the arguments: those that a source takes there. -/
def predicateReads (env : Env) (s : Scan) (ws rest : List Word) : List Nat :=
  (List.range (rest.length - (readSource env s rest).2.1.length)).map
    (ws.length - rest.length + ·)

/-- The words after an opcode that arguments and predicate are decoded from, in this order. -/
def operandReads (env : Env) (op : Opcode) (w : InstructionWord) (s : Scan) (ws : List Word) :
    List Nat :=
  let a := readArguments env op.info.shape s ws
  argumentReads env op.info.shape s ws
    ++ if w.predicated then predicateReads env a.2.2.2 ws a.2.2.1 else []

theorem readPredicate_congr (hk : k ≤ ws.length)
    (hlen : Alike (readPredicate env s (ws.drop k)) (ws.drop k) (ws'.drop k))
    (h : ∀ i ∈ predicateReads env s ws (ws.drop k), ws'[i]? = ws[i]?) :
    readPredicate env s (ws'.drop k) = readPredicate env s (ws.drop k) := by
  obtain ⟨m, hm, -⟩ := takes_readSource env s (ws.drop k)
  have hstart : ws.length - (ws.drop k).length = k := by
    rw [List.length_drop]
    omega
  have htake : (ws'.drop k).take m = (ws.drop k).take m := by
    apply take_eq_of_getElem?
    intro i hi
    rw [List.getElem?_drop, List.getElem?_drop]
    apply h
    rw [predicateReads, hm.length_sub, hstart]
    exact List.mem_map_of_mem hi
  have hempty : (ws'.drop k).isEmpty = (ws.drop k).isEmpty :=
    hlen.isEmpty_eq fun clean hnil => by simp [hnil, readPredicate, readSource, fail] at clean
  have hsource := hm.congr (ws'.drop k) (hlen.of_records (fetches_readPredicate env s _).records) htake
  unfold readPredicate
  rw [hsource, hempty]

theorem readOperands_congr (op : Opcode) (w : InstructionWord) (s : Scan)
    (hlen : Alike (readOperands env op w s ws).2.2 ws ws')
    (h : ∀ i ∈ operandReads env op w s ws, ws'[i]? = ws[i]?) :
    readOperands env op w s ws' = readOperands env op w s ws := by
  obtain ⟨k, hk⟩ := argumentsTake env op.info.shape s ws
  have harguments := hk.congr ws' (hlen.of_records (fetches_readOperands env op w s ws).records)
    fun i hi => h i (List.mem_append_left _ hi)
  unfold readOperands at hlen ⊢
  rw [harguments]
  dsimp only at hlen ⊢
  split
  next hp =>
    rw [if_pos hp, hk.rest] at hlen
    have hpredicate : ∀ i ∈ predicateReads env (readArguments env op.info.shape s ws).2.2.2 ws
        (ws.drop k), ws'[i]? = ws[i]? := by
      intro i hi
      apply h
      unfold operandReads
      dsimp only
      rw [if_pos hp, hk.rest]
      exact List.mem_append_right _ hi
    rw [readPredicate_congr env _ hk.le (hlen.drop k) hpredicate, hk.rest]
  next => rfl

theorem predicateReads_eq {env : Env} {s : Scan} (ws : List Word) {rest : List Word}
    (clean : (readPredicate env s rest).faults = []) :
    predicateReads env s ws rest = [ws.length - rest.length] := by
  have hne : rest ≠ [] := by
    rintro rfl
    simp [readPredicate, readSource, fail] at clean
  have hempty : rest.isEmpty = false := by simpa using hne
  have hrelative : (readSource env s rest).1.relative = none := by
    simp only [readPredicate, hempty, Bool.false_eq_true, if_false] at clean
    cases hr : (readSource env s rest).1.relative with
    | none => rfl
    | some index => simp [failIf, fail, hr] at clean
  obtain ⟨m, hm, hone⟩ := takes_readSource env s rest
  rw [predicateReads, hm.length_sub, hone hne hrelative]
  rfl

theorem readOperands_needs {op : Opcode} {w : InstructionWord} {s : Scan}
    (clean : (readOperands env op w s ws).2.2.faults = []) {j : Nat} (hj : j ∈ operandReads env op w s ws)
    (hlt : j < ws.length) :
    ∃ u, (readOperands env op w s (ws.set j u)).2.2.faults ≠ [] ∨ op.info.shape.isDefinition = true ∧
      (readOperands env op w s (ws.set j u)).1.literals ≠ (readOperands env op w s ws).1.literals := by
  obtain ⟨k, hk⟩ := argumentsTake env op.info.shape s ws
  by_cases hargument : j ∈ argumentReads env op.info.shape s ws
  · have hliterals : ∀ ws, (readOperands env op w s ws).1.literals =
        (readArguments env op.info.shape s ws).1.literals := by
      intro ws
      unfold readOperands
      dsimp only
      split <;> rfl
    obtain ⟨u, hu⟩ := hk.needs j hargument hlt
    rw [hliterals ws]
    refine ⟨u, hu.imp (fetches_readOperands env op w s _).records.faults_ne_nil fun h => ?_⟩
    exact (hliterals _).symm ▸ h
  · -- the word is that of the predicate, right after what the arguments take
    have hpredicate := (List.mem_append.mp hj).resolve_left hargument
    split at hpredicate
    next hp =>
      unfold readOperands at clean
      dsimp only at clean
      rw [if_pos hp] at clean
      rw [predicateReads_eq ws clean, hk.rest, List.length_drop, Nat.sub_sub_self hk.le,
        List.mem_singleton] at hpredicate
      subst hpredicate
      -- the arguments are read as before
      have hsame := hk.congr (ws.set j 0) (.inl List.length_set) fun i hi =>
        List.getElem?_set_ne fun h : j = i => hargument (h ▸ hi)
      have hrest : (ws.set j 0).drop j = 0 :: ws.drop (j + 1) := by
        rw [List.drop_set, if_neg (Nat.lt_irrefl j), Nat.sub_self, List.drop_eq_getElem_cons hlt,
          List.set_cons_zero]
      refine ⟨0, .inl ?_⟩
      unfold readOperands
      rw [hsame]
      dsimp only
      rw [if_pos hp, hrest]
      exact (fetches_readPredicate env _ _).records.faults_ne_nil (faults_readSource_zero env _ _)
    next => cases hpredicate

theorem readInstruction_congr (op : Opcode) (w : InstructionWord)
    (h : readOperands env op w (operandState env s op w) ws' =
      readOperands env op w (operandState env s op w) ws) :
    readInstruction env s op w ws' = readInstruction env s op w ws := by
  cases known : op.isReserved with
  | true => simp only [readInstruction, known, if_true]
  | false => rw [readInstruction_eq known, readInstruction_eq known, h]

theorem operands_of_readInstruction {env : Env} {s : Scan} {op : Opcode} {w : InstructionWord}
    (clean : (readInstruction env s op w ws).1.faults = []) :
    op.isReserved = false ∧
      (readOperands env op w (operandState env s op w) ws).2.2.faults = [] ∧
      (readInstruction env s op w ws).2 =
        (readOperands env op w (operandState env s op w) ws).2.1 := by
  cases known : op.isReserved with
  | true => simp [readInstruction, known, fail] at clean
  | false =>
    rw [readInstruction_eq known, settleLength_fst] at clean
    -- faults only grow, so there is none before the length is settled, nor before the execution
    have hexecuted := (Fetches.failAll .refl _).records.faults_eq_nil clean
    refine ⟨rfl, (moves_execute env op w _ ws _).records.faults_eq_nil hexecuted, ?_⟩
    rw [readInstruction_eq known, settleLength_eq (eq_nil_of_faults_failAll clean)]

/-! ### Units -/

def isPredicatedDefinition (w : Word) : Bool :=
  match UnitHead.ofWord w with
  | .instruction op fields => fields.predicated && op.info.shape.isDefinition
  | _ => false

/-- The words that the unit starting with `w` is decoded from, as distances from `w`.  Of a comment
these are all its words, although some may not matter. -/
def unitReads (env : Env) (s : Scan) (w : Word) (ws : List Word) : List Nat :=
  match UnitHead.ofWord w with
  | .comment length => if length ≤ ws.length then List.range (length + 1) else [0]
  | .instruction op fields =>
    if op.isReserved then [0]
    else 0 :: (operandReads env op fields (operandState env s op fields) ws).map (· + 1)
  | _ => [0]

/-- **Reading a unit depends on the words listed**, and on how many there are: there may be more if nothing
is wrong with the unit and it is all there, unless it is the end mark. -/
theorem readUnit_congr (w : Word)
    (hlen : ws'.length = ws.length ∨ ws.length ≤ ws'.length ∧ (readUnit env s w ws).1.faults = [] ∧
      (readUnit env s w ws).2 ≤ ws.length + 1 ∧ w ≠ Word.endMark)
    (h : ∀ i ∈ unitReads env s w ws, (w :: ws')[i]? = (w :: ws)[i]?) :
    readUnit env s w ws' = readUnit env s w ws := by
  unfold unitReads at h
  unfold readUnit at hlen ⊢
  cases hw : UnitHead.ofWord w with
  | comment length =>
    rw [hw] at h hlen
    dsimp only at h hlen ⊢
    -- it is cut off in both or in neither
    have hroom : length ≤ ws'.length ↔ length ≤ ws.length := by omega
    simp only [hroom]
    split
    next hle =>
      rw [if_pos hle] at h
      have htake : ws'.take length = ws.take length := by
        have hall := take_eq_of_getElem? h
        simpa using hall
      rw [htake]
    next => rfl
  | instruction op fields =>
    rw [hw] at h hlen
    dsimp only at h hlen ⊢
    -- a reserved opcode has no operands
    by_cases hreserved : op.isReserved = true
    · simp only [readInstruction, hreserved, if_true]
    · rw [if_neg hreserved] at h
      apply readInstruction_congr
      refine readOperands_congr env op fields _ (hlen.imp_right fun hmore =>
        ⟨hmore.1, (operands_of_readInstruction hmore.2.1).2.1⟩) fun i hi => ?_
      have hi1 := h (i + 1) (List.mem_cons_of_mem _ (List.mem_map_of_mem hi))
      simpa using hi1
  | finish =>
    -- the end mark looks whether anything is left
    have hsame := hlen.resolve_right fun hmore => hmore.2.2.2 ((ofWord_eq_finish_iff w).mp hw)
    have hempty : ws'.isEmpty = ws.isEmpty := by
      rw [Bool.eq_iff_iff, List.isEmpty_iff_length_eq_zero, List.isEmpty_iff_length_eq_zero, hsame]
    rw [hempty]
  | phase => rfl
  | unknown => rfl

/-! ### Units without a fault -/

theorem operandReads_eq {env : Env} {op : Opcode} {w : InstructionWord} {s : Scan}
    (clean : (readOperands env op w s ws).2.2.faults = []) :
    operandReads env op w s ws =
      if w.predicated && op.info.shape.isDefinition then
        List.range ((readOperands env op w s ws).2.1 - 2) ++ [1]
      else List.range ((readOperands env op w s ws).2.1 - 1) := by
  obtain ⟨k, hk⟩ := argumentsTake env op.info.shape s ws
  unfold operandReads
  unfold readOperands at clean ⊢
  dsimp only at clean ⊢
  rw [hk.reads]
  cases hp : w.predicated with
  | false => simp
  | true =>
    rw [hp] at clean
    have hpredicate := predicateReads_eq ws clean
    have hjudge := Fetches.readPredicate .refl env (readArguments env op.info.shape s ws).2.2.1
      |>.records.faults_eq_nil clean
    have htaken := hk.taken hjudge
    rw [hk.rest, List.length_drop, Nat.sub_sub_self hk.le] at hpredicate
    rw [if_pos rfl, hk.rest, hpredicate, htaken]
    cases hshape : op.info.shape.isDefinition with
    | true => rfl
    | false =>
      -- the word of the predicate comes right after those of the arguments
      have hcounted := hk.counted
      rw [hshape] at hcounted
      obtain ⟨c, hc⟩ := Nat.exists_eq_add_of_le' hcounted
      simp [hc, List.range_succ]

theorem le_count_readOperands (op : Opcode) (w : InstructionWord) (s : Scan) (ws : List Word) :
    (if op.info.shape.isDefinition then 3 else 1) + (if w.predicated then 1 else 0) ≤
      (readOperands env op w s ws).2.1 := by
  obtain ⟨k, hk⟩ := argumentsTake env op.info.shape s ws
  unfold readOperands
  dsimp only
  cases w.predicated with
  | true => exact Nat.succ_le_succ hk.counted
  | false => exact hk.counted

theorem one_le_length_readInstruction (op : Opcode) (w : InstructionWord) (ws : List Word) :
    1 ≤ (readInstruction env s op w ws).2 := by
  have hcount := le_count_readOperands env op w (operandState env s op w) ws
  unfold readInstruction settleLength
  dsimp only
  split
  · exact Nat.le_add_left 1 w.length
  · split
    · exact Nat.le_trans (by split <;> omega) hcount
    · split
      next heq => exact heq ▸ Nat.le_add_left 1 w.length
      next => exact Nat.le_add_left 1 w.length

theorem four_le_length_of_isPredicatedDefinition {env : Env} {s : Scan} {w : Word}
    (hw : isPredicatedDefinition w = true) (clean : (readUnit env s w ws).1.faults = []) :
    4 ≤ (readUnit env s w ws).2 := by
  unfold isPredicatedDefinition at hw
  unfold readUnit at clean ⊢
  split at hw
  next op fields heq =>
    rw [heq] at clean ⊢
    rw [Bool.and_eq_true] at hw
    have hcount := le_count_readOperands env op fields (operandState env s op fields) ws
    rw [hw.1, hw.2] at hcount
    exact (operands_of_readInstruction clean).2.2 ▸ hcount
  next => cases hw

/-- **The words of a unit without a fault are decoded each once.**  Only of a definition with a
predicate the first literal is decoded twice, and the last word not at all. -/
theorem unitReads_eq {env : Env} {s : Scan} {w : Word}
    (fits : (readUnit env s w ws).2 ≤ ws.length + 1) (clean : (readUnit env s w ws).1.faults = []) :
    unitReads env s w ws =
      if isPredicatedDefinition w then List.range ((readUnit env s w ws).2 - 1) ++ [2]
      else List.range (readUnit env s w ws).2 := by
  unfold unitReads isPredicatedDefinition
  unfold readUnit at fits clean ⊢
  cases hw : UnitHead.ofWord w with
  | comment length =>
    rw [hw] at fits
    exact if_pos (Nat.le_of_succ_le_succ fits)
  | finish => rfl
  | phase => rfl
  | unknown => rfl
  | instruction op fields =>
    rw [hw] at clean
    obtain ⟨hreserved, hoperands, hlength⟩ := operands_of_readInstruction clean
    have hcount := le_count_readOperands env op fields (operandState env s op fields) ws
    dsimp only
    rw [hreserved, if_neg Bool.false_ne_true, operandReads_eq hoperands, hlength]
    generalize (readOperands env op fields (operandState env s op fields) ws).2.1 = count at hcount ⊢
    -- the opcode is the first word of the unit, so all others stand one further
    split
    next hp =>
      have htwo : 2 ≤ count := by
        rw [if_pos (Bool.and_eq_true_iff.mp hp).1] at hcount
        exact Nat.le_trans (Nat.succ_le_succ (by split <;> decide)) hcount
      obtain ⟨c, rfl⟩ := Nat.exists_eq_add_of_le' htwo
      rw [Nat.add_sub_cancel, show c + 2 - 1 = c + 1 from rfl, List.range_succ_eq_map,
        List.map_append]
      rfl
    next =>
      have hpos : 1 ≤ count := Nat.le_trans (by split <;> omega) hcount
      obtain ⟨c, rfl⟩ := Nat.exists_eq_add_of_le' hpos
      exact List.range_succ_eq_map.symm

end Scan

end ShaderLift
