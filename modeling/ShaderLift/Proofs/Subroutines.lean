/-
Calls and the functions that they name.  A call inside of a counted loop passes the counter, so all calls
of a label have to be inside of such loops or all outside, and the function of the label has to take what
they pass.  What the instructions say about it is put together by `Linkage.step`, without a look at the
state of reading; the calls and function heads of the code turn out to be just that.

Reading makes sure that the calls agree.  That there is a function to call, and only one, it does not look
at: the operand of the call itself makes the label a known one.  And whether a function takes the counter
is settled where its head is written, by the calls before it.
-/
import ShaderLift.Proofs.Nesting
import ShaderLift.Proofs.Temporaries

namespace ShaderLift

open Glsl

variable {t : Scan} {l : LinkedShader} {n : Nat} {vs : List Visit}

/-! ### Mentions of subroutines -/

inductive Mention where
  | call (label : Nat) (counter : Bool)
  | head (label : Nat) (counter : Bool)
  deriving Repr, DecidableEq

namespace Mention

def isHeadOf (n : Nat) : Mention → Bool
  | .head label _ => label == n
  | .call _ _ => false

/-- The calls of a label match its definition: there is one function, and it takes just what every call
passes. -/
def Matched (ms : List Mention) (n : Nat) : Prop :=
  ∃ counter, ms.filter (isHeadOf n) = [.head n counter] ∧
    (counter = true ↔ ∀ passed, .call n passed ∈ ms → passed = true) ∧
    (counter = false ↔ ∀ passed, .call n passed ∈ ms → passed = false)

/-- A call of the label stands before a head of its function. -/
def CallFirst (ms : List Mention) (n : Nat) : Prop :=
  ∃ before counter after passed, ms = before ++ .head n counter :: after ∧ .call n passed ∈ before

end Mention

def Glsl.Stmt.mention? : Stmt → Option Mention
  | .call label counter | .callIf _ label counter => some (.call label counter)
  | .openFunction label counter => some (.head label counter)
  | _ => none

def mentions (code : List Stmt) : List Mention := code.filterMap Stmt.mention?

theorem mentions_append (a b : List Stmt) : mentions (a ++ b) = mentions a ++ mentions b :=
  List.filterMap_append

theorem Glsl.Stmt.Plain.mention?_eq {K : Register → Prop} {c : Stmt} (h : c.Plain K) :
    c.mention? = none := by
  cases c <;> first | rfl | exact h.elim

/-! ### What the instructions say -/

/-- The mention that an instruction is: a call passes the counter if loops are open, a head takes it if
`counted` says so. -/
def Instruction.mention? (i : Instruction) (loops : Nat) (counted : Nat → Bool) : Option Mention :=
  let label := (i.source 0).register.number
  match i.opcode with
  | .call | .callNz => some (.call label (0 < loops))
  | .label => some (.head label (counted label))
  | _ => none

/-- The blocks that are open and the mentions so far. -/
structure Linkage where
  depths : Scan.Depths := ⟨0, 0, 0⟩
  mentions : List Mention := []

namespace Linkage

/-- Goes on by one instruction.  A head takes the counter if an earlier call passes it. -/
def step (k : Linkage) (i : Instruction) : Linkage where
  depths := i.opcode.deepen k.depths
  mentions := k.mentions ++
    (i.mention? k.depths.loops fun n => k.mentions.contains (.call n true)).toList

def ofInstructions (is : List Instruction) : Linkage := is.foldl step {}

end Linkage

def instructionsOf (o : Options) (ws : List Word) : List Instruction :=
  (unitsOf o ws).filterMap Visit.instruction?

/-! ### Recorded calls -/

namespace RegisterTable

variable {α : Type}
variable {t : RegisterTable α}

/-- In a table that is in order, the record of a register is found where it is put. -/
theorem Sorted.find?_update (h : t.Sorted) (r x : Register) (fresh : α) (f : α → α) :
    (t.update r fresh f).find? x = if r = x then some (f ((t.find? r).getD fresh)) else t.find? x := by
  obtain ⟨entries⟩ := t
  unfold Sorted at h
  unfold RegisterTable.update
  dsimp only at h ⊢
  induction entries with
  | nil => exact find?_cons _ _ _
  | cons e rest ih =>
    obtain ⟨hhead, htail⟩ := List.pairwise_cons.mp h
    unfold updateEntries
    by_cases he : e.1 = r
    · rw [if_pos he, find?_cons, find?_cons, if_pos he, find?_cons, he]
      split <;> rfl
    · rw [if_neg he]
      split
      next hb =>
        -- all registers of the table come after `r`, so it has no record of `r`
        have hnone : find? ⟨e :: rest⟩ r = none := by
          rw [find?, Option.map_eq_none_iff, List.find?_eq_none]
          intro y hy hyr
          have hy' : y.1 = r := of_decide_eq_true hyr
          rcases List.mem_cons.mp hy with rfl | hy
          · exact he hy'
          · exact Register.ne_of_before (Register.before_trans hb (hhead y hy)) hy'.symm
        rw [find?_cons, hnone]
        rfl
      next =>
        rw [find?_cons, ih htail, find?_cons, find?_cons, if_neg he]
        by_cases hx : e.1 = x
        · rw [if_pos hx, if_pos hx, if_neg fun hr => he (hx.trans hr.symm)]
        · rw [if_neg hx, if_neg hx]

end RegisterTable

def CallContext.passing (counter : Bool) : CallContext := if counter then .inLoop else .outsideLoop

theorem CallContext.passing_inj {a b : Bool} : passing a = passing b ↔ a = b := by
  cases a <;> cases b <;> decide

namespace Scan

variable {env : Env} {s t u : Scan} {i : Instruction}
variable {n : Nat}

theorem callContext_eq (s : Scan) : s.callContext = .passing (0 < s.loops) := by
  unfold callContext CallContext.passing
  simp only [decide_eq_true_eq]

/-- On the way from `s` to `t` no call was recorded. -/
def KeepsCalls (s t : Scan) : Prop :=
  s.used.Sorted → t.used.Sorted ∧ ∀ n, t.callsOf n = s.callsOf n

namespace KeepsCalls

theorem of_used (h : t.used = s.used) : KeepsCalls s t := by
  intro hs
  refine ⟨h ▸ hs, fun n => ?_⟩
  rw [callsOf, h]
  rfl

theorem refl (s : Scan) : KeepsCalls s s := of_used rfl

theorem trans (h : KeepsCalls s t) (h' : KeepsCalls t u) : KeepsCalls s u := by
  intro hs
  obtain ⟨ht, hst⟩ := h hs
  obtain ⟨hu, htu⟩ := h' ht
  exact ⟨hu, fun n => (htu n).trans (hst n)⟩

theorem markUsed (s : Scan) (r : Register) (written : Bool) : KeepsCalls s (s.markUsed r written) := by
  intro hs
  refine ⟨hs.update _ _ _, fun n => ?_⟩
  unfold callsOf Scan.markUsed
  dsimp only
  rw [hs.find?_update]
  by_cases hr : r = ⟨.label, n⟩
  · rw [if_pos hr, hr]
    cases s.used.find? ⟨.label, n⟩ <;> rfl
  · rw [if_neg hr]

end KeepsCalls

theorem Fetches.keepsCalls (h : Fetches s t) : KeepsCalls s t := by
  induction h with
  | refl => exact .refl s
  | tail _ hstep ih =>
    refine ih.trans ?_
    cases hstep with
    | use r written => exact .markUsed _ r written
    | _ => exact .of_used rfl

theorem keepsCalls_useRows (s : Scan) (i : Instruction) (form : MatrixForm) :
    KeepsCalls s (s.useRows i form) := by
  unfold useRows
  generalize (i.matrixRows form.rows).drop 1 = rows
  induction rows generalizing s with
  | nil => exact .refl s
  | cons row rows ih => exact (KeepsCalls.markUsed s row.register false).trans (ih _)

theorem keepsCalls_account (env : Env) (s : Scan) (i : Instruction) (hcall : i.opcode ≠ .call)
    (hcallNz : i.opcode ≠ .callNz) : KeepsCalls s (account env s i) := by
  have hdoes := Consequence.of_account env s i
  generalize account env s i = t at hdoes ⊢
  cases hdoes with
  | rows form => exact keepsCalls_useRows s i form
  | call op => exact absurd op (not_or.mpr ⟨hcall, hcallNz⟩)
  | _ => exact .of_used rfl

/-- A call that breaks no rule is of a known label and stands where the calls before it stand. -/
theorem of_callFaults (legal : callFaults s n = []) :
    s.used.contains ⟨.label, n⟩ = true ∧ (s.callsOf n = .none ∨ s.callsOf n = s.callContext) := by
  unfold callFaults at legal
  unfold callsOf
  split at legal
  next => cases legal
  next use huse =>
    rw [huse]
    refine ⟨RegisterTable.contains_of_find? huse, ?_⟩
    by_cases hagree : use.calls = .none || use.calls = s.callContext
    · simpa using hagree
    · rw [if_neg hagree] at legal
      split at legal <;> cases legal

theorem callsOf_recordCall (sorted : s.used.Sorted) (legal : callFaults s n = []) (m : Nat) :
    (s.recordCall n).callsOf m = if n = m then s.callContext else s.callsOf m := by
  obtain ⟨hknown, hagree⟩ := of_callFaults legal
  unfold recordCall
  dsimp only
  rw [if_pos hknown]
  unfold callsOf at hagree ⊢
  dsimp only
  rw [sorted.find?_update]
  by_cases hm : n = m
  · subst hm
    rw [if_pos rfl, if_pos rfl]
    cases hfind : s.used.find? ⟨.label, n⟩ with
    | none => rfl
    | some use =>
      rw [hfind] at hagree
      dsimp only [Option.getD_some] at hagree ⊢
      rcases hagree with hnone | hsame
      · rw [if_pos hnone]
      · split
        · rfl
        · exact hsame
  · have hr : (⟨.label, n⟩ : Register) ≠ ⟨.label, m⟩ := fun h => hm (congrArg Register.number h)
    rw [if_neg hr, if_neg hm]

theorem callFaults_of_legal (legal : violations env s i = [])
    (hop : i.opcode = .call ∨ i.opcode = .callNz) :
    callFaults s (i.source 0).register.number = [] := by
  unfold violations at legal
  rcases hop with hop | hop
  all_goals
    rw [hop] at legal
    exact (List.append_eq_nil_iff.mp legal).2

/-! ### Code of one instruction -/

theorem mentions_instructionCode {sh : Shader} (sound : (instructionCode sh s i).faults = []) :
    mentions (instructionCode sh s i).code =
      (i.mention? s.loops fun n => s.callsOf n = .inLoop).toList := by
  have hcondition : ∀ (a : Source) (f : Expr → Stmt),
      ∃ test, (conditionCode sh s a f).code = [f test] := by
    intro a f
    obtain ⟨test, -, hcode⟩ :=
      code_conditionCode (s := s) Expr.compositional_within f (yields_within a.within_any)
    exact ⟨test, hcode⟩
  have hcomparison : ∀ f : Expr → Stmt, (comparisonCode sh s i f).faults = [] →
      ∃ test, (comparisonCode sh s i f).code = [f test] := by
    intro f hsound
    obtain ⟨test, -, hcode⟩ :=
      code_comparisonCode Expr.compositional_within f (fun _ _ => yields_within (Source.within_any _))
        hsound
    exact ⟨test, hcode⟩
  cases hop : i.opcode.isFlow with
  | false =>
    -- a plain statement names no function
    have hplain := (says_instructionCode_plain (supplied_any sh s i) hop).code
    have hnone : mentions (instructionCode sh s i).code = [] :=
      List.filterMap_eq_nil_iff.mpr fun c hc => (hplain c hc).mention?_eq
    rw [hnone, Instruction.mention?]
    cases e : i.opcode <;> first | rfl | (rw [e] at hop; cases hop)
  | true =>
    unfold Instruction.mention?
    cases e : i.opcode with
    | call | label | loop | endLoop | endRep | endIf | otherwise | leave | texKill =>
      simp only [instructionCode, e]
      rfl
    | callNz | rep | ifBool | leavePredicate =>
      simp only [instructionCode, e]
      obtain ⟨test, hcode⟩ := hcondition _ _
      rw [hcode]
      rfl
    | ifCompare | leaveCompare =>
      simp only [instructionCode, e] at sound ⊢
      obtain ⟨test, hcode⟩ := hcomparison _ sound
      rw [hcode]
      rfl
    | ret =>
      simp only [instructionCode, e]
      -- closing a function does not name it again
      refine List.filterMap_eq_nil_iff.mpr fun c hc => ?_
      rcases mem_code_closeCode hc with rfl | ⟨rfl, -⟩ <;> rfl
    | _ => rw [e] at hop; cases hop

/-! ### What a state knows about calls -/

/-- What a state knows about calls is what the code has of them. -/
structure Tracks (s : Scan) : Prop where
  sorted : s.used.Sorted
  calls : ∀ n passed, s.callsOf n = .passing passed ↔ .call n passed ∈ mentions s.code

def linkage (s : Scan) : Linkage := ⟨s.depths, mentions s.code⟩

theorem Tracks.of_keepsCalls (h : Tracks s) (keeps : KeepsCalls s t)
    (same : ∀ n passed, .call n passed ∈ mentions t.code ↔ .call n passed ∈ mentions s.code) :
    Tracks t := by
  obtain ⟨hsorted, hcalls⟩ := keeps h.sorted
  refine ⟨hsorted, fun n passed => ?_⟩
  rw [hcalls n, h.calls n passed, same n passed]

theorem Tracks.agree (h : Tracks s) {a b : Bool} (ha : .call n a ∈ mentions s.code)
    (hb : .call n b ∈ mentions s.code) : a = b := by
  rw [← h.calls] at ha hb
  exact CallContext.passing_inj.mp (ha.symm.trans hb)

theorem mention?_settled (env : Env) (s : Scan) (i : Instruction) :
    i.mention? (settled env s i).loops (fun n => (settled env s i).callsOf n = .inLoop) =
      i.mention? s.loops fun n => s.callsOf n = .inLoop := by
  unfold Instruction.mention?
  cases e : i.opcode with
  | call | callNz =>
    have hlevel := level_account env s i (by rw [e]; rfl)
    have hloops : (settled env s i).loops = s.loops := congrArg Depths.loops hlevel.depths
    rw [hloops]
  | label =>
    have hcalls : ∀ n, (settled env s i).callsOf n = s.callsOf n := by
      unfold settled account
      rw [e]
      exact fun n => rfl
    simp only [hcalls]
  | _ => rfl

theorem Tracks.mention?_eq (h : Tracks s) (i : Instruction) :
    (i.mention? s.loops fun n => s.callsOf n = .inLoop) =
      i.mention? s.loops fun n => (mentions s.code).contains (.call n true) := by
  have hcounted : (fun n => decide (s.callsOf n = .inLoop)) =
      fun n => (mentions s.code).contains (.call n true) := by
    funext n
    rw [List.contains_eq_mem]
    exact decide_eq_decide.mpr (h.calls n true)
  rw [hcounted]

theorem Tracks.mentions_executed (h : Tracks s) (sound : (codeOf env s i).faults = []) :
    mentions (executed env s i).code = ((linkage s).step i).mentions := by
  rw [code_executed sound, mentions_append, codeOf, mentions_instructionCode sound,
    mention?_settled, h.mention?_eq]
  rfl

theorem keepsCalls_markColor (env : Env) (s : Scan) : KeepsCalls s (s.markColor env) := by
  unfold markColor
  split
  · exact .markUsed s _ _
  · exact .refl s

theorem keepsCalls_executed (hcall : i.opcode ≠ .call) (hcallNz : i.opcode ≠ .callNz) :
    KeepsCalls s (executed env s i) := by
  have hsettled : KeepsCalls s (settled env s i) :=
    (keepsCalls_account env s i hcall hcallNz).trans (.of_used rfl)
  have hready : KeepsCalls s (ready env s i) := by
    unfold ready
    split
    · exact hsettled.trans (keepsCalls_markColor env _)
    · exact hsettled
  exact hready.trans (.of_used (used_emit _ _))

theorem Tracks.executed_call (h : Tracks s) (legal : violations env s i = [])
    (sound : (codeOf env s i).faults = []) (hop : i.opcode = .call ∨ i.opcode = .callNz) :
    Tracks (executed env s i) := by
  have hrule := callFaults_of_legal legal hop
  obtain ⟨hknown, hagree⟩ := of_callFaults hrule
  have hused : (executed env s i).used = (s.recordCall (i.source 0).register.number).used := by
    show ((ready env s i).emit (codeOf env s i)).used = _
    rw [used_emit]
    rcases hop with hop | hop <;> simp only [ready, settled, account, hop, charge, reduceCtorEq, if_false]
  have hmentions : mentions (executed env s i).code =
      mentions s.code ++ [.call (i.source 0).register.number (0 < s.loops)] := by
    rw [h.mentions_executed sound]
    unfold Linkage.step Instruction.mention?
    rcases hop with hop | hop <;> rw [hop] <;> rfl
  generalize (i.source 0).register.number = label at hrule hknown hagree hused hmentions
  constructor
  · rw [hused, recordCall, if_pos hknown]
    exact h.sorted.update _ _ _
  · intro n passed
    have hcalls : (executed env s i).callsOf n = (s.recordCall label).callsOf n := by
      rw [callsOf, hused]
      rfl
    rw [hcalls, callsOf_recordCall h.sorted hrule, hmentions, List.mem_append, List.mem_singleton,
      callContext_eq]
    by_cases hn : label = n
    · subst hn
      rw [if_pos rfl, CallContext.passing_inj, Mention.call.injEq]
      constructor
      · exact fun heq => .inr ⟨rfl, heq.symm⟩
      · rintro (hmem | ⟨-, heq⟩)
        · -- the calls before were checked against this one
          rw [← h.calls] at hmem
          rw [hmem, callContext_eq, CallContext.passing_inj] at hagree
          rcases hagree with hnone | heq
          · cases passed <;> cases hnone
          · exact heq.symm
        · exact heq.symm
    · -- calls of other labels stay as they were
      rw [if_neg hn, h.calls]
      refine ⟨.inl, fun hmem => hmem.resolve_right fun heq => hn ?_⟩
      cases heq
      rfl

theorem Tracks.executed (h : Tracks s) (legal : violations env s i = [])
    (sound : (codeOf env s i).faults = []) : Tracks (executed env s i) := by
  by_cases hop : i.opcode = .call ∨ i.opcode = .callNz
  · exact h.executed_call legal sound hop
  · obtain ⟨hcall, hcallNz⟩ := not_or.mp hop
    refine h.of_keepsCalls (keepsCalls_executed hcall hcallNz) fun n passed => ?_
    rw [h.mentions_executed sound]
    show .call n passed ∈ mentions s.code ++ _ ↔ _
    rw [List.mem_append, or_iff_left]
    intro hmem
    have hthis := Option.mem_toList.mp hmem
    unfold Instruction.mention? at hthis
    cases e : i.opcode with
    | call => exact hcall e
    | callNz => exact hcallNz e
    | _ => rw [e] at hthis; cases hthis

theorem linkage_executed (h : Tracks s) (legal : violations env s i = [])
    (sound : (codeOf env s i).faults = []) : linkage (executed env s i) = (linkage s).step i := by
  unfold linkage
  rw [depths_executed legal sound, h.mentions_executed sound]
  rfl

theorem mentions_close (env : Env) (s : Scan) : mentions (s.close env).code = mentions s.code := by
  rw [code_close, mentions_append]
  have hnone : mentions (closeCode env.toShader s).code = [] := by
    refine List.filterMap_eq_nil_iff.mpr fun c hc => ?_
    rcases mem_code_closeCode hc with rfl | ⟨rfl, -⟩ <;> rfl
  rw [hnone, List.append_nil]

theorem keepsCalls_close (env : Env) (s : Scan) : KeepsCalls s (s.close env) :=
  (keepsCalls_markColor env s).trans (.of_used (used_emit _ _))

end Scan

/-! ### Units and runs -/

/-- A unit without a fault mentions what its instruction mentions, and the state keeps up with it. -/
theorem Visit.Does.linked {v : Visit} (h : v.Does) (tracks : v.before.Tracks) :
    v.after.Tracks ∧
      v.after.linkage = v.instruction?.toList.foldl Linkage.step v.before.linkage := by
  cases h with
  | idle other _ _ _ _ _ after | rest other _ _ after =>
    rw [after, other]
    exact ⟨⟨tracks.sorted, tracks.calls⟩, rfl⟩
  | finish other _ _ after =>
    rw [after, other]
    have hnoted : Scan.Tracks { v.before with ended := true } := ⟨tracks.sorted, tracks.calls⟩
    have hcode := Scan.mentions_close v.env { v.before with ended := true }
    constructor
    · exact hnoted.of_keepsCalls (Scan.keepsCalls_close _ _) fun n passed => by rw [hcode]
    · show Linkage.mk _ _ = _
      rw [Scan.depths_close, hcode]
      rfl
  | execute i s this h =>
    have hs : s.Tracks := by
      refine tracks.of_keepsCalls h.fetches.keepsCalls fun n passed => ?_
      rw [h.fetches.code_eq]
    have hlinkage : s.linkage = v.before.linkage := by
      unfold Scan.linkage
      rw [h.fetches.depths_eq, h.fetches.code_eq]
    rw [h.after, this]
    refine ⟨hs.executed h.legal h.sound, ?_⟩
    rw [Scan.linkage_executed hs h.legal h.sound, hlinkage]
    rfl

theorem Scan.Run.linked {env : Env} {s : Scan} {ws : List Word} (r : Scan.Run env s n ws vs t)
    (does : ∀ v ∈ vs, v.Does) (tracks : s.Tracks) :
    t.Tracks ∧ t.linkage = (vs.filterMap Visit.instruction?).foldl Linkage.step s.linkage := by
  have hunit : ∀ (s : Scan) (p : Position), s.Tracks → (s.startUnit p).Tracks :=
    fun s p h => ⟨h.sorted, h.calls⟩
  have hbefore := r.preserves_before hunit (fun v _ _ hv hb => (Visit.Does.linked hv hb).1) does tracks
  refine ⟨r.preserves hunit (fun s h => ⟨h.sorted, h.calls⟩)
    (fun v _ _ hv hb => (Visit.Does.linked hv hb).1) does tracks, ?_⟩
  rw [List.foldl_filterMap]
  refine r.observed (Q := fun v => v.Does ∧ v.before.Tracks) (fun _ _ => rfl) (fun _ => rfl) ?_
    fun v hv => ⟨does v hv, hbefore v hv⟩
  intro v _ hv
  rw [(hv.1.linked hv.2).2]
  cases v.instruction? <;> rfl

/-! ### Heads -/

/-- An element of two lists put together is in the first one or in the second one. -/
theorem append_eq_append_cons {α : Type} {a b before after : List α} {x : α}
    (h : a ++ b = before ++ x :: after) :
    (∃ middle, a = before ++ x :: middle) ∨ ∃ middle, before = a ++ middle ∧ b = middle ++ x :: after := by
  rcases List.append_eq_append_iff.mp h with ⟨middle, hbefore, hb⟩ | ⟨middle, ha, hcons⟩
  · exact .inr ⟨middle, hbefore, hb⟩
  · cases middle with
    | nil => exact .inr ⟨[], by rw [ha, List.append_nil, List.append_nil], hcons.symm⟩
    | cons y middle =>
      obtain ⟨rfl, -⟩ := List.cons.inj hcons
      exact .inl ⟨middle, ha⟩

/-- A head takes the counter if a call before it passes the counter. -/
def HeadsTake (ms : List Mention) : Prop :=
  ∀ before n counter after, ms = before ++ .head n counter :: after →
    (counter = true ↔ .call n true ∈ before)

theorem Linkage.headsTake_step {k : Linkage} (h : HeadsTake k.mentions) (i : Instruction) :
    HeadsTake (k.step i).mentions := by
  intro before n counter after heq
  rcases append_eq_append_cons heq with ⟨middle, hold⟩ | ⟨middle, hbefore, hnew⟩
  · exact h before n counter middle hold
  · have hmem := Option.mem_toList.mp (hnew ▸ List.mem_append_right middle List.mem_cons_self)
    have hfirst : middle = [] := by
      have hlength := congrArg List.length hnew
      simp only [Option.length_toList, List.length_append, List.length_cons] at hlength
      rw [← List.length_eq_zero_iff]
      split at hlength <;> omega
    rw [hbefore, hfirst, List.append_nil]
    have hcounter : counter = k.mentions.contains (.call n true) := by
      unfold Instruction.mention? at hmem
      cases e : i.opcode with
      | label =>
        rw [e] at hmem
        cases hmem
        rfl
      | _ => rw [e] at hmem; cases hmem
    rw [hcounter, List.contains_iff_mem]

theorem Linkage.headsTake_foldl {k : Linkage} (h : HeadsTake k.mentions) (is : List Instruction) :
    HeadsTake (is.foldl step k).mentions := by
  induction is generalizing k with
  | nil => exact h
  | cons i is ih => exact ih (headsTake_step h i)

/-- A function starts where another one was closed. -/
def HeadsApart (code : List Stmt) : Prop :=
  ∀ before n counter after, code = before ++ .openFunction n counter :: after →
    before.getLast? = some .closeFunction

namespace Scan

variable {env : Env} {s : Scan} {i : Instruction}

theorem getLast?_closeCode (sh : Shader) (s : Scan) :
    (closeCode sh s).code.getLast? = some .closeFunction := by
  unfold closeCode
  split <;> rfl

/-- After the instruction that ends a function nothing else is in the code. -/
structure FunctionsApart (s : Scan) : Prop where
  closed : s.previous = some .ret → s.code.getLast? = some .closeFunction
  apart : HeadsApart s.code

theorem previous_of_label (legal : violations env s i = []) (h : i.opcode = .label) :
    s.previous = some .ret := by
  unfold violations at legal
  rw [h] at legal
  simpa using faultIf_eq_nil (List.append_eq_nil_iff.mp legal).1

theorem headsApart_executed (h : FunctionsApart s) (legal : violations env s i = [])
    (sound : (codeOf env s i).faults = []) : HeadsApart (executed env s i).code := by
  intro before n counter after heq
  rw [code_executed sound] at heq
  rcases append_eq_append_cons heq with ⟨middle, hold⟩ | ⟨middle, hbefore, hnew⟩
  · exact h.apart before n counter middle hold
  · have hmem : .openFunction n counter ∈ (codeOf env s i).code :=
      hnew ▸ List.mem_append_cons_self
    have hlabel : i.opcode = .label := opcode_of_frame _ hmem _ rfl
    have hfirst : middle = [] := by
      have hlength : (codeOf env s i).code.length = 1 := by
        unfold codeOf instructionCode
        rw [hlabel]
        rfl
      rw [hnew, List.length_append, List.length_cons] at hlength
      exact List.length_eq_zero_iff.mp (by omega)
    rw [hbefore, hfirst, List.append_nil]
    apply h.closed
    exact previous_of_label legal hlabel

end Scan

theorem Scan.Fetches.previous_eq {s : Scan} (h : Scan.Fetches s t) : t.previous = s.previous := by
  rw [h.frame]

theorem Visit.Does.functionsApart {v : Visit} (h : v.Does) (hb : v.before.FunctionsApart) :
    v.after.FunctionsApart := by
  cases h with
  | idle _ _ _ _ _ _ after | rest _ _ _ after =>
    rw [after]
    exact ⟨hb.closed, hb.apart⟩
  | finish _ _ _ after =>
    have hcode := code_after_finish after
    constructor
    · intro hret
      rw [hcode, List.getLast?_append, Scan.getLast?_closeCode]
      rfl
    · intro before n counter later heq
      rw [hcode] at heq
      rcases append_eq_append_cons heq with ⟨middle, hold⟩ | ⟨middle, -, hnew⟩
      · exact hb.apart before n counter middle hold
      · -- what closes a function is no head
        have hmem : .openFunction n counter ∈ (Scan.closeCode v.env.toShader v.before).code :=
          hnew ▸ List.mem_append_cons_self
        rcases Scan.mem_code_closeCode hmem with heq | ⟨heq, -⟩ <;> cases heq
  | execute i s this h =>
    -- operands leave the code and the opcode before alone
    have hs : s.FunctionsApart :=
      ⟨fun hret => h.fetches.code_eq ▸ hb.closed (h.fetches.previous_eq ▸ hret),
        h.fetches.code_eq ▸ hb.apart⟩
    rw [h.after]
    refine ⟨fun hret => ?_, Scan.headsApart_executed hs h.legal h.sound⟩
    have hop : i.opcode = .ret := Option.some.inj hret
    have hcode : (Scan.codeOf v.env s i).code =
        (Scan.closeCode v.env.toShader (Scan.settled v.env s i)).code := by
      unfold Scan.codeOf Scan.instructionCode
      rw [hop]
    rw [Scan.code_executed h.sound, List.getLast?_append, hcode, Scan.getLast?_closeCode]
    rfl

theorem Scan.Run.functionsApart {env : Env} {p : Position} {ws : List Word}
    (r : Scan.Run env { position := p } n ws vs t) (does : ∀ v ∈ vs, v.Does) :
    (∀ v ∈ vs, v.before.FunctionsApart) ∧ t.FunctionsApart := by
  have hstart : Scan.FunctionsApart { position := p } := by
    constructor
    · intro h
      cases h
    · intro before n counter after heq
      cases before <;> cases heq
  have hunit : ∀ (s : Scan) (q : Position), s.FunctionsApart → (s.startUnit q).FunctionsApart :=
    fun s q h => ⟨h.closed, h.apart⟩
  have hcut : ∀ s : Scan, s.FunctionsApart → s.cutOff.FunctionsApart := fun s h => ⟨h.closed, h.apart⟩
  exact ⟨r.preserves_before hunit (fun v _ _ hv hb => Visit.Does.functionsApart hv hb) does hstart,
    r.preserves hunit hcut (fun v _ _ hv hb => Visit.Does.functionsApart hv hb) does hstart⟩

/-! ### Calls and definitions -/

namespace Mention

variable {ms : List Mention} {n : Nat} {passed counter : Bool}

theorem eq_head_of_isHeadOf {m : Mention} (h : m.isHeadOf n = true) : ∃ counter, m = .head n counter := by
  cases m with
  | call label passed => cases h
  | head label counter => exact ⟨counter, by rw [eq_of_beq h]⟩

theorem matched_of_takes (agree : ∀ a b, .call n a ∈ ms → .call n b ∈ ms → a = b)
    (called : .call n passed ∈ ms) (heads : ms.filter (isHeadOf n) = [.head n passed]) :
    Matched ms n := by
  refine ⟨passed, heads, ?_, ?_⟩
  · exact ⟨fun htrue b hb => (agree b passed hb called).trans htrue, fun hall => hall passed called⟩
  · exact ⟨fun hfalse b hb => (agree b passed hb called).trans hfalse, fun hall => hall passed called⟩

theorem matched_iff (agree : ∀ a b, .call n a ∈ ms → .call n b ∈ ms → a = b) (takes : HeadsTake ms)
    (called : .call n passed ∈ ms) :
    Matched ms n ↔ (ms.filter (isHeadOf n)).length = 1 ∧ (passed = false ∨ CallFirst ms n) := by
  constructor
  · rintro ⟨counter, heads, htrue, -⟩
    refine ⟨by rw [heads]; rfl, ?_⟩
    cases passed with
    | false => exact .inl rfl
    | true =>
      have hcounter : counter = true := htrue.mpr fun b hb => agree b true hb called
      have hmem : .head n counter ∈ ms.filter (isHeadOf n) := heads ▸ List.mem_cons_self
      obtain ⟨before, after, hsplit⟩ := List.append_of_mem (List.mem_filter.mp hmem).1
      exact .inr ⟨before, counter, after, true, hsplit,
        (takes before n counter after hsplit).mp hcounter⟩
  · rintro ⟨hone, hfirst⟩
    -- if no call passes the counter, none of those before the head does
    have hnever : ∀ before counter after, ms = before ++ .head n counter :: after → passed = false →
        counter = false := by
      rintro before counter after hsplit rfl
      refine Bool.eq_false_iff.mpr fun htrue => ?_
      have hcall := (takes before n counter after hsplit).mp htrue
      exact absurd (agree true false (hsplit ▸ List.mem_append_left _ hcall) called) (by simp)
    obtain ⟨m, heads⟩ := List.length_eq_one_iff.mp hone
    have hm : m ∈ ms.filter (isHeadOf n) := heads ▸ List.mem_singleton_self m
    obtain ⟨counter, rfl⟩ := eq_head_of_isHeadOf (List.mem_filter.mp hm).2
    apply matched_of_takes agree called
    rw [heads]
    congr 2
    rcases hfirst with rfl | ⟨before, counter', after, passed', hsplit, hcall⟩
    · obtain ⟨before, after, hsplit⟩ := List.append_of_mem (List.mem_filter.mp hm).1
      exact hnever before counter after hsplit rfl
    · have hhead : .head n counter' ∈ ms.filter (isHeadOf n) :=
        List.mem_filter.mpr ⟨hsplit ▸ List.mem_append_cons_self, by simp [isHeadOf]⟩
      rw [heads, List.mem_singleton, Mention.head.injEq] at hhead
      obtain ⟨-, rfl⟩ := hhead
      obtain rfl := agree passed' passed (hsplit ▸ List.mem_append_left _ hcall) called
      cases passed' with
      | true => exact (takes before n counter' after hsplit).mpr hcall
      | false => exact hnever before counter' after hsplit rfl

end Mention

def headLine (sh : Shader) (n : Nat) (counter : Bool) : String :=
  "void " ++ Register.name sh ⟨.label, n⟩ ++ "(" ++ (if counter then "int aL" else "") ++ ")"

def callText (sh : Shader) (n : Nat) (passed : Bool) : String :=
  Register.name sh ⟨.label, n⟩ ++ "(" ++ callArgument passed ++ ");"

/-- A text calls a label: on a line of its own, or on a condition. -/
def HasCall (sh : Shader) (text : String) (n : Nat) (passed : Bool) : Prop :=
  HasLine text (callText sh n passed) ∨
    ∃ test, HasLine text ("if (" ++ test ++ ") \x7b " ++ callText sh n passed ++ " \x7d")

theorem hasLine_of_head (p : Profile) (o : Options) {counter : Bool}
    (h : .head n counter ∈ mentions l.scan.code) :
    HasLine (program p o l) (headLine l.env.toShader n counter) := by
  obtain ⟨c, hc, hm⟩ := List.mem_filterMap.mp h
  cases c with
  | openFunction label taken =>
    cases hm
    exact hasLine_program_of_code p o hc List.mem_cons_self
  | _ => cases hm

theorem hasCall_of_call (p : Profile) (o : Options) {passed : Bool}
    (h : .call n passed ∈ mentions l.scan.code) : HasCall l.env.toShader (program p o l) n passed := by
  obtain ⟨c, hc, hm⟩ := List.mem_filterMap.mp h
  cases c with
  | call label counter =>
    cases hm
    exact .inl (hasLine_program_of_code p o hc List.mem_cons_self)
  | callIf test label counter =>
    cases hm
    refine .inr ⟨test.text l.env.toShader, hasLine_program_of_code p o hc ?_⟩
    rw [Stmt.layout, List.mem_singleton, Layout.line.injEq, callText]
    simp only [String.append_assoc]
    rfl
  | _ => cases hm

/-- What is known about the subroutines of a shader that is read without a fault. -/
structure CallsLinked (o : Options) (ws : List Word) (l : LinkedShader) (output : String) : Prop where
  /-- Calls and heads are those of the instructions, one for each and in their order. -/
  said : mentions l.scan.code = (Linkage.ofInstructions (instructionsOf o ws)).mentions
  heads : ∀ n counter, .head n counter ∈ mentions l.scan.code →
    HasLine output (headLine l.env.toShader n counter)
  calls : ∀ n passed, .call n passed ∈ mentions l.scan.code →
    HasCall l.env.toShader output n passed
  apart : HeadsApart l.scan.code
  takes : HeadsTake (mentions l.scan.code)
  agree : ∀ n a b, .call n a ∈ mentions l.scan.code →
    .call n b ∈ mentions l.scan.code → a = b
  /-- When the calls of a label match its definition. -/
  matched : ∀ n passed, .call n passed ∈ mentions l.scan.code →
    (Mention.Matched (mentions l.scan.code) n ↔
      ((mentions l.scan.code).filter (Mention.isHeadOf n)).length = 1 ∧
        (passed = false ∨ Mention.CallFirst (mentions l.scan.code) n))

/-- **Calls agree with each other and with what was called before.**  In a shader without a fault all calls
of a label pass the counter of a loop or none does, and the function takes it if a call before its head
passes it. -/
theorem lift_calls_linked (p : Profile) (o : Options) (ws : List Word)
    (clean : (liftWords p o ws).errors = []) :
    ∃ l, linkShader o ws = .ok l ∧ (liftWords p o ws).output = program p o l ∧
      CallsLinked o ws l (liftWords p o ws).output := by
  have hdoes := does_of_no_errors p o ws clean
  obtain ⟨w, us, env, t, -, hlink, hrun, hfinish, -, -⟩ := run_of_no_errors clean
  have houtput : (liftWords p o ws).output = program p o (.ofUnits env us) := by
    rw [liftWords_eq, hlink]
    rfl
  have hcode : (LinkedShader.ofUnits env us).scan.code = t.code := by
    show (Scan.ofUnits env us).code = _
    rw [hfinish]
    rfl
  -- before the first unit nothing is called or opened
  have hnothing : Scan.Tracks { position := .before } :=
    ⟨RegisterTable.sorted_empty, fun n passed => by
      refine ⟨fun h => ?_, fun h => by cases h⟩
      cases passed <;> cases h⟩
  obtain ⟨htracks, hlinkage⟩ := hrun.linked hdoes hnothing
  have hmentions : mentions t.code = (Linkage.ofInstructions (instructionsOf o ws)).mentions :=
    congrArg Linkage.mentions hlinkage
  have hapart : t.FunctionsApart := (hrun.functionsApart hdoes).2
  have htakes : HeadsTake (mentions t.code) := by
    rw [hmentions]
    refine Linkage.headsTake_foldl (k := {}) ?_ _
    intro before n counter after heq
    cases before <;> cases heq
  refine ⟨_, hlink, houtput, ?_⟩
  rw [houtput]
  refine ⟨hcode ▸ hmentions, fun n counter => hasLine_of_head p o, fun n passed => hasCall_of_call p o,
    hcode ▸ hapart.apart, hcode ▸ htakes, fun n a b => hcode ▸ htracks.agree, fun n passed called => ?_⟩
  rw [hcode] at called ⊢
  exact Mention.matched_iff (fun a b => htracks.agree) htakes called

/-- A loop that calls a subroutine, which is defined after it. -/
def countedCall : List Word :=
  [0xFFFE0200,
    0x0200001B, 0xF0E40800, 0xF0E40000,
    0x01000019, 0xA0E41000,
    0x0000001D,
    0x0000001C,
    0x0100001E, 0xA0E41000,
    0x0000001C,
    0xFFFF]

theorem calls_linked_countedCall :
    (liftWords .glsl110 {} countedCall).errors = [] ∧
      ∃ l, linkShader {} countedCall = .ok l ∧
        (liftWords .glsl110 {} countedCall).output = program .glsl110 {} l ∧
        CallsLinked {} countedCall l (liftWords .glsl110 {} countedCall).output := by
  have clean : (liftWords .glsl110 {} countedCall).errors = [] := by decide +kernel
  exact ⟨clean, lift_calls_linked .glsl110 {} countedCall clean⟩

/-- The mentions in the code of a shader, if nothing is wrong with it. -/
def mentionsOf (ws : List Word) : Option (List Mention) :=
  match linkShader {} ws with
  | .ok l => some (mentions l.scan.code)
  | .error _ => none

/-- A call of a label without a function. -/
def strayCall : List Word :=
  [0xFFFE0200,
    0x01000019, 0xA0E41000,
    0x0000001C,
    0xFFFF]

/-- The call is written, although there is nothing to call. -/
theorem strayCall_unmatched :
    (liftWords .glsl110 {} strayCall).errors = [] ∧
      ∃ ms, mentionsOf strayCall = some ms ∧ .call 0 false ∈ ms ∧ ¬ Mention.Matched ms 0 := by
  refine ⟨by decide +kernel, [.call 0 false], by decide +kernel, List.mem_cons_self, ?_⟩
  rintro ⟨counter, heads, -⟩
  cases heads

-- two functions for one label
example : mentionsOf
    [0xFFFE0200, 0x01000019, 0xA0E41000, 0x1C, 0x0100001E, 0xA0E41000, 0x1C, 0x0100001E, 0xA0E41000,
      0x1C, 0xFFFF] = some [.call 0 false, .head 0 false, .head 0 false] := by
  decide +kernel

-- a function before the only call of it, which is in a loop of another function
example : mentionsOf
    [0xFFFE0200, 0x1C, 0x0100001E, 0xA0E41000, 0x1C, 0x0100001E, 0xA0E41001, 0x0200001B, 0xF0E40800,
      0xF0E40000, 0x01000019, 0xA0E41000, 0x1D, 0x1C, 0xFFFF] =
      some [.head 0 false, .head 1 false, .call 0 true] := by
  decide +kernel

end ShaderLift
