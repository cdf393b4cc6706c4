/-
Words behind the end of a shader.  Where the size of the code is unknown, the end mark ends it, and
whatever follows is not looked at.  That takes an argument, as every reader is given all words that are
left and asks whether there are any.  But a unit without a fault that fits found all the words that it
asked for (`Visit.readUnit_of_take`), so more of them make no difference.
-/
import ShaderLift.Proofs.Accounting

namespace ShaderLift

/-! ### Reading without the size -/

/-- The same reading where the size of the code is unknown. -/
def Env.openEnded (env : Env) : Env := { env with knownSize := false }

namespace Scan

variable {s t : Scan} {env : Env} {n : Nat} {ws : List Word} {vs : List Visit}

theorem readSources_openEnded (env : Env) (s : Scan) (n : Nat) (ws : List Word) :
    readSources env.openEnded s n ws = readSources env s n ws := by
  induction n generalizing s ws with
  | zero => rfl
  | succ n ih =>
    show (_, _) = (_, _)
    rw [ih]
    rfl

theorem readArguments_openEnded (env : Env) (shape : Shape) (s : Scan) (ws : List Word) :
    readArguments env.openEnded shape s ws = readArguments env shape s ws := by
  have hdest : ∀ n, readArguments env.openEnded (.dest n) s ws = readArguments env (.dest n) s ws := by
    intro n
    simp only [readArguments, readDestSources, readSources_openEnded]
    rfl
  cases shape with
  | sources n => simp only [readArguments, readSources_openEnded]
  | dest n => exact hdest n
  | sinCos | texCoord | texLoad => exact hdest (ite _ _ _)
  | defineFloat | defineInt | defineBool | declaration => rfl

theorem readInstruction_openEnded (env : Env) (s : Scan) (op : Opcode) (w : InstructionWord)
    (ws : List Word) : readInstruction env.openEnded s op w ws = readInstruction env s op w ws := by
  have hoperands : ∀ s, readOperands env.openEnded op w s ws = readOperands env op w s ws := by
    intro s
    simp only [readOperands, readArguments_openEnded]
    rfl
  simp only [readInstruction]
  rw [show headFaults env.openEnded op w = headFaults env op w from rfl, hoperands]
  rfl

theorem readUnit_openEnded {w : Word} (hw : w ≠ Word.endMark) (env : Env) (s : Scan)
    (ws : List Word) : readUnit env.openEnded s w ws = readUnit env s w ws := by
  unfold readUnit
  cases hhead : UnitHead.ofWord w with
  | finish => exact absurd ((ofWord_eq_finish_iff w).mp hhead) hw
  | instruction op fields => exact readInstruction_openEnded env s op fields ws
  | comment | phase | unknown => rfl

/-- The end mark is read the same whatever follows it, if it is no fault where the size is known. -/
theorem readUnit_endMark {w : Word} (hw : w = Word.endMark) {more : List Word}
    (clean : (readUnit env s w ws).1.faults = []) :
    readUnit env.openEnded s w more = readUnit env s w ws := by
  have hsize : (env.knownSize && !ws.isEmpty) = false := by
    cases hk : env.knownSize with
    | false => rfl
    | true =>
      have hrest := Visit.rest_of_endMark ⟨env, 0, s, w, ws⟩ hw hk clean
      simp [show ws = [] from hrest]
  have hhead := (ofWord_eq_finish_iff w).mpr hw
  simp only [readUnit, hhead, hsize]
  rfl

theorem readUnits_cons_of_readUnit {env' : Env} {w : Word} {more : List Word}
    (fits : (visit env s n w ws).Fits)
    (hunit : readUnit env' (s.startUnit (.word n)) w (ws ++ more) =
      readUnit env (s.startUnit (.word n)) w ws) :
    readUnits env' s n (w :: ws ++ more) =
      if stopsAt env' w then (visit env s n w ws).after
      else readUnits env' (visit env s n w ws).after (n + (visit env s n w ws).length)
        ((visit env s n w ws).remainder ++ more) := by
  have hfits : (readUnit env (s.startUnit (.word n)) w ws).2 ≤ ws.length + 1 := fits
  have hmore : ¬ (ws ++ more).length + 1 < (readUnit env (s.startUnit (.word n)) w ws).2 := by
    rw [List.length_append]
    omega
  have hdrop : (ws ++ more).drop ((readUnit env (s.startUnit (.word n)) w ws).2 - 1) =
      ws.drop ((readUnit env (s.startUnit (.word n)) w ws).2 - 1) ++ more :=
    List.drop_append_of_le_length (by omega)
  rw [List.cons_append, readUnits, hunit]
  dsimp only
  rw [if_neg hmore, hdrop]
  rfl

/-- **Reading without the size stops at the end mark.**  If nothing is wrong up to there, it gives the
same whether the size was known or not, and whatever follows. -/
theorem Run.readUnits_append (r : Run env s n ws vs t) (clean : t.faults = [])
    (marked : ∃ v ∈ vs, v.word = Word.endMark) (more : List Word) :
    readUnits env.openEnded s n (ws ++ more) = t := by
  induction r with
  | done => simp at marked
  | cut s n w ws => simp [cutOff, fail] at clean
  | stop s n w ws fits last =>
    obtain ⟨-, hw⟩ : env.knownSize = false ∧ w = Word.endMark := by simpa [stopsAt] using last
    rw [readUnits_cons_of_readUnit fits (readUnit_endMark hw clean)]
    exact if_pos (by simp [stopsAt, Env.openEnded, hw])
  | @next s n w ws vs t fits goesOn r ih =>
    have hafter := (Run.next s n w ws fits goesOn r).faults_after clean _ List.mem_cons_self
    by_cases hw : w = Word.endMark
    · -- reading went on only because the size is known, and then nothing is left to read
      have hsize : env.knownSize = true := by simpa [stopsAt, hw] using goesOn
      have hdone : t = (visit env s n w ws).after := by
        rw [(visit env s n w ws).remainder_of_endMark hw hsize hafter] at r
        cases r
        rfl
      rw [readUnits_cons_of_readUnit fits (readUnit_endMark hw hafter), hdone]
      exact if_pos (by simp [stopsAt, Env.openEnded, hw])
    · have hmarked : ∃ v ∈ vs, v.word = Word.endMark := by simpa [visit, hw] using marked
      have hsame := (visit env s n w ws).readUnit_of_take fits hafter hw (ws ++ more)
        (by simp [visit]) (List.take_append_of_le_length (Nat.sub_le_of_le_add fits))
      have hunit := (readUnit_openEnded hw env (s.startUnit (.word n)) (ws ++ more)).trans hsame
      rw [readUnits_cons_of_readUnit fits hunit, if_neg (by simp [stopsAt, hw])]
      exact ih clean hmarked

theorem ofUnits_append {env : Env} {ws : List Word} (clean : (ofUnits env ws).faults = [])
    (more : List Word) : ofUnits env.openEnded (ws ++ more) = ofUnits env ws := by
  have hread := (run_readUnits env (start env) 1 ws).readUnits_append
    (readUnits_of_ofUnits clean) (exists_endMark_of_ofUnits clean) more
  exact congrArg (finish env) hread

end Scan

/-! ### Shaders -/

theorem ofWord?_openEnded {o : Options} {w : Word} {env : Env} (h : Env.ofWord? o w = some env) :
    Env.ofWord? { o with knownSize := false } w = some env.openEnded := by
  obtain ⟨sh, hsh, rfl⟩ := Option.map_eq_some_iff.mp h
  exact Option.map_eq_some_iff.mpr ⟨sh, hsh, rfl⟩

theorem liftWords_append (p : Glsl.Profile) (o : Options) (ws : List Word)
    (clean : (liftWords p o ws).errors = []) (more : List Word) :
    liftWords p { o with knownSize := false } (ws ++ more) = liftWords p o ws := by
  obtain ⟨w, us, env, rfl, version, hflag, fit⟩ := (liftWords_errors_eq_nil_iff p o ws).mp clean
  have good := (Scan.ofUnits_faults_eq_nil_iff env us).mpr hflag
  have hread := Scan.ofUnits_append good more
  have hlink : linkShader { o with knownSize := false } (w :: (us ++ more)) =
      .ok (.ofUnits env.openEnded (us ++ more)) := by
    apply linkShader_eq_ok (ofWord?_openEnded version)
    · rw [hread]
      exact good
    · rw [hread]
      exact fit
  -- the two shaders differ in what is known of the size, which has no part in the result
  rw [List.cons_append, liftWords_eq, liftWords_eq, hlink, linkShader_eq_ok version good fit]
  unfold LinkedShader.ofUnits
  rw [hread]
  rfl

/-- **Trailing words are ignored.**  If a shader has no fault, with its size known or not, then reading
it without the size, with any words behind it, gives the same result. -/
theorem lift_ignores_trailing_words (name : String) (o : Options) (sized : Bool)
    (ws tail : List Word) (r : Lifted)
    (lifted : lift? name { o with knownSize := sized } ws = some r) (clean : r.errors = []) :
    lift? name { o with knownSize := false } (ws ++ tail) = some r := by
  obtain ⟨p, hp, rfl⟩ := Option.map_eq_some_iff.mp lifted
  have happend := liftWords_append p { o with knownSize := sized } ws clean tail
  rw [lift?, hp, Option.map_some]
  exact congrArg some happend

/-- Code that moves c0 to the position, with a comment in front. -/
def commentedMove : List Word :=
  [0xFFFE0200,
    0x0002FFFE, 0x12345678, 0x9ABCDEF0,
    0x02000001, 0xC00F0000, 0xA0E40000,
    0xFFFF]

/-- Behind the end mark there may be anything, such as the start of an instruction. -/
theorem lift_ignores_trailing_commentedMove :
    (liftWords .glsl120 {} commentedMove).errors = [] ∧
      lift? "glsl120" { knownSize := false } (commentedMove ++ [0x02000001, 0xC00F0000]) =
        some (liftWords .glsl120 {} commentedMove) := by
  have clean : (liftWords .glsl120 {} commentedMove).errors = [] := by decide +kernel
  exact ⟨clean, lift_ignores_trailing_words "glsl120" {} true commentedMove _ _ rfl clean⟩

end ShaderLift
