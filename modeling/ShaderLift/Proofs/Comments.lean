/-
Comments do not change the program.  A comment can be put between any two units of a shader without a
fault: a symbol table shows in the symbols, a preshader in the preshader, and any other comment nowhere.

The units in front of the comment do not depend on what comes after them, the comment makes a twin of the
state, and the units behind it keep the twins together.  For a table or a preshader, it matters that there
was none of its kind before, which again follows from twins: a state that has none is a twin of itself.
-/
import ShaderLift.Proofs.Trailing
import ShaderLift.Proofs.Twins

namespace ShaderLift

/-! ### Comments as words -/

/-- The first word of a comment with so many words after it. -/
def Word.commentHead (length : Nat) : Word := UInt32.ofNat (0xFFFE + 65536 * length)

def commentUnit (payload : List Word) : List Word := Word.commentHead payload.length :: payload

def insertWords (n : Nat) (block ws : List Word) : List Word := ws.take n ++ (block ++ ws.drop n)

theorem insertWords_succ_cons (n : Nat) (block : List Word) (w : Word) (ws : List Word) :
    insertWords (n + 1) block (w :: ws) = w :: insertWords n block ws :=
  rfl

theorem insertWords_append {front : List Word} {n : Nat} (h : front.length ≤ n) (block ws : List Word) :
    insertWords n block (front ++ ws) = front ++ insertWords (n - front.length) block ws := by
  rw [insertWords, List.take_append, List.take_of_length_le h, List.drop_append,
    List.drop_of_length_le h, List.nil_append, List.append_assoc]
  rfl

theorem length_le_insertWords (n : Nat) (block ws : List Word) :
    ws.length ≤ (insertWords n block ws).length := by
  rw [insertWords, List.length_append, List.length_append, List.length_take, List.length_drop]
  omega

section Length

variable {length : Nat} (short : length < 65536)

include short

theorem Word.toNat_commentHead : (Word.commentHead length).toNat = 0xFFFE + 65536 * length :=
  UInt32.toNat_ofNat_of_lt' (show _ < 4294967296 by omega)

theorem Word.commentLength?_commentHead :
    Word.commentLength? (Word.commentHead length) = some length := by
  have hlow : Word.field (Word.commentHead length) 0 16 = 0xFFFE := by
    show (Word.commentHead length).toNat / 1 % 65536 = 0xFFFE
    rw [Word.toNat_commentHead short]
    omega
  have hhigh : Word.field (Word.commentHead length) 16 16 = length := by
    show (Word.commentHead length).toNat / 65536 % 65536 = length
    rw [Word.toNat_commentHead short]
    omega
  rw [Word.commentLength?, if_pos hlow, hhigh]

end Length

section Head

variable {length : Nat} (short : length < 0x8000)

include short

theorem UnitHead.ofWord_commentHead : UnitHead.ofWord (Word.commentHead length) = .comment length := by
  rw [UnitHead.ofWord, Word.commentLength?_commentHead (by omega)]

theorem Word.flag_commentHead : Word.flag (Word.commentHead length) 31 = false := by
  have htop : Word.field (Word.commentHead length) 31 1 = 0 := by
    show (Word.commentHead length).toNat / 2147483648 % 2 = 0
    rw [Word.toNat_commentHead (by omega)]
    omega
  rw [Word.flag, htop]
  rfl

theorem Word.commentHead_ne_endMark : Word.commentHead length ≠ Word.endMark := by
  intro h
  have hhead := UnitHead.ofWord_commentHead short
  rw [(Scan.ofWord_eq_finish_iff _).mpr h] at hhead
  cases hhead

end Head

/-! ### What a comment does -/

/-- What the first comment of its kind leaves behind, if nothing is wrong with it. -/
inductive Remark.Of (version : Word) : List Word → Remark → Prop
  | nothing {payload : List Word}
      (other : ∀ id word rest, payload = id :: word :: rest →
        id ≠ Word.preshaderId ∧ id ≠ Word.symbolTableId) :
      Of version payload .nothing
  | preshader {word : Word} {rest : List Word} (good : (Preshader.decode (word :: rest)).faults = []) :
      Of version (Word.preshaderId :: word :: rest) (.preshader (Preshader.decode (word :: rest)).value)
  | table {word : Word} {rest : List Word} {symbols : List Symbol}
      (good : (Symbol.table (word :: rest) version).faults = [])
      (value : (Symbol.table (word :: rest) version).value = some symbols) :
      Of version (Word.symbolTableId :: word :: rest) (.table symbols)

def Remark.Fresh (x : Remark) (s : Scan) : Prop :=
  match x with
  | .nothing => True
  | .preshader _ => s.preshader = none
  | .table _ => s.haveTable = false

namespace Scan

variable {x : Remark} {s t : Scan} {env : Env} {n : Nat} {payload : List Word}
variable {w : Word} {ws : List Word} {vs : List Visit}

/-- **The first comment of its kind adds what it leaves behind, and nothing else.** -/
theorem twin_readComment (of : x.Of env.versionWord payload) (fresh : x.Fresh s) :
    Twin x s (s.readComment env payload) := by
  cases of with
  | nothing other =>
    -- too short, or with an id that says nothing
    have hsame : s.readComment env payload = s := by
      match payload with
      | [] | [_] => rfl
      | id :: word :: rest =>
        obtain ⟨hp, ht⟩ := other id word rest rfl
        rw [readComment, if_neg hp, if_neg ht]
    rw [hsame]
    exact ⟨⟨s.margin, rfl⟩, id, rfl, rfl, rfl, rfl⟩
  | @preshader word rest good =>
    -- the first one is decoded
    have hfresh : ¬ s.preshader.isSome = true := by
      rw [show s.preshader = none from fresh]
      exact Bool.false_ne_true
    have hread : s.readComment env (Word.preshaderId :: word :: rest) =
        { s with preshader := (Preshader.decode (word :: rest)).value } := by
      rw [readComment, if_pos rfl, readPreshader, if_neg hfresh]
      dsimp only
      rw [absorb, good]
      rfl
    rw [hread]
    exact ⟨⟨{ s.margin with preshader := _ }, rfl⟩, id, rfl, rfl, rfl, rfl⟩
  | @table word rest symbols good value =>
    have hread : s.readComment env (Word.symbolTableId :: word :: rest) = { s with
        haveTable := true
        symbols := symbols
        arrays := s.arrays ++ rangeArrays symbols } := by
      rw [readComment, if_neg (by decide), if_pos rfl, readTable_eq fresh good value]
    rw [hread]
    exact ⟨⟨{ s.margin with
      haveTable := true
      symbols := symbols
      arrays := s.arrays ++ rangeArrays symbols }, rfl⟩, id, fresh, rfl, rfl, rfl, rfl⟩

theorem readUnits_commentUnit (short : payload.length < 0x8000) (ws : List Word) :
    readUnits env s n (commentUnit payload ++ ws) =
      readUnits env ((s.startUnit (.word n)).readComment env payload) (n + (payload.length + 1)) ws := by
  have hunit : readUnit env (s.startUnit (.word n)) (Word.commentHead payload.length) (payload ++ ws) =
      ((s.startUnit (.word n)).readComment env payload, payload.length + 1) := by
    have hle : payload.length ≤ (payload ++ ws).length := by
      rw [List.length_append]
      exact Nat.le_add_right _ _
    simp only [readUnit, UnitHead.ofWord_commentHead short, Word.flag_commentHead short, if_pos hle,
      List.take_left]
    rfl
  have hstop : ¬ stopsAt env (Word.commentHead payload.length) := by
    simp [stopsAt, Word.commentHead_ne_endMark short]
  rw [commentUnit, List.cons_append, readUnits, hunit]
  dsimp only
  rw [if_neg (by simp), if_neg hstop, Nat.add_sub_cancel, List.drop_left]

/-! ### Around a comment -/

theorem readUnits_words_append {more : List Word} (fits : (visit env s n w ws).Fits)
    (clean : (visit env s n w ws).after.faults = []) (hw : w ≠ Word.endMark)
    (enough : (visit env s n w ws).remainder.length ≤ more.length) :
    readUnits env s n ((visit env s n w ws).words ++ more) =
      readUnits env (visit env s n w ws).after (n + (visit env s n w ws).length) more := by
  obtain ⟨count, hcount⟩ := Nat.exists_eq_add_of_le' (visit env s n w ws).one_le_length
  have hwords : (visit env s n w ws).words = w :: ws.take count := by
    rw [Visit.words, hcount]
    rfl
  have htake : (ws.take count).length = count := by
    rw [Visit.Fits, hcount] at fits
    exact List.length_take_of_le (Nat.le_of_succ_le_succ fits)
  have hunit := (visit env s n w ws).readUnit_of_take fits clean hw (ws.take count ++ more)
    (by
      rw [Visit.remainder, hcount, List.length_drop] at enough
      rw [List.length_append, htake]
      exact Nat.sub_le_iff_le_add'.mp enough)
    (by rw [hcount, Nat.add_sub_cancel, List.take_left' htake]; rfl)
  change readUnit env (s.startUnit (.word n)) w (ws.take count ++ more) = _ at hunit
  have hstop : ¬ stopsAt env w := by simp [stopsAt, hw]
  have hfits : ¬ (ws.take count ++ more).length + 1 < count + 1 := by
    rw [List.length_append, htake]
    omega
  rw [hwords, List.cons_append, readUnits, hunit, hcount]
  dsimp only
  rw [if_neg hfits, if_neg hstop, Nat.add_sub_cancel, List.drop_left' htake]

theorem Run.ne_endMark {v : Visit} (clean : (visit env s n w ws).after.faults = [])
    (more : ¬ stopsAt env w) (r : Run env (visit env s n w ws).after (n + (visit env s n w ws).length)
      (visit env s n w ws).remainder vs t) (hv : v ∈ vs) : w ≠ Word.endMark := by
  intro hw
  have hsize : env.knownSize = true := by simpa [stopsAt, hw] using more
  rw [(visit env s n w ws).remainder_of_endMark hw hsize clean] at r
  cases r
  cases hv

theorem Run.startUnit (r : Run env s n (w :: ws) vs t) (p : Position) :
    Run env (s.startUnit p) n (w :: ws) vs t := by
  cases r with
  | cut _ _ _ _ tooLong => exact .cut (s.startUnit p) n w ws tooLong
  | stop _ _ _ _ fits last => exact .stop (s.startUnit p) n w ws fits last
  | next _ _ _ _ fits more r => exact .next (s.startUnit p) n w ws fits more r

theorem fresh_after (fresh : x.Fresh s) (clean : (visit env s n w ws).after.faults = [])
    (spared : ∀ id, x.id? = some id → (visit env s n w ws).commentId? ≠ some id) :
    x.Fresh (visit env s n w ws).after := by
  cases x with
  | nothing => trivial
  | preshader value =>
    have hself : Twin (.preshader none) s s := ⟨⟨s.margin, rfl⟩, id, rfl, rfl, rfl, fresh⟩
    exact (hself.visit clean spared n).2.adds.2.2.2
  | table symbols =>
    have hother : Twin (.table []) s { s with haveTable := true, symbols := [], arrays := s.arrays ++ [] } :=
      ⟨⟨{ s.margin with haveTable := true, symbols := [], arrays := s.arrays ++ [] }, rfl⟩, id, fresh,
        rfl, rfl, rfl, rfl⟩
    exact (hother.visit clean spared n).2.adds.1

theorem Run.twin_commentUnit (r : Run env s n (w :: ws) vs t) (clean : t.faults = [])
    (spared : ∀ v ∈ vs, ∀ id, x.id? = some id → v.commentId? ≠ some id)
    (short : payload.length < 0x8000) (of : x.Of env.versionWord payload) (fresh : x.Fresh s) :
    Twin x t (readUnits env s n (commentUnit payload ++ (w :: ws))) := by
  have hfresh : x.Fresh (s.startUnit (.word n)) := by cases x <;> exact fresh
  rw [readUnits_commentUnit short]
  exact (r.startUnit (.word n)).twin clean spared (twin_readComment of hfresh) _

/-- **A comment between two units leaves twins.** -/
theorem Run.twin_insertWords {v : Visit} (r : Run env s n ws vs t) (clean : t.faults = [])
    (spared : ∀ v ∈ vs, ∀ id, x.id? = some id → v.commentId? ≠ some id)
    (short : payload.length < 0x8000) (of : x.Of env.versionWord payload) (fresh : x.Fresh s)
    (hv : v ∈ vs) :
    Twin x t (readUnits env s n (insertWords (v.start - n) (commentUnit payload) ws)) := by
  -- a comment at the very start
  have hfront : ∀ n ws, insertWords (n - n) (commentUnit payload) ws = commentUnit payload ++ ws := by
    intro n ws
    rw [Nat.sub_self]
    rfl
  induction r with
  | done => cases hv
  | cut s n w ws tooLong => simp [cutOff, Scan.fail] at clean
  | stop s n w ws fits last =>
    obtain rfl := List.mem_singleton.mp hv
    show Twin x _ (readUnits env s n (insertWords (n - n) _ _))
    rw [hfront]
    exact (Run.stop s n w ws fits last).twin_commentUnit clean spared short of fresh
  | @next s n w ws vs t fits more r ih =>
    rcases List.mem_cons.mp hv with rfl | hv
    · show Twin x _ (readUnits env s n (insertWords (n - n) _ _))
      rw [hfront]
      exact (Run.next s n w ws fits more r).twin_commentUnit clean spared short of fresh
    · -- the first unit is read as before, and the comment is further on
      have hafter := (Run.next s n w ws fits more r).faults_after clean _ List.mem_cons_self
      obtain ⟨hfirst, hothers⟩ := List.forall_mem_cons.mp spared
      have hlength : (visit env s n w ws).words.length = (visit env s n w ws).length :=
        List.length_take_of_le fits
      have hle := (r.drop_start v hv).1
      have hcode : insertWords (v.start - n) (commentUnit payload) (w :: ws) =
          (visit env s n w ws).words ++ insertWords (v.start - (n + (visit env s n w ws).length))
            (commentUnit payload) (visit env s n w ws).remainder := by
        rw [← Nat.sub_sub, ← hlength, ← insertWords_append (by omega), Visit.words_append_remainder]
        rfl
      rw [hcode, readUnits_words_append fits hafter (r.ne_endMark hafter more hv)
        (length_le_insertWords _ _ _)]
      exact ih clean hothers (fresh_after fresh hafter hfirst) hv

/-! ### Interfaces -/

theorem Twin.filter_used (h : Twin x s t) :
    t.arrays.filter ConstantArray.used = s.arrays.filter ConstantArray.used := by
  have hadds := h.adds
  cases x with
  | nothing | preshader value => exact congrArg (List.filter ConstantArray.used) hadds.2.2.1
  | table symbols =>
    have hunused : (rangeArrays symbols).filter ConstantArray.used = [] := by
      rw [List.filter_eq_nil_iff]
      intro a ha
      rw [used_rangeArrays ha]
      exact Bool.false_ne_true
    rw [show t.arrays = s.arrays ++ rangeArrays symbols from hadds.2.2.2.1, List.filter_append, hunused,
      List.append_nil]

theorem Twin.usedArrays_eq (h : Twin x s t) : Interface.usedArrays t = Interface.usedArrays s := by
  have harrays : ∀ s : Scan, s.groupConstants.arrays.filter ConstantArray.used =
      s.arrays.filter ConstantArray.used ++
        (if s.grouped then [] else ConstantArray.ofConstants s.constants).filter ConstantArray.used := by
    intro s
    unfold Scan.groupConstants
    split
    · exact (List.append_nil _).symm
    · exact List.filter_append _ _
  have hused := h.filter_used
  obtain ⟨m, rfl⟩ := h.eq
  rw [Interface.usedArrays, Interface.usedArrays, harrays, harrays, hused]
  rfl

theorem Twin.interface_eq (h : Twin x s t) (sh : Shader) :
    Interface.ofScan sh t = Interface.ofScan sh s ∧ Interface.faults sh t = Interface.faults sh s := by
  have hused := h.usedArrays_eq
  obtain ⟨m, rfl⟩ := h.eq
  refine ⟨?_, rfl⟩
  unfold Interface.ofScan
  rw [hused]
  rfl

end Scan

/-! ### Shaders -/

def Remark.addTo (x : Remark) (l : Lifted) : Lifted :=
  match x with
  | .nothing => l
  | .preshader value => { l with preshader := value }
  | .table symbols => { l with symbols := symbols }

theorem Scan.Twin.lifted_eq {x : Remark} {s t : Scan} (h : Twin x s t) (p : Glsl.Profile) (o : Options)
    (env : Env) (i : Interface) :
    LinkedShader.lifted p o { env, scan := t, interface := i } =
      x.addTo (LinkedShader.lifted p o { env, scan := s, interface := i }) := by
  have hadds := h.adds
  obtain ⟨m, rfl⟩ := h.eq
  have hmargin : LinkedShader.lifted p o { env, scan := s.withMargin m, interface := i } =
      { LinkedShader.lifted p o { env, scan := s, interface := i } with
        symbols := m.symbols
        preshader := m.preshader } := rfl
  rw [hmargin]
  cases x with
  | nothing =>
    obtain ⟨-, hsymbols, -, hpreshader⟩ := hadds
    rw [show m.symbols = s.symbols from hsymbols, show m.preshader = s.preshader from hpreshader]
    rfl
  | preshader value =>
    obtain ⟨-, hsymbols, -, hpreshader⟩ := hadds
    rw [show m.symbols = s.symbols from hsymbols, show m.preshader = value from hpreshader]
    rfl
  | table symbols =>
    obtain ⟨-, -, hsymbols, -, hpreshader⟩ := hadds
    rw [show m.symbols = symbols from hsymbols, show m.preshader = s.preshader from hpreshader]
    rfl

theorem versionWord_of_ofWord? {o : Options} {w : Word} {env : Env} (h : Env.ofWord? o w = some env) :
    env.versionWord = w := by
  obtain ⟨sh, -, rfl⟩ := Option.map_eq_some_iff.mp h
  rfl

/-- **A comment adds what it leaves behind to the result**, wherever it stands. -/
theorem liftWords_insertWords {x : Remark} {p : Glsl.Profile} {o : Options} {ws payload : List Word}
    {v : Visit} (clean : (liftWords p o ws).errors = []) (hv : v ∈ unitsOf o ws)
    (short : payload.length < 0x8000)
    (spared : ∀ u ∈ unitsOf o ws, ∀ id, x.id? = some id → u.commentId? ≠ some id)
    (of : ∀ version, ws.head? = some version → x.Of version payload) :
    liftWords p o (insertWords v.start (commentUnit payload) ws) = x.addTo (liftWords p o ws) := by
  obtain ⟨w, us, env, rfl, version, good, hlink⟩ := linkShader_of_no_errors p o ws clean
  rw [unitsOf_cons o version] at hv spared
  have r := Scan.run_readUnits env (Scan.start env) 1 us
  obtain ⟨before, hbefore⟩ := Nat.exists_eq_add_of_le' (r.drop_start v hv).1
  have hof : x.Of env.versionWord payload := by
    rw [versionWord_of_ofWord? version]
    exact of w rfl
  have hfresh : x.Fresh (Scan.start env) := by
    rw [Scan.start_of_clean good]
    cases x <;> trivial
  have htwin : Scan.Twin x (Scan.ofUnits env us)
      (Scan.ofUnits env (insertWords before (commentUnit payload) us)) := by
    have hread := r.twin_insertWords (Scan.readUnits_of_ofUnits good) spared short hof hfresh hv
    rw [hbefore, Nat.add_sub_cancel] at hread
    exact hread.finish
  have hgood := htwin.faults good
  obtain ⟨hinterface, hfaults⟩ := htwin.interface_eq env.toShader
  have hfit := interface_of_linkShader version good hlink
  have hcommented := linkShader_eq_ok version hgood (hfaults.trans hfit)
  rw [hbefore, insertWords_succ_cons, liftWords_eq, liftWords_eq, hlink, hcommented]
  show LinkedShader.lifted p o { env, scan := _, interface := _ } = _
  rw [hinterface]
  exact htwin.lifted_eq p o env _

/-- **Comments do not change the program.**  A comment may be put in front of any unit of a shader without a
fault: only the first preshader and the first symbol table show in the result. -/
theorem lift_ignores_comments (p : Glsl.Profile) (o : Options) (ws : List Word)
    (clean : (liftWords p o ws).errors = []) (v : Visit) (hv : v ∈ unitsOf o ws) (payload : List Word)
    (short : payload.length < 0x8000) :
    ((∀ id word rest, payload = id :: word :: rest →
        id ≠ Word.preshaderId ∧ id ≠ Word.symbolTableId) →
      liftWords p o (insertWords v.start (commentUnit payload) ws) = liftWords p o ws) ∧
    (∀ word rest, payload = Word.preshaderId :: word :: rest →
      (∀ u ∈ unitsOf o ws, u.commentId? ≠ some Word.preshaderId) →
      (Preshader.decode (word :: rest)).faults = [] →
      liftWords p o (insertWords v.start (commentUnit payload) ws) =
        { liftWords p o ws with preshader := (Preshader.decode (word :: rest)).value }) ∧
    (∀ word rest version, payload = Word.symbolTableId :: word :: rest → ws.head? = some version →
      (∀ u ∈ unitsOf o ws, u.commentId? ≠ some Word.symbolTableId) →
      (Symbol.table (word :: rest) version).faults = [] →
      ∃ symbols, (Symbol.table (word :: rest) version).value = some symbols ∧
        liftWords p o (insertWords v.start (commentUnit payload) ws) =
          { liftWords p o ws with symbols := symbols }) := by
  refine ⟨fun other => ?_, ?_, ?_⟩
  · exact liftWords_insertWords (x := .nothing) clean hv short (fun _ _ _ hid => by cases hid)
      fun _ _ => .nothing other
  · rintro word rest rfl absent good
    refine liftWords_insertWords clean hv short (fun u hu id hid => ?_) fun _ _ => .preshader good
    obtain rfl := Option.some.inj hid
    exact absent u hu
  · rintro word rest version rfl hversion absent good
    obtain ⟨symbols, value⟩ := Symbol.value_of_table good
    refine ⟨symbols, value, liftWords_insertWords (x := .table symbols) clean hv short
      (fun u hu id hid => ?_) fun w hw => ?_⟩
    · obtain rfl := Option.some.inj hid
      exact absent u hu
    · obtain rfl := Option.some.inj (hversion.symm.trans hw)
      exact .table good value

/-- Code that adds a constant of its own to c19. -/
def offsetVertex : List Word :=
  [0xFFFE0101,
    0x51, 0xA00F0014, 0, 0x3F000000, 0, 0,
    2, 0x800F0000, 0xA0E40013, 0xA0E40014,
    1, 0xC00F0000, 0x80E40000,
    0xFFFF]

/-- The words of a comment with a preshader that does nothing: it has no literals, no symbols and no
code. -/
def emptyPreshader : List Word :=
  [0x53455250, 0x46580200,
    0x0002FFFE, 0x54494C43, 0,
    0x0009FFFE, 0x42415443, 28, 0, 0x46580200, 0, 28, 0, 28, 0x7866,
    0x0002FFFE, 0x434C5846, 0]

/-- The words of a comment with a symbol table.  Its only symbol, `bones`, is in the registers 16 to 23,
where c19 and c20 are. -/
def boneTable : List Word :=
  [0x42415443, 28, 0, 0xFFFE0101, 1, 28, 0, 0, 64, 0x00100002, 8, 48, 0, 0x00030001, 0x00040001,
    8, 0, 0x656E6F62, 115, 0, 0, 0]

theorem offsetVertex_commented :
    (liftWords .glsl110 {} offsetVertex).errors = [] ∧
      liftWords .glsl110 {} (insertWords 11 (commentUnit [1, 2, 3]) offsetVertex) =
        liftWords .glsl110 {} offsetVertex ∧
      liftWords .glsl110 {} (insertWords 11 (commentUnit emptyPreshader) offsetVertex) =
        { liftWords .glsl110 {} offsetVertex with
          preshader := (Preshader.decode emptyPreshader.tail).value } ∧
      ∃ symbols, (Symbol.table boneTable.tail 0xFFFE0101).value = some symbols ∧
        liftWords .glsl110 {} (insertWords 11 (commentUnit boneTable) offsetVertex) =
          { liftWords .glsl110 {} offsetVertex with symbols := symbols } := by
  have clean : (liftWords .glsl110 {} offsetVertex).errors = [] := by decide +kernel
  have hstarts : (unitsOf {} offsetVertex).map Visit.start = [1, 7, 11, 14] := by decide +kernel
  have hmove : 11 ∈ (unitsOf {} offsetVertex).map Visit.start := by
    rw [hstarts]
    decide
  obtain ⟨v, hv, hstart⟩ := List.mem_map.mp hmove
  have hall := lift_ignores_comments .glsl110 {} offsetVertex clean v hv
  rw [hstart] at hall
  refine ⟨clean, (hall [1, 2, 3] (by decide)).1 ?_, ?_, ?_⟩
  · intro id word rest h
    obtain ⟨rfl, -⟩ := List.cons.inj h
    decide
  · exact (hall emptyPreshader (by decide)).2.1 _ _ rfl (by decide +kernel) (by decide +kernel)
  · exact (hall boneTable (by decide)).2.2 _ _ _ rfl rfl (by decide +kernel) (by decide +kernel)

end ShaderLift
