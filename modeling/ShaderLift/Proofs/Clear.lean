/-
Text without the names of the fixed-function pipeline.  These names all start with `gl_`, and what comes
after that is one of six stems.  A text is clear if no underscore in it is followed by a stem, not even by
the start of one that the text ends with.  Text put together from clear pieces is then clear as well, and
no name can come up where two pieces meet.
-/
import Mathlib.Data.List.Infix

namespace ShaderLift

/-! ### Names -/

def fixedFunctionStems : List String :=
  ["FrontColor", "FrontSecondaryColor", "FogFragCoord", "TexCoord", "Color", "SecondaryColor"]

def fixedFunctionNames : List String := fixedFunctionStems.map ("gl_" ++ ·)

example : fixedFunctionNames =
    ["gl_FrontColor", "gl_FrontSecondaryColor", "gl_FogFragCoord", "gl_TexCoord", "gl_Color",
      "gl_SecondaryColor"] := by
  decide

/-! ### Clear text -/

/-- Whether neither a stem starts with some characters nor they with a stem. -/
def awayFromStems (cs : List Char) : Bool :=
  fixedFunctionStems.all fun stem => !stem.toList.isPrefixOf cs && !cs.isPrefixOf stem.toList

/-- Whether no underscore is followed by a stem, or by what could become one. -/
def isClear : List Char → Bool
  | [] => true
  | c :: cs => (c != '_' || awayFromStems cs) && isClear cs

/-- Text in which no name of the fixed-function pipeline comes up, whatever stands around it. -/
def Clear (text : String) : Prop := isClear text.toList = true

instance (text : String) : Decidable (Clear text) := inferInstanceAs (Decidable (_ = true))

theorem awayFromStems_append {a : List Char} (h : awayFromStems a = true) (b : List Char) :
    awayFromStems (a ++ b) = true := by
  simp only [awayFromStems, List.all_eq_true, Bool.and_eq_true, Bool.not_eq_true',
    Bool.eq_false_iff, ne_eq, List.isPrefixOf_iff_prefix] at h ⊢
  intro stem hstem
  obtain ⟨hlonger, hshorter⟩ := h stem hstem
  refine ⟨fun hprefix => ?_, fun hprefix => hshorter ((List.prefix_append a b).trans hprefix)⟩
  -- of two texts that the same text starts with, one starts with the other
  rcases List.prefix_or_prefix_of_prefix hprefix (List.prefix_append a b) with h | h
  · exact hlonger h
  · exact hshorter h

theorem isClear_append {a b : List Char} (ha : isClear a = true) (hb : isClear b = true) :
    isClear (a ++ b) = true := by
  induction a with
  | nil => exact hb
  | cons c cs ih =>
    rw [isClear, Bool.and_eq_true] at ha
    rw [List.cons_append, isClear, Bool.and_eq_true]
    refine ⟨?_, ih ha.2⟩
    rcases Bool.or_eq_true _ _ ▸ ha.1 with hc | haway
    · rw [hc, Bool.true_or]
    · rw [awayFromStems_append haway, Bool.or_true]

theorem Clear.append {a b : String} (ha : Clear a) (hb : Clear b) : Clear (a ++ b) := by
  rw [Clear, String.toList_append]
  exact isClear_append ha hb

theorem Clear.lacks_name {text name : String} (h : Clear text) (hname : name ∈ fixedFunctionNames) :
    ¬ name.toList <:+: text.toList := by
  obtain ⟨stem, hstem, rfl⟩ := List.mem_map.mp hname
  intro hin
  have hunderscore : '_' :: stem.toList <:+: text.toList := by
    refine List.IsInfix.trans ⟨['g', 'l'], [], ?_⟩ hin
    rw [String.toList_append, List.append_nil]
    rfl
  unfold Clear at h
  generalize text.toList = cs at h hunderscore
  induction cs with
  | nil => cases List.infix_nil.mp hunderscore
  | cons c cs ih =>
    rw [isClear, Bool.and_eq_true] at h
    rcases List.infix_cons_iff.mp hunderscore with hprefix | hinfix
    · obtain ⟨rfl, hstart⟩ := List.cons_prefix_cons.mp hprefix
      have haway : awayFromStems cs = true := by simpa using h.1
      have hno := List.all_eq_true.mp haway stem hstem
      rw [List.isPrefixOf_iff_prefix.mpr hstart] at hno
      cases hno
    · exact ih h.2 hinfix

theorem infix_or_infix_of_append_cons {n u v : List Char} {c : Char} (hc : c ∉ n)
    (h : n <:+: u ++ c :: v) : n <:+: u ∨ n <:+: v := by
  obtain ⟨before, after, heq⟩ := h
  rw [List.append_assoc] at heq
  rcases List.append_eq_append_iff.mp heq with ⟨rest, rfl, hrest⟩ | ⟨rest, rfl, hrest⟩
  · -- it starts before the character, so it ends there as well
    rcases List.append_eq_append_iff.mp hrest with ⟨more, rfl, -⟩ | ⟨more, rfl, hmore⟩
    · exact .inl ⟨before, more, List.append_assoc ..⟩
    · cases more with
      | nil => exact .inl ⟨before, [], by simp⟩
      | cons d more =>
        cases hmore
        exact absurd (List.mem_append_right rest List.mem_cons_self) hc
  · cases rest with
    | nil =>
      cases n with
      | nil => exact .inl (List.nil_infix)
      | cons d n =>
        cases hrest
        exact absurd List.mem_cons_self hc
    | cons d rest =>
      cases hrest
      exact .inr ⟨rest, after, List.append_assoc ..⟩

/-! ### Pieces -/

theorem clear_ofList {cs : List Char} (h : isClear cs = true) : Clear (String.ofList cs) := by
  rwa [Clear, String.toList_ofList]

theorem Clear.append_ofList {text : String} {cs : List Char} (ht : Clear text)
    (h : isClear cs = true) : Clear (text ++ String.ofList cs) :=
  ht.append (clear_ofList h)

theorem clear_of_forall_ne {text : String} (h : ∀ c ∈ text.toList, c ≠ '_') : Clear text := by
  unfold Clear
  generalize text.toList = cs at h
  induction cs with
  | nil => rfl
  | cons c cs ih =>
    obtain ⟨hc, hcs⟩ := List.forall_mem_cons.mp h
    rw [isClear, ih hcs, bne_iff_ne.mpr hc]
    rfl

theorem clear_replicate {c : Char} (h : c ≠ '_') (n : Nat) :
    Clear (String.ofList (List.replicate n c)) := by
  apply clear_of_forall_ne
  intro d hd
  rw [String.toList_ofList] at hd
  rw [List.eq_of_mem_replicate hd]
  exact h

theorem clear_repr (n : Nat) : Clear n.repr := by
  apply clear_of_forall_ne
  rintro c hc rfl
  rw [Nat.toList_repr] at hc
  exact absurd (Nat.isDigit_of_mem_toDigits (by decide) (by decide) hc) (by decide)

theorem awayFromStems_of_isDigit {d : Char} (h : d.isDigit = true) (ds : List Char) :
    awayFromStems (d :: ds) = true := by
  have hstems : ∀ stem ∈ fixedFunctionStems, stem.toList.head?.any (fun c => !c.isDigit) = true := by
    decide
  apply List.all_eq_true.mpr
  intro stem hstem
  have hletter := hstems stem hstem
  cases hcs : stem.toList with
  | nil =>
    rw [hcs] at hletter
    cases hletter
  | cons c cs =>
    have hne : d ≠ c := by
      rintro rfl
      simp [hcs, h] at hletter
    simp [List.isPrefixOf, hne, hne.symm]

theorem clear_underscore_repr (n : Nat) : Clear ("_" ++ n.repr) := by
  obtain ⟨d, ds, hdigits⟩ := List.exists_cons_of_ne_nil (Nat.toDigits_ne_nil (b := 10) (n := n))
  have hdigit : d.isDigit = true := by
    apply Nat.isDigit_of_mem_toDigits (b := 10) (n := n) (by decide) (by decide)
    rw [hdigits]
    exact List.mem_cons_self
  have hrepr : n.repr.toList = d :: ds := Nat.toList_repr.trans hdigits
  have htext : ("_" ++ n.repr).toList = '_' :: n.repr.toList := by
    rw [String.toList_append]
    rfl
  have hnumber : isClear n.repr.toList = true := clear_repr n
  rw [Clear, htext, isClear, hnumber, hrepr, awayFromStems_of_isDigit hdigit]
  rfl

theorem clear_intercalate {s : String} {ts : List String} (hs : Clear s) (hts : ∀ t ∈ ts, Clear t) :
    Clear (s.intercalate ts) := by
  induction ts with
  | nil => exact (by decide : Clear "")
  | cons t ts ih =>
    obtain ⟨ht, hrest⟩ := List.forall_mem_cons.mp hts
    cases ts with
    | nil => rwa [String.intercalate_singleton]
    | cons u us =>
      rw [String.intercalate_cons_of_ne_nil (List.cons_ne_nil u us)]
      exact (ht.append hs).append (ih hrest)

end ShaderLift
