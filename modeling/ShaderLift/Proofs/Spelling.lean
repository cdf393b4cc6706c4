/-
How the names of a program are spelled, and that they can be told apart.  Nearly every name is a stem
without digits, a number, and a tail that does not go on with a digit, so cutting a name around its first
number gives the three back (`cut_numbered`).  The stem tells what the name stands for.

Registers are told apart by their names with two exceptions (`Homonyms`): all depth outputs are spelled
the same, and so are the rasterizer outputs that have no spelling of their own.  Names of packed
constants and arrays, of the variables passed between stages and some fixed words come in families, and
these differ in their stems or tails, so that homonyms stay the only exception (`Name.eq_or_homonyms`).
-/
import Mathlib.Data.List.TakeWhile
import ShaderLift.Glsl.Declaration

namespace ShaderLift

variable {r x : Register}

/-! ### Texts around a number -/

def cut (text : String) : List Char × List Char × List Char :=
  let rest := text.toList.dropWhile fun c => !c.isDigit
  (text.toList.takeWhile fun c => !c.isDigit, rest.takeWhile Char.isDigit, rest.dropWhile Char.isDigit)

theorem isDigit_of_mem_toString {n : Nat} {c : Char} (h : c ∈ (toString n).toList) :
    c.isDigit = true := by
  have hdigits : (toString n).toList = Nat.toDigits 10 n := Nat.toList_repr
  rw [hdigits] at h
  exact Nat.isDigit_of_mem_toDigits (by decide) (by decide) h

theorem toString_ne_nil (n : Nat) : (toString n).toList ≠ [] := by
  have hdigits : (toString n).toList = Nat.toDigits 10 n := Nat.toList_repr
  rw [hdigits]
  exact Nat.toDigits_ne_nil

theorem toString_injective {n m : Nat} (h : (toString n).toList = (toString m).toList) : n = m := by
  have hdigits : Nat.toDigits 10 n = Nat.toDigits 10 m :=
    Nat.toList_repr.symm.trans (h.trans Nat.toList_repr)
  have hread := congrArg (fun digits => Nat.ofDigitChars 10 digits 0) hdigits
  simpa using hread

def Digitless (text : String) : Prop := ∀ c ∈ text.toList, c.isDigit = false

instance (text : String) : Decidable (Digitless text) :=
  decidable_of_iff ((text.toList.all fun c => !c.isDigit) = true) (by simp [Digitless])

theorem Digitless.append {a b : String} (ha : Digitless a) (hb : Digitless b) : Digitless (a ++ b) := by
  intro c hc
  rw [String.toList_append, List.mem_append] at hc
  rcases hc with hc | hc
  · exact ha c hc
  · exact hb c hc

theorem cut_digitless {stem : String} (h : Digitless stem) : cut stem = (stem.toList, [], []) := by
  have hall : ∀ c ∈ stem.toList, (!c.isDigit) = true := fun c hc => by rw [h c hc]; rfl
  have hnone : stem.toList.dropWhile (fun c => !c.isDigit) = [] := List.dropWhile_eq_nil_iff.mpr hall
  unfold cut
  rw [List.takeWhile_eq_self_iff.mpr hall, hnone]
  rfl

theorem cut_numbered {stem tail : String} (hstem : Digitless stem)
    (htail : tail.toList.head?.any Char.isDigit = false) (n : Nat) :
    cut (stem ++ toString n ++ tail) = (stem.toList, (toString n).toList, tail.toList) := by
  have hall : ∀ c ∈ stem.toList, (!c.isDigit) = true := fun c hc => by rw [hstem c hc]; rfl
  have hdigits : ∀ c ∈ (toString n).toList, c.isDigit = true := fun c => isDigit_of_mem_toString
  have hfirst : ∀ (rest : List Char), ((toString n).toList ++ rest).takeWhile (fun c => !c.isDigit) = [] ∧
      ((toString n).toList ++ rest).dropWhile (fun c => !c.isDigit) = (toString n).toList ++ rest := by
    intro rest
    obtain ⟨d, ds, hds⟩ := List.exists_cons_of_ne_nil (toString_ne_nil n)
    have hd : d.isDigit = true := hdigits d (hds ▸ List.mem_cons_self)
    rw [hds]
    simp [hd]
  have hlast : tail.toList.takeWhile Char.isDigit = [] ∧
      tail.toList.dropWhile Char.isDigit = tail.toList := by
    cases htext : tail.toList with
    | nil => exact ⟨rfl, rfl⟩
    | cons c cs =>
      have hc : c.isDigit = false := by simpa [htext] using htail
      simp [hc]
  unfold cut
  simp only [String.toList_append, List.append_assoc]
  rw [List.takeWhile_append_of_pos hall, List.dropWhile_append_of_pos hall, (hfirst _).1, (hfirst _).2,
    List.takeWhile_append_of_pos hdigits, List.dropWhile_append_of_pos hdigits, hlast.1, hlast.2,
    List.append_nil, List.append_nil]

theorem cut_ends (stem : String) (hstem : Digitless stem) (n : Nat) :
    cut (stem ++ toString n) = (stem.toList, (toString n).toList, []) := by
  have h : cut (stem ++ toString n ++ "") = (stem.toList, (toString n).toList, []) :=
    cut_numbered hstem rfl n
  rwa [String.append_empty] at h

theorem cut_pair {stem : String} (hstem : Digitless stem) (n m : Nat) :
    cut (stem ++ toString n ++ ("_" ++ toString m)) =
      (stem.toList, (toString n).toList, '_' :: (toString m).toList) := by
  have htail : ("_" ++ toString m).toList = '_' :: (toString m).toList := by
    rw [String.toList_append]
    rfl
  rw [cut_numbered hstem (by rw [htail]; rfl), htail]

theorem number_of_cut {stem stem' tail tail' : List Char} {n m : Nat}
    (h : (stem, (toString n).toList, tail) = (stem', (toString m).toList, tail')) : n = m ∧ tail = tail' :=
  ⟨toString_injective (congrArg (·.2.1) h), congrArg (·.2.2) h⟩

/-! ### Registers -/

/-- The letters before the number of a register; registers of some files have no number. -/
def RegisterFile.letters? (sh : Shader) : RegisterFile → Option String
  | .temp => some "r"
  | .input => some "v"
  | .const => some "c"
  | .address => some (if sh.isVertex then "a" else "t")
  | .attrOut => some "oD"
  | .texCoordOut => some (if sh.isVertex && sh.atLeast 3 0 then "o" else "oT")
  | .constInt => some "i"
  | .colorOut => some "oC"
  | .sampler => some "s"
  | .constBool => some "b"
  | .label => some "l"
  | .predicate => some "p"
  | _ => none

def RegisterFile.ofLetters? : String → Option RegisterFile
  | "r" => some .temp
  | "v" => some .input
  | "c" => some .const
  | "a" | "t" => some .address
  | "oD" => some .attrOut
  | "o" | "oT" => some .texCoordOut
  | "i" => some .constInt
  | "oC" => some .colorOut
  | "s" => some .sampler
  | "b" => some .constBool
  | "l" => some .label
  | "p" => some .predicate
  | _ => none

section Registers

variable {sh : Shader} {r x : Register} {f g : RegisterFile} {letters : String}

theorem RegisterFile.ofLetters?_letters? (h : f.letters? sh = some letters) :
    ofLetters? letters = some f := by
  cases f <;> simp only [letters?, Option.some.injEq, reduceCtorEq] at h
  case address => subst h; cases sh.isVertex <;> rfl
  case texCoordOut => subst h; cases sh.isVertex && sh.atLeast 3 0 <;> rfl
  all_goals subst h; rfl

theorem RegisterFile.digitless_letters? (h : f.letters? sh = some letters) : Digitless letters := by
  cases f <;> simp only [letters?, Option.some.injEq, reduceCtorEq] at h
  case address => subst h; cases sh.isVertex <;> decide
  case texCoordOut => subst h; cases sh.isVertex && sh.atLeast 3 0 <;> decide
  all_goals subst h; decide

theorem Register.spelling?_of_letters? (h : r.file.letters? sh = some letters) :
    r.spelling? sh = some (letters ++ toString r.number) := by
  obtain ⟨file, number⟩ := r
  cases file <;> simp only [RegisterFile.letters?, Option.some.injEq, reduceCtorEq] at h
  all_goals subst h; rfl

/-- The spellings of registers without a number; the last one is that of registers that have none. -/
def Register.unnumbered : List String :=
  ["oPos", "oFog", "oPts", "oDepth", "aL", "vPos", "vFace", "???"]

theorem Register.mem_unnumbered (h : r.file.letters? sh = none) :
    (r.spelling? sh).getD "???" ∈ unnumbered := by
  obtain ⟨file, number⟩ := r
  cases file <;> simp only [RegisterFile.letters?, reduceCtorEq] at h
  case rastOut => unfold spelling?; dsimp only; split_ifs <;> decide
  case misc => unfold spelling?; dsimp only; split_ifs <;> decide
  all_goals
    dsimp only [spelling?, Option.getD_some, Option.getD_none]
    decide

theorem Register.digitless_of_letters? (h : r.file.letters? sh = none) :
    Digitless ((r.spelling? sh).getD "???") := by
  have hall : ∀ text ∈ unnumbered, Digitless text := by decide
  exact hall _ (mem_unnumbered h)

def Shader.mark (sh : Shader) : String := sh.shortName ++ "_"

theorem Shader.digitless_mark (sh : Shader) : Digitless sh.mark := by
  unfold mark shortName
  cases sh.stage <;> decide

theorem Register.cut_name (h : r.file.letters? sh = some letters) :
    cut (r.name sh) = (sh.mark.toList ++ letters.toList, (toString r.number).toList, []) := by
  have hname : r.name sh = sh.mark ++ letters ++ toString r.number := by
    rw [name, spelling?_of_letters? h, Shader.mark]
    exact String.append_assoc.symm
  have hstem : Digitless (sh.mark ++ letters) :=
    sh.digitless_mark.append (RegisterFile.digitless_letters? h)
  rw [hname, cut_ends _ hstem, String.toList_append]

theorem Register.cut_name_of_none (h : r.file.letters? sh = none) :
    cut (r.name sh) = (sh.mark.toList ++ ((r.spelling? sh).getD "???").toList, [], []) := by
  have hstem : Digitless (sh.mark ++ (r.spelling? sh).getD "???") :=
    sh.digitless_mark.append (digitless_of_letters? h)
  rw [name, ← Shader.mark, cut_digitless hstem, String.toList_append]

theorem Register.eq_of_name_eq (h : r.file.letters? sh = some letters)
    (heq : x.name sh = r.name sh) : x = r := by
  have hcut := congrArg cut heq
  rw [cut_name h] at hcut
  cases hx : x.file.letters? sh with
  | none =>
    rw [cut_name_of_none hx] at hcut
    injection hcut with _ hrest
    injection hrest with hnumber _
    exact absurd hnumber.symm (toString_ne_nil r.number)
  | some others =>
    rw [cut_name hx] at hcut
    injection hcut with hstem hrest
    injection hrest with hnumber _
    have hletters : others = letters := String.toList_inj.mp (List.append_cancel_left hstem)
    have hfile : x.file = r.file := by
      have hfiles := RegisterFile.ofLetters?_letters? hx
      rw [hletters, RegisterFile.ofLetters?_letters? h] at hfiles
      exact (Option.some.inj hfiles).symm
    obtain ⟨xfile, xnumber⟩ := x
    obtain ⟨rfile, rnumber⟩ := r
    obtain rfl : xfile = rfile := hfile
    obtain rfl : xnumber = rnumber := toString_injective hnumber
    rfl

/-- Without letters there is no number either, and the spelling is all that is left of the name. -/
theorem Register.spelling_eq_of_name_eq (hr : r.file.letters? sh = none) (hx : x.file.letters? sh = none)
    (heq : r.name sh = x.name sh) : (r.spelling? sh).getD "???" = (x.spelling? sh).getD "???" := by
  have hcut := congrArg cut heq
  rw [cut_name_of_none hr, cut_name_of_none hx] at hcut
  injection hcut with hstem _
  exact String.toList_inj.mp (List.append_cancel_left hstem)

def Register.ofSpelling? : String → Option Register
  | "oPos" => some ⟨.rastOut, positionOut⟩
  | "oFog" => some ⟨.rastOut, fogOut⟩
  | "oPts" => some ⟨.rastOut, pointSizeOut⟩
  | "vPos" => some ⟨.misc, miscPosition⟩
  | "vFace" => some ⟨.misc, miscFace⟩
  | _ => none

theorem Register.ofSpelling?_spelling? {text : String} (hletters : r.file.letters? sh = none)
    (hdepth : r.file ≠ .depthOut) (hloop : r.file ≠ .loop) (h : r.spelling? sh = some text) :
    ofSpelling? text = some r := by
  obtain ⟨file, number⟩ := r
  cases file <;> simp only [RegisterFile.letters?, reduceCtorEq] at hletters
  case depthOut => exact absurd rfl hdepth
  case loop => exact absurd rfl hloop
  case rastOut | misc =>
    unfold spelling? at h
    dsimp only at h
    split_ifs at h <;> cases h <;> subst number <;> rfl
  all_goals cases h

end Registers

/-- Registers that have the same name: the depth outputs, and the rasterizer outputs that hold neither
position, fog nor point size. -/
inductive Homonyms : Register → Register → Prop
  | depth (m n : Nat) : Homonyms ⟨.depthOut, m⟩ ⟨.depthOut, n⟩
  | rasterizer {m n : Nat} (hm : Register.pointSizeOut < m) (hn : Register.pointSizeOut < n) :
    Homonyms ⟨.rastOut, m⟩ ⟨.rastOut, n⟩

theorem Homonyms.name_eq (h : Homonyms r x) (sh : Shader) : r.name sh = x.name sh := by
  have hunnamed : ∀ n, Register.pointSizeOut < n →
      Register.name sh ⟨.rastOut, n⟩ = sh.shortName ++ "_" ++ "???" := by
    intro n hn
    have hnone : Register.spelling? sh ⟨.rastOut, n⟩ = none := by
      simp only [Register.pointSizeOut] at hn
      simp only [Register.spelling?, Register.positionOut, Register.fogOut, Register.pointSizeOut]
      rw [if_neg (by omega), if_neg (by omega), if_neg (by omega)]
    rw [Register.name, hnone]
    rfl
  cases h with
  | depth m n => rfl
  | rasterizer hm hn => rw [hunnamed _ hm, hunnamed _ hn]

theorem Homonyms.letters?_eq_none (h : Homonyms r x) (sh : Shader) : x.file.letters? sh = none := by
  cases h <;> rfl

def RegisterFile.isNamed : RegisterFile → Bool
  | .temp | .input | .const | .address | .rastOut | .attrOut | .texCoordOut | .constInt | .colorOut
  | .depthOut | .sampler | .constBool | .predicate => true
  | _ => false

/-- What the spelling of a declared register without a number tells about it. -/
def Register.IsSpelled (r : Register) : String → Prop
  | "oPos" => r = ⟨.rastOut, positionOut⟩
  | "oFog" => r = ⟨.rastOut, fogOut⟩
  | "oPts" => r = ⟨.rastOut, pointSizeOut⟩
  | "oDepth" => r.file = .depthOut
  | _ => r.file = .rastOut ∧ pointSizeOut < r.number

theorem Register.isSpelled_spelling? {sh : Shader} (hnamed : r.file.isNamed = true)
    (h : r.file.letters? sh = none) : r.IsSpelled ((r.spelling? sh).getD "???") := by
  obtain ⟨file, number⟩ := r
  cases file <;> simp only [RegisterFile.letters?, RegisterFile.isNamed, reduceCtorEq] at h hnamed
  case depthOut => exact (rfl : RegisterFile.depthOut = .depthOut)
  case rastOut =>
    match number with
    | 0 => exact (rfl : Register.mk .rastOut 0 = ⟨.rastOut, 0⟩)
    | 1 => exact (rfl : Register.mk .rastOut 1 = ⟨.rastOut, 1⟩)
    | 2 => exact (rfl : Register.mk .rastOut 2 = ⟨.rastOut, 2⟩)
    | n + 3 => exact (⟨rfl, Nat.lt_add_left n (Nat.lt_succ_self 2)⟩ :
        RegisterFile.rastOut = .rastOut ∧ pointSizeOut < n + 3)

/-- Registers without a number and with one spelling are the same, homonyms apart. -/
theorem Register.IsSpelled.eq_or_homonyms {text : String} (hr : r.IsSpelled text)
    (hx : x.IsSpelled text) : r = x ∨ Homonyms r x := by
  obtain ⟨rfile, m⟩ := r
  obtain ⟨xfile, n⟩ := x
  unfold IsSpelled at hr hx
  split at hr
  · exact .inl (hr.trans hx.symm)
  · exact .inl (hr.trans hx.symm)
  · exact .inl (hr.trans hx.symm)
  · obtain rfl : rfile = .depthOut := hr
    obtain rfl : xfile = .depthOut := hx
    exact .inr (.depth m n)
  next hpos hfog hpts hdepth =>
    have hx : xfile = .rastOut ∧ pointSizeOut < n := by
      split at hx
      · exact absurd rfl hpos
      · exact absurd rfl hfog
      · exact absurd rfl hpts
      · exact absurd rfl hdepth
      · exact hx
    obtain ⟨rfl, hm⟩ := hr
    obtain ⟨rfl, hn⟩ := hx
    exact .inr (.rasterizer hm hn)

theorem Register.eq_or_homonyms {sh : Shader} (hr : r.file.isNamed = true)
    (hx : x.file.isNamed = true) (h : r.name sh = x.name sh) : r = x ∨ Homonyms r x := by
  cases hletters : x.file.letters? sh with
  | some letters => exact .inl (eq_of_name_eq hletters h)
  | none =>
    cases hletters' : r.file.letters? sh with
    | some letters => exact .inl (eq_of_name_eq hletters' h.symm).symm
    | none =>
      have hspelled := isSpelled_spelling? hr hletters'
      rw [spelling_eq_of_name_eq hletters' hletters h] at hspelled
      exact hspelled.eq_or_homonyms (isSpelled_spelling? hx hletters)

theorem Usage.eq_of_code? {u v : Usage} {code : Nat} (hu : u.code? = some code)
    (hv : v.code? = some code) : u = v := by
  have hcode : ∀ {w : Usage}, w.code? = some code → ofCode? code = some w := by
    intro w hw
    cases w <;> cases hw <;> rfl
  exact Option.some.inj ((hcode hu).symm.trans (hcode hv))

theorem Usage.eq_unknown {u : Usage} (h : u.code? = none) : u = .unknown := by
  cases u <;> first | rfl | cases h

namespace Glsl

/-! ### Names -/

/-- What the names stand for that a program introduces outside of functions. -/
inductive Name where
  | register (r : Register)
  | packed (kind : ConstantKind)
  | constArray (base count : Nat)
  | arrayBase (base : Nat)
  | bumpMatrix (stage : Nat)
  | bumpLuminance (stage : Nat)
  /-- A variable that is passed between stages. -/
  | varying (usage : Usage) (index : Nat)
  /-- A name that is the same in all programs. -/
  | word (text : String)
  deriving Repr, DecidableEq

namespace Name

def text (sh : Shader) : Name → String
  | .register r => r.name sh
  | .packed kind => (Ident.packed kind).text sh
  | .constArray base count => (Ident.constArray base count).text sh
  | .arrayBase base => (Ident.arrayBase base).text sh
  | .bumpMatrix stage => (Ident.bumpMatrix stage).text sh
  | .bumpLuminance stage => (Ident.bumpLuminance stage).text sh
  | .varying usage index => (Varying.mk usage index false).text
  | .word text => text

def words : List String :=
  ["vposFlip", "vpFlip", "FLT_MAX", "LIT", "TEXM3X3SPEC_reflection", "texture2DGrad",
    "texture2DProjGrad", "textureCubeGrad", "texture3DGrad", "texture2DLod", "textureCubeLod",
    "texture3DLod"]

def Known : Name → Prop
  | .register r => r.file.isNamed = true
  | .word text => text ∈ words
  | _ => True

inductive Family where
  | register
  | packed
  | constArray
  | arrayBase
  | bumpMatrix
  | bumpLuminance
  | varying
  | word
  deriving DecidableEq

def family : Name → Family
  | .register _ => .register
  | .packed _ => .packed
  | .constArray _ _ => .constArray
  | .arrayBase _ => .arrayBase
  | .bumpMatrix _ => .bumpMatrix
  | .bumpLuminance _ => .bumpLuminance
  | .varying _ _ => .varying
  | .word _ => .word

/-- The family of a name by its spelling, cut around the first number. -/
def familyOf : List Char × List Char × List Char → Family
  | (stem, _, tail) =>
    if stem.take 3 = "io_".toList then .varying
    else if stem = "ARRAYBASE_".toList then .arrayBase
    else if stem[2]? = some '_' then
      if stem.drop 3 = "const_array_".toList then .constArray
      else if "uniforms_".toList.isPrefixOf (stem.drop 3) then .packed
      else if tail = "_texbem".toList then .bumpMatrix
      else if tail = "_texbeml".toList then .bumpLuminance
      else .register
    else .word

section Spelling

variable (sh : Shader)

theorem familyOf_mark (rest digits tail : List Char) :
    familyOf (sh.mark.toList ++ rest, digits, tail) =
      if rest = "const_array_".toList then .constArray
      else if "uniforms_".toList.isPrefixOf rest then .packed
      else if tail = "_texbem".toList then .bumpMatrix
      else if tail = "_texbeml".toList then .bumpLuminance
      else .register := by
  unfold Shader.mark Shader.shortName
  cases sh.stage <;> rfl

theorem text_constArray (base count : Nat) :
    text sh (.constArray base count) =
      sh.mark ++ "const_array_" ++ toString base ++ ("_" ++ toString count) := by
  have hstart : "_const_array_" = "_" ++ "const_array_" := rfl
  simp only [text, Ident.text, hstart, Shader.mark, String.append_assoc]
  rfl

theorem cut_constArray (base count : Nat) :
    cut (text sh (.constArray base count)) =
      (sh.mark.toList ++ "const_array_".toList, (toString base).toList,
        '_' :: (toString count).toList) := by
  have hstem : Digitless (sh.mark ++ "const_array_") := sh.digitless_mark.append (by decide)
  rw [text_constArray, cut_pair hstem, String.toList_append]

theorem cut_arrayBase (base : Nat) :
    cut (text sh (.arrayBase base)) = ("ARRAYBASE_".toList, (toString base).toList, []) :=
  cut_ends "ARRAYBASE_" (by decide) base

theorem cut_sampler (stage : Nat) {tail : String} (htail : tail.toList.head?.any Char.isDigit = false) :
    cut ((sampler stage).name sh ++ tail) =
      (sh.mark.toList ++ "s".toList, (toString stage).toList, tail.toList) := by
  have hname : (sampler stage).name sh = sh.mark ++ "s" ++ toString stage := by
    rw [Shader.mark, String.append_assoc]
    rfl
  have hstem : Digitless (sh.mark ++ "s") := sh.digitless_mark.append (by decide)
  rw [hname, cut_numbered hstem htail, String.toList_append]

theorem cut_bumpMatrix (stage : Nat) : cut (text sh (.bumpMatrix stage)) =
    (sh.mark.toList ++ "s".toList, (toString stage).toList, "_texbem".toList) :=
  cut_sampler sh stage rfl

theorem cut_bumpLuminance (stage : Nat) : cut (text sh (.bumpLuminance stage)) =
    (sh.mark.toList ++ "s".toList, (toString stage).toList, "_texbeml".toList) :=
  cut_sampler sh stage rfl

theorem text_varying {usage : Usage} {code : Nat} (h : usage.code? = some code) (index : Nat) :
    text sh (.varying usage index) = "io_" ++ toString code ++ ("_" ++ toString index) := by
  show Varying.text _ = _
  rw [Varying.text, h, String.append_assoc]
  simp only [String.append_assoc]
  rfl

theorem cut_varying {usage : Usage} {code : Nat} (h : usage.code? = some code) (index : Nat) :
    cut (text sh (.varying usage index)) =
      ("io_".toList, (toString code).toList, '_' :: (toString index).toList) := by
  rw [text_varying sh h, cut_pair (by decide)]

theorem cut_unknown (index : Nat) :
    cut (text sh (.varying .unknown index)) = ("io_unknown_".toList, (toString index).toList, []) :=
  cut_ends "io_unknown_" (by decide) index

theorem familyOf_register (r : Register) : familyOf (cut (r.name sh)) = .register := by
  cases hletters : r.file.letters? sh with
  | some letters =>
    -- the letters tell the file, and with that themselves
    have hfile := RegisterFile.ofLetters?_letters? hletters
    rw [Register.cut_name hletters, familyOf_mark]
    unfold RegisterFile.ofLetters? at hfile
    split at hfile <;> first | rfl | cases hfile
  | none =>
    have hall : ∀ text ∈ Register.unnumbered,
        familyOf (sh.mark.toList ++ text.toList, [], []) = .register := by
      simp only [familyOf_mark]
      decide
    rw [Register.cut_name_of_none hletters]
    exact hall _ (Register.mem_unnumbered hletters)

theorem familyOf_text {n : Name} (h : n.Known) : familyOf (cut (n.text sh)) = n.family := by
  cases n with
  | register r => exact familyOf_register sh r
  | packed kind =>
    have hpacked : ∀ stage : Stage,
        familyOf (cut (stage.shortName ++ "_uniforms_" ++ constantType kind)) = .packed := by
      intro stage
      cases stage <;> cases kind <;> decide
    exact hpacked sh.stage
  | constArray base count => rw [cut_constArray, familyOf_mark]; rfl
  | arrayBase base => rw [cut_arrayBase]; rfl
  | bumpMatrix stage => rw [cut_bumpMatrix, familyOf_mark]; rfl
  | bumpLuminance stage => rw [cut_bumpLuminance, familyOf_mark]; rfl
  | varying usage index =>
    cases hcode : usage.code? with
    | some code => rw [cut_varying sh hcode]; rfl
    | none =>
      rw [Usage.eq_unknown hcode, cut_unknown]
      rfl
  | word text =>
    have hwords : ∀ text ∈ words, familyOf (cut text) = .word := by decide
    exact hwords text h

end Spelling

theorem constArray_injective {sh : Shader} {base count base' count' : Nat}
    (h : text sh (.constArray base count) = text sh (.constArray base' count')) :
    base = base' ∧ count = count' := by
  have hcut := congrArg cut h
  rw [cut_constArray, cut_constArray] at hcut
  obtain ⟨hbase, htail⟩ := number_of_cut hcut
  exact ⟨hbase, toString_injective (List.tail_eq_of_cons_eq htail)⟩

theorem eq_or_homonyms {sh : Shader} {n m : Name} (hn : n.Known) (hm : m.Known)
    (h : n.text sh = m.text sh) :
    n = m ∨ ∃ r x, n = .register r ∧ m = .register x ∧ Homonyms r x := by
  have hcut := congrArg cut h
  -- The family can be read off the spelling, so only names of one family are left to compare.
  have hfamily : n.family = m.family := by
    rw [← familyOf_text sh hn, ← familyOf_text sh hm, hcut]
  cases n with
  | register r =>
    cases m <;> cases hfamily
    next x => exact (Register.eq_or_homonyms hn hm h).imp (congrArg _) fun hsame => ⟨r, x, rfl, rfl, hsame⟩
  | packed kind =>
    cases m <;> cases hfamily
    next other =>
      left
      have htype : constantType kind = constantType other :=
        String.toList_inj.mp (List.append_cancel_left (by
          have hlist := congrArg String.toList h
          simpa only [text, Ident.text, String.toList_append] using hlist))
      cases kind <;> cases other <;> first | rfl | exact absurd htype (by decide)
  | constArray base count =>
    cases m <;> cases hfamily
    next base' count' =>
      obtain ⟨rfl, rfl⟩ := constArray_injective h
      exact .inl rfl
  | arrayBase base =>
    cases m <;> cases hfamily
    next base' =>
      rw [cut_arrayBase, cut_arrayBase] at hcut
      exact .inl (congrArg _ (number_of_cut hcut).1)
  | bumpMatrix stage =>
    cases m <;> cases hfamily
    next stage' =>
      rw [cut_bumpMatrix, cut_bumpMatrix] at hcut
      exact .inl (congrArg _ (number_of_cut hcut).1)
  | bumpLuminance stage =>
    cases m <;> cases hfamily
    next stage' =>
      rw [cut_bumpLuminance, cut_bumpLuminance] at hcut
      exact .inl (congrArg _ (number_of_cut hcut).1)
  | varying usage index =>
    cases m <;> cases hfamily
    next usage' index' =>
      cases hcode : usage.code? with
      | some code =>
        cases hcode' : usage'.code? with
        | some code' =>
          rw [cut_varying sh hcode, cut_varying sh hcode'] at hcut
          obtain ⟨rfl, htail⟩ := number_of_cut hcut
          rw [toString_injective (List.tail_eq_of_cons_eq htail), Usage.eq_of_code? hcode hcode']
          exact .inl rfl
        | none =>
          rw [cut_varying sh hcode, Usage.eq_unknown hcode', cut_unknown] at hcut
          injection hcut with hstem _
          exact absurd hstem (by decide)
      | none =>
        cases hcode' : usage'.code? with
        | some code' =>
          rw [cut_varying sh hcode', Usage.eq_unknown hcode, cut_unknown] at hcut
          injection hcut with hstem _
          exact absurd hstem (by decide)
        | none =>
          rw [Usage.eq_unknown hcode, Usage.eq_unknown hcode', cut_unknown, cut_unknown] at hcut
          rw [Usage.eq_unknown hcode, Usage.eq_unknown hcode', (number_of_cut hcut).1]
          exact .inl rfl
  | word text =>
    cases m <;> cases hfamily
    next text' => exact .inl (congrArg _ h)

end Name

open Name in
/-- **Names of registers.**  Two registers that have a spelling have different names, the depth outputs and
the loop counters apart.  No register has the name of an array of constants, and arrays have the same name
only if they have the same registers. -/
theorem register_names_injective (sh : Shader) :
    (∀ r x : Register, (r.spelling? sh).isSome = true → (x.spelling? sh).isSome = true →
      r.file ≠ .depthOut → r.file ≠ .loop → x.file ≠ .depthOut → x.file ≠ .loop → r ≠ x →
        r.name sh ≠ x.name sh) ∧
      (∀ (r : Register) (base count : Nat), r.name sh ≠ (Ident.constArray base count).text sh) ∧
      (∀ (r : Register) (kind : ConstantKind), r.name sh ≠ (Ident.packed kind).text sh) ∧
      ∀ base count base' count' : Nat,
        (Ident.constArray base count).text sh = (Ident.constArray base' count').text sh →
          base = base' ∧ count = count' := by
  have hother : ∀ (r : Register) (n : Name), n.Known → n.family ≠ .register → r.name sh ≠ n.text sh := by
    intro r n hn hfamily heq
    rw [← familyOf_text sh hn, ← heq, familyOf_register] at hfamily
    exact hfamily rfl
  refine ⟨fun r x hr hx hrdepth hrloop hxdepth hxloop hne heq => hne ?_,
    fun r base count => hother r (.constArray base count) trivial (by simp [family]),
    fun r kind => hother r (.packed kind) trivial (by simp [family]),
    fun base count base' count' h => constArray_injective h⟩
  cases hletters : x.file.letters? sh with
  | some letters => exact Register.eq_of_name_eq hletters heq
  | none =>
    cases hletters' : r.file.letters? sh with
    | some letters => exact (Register.eq_of_name_eq hletters' heq.symm).symm
    | none =>
      obtain ⟨text, htext⟩ := Option.isSome_iff_exists.mp hr
      obtain ⟨text', htext'⟩ := Option.isSome_iff_exists.mp hx
      obtain rfl : text = text' := by
        simpa only [htext, htext', Option.getD_some] using
          Register.spelling_eq_of_name_eq hletters' hletters heq
      have hsame := Register.ofSpelling?_spelling? hletters' hrdepth hrloop htext
      rw [Register.ofSpelling?_spelling? hletters hxdepth hxloop htext'] at hsame
      exact (Option.some.inj hsame).symm

/-- The letters of one register may begin with those of another. -/
theorem register_names_injective_vs30 :
    Register.name ⟨.vertex, ⟨3, 0⟩⟩ ⟨.texCoordOut, 14⟩ ≠ Register.name ⟨.vertex, ⟨3, 0⟩⟩ ⟨.colorOut, 14⟩ ∧
      Register.name ⟨.pixel, ⟨3, 0⟩⟩ ⟨.input, 0⟩ ≠ Register.name ⟨.pixel, ⟨3, 0⟩⟩ ⟨.misc, 0⟩ :=
  ⟨(register_names_injective ⟨.vertex, ⟨3, 0⟩⟩).1 _ _ rfl rfl (by decide) (by decide) (by decide) (by decide)
      (by decide),
    (register_names_injective ⟨.pixel, ⟨3, 0⟩⟩).1 _ _ rfl rfl (by decide) (by decide) (by decide) (by decide)
      (by decide)⟩

end Glsl

end ShaderLift
