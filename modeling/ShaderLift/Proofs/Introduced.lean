/-
The names that a program introduces outside of functions, read off its lines: a macro is named by the word
after `#define`, and any other declaration by the last word before the first mark that is not a blank.
What the lines of a declaration introduce is told by the declaration itself (`Decl.listing_lines`), and so
all names of a program can be listed without a look at its text (`introducedNames_sectionLines`).
-/
import ShaderLift.Proofs.Spelling
import ShaderLift.Proofs.Text

namespace ShaderLift

namespace Glsl

variable {line : List Char} (rest : String) (p : Profile) (branch : Nat) {a : List String} (sh : Shader)

/-! ### Words -/

def isMark (c : Char) : Bool := c = '=' || c = ';' || c = '[' || c = '('

/-- A text without blanks and marks that is not empty. -/
structure IsWord (text : String) : Prop where
  ne_nil : text.toList ≠ []
  blank : ∀ c ∈ text.toList, c ≠ ' '
  mark : ∀ c ∈ text.toList, isMark c = false

namespace IsWord

variable {a b : String}

theorem append (ha : IsWord a) (hb : IsWord b) : IsWord (a ++ b) := by
  constructor
  · rw [String.toList_append]
    exact List.append_ne_nil_of_left_ne_nil ha.ne_nil _
  · rw [String.toList_append]
    exact List.forall_mem_append.mpr ⟨ha.blank, hb.blank⟩
  · rw [String.toList_append]
    exact List.forall_mem_append.mpr ⟨ha.mark, hb.mark⟩

theorem of_closed (h : a.toList ≠ [] ∧ (a.toList.all fun c => c != ' ' && !isMark c) = true) :
    IsWord a := by
  simp only [List.all_eq_true, Bool.and_eq_true, bne_iff_ne, Bool.not_eq_true'] at h
  exact ⟨h.1, fun c hc => (h.2 c hc).1, fun c hc => (h.2 c hc).2⟩

theorem number (n : Nat) : IsWord (toString n) := by
  refine ⟨toString_ne_nil n, fun c hc hblank => ?_, fun c hc => ?_⟩
  · have hdigit := isDigit_of_mem_toString hc
    rw [hblank] at hdigit
    exact absurd hdigit (by decide)
  · have hdigit := isDigit_of_mem_toString hc
    cases hmark : isMark c with
    | false => rfl
    | true =>
      simp only [isMark, Bool.or_eq_true, decide_eq_true_eq] at hmark
      rcases hmark with ((rfl | rfl) | rfl) | rfl <;> exact absurd hdigit (by decide)

theorem mark_shader (sh : Shader) : IsWord sh.mark := by
  unfold Shader.mark Shader.shortName
  cases sh.stage <;> exact of_closed (by decide)

theorem name (sh : Shader) (r : Register) : IsWord (r.name sh) := by
  have hspelling : IsWord ((r.spelling? sh).getD "???") := by
    cases hletters : r.file.letters? sh with
    | some letters =>
      have hfile := RegisterFile.ofLetters?_letters? hletters
      have hword : IsWord letters := by
        unfold RegisterFile.ofLetters? at hfile
        split at hfile
        case h_15 => cases hfile
        all_goals exact of_closed (by decide)
      rw [Register.spelling?_of_letters? hletters]
      exact hword.append (number r.number)
    | none =>
      have hall : ∀ text ∈ Register.unnumbered,
          text.toList ≠ [] ∧ (text.toList.all fun c => c != ' ' && !isMark c) = true := by
        decide
      exact of_closed (hall _ (Register.mem_unnumbered hletters))
  rw [Register.name, ← Shader.mark]
  exact (mark_shader sh).append hspelling

end IsWord

theorem Name.isWord_text {n : Name} (h : n.Known) : IsWord (n.text sh) := by
  have hunderscore : IsWord "_" := .of_closed (by decide)
  cases n with
  | register r => exact .name sh r
  | packed kind =>
    have htype : IsWord ("uniforms_" ++ constantType kind) := by
      cases kind <;> exact .of_closed (by decide)
    have htext : (Name.packed kind).text sh = sh.mark ++ ("uniforms_" ++ constantType kind) := by
      have hstart : "_uniforms_" = "_" ++ "uniforms_" := rfl
      simp only [text, Ident.text, hstart, Shader.mark, String.append_assoc]
    rw [htext]
    exact (IsWord.mark_shader sh).append htype
  | constArray base count =>
    have htext : (Name.constArray base count).text sh =
        sh.mark ++ "const_array_" ++ toString base ++ ("_" ++ toString count) := text_constArray sh base count
    rw [htext]
    exact (((IsWord.mark_shader sh).append (.of_closed (by decide))).append (.number base)).append
      (hunderscore.append (.number count))
  | arrayBase base => exact IsWord.append (.of_closed (by decide)) (.number base)
  | bumpMatrix stage => exact IsWord.append (.name sh _) (.of_closed (by decide))
  | bumpLuminance stage => exact IsWord.append (.name sh _) (.of_closed (by decide))
  | varying usage index =>
    cases hcode : usage.code? with
    | some code =>
      rw [text_varying sh hcode]
      exact IsWord.append (.append (.of_closed (by decide)) (.number code))
        (hunderscore.append (.number index))
    | none =>
      rw [Usage.eq_unknown hcode]
      exact IsWord.append (.of_closed (by decide)) (.number index)
  | word text =>
    have hall : ∀ text ∈ words,
        text.toList ≠ [] ∧ (text.toList.all fun c => c != ' ' && !isMark c) = true := by
      decide
    exact .of_closed (hall text h)

/-! ### What a line introduces -/

def lastWord (cs : List Char) : List Char :=
  ((cs.reverse.dropWhile (· = ' ')).takeWhile (· ≠ ' ')).reverse

/-- The name that a line outside of functions introduces: that of a macro follows on `#define`, any other
stands before the first mark.  Other directives, precisions and the lines of a function introduce nothing. -/
def nameIn : List Char → Option (List Char)
  | [] => none
  | c :: cs =>
    if c = '#' then
      if "define ".toList.isPrefixOf cs then
        some ((cs.drop 7).takeWhile fun d => d ≠ ' ' && !isMark d)
      else none
    else if c = '\t' || c = '\x7b' || c = '\x7d' || "precision ".toList.isPrefixOf (c :: cs) then none
    else some (lastWord ((c :: cs).takeWhile fun d => !isMark d))

def introduced? (line : String) : Option String := (nameIn line.toList).map String.ofList

/-- The lines that divide others by conditions. -/
inductive Directive where
  | first
  | next
  | last
  deriving DecidableEq

def directiveIn : List Char → Option Directive
  | '#' :: 'i' :: 'f' :: _ => some .first
  | '#' :: 'e' :: 'l' :: _ => some .next
  | '#' :: 'e' :: 'n' :: 'd' :: 'i' :: 'f' :: _ => some .last
  | _ => none

def directive? (line : String) : Option Directive := directiveIn line.toList

/-- The lines that count, where the part with the number `branch` does of all that conditions divide:
`part` is the number of the part that comes next. -/
def selected (branch : Nat) (part : Option Nat) : List String → List String
  | [] => []
  | line :: rest =>
    match directive? line with
    | some .first => selected branch (some 0) rest
    | some .next => selected branch (part.map (· + 1)) rest
    | some .last => selected branch none rest
    | none =>
      if part = none ∨ part = some branch then line :: selected branch part rest
      else selected branch part rest

def introducedNames (branch : Nat) (lines : List String) : List String :=
  (selected branch none lines).filterMap introduced?

theorem selected_append_of_plain {branch : Nat} {part : Option Nat}
    (h : ∀ line ∈ a, directive? line = none) (b : List String) :
    selected branch part (a ++ b) =
      (if part = none ∨ part = some branch then a else []) ++ selected branch part b := by
  induction a with
  | nil => rw [List.nil_append, ite_self, List.nil_append]
  | cons line a ih =>
    have hrest := ih fun x hx => h x (List.mem_cons_of_mem _ hx)
    rw [List.cons_append, selected, h line List.mem_cons_self]
    dsimp only
    rw [hrest]
    split <;> rfl

theorem selected_append {branch : Nat} (h : ∀ line ∈ a, directive? line = none) (b : List String) :
    selected branch none (a ++ b) = a ++ selected branch none b := by
  rw [selected_append_of_plain h, if_pos (.inl rfl)]

/-- A line that stands for itself and introduces a name. -/
structure Introducing (line name : String) : Prop where
  plain : directive? line = none
  name : introduced? line = some name

/-- A line that stands for itself and introduces nothing. -/
structure Idle (line : String) : Prop where
  plain : directive? line = none
  name : introduced? line = none

theorem Introducing.of_chars {name : List Char} (hplain : directiveIn line = none)
    (hname : nameIn line = some name) : Introducing (String.ofList line) (String.ofList name) := by
  constructor
  · rw [directive?, String.toList_ofList, hplain]
  · rw [introduced?, String.toList_ofList, hname]
    rfl

theorem Idle.of_chars (hplain : directiveIn line = none) (hname : nameIn line = none) :
    Idle (String.ofList line) := by
  constructor
  · rw [directive?, String.toList_ofList, hplain]
  · rw [introduced?, String.toList_ofList, hname]
    rfl

theorem introducing_define {name : String} (h : IsWord name) (value : String) :
    Introducing (defineLine name value) name := by
  have hline : (defineLine name value).toList =
      '#' :: ("define ".toList ++ (name.toList ++ ' ' :: value.toList)) := by
    unfold defineLine
    simp only [String.toList_append, List.append_assoc]
    rfl
  constructor
  · rw [directive?, hline]
    rfl
  · have hword : ∀ c ∈ name.toList, (decide (c ≠ ' ') && !isMark c) = true := by
      intro c hc
      simp [h.blank c hc, h.mark c hc]
    rw [introduced?, hline]
    show some (String.ofList ((name.toList ++ ' ' :: value.toList).takeWhile _)) = some name
    rw [List.takeWhile_append_of_pos hword, List.takeWhile_cons_of_neg (by decide), List.append_nil,
      String.ofList_toList]

theorem lastWord_eq {word : List Char} (hne : word ≠ []) (hword : ∀ c ∈ word, c ≠ ' ')
    (before : List Char) {blanks : List Char} (hblanks : ∀ c ∈ blanks, c = ' ') :
    lastWord (before ++ ' ' :: (word ++ blanks)) = word := by
  have hreverse : (before ++ ' ' :: (word ++ blanks)).reverse =
      blanks.reverse ++ (word.reverse ++ ' ' :: before.reverse) := by simp
  have hend : (word.reverse ++ ' ' :: before.reverse).dropWhile (· = ' ') =
      word.reverse ++ ' ' :: before.reverse := by
    cases hw : word.reverse with
    | nil => exact absurd (List.reverse_eq_nil_iff.mp hw) hne
    | cons c cs =>
      have hc : c ≠ ' ' := hword c (by rw [← List.mem_reverse, hw]; exact List.mem_cons_self)
      simp [hc]
  have hrest : (word.reverse ++ ' ' :: before.reverse).takeWhile (· ≠ ' ') = word.reverse := by
    rw [List.takeWhile_append_of_pos (by simpa using hword)]
    simp
  -- Words are looked for from the end, where blanks come first.
  unfold lastWord
  rw [hreverse, List.dropWhile_append_of_pos (by simpa using hblanks), hend, hrest,
    List.reverse_reverse]

def isType (type : String) : Bool :=
  type.toList.all (fun c => !isMark c) && type.toList.head?.any fun c => c.isAlpha && c ≠ 'p'

def EndsDeclaration (after : String) : Prop :=
  ∃ blanks c rest, after.toList = blanks ++ c :: rest ∧ (∀ d ∈ blanks, d = ' ') ∧ isMark c = true

theorem introducing_declaration {type name after : String} (htype : isType type = true)
    (hname : IsWord name) (hafter : EndsDeclaration after) :
    Introducing (type ++ " " ++ name ++ after) name := by
  obtain ⟨blanks, c, rest, hafter, hblanks, hc⟩ := hafter
  rw [isType, Bool.and_eq_true, List.all_eq_true] at htype
  obtain ⟨hmarks, hhead⟩ := htype
  cases hlist : type.toList with
  | nil => rw [hlist] at hhead; cases hhead
  | cons t ts =>
    have ht : t.isAlpha = true ∧ t ≠ 'p' := by simpa [hlist] using hhead
    -- A type starts with a letter, which tells a declaration from directives and from code.
    have hletter : ∀ d : Char, d.isAlpha = false → t ≠ d := by
      rintro d hd rfl
      rw [hd] at ht
      cases ht.1
    have hline : (type ++ " " ++ name ++ after).toList =
        t :: (ts ++ ' ' :: (name.toList ++ blanks) ++ c :: rest) := by
      simp only [String.toList_append, hlist, hafter]
      simp
    constructor
    · rw [directive?, hline]
      simp [directiveIn, hletter '#' (by decide)]
    · rw [introduced?, hline, nameIn, if_neg (hletter '#' (by decide)), if_neg, Option.map_some]
      · have hplain : ∀ d ∈ t :: (ts ++ ' ' :: (name.toList ++ blanks)), (!isMark d) = true := by
          intro d hd
          rw [← List.cons_append, ← hlist, List.mem_append] at hd
          rcases hd with hd | hd
          · exact hmarks d hd
          · rcases List.mem_cons.mp hd with rfl | hd
            · rfl
            · rcases List.mem_append.mp hd with hd | hd
              · rw [hname.mark d hd]
                rfl
              · rw [hblanks d hd]
                rfl
        rw [← List.cons_append, List.takeWhile_append_of_pos hplain,
          List.takeWhile_cons_of_neg (by simp [hc]), List.append_nil, ← List.cons_append,
          lastWord_eq hname.ne_nil hname.blank _ hblanks, String.ofList_toList]
      · simp [List.isPrefixOf, hletter '\t' (by decide), hletter '\x7b' (by decide),
          hletter '\x7d' (by decide), ht.2.symm]

theorem endsDeclaration_plain : EndsDeclaration (";" ++ rest) :=
  ⟨[], ';', rest.toList, by rw [String.toList_append]; rfl, by simp, rfl⟩

theorem endsDeclaration_sized : EndsDeclaration ("[" ++ rest) :=
  ⟨[], '[', rest.toList, by rw [String.toList_append]; rfl, by simp, rfl⟩

theorem endsDeclaration_valued : EndsDeclaration (" = " ++ rest) :=
  ⟨[' '], '=', ' ' :: rest.toList, by rw [String.toList_append]; rfl, by simp, rfl⟩

/-! ### What declarations introduce -/

def Binding.names (name : Name) : Binding → List Name
  | .builtin _ => [name]
  | .varying v => [.varying v.usage v.index, name]

def Decl.names (p : Profile) : Decl → List Name
  | .literal c => [.register ⟨c.kind.file, c.index⟩]
  | .vector r | .integers r | .truth r | .truths r | .vertexInput r | .depth r => [.register r]
  | .coordinates number =>
    if p.hasFixedFunction && number < 4 then [.register ⟨.texture, number⟩]
    else [.varying .texCoord number, .register ⟨.texture, number⟩]
  | .arrayBase base _ => [.arrayBase base]
  | .literalArray a => [.constArray a.index a.count]
  | .constant c => [.register c.register]
  | .sampler stage _ => [.register (Glsl.sampler stage)]
  | .bump stage _ => [.bumpMatrix stage, .bumpLuminance stage]
  | .vertexOutput r usage index => (Binding.ofVertexOutput p usage index).names (.register r)
  | .pixelInput r usage index => (Binding.ofPixelInput p usage index).names (.register r)
  | .color number _ => [.register ⟨.colorOut, number⟩]
  | .positionFlip => [.word "vposFlip"]

/-- Lines without a condition among them, and the names that they introduce. -/
inductive Listing : List String → List String → Prop
  | nil : Listing [] []
  | cons {line name : String} {lines names : List String} (first : Introducing line name)
      (rest : Listing lines names) : Listing (line :: lines) (name :: names)
  | skip {line : String} {lines names : List String} (first : Idle line) (rest : Listing lines names) :
      Listing (line :: lines) names

theorem Listing.plain {lines names : List String} (h : Listing lines names) :
    ∀ line ∈ lines, directive? line = none := by
  induction h with
  | nil => exact fun line hline => absurd hline List.not_mem_nil
  | cons first _ ih => exact List.forall_mem_cons.mpr ⟨first.plain, ih⟩
  | skip first _ ih => exact List.forall_mem_cons.mpr ⟨first.plain, ih⟩

theorem Listing.names_eq {lines names : List String} (h : Listing lines names) :
    lines.filterMap introduced? = names := by
  induction h with
  | nil => rfl
  | cons first _ ih => rw [List.filterMap_cons, first.name, ih]
  | skip first _ ih => rw [List.filterMap_cons, first.name, ih]

section Introducing

variable {type name : String}
variable (p : Profile) (sh : Shader)

theorem introducing_plain (htype : isType type = true) (hname : IsWord name) :
    Introducing (type ++ " " ++ name ++ ";") name := by
  have h := introducing_declaration htype hname (endsDeclaration_plain "")
  rwa [String.append_empty] at h

theorem introducing_valued (htype : isType type = true) (hname : IsWord name) (value : String) :
    Introducing (type ++ " " ++ name ++ " = " ++ value ++ ";") name := by
  have h := introducing_declaration htype hname (endsDeclaration_valued (value ++ ";"))
  simpa only [String.append_assoc] using h

theorem introducing_sized (htype : isType type = true) (hname : IsWord name) (size : String) :
    Introducing (type ++ " " ++ name ++ ("[" ++ size)) name :=
  introducing_declaration htype hname (endsDeclaration_sized size)

theorem introducing_varying (stage : Stage) (v : Varying) :
    Introducing (v.declaration p stage) ((Name.varying v.usage v.index).text sh) := by
  have htype : isType (p.varyingQualifier stage ++ " " ++ if v.scalar then "float" else "vec4") = true := by
    cases p <;> cases stage <;> cases v.scalar <;> decide
  have hword : IsWord v.text := (Name.varying v.usage v.index).isWord_text sh trivial
  exact introducing_plain htype hword

theorem listing_binding (stage : Stage) (r : Register) (b : Binding) :
    Listing (b.lines p stage (r.name sh)) ((b.names (.register r)).map (Name.text sh)) := by
  have hname : IsWord (r.name sh) := .name sh r
  cases b with
  | builtin b => exact .cons (introducing_define hname _) .nil
  | varying v =>
    exact .cons (introducing_varying p sh stage v) (.cons (introducing_define hname _) .nil)

theorem listing_coordinateLines (number : Nat) :
    Listing (coordinateLines p sh number)
      (((Decl.coordinates number).names p).map (Name.text sh)) := by
  have hname : IsWord (Register.name sh ⟨.texture, number⟩) := .name sh _
  have hvec : "vec4 " = "vec4" ++ " " := rfl
  have hvariable : ∀ value, Introducing
      ("vec4 " ++ Register.name sh ⟨.texture, number⟩ ++ " = " ++ value ++ ";")
      (Register.name sh ⟨.texture, number⟩) := by
    intro value
    rw [hvec]
    exact introducing_valued (by decide) hname value
  unfold coordinateLines Decl.names
  dsimp only
  split
  · exact .cons (hvariable _) .nil
  · exact .cons (introducing_varying p sh sh.stage _) (.cons (hvariable _) .nil)

theorem introducing_literalArrayLine (a : ConstantArray) :
    Introducing (literalArrayLine p sh a) ((Name.constArray a.index a.count).text sh) := by
  have hname := (Name.constArray a.index a.count).isWord_text sh trivial
  have hconst : "const vec4 " = "const vec4" ++ " " := rfl
  have huniform : "uniform vec4 " = "uniform vec4" ++ " " := rfl
  have hstring : ∀ text : String, toString text = text := fun _ => rfl
  unfold literalArrayLine
  dsimp only
  split
  · have h := introducing_sized (by decide : isType "const vec4" = true) hname
      (toString a.count ++ "]" ++ " = vec4" ++ ("[" ++ toString a.count ++ "]") ++ "("
        ++ ", ".intercalate (a.constants.map fun c => vectorText "vec4" (c.singles.map Single.literal))
        ++ ");")
    simp only [String.append_assoc] at h
    simp only [hconst, hstring, String.append_assoc]
    exact h
  · have h := introducing_sized (by decide : isType "uniform vec4" = true) hname
      (toString a.count ++ "]" ++ ";")
    simp only [String.append_assoc] at h
    simp only [huniform, hstring, String.append_assoc]
    exact h

theorem Decl.listing_lines (d : Decl) : Listing (d.lines p sh) ((d.names p).map (Name.text sh)) := by
  have hword : ∀ n : Name, n.Known → IsWord (n.text sh) := fun n => n.isWord_text sh
  cases d with
  | literal c =>
    have htype : isType ("const " ++ constantType c.kind) = true := by cases c.kind <;> decide
    exact .cons (introducing_valued htype (.name sh _) (literalText c)) .nil
  | vector r => exact .cons (introducing_plain (by decide : isType "vec4" = true) (.name sh r)) .nil
  | integers r => exact .cons (introducing_plain (by decide : isType "ivec4" = true) (.name sh r)) .nil
  | truth r => exact .cons (introducing_plain (by decide : isType "bool" = true) (.name sh r)) .nil
  | truths r => exact .cons (introducing_plain (by decide : isType "bvec4" = true) (.name sh r)) .nil
  | coordinates number => exact listing_coordinateLines p sh number
  | arrayBase base slot => exact .cons (introducing_define (hword (.arrayBase base) trivial) _) .nil
  | literalArray a => exact .cons (introducing_literalArrayLine p sh a) .nil
  | constant c => exact .cons (introducing_define (.name sh _) _) .nil
  | sampler stage kind =>
    have htype : isType ("uniform " ++ samplerType kind) = true := by cases kind <;> decide
    exact .cons (introducing_plain htype (.name sh _)) .nil
  | bump stage slot =>
    exact .cons (introducing_define (hword (.bumpMatrix stage) trivial) _)
      (.cons (introducing_define (hword (.bumpLuminance stage) trivial) _) .nil)
  | vertexInput r =>
    have htype : isType (p.attributeQualifier ++ " vec4") = true := by cases p <;> decide
    refine .cons ?_ .nil
    have hblank : " vec4 " = " vec4" ++ " " := rfl
    show Introducing (p.attributeQualifier ++ " vec4 " ++ r.name sh ++ ";") _
    rw [hblank, ← String.append_assoc]
    exact introducing_plain htype (.name sh r)
  | vertexOutput r usage index => exact listing_binding p sh sh.stage r _
  | pixelInput r usage index => exact listing_binding p sh sh.stage r _
  | color number many => exact .cons (introducing_define (.name sh _) _) .nil
  | depth r => exact .cons (introducing_define (.name sh _) _) .nil
  | positionFlip =>
    have hline : Introducing "uniform vec2 vposFlip;" "vposFlip" := .of_chars rfl rfl
    exact .cons hline .nil

end Introducing

/-! ### Lines that are read together -/

/-- Read on their own, and with any lines after them, some lines introduce these names. -/
def Yields (branch : Nat) (lines names : List String) : Prop :=
  ∃ kept, (∀ rest, selected branch none (lines ++ rest) = kept ++ selected branch none rest) ∧
    kept.filterMap introduced? = names

namespace Yields

variable {branch : Nat} {a b n m : List String}

theorem append (ha : Yields branch a n) (hb : Yields branch b m) : Yields branch (a ++ b) (n ++ m) := by
  obtain ⟨k, hk, rfl⟩ := ha
  obtain ⟨j, hj, rfl⟩ := hb
  refine ⟨k ++ j, fun rest => ?_, List.filterMap_append⟩
  rw [List.append_assoc, hk, hj, List.append_assoc]

theorem introducedNames_eq (h : Yields branch a n) : introducedNames branch a = n := by
  obtain ⟨kept, hkept, rfl⟩ := h
  have hnil := hkept []
  rw [List.append_nil] at hnil
  have hrest : selected branch none [] = [] := rfl
  rw [introducedNames, hnil, hrest, List.append_nil]

theorem of_listing (h : Listing a n) : Yields branch a n :=
  ⟨a, selected_append h.plain, h.names_eq⟩

theorem ite {c : Prop} [Decidable c] (h : c → Yields branch a n) :
    Yields branch (if c then a else []) (if c then n else []) := by
  split
  next hc => exact h hc
  next => exact of_listing .nil

end Yields

/-! ### The lines before the functions -/

def Layout.textLines : List Layout → Int → List String
  | [], _ => []
  | .line text :: rest, depth =>
    (String.ofList (List.replicate depth.toNat '\t') ++ text) :: textLines rest depth
  | .blank :: rest, depth => "" :: textLines rest depth
  | .indent :: rest, depth => textLines rest (depth + 1)
  | .outdent :: rest, depth => textLines rest (depth - 1)

theorem Layout.run_eq_unlines (steps : List Layout) (depth : Int) :
    (run steps depth).1 = unlines (textLines steps depth) := by
  induction steps generalizing depth with
  | nil => rfl
  | cons step steps ih =>
    cases step with
    | line text => rw [run, textLines, unlines, ← ih, lineAt]
    | blank => rw [run, textLines, unlines, ← ih, String.empty_append]
    | indent => exact ih (depth + 1)
    | outdent => exact ih (depth - 1)

theorem Layout.textLines_lines (ls : List String) (rest : List Layout) :
    textLines (lines ls ++ rest) 0 = ls ++ textLines rest 0 := by
  induction ls with
  | nil => rfl
  | cons l ls ih =>
    have hdepth : String.ofList (List.replicate (Int.toNat 0) '\t') ++ l = l := String.empty_append
    show (_ ++ l) :: textLines (lines ls ++ rest) 0 = _
    rw [hdepth, ih]
    rfl

theorem textLines_preface (o : Options) (l : LinkedShader) :
    Layout.textLines (preface p o l) 0 =
      headLines p l ++ sizeLines l.env.toShader l.interface.slots ++ extraLines o l := by
  have hlast : Layout.textLines (Layout.lines (extraLines o l)) 0 = extraLines o l := by
    have h := Layout.textLines_lines (extraLines o l) []
    rwa [List.append_nil, Layout.textLines, List.append_nil] at h
  have hblank : ∀ rest, Layout.textLines (.blank :: rest) 0 = "" :: Layout.textLines rest 0 :=
    fun _ => rfl
  rw [preface_eq, headLines]
  split
  · simp only [List.append_assoc, Layout.textLines_lines, List.cons_append, List.nil_append, hblank, hlast]
  · simp only [List.append_assoc, Layout.textLines_lines, List.nil_append, hlast]

theorem textLines_globals (l : LinkedShader) :
    Layout.textLines (globals p l) 0 = declarationLines p l ++ [""] := by
  unfold globals
  rw [Layout.textLines_lines]
  rfl

/-- The lines before the functions of a program: version and packed constants, declarations, helpers. -/
def sectionLines (p : Profile) (o : Options) (l : LinkedShader) : List String :=
  Layout.textLines (preface p o l) 0 ++ Layout.textLines (globals p l) 0
    ++ Layout.textLines (l.scan.helpers.flatMap Helper.layout) 0

def functionsText (o : Options) (l : LinkedShader) : String :=
  let (main, subroutines) := bodies o l.env.toShader l.scan.code
  let (mainText, depth) := Layout.run main 1
  (Layout.run subroutines depth).1 ++ (Layout.run (intro o l) 0).1 ++ mainText

theorem program_eq_sections (o : Options) (l : LinkedShader) :
    program p o l = unlines (sectionLines p o l) ++ functionsText o l := by
  unfold program sectionLines functionsText
  simp only [Layout.run_eq_unlines, unlines_append, String.append_assoc]

/-! ### The names of a program -/

def levelNames (p : Profile) (sh : Shader) (branch : Nat) : List Name :=
  if p = .glsl400 then
    [.word "texture2DGrad", .word "texture2DProjGrad", .word "textureCubeGrad", .word "texture3DGrad",
      .word "texture2DLod", .word "textureCubeLod", .word "texture3DLod"]
  else if branch < 3 then
    [.word "texture2DGrad", .word "texture2DProjGrad"]
      ++ if sh.isPixel then [.word "texture2DLod"] else []
  else []

def packedNames (slots : Slots) (kind : ConstantKind) : List Name :=
  if slots.count kind = 0 then [] else [.packed kind]

def Helper.names : Helper → List Name
  | .lighting => [.word "LIT"]
  | .reflection => [.word "TEXM3X3SPEC_reflection"]
  | .textureLevels | .largest => []

def programNames (branch : Nat) (p : Profile) (o : Options) (l : LinkedShader) : List Name :=
  (if l.scan.helpers.contains .textureLevels then levelNames p l.env.toShader branch else [])
    ++ (packedNames l.interface.slots .float ++ packedNames l.interface.slots .int
      ++ packedNames l.interface.slots .bool)
    ++ (if o.flipRenderTarget && l.env.toShader.isVertex then [.word "vpFlip"] else [])
    ++ (if l.scan.helpers.contains .largest then [.word "FLT_MAX"] else [])
    ++ (declarations l).flatMap (Decl.names p)
    ++ l.scan.helpers.flatMap Helper.names

theorem yields_versionLines (p : Profile) (sh : Shader) : Yields branch (p.versionLines sh) [] := by
  apply Yields.of_listing
  cases p with
  | glsl110 | glsl120 | glsl400 => exact .skip (.of_chars rfl rfl) .nil
  | es100 =>
    refine .skip (.of_chars rfl rfl) (.skip ?_ (.skip (.of_chars rfl rfl) .nil))
    split <;> exact .of_chars rfl rfl

theorem selected_divided {b c : List String} (ha : ∀ line ∈ a, directive? line = none)
    (hb : ∀ line ∈ b, directive? line = none) (hc : ∀ line ∈ c, directive? line = none) (branch : Nat)
    (rest : List String) :
    selected branch none ("#if GL_ARB_shader_texture_lod" :: (a ++ "#elif GL_EXT_gpu_shader4" ::
        (b ++ "#else" :: (c ++ "#endif" :: rest)))) =
      ((if 0 = branch then a else []) ++ (if 1 = branch then b else []) ++ if 2 = branch then c else [])
        ++ selected branch none rest := by
  have hpart : ∀ n : Nat, (some n = none ∨ some n = some branch) = (n = branch) := by simp
  have hif : ∀ xs, selected branch none ("#if GL_ARB_shader_texture_lod" :: xs) =
      selected branch (some 0) xs := fun _ => rfl
  have helif : ∀ xs, selected branch (some 0) ("#elif GL_EXT_gpu_shader4" :: xs) =
      selected branch (some 1) xs := fun _ => rfl
  have helse : ∀ xs, selected branch (some 1) ("#else" :: xs) = selected branch (some 2) xs := fun _ => rfl
  have hend : ∀ xs, selected branch (some 2) ("#endif" :: xs) = selected branch none xs := fun _ => rfl
  rw [hif, selected_append_of_plain ha, helif, selected_append_of_plain hb, helse,
    selected_append_of_plain hc, hend]
  simp only [hpart, List.append_assoc]

def levelPart (sh : Shader) : Nat → List String
  | 0 => ["#extension GL_ARB_shader_texture_lod : enable", "#define texture2DGrad texture2DGradARB",
      "#define texture2DProjGrad texture2DProjGradARB"]
      ++ if sh.isPixel then ["#define texture2DLod texture2DLodARB"] else []
  | 1 => ["#define texture2DGrad texture2DGradEXT", "#define texture2DProjGrad texture2DProjGradEXT"]
      ++ if sh.isPixel then ["#define texture2DLod texture2DLodEXT"] else []
  | 2 => ["#define texture2DGrad(a,b,c,d) texture2D(a,b)",
      "#define texture2DProjGrad(a,b,c,d) texture2DProj(a,b)"]
      ++ if sh.isPixel then ["#define texture2DLod(a,b,c) texture2D(a,b)"] else []
  | _ => []

theorem levelLines_eq {p : Profile} (hp : p ≠ .glsl400) (sh : Shader) (rest : List String) :
    levelLines p sh ++ rest =
      "#if GL_ARB_shader_texture_lod" :: (levelPart sh 0 ++ "#elif GL_EXT_gpu_shader4" ::
        (levelPart sh 1 ++ "#else" :: (levelPart sh 2 ++ "#endif" :: rest))) := by
  rw [levelLines, if_neg hp]
  simp only [levelPart, List.append_assoc, List.cons_append, List.nil_append]

theorem listing_levelPart {branch : Nat} (h : branch < 3) :
    Listing (levelPart sh branch)
      (["texture2DGrad", "texture2DProjGrad"] ++ if sh.isPixel then ["texture2DLod"] else []) := by
  have hpixel : ∀ {line : String}, Introducing line "texture2DLod" →
      Listing (if sh.isPixel then [line] else []) (if sh.isPixel then ["texture2DLod"] else []) := by
    intro line hline
    split
    · exact .cons hline .nil
    · exact .nil
  match branch with
  | 0 =>
    exact .skip (.of_chars rfl rfl) (.cons (.of_chars rfl rfl) (.cons (.of_chars rfl rfl)
      (hpixel (.of_chars rfl rfl))))
  | 1 => exact .cons (.of_chars rfl rfl) (.cons (.of_chars rfl rfl) (hpixel (.of_chars rfl rfl)))
  | 2 => exact .cons (.of_chars rfl rfl) (.cons (.of_chars rfl rfl) (hpixel (.of_chars rfl rfl)))

theorem yields_levelLines (p : Profile) (sh : Shader) :
    Yields branch (levelLines p sh) ((levelNames p sh branch).map (Name.text sh)) := by
  by_cases hp : p = .glsl400
  · rw [levelLines, levelNames, if_pos hp, if_pos hp]
    apply Yields.of_listing
    exact .cons (.of_chars rfl rfl) (.cons (.of_chars rfl rfl) (.cons (.of_chars rfl rfl)
      (.cons (.of_chars rfl rfl) (.cons (.of_chars rfl rfl) (.cons (.of_chars rfl rfl)
        (.cons (.of_chars rfl rfl) .nil))))))
  -- The lines are divided in three, and from the fourth branch on none of them count.
  · refine ⟨levelPart sh branch, fun rest => ?_, ?_⟩
    · rw [levelLines_eq hp, selected_divided (listing_levelPart sh (by decide)).plain
        (listing_levelPart sh (by decide)).plain (listing_levelPart sh (by decide)).plain]
      congr 1
      match branch with
      | 0 | 1 | 2 => simp
      | n + 3 => rfl
    · rw [levelNames, if_neg hp]
      split
      next hbranch =>
        rw [(listing_levelPart sh hbranch).names_eq]
        cases sh.isPixel <;> rfl
      next hbranch =>
        match branch, hbranch with
        | n + 3, _ => rfl

theorem yields_packedLines (slots : Slots) (kind : ConstantKind) :
    Yields branch (packedLines sh slots kind) ((packedNames slots kind).map (Name.text sh)) := by
  unfold packedLines packedNames
  dsimp only
  split
  next => exact .of_listing .nil
  next =>
    have htype : isType ("uniform " ++ constantType kind) = true := by cases kind <;> decide
    have hname : IsWord ((Name.packed kind).text sh) := Name.isWord_text sh trivial
    have h := introducing_sized htype hname (toString (slots.count kind) ++ "];")
    simp only [String.append_assoc] at h
    refine .of_listing (.cons ?_ .nil)
    simp only [String.append_assoc]
    exact h

theorem yields_declarations (p : Profile) (sh : Shader) (ds : List Decl) :
    Yields branch (ds.flatMap (Decl.lines p sh)) ((ds.flatMap (Decl.names p)).map (Name.text sh)) := by
  induction ds with
  | nil => exact .of_listing .nil
  | cons d ds ih =>
    rw [List.flatMap_cons, List.flatMap_cons, List.map_append]
    exact (Yields.of_listing (d.listing_lines p sh)).append ih

theorem Helper.textLines_layout (h : Helper) (rest : List Layout) :
    Layout.textLines (h.layout ++ rest) 0 = Layout.textLines h.layout 0 ++ Layout.textLines rest 0 := by
  cases h <;> rfl

theorem Idle.at_depth (depth : Int) {text : String} (h : depth.toNat = 0 → Idle text) :
    Idle (String.ofList (List.replicate depth.toNat '\t') ++ text) := by
  cases hdepth : depth.toNat with
  | zero =>
    have hempty : String.ofList (List.replicate 0 '\t') ++ text = text := String.empty_append
    rw [hempty]
    exact h hdepth
  | succ n =>
    have hline : (String.ofList (List.replicate (n + 1) '\t') ++ text).toList =
        '\t' :: (List.replicate n '\t' ++ text.toList) := by
      rw [String.toList_append, String.toList_ofList]
      rfl
    constructor
    · rw [directive?, hline]
      rfl
    · rw [introduced?, hline]
      rfl

theorem Introducing.at_depth_zero {text name : String} (h : Introducing text name) :
    Introducing (String.ofList (List.replicate (Int.toNat 0) '\t') ++ text) name := by
  have hempty : String.ofList (List.replicate (Int.toNat 0) '\t') ++ text = text := String.empty_append
  rwa [hempty]

theorem Helper.listing_layout (h : Helper) (sh : Shader) :
    Listing (Layout.textLines h.layout 0) (h.names.map (Name.text sh)) := by
  have hbrace : ∀ depth : Int, Idle (String.ofList (List.replicate depth.toNat '\t') ++ "\x7b") ∧
      Idle (String.ofList (List.replicate depth.toNat '\t') ++ "\x7d") :=
    fun depth => ⟨.at_depth depth fun _ => .of_chars rfl rfl, .at_depth depth fun _ => .of_chars rfl rfl⟩
  have hinner : ∀ (depth : Int) (text : String), depth.toNat ≠ 0 →
      Idle (String.ofList (List.replicate depth.toNat '\t') ++ text) :=
    fun depth text hdepth => .at_depth depth fun h => absurd h hdepth
  have hblank : Idle "" := .of_chars rfl rfl
  cases h with
  | lighting =>
    refine .cons (.at_depth_zero (.of_chars rfl rfl)) (.skip (hbrace _).1 ?_)
    refine .skip (hinner _ _ (by decide)) (.skip (hinner _ _ (by decide)) ?_)
    refine .skip (hinner _ _ (by decide)) (.skip (hinner _ _ (by decide)) ?_)
    refine .skip (hinner _ _ (by decide)) (.skip (hinner _ _ (by decide)) ?_)
    refine .skip (hbrace _).2 (.skip (hbrace _).2 (.skip (hinner _ _ (by decide)) ?_))
    exact .skip (hbrace _).2 (.skip hblank .nil)
  | reflection =>
    refine .cons (.at_depth_zero (.of_chars rfl rfl)) (.skip (hbrace _).1 ?_)
    exact .skip (hinner _ _ (by decide)) (.skip (hbrace _).2 (.skip hblank .nil))
  | textureLevels | largest => exact .nil

theorem yields_helpers (hs : List Helper) :
    Yields branch (Layout.textLines (hs.flatMap Helper.layout) 0)
      ((hs.flatMap Helper.names).map (Name.text sh)) := by
  induction hs with
  | nil => exact .of_listing .nil
  | cons h hs ih =>
    rw [List.flatMap_cons, List.flatMap_cons, List.map_append, Helper.textLines_layout]
    refine Yields.append ?_ ih
    exact .of_listing (h.listing_layout sh)

theorem introducedNames_sectionLines (p : Profile) (o : Options) (l : LinkedShader) :
    introducedNames branch (sectionLines p o l) =
      (programNames branch p o l).map (Name.text l.env.toShader) := by
  have hempty : Yields branch [""] [] := .of_listing (.skip (.of_chars rfl rfl) .nil)
  have hflip : Yields branch ["uniform float vpFlip;"] ["vpFlip"] :=
    .of_listing (.cons (.of_chars rfl rfl) .nil)
  have hlargest : Yields branch ["const float FLT_MAX = 1e38;"] ["FLT_MAX"] :=
    .of_listing (.cons (.of_chars rfl rfl) .nil)
  have hhead : Yields branch (headLines p l) _ :=
    (yields_versionLines branch p l.env.toShader).append
      (.ite fun _ => (yields_levelLines branch p l.env.toShader).append hempty)
  have hsizes : Yields branch (sizeLines l.env.toShader l.interface.slots) _ :=
    ((yields_packedLines branch _ _ .float).append (yields_packedLines branch _ _ .int)).append
      (yields_packedLines branch _ _ .bool)
  have hextra : Yields branch (extraLines o l) _ :=
    Yields.append (.ite fun _ => hflip) (.ite fun _ => hlargest)
  have hglobals : Yields branch (declarationLines p l ++ [""]) _ :=
    (yields_declarations branch p l.env.toShader (declarations l)).append hempty
  have hall := (((hhead.append hsizes).append hextra).append hglobals).append
    (yields_helpers branch l.env.toShader l.scan.helpers)
  rw [sectionLines, textLines_preface, textLines_globals, hall.introducedNames_eq, programNames]
  have hwords : ∀ text, Name.text l.env.toShader (.word text) = text := fun _ => rfl
  simp only [List.map_append, apply_ite (List.map (Name.text l.env.toShader)), List.map_cons,
    List.map_nil, hwords, List.append_nil, List.nil_append, List.append_assoc]

end Glsl

end ShaderLift
