/-
Literals of single-precision numbers.  A `Numeral` is a text that a program can have for a number: perhaps
a minus sign, then digits, a point and digits.  The literal of a finite number is one, and it is read as
that number again (`literal_reads_back`).  If there is a fraction it is as short as can be.  For that it
has to be compared with decimals on all grids: on coarser ones none is read as the number, and on finer
ones a decimal with fewer digits would have a power of ten between itself and the literal, which is on a
coarser grid.
-/
import Mathlib.Tactic.NormNum
import ShaderLift.Proofs.Accepted
import ShaderLift.Proofs.Discovery
import ShaderLift.Proofs.Rounding

namespace ShaderLift

/-! ### Numerals -/

structure Numeral where
  negative : Bool
  whole : List Char
  fraction : List Char
  whole_ne : whole ≠ []
  fraction_ne : fraction ≠ []
  digits : ∀ c ∈ whole ++ fraction, c.isDigit = true

namespace Numeral

def text (a : Numeral) : String :=
  (if a.negative then "-" else "") ++ String.ofList (a.whole ++ '.' :: a.fraction)

def coefficient (a : Numeral) : Nat := Nat.ofDigitChars 10 (a.whole ++ a.fraction) 0

def magnitude (a : Numeral) : ℚ := a.coefficient / 10 ^ a.fraction.length

end Numeral

def IsNumeral (text : String) : Prop := ∃ a : Numeral, a.text = text

namespace Decimal

theorem exists_numeral (negative : Bool) (n : Nat) {places : Nat} (h : 0 < places) :
    ∃ a : Numeral, a.text = (if negative then "-" else "") ++ positional n places ∧
      a.negative = negative ∧ a.coefficient = n ∧ a.fraction.length = places := by
  let whole := Nat.toDigits 10 (n / 10 ^ places)
  let last := Nat.toDigits 10 (n % 10 ^ places)
  let fraction := List.replicate (places - last.length) '0' ++ last
  have hlength : last.length ≤ places :=
    (Nat.length_toDigits_le_iff (by decide) h).mpr (Nat.mod_lt _ (by positivity))
  refine ⟨⟨negative, whole, fraction, Nat.toDigits_ne_nil, ?_, ?_⟩, ?_, rfl, ?_, ?_⟩
  · exact List.append_ne_nil_of_right_ne_nil _ Nat.toDigits_ne_nil
  · intro c hc
    rcases List.mem_append.mp hc with hc | hc
    · exact Nat.isDigit_of_mem_toDigits (by decide) (by decide) hc
    · rcases List.mem_append.mp hc with hc | hc
      · rw [(List.mem_replicate.mp hc).2]
        rfl
      · exact Nat.isDigit_of_mem_toDigits (by decide) (by decide) hc
  · apply String.toList_inj.mp
    simp [Numeral.text, positional, whole, fraction, last]
  · show Nat.ofDigitChars 10 (whole ++ fraction) 0 = n
    rw [Nat.ofDigitChars_append, Nat.ofDigitChars_append, Nat.ofDigitChars_replicate_zero,
      Nat.ofDigitChars_eq_ofDigitChars_zero, Nat.ofDigitChars_ten_toDigits, Nat.ofDigitChars_ten_toDigits,
      ← Nat.mul_assoc, ← Nat.pow_add, Nat.add_sub_cancel' hlength]
    exact Nat.div_add_mod n (10 ^ places)
  · rw [List.length_append, List.length_replicate]
    exact Nat.sub_add_cancel hlength

theorem Rounding.not_contains_of_fewer {r : Rounding} {n m places : Nat} {e : Int} (hplaces : 0 < places)
    (hn : r.Contains (n / 10 ^ places)) (hcoarser : ∀ q < places, ∀ k : Nat, ¬ r.Contains (k / 10 ^ q))
    (hfewer : (Nat.toDigits 10 m).length < (Nat.toDigits 10 n).length) : ¬ r.Contains (m * 10 ^ e) := by
  intro hm
  obtain ⟨k, rfl | rfl⟩ := e.eq_nat_or_neg
  · -- an integer is on the coarsest grid
    refine hcoarser 0 hplaces (m * 10 ^ k) ?_
    rwa [pow_zero, div_one, Nat.cast_mul, Nat.cast_pow, Nat.cast_ofNat, ← zpow_natCast]
  · rw [zpow_neg, zpow_natCast, ← div_eq_mul_inv] at hm
    rcases Nat.lt_or_ge k places with hk | hk
    · exact hcoarser k hk m hm
    · -- a power of ten lies between the two decimals
      obtain ⟨d, hd⟩ : ∃ d, (Nat.toDigits 10 n).length = d + 2 :=
        Nat.exists_eq_add_of_le' (by have := Nat.length_toDigits_pos (b := 10) (n := m); omega)
      have hdigits : ∀ k, (Nat.toDigits 10 k).length ≤ d + 1 ↔ k < 10 ^ (d + 1) :=
        fun k => Nat.length_toDigits_le_iff (by decide) d.succ_pos
      have hmd : m < 10 ^ (d + 1) := (hdigits m).mp (by omega)
      have hnd : 10 ^ (d + 1) ≤ n := not_lt.mp fun hlt => absurd ((hdigits n).mpr hlt) (by omega)
      have hpower : r.Contains ((10 ^ (d + 1) : Nat) / 10 ^ places) := by
        refine hm.between hn ?_ ?_
        · gcongr
          norm_num
        · gcongr
      refine hcoarser (places - 1) (by omega) (10 ^ d) ?_
      convert hpower using 1
      rw [div_eq_div_iff (by positivity) (by positivity)]
      push_cast
      rw [← pow_add, ← pow_add]
      congr 1
      omega

end Decimal

namespace Single

variable {s : Single}

theorem value_eq_natCast_iff {k : Nat} : s.value = k ↔ s.units = k * 2 ^ 149 := by
  rw [value, div_eq_iff (by positivity)]
  exact_mod_cast Iff.rfl

theorem isIntegral_iff : s.isIntegral = true ↔ ∃ k : Nat, s.value = k := by
  simp only [isIntegral, beq_iff_eq, Nat.pow_eq, value_eq_natCast_iff]
  constructor
  · exact fun h => ⟨_, (Nat.div_mul_cancel (Nat.dvd_of_mod_eq_zero h)).symm⟩
  · rintro ⟨k, hk⟩
    rw [hk, Nat.mul_mod_left]

theorem not_contains_natCast (hfraction : ¬ s.isIntegral = true) (n : Nat) : ¬ s.rounding.Contains n := by
  intro h
  rw [isIntegral, beq_iff_eq, Nat.pow_eq, ← Nat.dvd_iff_mod_eq_zero] at hfraction
  have hscale : s.scale ≤ 149 := by
    by_contra hlarge
    exact hfraction (Dvd.dvd.mul_left (pow_dvd_pow 2 (Nat.le_of_not_le hlarge)) _)
  obtain ⟨c, hc⟩ := pow_dvd_pow 2 hscale
  have hlow : s.rounding.low ≤ n * s.rounding.den := by exact_mod_cast h.1.le
  have hhigh : n * s.rounding.den ≤ s.rounding.high := by exact_mod_cast h.2.le
  have hpoint : n * s.rounding.den = 4 * (n * c) * 2 ^ s.scale := by
    rw [show s.rounding.den = 4 * 2 ^ 149 from rfl, hc]
    ring
  rw [hpoint] at hlow hhigh
  -- in units of that distance only one multiple is near enough
  have hunit : 0 < 2 ^ s.scale := by positivity
  have hlow' := Nat.le_of_mul_le_mul_right hlow hunit
  have hhigh' := Nat.le_of_mul_le_mul_right hhigh hunit
  have hmultiple : s.significand = n * c := by
    split at hlow' <;> omega
  refine hfraction ⟨n, ?_⟩
  rw [units, hmultiple, hc, Nat.pow_eq]
  ring

/-! ### Literals -/

theorem magnitude_of_value {k : Nat} (h : s.value = k) : s.magnitude = toString k ++ ".0" := by
  rw [magnitude, if_pos (isIntegral_iff.mpr ⟨k, h⟩), value_eq_natCast_iff.mp h, Nat.pow_eq,
    Nat.mul_div_cancel _ (by positivity)]

/-- The magnitude of a finite number is written as a point of a grid that is read as the number.  If there is
a fraction, then no decimal with fewer digits is. -/
theorem exists_positional (hfinite : s.isFinite = true) : ∃ n places : Nat, 0 < places ∧
    s.magnitude = Decimal.positional n places ∧ IsNearest s.negative (n / 10 ^ places) s ∧
      (¬ s.isIntegral = true → ∀ (m : Nat) (e : Int),
        (Nat.toDigits 10 m).length < (Nat.toDigits 10 n).length → ¬ IsNearest s.negative (m * 10 ^ e) s) := by
  by_cases hintegral : s.isIntegral = true
  · obtain ⟨k, hk⟩ := isIntegral_iff.mp hintegral
    refine ⟨10 * k, 1, Nat.one_pos, ?_, ?_, fun hno => absurd hintegral hno⟩
    · have hdigits : 10 * k / Nat.pow 10 1 = k ∧ 10 * k % Nat.pow 10 1 = 0 := by simp
      rw [magnitude_of_value hk, Decimal.positional, hdigits.1, hdigits.2, String.append_assoc]
      rfl
    · have hvalue : ((10 * k : Nat) : ℚ) / 10 ^ 1 = s.value := by
        rw [hk]
        push_cast
        ring
      rw [hvalue]
      exact isNearest_value (isNaN_eq_false_iff.mpr (isFinite_iff.mp hfinite).le)
  · have hpos : 0 < s.index := by
      refine Nat.pos_of_ne_zero fun hzero => hintegral ?_
      rw [isIntegral, units_eq, hzero]
      rfl
    -- the number itself is on the last of the grids that are looked at
    have hlast : s.rounding.onGrid 149 ≠ none := by
      intro hnone
      refine Decimal.Rounding.not_contains_of_onGrid hnone (s.units * 5 ^ 149) ?_
      rw [← isNearest_iff_contains hfinite hpos]
      convert isNearest_value (isNaN_eq_false_iff.mpr (isFinite_iff.mp hfinite).le) using 1
      rw [value, div_eq_div_iff (by positivity) (by positivity)]
      push_cast
      ring
    obtain ⟨hplaces, hgrid, hfirst⟩ := Decimal.Rounding.shortestFrom_first 149 1
      ⟨149, by decide, by decide, hlast⟩
    have hcontains := Decimal.Rounding.contains_of_onGrid (proper_rounding hpos) hgrid
    refine ⟨_, _, hplaces, if_neg hintegral, (isNearest_iff_contains hfinite hpos).mpr hcontains,
      fun _ m e hfewer hm => ?_⟩
    refine Decimal.Rounding.not_contains_of_fewer hplaces hcontains (fun q hq k => ?_) hfewer
      ((isNearest_iff_contains hfinite hpos).mp hm)
    rcases Nat.eq_zero_or_pos q with rfl | hq'
    · rw [pow_zero, div_one]
      exact not_contains_natCast hintegral k
    · exact Decimal.Rounding.not_contains_of_onGrid (hfirst q hq' hq) k

/-- **Finite numbers are read back from their literals.**  The literal is a numeral that is read as the
number: the integer followed by `.0` if there is no fraction, and otherwise one with the fewest digits. -/
theorem literal_reads_back (s : Single) (hfinite : s.isFinite = true) :
    ∃ a : Numeral, a.text = s.literal ∧ a.negative = s.negative ∧
      (∀ t, IsNearest a.negative a.magnitude t ↔ t = s) ∧
      (∀ k : Nat, s.value = k → s.literal = (if s.negative then "-" else "") ++ toString k ++ ".0") ∧
      ((∀ k : Nat, s.value ≠ k) → ∀ (negative : Bool) (m : Nat) (e : Int),
        (Nat.toDigits 10 m).length < (Nat.toDigits 10 a.coefficient).length →
          ¬ IsNearest negative (m * 10 ^ e) s) := by
  obtain ⟨n, places, hplaces, hgrid, hnearest, hshortest⟩ := exists_positional hfinite
  obtain ⟨a, htext, hsign, hcoefficient, hlength⟩ := Decimal.exists_numeral s.negative n hplaces
  have hliteral : s.literal = (if s.negative then "-" else "") ++ s.magnitude := if_pos hfinite
  refine ⟨a, by rw [htext, hliteral, hgrid], hsign, fun t => ?_, fun k hk => ?_, ?_⟩
  · rw [Numeral.magnitude, hcoefficient, hlength, hsign]
    exact ⟨fun h => h.unique hnearest, fun heq => heq ▸ hnearest⟩
  · rw [hliteral, magnitude_of_value hk, String.append_assoc]
  · rintro hfraction negative m e hfewer h
    obtain rfl := h.sign
    rw [hcoefficient] at hfewer
    exact hshortest (fun hintegral => (isIntegral_iff.mp hintegral).elim hfraction) m e hfewer h

/-- A subnormal number, of which one digit is enough. -/
theorem literal_reads_back_subnormal :
    Single.isFinite ⟨0x80000001⟩ = true ∧ ∃ a : Numeral, a.text = Single.literal ⟨0x80000001⟩ ∧
      a.negative = true ∧ ∀ t, IsNearest a.negative a.magnitude t ↔ t = ⟨0x80000001⟩ := by
  obtain ⟨a, htext, hsign, hread, -⟩ := literal_reads_back ⟨0x80000001⟩ (by decide)
  exact ⟨by decide, a, htext, hsign, hread⟩

theorem isNumeral_literal_iff (s : Single) : IsNumeral s.literal ↔ s.isFinite = true := by
  constructor
  · rintro ⟨a, ha⟩
    have hpoint : '.' ∈ s.literal.toList := by
      rw [← ha, Numeral.text, String.toList_append, String.toList_ofList]
      simp
    by_contra hfinite
    rw [literal, if_neg hfinite] at hpoint
    revert hpoint
    cases s.fractionField != 0 <;> cases s.negative <;> decide
  · intro hfinite
    obtain ⟨n, places, hplaces, hgrid, -⟩ := exists_positional hfinite
    obtain ⟨a, htext, -⟩ := Decimal.exists_numeral s.negative n hplaces
    exact ⟨a, by rw [htext, literal, if_pos hfinite, hgrid]⟩

end Single

/-! ### Definitions -/

namespace Visit

variable {v : Visit} {i : Instruction}

theorem Does.constants_after (h : v.Does) :
    v.after.constants = v.before.constants ++ (v.instruction?.bind Instruction.constant?).toList := by
  cases h with
  | idle other _ _ _ _ _ after | rest other _ _ after =>
    rw [after, other]
    exact (List.append_nil _).symm
  | finish other mark opened after =>
    rw [after, other]
    exact (congrArg Inventory.constants (Scan.inventory_close _ _)).trans (List.append_nil _).symm
  | execute i s this h =>
    have hbefore : s.constants = v.before.constants := by rw [h.fetches.frame]
    have hafter := congrArg Inventory.constants (Scan.inventory_executed h.sound)
    rw [this, h.after, ← hbefore]
    exact hafter.trans (Scan.constants_account h.legal)

theorem Executes.literals_eq {s : Scan} (h : v.Executes i s) (hop : i.opcode = .defF) :
    i.literals = ⟨v.rest.getD 1 0, v.rest.getD 2 0, v.rest.getD 3 0, v.rest.getD 4 0⟩ := by
  have hread := congrArg Arguments.literals h.arguments.1
  rw [hop] at hread
  refine hread.trans ?_
  cases v.rest <;> rfl

end Visit

open Glsl (Profile HasLine literalsLine constantLine literalText vectorText)

section Definitions

variable {p : Profile} {o : Options} {ws : List Word} {l : LinkedShader}
  (clean : (liftWords p o ws).errors = []) (hlink : linkShader o ws = .ok l)
include clean hlink

theorem constants_eq : l.scan.constants = (unitsOf o ws).flatMap fun v =>
    (v.instruction?.bind Instruction.constant?).toList := by
  obtain ⟨w, us, env, t, -, hlinked, hrun, hscan, -, -⟩ := run_of_no_errors clean
  cases hlinked.symm.trans hlink
  have happended := hrun.appended (f := Scan.constants) (fun _ _ => rfl) (fun _ => rfl)
    (fun _ h => h.constants_after) (does_of_no_errors p o ws clean)
  show (Scan.ofUnits env us).constants = _
  rw [hscan]
  exact happended

theorem mem_floats_iff {c : Constant} : c ∈ Constant.floats l.scan.constants ↔
    ∃ v ∈ unitsOf o ws, ∃ i, v.instruction? = some i ∧ i.opcode = .defF ∧
      c = ⟨.float, i.dest.register.number, i.literals⟩ := by
  have hfloat : ∀ i : Instruction, (c ∈ i.constant? ∧ c.kind = .float) ↔
      i.opcode = .defF ∧ c = ⟨.float, i.dest.register.number, i.literals⟩ := by
    intro i
    unfold Instruction.constant?
    cases i.opcode with
    | defF => exact ⟨fun h => ⟨rfl, (Option.some.inj h.1).symm⟩, fun h => h.2 ▸ ⟨rfl, rfl⟩⟩
    | defI | defB =>
      refine ⟨fun h => ?_, fun h => nomatch h.1⟩
      obtain rfl := Option.some.inj h.1
      cases h.2
    | _ => exact ⟨fun h => (nomatch h.1), fun h => (nomatch h.1)⟩
  simp only [Constant.floats, List.mem_filter, decide_eq_true_iff, constants_eq clean hlink,
    List.mem_flatMap, Option.mem_toList, Option.bind_eq_some_iff]
  constructor
  · rintro ⟨⟨v, hv, i, hi, hc⟩, hkind⟩
    exact ⟨v, hv, i, hi, (hfloat i).mp ⟨hc, hkind⟩⟩
  · rintro ⟨v, hv, i, hi, hdefines⟩
    obtain ⟨hc, hkind⟩ := (hfloat i).mpr hdefines
    exact ⟨⟨v, hv, i, hi, hc⟩, hkind⟩

end Definitions

def floatsText (value : Quad Word) : String := vectorText "vec4" (value.map fun w => Single.literal ⟨w⟩)

theorem literalText_eq {c : Constant} (h : c.kind = .float) : literalText c = floatsText c.value := by
  rw [literalText, h]
  rfl

/-- **Literals of definitions.**  Definitions of floats, and the arrays that are made out of them, are
written with the literals of their words.  The literal of a word is a numeral iff its bits are those of a
finite number. -/
theorem lift_writes_numerals_iff_finite (p : Profile) (o : Options) (ws : List Word)
    (success : (liftWords p o ws).errors = []) :
    ∃ l, linkShader o ws = .ok l ∧
      (∀ v ∈ unitsOf o ws, ∀ i, v.instruction? = some i → i.opcode = .defF →
        i.literals = ⟨v.rest.getD 1 0, v.rest.getD 2 0, v.rest.getD 3 0, v.rest.getD 4 0⟩ ∧
        HasLine (liftWords p o ws).output
          (constantLine l.env.toShader i.dest.register.number (floatsText i.literals))) ∧
      (p.hasArrayConstants = true → ∀ a, .literalArray a ∈ Glsl.declarations l →
        HasLine (liftWords p o ws).output
          (literalsLine l.env.toShader a.index (a.constants.map fun c => floatsText c.value)) ∧
        ∀ c ∈ a.constants, ∃ v ∈ unitsOf o ws, ∃ i, v.instruction? = some i ∧ i.opcode = .defF ∧
          c = ⟨.float, i.dest.register.number, i.literals⟩) ∧
      ∀ w : Word, IsNumeral (Single.literal ⟨w⟩) ↔ Single.isFinite ⟨w⟩ = true := by
  obtain ⟨w, us, env, -, -, good, hlink⟩ := linkShader_of_no_errors p o ws success
  have houtput : (liftWords p o ws).output = Glsl.program p o (.ofUnits env us) := by
    rw [liftWords_eq, hlink]
    rfl
  rw [houtput]
  refine ⟨.ofUnits env us, hlink, fun v hv i hi hop => ⟨?_, ?_⟩, fun hp a ha => ⟨?_, fun c hc => ?_⟩,
    fun w => Single.isNumeral_literal_iff ⟨w⟩⟩
  · obtain ⟨s, h⟩ := (does_of_no_errors p o ws success v hv).executes hi
    exact h.literals_eq hop
  · have hdefined := (mem_floats_iff success hlink).mpr ⟨v, hv, i, hi, hop, rfl⟩
    have hline := hasLine_constantLine p o hdefined
    rwa [literalText_eq rfl] at hline
  · have htexts : Glsl.elementTexts a = a.constants.map fun c => floatsText c.value := by
      refine List.map_congr_left fun c hc => ?_
      obtain ⟨-, hkind⟩ := List.mem_filter.mp ((mem_floats_of_literalArray good ha).2 c hc)
      exact literalText_eq (of_decide_eq_true hkind)
    rw [← htexts]
    exact (literalsAgree_ofUnits o hp good ha).array
  · exact (mem_floats_iff success hlink).mp ((mem_floats_of_literalArray good ha).2 c hc)

theorem paletteCode_writes_numerals :
    (liftWords .glsl120 {} paletteCode).errors = [] ∧ ∃ l, linkShader {} paletteCode = .ok l ∧
      ∀ a, .literalArray a ∈ Glsl.declarations l →
        HasLine (liftWords .glsl120 {} paletteCode).output
          (literalsLine l.env.toShader a.index (a.constants.map fun c => floatsText c.value)) := by
  obtain ⟨l, hlink, -, harrays, -⟩ :=
    lift_writes_numerals_iff_finite .glsl120 {} paletteCode (by decide +kernel)
  exact ⟨by decide +kernel, l, hlink, fun a ha => (harrays rfl a ha).1⟩

/-- A vertex shader with a constant of which a component is infinite. -/
def unboundedCode : List Word :=
  [0xFFFE0200,
    0x05000051, 0xA00F0000, 0x7F800000, 0, 0, 0,
    0x02000001, 0xC00F0000, 0xA0E40000,
    0xFFFF]

/-- What is written for it is no numeral. -/
theorem unboundedCode_writes_inf :
    (liftWords .glsl120 {} unboundedCode).errors = [] ∧
      HasLine (liftWords .glsl120 {} unboundedCode).output
        "const vec4 vs_c0 = vec4(inf, 0.0, 0.0, 0.0);" ∧
      Single.literal ⟨0x7F800000⟩ = "inf" ∧ ¬ IsNumeral "inf" := by
  have success : (liftWords .glsl120 {} unboundedCode).errors = [] := by decide +kernel
  have hliteral : Single.literal ⟨0x7F800000⟩ = "inf" := by decide
  refine ⟨success, ?_, hliteral, ?_⟩
  · have hfound : ((unitsOf {} unboundedCode).any fun v => v.instruction?.any fun i =>
        decide (i.opcode = .defF ∧ i.dest.register.number = 0 ∧ i.literals = ⟨0x7F800000, 0, 0, 0⟩ ∧
          v.env.toShader.shortName = "vs")) = true := by
      decide +kernel
    obtain ⟨v, hv, i, hi, hfacts⟩ := exists_instruction hfound
    obtain ⟨hop, hnumber, hliterals, hname⟩ := of_decide_eq_true hfacts
    obtain ⟨w, us, env, t, -, hlink, hrun, -⟩ := run_of_no_errors success
    have hdefined := (mem_floats_iff success hlink).mpr ⟨v, hv, i, hi, hop, rfl⟩
    have hline := hasLine_constantLine .glsl120 {} hdefined
    rw [literalText_eq rfl, hnumber, hliterals] at hline
    rw [hrun.env_eq v hv] at hname
    have htext : constantLine env.toShader 0 (floatsText ⟨0x7F800000, 0, 0, 0⟩) =
        "const vec4 vs_c0 = vec4(inf, 0.0, 0.0, 0.0);" := by
      unfold constantLine
      rw [hname]
      decide +kernel
    rw [liftWords_eq, hlink, ← htext]
    exact hline
  · rw [← hliteral, Single.isNumeral_literal_iff]
    decide

end ShaderLift
