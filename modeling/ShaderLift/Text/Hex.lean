/-
Numbers in base sixteen.  Diagnostics write them in upper case, some of them padded with zeros to a
fixed width; machine-readable output writes them in lower case.
-/

namespace ShaderLift.Hex

/-- The hexadecimal digits of `n` in lower case, at least `width` of them. -/
def lower (n : Nat) (width : Nat) : String :=
  let digits := Nat.toDigits 16 n
  String.ofList (List.replicate (width - digits.length) '0' ++ digits)

/-- The hexadecimal digits of `n` in upper case, at least `width` of them. -/
def upper (n : Nat) (width : Nat) : String :=
  let digits := (Nat.toDigits 16 n).map Char.toUpper
  String.ofList (List.replicate (width - digits.length) '0' ++ digits)

end ShaderLift.Hex
