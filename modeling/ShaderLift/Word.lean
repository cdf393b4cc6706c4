/-
Shader code is a sequence of 32-bit words.  A word packs several numbers, each in a run of
consecutive bits, so everything a word says is read off with `Word.field`: the number in the bits
`low, …, low + width - 1`.  On disk a word is four bytes, lowest first.
-/

namespace ShaderLift

abbrev Word := UInt32

namespace Word

/-! ### Bits -/

/-- The number in the `width` bits of `w` from bit `low` up. -/
def field (w : Word) (low width : Nat) : Nat :=
  w.toNat / Nat.pow 2 low % Nat.pow 2 width

def flag (w : Word) (i : Nat) : Bool :=
  field w i 1 == 1

def meets (w mask : Word) : Bool :=
  w &&& mask != 0

theorem field_lt (w : Word) (low width : Nat) : field w low width < Nat.pow 2 width :=
  Nat.mod_lt _ (Nat.two_pow_pos width)

/-! ### Bytes -/

def ofBytes (a b c d : UInt8) : Word :=
  UInt32.ofNat (a.toNat + 256 * b.toNat + 65536 * c.toNat + 16777216 * d.toNat)

def bytes (w : Word) : List UInt8 :=
  [UInt8.ofNat (field w 0 8), UInt8.ofNat (field w 8 8),
    UInt8.ofNat (field w 16 8), UInt8.ofNat (field w 24 8)]

/-- Splits bytes into words; one to three bytes left over at the end are dropped. -/
def listOfBytes : List UInt8 → List Word
  | a :: b :: c :: d :: rest => ofBytes a b c d :: listOfBytes rest
  | _ => []

end Word

end ShaderLift
