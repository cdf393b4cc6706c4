/-
Decoding of text from bytes that need not be well formed.  A sequence is a lead byte followed by
continuation bytes; how many follow, and what range the first of them has, depends on the lead.
Where a sequence breaks off, the part read so far stands for one replacement character, and decoding
goes on at the byte that did not fit.
-/

namespace ShaderLift.Utf8

/-- The character that stands for a sequence that is not well formed. -/
def replacement : Char := Char.ofNat 0xFFFD

def within (lo hi b : UInt8) : Bool :=
  lo ≤ b && b ≤ hi

/-- Whether a byte may continue a sequence after its second byte. -/
def isContinuation (b : UInt8) : Bool :=
  within 0x80 0xBF b

/-- The range of the second byte of a sequence of three or four: it keeps out overlong forms, surrogates and
numbers above the last code point. -/
def secondRange (lead : UInt8) : UInt8 × UInt8 :=
  if lead = 0xE0 then (0xA0, 0xBF)
  else if lead = 0xED then (0x80, 0x9F)
  else if lead = 0xF0 then (0x90, 0xBF)
  else if lead = 0xF4 then (0x80, 0x8F)
  else (0x80, 0xBF)

/-- Whether `b` may stand second after `lead`. -/
def isSecond (lead b : UInt8) : Bool :=
  within (secondRange lead).1 (secondRange lead).2 b

def payload (b : UInt8) : Nat :=
  b.toNat % 64

/-- The character that starts with `lead`, and how many of the bytes `rest` belong to it. -/
def sequence (lead : UInt8) (rest : List UInt8) : Char × Nat :=
  if lead < 0x80 then (Char.ofNat lead.toNat, 0)
  else if within 0xC2 0xDF lead then
    match rest with
    | b :: _ =>
      if isContinuation b then (Char.ofNat (lead.toNat % 32 * 64 + payload b), 1)
      else (replacement, 0)
    | [] => (replacement, 0)
  else if within 0xE0 0xEF lead then
    match rest with
    | b :: rest =>
      if !isSecond lead b then (replacement, 0)
      else match rest with
        | c :: _ =>
          if isContinuation c then
            (Char.ofNat (lead.toNat % 16 * 4096 + payload b * 64 + payload c), 2)
          else (replacement, 1)
        | [] => (replacement, 1)
    | [] => (replacement, 0)
  else if within 0xF0 0xF4 lead then
    match rest with
    | b :: rest =>
      if !isSecond lead b then (replacement, 0)
      else match rest with
        | c :: rest =>
          if !isContinuation c then (replacement, 1)
          else match rest with
            | d :: _ =>
              if isContinuation d then
                (Char.ofNat
                  (lead.toNat % 8 * 262144 + payload b * 4096 + payload c * 64 + payload d), 3)
              else (replacement, 2)
            | [] => (replacement, 2)
        | [] => (replacement, 1)
    | [] => (replacement, 0)
  else (replacement, 0)

/-- The characters of a byte string, with a replacement character for each broken sequence. -/
def chars : List UInt8 → List Char
  | [] => []
  | lead :: rest =>
    let s := sequence lead rest
    s.1 :: chars (rest.drop s.2)
termination_by bytes => bytes.length
decreasing_by
  simp only [List.length_cons, List.length_drop]
  omega

def decode (bytes : List UInt8) : String :=
  String.ofList (chars bytes)

end ShaderLift.Utf8
