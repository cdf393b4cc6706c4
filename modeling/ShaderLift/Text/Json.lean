/-
JSON values and their indented text.  Fields are written in the order in which they are given; every
element and every field has a line of its own, two blanks a level further in than what it belongs to.
-/
import ShaderLift.Text.Hex

namespace ShaderLift

inductive Json where
  | null
  | bool (b : Bool)
  | number (n : Nat)
  | string (s : String)
  | array (elements : List Json)
  | object (fields : List (String × Json))

namespace Json

/-! ### Strings -/

/-- A character inside of quotes.  Only quotes, backslashes and control characters are escaped. -/
def escapeChar (c : Char) : String :=
  if c = '"' then "\\\""
  else if c = '\\' then "\\\\"
  else if c = '\n' then "\\n"
  else if c = '\r' then "\\r"
  else if c = '\t' then "\\t"
  else if c.toNat = 8 then "\\b"
  else if c.toNat = 12 then "\\f"
  else if c.toNat < 32 then "\\u" ++ Hex.lower c.toNat 4
  else c.toString

def quote (s : String) : String :=
  "\"" ++ String.join (s.toList.map escapeChar) ++ "\""

/-! ### Values -/

def margin (level : Nat) : String := String.ofList (List.replicate (2 * level) ' ')

/-- Lines between brackets, or just the brackets. -/
def enclose (level : Nat) (left right : String) (lines : List String) : String :=
  if lines.isEmpty then left ++ right
  else
    left ++ "\n" ++ ",\n".intercalate (lines.map (margin (level + 1) ++ ·)) ++ "\n"
      ++ margin level ++ right

mutual

/-- The text of a value whose first line is at some level. -/
def textAt (level : Nat) : Json → String
  | .null => "null"
  | .bool b => if b then "true" else "false"
  | .number n => toString n
  | .string s => quote s
  | .array elements => enclose level "[" "]" (elementTexts (level + 1) elements)
  | .object fields => enclose level "\x7b" "\x7d" (fieldTexts (level + 1) fields)

def elementTexts (level : Nat) : List Json → List String
  | [] => []
  | e :: es => textAt level e :: elementTexts level es

def fieldTexts (level : Nat) : List (String × Json) → List String
  | [] => []
  | (key, e) :: es => (quote key ++ ": " ++ textAt level e) :: fieldTexts level es

end

def text (j : Json) : String := j.textAt 0

def ofOption {α : Type} (f : α → Json) : Option α → Json
  | none => .null
  | some a => f a

end Json

end ShaderLift
