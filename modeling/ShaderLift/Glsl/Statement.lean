/-
Statements of generated code.  The code of a shader is one list of statements: first the body of the
entry point, up to the first `closeFunction`, then the subroutines.  Blocks are not nested as data;
they are opened and closed by statements of their own, the way the instructions open and close them.
-/
import ShaderLift.Glsl.Expr

namespace ShaderLift.Glsl

/-- What is assigned to: some components of a register.  A scalar register is assigned as a whole, and
so is one of which all components are written. -/
structure Target where
  register : Register
  mask : WriteMask
  scalar : Bool
  deriving Repr, DecidableEq

def Target.expr (t : Target) : Expr :=
  if t.scalar || t.mask.isXyzw then .register t.register
  else .lanes (.register t.register) t.mask.lanes

/-- Statements. -/
inductive Stmt where
  | assign (target : Target) (value : Expr)
  | vector3 (name : Ident) (value : Expr)
  /-- A call of the subroutine `label`, which is given the counter of the loop around it or nothing. -/
  | call (label : Nat) (counter : Bool)
  | callIf (test : Expr) (label : Nat) (counter : Bool)
  /-- A loop that counts as the integer register says: count, start and step. -/
  | openLoop (bounds : Register)
  | closeLoop
  /-- The `depth`-th nested plain repetition. -/
  | openRep (depth : Nat) (count : Expr)
  | openIf (test : Expr)
  | openElse
  | closeBlock
  | leave
  | leaveIf (test : Expr)
  /-- Gives the pixel up if one of the first three components is negative. -/
  | killIfNegative (r : Register)
  | openFunction (label : Nat) (counter : Bool)
  | closeFunction
  deriving Repr, DecidableEq

/-- Text that has to stand before the code that uses it. -/
inductive Helper where
  | lighting
  | reflection
  | textureLevels
  | largest
  deriving Repr, DecidableEq

/-- Helpers with one more, unless it is one of them. -/
def addHelper (hs : List Helper) (h : Helper) : List Helper := if hs.contains h then hs else hs ++ [h]

/-! ### Layout -/

/-- One step of laying text out: a line at the current depth, an empty line, or a change of depth. -/
inductive Layout where
  | line (text : String)
  | blank
  | indent
  | outdent
  deriving Repr, DecidableEq

namespace Layout

/-- The text of a line at some depth; depths below zero count as zero. -/
def lineAt (depth : Int) (text : String) : String :=
  String.ofList (List.replicate depth.toNat '\t') ++ text ++ "\n"

/-- Lays text out from a depth on, and says at which depth it ends. -/
def run : List Layout → Int → String × Int
  | [], depth => ("", depth)
  | .line text :: rest, depth =>
    let r := run rest depth
    (lineAt depth text ++ r.1, r.2)
  | .blank :: rest, depth =>
    let r := run rest depth
    ("\n" ++ r.1, r.2)
  | .indent :: rest, depth => run rest (depth + 1)
  | .outdent :: rest, depth => run rest (depth - 1)

def lines (ls : List String) : List Layout := ls.map Layout.line

end Layout

def callArgument (counter : Bool) : String := if counter then "aL" else ""

def Stmt.layout (sh : Shader) : Stmt → List Layout
  | .assign target value => [.line (target.expr.text sh ++ " = " ++ value.text sh ++ ";")]
  | .vector3 name value => [.line ("vec3 " ++ name.text sh ++ " = " ++ value.text sh ++ ";")]
  | .call label counter =>
    [.line (Register.name sh ⟨.label, label⟩ ++ "(" ++ callArgument counter ++ ");")]
  | .callIf test label counter =>
    [.line ("if (" ++ test.text sh ++ ") \x7b " ++ Register.name sh ⟨.label, label⟩ ++ "("
      ++ callArgument counter ++ "); \x7d")]
  | .openLoop bounds =>
    let b := bounds.name sh
    [.line "\x7b", .indent,
      .line ("const int aLend = " ++ b ++ ".x + " ++ b ++ ".y;"),
      .line ("for (int aL = " ++ b ++ ".y; aL < aLend; aL += " ++ b ++ ".z) \x7b"),
      .indent]
  | .closeLoop => [.outdent, .line "\x7d", .outdent, .line "\x7d"]
  | .openRep depth count =>
    [.line (s!"for (int rep{depth} = 0; rep{depth} < " ++ count.text sh ++ s!"; rep{depth}++) \x7b"),
      .indent]
  | .openIf test => [.line ("if (" ++ test.text sh ++ ") \x7b"), .indent]
  | .openElse => [.outdent, .line "\x7d else \x7b", .indent]
  | .closeBlock => [.outdent, .line "\x7d"]
  | .leave => [.line "break;"]
  | .leaveIf test => [.line ("if (" ++ test.text sh ++ ") \x7b break; \x7d")]
  | .killIfNegative r =>
    [.line ("if (any(lessThan(" ++ r.name sh ++ ".xyz, vec3(0.0)))) discard;")]
  | .openFunction label counter =>
    [.line ("void " ++ Register.name sh ⟨.label, label⟩ ++ "("
      ++ (if counter then "int aL" else "") ++ ")"),
      .line "\x7b", .indent]
  | .closeFunction => [.outdent, .line "\x7d", .blank]

end ShaderLift.Glsl
