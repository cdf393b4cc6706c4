/-
The text of a program while it is put out.  It is kept in sections, of which one is the current one, so
that a declaration can be put out in the middle of a function.  A redirection turns to another section, at
depth zero; when it ends, section and depth are taken from a stack.
-/
import ShaderLift.Glsl.Statement

namespace ShaderLift.Glsl

/-- The parts of a program, in their order. -/
inductive Section where
  /-- Version and packed constants. -/
  | preface
  | globals
  | helpers
  | subroutines
  /-- The head of the entry point with its local declarations. -/
  | intro
  /-- The rest of the entry point. -/
  | main
  deriving Repr, DecidableEq

structure Buffer where
  text : Section → String := fun _ => ""
  current : Section := .main
  depth : Int := 0
  /-- Where redirections come back to, the last one first. -/
  stack : List (Section × Int) := []
  /-- How often a redirection was ended that was not there. -/
  unmatched : Nat := 0

namespace Buffer

def put (b : Buffer) (steps : List Layout) : Buffer :=
  let laid := Layout.run steps b.depth
  { b with
    text := fun s => if s = b.current then b.text s ++ laid.1 else b.text s
    depth := laid.2 }

/-- Turns to a section for good; the depth stays. -/
def set (b : Buffer) (target : Section) : Buffer := { b with current := target }

def push (b : Buffer) (target : Section) : Buffer :=
  { b with current := target, depth := 0, stack := (b.current, b.depth) :: b.stack }

/-- Ends the last redirection; if there is none, nothing else happens. -/
def pop (b : Buffer) : Buffer :=
  match b.stack with
  | [] => { b with unmatched := b.unmatched + 1 }
  | (current, depth) :: stack => { b with current, depth, stack }

def redirect (b : Buffer) (target : Section) (steps : List Layout) : Buffer :=
  ((b.push target).put steps).pop

def joined (b : Buffer) : String :=
  b.text .preface ++ b.text .globals ++ b.text .helpers ++ b.text .subroutines ++ b.text .intro
    ++ b.text .main

end Buffer

end ShaderLift.Glsl
