/-
The blocks of a preshader.  After its version word a preshader is a sequence of comments, each of which
holds one block: a symbol table, literals, an output map, or code.  The blocks come in any order, each
at most once; empty comments are skipped, and an end word ends the sequence whatever follows.
-/
import ShaderLift.Attempt

namespace ShaderLift

namespace Word

def endMark : Word := 0x0000FFFF

/-- The number of words that follow a comment's first word, if this is one. -/
def commentLength? (w : Word) : Option Nat :=
  if field w 0 16 = 0xFFFE then some (field w 16 16) else none

def symbolTableId : Word := 0x42415443

def preshaderId : Word := 0x53455250

/-- What the output map of a preshader starts with. -/
def outputMapId : Word := 0x49535250

def literalsId : Word := 0x54494C43

def codeId : Word := 0x434C5846

end Word

namespace Preshader

/-- The blocks of a preshader, each without the word that names it. -/
structure Blocks where
  table : Option (List Word) := none
  outputs : Option (List Word) := none
  literals : Option (List Word) := none
  code : Option (List Word) := none
  deriving Repr, DecidableEq

def Blocks.insert (bs : Blocks) (id : Word) (body : List Word) : Attempt Blocks :=
  let put (place : Option (List Word)) (filled : Blocks) : Attempt Blocks :=
    if place.isSome then Attempt.stop (.preshaderRepeated id) else pure filled
  if id = Word.symbolTableId then put bs.table { bs with table := some body }
  else if id = Word.outputMapId then put bs.outputs { bs with outputs := some body }
  else if id = Word.literalsId then put bs.literals { bs with literals := some body }
  else if id = Word.codeId then put bs.code { bs with code := some body }
  else Attempt.stop .preshaderSection

def collect (bs : Blocks) : List Word → Attempt Blocks
  | [] => pure bs
  | w :: ws =>
    match Word.commentLength? w with
    | none => if w = Word.endMark then pure bs else Attempt.stop .preshaderData
    | some n =>
      if ws.length < n then Attempt.stop .preshaderData
      else
        let rest := ws.drop n
        match ws.take n with
        | [] => collect bs rest
        | id :: body => do
          let bs ← bs.insert id body
          collect bs rest
termination_by ws => ws.length
decreasing_by
  all_goals
    simp only [List.length_cons, List.length_drop]
    omega

end Preshader

end ShaderLift
