import Xv6.Proc.Lemmas.Core
import Xv6.Proc.Lemmas.Step

namespace Xv6

open Outcome

variable {n : Nat}

namespace Core

variable {s : Core n} {x : Int}

end Core

namespace State

variable {s : State n} {x : Int}

end State
end Xv6
