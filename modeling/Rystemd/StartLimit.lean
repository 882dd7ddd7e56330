import Mathlib.Algebra.Order.Group.Nat
import Rystemd.Library.SlidingWindow
import Rystemd.Manager

namespace Rystemd

open SlidingWindow

variable {u v : Unit} {l : List (Nat × Bool)} {nows : List Nat} {now : Nat}

namespace StartChecks

end StartChecks

end Rystemd
