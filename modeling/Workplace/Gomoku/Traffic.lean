import Workplace.Http.Conversations
import Workplace.Gomoku.PeakOnline

/-! `GomokuServer` behind `HttpServer`: what holds of it whatever bytes arrive. -/

namespace Workplace.Gomoku
open Workplace.Http Workplace.Lib

section Callback
variable (J : JsonLib) (S : StdSort Cell) (world : ℕ → Env)

end Callback

/-! ## Who is known to the server -/

section Known
variable {J : JsonLib} {S : StdSort Cell}

end Known

/-! ## Any bytes -/

end Workplace.Gomoku
