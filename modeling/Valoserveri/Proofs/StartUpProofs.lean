import Valoserveri.StartUp
import Valoserveri.Proofs.CompletionProofs
import Valoserveri.Proofs.ConfigProofs

/-!
# When the server starts

The server gets to its loop exactly if the values that it looks at in its configuration are well formed
and the system gives it its log file and its port.
-/

namespace Valoserveri

open ExceptRun

/-! ## Numbers -/

end Valoserveri
