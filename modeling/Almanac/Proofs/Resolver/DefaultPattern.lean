import Almanac.Proofs.FieldValues.Date
import Almanac.Proofs.FieldValues.TimeOfDay
import Almanac.Resolver

namespace Almanac.Settings

variable {v : FieldValues} {r : Reading}

end Almanac.Settings
