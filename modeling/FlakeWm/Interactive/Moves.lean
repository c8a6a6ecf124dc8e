import FlakeWm.Interactive.Model
import Mathlib.Tactic.Common

/-! When a moved window stays within reach. -/

namespace FlakeWm.Interactive

open FlakeWm.Views (Margin Edge Output)

end FlakeWm.Interactive
