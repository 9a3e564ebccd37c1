import AlphaRay.Error
import AlphaRay.Lib.Async

namespace AlphaRay

open Lib

-- An outbound is handed on as a trait object, so it may do anything with a target. Its
-- state is what it holds and everything that it can change.
class Outbound (O : Type) (T : outParam Type) where
  connect : TargetAddr → Async O AlphaRayError T

end AlphaRay
