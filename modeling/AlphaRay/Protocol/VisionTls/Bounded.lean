import AlphaRay.Protocol.VisionTls.Acts
import AlphaRay.Protocol.VisionTls.Malformed
import Mathlib.Logic.Relation

namespace AlphaRay

open Lib Async

namespace VisionTlsStream

variable {S C R : Type} {st next : VisionTlsStream S C R} {buf out : ReadBuf}

section Calls

variable [AsyncStream S] [Connection C]

end Calls

end VisionTlsStream

open VisionTlsStream

end AlphaRay
