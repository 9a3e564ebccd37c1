import AlphaRay.Inbound.Handler
import AlphaRay.Util.TargetAddr

namespace AlphaRay

inductive Method where
  | CONNECT
  | Other (name : String)
  deriving DecidableEq

inductive StatusCode where
  | OK
  | BAD_REQUEST
  | METHOD_NOT_ALLOWED
  deriving DecidableEq

-- The body of a response is a text, or the text of an error.
inductive Body where
  | Text (text : String)
  | Error (error : AlphaRayError)
  deriving DecidableEq

structure Response where
  status : StatusCode
  body : Body
  deriving DecidableEq

namespace HttpInbound

-- The service of a connection: its response to a request, and the target of the tunnel for
-- which it waits behind the response.
def service (method : Method) (authority : Option String) : Response × Option TargetAddr :=
  if method ≠ .CONNECT then
    (⟨.METHOD_NOT_ALLOWED, .Text "This server is only serving as a proxy"⟩, none)
  else
    match authority with
    | some a =>
        match TargetAddr.from_str a with
        | .ok a => (⟨.OK, .Text ""⟩, some a)
        | .error err => (⟨.BAD_REQUEST, .Error err⟩, none)
    | none => (⟨.BAD_REQUEST, .Text "CONNECT method needs an authority"⟩, none)

-- Exactly the requests that are answered with OK are waited for.
theorem service_eq_some {method : Method} {authority : Option String} {target : TargetAddr} :
    (service method authority).2 = some target ↔
      method = .CONNECT ∧ ∃ a, authority = some a ∧ TargetAddr.from_str a = .ok target := by
  unfold service
  split_ifs with hmethod
  · exact iff_of_false (by simp) fun h => hmethod h.1
  · rw [not_not] at hmethod
    cases authority with
    | none => simp
    | some a =>
        cases hparse : TargetAddr.from_str a with
        | ok t => simp [hmethod, hparse]
        | error e => simp [hparse]

end HttpInbound

end AlphaRay
