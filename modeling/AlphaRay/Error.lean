import AlphaRay.Protocol.Vless

namespace AlphaRay

-- `http::Error` and `hyper::Error`, by their texts.
structure HttpError where
  message : String
  deriving DecidableEq

structure HttpStreamError where
  message : String
  deriving DecidableEq

-- The errors that the modelled functions make or convert. `Other` holds the text of its error.
inductive AlphaRayError where
  | Io (error : IoError)
  | Http (error : HttpError)
  | HttpStream (error : HttpStreamError)
  | Vless (error : VlessError)
  | Permission
  | Connection
  | Other (message : String)
  deriving DecidableEq

end AlphaRay
