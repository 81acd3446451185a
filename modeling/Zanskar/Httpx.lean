/-!
# Answers (`internal/httpx/httpx.go`)

What a handler answers when it refuses: the status, a code a client can act on,
and a message.
-/

namespace Zanskar

structure Answer where
  status : Nat
  code : String
  message : String
  deriving DecidableEq

/-- `BadRequest`. -/
def badRequest (message : String) : Answer := ⟨400, "bad_request", message⟩

/-- `Internal`: what a failure is answered with. -/
def internalError : Answer := ⟨500, "internal", "internal error"⟩

end Zanskar
