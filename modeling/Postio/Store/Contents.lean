import Postio.Lib.Table
import Postio.Store.MailStore

set_option autoImplicit false

namespace Postio

structure ContentId where
  get : Nat
  deriving DecidableEq, Repr

/-- What a backend guarantees to be the same content wherever it names it. -/
structure ContentIdentity where
  space : List Char
  key : List Char
  deriving DecidableEq

/-- Equality as SQL has it: nothing equals `NULL`. -/
def sqlEqual {Value : Type} [DecidableEq Value] (first second : Option Value) : Bool := first.isSome && first = second

def isLocal : BodyState -> Bool
  | .partly | .full => true
  | .notFetched | .headersOnly => false

end Postio
