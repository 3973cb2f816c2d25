import LaneBoost.Backend
import LaneBoost.Checked

/-!
# Status codes and failures

Factories and kernels answer with a status code. Callers of the library see a code that is not `ok`
as a `Failure`; one failure, the missing backend, arises before any zone is asked.
-/
namespace LaneBoost

/-- Why a request was turned down. -/
inductive Failure where
  | outOfMemory
  | unexpectedInternal
  | illegalParameter
  | unknownName
  | unsupportedBackend (backend : Backend)
  deriving DecidableEq, Repr

inductive Status where
  | ok
  | outOfMemory
  | unexpectedInternal
  | illegalParameter
  | unknownName
  deriving DecidableEq, Repr

namespace Status

def code : Status → Int
  | ok => 0
  | outOfMemory => -1
  | unexpectedInternal => -2
  | illegalParameter => -3
  | unknownName => -4

def isOk : Status → Bool
  | ok => true
  | _ => false

/-- Success, or the failure that the code stands for. -/
def result : Status → Except Failure Unit
  | ok => .ok ()
  | outOfMemory => .error .outOfMemory
  | unexpectedInternal => .error .unexpectedInternal
  | illegalParameter => .error .illegalParameter
  | unknownName => .error .unknownName

end Status

namespace Failure

def message : Failure → String
  | outOfMemory => "Out of memory while constructing objective"
  | unexpectedInternal => "Unexpected internal error"
  | illegalParameter => "Illegal parameter value"
  | unknownName => "Unknown objective identifier"
  | unsupportedBackend b => "Backend not supported on this platform: " ++ b.label

/-- The code that reports the failure. A missing backend counts as an unknown name. -/
def status : Failure → Status
  | outOfMemory => .outOfMemory
  | unexpectedInternal => .unexpectedInternal
  | illegalParameter => .illegalParameter
  | unknownName | unsupportedBackend _ => .unknownName

end Failure

/-- The two ways in which a request can end without a result. -/
inductive Fault where
  | failed (failure : Failure)
  | violated (violation : Violation)
  deriving DecidableEq, Repr

instance : MonadLift (Except Violation) (Except Fault) := ⟨Except.mapError .violated⟩
instance : MonadLift (Except Failure) (Except Fault) := ⟨Except.mapError .failed⟩

end LaneBoost
