/-
Status codes of remote calls.
-/
import LedgerClient.Error

namespace LedgerClient

/-- The names of the codes, from zero on. -/
def rpcStatusNames : List String :=
  ["Ok", "Cancelled", "Unknown", "InvalidArgument", "DeadlineExceeded", "NotFound", "AlreadyExists",
    "PermissionDenied", "ResourceExhausted", "FailedPrecondition", "Aborted", "OutOfRange",
    "Unimplemented", "Internal", "Unavailable", "DataLoss", "Unauthenticated"]

/-- The name of a code, also of one that is not known. -/
def rpcStatusName (code : Int32) : String :=
  if 0 ≤ code.toInt then rpcStatusNames.getD code.toInt.toNat "Unknown" else "Unknown"

/-- A remote call that ended with a status, which is an error even where the code says otherwise. -/
def ClientError.ofRpcStatus (code : Int32) (text : String) : ClientError :=
  .transport s!"{rpcStatusName code}: {text}"

end LedgerClient
