import KnxDatapoint.Family
import KnxDatapoint.Decimal.Shortest

/-! Why a telegram is refused: its width, or the value it stands for. -/
namespace KnxDatapoint

inductive Fault where
  | wrongLength (expected actual : Nat)
  | outOfRange (type : DatapointType) (value : Single) (range : Range)
  deriving DecidableEq

namespace Fault

def isLength : Fault → Bool
  | .wrongLength .. => true
  | .outOfRange .. => false

def isOutOfRange : Fault → Bool
  | .wrongLength .. => false
  | .outOfRange .. => true

/-- The finding alone, without the kind of fault. -/
def detail : Fault → String
  | .wrongLength expected actual => s!"expected {expected} bytes, got {actual}"
  | .outOfRange type value range =>
    let shown := String.ofList (Decimal.twoPlaces value)
    let least := String.ofList (Decimal.plain range.least)
    let greatest := String.ofList (Decimal.plain range.greatest)
    s!"DPT {type.identifier}: value \"{shown}\" outside range [{least}, {greatest}]"

def message (fault : Fault) : String :=
  match fault with
  | .wrongLength .. => "Length error: " ++ fault.detail
  | .outOfRange .. => "Range error: " ++ fault.detail

end Fault
end KnxDatapoint
