/-!
# Operation results

`util/status.h`: a `Status` is OK or an error code with a message.
-/

namespace LevelDbXy

/-- A `Status`. The null `state_` of the source is `ok`; every other code
carries the message it was built with. -/
inductive Status where
  | ok
  | notFound (msg : String)
  | corruption (msg : String)
  | notSupported (msg : String)
  | invalidArgument (msg : String)
  | ioError (msg : String)
  deriving DecidableEq, Repr

namespace Status

/-- `Status::ok`. -/
def isOk : Status → Bool
  | .ok => true
  | _ => false

/-- `Status::IsCorruption`. -/
def isCorruption : Status → Bool
  | .corruption _ => true
  | _ => false

/-- `Status::IsNotFound`. -/
def isNotFound : Status → Bool
  | .notFound _ => true
  | _ => false

/-- `Status::Code`. -/
inductive Code where
  | kOk
  | kNotFound
  | kCorruption
  | kNotSupported
  | kInvalidArgument
  | kIOError
  deriving DecidableEq, Repr

/-- `Status::code`. -/
def code : Status → Code
  | .ok => .kOk
  | .notFound _ => .kNotFound
  | .corruption _ => .kCorruption
  | .notSupported _ => .kNotSupported
  | .invalidArgument _ => .kInvalidArgument
  | .ioError _ => .kIOError

/-- The message of a `Status` built from two parts. -/
def message (msg msg2 : String) : String := if msg2.isEmpty then msg else msg ++ ": " ++ msg2

@[simp] theorem isOk_iff (status : Status) : status.isOk = true ↔ status = .ok := by
  cases status <;> simp [isOk]

end Status

end LevelDbXy
