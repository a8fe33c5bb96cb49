import Bi100.Lib.Action

/-!
# Exceptions

The exceptions that the modelled code raises. Where the source formats numbers into a message,
the model formats the same numbers; values of the types that the model leaves open (keys, digests,
ids) are not printed.
-/

namespace Bi100

abbrev Bytes := List UInt8

inductive Err where
  | valueError (msg : String)
  | typeError (msg : String)
  | runtimeError (msg : String)
  | assertionError (msg : String)
  | attributeError (msg : String)
  | keyError
  | indexError (msg : String)
  | zeroDivisionError
  /-- A bare `Exception`. -/
  | exception (msg : String)
  | recursionError
  | notImplementedError (msg : String)
  /-- `struct.error`: a value does not fit the format. -/
  | structError
  /-- `BlockAllocator.NoFreeBlocksError`. -/
  | noFreeBlocksError
deriving DecidableEq, Repr

end Bi100
