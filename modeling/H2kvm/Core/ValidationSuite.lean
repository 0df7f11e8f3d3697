import H2kvm.Framework.Semaphore

namespace H2kvm.Core.Validation

open Framework

inductive SkipReason where
  | skipChecks
  | skipTags (hit : String)
  | skipIf
  | skipExpensive
  | failFast
  | dependencyMissing (dep : String)
  | dependencySkipped (dep : String)
  | dependencyFailed (dep : String)
  | stoppedOnCritical
  | notExecuted
  deriving DecidableEq

inductive CheckError where
  | message (text : String)
  | exceededSoftTimeout
  | timedOut
  | cannotRunInSubprocess
  | cannotRunParallelProcess (strict : Bool)
  | failedToRead (text : String)
  | exitedWithoutResult
  | executionFailed (text : String)
  | unknown
  deriving DecidableEq

inductive Mode where
  | inprocess
  | subprocess
  | parallel
  | skipped
  deriving DecidableEq

structure CheckResult where
  name : String
  passed : Bool
  critical : Bool
  error : Option CheckError := none
  skipped : Bool := false
  skipReason : Option SkipReason := none
  tags : List String := []
  timedOut : Bool := false
  terminated : Bool := false
  mode : Mode := .inprocess
  attempts : Nat := 1
  deriving DecidableEq

end H2kvm.Core.Validation
