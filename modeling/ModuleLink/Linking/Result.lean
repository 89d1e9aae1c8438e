import ModuleLink.Platform

/-!
What a run reports for each library and platform.
-/

namespace ModuleLink
namespace Linking

inductive Status where
  | notApplicable
  | alreadyLinked
  | linked
  | needsManual
  | failed
  | notLinked
  | unlinked
deriving DecidableEq

namespace Status

def name : Status → String
  | notApplicable => "not-applicable"
  | alreadyLinked => "already-linked"
  | linked => "linked"
  | needsManual => "needs-manual"
  | failed => "failed"
  | notLinked => "not-linked"
  | unlinked => "unlinked"

end Status

/-- The outcome for a library on a platform, or on none if the library cannot be used at all. -/
structure Result where
  dependency : String
  platform : Option Platform
  status : Status
  detail : String := ""
deriving DecidableEq

end Linking
end ModuleLink
