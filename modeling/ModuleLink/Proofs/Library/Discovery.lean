import Mathlib.Data.List.Basic
import Mathlib.Data.List.Infix
import Mathlib.Data.List.TakeWhile
import Mathlib.Logic.Basic
import ModuleLink.Library.Manifest
import ModuleLink.Proofs.Text.Search

/-!
Which of the packages that an app names are found to carry native code, and in which order.  The naming convention is a
list of patterns for the start of a name; together they come to one condition on the scope and the name in it.
-/

namespace ModuleLink
namespace Library

open Text

/-! ## The naming convention -/

variable {cs scope name rest : List Char}

end Library
end ModuleLink
