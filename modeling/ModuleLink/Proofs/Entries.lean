/-!
Look-ups in lists of entries, where the first entry of a key counts.
-/

namespace ModuleLink
namespace Entries

variable {α β : Type} [BEq α] [LawfulBEq α]

theorem lookup_cons_self (k : α) (v : β) (rest : List (α × β)) : ((k, v) :: rest).lookup k = some v := by
  rw [List.lookup_cons, beq_self_eq_true]

theorem lookup_cons_of_ne {k l : α} (h : k ≠ l) (v : β) (rest : List (α × β)) :
    ((l, v) :: rest).lookup k = rest.lookup k := by
  rw [List.lookup_cons, beq_false_of_ne h]

end Entries
end ModuleLink
