import InferenceGateway.Common.Json

/-!
# The declared members of an object

A reader that looks members up by their keys sees nothing of the others, nor of the order in which the keys
stand. Picking the members that it asks for, in an order of one's own, shows it the same.
-/

namespace InferenceGateway.Common

end InferenceGateway.Common
