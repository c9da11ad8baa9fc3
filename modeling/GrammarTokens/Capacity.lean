/-!
# Capacity of memory

No single piece of memory holds more than 2^63 - 1 bytes. A buffer or a run of characters that
would have to be longer cannot be made.
-/

namespace GrammarTokens

/-- The most bytes that a single piece of memory holds. -/
def maxCapacity : Nat := UInt64.size / 2 - 1

end GrammarTokens
