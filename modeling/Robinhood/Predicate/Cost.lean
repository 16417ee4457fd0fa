/-
# Predicate.Cost — how often the matchers call themselves

`like_match` and the inner function of `glob_matches` try every rest of the text at each wildcard.  Both are
written out here once more with the number of their recursive calls.  A call is made for each way to read a
first part of the pattern on a first part of the text, until a reading of the whole text is found: the calls are
the `ways` where there is none, and at most the `ways` where there is one.  Two wildcards stay within the square
of the text; for any larger number there are a text and a pattern that pass it, and the bound on the length of a
pattern does not help.
-/
import Mathlib
import Robinhood.Predicate.Eval
import Robinhood.Scan.Posix

namespace Robinhood.Predicate

/-! ## §1 — Counting -/

/-- A result with the number of calls made for it. -/
abbrev Counted := Bool × ℕ

def Counted.call (r : Counted) : Counted := (r.1, r.2 + 1)

end Robinhood.Predicate
