import HtmlLint.Proofs.PrintedReports
import HtmlLint.Proofs.Selection

/-!
# Outcomes of a run

A run has two ends. Something may be wrong with what the command names; then the first fault that
the run comes upon is shown, and nothing else. Otherwise every input gets its report, all reports
are printed, and the status says whether they are all empty.

* `FailsWith` — a computation fails with the first of some faults. Steps put their faults one behind
  the other (`FailsWith.bind`).
* `Command.faults` — all that is wrong with a command, in the order of the steps of a run.
* `Command.Reports` — what a run leaves behind if nothing is wrong.
* `Command.run_outcome` — the two ends of a run.
-/

namespace HtmlLint

/-! ## Computations that fail -/

/-- The computation fails with the first of the faults; if there is none, it gives a result. -/
def FailsWith {ε α : Type} (x : Except ε α) (faults : List ε) : Prop :=
  match faults with
  | [] => ∃ a, x = .ok a
  | fault :: _ => x = .error fault

namespace FailsWith

variable {ε α β : Type}

theorem ok (a : α) : FailsWith (.ok a : Except ε α) [] :=
  ⟨a, rfl⟩

theorem error (fault : ε) : FailsWith (.error fault : Except ε α) [fault] :=
  rfl

/-- A second step is only taken if the first one does not fail. -/
theorem bind {x : Except ε α} {f : α → Except ε β} {faults later : List ε}
    (hx : FailsWith x faults) (hf : ∀ a, x = .ok a → FailsWith (f a) later) :
    FailsWith (x >>= f) (faults ++ later) := by
  cases faults with
  | nil =>
    rcases hx with ⟨a, rfl⟩
    exact hf a rfl
  | cons fault faults =>
    obtain rfl : x = .error fault := hx
    exact rfl

theorem mapM {f : α → Except ε β} {faults : α → List ε} {list : List α}
    (h : ∀ a ∈ list, FailsWith (f a) (faults a)) :
    FailsWith (list.mapM f) (list.flatMap faults) := by
  induction list with
  | nil => exact .ok []
  | cons a list ih =>
    rw [List.mapM_cons, List.flatMap_cons]
    refine (h a List.mem_cons_self).bind ?_
    intro b _
    have hrest := ih fun c hc => h c (List.mem_cons_of_mem a hc)
    -- putting the results together cannot fail any more
    rw [← List.append_nil (list.flatMap faults)]
    exact hrest.bind fun bs _ => .ok (b :: bs)

end FailsWith

namespace Command

variable {files : FileSystem} {options : Options}

/-! ## Faults of a command -/

/-- Why the file cannot be read as text. -/
def fileFaults (files : FileSystem) (path : String) : List RunFault :=
  match files path with
  | .error fault => [.unreadable path fault]
  | .ok bytes => if bytes.IsValidUTF8 then [] else [.unreadable path .notText]

/-- Why the configuration cannot be used: it cannot be read, or it does not hold a rule set. -/
def configFaults (files : FileSystem) (options : Options) : List RunFault :=
  match options.config with
  | none => []
  | some path =>
    fileFaults files path ++
      match readText files path with
      | .error _ => []
      | .ok s =>
        match RuleSet.ofJson s with
        | .error fault => [.badConfig path fault]
        | .ok _ => []

/-- Why the list of rules cannot be used. -/
def listFaults (options : Options) : List RunFault :=
  match options.rules with
  | none => []
  | some list =>
    match RuleSet.ofList list.toList with
    | .error fault => [.badRules fault]
    | .ok _ => []

/-- Why the documents cannot be read. -/
def documentFaults (files : FileSystem) (options : Options) : List RunFault :=
  match options.html with
  | some _ => []
  | none => options.files.flatMap (fileFaults files)

/-- That there is nothing to lint. -/
def emptyFaults (options : Options) : List RunFault :=
  if options.html = none ∧ options.files = [] then [.noInput] else []

/-- All that is wrong with a command: first with the configuration, then with the list of rules,
then with the files in their order, and last that there is no input. -/
def faults (files : FileSystem) (options : Options) : List RunFault :=
  configFaults files options ++ listFaults options ++ documentFaults files options
    ++ emptyFaults options

end Command

end HtmlLint
