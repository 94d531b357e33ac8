import HtmlLint.Command.Run
import HtmlLint.Proofs.Isolation
import HtmlLint.Proofs.RuleSets

/-!
# Which rules a command runs

Three texts may say whether a rule runs: the comment at the top of the document, the list given with
the command, and the configuration. They are asked in this order, and the first one that names the
rule decides. Where none does, the rule runs only if neither a list nor a configuration was given
(`Command.selects`).

The three meet at different times. List and configuration are merged before any document is read,
and a fault in one of them ends the run. The comment is merged for its document alone, and a fault
in it counts for nothing.
-/

namespace HtmlLint

/-- On top of any rule set, the comment at the top of the document is asked first. -/
theorem isEnabled_settleRules (rules : RuleSet) (document : List Char) (id : String) :
    (settleRules rules document).isEnabled id
      = (RuleSet.documentSays? document id).getD (rules.isEnabled id) := by
  cases hread : RuleSet.ofDocument document with
  | error fault => simp [settleRules, RuleSet.documentSays?, hread]
  | ok inline? =>
    cases inline? with
    | none => simp [settleRules, RuleSet.documentSays?, hread]
    | some inline =>
      rw [← RuleSet.says?_of_ofDocument hread, ← RuleSet.isEnabled_apply, settleRules, hread]

namespace Registry

/-- None of the library's rules refuses. -/
theorem refusal_builtinRules {rule : Rule} (h : rule ∈ builtinRules) : rule.refusal = none := by
  simp only [builtinRules, List.mem_cons, List.not_mem_nil, or_false] at h
  rcases h with rfl | rfl | rfl | rfl | rfl <;> rfl

/-- Exactly the library's rules that are switched on are started. -/
theorem mem_builtin_sessions {rules : RuleSet} {id : String} (hid : id ∈ builtin.ids) :
    id ∈ (builtin.start rules).sessions.map (·.rule.id) ↔ rules.isEnabled id = true := by
  have hsessions : (builtin.start rules).sessions.map (·.rule.id)
      = (builtin.started rules).map (·.id) := by
    rw [(builtin.start_holds rules).sessions, List.map_map]
    rfl
  rw [hsessions, List.mem_map]
  constructor
  · rintro ⟨rule, hrule, rfl⟩
    exact (mem_started.1 hrule).2.1
  · intro henabled
    rcases List.mem_map.1 hid with ⟨rule, hrule, rfl⟩
    exact ⟨rule, mem_started.2 ⟨hrule, henabled, refusal_builtinRules hrule⟩, rfl⟩

end Registry

/-- A computation that gives a result has come through its first step. -/
theorem exists_of_bind_eq_ok {ε α β : Type} {x : Except ε α} {f : α → Except ε β} {b : β}
    (h : (x >>= f) = .ok b) : ∃ a, x = .ok a ∧ f a = .ok b := by
  cases x with
  | error fault => cases h
  | ok a => exact ⟨a, rfl, h⟩

namespace Command

variable {files : FileSystem} {options : Options} {rules : RuleSet}

/-! ## What the command says about a rule -/

/-- What the list given with the command says about a rule. -/
def givenSays? (options : Options) (id : String) : Option Bool :=
  options.rules.bind fun list => RuleSet.listSays? list.toList id

/-- What the configuration says about a rule. -/
def configSays? (files : FileSystem) (options : Options) (id : String) : Option Bool :=
  options.config.bind fun path =>
    match readText files path with
    | .ok s => RuleSet.jsonSays? s id
    | .error _ => none

/-- Whether a rule is to run on a document. -/
def selects (files : FileSystem) (options : Options) (document : List Char) (id : String) : Bool :=
  ((RuleSet.documentSays? document id).or
      ((givenSays? options id).or (configSays? files options id))).getD
    (options.rules.isNone && options.config.isNone)

theorem isEnabled_of_baseRules (h : baseRules files options = .ok rules) (id : String) :
    rules.isEnabled id
      = (configSays? files options id).getD (options.rules.isNone && options.config.isNone) := by
  unfold baseRules at h
  unfold configSays?
  cases hconfig : options.config with
  | none =>
    rw [hconfig] at h
    cases hgiven : options.rules with
    | none =>
      obtain rfl : RuleSet.all = rules := by simpa [hgiven] using h
      simp
    | some list =>
      obtain rfl : RuleSet.off = rules := by simpa [hgiven] using h
      simp
  | some path =>
    rw [hconfig] at h
    rcases exists_of_bind_eq_ok h with ⟨s, hs, h⟩
    cases hread : RuleSet.ofJson s with
    | error fault =>
      rw [hread] at h
      cases h
    | ok read =>
      rw [hread] at h
      cases h
      rcases RuleSet.says?_of_ofJson hread with ⟨hfallback, hsays⟩
      simp [RuleSet.isEnabled_eq_says?, hs, hsays, hfallback]

theorem isEnabled_of_chosenRules (h : chosenRules files options = .ok rules) (id : String) :
    rules.isEnabled id
      = ((givenSays? options id).or (configSays? files options id)).getD
          (options.rules.isNone && options.config.isNone) := by
  rcases exists_of_bind_eq_ok h with ⟨base, hbase, h⟩
  have hbelow := isEnabled_of_baseRules hbase id
  cases hgiven : options.rules with
  | none =>
    rw [hgiven] at h hbelow
    cases h
    simpa [givenSays?, hgiven] using hbelow
  | some list =>
    rw [hgiven] at h hbelow
    cases hread : RuleSet.ofList list.toList with
    | error fault =>
      simp only [hread] at h
      cases h
    | ok top =>
      simp only [hread] at h
      cases h
      -- the list is asked first, and the configuration only about rules that it does not name
      have hsays : top.says? id = givenSays? options id := by
        rw [(RuleSet.says?_of_ofList hread).2, givenSays?, hgiven]
        rfl
      rw [RuleSet.isEnabled_apply, hsays, hbelow]
      cases givenSays? options id <;> rfl

theorem isEnabled_eq_selects (h : chosenRules files options = .ok rules) (document : List Char)
    (id : String) :
    (settleRules rules document).isEnabled id = selects files options document id := by
  rw [isEnabled_settleRules, isEnabled_of_chosenRules h, selects]
  cases RuleSet.documentSays? document id <;> rfl

/-! ## Runs -/

theorem run?_of_request {arguments : List String}
    (h : request? arguments = some (.run options)) :
    run? files arguments = some (runOptions files options) := by
  rw [run?, h]
  rfl

theorem runOptions_of_prepare (hlint : options.listRules = false)
    {inputs : List (String × List Char)} (h : prepare files options = .ok (rules, inputs)) :
    runOptions files options
      = ⟨if (lintAll rules inputs).all (·.report.isClean) then 0 else 1,
          renderReports (options.format.getD .text) (lintAll rules inputs),
          lintAllNotices .empty rules inputs, ""⟩ := by
  rw [runOptions, hlint, h]
  rfl

/-- For a command that is accepted and whose rules and documents can be read, the run prints the
reports on all documents. The rules started for a document are those that `selects` names: the
comment at the top of the document decides, else the list given, else the configuration, and a rule
that none of them names runs exactly if neither a list nor a configuration was given. What the
report holds under the id of a rule is what the rule reports by itself if it was started, and else
nothing. -/
theorem run_starts_selected {arguments : List String} {inputs : List (String × List Char)}
    (hrequest : request? arguments = some (.run options)) (hlint : options.listRules = false)
    (hrules : chosenRules files options = .ok rules)
    (hinputs : documents files options = .ok inputs) (hsome : inputs ≠ []) :
    (∃ outcome, run? files arguments = some outcome
        ∧ outcome.stdout = renderReports (options.format.getD .text)
            (inputs.map fun (file, document) => ⟨file, Registry.builtin.lint rules document⟩))
      ∧ ∀ input ∈ inputs, ∀ rule ∈ Registry.builtin.rules,
        (rule.id ∈ (Registry.builtin.start (settleRules rules input.2)).sessions.map (·.rule.id)
          ↔ selects files options input.2 rule.id = true)
        ∧ (Registry.builtin.lint rules input.2).diagnostics.filter (·.rule = rule.id)
          = if selects files options input.2 rule.id then rule.diagnostics input.2 else [] := by
  refine ⟨?_, ?_⟩
  · have hprepared : prepare files options = .ok (rules, inputs) := by
      have hmore : inputs.isEmpty = false := by simpa using hsome
      simp only [prepare, hrules, hinputs, bind, Except.bind, hmore]
      rfl
    refine ⟨_, run?_of_request hrequest, ?_⟩
    rw [runOptions_of_prepare hlint hprepared]
    rfl
  · intro input _ rule hrule
    have hselects := isEnabled_eq_selects hrules input.2 rule.id
    refine ⟨?_, ?_⟩
    · rw [Registry.mem_builtin_sessions (List.mem_map_of_mem hrule), hselects]
    · rw [← hselects]
      cases henabled : (settleRules rules input.2).isEnabled rule.id with
      | true => exact Registry.filter_diagnostics_of_enabled hrule henabled
      | false => exact Registry.filter_diagnostics_of_disabled henabled

/-- A document with a comment at its top, and a line that mixes tab and space. -/
def layeredDocument : List Char :=
  "<!-- lintel tag-pair:false --><P A='x'>\n\t <b>".toList

/-- That document, and a configuration that names a rule twice. -/
def layeredFiles : FileSystem := fun path =>
  if path = "c.json" then
    .ok ("\x7b\"tag-pair\": true, \"attr-lowercase\": true, \"doctype-first\": true, "
      ++ "\"space-tab-mixed-disabled\": true, \"doctype-first\": false\x7d").toUTF8
  else if path = "a.html" then .ok (String.ofList layeredDocument).toUTF8
  else .error .missing

def layeredOptions : Options :=
  { files := ["a.html"], config := "c.json", rules := "attr-lowercase:false,tag-pair" }

/-- A list, a configuration and a comment in one run. Of the four rules that the configuration
names, one is off there in the end, the list and the comment switch off one each, and the fourth is
left. It is the only one that reports something. -/
theorem run_layered :
    ∃ rules, chosenRules layeredFiles layeredOptions = .ok rules
      ∧ (∃ outcome, run? layeredFiles
            ["--config", "c.json", "a.html", "--rules=attr-lowercase:false,tag-pair"] = some outcome
          ∧ outcome.stdout = renderReports .text
              [⟨"a.html", Registry.builtin.lint rules layeredDocument⟩])
      ∧ (∀ rule ∈ Registry.builtin.rules,
        rule.id ∈ (Registry.builtin.start (settleRules rules layeredDocument)).sessions.map
            (·.rule.id)
          ↔ rule.id = "space-tab-mixed-disabled")
      ∧ ∀ rule ∈ Registry.builtin.rules,
        (Registry.builtin.lint rules layeredDocument).diagnostics.filter (·.rule = rule.id) ≠ []
          ↔ rule.id = "space-tab-mixed-disabled" := by
  have hloads : (chosenRules layeredFiles layeredOptions).isOk = true := by decide +kernel
  cases hrules : chosenRules layeredFiles layeredOptions with
  | error fault =>
    rw [hrules] at hloads
    cases hloads
  | ok rules =>
    have hrequest : request? ["--config", "c.json", "a.html",
        "--rules=attr-lowercase:false,tag-pair"] = some (.run layeredOptions) := by decide +kernel
    have hinputs : documents layeredFiles layeredOptions = .ok [("a.html", layeredDocument)] := by
      decide +kernel
    have hselects : ∀ rule ∈ Registry.builtin.rules,
        selects layeredFiles layeredOptions layeredDocument rule.id = true
          ↔ rule.id = "space-tab-mixed-disabled" := by decide +kernel
    rcases run_starts_selected hrequest rfl hrules hinputs (by simp) with ⟨hrun, hstarts⟩
    refine ⟨rules, rfl, hrun, ?_, ?_⟩
    · intro rule hrule
      have hstarted := (hstarts ("a.html", layeredDocument) List.mem_cons_self rule hrule).1
      rw [hselects rule hrule] at hstarted
      exact hstarted
    · intro rule hrule
      have hfound : ∀ rule ∈ Registry.builtin.rules, rule.diagnostics layeredDocument ≠ [] := by
        decide +kernel
      rw [(hstarts ("a.html", layeredDocument) List.mem_cons_self rule hrule).2,
        ← hselects rule hrule]
      cases selects layeredFiles layeredOptions layeredDocument rule.id with
      | true => simpa using hfound rule hrule
      | false => simp

end Command

end HtmlLint
