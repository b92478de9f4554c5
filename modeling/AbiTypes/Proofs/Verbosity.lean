import AbiTypes.Command
/-!
# Verbosity — the log is shown or not, and all else stays

The flag that shows the log is one of the group's own options.  A run depends on these only by whether they ask for help and
by what they leave to the command (`unlogged_run_congr`), and the flag in front changes neither (`readArguments_verbose`).
So it changes nothing but the log.
-/
namespace AbiTypes.Command

/-- **The outcome of a run apart from its log**, which is shown or not. -/
def Outcome.unlogged (o : Outcome) : Outcome := { o with isVerbose := false, log := [] }

theorem Outcome.eq_of_unlogged {o q : Outcome} (h : o.unlogged = q.unlogged) : o.exitCode = q.exitCode ∧
    o.output = q.output ∧ o.files = q.files ∧ o.escaped = q.escaped ∧ o.complaints = q.complaints := by
  simp only [unlogged, Outcome.mk.injEq] at h
  obtain ⟨hexit, houtput, hcomplaints, hfiles, hescaped, -⟩ := h
  exact ⟨hexit, houtput, hfiles, hescaped, hcomplaints⟩

/-- With the flag in front a list holds one option more, and the rest of it is as before. -/
theorem readArguments_verbose (args : List String) : Scope.group.readArguments ("-v" :: args) =
    (Scope.group.readArguments args).map fun a => { a with given := ⟨.verbose, ""⟩ :: a.given } := rfl

section Run

variable (place : Surroundings) (program : String) {args args' : List String}

theorem run_of_misuse [Reader.Stack] {m : Misuse} (hne : args ≠ []) (h : Scope.group.readArguments args = .error m) :
    run place program args = .ofMisuse .group program m := by
  have hempty : args.isEmpty = false := by simpa using hne
  simp only [run, hempty, h]
  rfl

/-- **A run is decided by what the group's options leave to the command**, and by whether they ask for help. -/
theorem unlogged_run_congr [Reader.Stack] {a b : Arguments} (hne : args ≠ []) (hne' : args' ≠ [])
    (ha : Scope.group.readArguments args = .ok a) (hb : Scope.group.readArguments args' = .ok b)
    (hhelp : a.has .help = b.has .help) (hpositional : a.positional = b.positional) :
    (run place program args).unlogged = (run place program args').unlogged := by
  have hempty : args.isEmpty = false := by simpa using hne
  have hempty' : args'.isEmpty = false := by simpa using hne'
  simp only [run, hempty, hempty', ha, hb, hhelp, hpositional]
  cases b.has .help with
  | true => rfl
  | false =>
    cases b.positional with
    | nil => rfl
    | cons name rest =>
      -- the flag is looked at behind a command's name only, for the log
      cases hname : scope? name with
      | none => simp only [hname, Bool.false_eq_true, if_false]
      | some s => simp only [hname, Bool.false_eq_true, if_false, Outcome.unlogged]

/-- The flag in front of some arguments changes the run's log at most. -/
theorem unlogged_run_verbose [Reader.Stack] (hne : args ≠ []) :
    (run place program ("-v" :: args)).unlogged = (run place program args).unlogged := by
  have hread := readArguments_verbose args
  cases h : Scope.group.readArguments args with
  | error m =>
    rw [h] at hread
    rw [run_of_misuse place program (List.cons_ne_nil _ _) hread, run_of_misuse place program hne h]
  | ok a =>
    rw [h] at hread
    refine unlogged_run_congr place program (List.cons_ne_nil _ _) hne hread h ?_ rfl
    simp [Arguments.has]

end Run

/-- **Showing the log changes no behaviour.**  Whatever the arguments, the flag in front of them changes neither the exit
code nor the output, neither the files nor a fault that escapes, and if there are any arguments, no complaint either. -/
theorem run_verbose [Reader.Stack] (place : Surroundings) (program : String) (args : List String) :
    let loud := run place program ("-v" :: args)
    let quiet := run place program args
    loud.exitCode = quiet.exitCode ∧ loud.output = quiet.output ∧ loud.files = quiet.files ∧
      loud.escaped = quiet.escaped ∧ (args ≠ [] → loud.complaints = quiet.complaints) := by
  intro loud quiet
  by_cases hne : args = []
  · subst hne
    exact ⟨rfl, rfl, rfl, rfl, fun h => absurd rfl h⟩
  · obtain ⟨hexit, houtput, hfiles, hescaped, hcomplaints⟩ :=
      Outcome.eq_of_unlogged (unlogged_run_verbose place program hne)
    exact ⟨hexit, houtput, hfiles, hescaped, fun _ => hcomplaints⟩

/-- A report that fails for its version, its log shown; the output and the exit code are those of the run without. -/
theorem run_verbose_unsupported :
    let args := ["info", "(time)", "--json", "--abi-version", "1"]
    let loud := run emptyDirectory "cli" ("-v" :: args)
    let quiet := run emptyDirectory "cli" args
    loud.log = [.attached 1 "(time)", .parsed .signature "(time)", .unsupportedIn 1 ["time"]] ∧ quiet.log = [] ∧
    quiet.exitCode = 1 ∧ loud.exitCode = 1 ∧ loud.output = quiet.output ∧ loud.files = quiet.files ∧
    loud.escaped = quiet.escaped := by
  intro args loud quiet
  obtain ⟨hexit, houtput, hfiles, hescaped, -⟩ := run_verbose emptyDirectory "cli" args
  have hquiet : quiet.exitCode = 1 := by decide +kernel
  exact ⟨by decide +kernel, by decide +kernel, hquiet, hexit.trans hquiet, houtput, hfiles, hescaped⟩

end AbiTypes.Command
