import ForkJoin.Dispatch.Plan

/-!
# Reports

How an operation was executed: on which path, after how many bailouts, and why the plan was what
it was. A report can be held against what the caller expected.

## Main definitions
- `PhaseOutcome`: how one phase ended.
- `Report`: how an operation was executed.
- `Report.satisfies`: whether that was expected.
- `Error`: a rejected input, or an execution that was not expected.
-/

namespace ForkJoin

inductive PhaseOutcome where
  /-- Every slice was finished in parallel, after some bailouts. -/
  | completed (bailouts : Nat)
  /-- What is left has to be done sequentially. -/
  | fallback (bailouts : Nat)
  deriving DecidableEq, Repr

namespace PhaseOutcome

def isCompleted : PhaseOutcome → Bool
  | .completed _ => true
  | .fallback _ => false

/-- The number of attempts that ended in a bailout. -/
def bailouts : PhaseOutcome → Nat
  | .completed n | .fallback n => n

end PhaseOutcome

structure Report where
  op : Operation
  /-- Parallel if every phase completed, sequential if any work was done on that path. -/
  path : Action
  /-- The number of attempts that ended in a bailout, over all phases. -/
  bailouts : Nat
  reason : Reason
  deriving DecidableEq, Repr

namespace Report

/-- The report of an operation that made no parallel attempt. -/
def sequential (plan : Plan) : Report :=
  ⟨plan.op, .sequential, 0, plan.reason⟩

def ofPhase (plan : Plan) (outcome : PhaseOutcome) : Report :=
  ⟨plan.op, if outcome.isCompleted then .parallel else .sequential, outcome.bailouts, plan.reason⟩

def andThen (report : Report) (outcome : PhaseOutcome) : Report :=
  { report with
    path := if outcome.isCompleted then report.path else .sequential
    bailouts := report.bailouts + outcome.bailouts }

/-- Whether the execution was as expected. -/
def satisfies (report : Report) : Expectation → Bool
  | .success => report.path == .parallel && report.bailouts == 0
  | .mixed => 0 < report.bailouts
  | .any => true

def text (report : Report) : String :=
  let plural := if report.bailouts = 1 then "" else "s"
  s!"{report.path.name} with {report.bailouts} bailout{plural} ({report.reason.text})"

end Report

inductive Error where
  /-- The input was rejected before anything ran. -/
  | input (cause : InputError)
  /-- The execution was not the expected one. -/
  | unexpectedOutcome (expected : Expectation) (report : Report)
  deriving DecidableEq, Repr

def Error.message : Error → String
  | .input cause => cause.message
  | .unexpectedOutcome expected report =>
    s!"{report.op.name}: expected {expected.name} execution, got {report.text}"

/-- Passes a report on if it is as the configuration expects. -/
def Report.check (report : Report) (config : Config) : Except Error Report :=
  if report.satisfies config.effectiveExpectation then .ok report
  else .error (.unexpectedOutcome config.effectiveExpectation report)

end ForkJoin
