import ForkJoin.Config.Options

/-!
# Configurations

The options of one call. Whatever is left out takes its default: any path, a strategy by
heuristic, the expectation of the mode, as many workers as the pool has, and permission to run
sequentially.

## Main definitions
- `Config`: the options.
- `Config.effectiveExpectation`, `Config.workerCount`: the options with defaults filled in.
-/

namespace ForkJoin

structure Config where
  /-- The execution path to attempt. -/
  mode : Mode := .default
  /-- How a scatter divides its work, if the caller insists. -/
  strategy : Option Strategy := none
  /-- What the caller expects, unless it is what the mode implies. -/
  expect : Option Expectation := none
  /-- How the outputs of scatter workers are merged. -/
  merge : MergeMode := .seq
  /-- The number of workers, unless it is that of the pool. -/
  workers : Option Nat := none
  /-- Whether the sequential path may run. An operation that would need it and may not returns
  an empty result. -/
  sequential : Bool := true
  deriving DecidableEq, Repr

namespace Config

/-- The defaults with another mode. -/
def ofMode (mode : Mode) : Config :=
  { mode }

/-- Sequential execution only. -/
def seq : Config :=
  ofMode .seq

def withStrategy (config : Config) (strategy : Strategy) : Config :=
  { config with strategy := some strategy }

def withExpect (config : Config) (expect : Expectation) : Config :=
  { config with expect := some expect }

def withMerge (config : Config) (merge : MergeMode) : Config :=
  { config with merge }

def withWorkers (config : Config) (workers : Nat) : Config :=
  { config with workers := some workers }

def withoutSequential (config : Config) : Config :=
  { config with sequential := false }

/-- The expectation of the caller, or else that of the mode. -/
def effectiveExpectation (config : Config) : Expectation :=
  config.expect.getD config.mode.defaultExpectation

/-- The number of workers on a pool of some size; there is always one. -/
def workerCount (config : Config) (poolSize : Nat) : Nat :=
  max (config.workers.getD poolSize) 1

end Config

end ForkJoin
