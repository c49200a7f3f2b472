import ForkJoin.Cell.Rules
import ForkJoin.Operation.Build
import ForkJoin.Operation.Reduce
import ForkJoin.Operation.Scan
import ForkJoin.Scatter.Basic
import ForkJoin.View.Reshape

/-!
# Sessions

A session is a sequence of commands on views of cells. Each command that yields a view stores it
under the next number, and later commands refer to it by that number. Views made from stored
views by selection, partition and flattening lie on the same buffer; every other view gets a
buffer of its own.

## Main definitions
- `Session`: the views so far.
- `Command`, `BulkCommand`: what can be asked.
- `Answer`: what is answered.
- `Session.answer`: one command.
-/

namespace ForkJoin

structure Session where
  views : Array (View Cell) := #[]
  /-- The number of threads of the pool that the operations run on. -/
  poolSize : Nat := 4

namespace Session

/-- The identity of the buffer of the next fresh view: one that no stored view has, since every
buffer is named after the view that it was made for. -/
def nextBuffer (session : Session) : BufferId :=
  session.views.size

end Session

/-! ## §1 Commands -/

/-- An operation of the engine. -/
inductive BulkCommand where
  | build (dims : Dims) (rule : BuildRule)
  | map (source : Nat) (rule : MapRule)
  | filter (source : Nat) (rule : FilterRule)
  | reduce (source : Nat) (f : Combiner)
  | scan (source : Nat) (f : Combiner)
  | scatter (source : Nat) (targets : Array Target) (default : Cell) (length : Nat)
      (conflict : Option Combiner)

/-- A command. Views are named by their numbers. -/
inductive Command where
  | fromCells (cells : Array Cell)
  | empty
  | fromShape (dims : Dims) (cells : Array Cell)
  | info (source : Nat)
  | cells (source : Nat)
  | display (source : Nat)
  | elements (source : Nat)
  | get (source : Nat) (coords : Coords)
  | element (source index : Nat)
  | row (source index : Nat)
  | cell (source : Nat) (coords : Coords)
  | partition (source amount : Nat)
  | flatten (source : Nat)
  | shares (source other : Nat)
  | equal (source other : Nat)
  | bulk (host : Host) (config : Config) (command : BulkCommand)

/-! ## §2 Answers -/

/-- What an operation of the engine results in. -/
inductive BulkResult where
  /-- A view, stored under a number. -/
  | view (number : Nat) (view : View Cell)
  | value (cell : Cell)

/-- What is seen of an operation of the engine. -/
structure BulkAnswer where
  result : Except Error (BulkResult × Report)
  /-- How often the callback was called. -/
  calls : Nat
  op : Operation
  phases : List PhaseTrace

namespace BulkAnswer

/-- The operations for which a compilation was requested, in order. -/
def compiles (answer : BulkAnswer) : List Operation :=
  answer.phases.flatMap fun phase => List.replicate phase.compiles answer.op

/-- The questions put to the host, by slice; slices that asked nothing are left out. -/
def checks (answer : BulkAnswer) : List (Nat × List Consultation) :=
  let slices := (answer.phases.map (·.asked.length)).foldl max 0
  (List.range slices).filterMap fun slice =>
    let asked := answer.phases.flatMap fun phase => (phase.asked[slice]?.getD #[]).toList
    if asked.isEmpty then none else some (slice, asked)

end BulkAnswer

inductive Answer where
  /-- A view, stored under a number. -/
  | view (number : Nat) (view : View Cell)
  /-- Nothing was selected. -/
  | nothing
  | cell (cell : Cell)
  | flag (value : Bool)
  | text (text : String)
  | texts (texts : List String)
  | cells (cells : Array Cell)
  | info (view : View Cell)
  | bulk (answer : BulkAnswer)
  | rejected (cause : InputError)
  | fault (fault : Fault)
  /-- A view is named that is not stored. -/
  | noSuchView

namespace Session

def store (session : Session) (view : View Cell) : Answer × Session :=
  (.view session.views.size view, { session with views := session.views.push view })

/-- Stores a view unless it was rejected. -/
def storeValid (session : Session) (view : Except InputError (View Cell)) : Answer × Session :=
  match view with
  | .ok view => session.store view
  | .error cause => (.rejected cause, session)

/-- Answers what was selected; a view is stored. -/
def storeElement (session : Session) (found : Option (Element Cell)) : Answer × Session :=
  match found with
  | none => (.nothing, session)
  | some (.cell cell) => (.cell cell, session)
  | some (.view view) => session.store view

/-- Answers a selection, or what broke it off. -/
def storeSelected (session : Session) (selected : Except Fault (Option (Element Cell))) :
    Answer × Session :=
  match selected with
  | .error fault => (.fault fault, session)
  | .ok found => session.storeElement found

/-- Answers with respect to a stored view. -/
def withView (session : Session) (source : Nat) (next : View Cell → Answer × Session) :
    Answer × Session :=
  match session.views[source]? with
  | some view => next view
  | none => (.noSuchView, session)

/-! ## §3 Operations of the engine -/

/-- Answers a run that results in a view, which is stored. -/
def storeRun {γ : Type} (session : Session) (op : Operation)
    (run : Except Fault (Run γ (View Cell))) : Answer × Session :=
  match run with
  | .error fault => (.fault fault, session)
  | .ok run =>
    let number := session.views.size
    let answer (result) := Answer.bulk ⟨result, run.calls.size, op, run.phases⟩
    match run.result with
    | .error cause => (answer (.error cause), session)
    | .ok (view, report) =>
      (answer (.ok (.view number view, report)), { session with views := session.views.push view })

/-- Answers a run that results in a cell. -/
def answerRun {γ : Type} (session : Session) (op : Operation)
    (run : Except Fault (Run γ Cell)) : Answer × Session :=
  match run with
  | .error fault => (.fault fault, session)
  | .ok run =>
    let result := run.result.map fun (cell, report) => (BulkResult.value cell, report)
    (.bulk ⟨result, run.calls.size, op, run.phases⟩, session)

def answerBulk (session : Session) (setting : Setting) : BulkCommand → Answer × Session
  | .build dims rule =>
    match Shape.ofDims? dims with
    | .error cause => (.bulk ⟨.error (.input cause), 0, .build, []⟩, session)
    | .ok shape => session.storeRun .build (View.build setting shape (rule.apply shape))
  | .map source rule =>
    session.withView source fun view => session.storeRun .map (view.map setting rule.apply)
  | .filter source rule =>
    session.withView source fun view => session.storeRun .filter (view.filter setting rule.apply)
  | .reduce source f =>
    session.withView source fun view => session.answerRun .reduce (view.reduce setting f.apply)
  | .scan source f =>
    session.withView source fun view => session.storeRun .scan (view.scan setting f.apply)
  | .scatter source targets default length conflict =>
    session.withView source fun view =>
      session.storeRun .scatter
        (view.scatter setting targets default length (conflict.map Combiner.apply))

/-! ## §4 All commands -/

/-- What was selected, if it is a row. -/
def rowOf? : Option (Element Cell) → Option (Element Cell)
  | some (.view row) => some (.view row)
  | _ => none

/-- What was selected, if it is a cell. -/
def cellOf? : Option (Element Cell) → Option (Element Cell)
  | some (.cell cell) => some (.cell cell)
  | _ => none

def answer (session : Session) : Command → Answer × Session
  | .fromCells cells => session.store (.ofArray session.nextBuffer cells)
  | .empty => session.store (.empty session.nextBuffer)
  | .fromShape dims cells =>
    session.storeValid do View.ofShape? session.nextBuffer (← Shape.ofDims? dims) cells
  | .info source => session.withView source fun view => (.info view, session)
  | .cells source => session.withView source fun view => (.cells view.toArray, session)
  | .display source => session.withView source fun view => (.text view.render, session)
  | .elements source =>
    session.withView source fun view => (.texts (view.elements.map Element.render), session)
  | .get source coords =>
    session.withView source fun view =>
      session.storeSelected (Arithmetic.wrapping.get? view coords)
  | .element source index =>
    session.withView source fun view =>
      session.storeSelected (Arithmetic.wrapping.get? view [index])
  | .row source index =>
    session.withView source fun view =>
      session.storeSelected ((Arithmetic.wrapping.get? view [index]).map rowOf?)
  | .cell source coords =>
    session.withView source fun view =>
      session.storeSelected ((Arithmetic.wrapping.get? view coords).map cellOf?)
  | .partition source amount =>
    session.withView source fun view => session.storeValid (view.partition amount)
  | .flatten source => session.withView source fun view => session.storeValid view.flatten
  | .shares source other =>
    session.withView source fun view => session.withView other fun other =>
      (.flag (view.sharesBuffer other), session)
  | .equal source other =>
    session.withView source fun view => session.withView other fun other =>
      (.flag (view.sameContents other), session)
  | .bulk host config command =>
    session.answerBulk
      { host, config, poolSize := session.poolSize, newBuffer := session.nextBuffer } command

end Session

end ForkJoin
