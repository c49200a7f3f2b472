import ForkJoin.Address
import ForkJoin.Config.Basic

/-!
# Configurations as documents

A configuration can be written as a document: a record whose keys are the options, or a list of
at most six options in their fixed order. Options left out take their defaults and unknown keys
are ignored. The name of an option may stand alone or as the only key of a record, with nothing
as its value; the options without a default of their own may be nothing.

## Main definitions
- `Document`: a tree of values.
- `Config.ofDocument?`: the configuration that a document stands for.
-/

namespace ForkJoin

/-- A tree of values. -/
inductive Document where
  /-- Nothing. -/
  | null
  | bool (value : Bool)
  /-- A number written as a whole number. -/
  | integer (value : Int)
  /-- A number written in another way. -/
  | number
  | text (value : String)
  | list (items : List Document)
  /-- Keys and values; no key occurs twice. -/
  | record (entries : List (String × Document))
  deriving Inhabited

namespace Document

/-- Reads a name: a text, or a record with one key whose value is nothing. -/
def toName? : Document → Option String
  | .text name => some name
  | .record [(name, .null)] => some name
  | _ => none

/-- Reads an option that may be nothing. -/
def toOption? {α : Type} (read : Document → Option α) : Document → Option (Option α)
  | .null => some none
  | document => (read document).map some

/-- Reads a truth value. -/
def toBool? : Document → Option Bool
  | .bool value => some value
  | _ => none

/-- Reads a count, which has to fit into a machine word. -/
def toCount? : Document → Option Nat
  | .integer value =>
    if 0 ≤ value ∧ value < addressLimit then some value.toNat else none
  | _ => none

end Document

namespace Config

/-- Sets the option of a key; an unknown key changes nothing. -/
def setKey? (config : Config) (key : String) (value : Document) : Option Config :=
  match key with
  | "mode" => do return { config with mode := ← value.toName? >>= Mode.ofName? }
  | "strategy" => do
    let read (value : Document) := value.toName? >>= Strategy.ofName?
    return { config with strategy := ← value.toOption? read }
  | "expect" => do
    let read (value : Document) := value.toName? >>= Expectation.ofName?
    return { config with expect := ← value.toOption? read }
  | "merge" => do return { config with merge := ← value.toName? >>= MergeMode.ofName? }
  | "workers" => do return { config with workers := ← value.toOption? Document.toCount? }
  | "sequential" => do return { config with sequential := ← value.toBool? }
  | _ => some config

/-- The keys, in the order that a list of options follows. -/
def keys : List String :=
  ["mode", "strategy", "expect", "merge", "workers", "sequential"]

/-- Sets several options. -/
def setKeys? (entries : List (String × Document)) : Option Config :=
  entries.foldlM (fun config (key, value) => config.setKey? key value) {}

/-- The configuration that a document stands for. -/
def ofDocument? : Document → Option Config
  | .record entries => setKeys? entries
  | .list items => if items.length ≤ keys.length then setKeys? (keys.zip items) else none
  | _ => none

end Config

end ForkJoin
