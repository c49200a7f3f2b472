import ForkJoin.Proofs.Faults
import ForkJoin.Proofs.Subviews
import ForkJoin.Session

/-!
# Sessions

A session makes its views with the steps by which views can be made, and with no others: it stores
a view on a new buffer, what is selected or regrouped from a stored view, or the result of an
operation on one. So whatever commands a session has answered, the views that it stores can be made,
and no command is answered with a fault.

## Main definitions
- `Session.Holds`: all stored views can be made.
- `Command.Addressable`: what a command is given can be addressed.

## Main statements
- `Session.answer_holds`, `Session.answer_ne_fault`: one command.
- `Session.holds_of_commands`, `Session.never_answers_fault`: a whole session.
-/

namespace ForkJoin

/-- What a command gives the cells or the length of a new buffer for can be addressed. -/
def Command.Addressable : Command → Prop
  | .fromCells given => given.size < addressLimit
  | .bulk _ _ (.scatter _ _ _ length _) => length < addressLimit
  | _ => True

namespace Session

/-- All views that a session stores can be made. -/
def Holds (session : Session) : Prop :=
  ∀ view ∈ session.views, view.Reachable

/-- The session after some commands. -/
def after (session : Session) (commands : List Command) : Session :=
  commands.foldl (fun session command => (session.answer command).2) session

/-- A row is what was selected. -/
theorem rowOf?_eq_view {found : Option (Element Cell)} {sub : View Cell}
    (h : rowOf? found = some (.view sub)) : found = some (.view sub) := by
  match found, h with
  | some (.view _), rfl => rfl

/-- A cell is no view. -/
theorem cellOf?_ne_view (found : Option (Element Cell)) (sub : View Cell) :
    cellOf? found ≠ some (.view sub) := by
  match found with
  | none | some (.cell _) | some (.view _) => nofun

theorem holds_initial : Holds {} := by
  intro view hview
  cases Array.not_mem_empty view hview

section

variable {session : Session} (h : session.Holds)

include h

/-! ## §1 Storing -/

theorem store_holds {view : View Cell} (hview : view.Reachable) : (session.store view).2.Holds := by
  intro stored hstored
  rcases Array.mem_push.mp hstored with hold | rfl
  · exact h stored hold
  · exact hview

theorem storeValid_holds {made : Except InputError (View Cell)}
    (hmade : ∀ view, made = .ok view → view.Reachable) : (session.storeValid made).2.Holds := by
  cases made with
  | error cause => exact h
  | ok view => exact store_holds h (hmade view rfl)

theorem storeElement_holds {found : Option (Element Cell)}
    (hfound : ∀ sub, found = some (.view sub) → sub.Reachable) :
    (session.storeElement found).2.Holds := by
  match found with
  | none | some (.cell _) => exact h
  | some (.view sub) => exact store_holds h (hfound sub rfl)

/-- Of a selection that nothing broke off a view is stored. -/
theorem storeSelected_holds {selected : Except Fault (Option (Element Cell))}
    (hselected : ∀ sub, selected = .ok (some (.view sub)) → sub.Reachable) :
    (session.storeSelected selected).2.Holds := by
  cases selected with
  | error fault => exact h
  | ok found => exact storeElement_holds h fun sub hsub => hselected sub (congrArg _ hsub)

/-- Only a view that is stored is looked at. -/
theorem withView_holds {source : Nat} {next : View Cell → Answer × Session}
    (hnext : ∀ view, view.Reachable → (next view).2.Holds) :
    (session.withView source next).2.Holds := by
  rw [withView]
  split
  · rename_i view hview
    exact hnext view (h view (Array.mem_of_getElem? hview))
  · exact h

theorem storeRun_holds {γ : Type} {op : Operation} {run : Except Fault (Run γ (View Cell))}
    (hrun : ∀ ended out report, run = .ok ended → ended.result = .ok (out, report) →
      out.Reachable) : (session.storeRun op run).2.Holds := by
  cases run with
  | error fault => exact h
  | ok ended =>
    simp only [storeRun]
    split
    · exact h
    · rename_i out report hresult
      exact store_holds h (hrun ended out report rfl hresult)

theorem answerRun_holds {γ : Type} {op : Operation} {run : Except Fault (Run γ Cell)} :
    (session.answerRun op run).2.Holds := by
  cases run with
  | error fault => exact h
  | ok ended => exact h

/-! ## §2 Commands -/

/-- An operation of the engine stores what it returns. -/
theorem answerBulk_holds {host : Host} {config : Config} {command : BulkCommand}
    (hcommand : (Command.bulk host config command).Addressable) (setting : Setting) :
    (session.answerBulk setting command).2.Holds := by
  cases command with
  | build dims rule =>
    simp only [answerBulk]
    split
    · exact h
    · -- The dimensions are accepted, and the view is built over them.
      rename_i shape hshape
      exact storeRun_holds h fun _ _ _ hrun hresult => .build (.ofDims hshape) hrun hresult
  | map source rule =>
    exact withView_holds h fun view hview => storeRun_holds h fun _ _ _ => .map hview
  | filter source rule =>
    exact withView_holds h fun view hview => storeRun_holds h fun _ _ _ => .filter hview
  | reduce source f => exact withView_holds h fun view _ => answerRun_holds h
  | scan source f =>
    exact withView_holds h fun view hview => storeRun_holds h fun _ _ _ => .scan hview
  | scatter source targets default length conflict =>
    exact withView_holds h fun view hview =>
      storeRun_holds h fun _ _ _ => .scatter hview hcommand

/-- Whatever is answered, the views that are stored afterwards can be made. -/
theorem answer_holds {command : Command} (hcommand : command.Addressable) :
    (session.answer command).2.Holds := by
  cases command with
  | fromCells cells => exact store_holds h (.ofArray _ hcommand)
  | empty => exact store_holds h (.empty _)
  | fromShape dims cells =>
    apply storeValid_holds h
    intro view hview
    obtain ⟨shape, hshape, hmade⟩ := Fault.bind_eq_ok.mp hview
    exact .ofShape (.ofDims hshape) hmade
  | info source | cells source | display source | elements source =>
    exact withView_holds h fun _ _ => h
  | get source coords =>
    exact withView_holds h fun view hview => storeSelected_holds h fun sub hsub =>
      .get hview (Except.ok.inj ((hview.wrapping_get? coords).symm.trans hsub))
  | element source index =>
    exact withView_holds h fun view hview => storeSelected_holds h fun sub hsub =>
      .element hview (Except.ok.inj ((hview.wrapping_get? [index]).symm.trans hsub))
  | row source index =>
    apply withView_holds h
    intro view hview
    apply storeSelected_holds h
    intro sub hsub
    rw [hview.wrapping_get?] at hsub
    exact .element hview (rowOf?_eq_view (Except.ok.inj hsub))
  | cell source coords =>
    apply withView_holds h
    intro view hview
    apply storeSelected_holds h
    intro sub hsub
    rw [hview.wrapping_get?] at hsub
    -- A request for a cell stores no view.
    exact absurd (Except.ok.inj hsub) (cellOf?_ne_view _ sub)
  | partition source amount =>
    exact withView_holds h fun view hview => storeValid_holds h fun _ => .partition hview
  | flatten source =>
    exact withView_holds h fun view hview => storeValid_holds h fun _ => .flatten hview
  | shares source other | equal source other =>
    exact withView_holds h fun _ _ => withView_holds h fun _ _ => h
  | bulk host config command => exact answerBulk_holds h hcommand _

/-- So it goes on for any number of commands. -/
theorem after_holds {commands : List Command}
    (hcommands : ∀ command ∈ commands, command.Addressable) : (session.after commands).Holds := by
  -- By induction on the commands; each of them is answered by the session that the last one left.
  induction commands generalizing session with
  | nil => exact h
  | cons command rest ih =>
    have hfirst := answer_holds h (hcommands command (List.mem_cons_self ..))
    exact ih hfirst fun next hnext => hcommands next (List.mem_cons_of_mem _ hnext)

/-! ## §3 Faults -/

theorem withView_ne_fault {source : Nat} {next : View Cell → Answer × Session} {fault : Fault}
    (hnext : ∀ view, view.Reachable → (next view).1 ≠ .fault fault) :
    (session.withView source next).1 ≠ .fault fault := by
  rw [withView]
  split
  · rename_i view hview
    exact hnext view (h view (Array.mem_of_getElem? hview))
  · nofun

omit h in
theorem storeValid_ne_fault (made : Except InputError (View Cell)) (fault : Fault) :
    (session.storeValid made).1 ≠ .fault fault := by
  cases made <;> nofun

omit h in
theorem storeElement_ne_fault (found : Option (Element Cell)) (fault : Fault) :
    (session.storeElement found).1 ≠ .fault fault := by
  match found with
  | none | some (.cell _) | some (.view _) => nofun

omit h in
theorem storeSelected_ne_fault {selected : Except Fault (Option (Element Cell))}
    (hselected : ∃ found, selected = .ok found) (fault : Fault) :
    (session.storeSelected selected).1 ≠ .fault fault := by
  obtain ⟨found, rfl⟩ := hselected
  exact storeElement_ne_fault found fault

omit h in
/-- A run that is there is answered with its result or with its error. -/
theorem storeRun_ne_fault {γ : Type} {op : Operation} {run : Except Fault (Run γ (View Cell))}
    (hrun : ∃ ended, run = .ok ended) (fault : Fault) :
    (session.storeRun op run).1 ≠ .fault fault := by
  obtain ⟨ended, rfl⟩ := hrun
  simp only [storeRun]
  split <;> nofun

omit h in
theorem answerRun_ne_fault {γ : Type} {op : Operation} {run : Except Fault (Run γ Cell)}
    (hrun : ∃ ended, run = .ok ended) (fault : Fault) :
    (session.answerRun op run).1 ≠ .fault fault := by
  obtain ⟨ended, rfl⟩ := hrun
  nofun

theorem answerBulk_ne_fault {host : Host} {config : Config} {command : BulkCommand}
    (hcommand : (Command.bulk host config command).Addressable) (setting : Setting)
    (fault : Fault) : (session.answerBulk setting command).1 ≠ .fault fault := by
  cases command with
  | build dims rule =>
    simp only [answerBulk]
    split
    · nofun
    · rename_i shape hshape
      have hsafe := View.build_safe (Shape.Reachable.ofDims hshape).addressable (rule.apply shape)
      exact storeRun_ne_fault (hsafe.exists_run setting) fault
  | map source rule =>
    exact withView_ne_fault h fun view hview =>
      storeRun_ne_fault ((View.map_safe hview.valid rule.apply).exists_run setting) fault
  | filter source rule =>
    exact withView_ne_fault h fun view hview =>
      storeRun_ne_fault ((View.filter_safe hview.valid rule.apply).exists_run setting) fault
  | reduce source f =>
    apply withView_ne_fault h
    intro view hview
    -- Folding leaves no view, only an answer.
    obtain ⟨run, hrun, -⟩ := View.reduce_runs hview.valid f.apply setting
    exact answerRun_ne_fault ⟨run, hrun⟩ fault
  | scan source f =>
    exact withView_ne_fault h fun view hview =>
      storeRun_ne_fault ((View.scan_safe hview.valid f.apply).exists_run setting) fault
  | scatter source targets default length conflict =>
    apply withView_ne_fault h
    intro view hview
    have hsafe := View.scatter_safe hview.valid targets default hcommand
      (conflict.map Combiner.apply)
    exact storeRun_ne_fault (hsafe.exists_run setting) fault

/-- No command is answered with a fault. -/
theorem answer_ne_fault {command : Command} (hcommand : command.Addressable) (fault : Fault) :
    (session.answer command).1 ≠ .fault fault := by
  cases command with
  | fromCells cells => nofun
  | empty => nofun
  | fromShape dims cells => exact storeValid_ne_fault _ fault
  | info source | cells source | display source | elements source =>
    exact withView_ne_fault h fun _ _ => nofun
  | get source coords =>
    exact withView_ne_fault h fun _ hview =>
      storeSelected_ne_fault ⟨_, hview.wrapping_get? coords⟩ fault
  | element source index =>
    exact withView_ne_fault h fun _ hview =>
      storeSelected_ne_fault ⟨_, hview.wrapping_get? [index]⟩ fault
  | row source index =>
    exact withView_ne_fault h fun _ hview =>
      storeSelected_ne_fault ⟨_, congrArg (Except.map rowOf?) (hview.wrapping_get? [index])⟩ fault
  | cell source coords =>
    exact withView_ne_fault h fun _ hview =>
      storeSelected_ne_fault ⟨_, congrArg (Except.map cellOf?) (hview.wrapping_get? coords)⟩ fault
  | partition source amount | flatten source =>
    exact withView_ne_fault h fun _ _ => storeValid_ne_fault _ fault
  | shares source other | equal source other =>
    exact withView_ne_fault h fun _ _ => withView_ne_fault h fun _ _ => nofun
  | bulk host config command => exact answerBulk_ne_fault h hcommand _ fault

end

/-! ## §4 Whole sessions -/

/-- Every view that a session stores can be made, whatever it was asked before. -/
theorem holds_of_commands {commands : List Command}
    (hcommands : ∀ command ∈ commands, command.Addressable) :
    (Session.after {} commands).Holds :=
  after_holds holds_initial hcommands

/-- And no command is answered with a fault, whatever was asked before. -/
theorem never_answers_fault {commands : List Command} {command : Command}
    (hcommands : ∀ command ∈ commands, command.Addressable) (hcommand : command.Addressable)
    (fault : Fault) : ((Session.after {} commands).answer command).1 ≠ .fault fault :=
  answer_ne_fault (holds_of_commands hcommands) hcommand fault

end Session

end ForkJoin
