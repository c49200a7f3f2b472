import ForkJoin.Proofs.Layouts
import ForkJoin.Proofs.Rejections
import ForkJoin.Proofs.Selection

/-!
# Views that can be made

A view is made on a new buffer, selected from another view, regrouped, or returned by an operation.
However it was made, its shape is one that validation accepts and its window lies inside its buffer.
So nothing that is read through it is ever out of range, and it can be partitioned and flattened
whenever the numbers come out even and there is a dimension to merge.

## Main definitions
- `View.Fresh`: views on buffers of their own.
- `Shape.Reachable`, `View.Reachable`: the shapes and views that can be made.

## Main statements
- `Yields.fresh`, `Screens.fresh`: operations return views on buffers of their own.
- `View.Reachable.valid`, `View.Reachable.buffer_lt`: every view that can be made is valid, on a buffer
  that can be addressed.
- `View.reachable_window`: what follows for its window, its selections and its regroupings.
-/

namespace ForkJoin

variable {α β γ : Type}

/-! ## §1 Views on new buffers -/

/-- A valid view on a buffer of its own, of which it takes up everything. -/
structure View.Fresh (view : View α) : Prop extends view.Valid where
  size_eq : view.buffer.cells.size = view.shape.size

section

variable {cells : Array α} {shape : Shape} {source view out : View α}

/-- A buffer has no more cells than can be addressed if there is a view of all of it. -/
theorem View.Fresh.size_lt (h : view.Fresh) : view.buffer.cells.size < addressLimit := by
  rw [h.size_eq]
  exact Shape.size_lt h.addressable

/-- Cells on a buffer of their own, as many as the shape has elements. -/
theorem View.fresh_mk (id : BufferId) (hshape : Shape.ofDims? shape.dims = .ok shape)
    (hsize : cells.size = shape.size) : (View.mk shape ⟨id, cells⟩ 0).Fresh where
  addressable := hshape
  inside := by rw [hsize, Nat.zero_add]
  size_eq := hsize

theorem View.fresh_ofArray (id : BufferId) (h : cells.size < addressLimit) :
    (View.ofArray id cells).Fresh :=
  View.fresh_mk id (Shape.addressable_vector h)
    (by simp [Shape.vector, Shape.size, Shape.dims, Dims.size])

theorem View.fresh_empty (id : BufferId) : (View.empty id : View α).Fresh :=
  View.fresh_ofArray id (by simp [addressLimit])

theorem View.fresh_ofShape? {id : BufferId} (hshape : Shape.ofDims? shape.dims = .ok shape)
    (h : View.ofShape? id shape cells = .ok view) : view.Fresh := by
  rw [ofShape?] at h
  split at h
  · rename_i hsize
    cases h
    exact View.fresh_mk id hshape hsize
  · cases h

/-- What a filter keeps has a shape, and fills it. -/
theorem View.fresh_kept (h : source.Valid) (keep : Visit α → Bool) (id : BufferId) :
    (source.kept keep id).Fresh := by
  -- Both the shape and the view are validated when the rows are put together, and neither is
  -- rejected: that is what the survivors of a valid source were shown to come to.
  obtain ⟨shape, hshape, hmade⟩ := Fault.bind_eq_ok.mp (View.ofShape?_kept keep h id)
  have hdims := (Shape.ofDims?_eq_ok.mp hshape).1
  exact View.fresh_ofShape? (hdims ▸ hshape) hmade

/-! ## §2 Views that operations return -/

/-- What is returned is on a buffer of its own if what the operation comes to is. -/
theorem Yields.fresh {operation : Setting → Except Fault (Run γ (View α))} {setting : Setting}
    {run : Run γ (View α)} {report : Report} (h : Yields operation setting view)
    (hview : view.Fresh) (hrun : operation setting = .ok run)
    (hresult : run.result = .ok (out, report)) : out.Fresh := by
  rcases h.result_eq hrun hresult with rfl | rfl
  · exact hview
  · exact View.fresh_empty setting.newBuffer

theorem View.build_fresh {f : Coords → β} {setting : Setting} {run : Run Coords (View β)}
    {out : View β} {report : Report} (hshape : Shape.ofDims? shape.dims = .ok shape)
    (hrun : View.build setting shape f = .ok run) (hresult : run.result = .ok (out, report)) :
    out.Fresh :=
  -- There are as many values as the shape has coordinates.
  (View.build_yields shape f setting).fresh (View.fresh_mk _ hshape (shape.size_map_rowMajor f))
    hrun hresult

theorem View.map_fresh {f : Visit α → β} {setting : Setting} {run : Run (Visit α) (View β)}
    {out : View β} {report : Report} (h : source.Valid) (hrun : source.map setting f = .ok run)
    (hresult : run.result = .ok (out, report)) : out.Fresh := by
  refine (View.map_yields h f setting).fresh (View.fresh_ofArray _ ?_) hrun hresult
  rw [List.size_toArray, List.length_map, View.length_visits h]
  exact Shape.outer_lt h.addressable

theorem Records.map_fresh {bytes : Array UInt8} {layout : Layout} {records : Records}
    {f : RecordVisit → β} {setting : Setting} {run : Run RecordVisit (View β)} {out : View β}
    {report : Report} (hbytes : bytes.size < addressLimit)
    (hrecords : Records.ofBytes? bytes layout = .ok records)
    (hrun : records.map setting f = .ok run) (hresult : run.result = .ok (out, report)) :
    out.Fresh := by
  refine (records.map_yields f setting).fresh (View.fresh_ofArray _ ?_) hrun hresult
  obtain ⟨hsize, -, -, hfill⟩ := Records.ofBytes?_eq_ok hrecords
  -- No record is empty, so there are at most as many records as bytes.
  have hlength : records.length ≤ bytes.size := by
    rw [← hfill]
    exact Nat.le_mul_of_pos_right _ (Nat.pos_of_ne_zero hsize)
  rw [List.size_toArray, List.length_map, Records.visits, List.length_map, List.length_range]
  exact Nat.lt_of_le_of_lt hlength hbytes

theorem View.filter_fresh {keep : Visit α → Bool} {setting : Setting}
    {run : Run (Visit α) (View α)} {report : Report} (h : source.Valid)
    (hrun : source.filter setting keep = .ok run) (hresult : run.result = .ok (out, report)) :
    out.Fresh :=
  (View.filter_yields h keep setting).fresh (View.fresh_kept h keep _) hrun hresult

/-- So is the sequence that a scan or a scatter comes to, if its length can be addressed. -/
theorem Screens.fresh {operation : Setting → Except Fault (Run γ (View β))} {length : Nat}
    {setting : Setting} {run : Run γ (View β)} {out : View β} {report : Report}
    (h : Screens operation length) (hlength : length < addressLimit)
    (hrun : operation setting = .ok run) (hresult : run.result = .ok (out, report)) : out.Fresh := by
  rcases h with ⟨cause, hrejected⟩ | hyields
  · obtain rfl : .rejected cause = run := Except.ok.inj ((hrejected setting).symm.trans hrun)
    cases hresult
  · obtain ⟨cells, rfl, hview⟩ := hyields setting
    exact hview.fresh (View.fresh_ofArray _ hlength) hrun hresult

theorem View.scan_fresh {f : α → α → α} {setting : Setting} {run : Run (α × α) (View α)}
    {report : Report} (h : source.Valid) (hrun : source.scan setting f = .ok run)
    (hresult : run.result = .ok (out, report)) : out.Fresh :=
  (View.scan_screens h f).fresh (Shape.outer_lt h.addressable) hrun hresult

theorem View.scatter_fresh {targets : Array Target} {default : α} {length : Nat}
    {conflict : Option (α → α → α)} {setting : Setting} {run : Run (α × α) (View α)}
    {report : Report} (h : source.Valid) (hlength : length < addressLimit)
    (hrun : source.scatter setting targets default length conflict = .ok run)
    (hresult : run.result = .ok (out, report)) : out.Fresh :=
  (View.scatter_screens h targets default length conflict).fresh hlength hrun hresult

end

/-! ## §3 Shapes and views that can be made -/

/-- The shapes that can be made: those that validation lets through, and those of sequences. -/
inductive Shape.Reachable : Shape → Prop where
  | ofDims {dims : Dims} {shape : Shape} (h : Shape.ofDims? dims = .ok shape) : Reachable shape
  | ofNumbers {numbers : List Binary64} {shape : Shape} (h : Shape.ofNumbers? numbers = .ok shape) :
    Reachable shape
  | vector {length : Nat} (h : length < addressLimit) : Reachable (.vector length)

/-- Validation accepts every shape that can be made. -/
theorem Shape.Reachable.addressable {shape : Shape} (h : shape.Reachable) :
    Shape.ofDims? shape.dims = .ok shape := by
  cases h with
  | ofDims h => exact (Shape.ofDims?_eq_ok.mp h).1 ▸ h
  | ofNumbers h =>
    rw [Shape.ofNumbers?] at h
    obtain ⟨dims, -, h⟩ := Fault.bind_eq_ok.mp h
    exact (Shape.ofDims?_eq_ok.mp h).1 ▸ h
  | vector h => exact Shape.addressable_vector h

/-- The views that can be made. The cells of a new buffer, the bytes of records and the output of a
scatter can be addressed; what an operation is given besides is arbitrary. -/
inductive View.Reachable : {α : Type} → View α → Prop where
  /-- A sequence. -/
  | ofArray {α : Type} (id : BufferId) {cells : Array α} (hcells : cells.size < addressLimit) :
    Reachable (.ofArray id cells)
  /-- The view without cells. -/
  | empty {α : Type} (id : BufferId) : Reachable (.empty id : View α)
  /-- Cells in a shape. -/
  | ofShape {α : Type} {id : BufferId} {shape : Shape} {cells : Array α} {view : View α}
    (hshape : shape.Reachable) (h : View.ofShape? id shape cells = .ok view) : Reachable view
  /-- What coordinates select. -/
  | get {α : Type} {view sub : View α} {coords : Coords} (hview : Reachable view)
    (h : view.get? coords = some (.view sub)) : Reachable sub
  /-- An element of the outermost dimension. -/
  | element {α : Type} {view sub : View α} {index : Nat} (hview : Reachable view)
    (h : view.element? index = some (.view sub)) : Reachable sub
  /-- A row. -/
  | row {α : Type} {view sub : View α} {index : Nat} (hview : Reachable view)
    (h : view.row? index = some sub) : Reachable sub
  /-- An element that an operation hands to its callback. -/
  | elementAt {α : Type} {view sub : View α} {index : Nat} (hview : Reachable view)
    (h : view.elementAt index = .ok (.view sub)) : Reachable sub
  | partition {α : Type} {view sub : View α} {amount : Nat} (hview : Reachable view)
    (h : view.partition amount = .ok sub) : Reachable sub
  | flatten {α : Type} {view sub : View α} (hview : Reachable view) (h : view.flatten = .ok sub) :
    Reachable sub
  | build {β : Type} {shape : Shape} {f : Coords → β} {setting : Setting}
    {run : Run Coords (View β)} {out : View β} {report : Report} (hshape : shape.Reachable)
    (hrun : View.build setting shape f = .ok run) (h : run.result = .ok (out, report)) :
    Reachable out
  | map {α β : Type} {source : View α} {f : Visit α → β} {setting : Setting}
    {run : Run (Visit α) (View β)} {out : View β} {report : Report} (hsource : Reachable source)
    (hrun : source.map setting f = .ok run) (h : run.result = .ok (out, report)) : Reachable out
  | mapRecords {β : Type} {bytes : Array UInt8} {layout : Layout} {records : Records}
    {f : RecordVisit → β} {setting : Setting} {run : Run RecordVisit (View β)} {out : View β}
    {report : Report} (hbytes : bytes.size < addressLimit)
    (hrecords : Records.ofBytes? bytes layout = .ok records)
    (hrun : records.map setting f = .ok run) (h : run.result = .ok (out, report)) : Reachable out
  | filter {α : Type} {source : View α} {keep : Visit α → Bool} {setting : Setting}
    {run : Run (Visit α) (View α)} {out : View α} {report : Report} (hsource : Reachable source)
    (hrun : source.filter setting keep = .ok run) (h : run.result = .ok (out, report)) :
    Reachable out
  | scan {α : Type} {source : View α} {f : α → α → α} {setting : Setting}
    {run : Run (α × α) (View α)} {out : View α} {report : Report} (hsource : Reachable source)
    (hrun : source.scan setting f = .ok run) (h : run.result = .ok (out, report)) : Reachable out
  | scatter {α : Type} {source : View α} {targets : Array Target} {default : α} {length : Nat}
    {conflict : Option (α → α → α)} {setting : Setting} {run : Run (α × α) (View α)}
    {out : View α} {report : Report} (hsource : Reachable source) (hlength : length < addressLimit)
    (hrun : source.scatter setting targets default length conflict = .ok run)
    (h : run.result = .ok (out, report)) : Reachable out

section

variable {view : View α}

/-- Every view that can be made is valid, however long the way to it was. -/
theorem View.Reachable.valid (h : view.Reachable) : view.Valid := by
  -- By induction on the way to the view: every step but the first has a valid view to go on from.
  induction h with
  | ofArray id hcells => exact (View.fresh_ofArray id hcells).toValid
  | empty id => exact (View.fresh_empty id).toValid
  | ofShape hshape h => exact (View.fresh_ofShape? hshape.addressable h).toValid
  | get _ h ih => exact ih.get? h
  | element _ h ih => exact ih.get? h
  | row _ h ih => exact ih.get? (View.row?_eq_some h)
  | elementAt _ h ih => exact ih.elementAt h
  | partition _ h ih => exact ih.partition h
  | flatten _ h ih => exact ih.flatten h
  | build hshape hrun h => exact (View.build_fresh hshape.addressable hrun h).toValid
  | map _ hrun h ih => exact (View.map_fresh ih hrun h).toValid
  | mapRecords hbytes hrecords hrun h => exact (Records.map_fresh hbytes hrecords hrun h).toValid
  | filter _ hrun h ih => exact (View.filter_fresh ih hrun h).toValid
  | scan _ hrun h ih => exact (View.scan_fresh ih hrun h).toValid
  | scatter _ hlength hrun h ih => exact (View.scatter_fresh ih hlength hrun h).toValid

/-- The buffer of a view that can be made can be addressed. -/
theorem View.Reachable.buffer_lt (h : view.Reachable) : view.buffer.cells.size < addressLimit := by
  -- A new buffer holds what its first view holds, and selecting and regrouping stay on the buffer.
  induction h with
  | ofArray id hcells => exact (View.fresh_ofArray id hcells).size_lt
  | empty id => exact (View.fresh_empty id).size_lt
  | ofShape hshape h => exact (View.fresh_ofShape? hshape.addressable h).size_lt
  | get _ h ih | element _ h ih => rwa [View.buffer_of_get? h]
  | row _ h ih => rwa [View.buffer_of_get? (View.row?_eq_some h)]
  | elementAt hview h ih => rwa [View.buffer_of_get? (hview.valid.element?_of_elementAt h)]
  | partition hview h ih =>
    obtain ⟨-, -, rfl⟩ := hview.valid.partition_eq_ok h
    exact ih
  | flatten hview h ih =>
    obtain ⟨next, inner, -, rfl⟩ := hview.valid.flatten_eq_ok h
    exact ih
  | build hshape hrun h => exact (View.build_fresh hshape.addressable hrun h).size_lt
  | map hsource hrun h => exact (View.map_fresh hsource.valid hrun h).size_lt
  | mapRecords hbytes hrecords hrun h => exact (Records.map_fresh hbytes hrecords hrun h).size_lt
  | filter hsource hrun h => exact (View.filter_fresh hsource.valid hrun h).size_lt
  | scan hsource hrun h => exact (View.scan_fresh hsource.valid hrun h).size_lt
  | scatter hsource hlength hrun h =>
    exact (View.scatter_fresh hsource.valid hlength hrun h).size_lt

/-- The shape of a view that can be made can be made, so that the views in such a shape are among
them. -/
theorem View.Reachable.shape (h : view.Reachable) : view.shape.Reachable :=
  .ofDims h.valid.addressable

/-! ## §4 What can be done with them -/

/-- **A view that can be made is a window inside its buffer.** Its shape has a dimension and would
be accepted, and its cells are there. Coordinates select something exactly if they name a position,
and the block at this position lies inside the buffer. It can be partitioned exactly if the groups
come out even, and flattened exactly if it has a second dimension. -/
theorem View.reachable_window (h : view.Reachable) :
    1 ≤ view.rank ∧
    Shape.ofDims? view.shape.dims = .ok view.shape ∧
    view.offset + view.shape.size ≤ view.buffer.cells.size ∧
    (view.window = .ok view.toArray ∧ view.toArray.size = view.shape.size) ∧
    (∀ coords, coords ≠ [] →
      (view.get? coords).isSome = (view.positionOf? coords).isSome ∧
      ∀ p, view.positionOf? coords = some p →
        view.offset + p + Dims.size (view.shape.dims.drop coords.length) ≤
          view.buffer.cells.size) ∧
    (∀ amount cause, view.partition amount = .error cause ↔
      (amount = 0 ∨ ¬ amount ∣ view.length) ∧
      cause = .argument (.unevenGroups view.length amount)) ∧
    (∀ cause, view.flatten = .error cause ↔
      view.rank = 1 ∧ cause = .unsupportedRank .flatten 1) := by
  have hvalid := h.valid
  refine ⟨?rank, hvalid.addressable, hvalid.inside, ⟨View.window_eq hvalid, ?cells⟩, ?get,
    ?partition, ?flatten⟩
  case rank => exact Nat.succ_le_succ (Nat.zero_le _)
  case cells => exact View.size_toArray hvalid
  case get =>
    intro coords hne
    refine ⟨hvalid.isSome_get? hne, fun p hposition => ?_⟩
    rw [View.positionOf?_eq] at hposition
    exact hvalid.block_inside hposition
  case partition =>
    intro amount cause
    -- The shape of the groups would be rejected only where the shape of the view is.
    by_cases heven : amount ≠ 0 ∧ amount ∣ view.length
    · rw [hvalid.partition_eq heven.1 heven.2]
      simp [heven.1, heven.2]
    · have huneven : amount = 0 ∨ ¬ amount ∣ view.length := by tauto
      rw [View.partition_eq_error view huneven]
      simp [huneven, eq_comm]
  case flatten =>
    intro cause
    cases hinner : view.shape.inner with
    | nil =>
      have hrank : view.rank = 1 := by simp [View.rank, Shape.rank, Shape.dims, hinner]
      rw [View.flatten_eq_error hinner]
      simp [hrank, eq_comm]
    | cons next inner =>
      have hrank : view.rank ≠ 1 := by simp [View.rank, Shape.rank, Shape.dims, hinner]
      rw [hvalid.flatten_eq hinner]
      simp [hrank]

/-- The second row of a matrix with three rows of four cells, in pairs: a window of four cells that
begins at the fifth of twelve, and can be flattened. -/
theorem View.reachable_window_row :
    ∃ matrix row view : View Nat,
      View.ofShape? 0 ⟨3, [4]⟩ (Array.range 12) = .ok matrix ∧ matrix.row? 1 = some row ∧
      row.partition 2 = .ok view ∧
      view.offset + view.shape.size ≤ view.buffer.cells.size ∧
      view.window = .ok #[4, 5, 6, 7] ∧ ∀ cause, view.flatten ≠ .error cause := by
  have hshape : Shape.ofDims? [3, 4] = .ok ⟨3, [4]⟩ := rfl
  have hmatrix : View.ofShape? 0 ⟨3, [4]⟩ (Array.range 12) =
    .ok ⟨⟨3, [4]⟩, ⟨0, Array.range 12⟩, 0⟩ := rfl
  have hrow : (View.mk ⟨3, [4]⟩ ⟨0, Array.range 12⟩ 0).row? 1 =
    some ⟨⟨4, []⟩, ⟨0, Array.range 12⟩, 4⟩ := rfl
  have hview : (View.mk ⟨4, []⟩ ⟨0, Array.range 12⟩ 4).partition 2 =
    .ok ⟨⟨2, [2]⟩, ⟨0, Array.range 12⟩, 4⟩ := rfl
  have hreachable := ((View.Reachable.ofShape (.ofDims hshape) hmatrix).row hrow).partition hview
  obtain ⟨-, -, hinside, ⟨hwindow, -⟩, -, -, hflatten⟩ := View.reachable_window hreachable
  refine ⟨_, _, _, hmatrix, hrow, hview, hinside, hwindow, fun cause h => ?_⟩
  obtain ⟨hrank, -⟩ := (hflatten cause).mp h
  cases hrank

end

end ForkJoin
