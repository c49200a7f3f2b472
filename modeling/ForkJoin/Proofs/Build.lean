import ForkJoin.Operation.Build
import ForkJoin.Proofs.Coordinates
import ForkJoin.Proofs.Runs
import ForkJoin.Proofs.Sweeps
import ForkJoin.Proofs.Tables
import ForkJoin.Proofs.Views

/-!
# The build

A worker appends the values at the coordinates of its chunks, which it finds by one division and
as many steps as there are elements, or by dividing every position anew. Either way the function
is applied to every coordinate list in range once, and the values of all workers, joined in slice
order, are in row-major order. Where a dimension is zero there is no chunk, so nothing is divided.

## Main definitions
- `IsBuild`: the array of a function.

## Main statements
- `buildKernel_appends`: the values at the coordinates of one chunk.
- `View.build_eq`: what building an array leaves.
- `View.build_rowMajor`: every coordinate list is visited once, and has its value in its place.
-/

namespace ForkJoin

variable {β : Type}

/-- The array of a function: of the given shape, with the value at the only coordinates in range
that name a position at this position. -/
structure IsBuild (shape : Shape) (f : Coords → β) (out : View β) : Prop where
  shape_eq : out.shape = shape
  size_eq : out.toArray.size = shape.size
  value_at : ∀ i < shape.size, ∃ coords,
    (∀ other, (shape.dims.InRange other ∧ shape.dims.offset? other = some i) ↔ other = coords) ∧
      out.toArray[i]? = some (f coords)

/-- The coordinates of the elements of a chunk. -/
def Shape.coordsOfChunk (shape : Shape) (chunk : Nat) : List Coords :=
  (Span.ofChunk chunk shape.size).positions.map shape.dims.coordsOf

/-- The values at the coordinates of a chunk are appended, in order. -/
theorem buildKernel_appends (shape : Shape) (f : Coords → β) :
    (buildKernel shape f).Appends f shape.coordsOfChunk (chunkCount shape.size) := by
  intro chunk hchunk out
  obtain ⟨hstart, hle, hsize⟩ := ofChunk_bounds hchunk
  have hstop : (Span.ofChunk chunk shape.size).start + (Span.ofChunk chunk shape.size).length ≤
      shape.size := by
    rwa [Span.length, Nat.add_sub_cancel' hle]
  refine .silent_bind (.lift (RankKind.coordsIn_of hstart hstop)) (.foldlM_push ?_ out)
  exact List.forall₂_same.mpr fun coords _ out => .map out.push (.call f coords)

/-- The coordinates of all chunks are those of all positions. -/
theorem Shape.coordsOfChunk_flatMap (shape : Shape) :
    (List.range (chunkCount shape.size)).flatMap shape.coordsOfChunk = shape.dims.rowMajor := by
  rw [Dims.rowMajor, ← Shape.size, ← flatMap_positions_range_chunkCount shape.size,
    List.map_flatMap]
  rfl

/-- There are as many values as the shape has elements. -/
theorem Shape.size_map_rowMajor (shape : Shape) (f : Coords → β) :
    (shape.dims.rowMajor.map f).toArray.size = shape.size := by
  simp [Dims.rowMajor, Shape.size]

/-- The values in row-major order are the array of the function. -/
theorem isBuild_rowMajor (shape : Shape) (f : Coords → β) (newBuffer : BufferId) :
    IsBuild shape f ⟨shape, ⟨newBuffer, (shape.dims.rowMajor.map f).toArray⟩, 0⟩ := by
  have hsize := shape.size_map_rowMajor f
  have hcells := View.toArray_mk newBuffer hsize
  refine ⟨rfl, by rw [hcells, hsize], ?_⟩
  intro i hi
  refine ⟨shape.dims.coordsOf i, fun other => ⟨?_, ?_⟩, ?_⟩
  · -- Other coordinates with this position are the same ones.
    intro hother
    exact (Dims.existsUnique_coords hi).unique hother
      ⟨Dims.inRange_coordsOf hi, Dims.offset?_coordsOf hi⟩
  · rintro rfl
    exact ⟨Dims.inRange_coordsOf hi, Dims.offset?_coordsOf hi⟩
  · rw [hcells, Dims.rowMajor, ← Shape.size]
    simp [hi]

/-- What the workers have appended is given a shape that has as many elements. -/
theorem Run.conclude_ofShape? {γ : Type} {run : Run γ (Option (List (Array β)))} {report : Report}
    {config : Config} {parts : List (Array β)} {shape : Shape} (newBuffer : BufferId)
    (h : run.result = (report.check config).map fun report => (some parts, report))
    (hsize : (joinArrays parts).size = shape.size) :
    ∃ final : Run γ (View β), (run.conclude fun
        | none => .ok (.ok (.empty newBuffer))
        | some parts => .ok (View.ofShape? newBuffer shape (joinArrays parts))) = .ok final ∧
      final.result = (report.check config).map (fun report =>
        (⟨shape, ⟨newBuffer, joinArrays parts⟩, 0⟩, report)) ∧
      final.calls = run.calls := by
  let next : Option (List (Array β)) → Except Fault (Except InputError (View β)) := fun
    | none => .ok (.ok (.empty newBuffer))
    | some parts => .ok (View.ofShape? newBuffer shape (joinArrays parts))
  have hnext : next (some parts) = .ok (.ok ⟨shape, ⟨newBuffer, joinArrays parts⟩, 0⟩) :=
    congrArg Except.ok (if_pos hsize)
  obtain ⟨final, hfinal, hresult, hcalls, -⟩ := Run.conclude_of_check h hnext
  exact ⟨final, hfinal, hresult, hcalls⟩

/-- Building an array applies the function to all coordinates in row-major order, and leaves the
values if the execution was as expected. -/
theorem View.build_eq (setting : Setting) (shape : Shape) (f : Coords → β)
    (hsequential : setting.config.sequential = true) :
    ∃ (run : Run Coords (View β)) (report : Report), View.build setting shape f = .ok run ∧
      run.result = (report.check setting.config).map (fun report =>
        (⟨shape, ⟨setting.newBuffer, (shape.dims.rowMajor.map f).toArray⟩, 0⟩, report)) ∧
      run.calls.toList = shape.dims.rowMajor := by
  obtain ⟨run, report, parts, hrun, hresult, hcalls, hparts⟩ :=
    sweep_appends shape.size (buildKernel_appends shape f) setting .build hsequential
  rw [Shape.coordsOfChunk_flatMap] at hcalls hparts
  -- The values fill the shape, so the view is accepted.
  have hsize : (joinArrays parts).size = shape.size := by
    rw [hparts, Shape.size_map_rowMajor]
  obtain ⟨final, hfinal, hfinalResult, hfinalCalls⟩ :=
    Run.conclude_ofShape? setting.newBuffer hresult hsize
  rw [hparts] at hfinalResult
  exact ⟨final, report, by rw [View.build, hrun]; exact hfinal, hfinalResult,
    by rw [hfinalCalls, hcalls]⟩

/-- **A build fills its array in row-major order.** It never breaks off, so it divides by no zero
stride; it applies its function to every coordinate list in range once and to nothing else,
whichever way the run ends; and every result holds the values in their places. -/
theorem View.build_rowMajor (setting : Setting) (shape : Shape) (f : Coords → β)
    (hsequential : setting.config.sequential = true) :
    ∃ run, View.build setting shape f = .ok run ∧
      run.calls.toList.Nodup ∧
      (∀ coords, coords ∈ run.calls.toList ↔ shape.dims.InRange coords) ∧
      run.Ends setting.config (IsBuild shape f) := by
  obtain ⟨run, report, hrun, hresult, hcalls⟩ := View.build_eq setting shape f hsequential
  refine ⟨run, hrun, ?_, ?_, .of_check hresult (isBuild_rowMajor shape f setting.newBuffer)⟩
  · rw [hcalls]
    exact Dims.nodup_rowMajor shape.dims
  · intro coords
    rw [hcalls]
    exact Dims.mem_rowMajor

/-- Four dimensions, which are walked, by three workers that bail out of every attempt: every
element holds its own coordinates. -/
theorem View.build_rowMajor_four :
    ∃ run, View.build { host := BailSchedule.always.host, config := Config.withWorkers {} 3 }
        ⟨7, [3, 5, 2]⟩ id = .ok run ∧
      run.calls.toList.Nodup ∧
      (∀ coords, coords ∈ run.calls.toList ↔ Dims.InRange [7, 3, 5, 2] coords) ∧
      run.Ends (Config.withWorkers {} 3) (IsBuild ⟨7, [3, 5, 2]⟩ id) :=
  View.build_rowMajor { host := BailSchedule.always.host, config := Config.withWorkers {} 3 }
    ⟨7, [3, 5, 2]⟩ id rfl

end ForkJoin
