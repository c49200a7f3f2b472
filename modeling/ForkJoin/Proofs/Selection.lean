import ForkJoin.Proofs.RowMajor
import ForkJoin.Proofs.Shapes
import ForkJoin.Proofs.Visits
import ForkJoin.View.Reshape

/-!
# Selection from valid views

Coordinates name the first position of a block, and the block lies inside the window: its dimensions
are those that no coordinate was given for, and the ones before them are not zero. So selecting from
a valid view reads no cell outside its buffer, and gives a valid view again. Splitting or merging
outermost dimensions keeps the window as it is.

## Main definitions
- `View.positionOf?`: the position that coordinates name.

## Main statements
- `Dims.offset?_add_size_le`: a block lies inside.
- `View.Valid.get?`, `View.Valid.elementAt`: what is selected from a valid view is valid.
- `View.partition_eq`, `View.flatten_eq`: when a valid view can be partitioned or flattened.
-/

namespace ForkJoin

variable {α : Type}

/-! ## §1 Blocks -/

/-- The block that coordinates select lies inside the array. -/
theorem Dims.offset?_add_size_le {dims : Dims} {coords : Coords} {p : Nat}
    (h : dims.offset? coords = some p) :
    coords.length ≤ dims.length ∧ p + size (dims.drop coords.length) ≤ size dims := by
  induction dims generalizing coords p with
  | nil =>
    cases coords with
    | nil =>
      cases h
      exact ⟨Nat.le_refl 0, Nat.le_refl 1⟩
    | cons c rest => cases h
  | cons d inner ih =>
    cases coords with
    | nil =>
      rw [offset?] at h
      cases h
      exact ⟨Nat.zero_le _, Nat.le_of_eq (Nat.zero_add _)⟩
    | cons c rest =>
      rw [offset?] at h
      split at h
      · rename_i hc
        obtain ⟨q, hq, rfl⟩ := Option.map_eq_some_iff.mp h
        obtain ⟨hlength, hblock⟩ := ih hq
        refine ⟨Nat.succ_le_succ hlength, ?_⟩
        -- The block lies in row `c`, and there are at least `c + 1` rows.
        have hrows : (c + 1) * size inner ≤ d * size inner := Nat.mul_le_mul_right _ hc
        rw [Nat.succ_mul] at hrows
        simp only [List.length_cons, List.drop_succ_cons, size]
        omega
      · cases h

theorem Shape.suffix?_eq_some {shape rest : Shape} {leading : Nat}
    (h : shape.suffix? leading = some rest) : rest.dims = shape.dims.drop leading := by
  rw [suffix?] at h
  split at h
  · cases h
  · rename_i outer inner hdrop
    cases h
    exact hdrop.symm

theorem Shape.exists_suffix? {shape : Shape} {leading : Nat} (h : leading < shape.dims.length) :
    ∃ rest, shape.suffix? leading = some rest := by
  have hpos : 0 < (shape.dims.drop leading).length := by
    rw [List.length_drop]
    omega
  obtain ⟨outer, inner, hdrop⟩ := List.exists_cons_of_length_pos hpos
  exact ⟨⟨outer, inner⟩, by rw [suffix?, hdrop]⟩

namespace View

variable {view sub : View α} {coords : Coords}

/-! ## §2 Selecting -/

/-- The position in the window that coordinates name. A cell is looked for on the path for the
number of dimensions, a sub-view through the strides. -/
def positionOf? (view : View α) (coords : Coords) : Option Nat :=
  if coords.length = view.shape.dims.length then view.shape.rankKind.offset? view.shape.dims coords
  else view.shape.dims.offset? coords

theorem positionOf?_eq (view : View α) (coords : Coords) :
    view.positionOf? coords = view.shape.dims.offset? coords := by
  rw [positionOf?, Shape.rankKind, RankKind.offset?_of]
  split <;> rfl

/-- A block of a valid view lies inside its buffer. -/
theorem Valid.block_inside (h : view.Valid) {p : Nat}
    (hposition : view.shape.dims.offset? coords = some p) :
    view.offset + p + Dims.size (view.shape.dims.drop coords.length) ≤ view.buffer.cells.size := by
  have hblock := (Dims.offset?_add_size_le hposition).2
  have hinside := h.inside
  simp only [Shape.size] at hinside
  omega

/-- Coordinates that name a position select something, and no others do. -/
theorem Valid.isSome_get? (h : view.Valid) (hne : coords ≠ []) :
    (view.get? coords).isSome = (view.positionOf? coords).isSome := by
  rw [get?, if_neg hne, positionOf?]
  split
  · rename_i hfull
    -- A cell that is named is there.
    cases hposition : view.shape.rankKind.offset? view.shape.dims coords with
    | none => rfl
    | some p =>
      rw [Shape.rankKind, RankKind.offset?_of, if_pos hfull] at hposition
      have hblock := h.block_inside hposition
      rw [hfull, List.drop_length, Dims.size] at hblock
      have hcell : view.offset + p < view.buffer.cells.size := hblock
      simp [hcell]
  · rename_i hprefix
    -- Where a sub-view is named a dimension is left for it.
    cases hposition : view.shape.dims.offset? coords with
    | none => rfl
    | some p =>
      have hlength := (Dims.offset?_add_size_le hposition).1
      obtain ⟨rest, hrest⟩ := Shape.exists_suffix? (Nat.lt_of_le_of_ne hlength hprefix)
      simp [hrest]

/-- A sub-view is the block at the position that its coordinates name. -/
theorem get?_eq_view (h : view.get? coords = some (.view sub)) :
    ∃ p, view.shape.dims.offset? coords = some p ∧
      sub.shape.dims = view.shape.dims.drop coords.length ∧ sub.buffer = view.buffer ∧
      sub.offset = view.offset + p := by
  simp only [get?] at h
  split at h
  · cases h
  split at h
  · -- As many coordinates as dimensions select a cell.
    obtain ⟨p, -, h⟩ := Option.bind_eq_some_iff.mp h
    obtain ⟨value, -, h⟩ := Option.bind_eq_some_iff.mp h
    cases h
  · obtain ⟨p, hposition, h⟩ := Option.bind_eq_some_iff.mp h
    obtain ⟨rest, hrest, h⟩ := Option.bind_eq_some_iff.mp h
    cases h
    exact ⟨p, hposition, Shape.suffix?_eq_some hrest, rfl, rfl⟩

theorem buffer_of_get? (h : view.get? coords = some (.view sub)) : sub.buffer = view.buffer := by
  obtain ⟨p, -, -, hbuffer, -⟩ := get?_eq_view h
  exact hbuffer

/-- A sub-view of a valid view is valid. -/
theorem Valid.get? (h : view.Valid) (hsub : view.get? coords = some (.view sub)) : sub.Valid := by
  obtain ⟨p, hposition, hdims, hbuffer, hoffset⟩ := get?_eq_view hsub
  constructor
  · rw [Shape.addressable_iff, hdims]
    exact Shape.isSome_checkedSize_drop hposition (Shape.addressable_iff.mp h.addressable)
  · rw [Shape.size, hdims, hbuffer, hoffset]
    exact h.block_inside hposition

theorem row?_eq_some {index : Nat} (h : view.row? index = some sub) :
    view.element? index = some (.view sub) := by
  rw [row?] at h
  split at h
  · rename_i found hfound
    cases h
    exact hfound
  · cases h

theorem lt_length_of_elementAt {index : Nat} {element : Element α}
    (h : view.elementAt index = .ok element) : index < view.length := by
  rw [View.elementAt] at h
  split at h
  all_goals
    split at h
    · rename_i hindex
      omega
    · cases h

/-- What an operation hands to its callback is what the index selects. -/
theorem Valid.element?_of_elementAt {index : Nat} {element : Element α} (h : view.Valid)
    (hat : view.elementAt index = .ok element) : view.element? index = some element := by
  obtain ⟨found, hfound, hselected, -⟩ := elementAt_eq h (lt_length_of_elementAt hat)
  obtain rfl : found = element := Except.ok.inj (hfound.symm.trans hat)
  exact hselected

/-- So a row of it is valid as well. -/
theorem Valid.elementAt {index : Nat} (h : view.Valid)
    (hsub : view.elementAt index = .ok (.view sub)) : sub.Valid :=
  h.get? (h.element?_of_elementAt hsub)

/-! ## §3 Splitting and merging -/

/-- A valid view can be partitioned whenever the groups come out even. -/
theorem Valid.partition_eq (h : view.Valid) {amount : Nat} (hne : amount ≠ 0)
    (hdvd : amount ∣ view.length) :
    view.partition amount = .ok { view with
      shape := ⟨view.length / amount, amount :: view.shape.inner⟩ } := by
  have hshape : Shape.ofDims? (view.length / amount :: amount :: view.shape.inner) =
      .ok ⟨view.length / amount, amount :: view.shape.inner⟩ :=
    Shape.ofDims?_eq_ok.mpr ⟨rfl,
      Shape.isSome_checkedSize_split hdvd (Shape.addressable_iff.mp h.addressable)⟩
  rw [View.partition, if_neg (by simp [hne, Nat.mod_eq_zero_of_dvd hdvd]), hshape]
  rfl

/-- A view cannot be partitioned if they do not. -/
theorem partition_eq_error (view : View α) {amount : Nat} (h : amount = 0 ∨ ¬ amount ∣ view.length) :
    view.partition amount = .error (.argument (.unevenGroups view.length amount)) := by
  rw [View.partition, if_pos]
  rwa [ne_eq, ← Nat.dvd_iff_mod_eq_zero]

/-- A valid view can be flattened whenever it has a second dimension. -/
theorem Valid.flatten_eq (h : view.Valid) {next : Nat} {inner : Dims}
    (hinner : view.shape.inner = next :: inner) :
    view.flatten = .ok { view with shape := ⟨view.length * next, inner⟩ } := by
  have hdims : view.shape.dims = view.length :: next :: inner := by
    rw [Shape.dims, hinner]
    rfl
  have hsome := Shape.addressable_iff.mp h.addressable
  rw [hdims] at hsome
  -- The product of the first two dimensions fits, since it is on the way to the size.
  have hshape : Shape.ofDims? (view.length * next :: inner) = .ok ⟨view.length * next, inner⟩ :=
    Shape.ofDims?_eq_ok.mpr ⟨rfl, Shape.isSome_checkedSize_merge hsome⟩
  rw [View.flatten, hinner]
  simp only [hshape]
  rfl

/-- A sequence cannot be flattened. -/
theorem flatten_eq_error (hinner : view.shape.inner = []) :
    view.flatten = .error (.unsupportedRank .flatten view.rank) := by
  rw [View.flatten, hinner]

/-- Only groups that come out even are accepted. -/
theorem Valid.partition_eq_ok (h : view.Valid) {amount : Nat}
    (hsub : view.partition amount = .ok sub) :
    amount ≠ 0 ∧ amount ∣ view.length ∧
      sub = { view with shape := ⟨view.length / amount, amount :: view.shape.inner⟩ } := by
  by_cases heven : amount ≠ 0 ∧ amount ∣ view.length
  · obtain ⟨hne, hdvd⟩ := heven
    rw [h.partition_eq hne hdvd] at hsub
    cases hsub
    exact ⟨hne, hdvd, rfl⟩
  · rw [partition_eq_error view (by tauto)] at hsub
    cases hsub

/-- Only a second dimension can be merged with the first. -/
theorem Valid.flatten_eq_ok (h : view.Valid) (hsub : view.flatten = .ok sub) :
    ∃ next inner, view.shape.inner = next :: inner ∧
      sub = { view with shape := ⟨view.length * next, inner⟩ } := by
  cases hinner : view.shape.inner with
  | nil =>
    rw [flatten_eq_error hinner] at hsub
    cases hsub
  | cons next inner =>
    rw [h.flatten_eq hinner] at hsub
    cases hsub
    exact ⟨next, inner, rfl, rfl⟩

theorem size_split (view : View α) {amount : Nat} (hdvd : amount ∣ view.length) :
    (Shape.mk (view.length / amount) (amount :: view.shape.inner)).size = view.shape.size := by
  simp only [Shape.size, Shape.dims, Dims.size]
  rw [← Nat.mul_assoc, Nat.div_mul_cancel hdvd]
  rfl

theorem size_merge {next : Nat} {inner : Dims} (hinner : view.shape.inner = next :: inner) :
    (Shape.mk (view.length * next) inner).size = view.shape.size := by
  simp only [Shape.size, Shape.dims, hinner, Dims.size, Nat.mul_assoc]
  rfl

/-- Splitting the outermost dimension keeps the window. -/
theorem Valid.partition (h : view.Valid) {amount : Nat} (hsub : view.partition amount = .ok sub) :
    sub.Valid := by
  obtain ⟨-, hdvd, rfl⟩ := h.partition_eq_ok hsub
  refine ⟨Shape.addressable_iff.mpr
    (Shape.isSome_checkedSize_split hdvd (Shape.addressable_iff.mp h.addressable)), ?_⟩
  rw [size_split view hdvd]
  exact h.inside

/-- Merging the two outermost dimensions keeps the window. -/
theorem Valid.flatten (h : view.Valid) (hsub : view.flatten = .ok sub) : sub.Valid := by
  obtain ⟨next, inner, hinner, rfl⟩ := h.flatten_eq_ok hsub
  have hdims : view.shape.dims = view.length :: next :: inner := congrArg (view.length :: ·) hinner
  have hsome := Shape.addressable_iff.mp h.addressable
  rw [hdims] at hsome
  refine ⟨Shape.addressable_iff.mpr (Shape.isSome_checkedSize_merge hsome), ?_⟩
  rw [size_merge hinner]
  exact h.inside

end View

end ForkJoin
