import ForkJoin.Proofs.Subviews

/-!
# Regrouping

Splitting the outermost dimension into groups gives every element two coordinates where it had one:
that of its group and that inside the group. Merging the two outermost dimensions puts such a pair
together again. Either way the position in the window stays the same, and so do the dimensions behind,
so the same is selected; and what is out of range on one side is out of range on the other.

## Main definitions
- `View.blockAt?`: what lies at a position of the window.

## Main statements
- `Dims.offset?_merge`: positions before and after merging two dimensions.
- `View.get?_eq_blockAt?`, `View.get?_with_shape`: what a selection depends on.
- `View.regrouping_keeps_selection`: partitioning and flattening only number anew, and undo each other.
-/

namespace ForkJoin

variable {α : Type}

/-! ## §1 Positions -/

/-- A group and a place in it name the position that the number of the element names. -/
theorem Dims.offset?_merge {x y i j : Nat} (inner : Dims) (rest : Coords) (hj : j < y) :
    offset? (x :: y :: inner) (i :: j :: rest) =
      offset? (x * y :: inner) ((i * y + j) :: rest) := by
  have hrow : i * y + j < x * y ↔ i < x := by
    refine ⟨fun h => ?_, fun h => ?_⟩
    · apply Nat.lt_of_mul_lt_mul_right (a := y)
      omega
    · have hgroups : (i + 1) * y ≤ x * y := Nat.mul_le_mul_right y h
      rw [Nat.succ_mul] at hgroups
      omega
  by_cases hi : i < x
  · rw [offset?, if_pos hi, offset?, if_pos hj, offset?, if_pos (hrow.mpr hi), Option.map_map,
      size_cons]
    -- The stride of the groups is as many strides of the elements as a group has.
    refine congrArg (Option.map · (offset? inner rest)) (funext fun p => ?_)
    rw [Function.comp_apply, Nat.add_mul, Nat.mul_assoc, Nat.add_assoc]
  · rw [offset?, if_neg hi, offset?, if_neg (mt hrow.mp hi)]

/-! ## §2 Selections -/

namespace View

variable {view grouped flat : View α} {coords : Coords}

/-- What lies at a position of the window: the block of the remaining dimensions, which is a cell if
there are none. -/
def blockAt? (view : View α) (remaining : Dims) (p : Nat) : Option (Element α) :=
  match remaining with
  | [] => (view.buffer.cells[view.offset + p]?).map .cell
  | outer :: inner =>
    some (.view { view with shape := ⟨outer, inner⟩, offset := view.offset + p })

/-- Coordinates select what lies at the position that they name. -/
theorem get?_eq_blockAt? (view : View α) (hne : coords ≠ []) :
    view.get? coords = (view.shape.dims.offset? coords).bind
      (view.blockAt? (view.shape.dims.drop coords.length)) := by
  cases hposition : view.shape.dims.offset? coords with
  | none => rw [get?_of_offset?_eq_none hposition, Option.bind_none]
  | some p =>
    rcases Nat.eq_or_lt_of_le (Dims.offset?_add_size_le hposition).1 with hfull | hfew
    · -- All coordinates are there, and the block is one cell.
      rw [get?_of_length_eq hfull, hposition, hfull, List.drop_length]
      rfl
    · -- Coordinates are missing, and the block has the dimensions that are left.
      obtain ⟨remaining, hremaining⟩ := Shape.exists_suffix? hfew
      rw [get?_of_length_lt hne hfew hremaining, hposition, ← Shape.suffix?_eq_some hremaining]
      rfl

/-- In another shape the same is selected by coordinates that name the same position and leave the
same dimensions. -/
theorem get?_with_shape {shape : Shape} {coords' : Coords} (hne : coords ≠ []) (hne' : coords' ≠ [])
    (hposition : shape.dims.offset? coords' = view.shape.dims.offset? coords)
    (hremaining : shape.dims.drop coords'.length = view.shape.dims.drop coords.length) :
    View.get? { view with shape := shape } coords' = view.get? coords := by
  have hblock : View.blockAt? { view with shape := shape } = view.blockAt? := by
    funext remaining p
    cases remaining <;> rfl
  rw [get?_eq_blockAt? _ hne', get?_eq_blockAt? view hne, hposition, hremaining, hblock]

/-! ## §3 Splitting and merging -/

/-- The window is cut from the buffer by its size alone. -/
theorem toArray_with_shape {shape : Shape} (hsize : shape.size = view.shape.size) :
    View.toArray { view with shape := shape } = view.toArray := by
  rw [toArray, toArray, hsize]

/-- An element of a group is the element of the sequence of groups with that number. -/
theorem get?_split {amount i j : Nat} (rest : Coords) (hdvd : amount ∣ view.length)
    (hj : j < amount) :
    View.get? { view with shape := ⟨view.length / amount, amount :: view.shape.inner⟩ }
      (i :: j :: rest) = view.get? ((i * amount + j) :: rest) := by
  apply get?_with_shape (List.cons_ne_nil _ _) (List.cons_ne_nil _ _)
  · show Dims.offset? (view.length / amount :: amount :: view.shape.inner) _ = _
    rw [Dims.offset?_merge view.shape.inner rest hj, Nat.div_mul_cancel hdvd]
    rfl
  · rfl

/-- Two numbers that are merged are read off the number of the element. -/
theorem get?_merge {y k : Nat} {inner : Dims} (rest : Coords)
    (hinner : view.shape.inner = y :: inner) (hpos : 0 < y) :
    View.get? { view with shape := ⟨view.length * y, inner⟩ } (k :: rest) =
      view.get? (k / y :: k % y :: rest) := by
  have hdims : view.shape.dims = view.length :: y :: inner := congrArg (view.length :: ·) hinner
  apply get?_with_shape (List.cons_ne_nil _ _) (List.cons_ne_nil _ _)
  · rw [hdims, Dims.offset?_merge inner rest (Nat.mod_lt k hpos), Nat.div_add_mod']
    rfl
  · rw [hdims]
    rfl

/-- Merging the groups again gives back the view. -/
theorem Valid.flatten_partition (h : view.Valid) {amount : Nat}
    (hgrouped : view.partition amount = .ok grouped) : grouped.flatten = .ok view := by
  obtain ⟨-, hdvd, hview⟩ := h.partition_eq_ok hgrouped
  have hinner : grouped.shape.inner = amount :: view.shape.inner := by rw [hview]
  rw [(h.partition hgrouped).flatten_eq hinner, hview]
  show Except.ok { view with shape := ⟨view.length / amount * amount, view.shape.inner⟩ } = _
  rw [Nat.div_mul_cancel hdvd]
  rfl

/-- Groups of the size that the merged dimension had give back the view. -/
theorem Valid.partition_flatten (h : view.Valid) {y : Nat} {inner : Dims}
    (hinner : view.shape.inner = y :: inner) (hpos : 0 < y) (hflat : view.flatten = .ok flat) :
    flat.partition y = .ok view := by
  have hview : flat = { view with shape := ⟨view.length * y, inner⟩ } := by
    rw [h.flatten_eq hinner] at hflat
    exact (Except.ok.inj hflat).symm
  have hlength : flat.length = view.length * y := by rw [hview, View.length]
  have hdvd : y ∣ flat.length := hlength ▸ Nat.dvd_mul_left y view.length
  rw [(h.flatten hflat).partition_eq (Nat.ne_of_gt hpos) hdvd, hlength,
    Nat.mul_div_cancel _ hpos, hview, ← hinner]
  rfl

end View

/-! ## §4 Views that can be made -/

/-- **Partitioning and flattening only number anew.** A view that can be made keeps its buffer, its
offset and its cells when its outermost dimension is split into groups; what the number of a group and
the place in it select, together with any coordinates behind them, is what the number of the element
selects, and flattening gives back the view. The same holds the other way round: when the two
outermost dimensions are merged, the number of an element selects what its quotient and its remainder
by the second dimension select, and groups of that size give back the view. -/
theorem View.regrouping_keeps_selection {view : View α} (h : view.Reachable) :
    (∀ amount grouped, view.partition amount = .ok grouped →
      (∀ i j rest, j < amount →
        grouped.get? ([i, j] ++ rest) = view.get? ([i * amount + j] ++ rest)) ∧
      grouped.toArray = view.toArray ∧ grouped.buffer = view.buffer ∧
      grouped.offset = view.offset ∧ grouped.flatten = .ok view) ∧
    (∀ flat y, view.flatten = .ok flat → view.shape.dims[1]? = some y → 0 < y →
      (∀ k rest, flat.get? ([k] ++ rest) = view.get? ([k / y, k % y] ++ rest)) ∧
      flat.toArray = view.toArray ∧ flat.buffer = view.buffer ∧
      flat.offset = view.offset ∧ flat.partition y = .ok view) := by
  have hvalid := h.valid
  constructor
  · intro amount grouped hgrouped
    have hundone := hvalid.flatten_partition hgrouped
    obtain ⟨-, hdvd, rfl⟩ := hvalid.partition_eq_ok hgrouped
    exact ⟨fun i j rest hj => View.get?_split rest hdvd hj,
      View.toArray_with_shape (View.size_split view hdvd), rfl, rfl, hundone⟩
  · intro flat y hflat hy hpos
    obtain ⟨next, inner, hinner, rfl⟩ := hvalid.flatten_eq_ok hflat
    -- The second dimension is the one that is merged away.
    obtain rfl : next = y := by
      rw [Shape.dims, hinner] at hy
      exact Option.some.inj hy
    exact ⟨fun k rest => View.get?_merge rest hinner hpos,
      View.toArray_with_shape (View.size_merge hinner), rfl, rfl,
      hvalid.partition_flatten hinner hpos hflat⟩

/-- The second plane of an array of two planes with four rows of three cells: in groups of two rows
its third row is the first one of the second group, and as a sequence its eighth cell is the second
one of its third row. -/
theorem View.regrouping_keeps_selection_plane :
    ∃ cube plane pairs line : View Nat, View.ofShape? 0 ⟨2, [4, 3]⟩ (Array.range 24) = .ok cube ∧
      cube.row? 1 = some plane ∧ plane.offset = 12 ∧ plane.partition 2 = .ok pairs ∧
      plane.flatten = .ok line ∧ plane.shape.dims[1]? = some 3 ∧ 0 < 3 ∧ 0 < 2 ∧
      pairs.get? ([1, 0] ++ [2]) = plane.get? ([2] ++ [2]) ∧ pairs.flatten = .ok plane ∧
      line.get? ([7] ++ []) = plane.get? ([2, 1] ++ []) ∧ line.partition 3 = .ok plane := by
  have hshape : Shape.ofDims? [2, 4, 3] = .ok ⟨2, [4, 3]⟩ := rfl
  have hcube : View.ofShape? 0 ⟨2, [4, 3]⟩ (Array.range 24) =
    .ok ⟨⟨2, [4, 3]⟩, ⟨0, Array.range 24⟩, 0⟩ := rfl
  have hplane : (View.mk ⟨2, [4, 3]⟩ ⟨0, Array.range 24⟩ 0).row? 1 =
    some ⟨⟨4, [3]⟩, ⟨0, Array.range 24⟩, 12⟩ := rfl
  have hpairs : (View.mk ⟨4, [3]⟩ ⟨0, Array.range 24⟩ 12).partition 2 =
    .ok ⟨⟨2, [2, 3]⟩, ⟨0, Array.range 24⟩, 12⟩ := rfl
  have hline : (View.mk ⟨4, [3]⟩ ⟨0, Array.range 24⟩ 12).flatten =
    .ok ⟨⟨12, []⟩, ⟨0, Array.range 24⟩, 12⟩ := rfl
  have hreachable := (View.Reachable.ofShape (.ofDims hshape) hcube).row hplane
  obtain ⟨hsplit, hmerge⟩ := View.regrouping_keeps_selection hreachable
  obtain ⟨hgroups, -, -, -, hflatten⟩ := hsplit 2 _ hpairs
  obtain ⟨hnumbers, -, -, -, hpartition⟩ := hmerge _ 3 hline rfl (by decide)
  exact ⟨_, _, _, _, hcube, hplane, rfl, hpairs, hline, rfl, by decide, by decide,
    hgroups 1 0 [2] (by decide), hflatten, hnumbers 7 [], hpartition⟩

end ForkJoin
