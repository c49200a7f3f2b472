import ForkJoin.Proofs.Arithmetic
import ForkJoin.Proofs.Reachability
import ForkJoin.Proofs.Tiling

/-!
# Selection in steps

Leading coordinates name a block of the window, and the coordinates that follow name a position in
it. So it does not matter in how many steps something is selected: the sub-view of the first step
begins where its block does, and the next step counts on from there, whatever path it takes through
the dimensions. Of a view that can be made arithmetic of 64 bits selects the same, although it forms a
number of coordinates that are out of range.

## Main definitions
- `Element.get?`: selection from what was selected before.

## Main statements
- `Dims.offset?_append`, `View.get?_append`: positions and selections in two steps.
- `Dims.offset?_eq_none_iff`: the coordinates that name no position.
- `View.Valid.get?_cell`, `View.Valid.get?_block`: what is selected, in terms of the window.
- `View.Valid.flatMap_cells_elements`: the elements make up the window.
- `View.Reachable.wrapping_get?`: selection in arithmetic of 64 bits.
- `View.selection_composes`: all of it for the views that can be made.
-/

namespace ForkJoin

variable {α : Type}

/-! ## §1 Positions -/

namespace Dims

variable {dims : Dims} {coords : Coords}

/-- Leading coordinates name a block, and those behind them a position in the block. -/
theorem offset?_append (dims : Dims) (outer inner : Coords) :
    dims.offset? (outer ++ inner) = (dims.offset? outer).bind fun p =>
      (offset? (dims.drop outer.length) inner).map (p + ·) := by
  induction outer generalizing dims with
  | nil => simp [offset?]
  | cons c rest ih =>
    cases dims with
    | nil => rfl
    | cons d dims =>
      rw [List.cons_append, offset?, offset?]
      split
      · -- The first coordinate adds its rows to either position.
        rw [ih dims, List.length_cons, List.drop_succ_cons, Option.map_bind, Option.bind_map]
        simp [Function.comp_def, Nat.add_assoc]
      · rfl

/-- Coordinates name no position if there are too many of them, or if one is out of range. -/
theorem offset?_eq_none_iff :
    dims.offset? coords = none ↔
      dims.length < coords.length ∨
        ∃ i c d : Nat, coords[i]? = some c ∧ dims[i]? = some d ∧ d ≤ c := by
  induction coords generalizing dims with
  | nil => simp [offset?]
  | cons c rest ih =>
    cases dims with
    | nil => simp [offset?]
    | cons d dims =>
      rw [offset?]
      by_cases hc : c < d
      · rw [if_pos hc, Option.map_eq_none_iff, ih, List.length_cons, List.length_cons,
          Nat.succ_lt_succ_iff]
        refine or_congr_right ⟨?_, ?_⟩
        · rintro ⟨i, hout⟩
          exact ⟨i + 1, hout⟩
        · -- The first coordinate is in range, so it is another one that is not.
          rintro ⟨i, x, y, hx, hy, hout⟩
          cases i with
          | zero =>
            cases hx
            cases hy
            exact absurd hc (Nat.not_lt_of_le hout)
          | succ i => exact ⟨i, x, y, hx, hy, hout⟩
      · rw [if_neg hc]
        exact iff_of_true rfl (.inr ⟨0, c, d, rfl, rfl, Nat.le_of_not_lt hc⟩)

end Dims

/-- The dimensions behind some leading ones are those behind the rest of them. -/
theorem Shape.suffix?_add {shape rest : Shape} {leading : Nat}
    (h : shape.suffix? leading = some rest) (more : Nat) :
    shape.suffix? (leading + more) = rest.suffix? more := by
  rw [suffix?, suffix?, suffix?_eq_some h, List.drop_drop]

/-! ## §2 Selections -/

/-- What coordinates select from what was selected before. From a cell nothing can be selected. -/
def Element.get? : Element α → Coords → Option (Element α)
  | .cell _, _ => none
  | .view sub, coords => sub.get? coords

namespace View

variable {view : View α} {coords : Coords} {p : Nat}

/-- As many coordinates as there are dimensions select a cell, on whatever path. -/
theorem get?_of_length_eq (hlength : coords.length = view.shape.dims.length) :
    view.get? coords = (view.shape.dims.offset? coords).bind fun p =>
      (view.buffer.cells[view.offset + p]?).map Element.cell := by
  have hne : coords ≠ [] := by
    rintro rfl
    cases hlength
  rw [get?, if_neg hne, if_pos hlength, Shape.rankKind, RankKind.offset?_of, if_pos hlength]
  simp only [Option.map_eq_bind]
  rfl

/-- Fewer coordinates select the sub-view of the remaining dimensions. -/
theorem get?_of_length_lt (hne : coords ≠ []) (hlength : coords.length < view.shape.dims.length)
    {rest : Shape} (hrest : view.shape.suffix? coords.length = some rest) :
    view.get? coords = (view.shape.dims.offset? coords).map fun p =>
      .view { view with shape := rest, offset := view.offset + p } := by
  rw [get?, if_neg hne, if_neg (Nat.ne_of_lt hlength), hrest, Option.map_eq_bind]
  rfl

/-- Coordinates that name no position select nothing. -/
theorem get?_of_offset?_eq_none (h : view.shape.dims.offset? coords = none) :
    view.get? coords = none := by
  by_cases hlength : coords.length = view.shape.dims.length
  · rw [get?_of_length_eq hlength, h, Option.bind_none]
  · rw [get?, if_neg hlength, h]
    split <;> rfl

/-- The sub-view of a block begins where the block does, and the coordinates behind the leading ones
count on from there. -/
theorem get?_append_of_block {outer inner : Coords} (houter : outer ≠ []) (hinner : inner ≠ [])
    (hlt : outer.length < view.shape.dims.length) {rest : Shape}
    (hrest : view.shape.suffix? outer.length = some rest)
    (hposition : view.shape.dims.offset? outer = some p) :
    view.get? (outer ++ inner) =
      View.get? { view with shape := rest, offset := view.offset + p } inner := by
  have hdims := Shape.suffix?_eq_some hrest
  have hlength : (outer ++ inner).length = outer.length + inner.length := List.length_append
  have hremaining : rest.dims.length = view.shape.dims.length - outer.length := by
    rw [hdims, List.length_drop]
  have happend := Dims.offset?_append view.shape.dims outer inner
  rw [hposition, Option.bind_some, ← hdims] at happend
  rcases Nat.lt_trichotomy inner.length rest.dims.length with hfew | hfull | hmany
  · -- A sub-view again, of the dimensions behind both parts.
    obtain ⟨last, hlast⟩ := Shape.exists_suffix? hfew
    have hsuffix : view.shape.suffix? (outer ++ inner).length = some last := by
      rw [hlength, Shape.suffix?_add hrest, hlast]
    rw [get?_of_length_lt (by simp [houter]) (by omega) hsuffix,
      get?_of_length_lt hinner hfew hlast, happend, Option.map_map]
    simp only [Function.comp_def, Nat.add_assoc]
  · -- A cell, found on the path for the whole on one side and for the sub-view on the other.
    rw [get?_of_length_eq (by omega), get?_of_length_eq hfull, happend, Option.bind_map]
    simp only [Function.comp_def, Nat.add_assoc]
  · -- Too many for the sub-view are too many for the whole.
    have hnone : rest.dims.offset? inner = none := Dims.offset?_eq_none_iff.mpr (.inl hmany)
    rw [hnone] at happend
    rw [get?_of_offset?_eq_none happend, get?_of_offset?_eq_none hnone]

/-- Behind coordinates that leave no dimension nothing can be selected: they give a cell or nothing. -/
theorem get?_bind_of_length_ge {outer : Coords} (h : view.shape.dims.length ≤ outer.length)
    (inner : Coords) : (view.get? outer).bind (·.get? inner) = none := by
  rcases Nat.eq_or_lt_of_le h with heq | hgt
  · rw [get?_of_length_eq heq.symm]
    cases view.shape.dims.offset? outer with
    | none => rfl
    | some p =>
      rw [Option.bind_some]
      cases view.buffer.cells[view.offset + p]? <;> rfl
  · rw [get?_of_offset?_eq_none (Dims.offset?_eq_none_iff.mpr (.inl hgt))]
    rfl

/-- **Selecting in two steps.** What coordinates select is what the ones behind select from what the
leading ones do. -/
theorem get?_append (view : View α) {outer inner : Coords} (houter : outer ≠ [])
    (hinner : inner ≠ []) :
    view.get? (outer ++ inner) = (view.get? outer).bind (·.get? inner) := by
  rcases Nat.lt_or_ge outer.length view.shape.dims.length with hlt | hge
  · -- The outer coordinates select a sub-view, or are out of range as a whole.
    obtain ⟨rest, hrest⟩ := Shape.exists_suffix? hlt
    rw [get?_of_length_lt houter hlt hrest]
    cases hposition : view.shape.dims.offset? outer with
    | none =>
      apply get?_of_offset?_eq_none
      rw [Dims.offset?_append, hposition, Option.bind_none]
    | some p => exact get?_append_of_block houter hinner hlt hrest hposition
  · -- A cell has nothing inside, and all coordinates together are too many.
    rw [get?_bind_of_length_ge hge]
    apply get?_of_offset?_eq_none
    have hpos := List.length_pos_iff.mpr hinner
    exact Dims.offset?_eq_none_iff.mpr (.inl (by rw [List.length_append]; omega))

/-! ## §3 Cells of the window -/

theorem Valid.get?_eq_none_iff (h : view.Valid) :
    view.get? coords = none ↔
      coords = [] ∨ view.rank < coords.length ∨
        ∃ i c d : Nat, coords[i]? = some c ∧ view.shape.dims[i]? = some d ∧ d ≤ c := by
  by_cases hne : coords = []
  · exact iff_of_true (if_pos hne) (.inl hne)
  · have hselect := h.isSome_get? hne
    rw [positionOf?_eq] at hselect
    rw [← Option.isNone_iff_eq_none, ← Option.not_isSome, hselect, Option.not_isSome,
      Option.isNone_iff_eq_none, Dims.offset?_eq_none_iff]
    simp [hne, rank, Shape.rank]

theorem Valid.get?_cell (h : view.Valid) (hlength : coords.length = view.rank)
    (hposition : view.shape.dims.offset? coords = some p) :
    ∃ value, view.get? coords = some (.cell value) ∧ view.toArray[p]? = some value := by
  have hblock := (Dims.offset?_add_size_le hposition).2
  have hinside := h.inside
  rw [hlength, rank, Shape.rank, List.drop_length, Dims.size] at hblock
  rw [Shape.size] at hinside
  -- A block without dimensions is one cell, and it is inside the buffer.
  have hcell : view.offset + p < view.buffer.cells.size := by omega
  refine ⟨view.buffer.cells[view.offset + p], ?_, ?_⟩
  · rw [get?_of_length_eq hlength, hposition, Option.bind_some, Array.getElem?_eq_getElem hcell]
    rfl
  · rw [toArray, Array.getElem?_extract, if_pos (by simp only [Shape.size]; omega),
      Array.getElem?_eq_getElem hcell]

/-- A sub-view holds the part of the window that its block takes up. -/
theorem Valid.get?_block (h : view.Valid) (hne : coords ≠ []) (hlength : coords.length < view.rank)
    (hposition : view.shape.dims.offset? coords = some p) :
    ∃ sub, view.get? coords = some (.view sub) ∧ sub.buffer = view.buffer ∧
      sub.shape.dims = view.shape.dims.drop coords.length ∧
      p + Dims.size (view.shape.dims.drop coords.length) ≤ view.toArray.size ∧
      sub.toArray = view.toArray.extract p
        (p + Dims.size (view.shape.dims.drop coords.length)) := by
  obtain ⟨rest, hrest⟩ := Shape.exists_suffix? hlength
  have hdims := Shape.suffix?_eq_some hrest
  have hblock := (Dims.offset?_add_size_le hposition).2
  refine ⟨{ view with shape := rest, offset := view.offset + p }, ?_, rfl, hdims, ?_, ?_⟩
  · rw [get?_of_length_lt hne hlength hrest, hposition, Option.map_some]
  · rw [size_toArray h]
    exact hblock
  · -- Both are cut from the buffer, at the same place.
    show view.buffer.cells.extract (view.offset + p) (view.offset + p + Dims.size rest.dims) = _
    have hstop := Nat.add_le_add_left hblock view.offset
    rw [toArray, Array.extract_extract, Shape.size, Nat.min_eq_left hstop, hdims, Nat.add_assoc]

/-- The rows of the window, one after another. -/
theorem Valid.flatMap_rowAt (h : view.Valid) :
    (List.range view.length).flatMap view.rowAt = view.toArray.toList := by
  have hcuts : ∀ i, i < view.length → i * view.innerSize ≤ (i + 1) * view.innerSize :=
    fun i _ => Nat.mul_le_mul_right _ (Nat.le_succ i)
  have htiling := Tiling.ofCuts view.length hcuts
  have hrows := congrArg Array.toList (joinArrays_extract htiling view.toArray)
  rw [Nat.zero_mul, ← size_eq_mul, ← size_toArray h, Array.extract_size, toList_joinArrays,
    List.map_map, List.map_map] at hrows
  exact hrows

/-- The cells of the elements, one element after another, are the window. -/
theorem Valid.flatMap_cells_elements (h : view.Valid) :
    view.elements.flatMap Element.cells = view.toArray.toList := by
  have hcells := flatMap_cells_visitsAt h fun _ hi => List.mem_range.mp hi
  have helements : (view.visitsAt (List.range view.length)).map (·.element) = view.elements := by
    rw [visitsAt, elements, List.map_filterMap]
    simp [visit?, Function.comp_def]
  rw [← helements, List.flatMap_map, hcells, h.flatMap_rowAt]

end View

/-! ## §4 Views that can be made -/

/-- Keeping 64 bits loses nothing of what is selected: positions in range are inside the buffer, and a
number that is formed of other coordinates is dropped. -/
theorem View.Reachable.wrapping_get? {view : View α} (h : view.Reachable) (coords : Coords) :
    Arithmetic.wrapping.get? view coords = .ok (view.get? coords) := by
  have hsize : view.shape.dims.size < addressLimit := Shape.size_lt h.valid.addressable
  by_cases hne : coords = []
  · rw [Arithmetic.get?, View.get?, if_pos hne, if_pos hne]
    rfl
  by_cases hfull : coords.length = view.shape.dims.length
  · rw [View.get?_of_length_eq hfull]
    rw [Arithmetic.get?, if_neg hne, if_pos hfull, Shape.rankKind,
      Arithmetic.wrapping_kindOffset?_of_lt hsize, RankKind.offset?_of, if_pos hfull, Fault.ok_bind]
    cases hposition : view.shape.dims.offset? coords with
    | none => rfl
    | some p =>
      have hblock := h.valid.block_inside hposition
      rw [hfull, List.drop_length, Dims.size] at hblock
      -- The place of the cell is one of the buffer, so it is not wrapped.
      have hcell : view.offset + p < view.buffer.cells.size := hblock
      have hlt : view.offset + p < addressLimit := Nat.lt_trans hcell h.buffer_lt
      simp only [Arithmetic.wrapping_plus, wrapAddress_of_lt hlt, Fault.checkedGet, dif_pos hcell,
        Fault.ok_bind, Option.bind_some, Array.getElem?_eq_getElem hcell, Option.map_some]
      rfl
  · rw [Arithmetic.get?, View.get?, if_neg hne, if_neg hfull, if_neg hne, if_neg hfull,
      Arithmetic.wrapping_offset?_of_lt hsize, Fault.ok_bind]
    cases hposition : view.shape.dims.offset? coords with
    | none => rfl
    | some p =>
      have hblock := h.valid.block_inside hposition
      have hlt : view.offset + p < addressLimit :=
        Nat.lt_of_le_of_lt (Nat.le_trans (Nat.le_add_right ..) hblock) h.buffer_lt
      simp only [Arithmetic.wrapping_plus, wrapAddress_of_lt hlt, Fault.ok_bind]
      cases view.shape.suffix? coords.length <;> rfl

/-- **Selection composes, and matches the window.** Of a view that can be made nothing is selected by
no coordinates, by too many, or by coordinates out of range, and nothing else selects nothing. It
makes no difference whether coordinates are given at once or in two parts. As many coordinates as
there are dimensions select the cell of the window at the position that they name, and fewer select
a sub-view on the same buffer that holds the block of the window there. The elements that an
operation walks through are those that their indices select, and make up the window. In arithmetic of
64 bits all of this is selected in the same way. -/
theorem View.selection_composes {view : View α} (h : view.Reachable) :
    (∀ coords, Arithmetic.wrapping.get? view coords = .ok (view.get? coords)) ∧
    (∀ coords, view.get? coords = none ↔
      coords = [] ∨ view.rank < coords.length ∨
        ∃ i c d : Nat, coords[i]? = some c ∧ view.shape.dims[i]? = some d ∧ d ≤ c) ∧
    (∀ outer inner, outer ≠ [] → inner ≠ [] →
      view.get? (outer ++ inner) = (view.get? outer).bind (·.get? inner)) ∧
    (∀ coords p, coords.length = view.rank → view.shape.dims.offset? coords = some p →
      ∃ value, view.get? coords = some (.cell value) ∧ view.toArray[p]? = some value) ∧
    (∀ coords p, coords ≠ [] → coords.length < view.rank →
      view.shape.dims.offset? coords = some p →
        let blockSize := Dims.size (view.shape.dims.drop coords.length)
        ∃ sub, view.get? coords = some (.view sub) ∧ sub.buffer = view.buffer ∧
          sub.shape.dims = view.shape.dims.drop coords.length ∧
          p + blockSize ≤ view.toArray.size ∧
          sub.toArray = view.toArray.extract p (p + blockSize)) ∧
    (∀ index, index < view.length → ∃ element,
      view.elementAt index = .ok element ∧ view.element? index = some element) ∧
    view.elements.flatMap Element.cells = view.toArray.toList := by
  have hvalid := h.valid
  refine ⟨h.wrapping_get?, ?_, ?_, ?_, ?_, ?_, hvalid.flatMap_cells_elements⟩
  · exact fun coords => hvalid.get?_eq_none_iff
  · exact fun outer inner houter hinner => View.get?_append view houter hinner
  · exact fun coords p hlength hposition => hvalid.get?_cell hlength hposition
  · exact fun coords p hne hlength hposition => hvalid.get?_block hne hlength hposition
  · intro index hindex
    obtain ⟨element, hat, hselected, -⟩ := View.elementAt_eq hvalid hindex
    exact ⟨element, hat, hselected⟩

/-- The second plane of an array of two planes with three rows of four cells: its last row can be
selected first, and its last cell is the twelfth one of the plane. -/
theorem View.selection_composes_plane :
    ∃ cube plane : View Nat, View.ofShape? 0 ⟨2, [3, 4]⟩ (Array.range 24) = .ok cube ∧
      cube.row? 1 = some plane ∧
      plane.get? ([2] ++ [3]) = (plane.get? [2]).bind (·.get? [3]) ∧
      (∃ value, plane.get? [2, 3] = some (.cell value) ∧ plane.toArray[11]? = some value) ∧
      Arithmetic.wrapping.get? plane [2 ^ 64 - 1, 0] = .ok (plane.get? [2 ^ 64 - 1, 0]) ∧
      plane.elements.flatMap Element.cells = plane.toArray.toList := by
  have hshape : Shape.ofDims? [2, 3, 4] = .ok ⟨2, [3, 4]⟩ := rfl
  have hcube : View.ofShape? 0 ⟨2, [3, 4]⟩ (Array.range 24) =
    .ok ⟨⟨2, [3, 4]⟩, ⟨0, Array.range 24⟩, 0⟩ := rfl
  have hplane : (View.mk ⟨2, [3, 4]⟩ ⟨0, Array.range 24⟩ 0).row? 1 =
    some ⟨⟨3, [4]⟩, ⟨0, Array.range 24⟩, 12⟩ := rfl
  have hreachable := (View.Reachable.ofShape (.ofDims hshape) hcube).row hplane
  -- The coordinates out of range are formed as a number that is wrapped.
  obtain ⟨hwrapping, -, happend, hcell, -, -, helements⟩ := View.selection_composes hreachable
  exact ⟨_, _, hcube, hplane, happend [2] [3] (by simp) (by simp), hcell [2, 3] 11 rfl rfl,
    hwrapping [2 ^ 64 - 1, 0], helements⟩

end ForkJoin
