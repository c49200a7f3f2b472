import ForkJoin.Proofs.Regrouping
import ForkJoin.View.Text

/-!
# Texts of views

The text of a view can be read back: its elements are separated by those commas that stand outside all
brackets, and an element is in brackets exactly if it is a view itself. So as long as the texts of the
cells have neither commas nor brackets, views with the same text have the same dimensions and the same
texts of cells. Behind a dimension of zero the others leave no trace, so there must not be any.

## Main definitions
- `splitItems`: takes a text apart at the commas outside all brackets.
- `Reads`: texts that are read through, and what they do to the depth of brackets.
- `Plain`: texts without commas and brackets.

## Main statements
- `splitItems_intercalate`: what is put together with commas can be taken apart.
- `View.Valid.text_eq`: the text of a view is put together from those of its elements.
- `block_eq_of_text_eq`: the text of a block determines its dimensions and the texts of its cells.
- `View.text_unambiguous`: so does the text of a view.
-/

namespace ForkJoin

variable {α β : Type}

/-! ## §1 Reading -/

/-- The depth of brackets behind a character. -/
def depthAfter (depth : Nat) (c : Char) : Nat :=
  if c = '<' then depth + 1 else if c = '>' then depth - 1 else depth

/-- The items of a text: what stands between the commas outside all brackets. -/
def splitItems : (depth : Nat) → List Char → List (List Char)
  | _, [] => [[]]
  | depth, c :: rest =>
    if c = ',' ∧ depth = 0 then [] :: splitItems depth rest
    else (splitItems (depthAfter depth c) rest).modifyHead (c :: ·)

/-- A text is read through at one depth and leads to another: it becomes a part of the item that goes
on behind it. -/
def Reads (depth : Nat) (text : List Char) (next : Nat) : Prop :=
  ∀ rest, splitItems depth (text ++ rest) = (splitItems next rest).modifyHead (text ++ ·)

namespace Reads

variable {depth middle next : Nat} {first second text : List Char}

theorem nil (depth : Nat) : Reads depth [] depth :=
  fun rest => (congrFun List.modifyHead_id (splitItems depth rest)).symm

theorem append (hfirst : Reads depth first middle) (hsecond : Reads middle second next) :
    Reads depth (first ++ second) next := by
  intro rest
  rw [List.append_assoc, hfirst, hsecond, List.modifyHead_modifyHead]
  simp [Function.comp_def]

/-- Only a comma outside all brackets ends an item. -/
theorem single {c : Char} (hc : ¬ (c = ',' ∧ depth = 0)) : Reads depth [c] (depthAfter depth c) := by
  intro rest
  rw [List.singleton_append, splitItems, if_neg hc]
  rfl

/-- Inside brackets commas are read like anything else. -/
theorem intercalate {items : List (List Char)}
    (h : ∀ item ∈ items, Reads (depth + 1) item (depth + 1)) :
    Reads (depth + 1) ([','].intercalate items) (depth + 1) := by
  induction items with
  | nil => exact nil _
  | cons item rest ih =>
    have hitem := h item (List.mem_cons_self ..)
    have hrest := ih fun other hmem => h other (List.mem_cons_of_mem item hmem)
    -- A comma stands between two items, and inside a bracket it is passed over.
    cases rest with
    | nil => rwa [List.intercalate_singleton]
    | cons second others =>
      have hcomma : Reads (depth + 1) [','] (depth + 1) := single (by simp)
      rw [List.intercalate_cons_cons]
      exact (hitem.append hcomma).append hrest

/-- Brackets around a text that is read through inside them. -/
theorem bracketed (h : Reads (depth + 1) text (depth + 1)) :
    Reads depth ('<' :: (text ++ ['>'])) depth := by
  have hopen : Reads depth ['<'] (depth + 1) := single (by simp)
  have hclose : Reads (depth + 1) ['>'] depth := single (by simp)
  exact hopen.append (h.append hclose)

end Reads

/-- What is put together with commas can be taken apart. -/
theorem splitItems_intercalate {items : List (List Char)} (hne : items ≠ [])
    (h : ∀ item ∈ items, Reads 0 item 0) : splitItems 0 ([','].intercalate items) = items := by
  induction items with
  | nil => exact absurd rfl hne
  | cons item rest ih =>
    have hitem := h item (List.mem_cons_self ..)
    -- The comma behind an item is met at depth zero, where the list is split.
    cases rest with
    | nil =>
      have hread := hitem []
      rw [List.append_nil] at hread
      rw [List.intercalate_singleton, hread]
      simp [splitItems]
    | cons second others =>
      have hrest := ih (List.cons_ne_nil _ _) fun other hmem =>
        h other (List.mem_cons_of_mem item hmem)
      rw [List.intercalate_cons_cons, List.append_assoc, hitem, List.singleton_append, splitItems,
        if_pos ⟨rfl, rfl⟩, hrest]
      simp

/-! ## §2 Blocks -/

/-- A text without commas and brackets. It may be empty. -/
def Plain (text : String) : Prop :=
  ∀ c ∈ text.toList, c ≠ ',' ∧ c ≠ '<' ∧ c ≠ '>'

instance (text : String) : Decidable (Plain text) :=
  List.decidableBAll (fun c => c ≠ ',' ∧ c ≠ '<' ∧ c ≠ '>') text.toList

/-- A plain text is read through at any depth. -/
theorem Plain.reads {text : String} (h : Plain text) (depth : Nat) :
    Reads depth text.toList depth := by
  rw [Plain] at h
  generalize text.toList = chars at h
  induction chars with
  | nil => exact .nil depth
  | cons c rest ih =>
    obtain ⟨hcomma, hopen, hclose⟩ := h c (List.mem_cons_self ..)
    -- A plain character changes no depth and splits nothing.
    have hc : Reads depth [c] depth := by
      have hsingle : Reads depth [c] (depthAfter depth c) := .single fun hand => hcomma hand.1
      rwa [depthAfter, if_neg hopen, if_neg hclose] at hsingle
    exact hc.append (ih fun other hmem => h other (List.mem_cons_of_mem c hmem))

/-- The text of the cell at a position of a buffer. -/
def cellTextAt (cellText : α → String) (cells : Array α) (position : Nat) : String :=
  (cells[position]?).elim "" cellText

/-- The text of an element of a block, in brackets if it has dimensions of its own. -/
def elementTextAt (cellText : α → String) (cells : Array α) (inner : Dims) (start index : Nat) :
    String :=
  bracketed inner (blockText cellText cells inner (start + index * Dims.size inner))

section

variable {cellText : α → String} {cells : Array α} {inner : Dims} {d start : Nat}

theorem elementTextAt_nil (cellText : α → String) (cells : Array α) (start index : Nat) :
    elementTextAt cellText cells [] start index = cellTextAt cellText cells (start + index) := by
  rw [elementTextAt, Dims.size, Nat.mul_one]
  rfl

theorem toList_blockText (cellText : α → String) (cells : Array α) (d : Nat) (inner : Dims)
    (start : Nat) :
    (blockText cellText cells (d :: inner) start).toList = [','].intercalate
      ((List.range d).map fun i => (elementTextAt cellText cells inner start i).toList) := by
  rw [blockText, String.toList_intercalate, List.map_map]
  rfl

theorem toList_bracketed (d : Nat) (inner : Dims) (text : String) :
    (bracketed (d :: inner) text).toList = '<' :: (text.toList ++ ['>']) := by
  simp [bracketed]

/-- The text of an element is read through at any depth. -/
theorem reads_bracketed (hplain : ∀ i < inner.size, Plain (cellTextAt cellText cells (start + i)))
    (depth : Nat) :
    Reads depth (bracketed inner (blockText cellText cells inner start)).toList depth := by
  -- By induction on the dimensions; every level is one pair of brackets around its items.
  induction inner generalizing start depth with
  | nil => exact (hplain 0 Nat.one_pos).reads depth
  | cons d inner ih =>
    rw [toList_bracketed, toList_blockText]
    refine .bracketed (.intercalate fun item hmem => ?_)
    obtain ⟨i, hi, rfl⟩ := List.mem_map.mp hmem
    refine ih (fun j hj => ?_) (depth + 1)
    rw [Nat.add_assoc]
    exact hplain _ (Dims.row_add_lt (List.mem_range.mp hi) hj)

/-- The texts of the elements of a block can be read off its text. -/
theorem splitItems_blockText (hd : 0 < d)
    (hplain : ∀ i < Dims.size (d :: inner), Plain (cellTextAt cellText cells (start + i))) :
    splitItems 0 (blockText cellText cells (d :: inner) start).toList =
      (List.range d).map fun i => (elementTextAt cellText cells inner start i).toList := by
  rw [toList_blockText]
  apply splitItems_intercalate
  · simpa using Nat.ne_of_gt hd
  · intro item hmem
    obtain ⟨i, hi, rfl⟩ := List.mem_map.mp hmem
    refine reads_bracketed (fun j hj => ?_) 0
    rw [Nat.add_assoc]
    exact hplain _ (Dims.row_add_lt (List.mem_range.mp hi) hj)

/-- A plain text is not that of a view in brackets. -/
theorem Plain.ne_bracketed {text : String} (h : Plain text) (d : Nat) (inner : Dims)
    (other : String) : text ≠ bracketed (d :: inner) other := by
  rintro rfl
  have hopen : '<' ∈ (bracketed (d :: inner) other).toList := by
    rw [toList_bracketed]
    exact List.mem_cons_self ..
  exact (h '<' hopen).2.1 rfl

/-- Brackets can be taken away. -/
theorem eq_of_bracketed_eq {e : Nat} {inner' : Dims} {text other : String}
    (h : bracketed (d :: inner) text = bracketed (e :: inner') other) : text = other := by
  have hlist := congrArg String.toList h
  rw [toList_bracketed, toList_bracketed] at hlist
  exact String.toList_inj.mp (List.append_cancel_right (List.cons.inj hlist).2)

end

section

variable {cellText : α → String} {cellText' : β → String} {cells : Array α} {cells' : Array β}
  {d d' start start' : Nat} {inner inner' : Dims}

/-- Blocks with the same text have the same number of elements, with the same texts. -/
theorem elements_eq_of_text_eq (hzero : 0 ∉ d :: inner) (hzero' : 0 ∉ d' :: inner')
    (hplain : ∀ i < Dims.size (d :: inner), Plain (cellTextAt cellText cells (start + i)))
    (hplain' : ∀ i < Dims.size (d' :: inner'), Plain (cellTextAt cellText' cells' (start' + i)))
    (h : blockText cellText cells (d :: inner) start =
      blockText cellText' cells' (d' :: inner') start') :
    d = d' ∧ ∀ i < d, elementTextAt cellText cells inner start i =
      elementTextAt cellText' cells' inner' start' i := by
  have hitems := splitItems_blockText (Dims.outer_pos hzero) hplain
  rw [h, splitItems_blockText (Dims.outer_pos hzero') hplain'] at hitems
  -- As many items as there are in the outermost dimension.
  obtain rfl : d' = d := by simpa using congrArg List.length hitems
  refine ⟨rfl, fun i hi => ?_⟩
  exact (String.toList_inj.mp (List.map_inj_left.mp hitems i (List.mem_range.mpr hi))).symm

/-- The text of a block without empty dimensions determines the dimensions and the texts of the
cells. -/
theorem block_eq_of_text_eq (hzero : 0 ∉ d :: inner) (hzero' : 0 ∉ d' :: inner')
    (hplain : ∀ i < Dims.size (d :: inner), Plain (cellTextAt cellText cells (start + i)))
    (hplain' : ∀ i < Dims.size (d' :: inner'), Plain (cellTextAt cellText' cells' (start' + i)))
    (h : blockText cellText cells (d :: inner) start =
      blockText cellText' cells' (d' :: inner') start') :
    d :: inner = d' :: inner' ∧ ∀ i < Dims.size (d :: inner),
      cellTextAt cellText cells (start + i) = cellTextAt cellText' cells' (start' + i) := by
  -- By induction on the dimensions of an element. The first element tells whether there are any.
  induction inner generalizing d d' inner' start start' with
  | nil =>
    obtain ⟨rfl, helements⟩ := elements_eq_of_text_eq hzero hzero' hplain hplain' h
    simp only [Dims.size, Nat.mul_one] at hplain ⊢
    cases inner' with
    | nil =>
      refine ⟨rfl, fun i hi => ?_⟩
      rw [← elementTextAt_nil, ← elementTextAt_nil]
      exact helements i hi
    | cons e' inner' =>
      have hfirst := helements 0 (Dims.outer_pos hzero)
      rw [elementTextAt_nil] at hfirst
      exact absurd hfirst ((hplain 0 (Dims.outer_pos hzero)).ne_bracketed e' inner' _)
  | cons e inner ih =>
    obtain ⟨rfl, helements⟩ := elements_eq_of_text_eq hzero hzero' hplain hplain' h
    cases inner' with
    | nil =>
      simp only [Dims.size, Nat.mul_one] at hplain'
      have hfirst := helements 0 (Dims.outer_pos hzero)
      rw [elementTextAt_nil] at hfirst
      exact absurd hfirst.symm ((hplain' 0 (Dims.outer_pos hzero)).ne_bracketed e inner _)
    | cons e' inner' =>
      have hrow : ∀ i < d, e :: inner = e' :: inner' ∧ ∀ j < Dims.size (e :: inner),
          cellTextAt cellText cells (start + i * Dims.size (e :: inner) + j) =
            cellTextAt cellText' cells' (start' + i * Dims.size (e' :: inner') + j) := by
        intro i hi
        refine ih (List.not_mem_of_not_mem_cons hzero) (List.not_mem_of_not_mem_cons hzero')
          (fun j hj => ?_) (fun j hj => ?_) (eq_of_bracketed_eq (helements i hi))
        · rw [Nat.add_assoc]
          exact hplain _ (Dims.row_add_lt hi hj)
        · rw [Nat.add_assoc]
          exact hplain' _ (Dims.row_add_lt hi hj)
      have hinner := (hrow 0 (Dims.outer_pos hzero)).1
      refine ⟨congrArg (d :: ·) hinner, fun k hk => ?_⟩
      have hpos := Dims.size_pos_of_lt hk
      have hcell := (hrow _ ((Nat.div_lt_iff_lt_mul hpos).mpr hk)).2 _ (Nat.mod_lt k hpos)
      rwa [← hinner, Nat.add_assoc, Nat.add_assoc, Nat.div_add_mod'] at hcell

end

/-! ## §3 Views -/

namespace View

variable {view : View α} (cellText : α → String)

/-- The texts of the cells of a window. -/
theorem Valid.map_cellText (h : view.Valid) :
    view.toArray.toList.map cellText = (List.range view.shape.size).map fun i =>
      cellTextAt cellText view.buffer.cells (view.offset + i) := by
  apply List.ext_getElem
  · simp [size_toArray h]
  · intro i hi _
    have hinside := h.inside
    have hsize : i < view.shape.size := by simpa [size_toArray h] using hi
    have hcell : view.offset + i < view.buffer.cells.size := by omega
    simp [cellTextAt, toArray, hcell]

/-- The texts of the cells at the positions of the window are plain if those of its cells are. -/
theorem Valid.plain_cellTextAt (h : view.Valid) (hplain : ∀ x ∈ view.toArray, Plain (cellText x)) :
    ∀ i < view.shape.size, Plain (cellTextAt cellText view.buffer.cells (view.offset + i)) := by
  have htexts : ∀ text ∈ view.toArray.toList.map cellText, Plain text :=
    List.forall_mem_map.mpr fun x hx => hplain x (Array.mem_toList_iff.mp hx)
  rw [h.map_cellText] at htexts
  exact fun i hi => htexts _ (List.mem_map_of_mem (List.mem_range.mpr hi))

/-- What the index of an element selects has the text of the block at its place. -/
theorem Valid.text_element? (h : view.Valid) {i : Nat} (hi : i < view.length) :
    ∃ element, view.element? i = some element ∧ element.text cellText =
      elementTextAt cellText view.buffer.cells view.shape.inner view.offset i := by
  have hposition : view.shape.dims.offset? [i] = some (i * view.shape.inner.size) := by
    have houter : i < view.shape.outer := hi
    rw [Shape.dims, Dims.offset?, if_pos houter]
    simp [Dims.offset?]
  have hblock := h.block_inside hposition
  have hdrop : view.shape.dims.drop [i].length = view.shape.inner := rfl
  rw [View.element?, get?_eq_blockAt? view (List.cons_ne_nil i []), hposition, Option.bind_some,
    hdrop]
  rw [hdrop] at hblock
  -- An element is a cell or a block, by whether there are inner dimensions.
  cases hinner : view.shape.inner with
  | nil =>
    rw [hinner, Dims.size, Nat.mul_one] at hblock
    rw [elementTextAt_nil, Dims.size, Nat.mul_one, blockAt?, cellTextAt,
      Array.getElem?_eq_getElem hblock]
    exact ⟨_, rfl, rfl⟩
  | cons outer inner => exact ⟨_, rfl, rfl⟩

/-- The text of a view is put together from those of its elements, with commas between them. -/
theorem Valid.text_eq (h : view.Valid) :
    view.text cellText = ",".intercalate (view.elements.map (Element.text cellText)) := by
  -- Every index of the outermost dimension has its element, so none is filtered out.
  have helements : view.elements.map (Element.text cellText) = (List.range view.length).map
      (elementTextAt cellText view.buffer.cells view.shape.inner view.offset) := by
    rw [View.elements, List.map_filterMap, ← List.filterMap_eq_map]
    apply List.filterMap_congr
    intro i hi
    obtain ⟨element, helement, htext⟩ := h.text_element? cellText (List.mem_range.mp hi)
    rw [helement, Option.map_some, htext]
    rfl
  rw [helements]
  rfl

end View

/-- **The text of a view is unambiguous.** Of views that can be made, neither of them with a dimension
of zero, whose cells have texts without commas and brackets: if the views have the same text, then they
have the same number of dimensions, the same dimensions, and the same texts of cells in row-major
order. -/
theorem View.text_unambiguous {v : View α} {w : View β} (hv : v.Reachable) (hw : w.Reachable)
    {cellText : α → String} {cellText' : β → String} (hzero : 0 ∉ v.shape.dims)
    (hzero' : 0 ∉ w.shape.dims) (hplain : ∀ x ∈ v.toArray, Plain (cellText x))
    (hplain' : ∀ x ∈ w.toArray, Plain (cellText' x)) (h : v.text cellText = w.text cellText') :
    v.rank = w.rank ∧ v.shape.dims = w.shape.dims ∧
      v.toArray.toList.map cellText = w.toArray.toList.map cellText' := by
  obtain ⟨hdims, htexts⟩ := block_eq_of_text_eq hzero hzero'
    (hv.valid.plain_cellTextAt cellText hplain) (hw.valid.plain_cellTextAt cellText' hplain') h
  -- Views of the same dimensions have as many cells.
  have hsize : w.shape.size = v.shape.size := congrArg Dims.size hdims.symm
  refine ⟨congrArg List.length hdims, hdims, ?_⟩
  rw [hv.valid.map_cellText, hw.valid.map_cellText, hsize]
  exact List.map_congr_left fun i hi => htexts i (List.mem_range.mp hi)

/-- The second plane of an array of numbers and a matrix of words with the same text. -/
theorem View.text_unambiguous_plane :
    ∃ (cube plane : View Nat) (words : View String),
      View.ofShape? 0 ⟨2, [2, 2]⟩ (Array.range 8) = .ok cube ∧ cube.row? 1 = some plane ∧
      View.ofShape? 1 ⟨2, [2]⟩ #["4", "5", "6", "7"] = .ok words ∧
      0 ∉ plane.shape.dims ∧ 0 ∉ words.shape.dims ∧
      (∀ n ∈ plane.toArray, Plain (toString n)) ∧ (∀ word ∈ words.toArray, Plain word) ∧
      plane.text toString = "<4,5>,<6,7>" ∧ plane.text toString = words.text id ∧
      plane.rank = words.rank ∧ plane.shape.dims = words.shape.dims ∧
      plane.toArray.toList.map toString = words.toArray.toList.map id := by
  have hshape : Shape.ofDims? [2, 2, 2] = .ok ⟨2, [2, 2]⟩ := rfl
  have hcube : View.ofShape? 0 ⟨2, [2, 2]⟩ (Array.range 8) =
    .ok ⟨⟨2, [2, 2]⟩, ⟨0, Array.range 8⟩, 0⟩ := rfl
  have hplane : (View.mk ⟨2, [2, 2]⟩ ⟨0, Array.range 8⟩ 0).row? 1 =
    some ⟨⟨2, [2]⟩, ⟨0, Array.range 8⟩, 4⟩ := rfl
  have hshape' : Shape.ofDims? [2, 2] = .ok ⟨2, [2]⟩ := rfl
  have hwords : View.ofShape? 1 ⟨2, [2]⟩ #["4", "5", "6", "7"] =
    .ok ⟨⟨2, [2]⟩, ⟨1, #["4", "5", "6", "7"]⟩, 0⟩ := rfl
  have hreachable := (View.Reachable.ofShape (.ofDims hshape) hcube).row hplane
  have hreachable' := View.Reachable.ofShape (.ofDims hshape') hwords
  have hzero : 0 ∉ [2, 2] := by decide
  have hplain : ∀ n ∈ #[4, 5, 6, 7], Plain (toString n) := by decide
  have hplain' : ∀ word ∈ #["4", "5", "6", "7"], Plain word := by decide
  have htext : View.text toString ⟨⟨2, [2]⟩, ⟨0, Array.range 8⟩, 4⟩ = "<4,5>,<6,7>" := by rfl
  have htext' : View.text id ⟨⟨2, [2]⟩, ⟨1, #["4", "5", "6", "7"]⟩, 0⟩ = "<4,5>,<6,7>" := by rfl
  exact ⟨_, _, _, hcube, hplane, hwords, hzero, hzero, hplain, hplain', htext,
    htext.trans htext'.symm, View.text_unambiguous hreachable hreachable' hzero hzero hplain hplain'
      (htext.trans htext'.symm)⟩

end ForkJoin
