import ForkJoin.Proofs.Wrapping

/-!
# Parts that do not overlap

Fields are placed one behind another, and so are the elements of an array and the records of a
buffer. Two paths that part ways at some step therefore select bytes that have nothing in common,
and what a path selects contains what any longer path selects. Whether two paths part ways is told
from the steps they stand for: an index may be written in several ways.

## Main definitions
- `Span.Apart`, `Span.Inside`: spans without common positions, and one span in another.
- `Layout.bytesAt`, `Wrapping.bytesAt`: the bytes of a part.
- `Step`, `Layout.steps`: the steps that a path stands for.

## Main statements
- `Fields.apart_of_mem`, `Layout.apart_of_select`: one step.
- `Layout.inside_of_begins`, `Layout.apart_of_diverge`: two paths.
- `ScalarKind.read?_congr`: reading a scalar looks at its bytes only.
- `Wrapping.parts_apart`: all of it, for one record and for many.
-/

namespace ForkJoin

/-! ## §1 Spans -/

/-- One span ends where the other begins, or before. -/
def Span.Apart (first second : Span) : Prop :=
  first.stop ≤ second.start ∨ second.stop ≤ first.start

/-- A span lies in another one. -/
def Span.Inside (inner outer : Span) : Prop :=
  outer.start ≤ inner.start ∧ inner.stop ≤ outer.stop

namespace Span

variable {first second inner outer : Span}

theorem Apart.symm (h : first.Apart second) : second.Apart first :=
  Or.symm h

/-- Spans that are apart have no position in common. -/
theorem Apart.disjoint (h : first.Apart second) : first.positions.Disjoint second.positions := by
  intro p hfirst hsecond
  rw [mem_positions] at hfirst hsecond
  rw [Apart] at h
  omega

/-- What lies in a span is apart from what the span is apart from. -/
theorem Apart.of_inside (h : outer.Apart second) (hinner : inner.Inside outer) :
    inner.Apart second := by
  rcases h with hbefore | hafter
  · exact .inl (Nat.le_trans hinner.2 hbefore)
  · exact .inr (Nat.le_trans hafter hinner.1)

end Span

/-- The bytes of a part at an offset. -/
def Layout.bytesAt (part : Layout) (offset : Nat) : Span :=
  ⟨offset, offset + part.size⟩

section

variable {part target : Layout} {start offset other : Nat}

theorem Layout.inside_bytesAt_add (start : Nat)
    (h : (target.bytesAt other).Inside (part.bytesAt offset)) :
    (target.bytesAt (start + other)).Inside (part.bytesAt (start + offset)) := by
  simp only [Span.Inside, bytesAt] at *
  omega

theorem Layout.apart_bytesAt_add (start : Nat)
    (h : (part.bytesAt offset).Apart (target.bytesAt other)) :
    (part.bytesAt (start + offset)).Apart (target.bytesAt (start + other)) := by
  simp only [Span.Apart, bytesAt] at *
  omega

/-- A part that fits in another one at some place. -/
theorem Layout.FitsAt.inside_bytesAt {align : Nat} (h : target.FitsAt offset align part.size)
    (start : Nat) : (target.bytesAt (start + offset)).Inside (part.bytesAt start) := by
  have hinside := h.inside
  simp only [Span.Inside, bytesAt]
  omega

end

/-! ## §2 Steps -/

/-- A step into a record. -/
inductive Step where
  /-- The field of a name. -/
  | field (name : String)
  /-- The element at an index. -/
  | element (index : Nat)
  deriving DecidableEq, Repr

namespace Layout

/-- The step that a text stands for, which depends on what is stepped into. -/
def readStep? : Layout → String → Option Step
  | .structure _, text => some (.field text)
  | .array _ _, text => (parseIndex? text).map .element
  | .scalar _, _ => none

/-- The steps that a path stands for, up to the first one that is not accepted. -/
def steps : Layout → List String → List Step
  | _, [] => []
  | layout, text :: rest =>
    match layout.readStep? text, layout.select text with
    | some step, .ok (_, part) => step :: part.steps rest
    | _, _ => []

end Layout

/-- Every field is placed at the given offset or further on. -/
theorem Fields.le_offset_of_mem {place : Placement} : (fields : Fields) → (offset : Nat) →
    place ∈ fields.placementsFrom offset → offset ≤ place.offset
  | .nil, _, hmem => by cases hmem
  | .cons _ layout rest, offset, hmem => by
    have hstart := le_alignUp layout.align_pos offset
    rcases List.mem_cons.mp hmem with rfl | hmem
    · exact hstart
    · have hrest := rest.le_offset_of_mem _ hmem
      omega

/-- Two fields with different names are placed one behind the other. -/
theorem Fields.apart_of_mem {first second : Placement} (hne : first.name ≠ second.name) :
    (fields : Fields) → (offset : Nat) → first ∈ fields.placementsFrom offset →
    second ∈ fields.placementsFrom offset →
    (first.layout.bytesAt first.offset).Apart (second.layout.bytesAt second.offset)
  | .nil, _, hfirst, _ => by cases hfirst
  | .cons name layout rest, offset, hfirst, hsecond => by
    -- Either of the two is the first field, or both are among the rest.
    rcases List.mem_cons.mp hfirst with rfl | hfirst <;>
      rcases List.mem_cons.mp hsecond with rfl | hsecond
    · exact absurd rfl hne
    · -- The later field is placed behind the end of the first one.
      exact .inl (rest.le_offset_of_mem _ hsecond)
    · exact .inr (rest.le_offset_of_mem _ hfirst)
    · exact rest.apart_of_mem hne _ hfirst hsecond

/-- Two elements of an array lie one behind the other. -/
theorem Layout.apart_of_ne (element : Layout) {i j : Nat} (hne : i ≠ j) :
    (element.bytesAt (i * element.size)).Apart (element.bytesAt (j * element.size)) := by
  simp only [Span.Apart, bytesAt, ← Nat.succ_mul]
  rcases Nat.lt_or_gt_of_ne hne with hlt | hgt
  · exact .inl (Nat.mul_le_mul_right _ hlt)
  · exact .inr (Nat.mul_le_mul_right _ hgt)

namespace Layout

variable {layout part target : Layout} {text other : String} {start offset : Nat}

/-- What a step into an array selects. -/
theorem select_array_eq_ok {element : Layout} {length : Nat}
    (h : (Layout.array element length).select text = .ok (start, part)) :
    ∃ index, parseIndex? text = some index ∧ start = index * element.size ∧ part = element := by
  rw [select] at h
  split at h
  · split at h
    · rename_i index hindex _
      cases h
      exact ⟨index, hindex, rfl, rfl⟩
    · cases h
  · cases h

/-- What a step into a structure selects. -/
theorem select_structure_eq_ok {fields : Fields}
    (h : (Layout.structure fields).select text = .ok (start, part)) :
    ∃ place, fields.find? text = some place ∧ place ∈ fields.placements ∧ place.name = text ∧
      start = place.offset ∧ part = place.layout := by
  rw [select] at h
  split at h
  · rename_i place hplace
    cases h
    exact ⟨place, hplace, List.mem_of_find?_eq_some hplace,
      by simpa using List.find?_some hplace, rfl, rfl⟩
  · cases h

/-- An accepted step stands for one, and the path goes on in the part that it selects. -/
theorem steps_cons (h : layout.select text = .ok (start, part)) (rest : List String) :
    ∃ step, layout.readStep? text = some step ∧
      layout.steps (text :: rest) = step :: part.steps rest := by
  have hread : ∃ step, layout.readStep? text = some step := by
    cases layout with
    | scalar kind => cases h
    | array element length =>
      obtain ⟨index, hindex, -, -⟩ := select_array_eq_ok h
      exact ⟨.element index, by rw [readStep?, hindex]; rfl⟩
    | «structure» fields => exact ⟨.field text, rfl⟩
  obtain ⟨step, hstep⟩ := hread
  exact ⟨step, hstep, by rw [steps, hstep, h]⟩

/-- Two ways to write one step select the same. -/
theorem select_eq_of_readStep?_eq (h : layout.select text = .ok (start, part))
    (hother : layout.select other = .ok (offset, target))
    (heq : layout.readStep? text = layout.readStep? other) : start = offset ∧ part = target := by
  -- Steps that read the same name the same index or the same field.
  cases layout with
  | scalar kind => cases h
  | array element length =>
    obtain ⟨i, hi, rfl, rfl⟩ := select_array_eq_ok h
    obtain ⟨j, hj, rfl, rfl⟩ := select_array_eq_ok hother
    rw [readStep?, readStep?, hi, hj] at heq
    cases heq
    exact ⟨rfl, rfl⟩
  | «structure» fields =>
    cases heq
    rw [h] at hother
    cases hother
    exact ⟨rfl, rfl⟩

/-- Different steps select bytes that have nothing in common. -/
theorem apart_of_select (h : layout.select text = .ok (start, part))
    (hother : layout.select other = .ok (offset, target))
    (hne : layout.readStep? text ≠ layout.readStep? other) :
    (part.bytesAt start).Apart (target.bytesAt offset) := by
  -- Elements are apart by their indices, and fields by their names.
  cases layout with
  | scalar kind => cases h
  | array element length =>
    obtain ⟨i, hi, rfl, rfl⟩ := select_array_eq_ok h
    obtain ⟨j, hj, rfl, rfl⟩ := select_array_eq_ok hother
    refine apart_of_ne _ ?_
    rintro rfl
    exact hne (by rw [readStep?, readStep?, hi, hj])
  | «structure» fields =>
    obtain ⟨first, -, hfirst, rfl, rfl, rfl⟩ := select_structure_eq_ok h
    obtain ⟨second, -, hsecond, rfl, rfl, rfl⟩ := select_structure_eq_ok hother
    refine Fields.apart_of_mem ?_ fields 0 hfirst hsecond
    intro heq
    exact hne (by rw [readStep?, readStep?, heq])

end Layout

/-! ## §3 Paths -/

namespace Layout

variable {layout part target : Layout} {path other : List String} {start offset : Nat}

/-- The first step of an accepted path and the rest of it. -/
theorem resolve_cons_eq_ok {text : String} {rest : List String}
    (h : layout.resolve (text :: rest) = .ok (start, part)) :
    ∃ first middle inner, layout.select text = .ok (first, middle) ∧
      middle.resolve rest = .ok (inner, part) ∧ start = first + inner := by
  rw [resolve] at h
  obtain ⟨⟨first, middle⟩, hselect, h⟩ := Fault.bind_eq_ok.mp h
  obtain ⟨⟨inner, found⟩, hrest, h⟩ := Fault.bind_eq_ok.mp h
  cases h
  exact ⟨first, middle, inner, hselect, hrest, rfl⟩

/-- An accepted path stands for as many steps as it has. -/
theorem length_steps (h : layout.resolve path = .ok (start, part)) :
    (layout.steps path).length = path.length := by
  induction path generalizing layout start with
  | nil => rfl
  | cons text rest ih =>
    obtain ⟨first, middle, inner, hselect, hrest, rfl⟩ := resolve_cons_eq_ok h
    obtain ⟨step, -, hsteps⟩ := steps_cons hselect rest
    rw [hsteps, List.length_cons, ih hrest, List.length_cons]

/-- A longer path selects a part of what a shorter one selects. -/
theorem inside_of_begins (h : layout.resolve path = .ok (start, part))
    (hother : layout.resolve other = .ok (offset, target))
    (hbegins : layout.steps path <+: layout.steps other) :
    (target.bytesAt offset).Inside (part.bytesAt start) := by
  -- By induction on the shorter path; what is left of the longer one is a path into the part.
  induction path generalizing layout start other offset with
  | nil =>
    cases h
    have hinside := (fitsAt_of_resolve hother).inside_bytesAt 0
    rwa [Nat.zero_add] at hinside
  | cons text rest ih =>
    obtain ⟨first, middle, inner, hselect, hrest, rfl⟩ := resolve_cons_eq_ok h
    obtain ⟨step, hstep, hsteps⟩ := steps_cons hselect rest
    cases other with
    | nil =>
      rw [hsteps] at hbegins
      exact absurd (List.prefix_nil.mp hbegins) (List.cons_ne_nil _ _)
    | cons text' rest' =>
      obtain ⟨first', middle', inner', hselect', hrest', rfl⟩ := resolve_cons_eq_ok hother
      obtain ⟨step', hstep', hsteps'⟩ := steps_cons hselect' rest'
      rw [hsteps, hsteps', List.cons_prefix_cons] at hbegins
      obtain ⟨rfl, hbegins⟩ := hbegins
      obtain ⟨rfl, rfl⟩ := select_eq_of_readStep?_eq hselect hselect' (hstep.trans hstep'.symm)
      exact inside_bytesAt_add first (ih hrest hrest' hbegins)

/-- Two paths that part ways select bytes that have nothing in common. -/
theorem apart_of_diverge (h : layout.resolve path = .ok (start, part))
    (hother : layout.resolve other = .ok (offset, target))
    (hleft : ¬ layout.steps path <+: layout.steps other)
    (hright : ¬ layout.steps other <+: layout.steps path) :
    (part.bytesAt start).Apart (target.bytesAt offset) := by
  -- By induction on the steps that both have in common.
  induction path generalizing layout start other offset with
  | nil => exact absurd (List.nil_prefix) hleft
  | cons text rest ih =>
    cases other with
    | nil => exact absurd (List.nil_prefix) hright
    | cons text' rest' =>
      obtain ⟨first, middle, inner, hselect, hrest, rfl⟩ := resolve_cons_eq_ok h
      obtain ⟨first', middle', inner', hselect', hrest', rfl⟩ := resolve_cons_eq_ok hother
      obtain ⟨step, hstep, hsteps⟩ := steps_cons hselect rest
      obtain ⟨step', hstep', hsteps'⟩ := steps_cons hselect' rest'
      rw [hsteps, hsteps', List.cons_prefix_cons] at hleft hright
      by_cases heq : step = step'
      · -- The steps are the same, so the paths part ways further on.
        subst heq
        obtain ⟨rfl, rfl⟩ := select_eq_of_readStep?_eq hselect hselect' (hstep.trans hstep'.symm)
        exact apart_bytesAt_add first (ih hrest hrest' (fun hp => hleft ⟨rfl, hp⟩)
          fun hp => hright ⟨rfl, hp⟩)
      · -- They part ways here, and what follows lies in the parts selected so far.
        have happart := apart_of_select hselect hselect' fun hread =>
          heq (Option.some.inj (hstep.symm.trans (hread.trans hstep')))
        have hinside := (fitsAt_of_resolve hrest).inside_bytesAt first
        have hinside' := (fitsAt_of_resolve hrest').inside_bytesAt first'
        exact ((happart.of_inside hinside).symm.of_inside hinside').symm

end Layout

/-! ## §4 Reading -/

/-- Reading a scalar looks at its own bytes only. -/
theorem ScalarKind.read?_congr (kind : ScalarKind) {bytes other : Array UInt8} {offset : Nat}
    (hsize : bytes.size = other.size)
    (h : ∀ i ∈ ((Layout.scalar kind).bytesAt offset).positions, bytes[i]? = other[i]?) :
    kind.read? bytes offset = kind.read? other offset := by
  rw [read?, read?, ← hsize]
  split
  · -- The scalar is inside both buffers, and its bytes are the same in them.
    rename_i hstop
    have hbytes := Span.filterMap_positions ((Layout.scalar kind).bytesAt offset) hstop
    have hother := Span.filterMap_positions ((Layout.scalar kind).bytesAt offset) (hsize ▸ hstop)
    rw [List.filterMap_congr h, hother] at hbytes
    exact congrArg (fun word => some (kind.decode (ofBytes word))) hbytes.symm
  · rfl

/-- Two buffers of one length that agree on the bytes of a scalar read the same there. -/
theorem Records.read_congr {layout : Layout} {bytes other : Array UInt8} {records twin : Records}
    (hrecords : Records.ofBytes? bytes layout = .ok records)
    (htwin : Records.ofBytes? other layout = .ok twin) (hsize : bytes.size = other.size)
    {i : Nat} {path : List String}
    (hagree : ∀ offset kind, i < records.length → layout.resolve path = .ok (offset, .scalar kind) →
      ∀ byte ∈ ((Layout.scalar kind).bytesAt (i * layout.size + offset)).positions,
        bytes[byte]? = other[byte]?) :
    records.read i path = twin.read i path := by
  obtain ⟨hpos, rfl, rfl, hfill⟩ := Records.ofBytes?_eq_ok hrecords
  obtain ⟨-, rfl, hlayout, hfill'⟩ := Records.ofBytes?_eq_ok htwin
  -- Buffers of one size hold as many records.
  have hlength : records.length = twin.length := by
    refine Nat.eq_of_mul_eq_mul_right (Nat.pos_of_ne_zero hpos) ?_
    rw [hfill, hfill', hsize]
  by_cases hscalar : ∃ offset kind, records.layout.resolve path = .ok (offset, .scalar kind)
  · obtain ⟨offset, kind, hresolve⟩ := hscalar
    rw [Records.read_of_resolve hresolve, Records.read_of_resolve (hlayout ▸ hresolve), hlayout,
      ← hlength]
    split
    · rfl
    · rename_i hi
      rw [kind.read?_congr hsize (hagree offset kind (Nat.lt_of_not_le hi) hresolve)]
  · -- Without a scalar no byte is looked at.
    have hnone : ∀ offset kind, records.layout.resolve path ≠ .ok (offset, .scalar kind) :=
      fun offset kind hresolve => hscalar ⟨offset, kind, hresolve⟩
    rw [Records.read_of_not_scalar hnone, Records.read_of_not_scalar (hlayout ▸ hnone), hlayout]

/-! ## §5 One record and many -/

/-- Records lie one behind the other, and so do their parts. -/
theorem Records.apart_of_ne {layout part target : Layout} {path other : List String}
    {offset offset' i j : Nat} (h : layout.resolve path = .ok (offset, part))
    (hother : layout.resolve other = .ok (offset', target)) (hne : i ≠ j) :
    (part.bytesAt (i * layout.size + offset)).Apart
      (target.bytesAt (j * layout.size + offset')) := by
  have hrecords := layout.apart_of_ne hne
  have hinside := (Layout.fitsAt_of_resolve h).inside_bytesAt (i * layout.size)
  have hinside' := (Layout.fitsAt_of_resolve hother).inside_bytesAt (j * layout.size)
  exact ((hrecords.of_inside hinside).symm.of_inside hinside').symm

namespace Wrapping

/-- The bytes of a part at an offset, as many as the machine takes it to have. -/
def bytesAt (part : Layout) (offset : Nat) : Span :=
  ⟨offset, offset + size part⟩

/-- Of what a path selects they are the exact ones. -/
theorem bytesAt_of_resolve {layout part : Layout} {path : List String} {offset : Nat}
    (hfits : layout.size < addressLimit) (hpath : layout.resolve path = .ok (offset, part))
    (start : Nat) : bytesAt part start = part.bytesAt start := by
  rw [bytesAt, size_of_resolve hfits hpath, Layout.bytesAt]

/-- **Parts that part ways do not overlap**, in a layout whose size can be addressed. Every accepted
path stands for as many steps as it has. If the steps of one accepted path begin those of another one,
the bytes of its part contain those of the other part; if neither path begins the other, their parts
have no byte in common. Among records packed back to back, parts of different records have none in
common either. So reading a scalar of a record depends on the bytes of that scalar alone, whatever the
others are. -/
theorem parts_apart (layout : Layout) (hfits : layout.size < addressLimit) :
    (∀ path offset part, resolve layout path = .ok (offset, part) →
      (layout.steps path).length = path.length) ∧
    (∀ path other offset offset' part target, resolve layout path = .ok (offset, part) →
      resolve layout other = .ok (offset', target) →
      (layout.steps path <+: layout.steps other →
        (bytesAt target offset').Inside (bytesAt part offset)) ∧
      (¬ layout.steps path <+: layout.steps other → ¬ layout.steps other <+: layout.steps path →
        (bytesAt part offset).Apart (bytesAt target offset'))) ∧
    (∀ bytes records, bytes.size < addressLimit → ofBytes? bytes layout = .ok records →
      ∀ i < records.length, ∀ j < records.length, i ≠ j →
      ∀ path other offset offset' part target, resolve layout path = .ok (offset, part) →
        resolve layout other = .ok (offset', target) →
        ∃ start start', field records i path = .ok start ∧ field records j other = .ok start' ∧
          (bytesAt part start).Apart (bytesAt target start')) ∧
    (∀ bytes other records twin, bytes.size < addressLimit → ofBytes? bytes layout = .ok records →
      ofBytes? other layout = .ok twin → bytes.size = other.size →
      ∀ i path, (∀ start offset kind, field records i path = .ok start →
        resolve layout path = .ok (offset, .scalar kind) →
        ∀ byte ∈ (bytesAt (.scalar kind) start).positions, bytes[byte]? = other[byte]?) →
        read records i path = read twin i path) := by
  -- Nothing is lost of such a layout, so everything is said of the exact sizes and offsets.
  simp only [resolve_of_lt hfits, ofBytes?_of_lt hfits]
  refine ⟨?steps, ?paths, ?records, ?reads⟩
  case steps => exact fun path offset part => Layout.length_steps
  case paths =>
    intro path other offset offset' part target hpath hother
    rw [bytesAt_of_resolve hfits hpath, bytesAt_of_resolve hfits hother]
    exact ⟨Layout.inside_of_begins hpath hother, Layout.apart_of_diverge hpath hother⟩
  case records =>
    intro bytes records hbytes hrecords i hi j hj hne path other offset offset' part target hpath
      hother
    refine ⟨i * layout.size + offset, j * layout.size + offset', ?_, ?_, ?_⟩
    · rw [field_of_lt hfits hbytes hrecords]
      obtain ⟨-, -, rfl, -⟩ := Records.ofBytes?_eq_ok hrecords
      exact Records.field_of_resolve hpath hi
    · rw [field_of_lt hfits hbytes hrecords]
      obtain ⟨-, -, rfl, -⟩ := Records.ofBytes?_eq_ok hrecords
      exact Records.field_of_resolve hother hj
    · rw [bytesAt_of_resolve hfits hpath, bytesAt_of_resolve hfits hother]
      exact Records.apart_of_ne hpath hother hne
  case reads =>
    intro bytes other records twin hbytes hrecords htwin hsize i path hagree
    rw [read_of_lt hfits hbytes hrecords, read_of_lt hfits (hsize ▸ hbytes) htwin]
    refine Records.read_congr hrecords htwin hsize fun offset kind hi hpath => ?_
    have hstart : field records i path = .ok (i * layout.size + offset) := by
      rw [field_of_lt hfits hbytes hrecords]
      obtain ⟨-, -, rfl, -⟩ := Records.ofBytes?_eq_ok hrecords
      exact Records.field_of_resolve hpath hi
    have hbytesAt := hagree _ offset kind hstart hpath
    rwa [bytesAt_of_resolve hfits hpath] at hbytesAt

/-- Two coordinates behind a tag, the second of them written with a sign and a zero. Each lies in
the pair and apart from the other, also from that of another record, and the first record reads the
same whatever the second one holds. -/
theorem parts_apart_coordinates :
    let layout := Layout.structure (.ofList [("tag", .scalar .u8), ("x", .array (.scalar .f64) 2)])
    layout.size < addressLimit ∧
    resolve layout ["x"] = .ok (8, .array (.scalar .f64) 2) ∧
    resolve layout ["x", "0"] = .ok (8, .scalar .f64) ∧
    resolve layout ["x", "+01"] = .ok (16, .scalar .f64) ∧
    (Span.mk 16 24).Inside ⟨8, 24⟩ ∧ (Span.mk 8 16).Apart ⟨16, 24⟩ ∧
    ∃ records twin, ofBytes? (Array.replicate 48 0) layout = .ok records ∧
      ofBytes? (Array.replicate 24 0 ++ Array.replicate 24 1) layout = .ok twin ∧
      field records 0 ["x", "+01"] = .ok 16 ∧ field records 1 ["x", "+01"] = .ok 40 ∧
      (Span.mk 16 24).Apart ⟨40, 48⟩ ∧ read records 0 ["x", "1"] = read twin 0 ["x", "1"] := by
  intro layout
  have hsize : layout.size = 24 := rfl
  have hfits : layout.size < addressLimit := by decide
  have hpair : resolve layout ["x"] = .ok (8, .array (.scalar .f64) 2) := rfl
  have hfirst : resolve layout ["x", "0"] = .ok (8, .scalar .f64) := rfl
  have hsecond : resolve layout ["x", "+01"] = .ok (16, .scalar .f64) := rfl
  have hplain : resolve layout ["x", "1"] = .ok (16, .scalar .f64) := rfl
  have hrecords : ofBytes? (Array.replicate 48 0) layout =
      .ok ⟨Array.replicate 48 0, layout, 2⟩ := by
    simp [ofBytes?, size_of_lt hfits, hsize]
  have htwin : ofBytes? (Array.replicate 24 0 ++ Array.replicate 24 1) layout =
      .ok ⟨Array.replicate 24 0 ++ Array.replicate 24 1, layout, 2⟩ := by
    simp [ofBytes?, size_of_lt hfits, hsize]
  have hbytes : (Array.replicate 48 (0 : UInt8)).size < addressLimit := by
    rw [Array.size_replicate]
    decide
  have hfield : field ⟨Array.replicate 48 0, layout, 2⟩ 0 ["x", "+01"] = .ok 16 := rfl
  have hfield' : field ⟨Array.replicate 48 0, layout, 2⟩ 1 ["x", "+01"] = .ok 40 := rfl
  obtain ⟨-, hpaths, happart, hreads⟩ := parts_apart layout hfits
  refine ⟨hfits, hpair, hfirst, hsecond, ?_, ?_, _, _, hrecords, htwin, hfield, hfield', ?_, ?_⟩
  · exact (hpaths _ _ _ _ _ _ hpair hsecond).1 (by decide)
  · exact (hpaths _ _ _ _ _ _ hfirst hsecond).2 (by decide) (by decide)
  · obtain ⟨start, start', hstart, hstart', hspans⟩ := happart _ _ hbytes hrecords 0 (by decide) 1
      (by decide) (by decide) _ _ _ _ _ _ hsecond hsecond
    cases hfield.symm.trans hstart
    cases hfield'.symm.trans hstart'
    exact hspans
  · refine hreads _ _ _ _ hbytes hrecords htwin (by simp) 0 _
      fun start offset kind hstart hpath byte hbyte => ?_
    -- The bytes of the scalar lie in the first record, where the buffers are the same.
    rw [hplain] at hpath
    cases hpath
    cases hstart
    have hstop : byte < 24 := (Span.mem_positions.mp hbyte).2
    rw [Array.getElem?_append_left (by simpa using hstop), Array.getElem?_replicate,
      Array.getElem?_replicate, if_pos hstop, if_pos (Nat.lt_trans hstop (by decide))]

/-- In an array of 2^62 numbers, whose size is wrapped to zero, the first one and another one are at the
same place. -/
theorem parts_together_beyond_addresses :
    let layout := Layout.array (.scalar .f64) (addressLimit / 4)
    resolve layout ["0"] = .ok (0, .scalar .f64) ∧
    resolve layout ["2305843009213693952"] = .ok (0, .scalar .f64) ∧
    ¬ layout.steps ["0"] <+: layout.steps ["2305843009213693952"] ∧
    ¬ layout.steps ["2305843009213693952"] <+: layout.steps ["0"] ∧
    bytesAt (.scalar .f64) 0 = ⟨0, 8⟩ ∧ ¬ (Span.mk 0 8).Apart ⟨0, 8⟩ := by
  intro layout
  have hsteps : layout.steps ["0"] = [.element 0] := rfl
  -- This element begins 2^64 bytes behind the first one.
  have hsteps' : layout.steps ["2305843009213693952"] = [.element (addressLimit / 8)] := rfl
  refine ⟨rfl, rfl, ?_, ?_, rfl, by simp [Span.Apart]⟩
  · rw [hsteps, hsteps']
    decide
  · rw [hsteps, hsteps']
    decide

end Wrapping

end ForkJoin
