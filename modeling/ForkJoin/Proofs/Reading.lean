import ForkJoin.Proofs.Outcomes
import ForkJoin.Proofs.Wrapping

/-!
# Reading records

The scalar of a record is read one at a time, or for all records by a map whose function adds the
offset of the scalar to that of the record. Records fill their buffer, and a scalar lies inside its
record, so neither way can run past the end of the buffer: one reads wherever there is a record and
a scalar, and the other agrees with it. If the size of the layout cannot be addressed, a buffer may be
accepted that is too short for a single record.

## Main statements
- `Layout.error_of_resolve`: why a path is not accepted.
- `Records.read_eq_ok_iff`, `Records.read_ne_truncated`: what can be read.
- `Records.map_eq`: what mapping records leaves.
- `Wrapping.map_agrees_with_read`: the map of a scalar is the scalar of every record.
-/

namespace ForkJoin

variable {β : Type} {layout : Layout} {bytes : Array UInt8} {records : Records}
  {path : List String} {offset i : Nat} {kind : ScalarKind}

/-! ## §1 One record -/

/-- A step is not accepted for what it is a step into. -/
theorem Layout.error_of_select {step : String} {cause : InputError}
    (h : layout.select step = .error cause) :
    cause = .argument (.unknownField step) ∨ cause = .argument (.badIndex step) ∨
      cause = .argument (.stepIntoScalar step) := by
  -- Every kind of layout has its own way to complain.
  cases layout with
  | scalar kind =>
    cases h
    exact .inr (.inr rfl)
  | array element length =>
    rw [select] at h
    split at h
    · split at h
      · cases h
      · cases h
        exact .inr (.inl rfl)
    · cases h
      exact .inr (.inl rfl)
  | «structure» fields =>
    rw [select] at h
    split at h
    · cases h
    · cases h
      exact .inl rfl

/-- A path is not accepted for one of its steps. -/
theorem Layout.error_of_resolve {cause : InputError} (h : layout.resolve path = .error cause) :
    ∃ step ∈ path, cause = .argument (.unknownField step) ∨ cause = .argument (.badIndex step) ∨
      cause = .argument (.stepIntoScalar step) := by
  induction path generalizing layout with
  | nil => cases h
  | cons step rest ih =>
    rw [resolve] at h
    rcases Fault.bind_eq_error.mp h with hselect | ⟨selected, -, h⟩
    · exact ⟨step, List.mem_cons_self .., error_of_select hselect⟩
    · rcases Fault.bind_eq_error.mp h with hrest | ⟨found, -, h⟩
      · -- The step in front was fine, so it is a later one.
        obtain ⟨later, hmem, hcause⟩ := ih hrest
        exact ⟨later, List.mem_cons_of_mem _ hmem, hcause⟩
      · cases h

/-- The bytes of a scalar are there in every record. -/
theorem Records.exists_scalar (h : Records.ofBytes? bytes layout = .ok records)
    (hpath : layout.resolve path = .ok (offset, .scalar kind)) (hi : i < records.length) :
    ∃ value, kind.read? bytes (i * layout.size + offset) = some value := by
  have hrecord := Records.record_inside h hi
  have hscalar : offset + kind.size ≤ layout.size := (Layout.fitsAt_of_resolve hpath).inside
  exact ⟨_, if_pos (by omega)⟩

/-- So the scalar of a record can be read. -/
theorem Records.read_eq_ok (h : Records.ofBytes? bytes layout = .ok records)
    (hpath : layout.resolve path = .ok (offset, .scalar kind)) (hi : i < records.length) :
    ∃ value, kind.read? bytes (i * layout.size + offset) = some value ∧
      records.read i path = .ok value := by
  obtain ⟨value, hvalue⟩ := Records.exists_scalar h hpath hi
  obtain ⟨-, rfl, rfl, -⟩ := Records.ofBytes?_eq_ok h
  refine ⟨value, hvalue, ?_⟩
  rw [Records.read_of_resolve hpath, if_neg (Nat.not_le.mpr hi), hvalue]
  rfl

/-- Nothing else can be read. -/
theorem Records.read_eq_ok_iff (h : Records.ofBytes? bytes layout = .ok records) :
    (∃ value, records.read i path = .ok value) ↔
      (∃ offset kind, layout.resolve path = .ok (offset, .scalar kind)) ∧ i < records.length := by
  obtain ⟨-, -, hlayout, -⟩ := Records.ofBytes?_eq_ok h
  constructor
  · rintro ⟨value, hread⟩
    -- A path that ends elsewhere is complained about, whatever the record is.
    have hscalar : ∃ offset kind, records.layout.resolve path = .ok (offset, .scalar kind) := by
      by_contra hnone
      rw [Records.read_of_not_scalar fun offset kind hpath => hnone ⟨offset, kind, hpath⟩] at hread
      obtain ⟨_, -, hread⟩ := Fault.bind_eq_ok.mp hread
      cases hread
    refine ⟨hlayout ▸ hscalar, ?_⟩
    obtain ⟨offset, kind, hpath⟩ := hscalar
    by_contra hi
    rw [Records.read_of_resolve hpath, if_pos (Nat.not_lt.mp hi)] at hread
    cases hread
  · rintro ⟨⟨offset, kind, hpath⟩, hi⟩
    obtain ⟨value, -, hread⟩ := Records.read_eq_ok h hpath hi
    exact ⟨value, hread⟩

/-- No scalar runs past the end of the buffer. -/
theorem Records.read_ne_truncated (h : Records.ofBytes? bytes layout = .ok records) (i : Nat)
    (path : List String) : records.read i path ≠ .error (.argument .truncatedRecord) := by
  intro hread
  obtain ⟨-, -, hlayout, -⟩ := Records.ofBytes?_eq_ok h
  -- A field that is there is inside its record, and the record inside the buffer.
  by_cases hscalar : ∃ offset kind, records.layout.resolve path = .ok (offset, .scalar kind)
  · obtain ⟨offset, kind, hpath⟩ := hscalar
    by_cases hi : i < records.length
    · obtain ⟨value, -, hvalue⟩ := Records.read_eq_ok h (hlayout ▸ hpath) hi
      rw [hvalue] at hread
      cases hread
    · rw [Records.read_of_resolve hpath, if_pos (Nat.not_lt.mp hi)] at hread
      cases hread
  · -- The path is complained about, and no path is complained about in that way.
    rw [Records.read_of_not_scalar fun offset kind hpath => hscalar ⟨offset, kind, hpath⟩] at hread
    cases hresolve : records.layout.resolve path with
    | ok found =>
      rw [hresolve] at hread
      cases hread
    | error cause =>
      rw [hresolve] at hread
      cases hread
      obtain ⟨step, -, hcause | hcause | hcause⟩ := Layout.error_of_resolve hresolve <;>
        cases hcause

/-! ## §2 All records -/

/-- Mapping records applies the function to every record once, and leaves the values if the
execution was as expected. -/
theorem Records.map_eq (records : Records) (f : RecordVisit → β) (setting : Setting)
    (hsequential : setting.config.sequential = true) :
    ∃ (run : Run RecordVisit (View β)) (report : Report), records.map setting f = .ok run ∧
      run.result = (report.check setting.config).map (fun report =>
        (View.ofArray setting.newBuffer (records.visits.map f).toArray, report)) ∧
      run.calls.toList = records.visits := by
  obtain ⟨run, report, parts, hrun, hresult, hcalls, hparts⟩ :=
    sweep_appends records.length (records.mapKernel_appends f _) setting .map hsequential
  rw [Records.visits_chunks] at hcalls hparts
  obtain ⟨final, hfinal, hfinalResult, hfinalCalls⟩ :=
    Run.conclude_joinArrays setting.newBuffer hresult
  rw [hparts] at hfinalResult
  exact ⟨final, report, by rw [Records.map, hrun]; exact hfinal, hfinalResult,
    by rw [hfinalCalls, hcalls]⟩

theorem Records.length_visits (records : Records) : records.visits.length = records.length := by
  rw [visits, List.length_map, List.length_range]

theorem Records.getElem?_visits (records : Records) (hi : i < records.length) :
    records.visits[i]? = some ⟨records.bytes, i * records.layout.size⟩ := by
  rw [visits, List.getElem?_map, List.getElem?_range hi]
  rfl

namespace Wrapping

/-- **Mapping records agrees with reading one**, if the size of their layout can be addressed. A record
can be read at a path if and only if the path selects a scalar and there is such a record; a record that
is cut short is never complained about. Mapping the records with the scalar at such a path, which looks
it up from the offset that it is handed, looks at every record once and in order, whichever way the run
ends, and every result holds the value that is read in each record at the index of the record. -/
theorem map_agrees_with_read (hfits : layout.size < addressLimit) (hbytes : bytes.size < addressLimit)
    (h : ofBytes? bytes layout = .ok records) :
    (∀ i path, (∃ value, read records i path = .ok value) ↔
      (∃ offset kind, resolve layout path = .ok (offset, .scalar kind)) ∧ i < records.length) ∧
    (∀ i path, read records i path ≠ .error (.argument .truncatedRecord)) ∧
    (∀ path offset kind, resolve layout path = .ok (offset, .scalar kind) →
      ∀ setting : Setting, setting.config.sequential = true →
      ∃ run, map records setting (fun visit =>
          readScalar? kind visit.bytes (wrapAddress (visit.offset + offset))) = .ok run ∧
        run.calls.toList = (List.range records.length).map (fun i => ⟨bytes, i * size layout⟩) ∧
        run.Ends setting.config fun out =>
          out.shape = .vector records.length ∧ out.toArray.size = records.length ∧
          ∀ i < records.length, ∃ value, read records i path = .ok value ∧
            out.toArray[i]? = some (some value)) := by
  rw [ofBytes?_of_lt hfits] at h
  simp only [resolve_of_lt hfits, read_of_lt hfits hbytes h, size_of_lt hfits,
    map_of_lt hfits hbytes h]
  refine ⟨fun i path => Records.read_eq_ok_iff h, Records.read_ne_truncated h, ?_⟩
  intro path offset kind hpath setting hsequential
  obtain ⟨run, report, hrun, hresult, hcalls⟩ := records.map_eq
    (fun visit => readScalar? kind visit.bytes (wrapAddress (visit.offset + offset))) setting
    hsequential
  have hread := fun i => Records.read_eq_ok h hpath (i := i)
  have hinside := fun i hi => part_inside (i := i) h hi hpath
  obtain ⟨-, rfl, rfl, -⟩ := Records.ofBytes?_eq_ok h
  refine ⟨run, hrun, hcalls, .of_check hresult ⟨?_, ?_, ?_⟩⟩
  · simp [View.ofArray, Records.length_visits]
  · simp [Records.length_visits]
  · intro i hi
    obtain ⟨value, hvalue, hok⟩ := hread i hi
    refine ⟨value, hok, ?_⟩
    rw [View.toArray_ofArray, List.getElem?_toArray, List.getElem?_map,
      records.getElem?_visits hi]
    -- The place of the scalar is inside the buffer, so it is the exact one.
    have hend := hinside i hi
    have hplace : i * records.layout.size + offset < addressLimit := by omega
    have hscalar : readScalar? kind records.bytes
        (wrapAddress (i * records.layout.size + offset)) = some value := by
      rw [wrapAddress_of_lt hplace, readScalar?_of_lt kind hbytes hplace, hvalue]
    exact congrArg some hscalar

/-- The second coordinates behind a tag in two hundred records, looked up by two workers that bail
out of every attempt. -/
theorem map_agrees_with_read_coordinates :
    let layout := Layout.structure (.ofList [("tag", .scalar .u8), ("x", .array (.scalar .f64) 2)])
    let setting : Setting :=
      { host := BailSchedule.always.host, config := Config.withWorkers {} 2 }
    layout.size < addressLimit ∧ (Array.replicate 4800 (0 : UInt8)).size < addressLimit ∧
    ∃ records, ofBytes? (Array.replicate 4800 0) layout = .ok records ∧
      records.length = 200 ∧ resolve layout ["x", "1"] = .ok (16, .scalar .f64) ∧
      ∃ run, map records setting (fun visit =>
          readScalar? .f64 visit.bytes (wrapAddress (visit.offset + 16))) = .ok run ∧
        run.calls.toList = (List.range 200).map
          (fun i => ⟨Array.replicate 4800 0, i * size layout⟩) ∧
        run.Ends setting.config fun out =>
          out.shape = .vector 200 ∧ out.toArray.size = 200 ∧
          ∀ i < 200, ∃ value, read records i ["x", "1"] = .ok value ∧
            out.toArray[i]? = some (some value) := by
  intro layout setting
  have hpath : resolve layout ["x", "1"] = .ok (16, .scalar .f64) := rfl
  have hsize : layout.size = 24 := rfl
  have hfits : layout.size < addressLimit := by decide
  have hbytes : (Array.replicate 4800 (0 : UInt8)).size < addressLimit := by
    rw [Array.size_replicate]
    decide
  have hrecords : ofBytes? (Array.replicate 4800 0) layout =
      .ok ⟨Array.replicate 4800 0, layout, 200⟩ := by
    simp [ofBytes?, size_of_lt hfits, hsize]
  exact ⟨hfits, hbytes, _, hrecords, rfl, hpath,
    (map_agrees_with_read hfits hbytes hrecords).2.2 _ _ _ hpath setting rfl⟩

/-- An array of 2^61 + 1 numbers is taken to have eight bytes, so eight bytes are accepted as one record
of it. The second number can be selected, but is not there to be read. -/
theorem read_truncated_beyond_addresses :
    let layout := Layout.array (.scalar .f64) (2 ^ 61 + 1)
    ∃ records, ofBytes? (Array.replicate 8 0) layout = .ok records ∧ records.length = 1 ∧
      resolve layout ["1"] = .ok (8, .scalar .f64) ∧
      read records 0 ["1"] = .error (.argument .truncatedRecord) := by
  intro layout
  have hsize : size layout = 8 := rfl
  have hrecords : ofBytes? (Array.replicate 8 0) layout =
      .ok ⟨Array.replicate 8 0, layout, 1⟩ := by
    simp [ofBytes?, hsize]
  exact ⟨_, hrecords, rfl, rfl, rfl⟩

end Wrapping

end ForkJoin
