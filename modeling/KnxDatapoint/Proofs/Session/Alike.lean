import KnxDatapoint.Proofs.Session.Slots

/-! Two ways of holding readings that no run can tell apart.
A change of the holder that commutes with every operation on one reading commutes with every action
and so with whole runs: outcomes, faults and records stay the same, and the slots change only in the
way they hold their readings. To add a tag and to leave it out are such changes. -/
namespace KnxDatapoint.Session
open Datapoint

section
variable {σ τ : Type} [Holder σ] [Holder τ] {f : σ → τ} {count : ℕ}

/-- A change of the holder that every operation passes over. -/
structure Faithful (f : σ → τ) : Prop where
  hold (reading : TaggedReading) : f (Holder.hold reading) = Holder.hold reading
  datapoint (held : σ) : datapoint (f held) = datapoint held
  value (held : σ) : value (f held) = value held
  tagged (held : σ) : tagged (f held) = tagged held
  equal (left right : σ) : (f left == f right) = (left == right)
  pack (held : σ) : pack (f held) = pack held
  pieces (held : σ) : pieces (f held) = pieces held
  unpack (held : σ) (data : List UInt8) : unpack (f held) data = f <$> unpack held data
  renew (held : σ) (data : List UInt8) : renew (f held) data = f <$> renew held data

/-- An entry of a run whose slots hold their readings in another way. -/
def rehold (f : σ → τ) (entry : Outcome × Vector σ count) : Outcome × Vector τ count :=
  (entry.1, entry.2.map f)

theorem held_map (faithful : Faithful f) (slots : Vector σ count) (slot : Fin count) :
    held (slots.map f) slot = held slots slot := by
  have moved : (slots.map f).get slot = f (slots.get slot) := Vector.getElem_map f slot.isLt
  rw [held, moved, faithful.tagged, held]

/-! ## One reading -/

theorem Faithful.render (faithful : Faithful f) (held : σ) :
    KnxDatapoint.render (f held) = KnxDatapoint.render held := by
  simp only [KnxDatapoint.render, faithful.pieces, faithful.datapoint]

theorem Faithful.describe (faithful : Faithful f) (held : σ) :
    KnxDatapoint.describe (f held) = KnxDatapoint.describe held := by
  simp only [KnxDatapoint.describe, display, faithful.render, faithful.pack, faithful.pieces,
    faithful.datapoint, faithful.value, faithful.tagged]

/-! ## One action -/

omit [Holder σ] [Holder τ] in
theorem map_set (slots : Vector σ count) (slot : Fin count) (fresh : σ) :
    (slots.map f).set slot (f fresh) slot.isLt = (slots.set slot fresh slot.isLt).map f := by
  simp

omit [Holder σ] [Holder τ] in
theorem receive_map (slots : Vector σ count) (slot : Fin count) (attempt : Decoding σ) :
    receive (slots.map f) slot (f <$> attempt) =
      (fun received => (received.1, received.2.map f)) <$> receive slots slot attempt := by
  simp only [receive, ExceptT.run_map, map_bind, bind_map_left]
  congr 1
  funext outcome
  cases outcome with
  | error fault => rfl
  | ok fresh => simp only [Except.map, map_set, map_pure]

theorem step_map (faithful : Faithful f) (slots : Vector σ count) (action : Action count) :
    step (slots.map f) action = rehold f <$> step slots action := by
  cases action with
  | unpack slot data =>
    simp only [step, Fin.getElem_fin, Vector.getElem_map, faithful.unpack, receive_map,
      bind_map_left, map_bind, map_pure, rehold]
  | renew slot data =>
    simp only [step, Fin.getElem_fin, Vector.getElem_map, faithful.renew, receive_map,
      bind_map_left, map_bind, map_pure, rehold]
  | put slot reading =>
    simp only [step, ← faithful.hold, map_set, map_pure, rehold]
  | send source target =>
    simp only [step, Fin.getElem_fin, Vector.getElem_map, faithful.pack, faithful.unpack,
      receive_map, bind_map_left, map_bind, map_pure, rehold]
  | compare left right =>
    simp only [step, Fin.getElem_fin, Vector.getElem_map, faithful.equal, map_pure, rehold]
  | copy source target =>
    simp only [step, Fin.getElem_fin, Vector.getElem_map, map_set, map_pure, rehold]
  | pack slot =>
    simp only [step, Fin.getElem_fin, Vector.getElem_map, faithful.pack, map_bind, map_pure, rehold]
  | render slot =>
    simp only [step, Fin.getElem_fin, Vector.getElem_map, faithful.render, map_bind, map_pure,
      rehold]
  | describe slot =>
    simp only [step, Fin.getElem_fin, Vector.getElem_map, faithful.describe, map_bind, map_pure,
      rehold]

/-! ## Whole runs -/

theorem run_map (faithful : Faithful f) (slots : Vector σ count) (actions : List (Action count)) :
    run (slots.map f) actions = List.map (rehold f) <$> run slots actions := by
  induction actions generalizing slots with
  | nil => rfl
  | cons action rest ih =>
    simp only [run, step_map faithful, bind_map_left, map_bind, map_pure, List.map_cons]
    congr 1
    funext entry
    have later := ih entry.2
    simp only [rehold, later, bind_map_left]

end

/-! ## Tags -/

theorem untouched_faithful : Faithful (tagged : TaggedReading → TaggedReading) where
  hold _ := rfl
  datapoint _ := rfl
  value _ := rfl
  tagged _ := rfl
  equal _ _ := rfl
  pack _ := rfl
  pieces _ := rfl
  unpack held data := (id_map (unpack held data)).symm
  renew held data := (id_map (renew held data)).symm

theorem bare_faithful : Faithful TaggedReading.bare where
  hold _ := rfl
  datapoint held := by cases held <;> rfl
  value held := by cases held <;> rfl
  tagged held := by cases held <;> rfl
  equal left right := by cases left <;> cases right <;> rfl
  pack held := by cases held <;> rfl
  pieces held := by cases held <;> rfl
  unpack held data := by
    cases held <;> simp only [unpack, TaggedReading.unpack, TaggedReading.bare, Functor.map_map]
  renew held data := by
    cases held <;> simp only [renew, TaggedReading.ofBytes, TaggedReading.bare,
      TaggedReading.datapoint, Reading.datapoint, Functor.map_map]

theorem tagged_faithful : Faithful (tagged : BareReading → TaggedReading) where
  hold reading := by cases reading <;> rfl
  datapoint held := TaggedReading.datapoint_tag held.reading
  value held := TaggedReading.value_tag held.reading
  tagged _ := rfl
  equal left right := by
    rcases left with ⟨family, reading⟩
    rcases right with ⟨family', reading'⟩
    cases family <;> cases family' <;> rfl
  pack held := TaggedReading.pack_tag held.reading
  pieces held := TaggedReading.pieces_tag held.reading
  unpack held data := by
    rcases held with ⟨family, reading⟩
    simp only [unpack, tagged, TaggedReading.unpack_eq, Functor.map_map]
  renew held data := by
    rcases held with ⟨family, reading⟩
    cases family <;> simp only [renew, tagged, Family.tag, TaggedReading.ofBytes,
      TaggedReading.datapoint, Reading.datapoint, Functor.map_map]

theorem bare_tagged (held : BareReading) : (tagged held).bare = held := by
  rcases held with ⟨family, reading⟩
  cases family <;> rfl

/-- A run over tagged readings and the same run over bare ones report the same outcomes and faults
after every action, make the same records in the same order, and leave the same readings in the
slots. Either row of slots comes from the other by leaving the tags out or adding them. -/
theorem tagged_and_bare_alike {count : ℕ} (actions : List (Action count)) :
    (∀ slots : Vector TaggedReading count,
      run (slots.map TaggedReading.bare) actions =
        List.map (rehold TaggedReading.bare) <$> run slots actions ∧
      ∀ slot, held (slots.map TaggedReading.bare) slot = held slots slot) ∧
    (∀ slots : Vector BareReading count,
      run (slots.map tagged) actions = List.map (rehold tagged) <$> run slots actions ∧
      (slots.map tagged).map TaggedReading.bare = slots ∧
      ∀ slot, held (slots.map tagged) slot = held slots slot) := by
  refine ⟨fun slots => ⟨run_map bare_faithful slots actions, held_map bare_faithful slots⟩,
    fun slots => ⟨run_map tagged_faithful slots actions, ?_, held_map tagged_faithful slots⟩⟩
  rw [Vector.map_map]
  simp only [Function.comp_def, bare_tagged, Vector.map_id']

end KnxDatapoint.Session
