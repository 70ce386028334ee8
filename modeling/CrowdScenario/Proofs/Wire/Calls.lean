import CrowdScenario.Proofs.Schema.Lookup
import CrowdScenario.Proofs.Wire.Forms

/-!
# Calls of a writer

An entry at one of the coordinates of the wire contract stands for a record. A writer performs calls
one after the other, whatever they end in: a refused call leaves everything as it was, and the
records of the others are what the decoder finds in the end.
-/

namespace CrowdScenario

namespace Entry

/-- The record that an entry stands for, if its coordinate is one of the contract. -/
def record? : Entry → Option Record
  | geometry g => some (.geometry g)
  | text c name => if c = .sceneFile then some (.sceneFile name) else none
  | float c x => (doubles.lookup c).map (· x)
  | seconds c n => if c = .endTime then some (.endTime (.ofSeconds n)) else none
  | flag c enabled => if c = .densityEnabled then some (.densityEnabled enabled) else none
  | distribution c d => if c.holdsDistribution then some (.distribution c d) else none

theorem form_of_doubles {c : Coordinate} {make : Binary64 → Record} (h : (c, make) ∈ doubles)
    (x : Binary64) : (make x).Form (c.toBytes ++ x.toBytes) := by
  simp only [doubles, List.mem_cons, Prod.mk.injEq, List.not_mem_nil, or_false] at h
  rcases h with ⟨rfl, rfl⟩ | ⟨rfl, rfl⟩ | ⟨rfl, rfl⟩ | ⟨rfl, rfl⟩ | ⟨rfl, rfl⟩ <;>
    exact ⟨x.toBytes, rfl, rfl⟩

theorem ofSeconds_ne (n : UInt32) : EndTime.ofSeconds n ≠ .finite EndTime.sentinel := by
  unfold EndTime.ofSeconds
  split
  · exact nofun
  · next hn => exact fun h => hn (EndTime.finite.inj h)

theorem toSeconds_ofSeconds (n : UInt32) : (EndTime.ofSeconds n).toSeconds = n := by
  unfold EndTime.ofSeconds
  split
  · next hn => exact hn.symm
  · rfl

theorem form_geometry {g : Geometry} {bs : Bytes} (h : g.toBytes? = .ok bs) :
    (Record.geometry g).Form bs := by
  unfold Geometry.toBytes? at h
  split at h
  · next hlen =>
    split at h
    · cases h
    · next hfit =>
      cases h
      exact ⟨_, ⟨hlen, hfit, rfl⟩, rfl⟩
  · cases h

theorem form_of_toBytes? {e : Entry} {r : Record} {bs : Bytes} (hr : e.record? = some r)
    (hbs : e.toBytes? = .ok bs) : r.Form bs := by
  cases e with
  | geometry g =>
    cases hr
    exact form_geometry hbs
  | text c name =>
    simp only [record?, Option.ite_none_right_eq_some, Option.some.injEq] at hr
    obtain ⟨rfl, rfl⟩ := hr
    cases ht : textBytes? name with
    | error e => simp [toBytes?, ht, Except.map] at hbs
    | ok payload =>
      simp only [toBytes?, ht, Except.map, Except.ok.injEq] at hbs
      exact ⟨payload, ht, hbs.symm⟩
  | float c x =>
    cases hbs
    obtain ⟨make, hmake, rfl⟩ := Option.map_eq_some_iff.mp hr
    exact form_of_doubles (mem_of_lookup hmake) x
  | seconds c n =>
    simp only [record?, Option.ite_none_right_eq_some, Option.some.injEq] at hr
    obtain ⟨rfl, rfl⟩ := hr
    cases hbs
    refine ⟨_, ⟨ofSeconds_ne n, rfl⟩, ?_⟩
    rw [toSeconds_ofSeconds]
    rfl
  | flag c enabled =>
    simp only [record?, Option.ite_none_right_eq_some, Option.some.injEq] at hr
    obtain ⟨rfl, rfl⟩ := hr
    cases hbs
    refine ⟨_, ⟨_, rfl, ?_⟩, rfl⟩
    cases enabled <;> decide
  | distribution c d =>
    simp only [record?, Option.ite_none_right_eq_some, Option.some.injEq] at hr
    obtain ⟨hc, rfl⟩ := hr
    cases hbs
    exact ⟨d.toBytes, ⟨hc, rfl⟩, rfl⟩

theorem toEntry_of_doubles {c : Coordinate} {make : Binary64 → Record} (h : (c, make) ∈ doubles)
    (x : Binary64) : (make x).toEntry = .float c x := by
  simp only [doubles, List.mem_cons, Prod.mk.injEq, List.not_mem_nil, or_false] at h
  rcases h with ⟨rfl, rfl⟩ | ⟨rfl, rfl⟩ | ⟨rfl, rfl⟩ | ⟨rfl, rfl⟩ | ⟨rfl, rfl⟩ <;> rfl

theorem toEntry_of_record? {e : Entry} {r : Record} (hr : e.record? = some r) : r.toEntry = e := by
  cases e with
  | geometry g =>
    cases hr
    rfl
  | text c name =>
    simp only [record?, Option.ite_none_right_eq_some, Option.some.injEq] at hr
    obtain ⟨rfl, rfl⟩ := hr
    rfl
  | float c x =>
    obtain ⟨make, hmake, rfl⟩ := Option.map_eq_some_iff.mp hr
    exact toEntry_of_doubles (mem_of_lookup hmake) x
  | seconds c n =>
    simp only [record?, Option.ite_none_right_eq_some, Option.some.injEq] at hr
    obtain ⟨rfl, rfl⟩ := hr
    rw [Record.toEntry, toSeconds_ofSeconds]
  | flag c enabled =>
    simp only [record?, Option.ite_none_right_eq_some, Option.some.injEq] at hr
    obtain ⟨rfl, rfl⟩ := hr
    rfl
  | distribution c d =>
    simp only [record?, Option.ite_none_right_eq_some, Option.some.injEq] at hr
    obtain ⟨-, rfl⟩ := hr
    rfl

end Entry

def Record.Written (r : Record) (bs : Bytes) : Prop :=
  r.toEntry.record? = some r ∧ r.toEntry.toBytes? = .ok bs

theorem Record.Written.form {r : Record} {bs : Bytes} (h : r.Written bs) : r.Form bs :=
  Entry.form_of_toBytes? h.1 h.2

/-- A call at a coordinate of the contract, with the record it stands for. -/
structure Call where
  entry : Entry
  record : Record
  meaning : entry.record? = some record

theorem Call.written {call : Call} {bs : Bytes} (h : call.entry.toBytes? = .ok bs) :
    call.record.Written bs := by
  have heq := Entry.toEntry_of_record? call.meaning
  rw [Record.Written, heq]
  exact ⟨call.meaning, h⟩

namespace Writing

def outcome (e : Entry) (w : Writer) : Except WireError Unit := ((record e).perform w).1

def after (e : Entry) (w : Writer) : Writer := ((record e).perform w).2

/-- The outcomes of calls in order, and the writer they leave behind. -/
def performAll : List Entry → Writer → List (Except WireError Unit) × Writer
  | [], w => ([], w)
  | e :: es, w => (outcome e w :: (performAll es (after e w)).1, (performAll es (after e w)).2)

theorem outcome_eq (e : Entry) (w : Writer) : outcome e w = e.toBytes?.map fun _ => () := by
  rw [outcome, perform_record]
  cases e.toBytes? <;> rfl

theorem after_of_error {e : Entry} {w : Writer} {cause : WireError}
    (h : outcome e w = .error cause) : after e w = w := by
  rw [outcome_eq] at h
  rw [after, perform_record]
  cases hb : e.toBytes? with
  | error cause => rfl
  | ok bs =>
    rw [hb] at h
    cases h

theorem after_of_ok {e : Entry} {w : Writer} (h : outcome e w = .ok ()) :
    ∃ bs, e.toBytes? = .ok bs ∧ after e w = ⟨w.bytes ++ bs, w.recordCount + 1⟩ := by
  rw [outcome_eq] at h
  rw [after, perform_record]
  cases hb : e.toBytes? with
  | error cause =>
    rw [hb] at h
    cases h
  | ok bs => exact ⟨bs, rfl, rfl⟩

end Writing

/-- A writer holds a document: its bytes are those of the document, and all records are counted. -/
def Writer.Holds (w : Writer) (s : Simulation) (rs : List Record) : Prop :=
  (∃ chunks : List Bytes, List.Forall₂ Record.Written rs chunks ∧
    w.bytes = s.code :: chunks.flatten) ∧ w.recordCount = rs.length

theorem Writer.Holds.append {w : Writer} {s : Simulation} {rs : List Record} (h : w.Holds s rs)
    {r : Record} {bs : Bytes} (hr : r.Written bs) :
    Writer.Holds ⟨w.bytes ++ bs, w.recordCount + 1⟩ s (rs ++ [r]) := by
  obtain ⟨⟨chunks, hwritten, hbytes⟩, hcount⟩ := h
  refine ⟨⟨chunks ++ [bs], List.rel_append hwritten (.cons hr .nil), ?_⟩, ?_⟩
  · simp [hbytes]
  · simp [hcount]

namespace Writing

theorem holds_simulation (s : Simulation) : (Writer.empty.simulation s).Holds s [] :=
  ⟨⟨[], .nil, rfl⟩, rfl⟩

theorem holds_decode {w : Writer} {s : Simulation} {rs : List Record} (h : w.Holds s rs) :
    Document.decode w.bytes = .ok ⟨s, rs⟩ := by
  obtain ⟨⟨chunks, hwritten, hbytes⟩, -⟩ := h
  exact Document.decode_eq_ok_iff.mpr ⟨chunks, hwritten.imp fun _ _ => Record.Written.form, hbytes⟩

def kept (calls : List Call) (outcomes : List (Except WireError Unit)) : List Record :=
  ((calls.zip outcomes).filter fun p => p.2.isOk).map fun p => p.1.record

theorem holds_after {w : Writer} {s : Simulation} {rs : List Record} (h : w.Holds s rs)
    {call : Call} (hok : outcome call.entry w = .ok ()) :
    (after call.entry w).Holds s (rs ++ [call.record]) := by
  obtain ⟨bs, hbs, hafter⟩ := after_of_ok hok
  rw [hafter]
  exact h.append (call.written hbs)

/-- Calls extend the document that a writer holds by the records of those not refused. -/
theorem holds_performAll {w : Writer} {s : Simulation} {rs : List Record} (calls : List Call)
    (h : w.Holds s rs) :
    (performAll (calls.map Call.entry) w).2.Holds s
      (rs ++ kept calls (performAll (calls.map Call.entry) w).1) := by
  induction calls generalizing w rs with
  | nil => simpa [performAll, kept] using h
  | cons call calls ih =>
    simp only [List.map_cons, performAll]
    cases hout : outcome call.entry w with
    | error cause =>
      have hafter := after_of_error hout
      have hrest := ih h
      rw [hafter]
      simpa [kept, Except.isOk, Except.toBool] using hrest
    | ok u =>
      have hrest := ih (holds_after h hout)
      simpa [kept, Except.isOk, Except.toBool, List.append_assoc] using hrest

end Writing
end CrowdScenario
