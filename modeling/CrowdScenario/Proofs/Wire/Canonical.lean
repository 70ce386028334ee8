import CrowdScenario.Proofs.Wire.RoundTrip
import Mathlib

/-!
# Canonical bytes

A buffer can be cut into records by their coordinates alone. Its canonical form sets the switch of
every density map that is on to one and keeps all other bytes. Writing a decoded document again gives
exactly the canonical form of the buffer it was decoded from (`performAll_of_decode`), so that two
accepted buffers say the same if and only if their canonical forms agree.
-/

namespace CrowdScenario

def Coordinate.payloadLengths : List (Coordinate × Nat) :=
  [(.wall, 8), (.spawnArea, 9), (.targetArea, 10), (.panicSource, 7), (.sceneWidth, 2),
    (.sceneHeight, 2), (.sceneScale, 8), (.endTime, 4), (.tick, 8), (.spawnRate, 8),
    (.spawnTime, 17), (.repulsionCoefficient, 17), (.targetSpeed, 17), (.fovForward, 17),
    (.fovBackward, 17), (.densityEnabled, 1), (.densityMinimum, 8), (.densityMaximum, 8)]

/-- How many bytes follow a coordinate; a scene file says so itself. -/
def Coordinate.payloadLength? (c : Coordinate) (ahead : Bytes) : Option Nat :=
  if c = .sceneFile then some (2 + Bytes.ofBigEndian (ahead.take 2)) else payloadLengths.lookup c

namespace Document

def recordLength? : Bytes → Option Nat
  | code :: high :: low :: ahead =>
    (Section.ofCode? code).bind fun owner =>
      let c : Coordinate := ⟨owner, UInt16.ofNat (Bytes.ofBigEndian [high, low])⟩
      (c.payloadLength? ahead).map (3 + ·)
  | _ => none

/-- The record with the switch of a density map set to one if it is on. -/
def canonicalRecord (record : Bytes) : Bytes :=
  if record.take 3 = Coordinate.densityEnabled.toBytes then
    record.take 3 ++ (record.drop 3).map fun x => if x = 0 then 0 else 1
  else record

theorem recordLength?_drop_lt {bs : Bytes} {n : Nat} (h : recordLength? bs = some n) :
    (bs.drop n).length < bs.length := by
  unfold recordLength? at h
  split at h
  · next code high low ahead =>
    obtain ⟨owner, -, hlen⟩ := Option.bind_eq_some_iff.mp h
    obtain ⟨k, -, rfl⟩ := Option.map_eq_some_iff.mp hlen
    simp only [List.length_drop, List.length_cons]
    omega
  · cases h

def canonicalRecords (bs : Bytes) : Bytes :=
  match _h : recordLength? bs with
  | none => bs
  | some n => canonicalRecord (bs.take n) ++ canonicalRecords (bs.drop n)
termination_by bs.length
decreasing_by exact recordLength?_drop_lt _h

def canonical : Bytes → Bytes
  | [] => []
  | code :: rest => code :: canonicalRecords rest

end Document

theorem Coordinate.eq_of_toBytes {c c' : Coordinate} (h : c.toBytes = c'.toBytes) : c = c' := by
  rcases c with ⟨owner, element⟩
  rcases c' with ⟨owner', element'⟩
  simp only [toBytes, List.cons.injEq] at h
  obtain ⟨hcode, hbytes⟩ := h
  have howner : some owner = some owner' := by
    rw [← Section.ofCode?_code owner, hcode, Section.ofCode?_code]
  have hnat := congrArg Bytes.ofBigEndian hbytes
  have hspan : Bytes.span 2 = 65536 := rfl
  have hlt := element.toNat_lt
  have hlt' := element'.toNat_lt
  rw [Bytes.ofBigEndian_bigEndian, Bytes.ofBigEndian_bigEndian, hspan] at hnat
  have helement : element = element' := by
    apply UInt16.toNat_inj.mp
    omega
  rw [Option.some.inj howner, helement]

theorem MemberWidth.length_toBytes (width : MemberWidth) (v : Int64) :
    (width.toBytes v).length = width.byteCount := Bytes.length_bigEndian _ _

theorem Geometry.length_memberBytes (ws : List MemberWidth) (vs : List Int64)
    (h : vs.length = ws.length) :
    (memberBytes ws vs).length = (ws.map MemberWidth.byteCount).sum := by
  induction ws generalizing vs with
  | nil =>
    rw [memberBytes]
    · rfl
    · intro w ws v vs hws
      cases hws
  | cons width ws ih =>
    cases vs with
    | nil => cases h
    | cons v vs =>
      rw [memberBytes, List.length_append, MemberWidth.length_toBytes, ih vs (Nat.succ.inj h)]
      rfl

theorem textBytes?_eq_ok {name : String} {bs : Bytes} (h : textBytes? name = .ok bs) :
    (Bytes.ofText name).length ≤ longestText ∧
      bs = Bytes.bigEndian 2 (Bytes.ofText name).length ++ Bytes.ofText name := by
  by_cases hle : (Bytes.ofText name).length ≤ longestText
  · simp only [textBytes?, if_pos hle, Except.ok.injEq] at h
    exact ⟨hle, h.symm⟩
  · simp [textBytes?, hle] at h

theorem payloadLength?_sceneFile {name : String} {payload : Bytes}
    (h : textBytes? name = .ok payload) (rest : Bytes) :
    Coordinate.sceneFile.payloadLength? (payload ++ rest) = some payload.length := by
  obtain ⟨hle, rfl⟩ := textBytes?_eq_ok h
  have hspan : Bytes.span 2 = 65536 := rfl
  have hlongest : longestText = 65535 := rfl
  have htake : (Bytes.bigEndian 2 (Bytes.ofText name).length ++ Bytes.ofText name ++ rest).take 2 =
      Bytes.bigEndian 2 (Bytes.ofText name).length := by
    rw [List.append_assoc]
    exact List.take_left' (Bytes.length_bigEndian _ _)
  rw [Coordinate.payloadLength?, if_pos rfl, htake, Bytes.ofBigEndian_bigEndian, hspan,
    Nat.mod_eq_of_lt (by omega), List.length_append, Bytes.length_bigEndian]

theorem payloadLength?_distribution {c : Coordinate} (hc : c.holdsDistribution = true)
    (ahead : Bytes) : c.payloadLength? ahead = some 17 := by
  have hmem : c ∈ Coordinate.distributions := by simpa [Coordinate.holdsDistribution] using hc
  have hall : ∀ c ∈ Coordinate.distributions,
      c ≠ .sceneFile ∧ Coordinate.payloadLengths.lookup c = some 17 := by decide
  rw [Coordinate.payloadLength?, if_neg (hall c hmem).1, (hall c hmem).2]

/-- The coordinate of a record tells how long its payload is. -/
theorem payloadLength?_of_form {r : Record} {payload : Bytes} (h : r.PayloadForm payload)
    (rest : Bytes) : r.coordinate.payloadLength? (payload ++ rest) = some payload.length := by
  cases r with
  | geometry g =>
    rcases g with ⟨tag, vs⟩
    obtain ⟨hlen, -, rfl⟩ := h
    rw [Geometry.length_memberBytes _ _ hlen]
    cases tag <;> rfl
  | sceneFile name => exact payloadLength?_sceneFile h rest
  | distribution c d =>
    obtain ⟨hc, rfl⟩ := h
    rw [Distribution.length_toBytes]
    exact payloadLength?_distribution hc _
  | endTime t =>
    obtain ⟨-, rfl⟩ := h
    rfl
  | densityEnabled enabled =>
    obtain ⟨x, rfl, -⟩ := h
    rfl
  | _ =>
    cases h
    rfl

namespace Document

theorem recordLength?_of_coordinate (c : Coordinate) (ahead : Bytes) :
    recordLength? (c.toBytes ++ ahead) = (c.payloadLength? ahead).map (3 + ·) := by
  have hnumber : Bytes.ofBigEndian (Bytes.bigEndian 2 c.element.toNat) = c.element.toNat := by
    rw [Bytes.ofBigEndian_bigEndian]
    exact Nat.mod_eq_of_lt c.element.toNat_lt
  obtain ⟨high, low, hbytes⟩ : ∃ high low, Bytes.bigEndian 2 c.element.toNat = [high, low] :=
    List.length_eq_two.mp (Bytes.length_bigEndian _ _)
  rw [hbytes] at hnumber
  rw [Coordinate.toBytes, hbytes]
  simp only [List.cons_append, List.nil_append, recordLength?, Section.ofCode?_code, hnumber,
    UInt16.ofNat_toNat, Option.bind_some]

theorem recordLength?_of_form {r : Record} {bs : Bytes} (h : r.Form bs) (rest : Bytes) :
    recordLength? (bs ++ rest) = some bs.length := by
  obtain ⟨payload, hp, rfl⟩ := h
  rw [List.append_assoc, recordLength?_of_coordinate, payloadLength?_of_form hp,
    List.length_append, Coordinate.length_toBytes]
  rfl

theorem canonicalRecords_nil : canonicalRecords [] = [] := by
  rw [canonicalRecords]
  split
  · rfl
  · next h => cases h

theorem canonicalRecords_append {r : Record} {bs : Bytes} (h : r.Form bs) (rest : Bytes) :
    canonicalRecords (bs ++ rest) = canonicalRecord bs ++ canonicalRecords rest := by
  have hlen := recordLength?_of_form h rest
  rw [canonicalRecords]
  split
  · next hnone =>
    rw [hlen] at hnone
    cases hnone
  · next n hsome =>
    rw [hlen] at hsome
    cases hsome
    rw [List.take_left, List.drop_left]

theorem canonicalRecords_flatten {rs : List Record} {chunks : List Bytes}
    (h : List.Forall₂ Record.Form rs chunks) :
    canonicalRecords chunks.flatten = (chunks.map canonicalRecord).flatten := by
  induction h with
  | nil => exact canonicalRecords_nil
  | cons hform _ ih =>
    rw [List.flatten_cons, canonicalRecords_append hform, ih, List.map_cons, List.flatten_cons]

end Document

theorem canonicalRecord_of_ne {r : Record} {bs : Bytes} (h : r.Form bs)
    (hne : r.coordinate ≠ .densityEnabled) : Document.canonicalRecord bs = bs := by
  obtain ⟨payload, -, rfl⟩ := h
  rw [Document.canonicalRecord, List.take_left' (Coordinate.length_toBytes _), if_neg]
  intro heq
  exact hne (Coordinate.eq_of_toBytes heq)

theorem canonicalRecord_densityEnabled (x : Byte) :
    Document.canonicalRecord (Coordinate.densityEnabled.toBytes ++ [x]) =
      Coordinate.densityEnabled.toBytes ++ [if x = 0 then 0 else 1] := by
  have hlen := Coordinate.length_toBytes .densityEnabled
  rw [Document.canonicalRecord, List.take_left' hlen, List.drop_left' hlen, if_pos rfl]
  rfl

namespace Record

theorem PayloadForm.written {r : Record} {payload : Bytes} (h : r.PayloadForm payload)
    (hne : r.coordinate ≠ .densityEnabled) : r.Written (r.coordinate.toBytes ++ payload) := by
  cases r with
  | geometry g =>
    obtain ⟨hlen, hfit, rfl⟩ := h
    refine ⟨rfl, ?_⟩
    rw [toEntry, Entry.toBytes?, Geometry.toBytes?, if_pos hlen, hfit]
    rfl
  | sceneFile name =>
    have hname : textBytes? name = .ok payload := h
    refine ⟨rfl, ?_⟩
    rw [toEntry, Entry.toBytes?, hname]
    rfl
  | endTime t =>
    obtain ⟨ht, rfl⟩ := h
    refine ⟨?_, rfl⟩
    rw [toEntry, Entry.record?, if_pos rfl]
    cases t with
    | infinite => rfl
    | finite n =>
      have hn : n ≠ EndTime.sentinel := fun h => ht (congrArg _ h)
      rw [EndTime.toSeconds, EndTime.ofSeconds, if_neg hn]
  | distribution c d =>
    obtain ⟨hc, rfl⟩ := h
    refine ⟨?_, rfl⟩
    rw [toEntry, Entry.record?, if_pos hc]
  | densityEnabled enabled => exact absurd rfl hne
  | _ =>
    cases h
    exact ⟨rfl, rfl⟩

theorem eq_densityEnabled {r : Record} {payload : Bytes} (h : r.PayloadForm payload)
    (hr : r.coordinate = .densityEnabled) : ∃ enabled, r = .densityEnabled enabled := by
  cases r with
  | densityEnabled enabled => exact ⟨enabled, rfl⟩
  | geometry g => exact absurd hr (Cursor.tag_coordinate_ne g.tag (by decide))
  | distribution c d => exact absurd hr (Cursor.distribution_coordinate_ne rfl h)
  | _ => cases hr

theorem Form.written {r : Record} {bs : Bytes} (h : r.Form bs) :
    r.Written (Document.canonicalRecord bs) := by
  by_cases hr : r.coordinate = .densityEnabled
  · obtain ⟨payload, hp, rfl⟩ := h
    obtain ⟨enabled, rfl⟩ := eq_densityEnabled hp hr
    obtain ⟨x, rfl, rfl⟩ := hp
    rw [coordinate, canonicalRecord_densityEnabled]
    refine ⟨rfl, ?_⟩
    by_cases hx : x = 0 <;> simp [toEntry, Entry.toBytes?, hx]
  · rw [canonicalRecord_of_ne h hr]
    obtain ⟨payload, hp, rfl⟩ := h
    exact hp.written hr

theorem Written.canonical {r : Record} {bs : Bytes} (h : r.Written bs) :
    Document.canonicalRecord bs = bs := by
  have h' := h.form.written
  have heq := h'.2.symm.trans h.2
  exact Except.ok.inj heq

end Record

/-! ### Writing a decoded document again -/

namespace Writing

theorem performAll_written {rs : List Record} {chunks : List Bytes}
    (h : List.Forall₂ Record.Written rs chunks) (w : Writer) :
    performAll (rs.map Record.toEntry) w =
      (rs.map fun _ => .ok (), ⟨w.bytes ++ chunks.flatten, w.recordCount + rs.length⟩) := by
  induction h generalizing w with
  | nil => simp [performAll]
  | @cons r bs rs chunks hr _ ih =>
    have hout : outcome r.toEntry w = .ok () := by
      rw [outcome_eq, hr.2]
      rfl
    obtain ⟨bs', hbs', hafter⟩ := after_of_ok hout
    rw [hr.2] at hbs'
    cases hbs'
    rw [List.map_cons, performAll, hout, hafter, ih]
    simp only [List.map_cons, List.flatten_cons, List.length_cons, List.append_assoc]
    rw [Nat.add_assoc, Nat.add_comm 1]

theorem exists_calls {rs : List Record} {chunks : List Bytes}
    (h : List.Forall₂ Record.Written rs chunks) :
    ∃ calls : List Call, calls.map Call.entry = rs.map Record.toEntry := by
  induction h with
  | nil => exact ⟨[], rfl⟩
  | @cons r bs rs chunks hr _ ih =>
    obtain ⟨calls, hcalls⟩ := ih
    refine ⟨⟨r.toEntry, r, hr.1⟩ :: calls, ?_⟩
    rw [List.map_cons, hcalls, List.map_cons]

end Writing

namespace Document

theorem written_of_form {rs : List Record} {chunks : List Bytes}
    (h : List.Forall₂ Record.Form rs chunks) :
    List.Forall₂ Record.Written rs (chunks.map canonicalRecord) := by
  rw [List.forall₂_map_right_iff]
  exact h.imp fun _ _ => Record.Form.written

theorem canonicalRecords_written {rs : List Record} {chunks : List Bytes}
    (h : List.Forall₂ Record.Written rs chunks) :
    canonicalRecords chunks.flatten = chunks.flatten := by
  induction h with
  | nil => exact canonicalRecords_nil
  | cons hr _ ih =>
    rw [List.flatten_cons, canonicalRecords_append hr.form, hr.canonical, ih]

theorem decode_canonical {bs : Bytes} {doc : Document} (h : decode bs = .ok doc) :
    decode (canonical bs) = .ok doc := by
  obtain ⟨chunks, hforms, rfl⟩ := decode_eq_ok_iff.mp h
  refine decode_eq_ok_iff.mpr ⟨chunks.map canonicalRecord, ?_, ?_⟩
  · exact (written_of_form hforms).imp fun _ _ => Record.Written.form
  · rw [canonical, canonicalRecords_flatten hforms]

end Document

namespace Writing

theorem performAll_canonical {bs : Bytes} {doc : Document} (h : Document.decode bs = .ok doc) :
    performAll (doc.records.map Record.toEntry) (Writer.empty.simulation doc.simulation) =
      (doc.records.map fun _ => .ok (), ⟨Document.canonical bs, doc.records.length⟩) := by
  obtain ⟨chunks, hforms, rfl⟩ := Document.decode_eq_ok_iff.mp h
  rw [performAll_written (Document.written_of_form hforms), Document.canonical,
    Document.canonicalRecords_flatten hforms]
  simp [Writer.simulation, Writer.append, Writer.empty]

theorem eq_iff_canonical_eq {bs bs' : Bytes} {doc doc' : Document}
    (h : Document.decode bs = .ok doc) (h' : Document.decode bs' = .ok doc') :
    doc' = doc ↔ Document.canonical bs' = Document.canonical bs := by
  constructor
  · intro heq
    subst heq
    have hw := performAll_canonical h
    rw [performAll_canonical h'] at hw
    exact (Writer.mk.inj (Prod.mk.inj hw).2).1
  · intro heq
    have hd := Document.decode_canonical h
    rw [← heq, Document.decode_canonical h'] at hd
    exact Except.ok.inj hd

theorem exists_written_iff (bs : Bytes) :
    (∃ s calls, (written s calls).2.bytes = bs) ↔
      (∃ doc, Document.decode bs = .ok doc) ∧ Document.canonical bs = bs := by
  constructor
  · intro h
    obtain ⟨s, calls, rfl⟩ := h
    have hholds := holds_written s calls
    refine ⟨⟨_, holds_decode hholds⟩, ?_⟩
    obtain ⟨⟨chunks, hwritten, hbytes⟩, -⟩ := hholds
    rw [hbytes, Document.canonical, Document.canonicalRecords_written hwritten]
  · intro h
    obtain ⟨⟨doc, hdoc⟩, hcanonical⟩ := h
    have hperform := performAll_canonical hdoc
    obtain ⟨chunks, hforms, -⟩ := Document.decode_eq_ok_iff.mp hdoc
    obtain ⟨calls, hcalls⟩ := exists_calls (Document.written_of_form hforms)
    refine ⟨doc.simulation, calls, ?_⟩
    rw [written, hcalls, hperform, hcanonical]

/-- Writing a decoded document again is never refused and gives the bytes it was decoded from, but
for the switches of density maps, which are set to one if they are on. The buffer consists of the
forms of the records, one behind the other; documents differ if canonical forms do; and the canonical
buffers are those that calls can leave behind. -/
theorem performAll_of_decode {bs : Bytes} {doc : Document} (h : Document.decode bs = .ok doc) :
    performAll (doc.records.map Record.toEntry) (Writer.empty.simulation doc.simulation) =
      (doc.records.map fun _ => .ok (), ⟨Document.canonical bs, doc.records.length⟩) ∧
    (∃ chunks : List Bytes, List.Forall₂ Record.Form doc.records chunks ∧
      bs = doc.simulation.code :: chunks.flatten ∧
      Document.canonical bs =
        doc.simulation.code :: (chunks.map Document.canonicalRecord).flatten) ∧
    (∀ bs' doc', Document.decode bs' = .ok doc' →
      (doc' = doc ↔ Document.canonical bs' = Document.canonical bs)) ∧
    ∀ bs', (∃ s calls, (written s calls).2.bytes = bs') ↔
      (∃ doc', Document.decode bs' = .ok doc') ∧ Document.canonical bs' = bs' := by
  refine ⟨performAll_canonical h, ?_, fun bs' doc' => eq_iff_canonical_eq h, exists_written_iff⟩
  obtain ⟨chunks, hforms, rfl⟩ := Document.decode_eq_ok_iff.mp h
  refine ⟨chunks, hforms, rfl, ?_⟩
  rw [Document.canonical, Document.canonicalRecords_flatten hforms]

theorem performAll_of_decode_switch :
    Document.decode [1, 6, 0, 1, 7, 2, 0, 1, 255, 255, 255, 255] =
        .ok ⟨.flow, [.densityEnabled true, .endTime .infinite]⟩ ∧
      performAll [.flag .densityEnabled true, .seconds .endTime EndTime.sentinel]
          (Writer.empty.simulation .flow) =
        ([.ok (), .ok ()], ⟨[1, 6, 0, 1, 1, 2, 0, 1, 255, 255, 255, 255], 2⟩) := by
  have hforms : List.Forall₂ Record.Form [.densityEnabled true, .endTime .infinite]
      [[6, 0, 1, 7], [2, 0, 1, 255, 255, 255, 255]] :=
    .cons ⟨[7], ⟨7, rfl, rfl⟩, rfl⟩ (.cons ⟨_, ⟨nofun, rfl⟩, rfl⟩ .nil)
  have hdecode : Document.decode [1, 6, 0, 1, 7, 2, 0, 1, 255, 255, 255, 255] =
      .ok ⟨.flow, [.densityEnabled true, .endTime .infinite]⟩ :=
    Document.decode_eq_ok_iff.mpr ⟨_, hforms, rfl⟩
  have hcanonical : Document.canonical [1, 6, 0, 1, 7, 2, 0, 1, 255, 255, 255, 255] =
      [1, 6, 0, 1, 1, 2, 0, 1, 255, 255, 255, 255] :=
    congrArg (Simulation.flow.code :: ·) (Document.canonicalRecords_flatten hforms)
  have hperform := (performAll_of_decode hdecode).1
  rw [hcanonical] at hperform
  exact ⟨hdecode, hperform⟩

end Writing
end CrowdScenario
