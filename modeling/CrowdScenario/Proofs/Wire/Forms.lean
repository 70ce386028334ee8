import CrowdScenario.Proofs.Wire.Reading
import CrowdScenario.Proofs.Wire.Writing
import Mathlib.Data.List.Forall2

/-!
# Written forms of records and documents

Every record has its written forms: the coordinate, then a payload. Only the switch of the density
map has more than one, since any byte but zero turns it on. The decoder accepts exactly the written
forms of documents (`decode_eq_ok_iff`).
-/

namespace CrowdScenario

namespace Entry

def doubles : List (Coordinate × (Binary64 → Record)) :=
  [(.sceneScale, .sceneScale), (.tick, .tick), (.spawnRate, .spawnRate),
    (.densityMinimum, .densityMinimum), (.densityMaximum, .densityMaximum)]

end Entry

namespace Record

def coordinate : Record → Coordinate
  | geometry g => g.tag.coordinate
  | sceneFile _ => .sceneFile
  | sceneScale _ => .sceneScale
  | endTime _ => .endTime
  | tick _ => .tick
  | spawnRate _ => .spawnRate
  | distribution c _ => c
  | densityEnabled _ => .densityEnabled
  | densityMinimum _ => .densityMinimum
  | densityMaximum _ => .densityMaximum

def PayloadForm : Record → Bytes → Prop
  | geometry g, bs => g.members.length = g.tag.arity ∧
      firstMisfit? 0 g.tag.layout g.members = none ∧ bs = Geometry.memberBytes g.tag.layout g.members
  | sceneFile name, bs => textBytes? name = .ok bs
  | endTime t, bs => t ≠ .finite EndTime.sentinel ∧ bs = Bytes.bigEndian 4 t.toSeconds.toNat
  | distribution c d, bs => c.holdsDistribution = true ∧ bs = d.toBytes
  | densityEnabled enabled, bs => ∃ x : Byte, bs = [x] ∧ decide (x ≠ 0) = enabled
  | sceneScale x, bs => bs = x.toBytes
  | tick x, bs => bs = x.toBytes
  | spawnRate x, bs => bs = x.toBytes
  | densityMinimum x, bs => bs = x.toBytes
  | densityMaximum x, bs => bs = x.toBytes

def Form (r : Record) (bs : Bytes) : Prop :=
  ∃ payload, r.PayloadForm payload ∧ bs = r.coordinate.toBytes ++ payload

end Record

theorem MemberWidth.ofBytes_toBytes {width : MemberWidth} {v : Int64} (h : width.holds v = true) :
    MemberWidth.ofBytes (width.toBytes v) = v := by
  have hlt := MemberWidth.toNat_lt_span_of_holds h
  have h0 := ((width.holds_iff v).mp h).1
  rw [MemberWidth.ofBytes, MemberWidth.toBytes, Bytes.ofBigEndian_bigEndian, Nat.mod_eq_of_lt hlt]
  rw [← Int64.ofInt_eq_ofNat, Int.toNat_of_nonneg h0, Int64.ofInt_toInt]

theorem MemberWidth.toInt_ofBytes {width : MemberWidth} {bs : Bytes}
    (h : bs.length = width.byteCount) :
    (MemberWidth.ofBytes bs).toInt = (Bytes.ofBigEndian bs : Nat) := by
  have hlt := Bytes.ofBigEndian_lt bs
  have hspan : Bytes.span bs.length ≤ 65536 := by
    rw [h]
    cases width <;> decide
  rw [MemberWidth.ofBytes, Int64.toInt_ofNat_of_lt]
  omega

theorem MemberWidth.holds_ofBytes {width : MemberWidth} {bs : Bytes}
    (h : bs.length = width.byteCount) : width.holds (MemberWidth.ofBytes bs) = true := by
  have hlt := Bytes.ofBigEndian_lt bs
  rw [h] at hlt
  rw [width.holds_iff, MemberWidth.toInt_ofBytes h]
  cases width with
  | one =>
    have hs : Bytes.span MemberWidth.one.byteCount = 256 := by decide
    simp only [MemberWidth.max]
    omega
  | two =>
    have hs : Bytes.span MemberWidth.two.byteCount = 65536 := by decide
    simp only [MemberWidth.max]
    omega

namespace Cursor

theorem exact_member (width : MemberWidth) :
    Exact (map MemberWidth.ofBytes (take width.byteCount)) fun v bs =>
      width.holds v = true ∧ bs = width.toBytes v := by
  refine (exact_map (exact_take width.byteCount)).congr fun v bs => ?_
  constructor
  · intro h
    obtain ⟨a, ha, rfl, hlen⟩ := h
    subst ha
    refine ⟨MemberWidth.holds_ofBytes hlen, ?_⟩
    rw [MemberWidth.toBytes, MemberWidth.toInt_ofBytes hlen, Int.toNat_natCast, ← hlen,
      Bytes.bigEndian_ofBigEndian]
  · intro h
    obtain ⟨hv, rfl⟩ := h
    exact ⟨_, MemberWidth.ofBytes_toBytes hv, rfl, Bytes.length_bigEndian _ _⟩

theorem exact_members (ws : List MemberWidth) (index : Nat) :
    Exact (members ws) fun vs bs =>
      vs.length = ws.length ∧ firstMisfit? index ws vs = none ∧
        bs = Geometry.memberBytes ws vs := by
  induction ws generalizing index with
  | nil =>
    refine (exact_pure []).congr fun vs bs => ?_
    constructor
    · intro h
      obtain ⟨rfl, rfl⟩ := h
      exact ⟨rfl, rfl, rfl⟩
    · intro h
      obtain ⟨hlen, -, rfl⟩ := h
      exact ⟨(List.eq_nil_of_length_eq_zero hlen).symm, rfl⟩
  | cons width ws ih =>
    have htail (v : Int64) := exact_map (f := (v :: ·)) (ih (index + 1))
    refine (exact_andThen (exact_member width) htail).congr fun vs bs => ?_
    constructor
    · intro h
      obtain ⟨v, bs1, bs2, rfl, ⟨hv, rfl⟩, vs', rfl, hlen, hfit, rfl⟩ := h
      refine ⟨?_, ?_, rfl⟩
      · rw [List.length_cons, hlen, List.length_cons]
      · rw [firstMisfit?, if_pos hv]
        exact hfit
    · intro h
      obtain ⟨hlen, hfit, rfl⟩ := h
      cases vs with
      | nil => cases hlen
      | cons v vs =>
        simp only [firstMisfit?] at hfit
        split at hfit
        · next hv =>
          exact ⟨v, _, _, rfl, ⟨hv, rfl⟩, vs, rfl, Nat.succ.inj hlen, hfit, rfl⟩
        · cases hfit

/-! ### Payloads -/

theorem exact_endTime :
    Exact (map (fun n => Record.endTime (.ofSeconds (UInt32.ofNat n))) (number 4)) fun r bs =>
      ∃ t, r = .endTime t ∧ t ≠ .finite EndTime.sentinel ∧
        bs = Bytes.bigEndian 4 t.toSeconds.toNat := by
  refine (exact_map (exact_number 4)).congr fun r bs => ?_
  have hspan : Bytes.span 4 = 4294967296 := rfl
  constructor
  · intro h
    obtain ⟨n, rfl, hn, rfl⟩ := h
    have hnat : (UInt32.ofNat n).toNat = n := UInt32.toNat_ofNat_of_lt' (by rwa [hspan] at hn)
    refine ⟨_, rfl, ?_⟩
    unfold EndTime.ofSeconds
    split
    · next hs =>
      rw [EndTime.toSeconds, ← hs, hnat]
      exact ⟨nofun, rfl⟩
    · next hs =>
      rw [EndTime.toSeconds, hnat]
      exact ⟨fun h => hs (EndTime.finite.inj h), rfl⟩
  · intro h
    obtain ⟨t, rfl, ht, rfl⟩ := h
    have hlt := t.toSeconds.toNat_lt
    refine ⟨t.toSeconds.toNat, ?_, by omega, rfl⟩
    rw [UInt32.ofNat_toNat]
    cases t with
    | infinite => rfl
    | finite n =>
      have hn : n ≠ EndTime.sentinel := fun h => ht (congrArg _ h)
      rw [EndTime.toSeconds, EndTime.ofSeconds, if_neg hn]

theorem tag_of_coordinate {t t' : GeometryTag} (h : t.coordinate = t'.coordinate) : t = t' := by
  have ht := GeometryTag.ofElement?_element t
  rw [h, GeometryTag.ofElement?_element t'] at ht
  exact (Option.some.inj ht).symm

theorem exact_geometry {c : Coordinate} {tag : GeometryTag} (h : tag.coordinate = c) :
    Exact (map (fun values => Record.geometry ⟨tag, values⟩) (members tag.layout)) fun r bs =>
      ∃ g : Geometry, r = .geometry g ∧ g.tag.coordinate = c ∧ r.PayloadForm bs := by
  refine (exact_map (exact_members tag.layout 0)).congr fun r bs => ?_
  constructor
  · intro h'
    obtain ⟨vs, rfl, hlen, hfit, rfl⟩ := h'
    exact ⟨⟨tag, vs⟩, rfl, h, hlen, hfit, rfl⟩
  · intro h'
    obtain ⟨⟨tag', vs⟩, rfl, hc, hlen, hfit, rfl⟩ := h'
    have ht : tag' = tag := tag_of_coordinate (hc.trans h.symm)
    subst ht
    exact ⟨vs, rfl, hlen, hfit, rfl⟩

theorem exact_records {α : Type} {step : Read α} {form : α → Bytes → Prop} {c : Coordinate}
    {make : α → Record} (hs : Exact step form) (hmake : ∀ a, (make a).coordinate = c)
    (hform : ∀ a bs, (make a).PayloadForm bs ↔ form a bs)
    (honly : ∀ r bs, r.coordinate = c → r.PayloadForm bs → ∃ a, r = make a) :
    Exact (map make step) fun r bs => r.coordinate = c ∧ r.PayloadForm bs := by
  refine (exact_map hs).congr fun r bs => ?_
  constructor
  · intro h
    obtain ⟨a, rfl, ha⟩ := h
    exact ⟨hmake a, (hform a bs).mpr ha⟩
  · intro h
    obtain ⟨a, rfl⟩ := honly r bs h.1 h.2
    exact ⟨a, rfl, (hform a bs).mp h.2⟩

def singles : List Coordinate :=
  [.sceneFile, .sceneScale, .endTime, .tick, .spawnRate, .densityEnabled, .densityMinimum,
    .densityMaximum]

theorem tag_coordinate_ne (t : GeometryTag) {c : Coordinate} (hc : c ∈ singles) :
    t.coordinate ≠ c := by
  intro h
  rw [← h] at hc
  revert hc
  cases t <;> decide

theorem tag_coordinate_owner (t : GeometryTag) : t.coordinate.owner = .scene := by
  cases t <;> rfl

theorem tag_holdsDistribution (t : GeometryTag) : ¬ t.coordinate.holdsDistribution = true := by
  cases t <;> decide

theorem not_mem_singles_of_scene {c : Coordinate} (hfile : c ≠ .sceneFile)
    (hscale : c ≠ .sceneScale) (howner : c.owner = .scene) : c ∉ singles := by
  intro h
  have hother : ∀ c' ∈ singles, c'.owner = .scene → c' = .sceneFile ∨ c' = .sceneScale := by decide
  rcases hother c h howner with h | h
  · exact hfile h
  · exact hscale h

theorem distribution_coordinate_ne {c c' : Coordinate} {d : Distribution} {bs : Bytes}
    (hc : c.holdsDistribution = false) (h : (Record.distribution c' d).PayloadForm bs) :
    c' ≠ c := by
  intro heq
  have hp : c'.holdsDistribution = true := h.1
  rw [heq, hc] at hp
  cases hp

theorem eq_geometry_of_coordinate {r : Record} {bs : Bytes}
    (hd : r.coordinate.holdsDistribution = false) (hs : r.coordinate ∉ singles)
    (hp : r.PayloadForm bs) : ∃ g, r = .geometry g := by
  cases r with
  | geometry g => exact ⟨g, rfl⟩
  | distribution c d => exact absurd rfl (distribution_coordinate_ne hd hp)
  | _ => exact absurd (by simp [Record.coordinate, singles]) hs

def isSingle : Record → Bool
  | .geometry _ => false
  | .distribution _ _ => false
  | _ => true

theorem isSingle_of_coordinate {r : Record} {bs : Bytes} (hc : r.coordinate ∈ singles)
    (hp : r.PayloadForm bs) : isSingle r = true := by
  cases r with
  | geometry g => exact absurd rfl (tag_coordinate_ne g.tag hc)
  | distribution c d =>
    have hsingles : ∀ c ∈ singles, c.holdsDistribution = false := by decide
    exact absurd rfl (distribution_coordinate_ne (hsingles c hc) hp)
  | _ => rfl

theorem exact_double {c : Coordinate} {make : Binary64 → Record} (h : (c, make) ∈ Entry.doubles) :
    Exact (map make float) fun r bs => r.coordinate = c ∧ r.PayloadForm bs := by
  simp only [Entry.doubles, List.mem_cons, Prod.mk.injEq, List.not_mem_nil, or_false] at h
  rcases h with ⟨rfl, rfl⟩ | ⟨rfl, rfl⟩ | ⟨rfl, rfl⟩ | ⟨rfl, rfl⟩ | ⟨rfl, rfl⟩
  all_goals
    refine exact_records exact_float (fun _ => rfl) (fun _ _ => Iff.rfl) fun r bs hr hp => ?_
    have hsingle := isSingle_of_coordinate (by rw [hr]; decide) hp
    cases r with
    | geometry g => cases hsingle
    | distribution c d => cases hsingle
    | _ => first | exact ⟨_, rfl⟩ | cases hr

theorem exact_sceneFile :
    Exact (map Record.sceneFile text) fun r bs =>
      r.coordinate = .sceneFile ∧ r.PayloadForm bs := by
  refine exact_records exact_text (fun _ => rfl) (fun _ _ => Iff.rfl) fun r bs hr hp => ?_
  have hsingle := isSingle_of_coordinate (by rw [hr]; decide) hp
  cases r with
  | sceneFile s => exact ⟨s, rfl⟩
  | geometry g => cases hsingle
  | distribution c d => cases hsingle
  | _ => cases hr

theorem exact_end :
    Exact (map (fun n => Record.endTime (.ofSeconds (UInt32.ofNat n))) (number 4)) fun r bs =>
      r.coordinate = .endTime ∧ r.PayloadForm bs := by
  refine exact_endTime.congr fun r bs => ?_
  constructor
  · intro h
    obtain ⟨t, rfl, hp⟩ := h
    exact ⟨rfl, hp⟩
  · intro h
    obtain ⟨hr, hp⟩ := h
    have hsingle := isSingle_of_coordinate (by rw [hr]; decide) hp
    cases r with
    | endTime t => exact ⟨t, rfl, hp⟩
    | geometry g => cases hsingle
    | distribution c d => cases hsingle
    | _ => cases hr

theorem exact_switch :
    Exact (map (fun b : Byte => Record.densityEnabled (b ≠ 0)) byte) fun r bs =>
      r.coordinate = .densityEnabled ∧ r.PayloadForm bs := by
  refine (exact_map exact_byte).congr fun r bs => ?_
  constructor
  · intro h
    obtain ⟨b, rfl, rfl⟩ := h
    exact ⟨rfl, b, rfl, rfl⟩
  · intro h
    obtain ⟨hr, hp⟩ := h
    have hsingle := isSingle_of_coordinate (by rw [hr]; decide) hp
    cases r with
    | densityEnabled enabled =>
      -- The byte is not determined by the record: any but zero turns the switch on.
      obtain ⟨b, rfl, hb⟩ := hp
      exact ⟨b, congrArg Record.densityEnabled hb, rfl⟩
    | geometry g => cases hsingle
    | distribution c d => cases hsingle
    | _ => cases hr

theorem exact_plainPayload (c : Coordinate) (hc : c.holdsDistribution = false) :
    Exact (plainPayload c) fun r bs => r.coordinate = c ∧ r.PayloadForm bs := by
  unfold plainPayload
  repeat' split
  · next h =>
    subst h
    exact exact_sceneFile
  · next h =>
    subst h
    exact exact_double (by simp [Entry.doubles])
  · next hfile hscale howner _ tag htag =>
    have htc : tag.coordinate = c := by
      rw [GeometryTag.coordinate_of_ofElement? htag, ← howner]
    refine (exact_geometry htc).congr fun r bs => ?_
    constructor
    · intro h
      obtain ⟨g, rfl, hg, hp⟩ := h
      exact ⟨hg, hp⟩
    · intro h
      obtain ⟨rfl, hp⟩ := h
      obtain ⟨g, rfl⟩ :=
        eq_geometry_of_coordinate hc (not_mem_singles_of_scene hfile hscale howner) hp
      exact ⟨g, rfl, rfl, hp⟩
  -- An element of the scene without a tag belongs to no record.
  · next hfile hscale howner _ hnone =>
    refine (exact_fail _).congr fun r bs => ⟨False.elim, ?_⟩
    intro h
    obtain ⟨rfl, hp⟩ := h
    obtain ⟨g, rfl⟩ :=
      eq_geometry_of_coordinate hc (not_mem_singles_of_scene hfile hscale howner) hp
    rw [Record.coordinate, GeometryTag.ofElement?_element] at hnone
    cases hnone
  · next h =>
    subst h
    exact exact_end
  · next h =>
    subst h
    exact exact_double (by simp [Entry.doubles])
  · next h =>
    subst h
    exact exact_double (by simp [Entry.doubles])
  · next h =>
    subst h
    exact exact_switch
  · next h =>
    subst h
    exact exact_double (by simp [Entry.doubles])
  · next h =>
    subst h
    exact exact_double (by simp [Entry.doubles])
  · next hfile hscale howner hend htick hrate henabled hmin hmax =>
    refine (exact_fail _).congr fun r bs => ⟨False.elim, ?_⟩
    intro h
    obtain ⟨rfl, hp⟩ := h
    have hs : r.coordinate ∉ singles := by
      simp [singles, hfile, hscale, hend, htick, hrate, henabled, hmin, hmax]
    obtain ⟨g, rfl⟩ := eq_geometry_of_coordinate hc hs hp
    exact howner (tag_coordinate_owner g.tag)

theorem exact_payload (c : Coordinate) :
    Exact (payload c) fun r bs => r.coordinate = c ∧ r.PayloadForm bs := by
  unfold payload
  split
  · next hc =>
    refine exact_records exact_distribution (fun _ => rfl) (fun d bs => ?_) fun r bs hr hp => ?_
    · exact ⟨And.right, fun h => ⟨hc, h⟩⟩
    · cases r with
      | distribution c' d =>
        have hcc : c' = c := hr
        subst hcc
        exact ⟨d, rfl⟩
      | geometry g =>
        rw [← hr] at hc
        exact absurd hc (tag_holdsDistribution g.tag)
      | _ =>
        rw [← hr] at hc
        cases hc
  · next hc => exact exact_plainPayload c (Bool.eq_false_iff.mpr hc)

/-! ### Records -/

theorem exact_coordinateOf (offset : Nat) (code : Byte) :
    Exact (coordinateOf offset code) fun c bs =>
      code = c.owner.code ∧ bs = Bytes.bigEndian 2 c.element.toNat := by
  have hspan : Bytes.span 2 = 65536 := rfl
  unfold coordinateOf
  cases hs : Section.ofCode? code with
  | none =>
    refine (exact_fail _).congr fun c bs => ⟨False.elim, ?_⟩
    intro h
    obtain ⟨rfl, -⟩ := h
    rw [Section.ofCode?_code] at hs
    cases hs
  | some owner =>
    have hcode := Section.code_of_ofCode? hs
    refine (exact_map (exact_number 2)).congr fun c bs => ?_
    constructor
    · intro h
      obtain ⟨n, rfl, hn, rfl⟩ := h
      have hnat : (UInt16.ofNat n).toNat = n := UInt16.toNat_ofNat_of_lt' (by rwa [hspan] at hn)
      exact ⟨hcode.symm, by rw [hnat]⟩
    · intro h
      obtain ⟨rfl, rfl⟩ := h
      rw [Section.ofCode?_code] at hs
      cases hs
      exact ⟨c.element.toNat, by rw [UInt16.ofNat_toNat], c.element.toNat_lt, rfl⟩

theorem exact_coordinate : Exact coordinate fun c bs => bs = c.toBytes := by
  refine (exact_here fun offset => exact_andThen exact_byte (exact_coordinateOf offset)).congr
    fun c bs => ?_
  constructor
  · intro h
    obtain ⟨code, bs1, bs2, rfl, rfl, rfl, rfl⟩ := h
    rfl
  · intro h
    subst h
    exact ⟨c.owner.code, [c.owner.code], _, rfl, rfl, rfl, rfl⟩

theorem exact_readRecord : Exact readRecord Record.Form := by
  refine (exact_andThen exact_coordinate exact_payload).congr fun r bs => ?_
  constructor
  · intro h
    obtain ⟨c, bs1, payload, rfl, rfl, rfl, hp⟩ := h
    exact ⟨payload, hp, rfl⟩
  · intro h
    obtain ⟨payload, hp, rfl⟩ := h
    exact ⟨r.coordinate, _, payload, rfl, rfl, rfl, hp⟩

end Cursor

namespace Cursor

theorem readRecords_eq_nil {c : Cursor} : readRecords c = .ok [] ↔ c.rest = [] := by
  rw [readRecords]
  split
  · next h => simp [h]
  · next h =>
    simp only [h, iff_false]
    split
    · simp
    · split
      · simp
      · simp

theorem readRecords_eq_cons {c : Cursor} {r : Record} {rs : List Record} :
    readRecords c = .ok (r :: rs) ↔
      ∃ next, readRecord c = .ok (r, next) ∧ readRecords next = .ok rs := by
  rw [readRecords]
  constructor
  · intro h
    split at h
    · cases h
    · split at h
      · cases h
      · next r' next hr =>
        split at h
        · cases h
        · next rs' hrs =>
          cases h
          exact ⟨next, hr, hrs⟩
  · intro h
    obtain ⟨next, hr, hrs⟩ := h
    have hne : c.rest ≠ [] := by
      intro hnil
      have hlt := readRecord_shorter hr
      rw [hnil] at hlt
      exact Nat.not_lt_zero _ hlt
    rw [if_neg hne]
    split
    · next e he =>
      rw [hr] at he
      cases he
    · next r' next' hr' =>
      rw [hr] at hr'
      cases hr'
      rw [hrs]

/-- The bytes ahead are the written forms of the records, one behind the other. -/
theorem readRecords_eq_ok_iff {c : Cursor} {rs : List Record} :
    readRecords c = .ok rs ↔
      ∃ chunks : List Bytes, List.Forall₂ Record.Form rs chunks ∧ c.rest = chunks.flatten := by
  induction rs generalizing c with
  | nil =>
    rw [readRecords_eq_nil]
    constructor
    · intro h
      exact ⟨[], .nil, h⟩
    · intro h
      obtain ⟨chunks, hforms, hrest⟩ := h
      cases hforms
      exact hrest
  | cons r rs ih =>
    rw [readRecords_eq_cons]
    constructor
    · intro h
      obtain ⟨next, hr, hrs⟩ := h
      obtain ⟨bs, hform, htook⟩ := (exact_readRecord c r next).mp hr
      obtain ⟨chunks, hforms, hrest⟩ := ih.mp hrs
      refine ⟨bs :: chunks, .cons hform hforms, ?_⟩
      rw [htook.rest, hrest, List.flatten_cons]
    · intro h
      obtain ⟨chunks, hforms, hrest⟩ := h
      cases hforms with
      | cons hform hforms =>
        next bs chunks =>
        have htook : Took c ⟨chunks.flatten, c.offset + bs.length⟩ bs :=
          ⟨by rw [hrest, List.flatten_cons], rfl⟩
        exact ⟨_, (exact_readRecord c r _).mpr ⟨bs, hform, htook⟩, ih.mpr ⟨chunks, hforms, rfl⟩⟩

end Cursor

/-- The decoder accepts exactly the written forms of documents. -/
theorem Document.decode_eq_ok_iff {bs : Bytes} {doc : Document} :
    Document.decode bs = .ok doc ↔
      ∃ chunks : List Bytes, List.Forall₂ Record.Form doc.records chunks ∧
        bs = doc.simulation.code :: chunks.flatten := by
  cases bs with
  | nil => simp [decode]
  | cons code rest =>
    rw [decode]
    constructor
    · intro h
      split at h
      · cases h
      · next simulation hs =>
        cases hr : Cursor.readRecords ⟨rest, 1⟩ with
        | error e =>
          rw [hr] at h
          cases h
        | ok rs =>
          rw [hr] at h
          cases h
          obtain ⟨chunks, hforms, hrest⟩ := Cursor.readRecords_eq_ok_iff.mp hr
          refine ⟨chunks, hforms, ?_⟩
          rw [← hrest, Simulation.code_of_ofCode? hs]
    · intro h
      obtain ⟨chunks, hforms, heq⟩ := h
      cases heq
      have hr : Cursor.readRecords ⟨chunks.flatten, 1⟩ = .ok doc.records :=
        Cursor.readRecords_eq_ok_iff.mpr ⟨chunks, hforms, rfl⟩
      rw [Simulation.ofCode?_code, hr]
      rfl

end CrowdScenario
