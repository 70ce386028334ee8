import CrowdScenario.Wire.Writer

/-!
# Writing a record piece by piece

A record is checked, opened and then filled. The result is the record as a whole behind what was
there before (`perform_record`), or, if a check refuses it, the writer as it was. The checks of a
geometry tuple are read as statements about its members.
-/

namespace CrowdScenario
namespace Writing

@[simp] theorem perform_pure {α : Type} (a : α) (w : Writer) :
    (pure a : Writing α).perform w = (.ok a, w) := rfl

@[simp] theorem perform_throw {α : Type} (e : WireError) (w : Writer) :
    (throw e : Writing α).perform w = (.error e, w) := rfl

@[simp] theorem perform_modify (f : Writer → Writer) (w : Writer) :
    (modify f : Writing Unit).perform w = (.ok (), f w) := rfl

theorem perform_bind_ok {α β : Type} {step : Writing α} {next : α → Writing β} {w after : Writer}
    {a : α} (h : step.perform w = (.ok a, after)) :
    (step >>= next).perform w = (next a).perform after := by
  show StateT.run (ExceptT.run (step >>= next)) w = _
  simp only [ExceptT.run_bind, StateT.run_bind]
  simp only [perform] at h
  rw [h]
  rfl

theorem perform_bind_error {α β : Type} {step : Writing α} {next : α → Writing β}
    {w after : Writer} {e : WireError} (h : step.perform w = (.error e, after)) :
    (step >>= next).perform w = (.error e, after) := by
  show StateT.run (ExceptT.run (step >>= next)) w = _
  simp only [ExceptT.run_bind, StateT.run_bind]
  simp only [perform] at h
  rw [h]
  rfl

@[simp] theorem perform_modify_bind {β : Type} (f : Writer → Writer) (next : Unit → Writing β)
    (w : Writer) : (modify f >>= next).perform w = (next ()).perform (f w) :=
  perform_bind_ok (perform_modify f w)

end Writing

namespace MemberWidth

theorem holds_iff (width : MemberWidth) (v : Int64) :
    width.holds v = true ↔ 0 ≤ v.toInt ∧ v.toInt ≤ width.max := by
  simp [holds]

theorem toNat_toUInt64_of_holds {width : MemberWidth} {v : Int64} (h : width.holds v = true) :
    v.toUInt64.toNat = v.toInt.toNat := by
  have h0 : (0 : Int64) ≤ v := by
    rw [Int64.le_iff_toInt_le]
    exact ((width.holds_iff v).mp h).1
  rw [Int64.toNat_toUInt64_of_le h0]
  rfl

theorem toNat_lt_span_of_holds {width : MemberWidth} {v : Int64} (h : width.holds v = true) :
    v.toInt.toNat < Bytes.span width.byteCount := by
  have h1 := ((width.holds_iff v).mp h).2
  cases width with
  | one =>
    have hs : Bytes.span MemberWidth.one.byteCount = 256 := by decide
    simp only [MemberWidth.max] at h1
    omega
  | two =>
    have hs : Bytes.span MemberWidth.two.byteCount = 65536 := by decide
    simp only [MemberWidth.max] at h1
    omega

end MemberWidth

theorem Writer.member_of_holds {width : MemberWidth} {v : Int64} (h : width.holds v = true)
    (w : Writer) : w.member v width = w.append (width.toBytes v) := by
  have hnat := MemberWidth.toNat_toUInt64_of_holds h
  have hlt := MemberWidth.toNat_lt_span_of_holds h
  cases width with
  | one =>
    have hcut : v.toUInt64.toUInt8 = UInt8.ofNat v.toInt.toNat := by
      apply UInt8.toNat_inj.mp
      rw [UInt64.toNat_toUInt8, hnat, UInt8.toNat_ofNat']
    show w.append [v.toUInt64.toUInt8] = w.append [UInt8.ofNat v.toInt.toNat]
    rw [hcut]
  | two =>
    have hs : Bytes.span MemberWidth.two.byteCount = 65536 := by decide
    have hcut : v.toUInt64.toUInt16.toNat = v.toInt.toNat := by
      rw [UInt64.toNat_toUInt16, hnat]
      omega
    show w.append (Bytes.bigEndian 2 v.toUInt64.toUInt16.toNat)
      = w.append (Bytes.bigEndian 2 v.toInt.toNat)
    rw [hcut]

theorem Writer.members_of_fit {ws : List MemberWidth} {vs : List Int64} {index : Nat}
    (h : firstMisfit? index ws vs = none) (w : Writer) :
    w.members ws vs = w.append (Geometry.memberBytes ws vs) := by
  induction ws generalizing vs index w with
  | nil => simp [Writer.members, Geometry.memberBytes, Writer.append]
  | cons width ws ih =>
    cases vs with
    | nil => simp [Writer.members, Geometry.memberBytes, Writer.append]
    | cons v vs =>
      simp only [firstMisfit?] at h
      split at h
      · next hv =>
        rw [Writer.members, Geometry.memberBytes, Writer.member_of_holds hv, ih h]
        simp [Writer.append, List.append_assoc]
      · cases h

def Geometry.FirstMisfit (ws : List MemberWidth) (vs : List Int64) (i : Nat) (v : Int64)
    (width : MemberWidth) : Prop :=
  vs[i]? = some v ∧ ws[i]? = some width ∧ ¬ (0 ≤ v.toInt ∧ v.toInt ≤ width.max) ∧
    ∀ j < i, ∀ v' width', vs[j]? = some v' → ws[j]? = some width' →
      0 ≤ v'.toInt ∧ v'.toInt ≤ width'.max

theorem Geometry.firstMisfit_cons {width width' : MemberWidth} {v v' : Int64}
    {ws : List MemberWidth} {vs : List Int64} {i : Nat}
    (hv : 0 ≤ v.toInt ∧ v.toInt ≤ width.max) :
    FirstMisfit (width :: ws) (v :: vs) (i + 1) v' width' ↔ FirstMisfit ws vs i v' width' := by
  constructor
  · rintro ⟨h1, h2, h3, h4⟩
    refine ⟨by simpa using h1, by simpa using h2, h3, fun j hj a b ha hb => ?_⟩
    exact h4 (j + 1) (by omega) a b (by simpa using ha) (by simpa using hb)
  · rintro ⟨h1, h2, h3, h4⟩
    refine ⟨by simpa using h1, by simpa using h2, h3, fun j hj a b ha hb => ?_⟩
    cases j with
    | zero =>
      simp only [List.getElem?_cons_zero, Option.some.injEq] at ha hb
      subst ha hb
      exact hv
    | succ j => exact h4 j (by omega) a b (by simpa using ha) (by simpa using hb)

theorem firstMisfit?_eq_some {ws : List MemberWidth} {vs : List Int64} {k i : Nat} {v : Int64}
    {width : MemberWidth} :
    firstMisfit? k ws vs = some (i, v, width) ↔
      k ≤ i ∧ Geometry.FirstMisfit ws vs (i - k) v width := by
  induction ws generalizing vs k with
  | nil => simp [firstMisfit?, Geometry.FirstMisfit]
  | cons width' ws ih =>
    cases vs with
    | nil => simp [firstMisfit?, Geometry.FirstMisfit]
    | cons v' vs =>
      simp only [firstMisfit?]
      split
      · next hv =>
        have hv' := (width'.holds_iff v').mp hv
        -- The first member fits, so the misfit is one further to the right.
        rw [ih]
        constructor
        · rintro ⟨hk, hm⟩
          have hi : i - k = (i - (k + 1)) + 1 := by omega
          exact ⟨by omega, by rw [hi]; exact (Geometry.firstMisfit_cons hv').mpr hm⟩
        · rintro ⟨hk, hm⟩
          have hne : i ≠ k := by
            rintro rfl
            obtain ⟨h1, h2, h3, -⟩ := hm
            simp only [Nat.sub_self, List.getElem?_cons_zero, Option.some.injEq] at h1 h2
            subst h1 h2
            exact h3 hv'
          have hi : i - k = (i - (k + 1)) + 1 := by omega
          rw [hi] at hm
          exact ⟨by omega, (Geometry.firstMisfit_cons hv').mp hm⟩
      · next hv =>
        have hv' : ¬ (0 ≤ v'.toInt ∧ v'.toInt ≤ width'.max) := by
          rwa [← width'.holds_iff v']
        constructor
        · intro h
          cases h
          refine ⟨Nat.le_refl _, ?_⟩
          rw [Nat.sub_self]
          exact ⟨rfl, rfl, hv', fun j hj => absurd hj (Nat.not_lt_zero j)⟩
        · rintro ⟨hk, h1, h2, h3, h4⟩
          have hi : i - k = 0 :=
            Nat.eq_zero_of_not_pos fun hpos => hv' (h4 0 hpos v' width' rfl rfl)
          rw [hi, List.getElem?_cons_zero, Option.some.injEq] at h1 h2
          subst h1 h2
          have hik : k = i := by omega
          rw [hik]

theorem firstMisfit?_eq_none {ws : List MemberWidth} {vs : List Int64} {k : Nat} :
    firstMisfit? k ws vs = none ↔
      ∀ (j : Nat) (v : Int64) (width : MemberWidth), vs[j]? = some v → ws[j]? = some width →
        0 ≤ v.toInt ∧ v.toInt ≤ width.max := by
  induction ws generalizing vs k with
  | nil => simp [firstMisfit?]
  | cons width ws ih =>
    cases vs with
    | nil => simp [firstMisfit?]
    | cons v vs =>
      simp only [firstMisfit?]
      split
      · next hv =>
        have hv' := (width.holds_iff v).mp hv
        rw [ih]
        constructor
        · intro h j a b ha hb
          cases j with
          | zero =>
            simp only [List.getElem?_cons_zero, Option.some.injEq] at ha hb
            subst ha hb
            exact hv'
          | succ j => exact h j a b (by simpa using ha) (by simpa using hb)
        · intro h j a b ha hb
          exact h (j + 1) a b (by simpa using ha) (by simpa using hb)
      · next hv =>
        simp only [reduceCtorEq, false_iff]
        intro h
        exact hv ((width.holds_iff v).mpr (h 0 v width rfl rfl))

namespace Writing

theorem perform_checkText (s : String) (w : Writer) :
    (checkText s).perform w =
      if longestText < (Bytes.ofText s).length then (.error (.textTooLong (Bytes.ofText s).length), w)
      else (.ok (), w) := by
  unfold checkText
  split <;> rfl

theorem perform_checkGeometry (g : Geometry) (w : Writer) :
    (checkGeometry g).perform w = (g.toBytes?.map fun _ => (), w) := by
  unfold checkGeometry Geometry.toBytes?
  split
  · split <;> rfl
  · rfl

theorem perform_text {s : String} (h : (Bytes.ofText s).length ≤ longestText) (w : Writer) :
    (text s).perform w =
      (.ok (), w.append (Bytes.bigEndian 2 (Bytes.ofText s).length ++ Bytes.ofText s)) := by
  have hcheck : (checkText s).perform w = (.ok (), w) := by
    rw [perform_checkText, if_neg (by omega)]
  have hlen : (UInt16.ofNat (Bytes.ofText s).length).toNat = (Bytes.ofText s).length := by
    have hl : longestText = 65535 := rfl
    rw [UInt16.toNat_ofNat_of_lt']
    show (Bytes.ofText s).length < 65536
    omega
  unfold text
  rw [perform_bind_ok hcheck]
  simp [Writer.word16, Writer.append, hlen, List.append_assoc]

/-- A record goes out whole or not at all. -/
theorem perform_record (e : Entry) (w : Writer) :
    (record e).perform w =
      match e.toBytes? with
      | .ok bs => (.ok (), ⟨w.bytes ++ bs, w.recordCount + 1⟩)
      | .error cause => (.error cause, w) := by
  cases e with
  | flag c value => simp [record, Entry.toBytes?, Writer.beginRecord, Writer.byte, Writer.append]
  | float c value => simp [record, Entry.toBytes?, Writer.beginRecord, Writer.float, Writer.append]
  | seconds c value =>
    simp [record, Entry.toBytes?, Writer.beginRecord, Writer.word32, Writer.append]
  | distribution c value =>
    simp [record, Entry.toBytes?, Writer.beginRecord, Writer.byte, Writer.float, Writer.append,
      Distribution.toBytes]
  | text c value =>
    unfold record
    by_cases hlong : longestText < (Bytes.ofText value).length
    · have hcheck := perform_checkText value w
      rw [if_pos hlong] at hcheck
      rw [perform_bind_error hcheck]
      simp [Entry.toBytes?, textBytes?, Nat.not_le.mpr hlong, Except.map]
    · have hcheck := perform_checkText value w
      rw [if_neg hlong] at hcheck
      have hle : (Bytes.ofText value).length ≤ longestText := by omega
      rw [perform_bind_ok hcheck, perform_modify_bind, perform_text hle]
      simp [Entry.toBytes?, textBytes?, hle, Except.map, Writer.beginRecord, Writer.append]
  | geometry value =>
    unfold record
    have hcheck := perform_checkGeometry value w
    cases hb : value.toBytes? with
    | error cause =>
      rw [hb] at hcheck
      rw [perform_bind_error hcheck]
      simp [Entry.toBytes?, hb]
    | ok bs =>
      rw [hb] at hcheck
      rw [perform_bind_ok hcheck, perform_modify_bind, perform_modify]
      unfold Geometry.toBytes? at hb
      split at hb
      · split at hb
        · cases hb
        · next hfit =>
          cases hb
          rw [Writer.members_of_fit hfit]
          simp [Entry.toBytes?, Geometry.toBytes?, *, Writer.beginRecord, Writer.append]
      · cases hb

end Writing

theorem Writer.put_eq (w : Writer) (e : Entry) :
    w.put e = e.toBytes?.map fun bs => ⟨w.bytes ++ bs, w.recordCount + 1⟩ := by
  unfold Writer.put
  rw [Writing.perform_record]
  cases e.toBytes? <;> rfl

end CrowdScenario
