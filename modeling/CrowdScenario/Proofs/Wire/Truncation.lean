import CrowdScenario.Proofs.Wire.Continuation

/-!
# Documents that break off

A reader that runs out of bytes says where it stands and how many it misses. More bytes change
nothing but this number until there are enough of them, and then reading gets past that place
(`Streams`). So the beginning of a document is a shorter document or breaks off, and what it misses
is there in the whole (`decode_breaks_off`).
-/

namespace CrowdScenario

/-- A failure that has another reason than missing bytes. -/
def DecodeError.Lasting (e : DecodeError) : Prop := ∀ offset needed, e ≠ truncated offset needed

namespace Cursor

def extended (x : Bytes) (c : Cursor) : Cursor := ⟨c.rest ++ x, c.offset⟩

def size (c : Cursor) : Nat := c.offset + c.rest.length

structure Streams {α : Type} (step : Read α) : Prop where
  place : ∀ {c a next}, step c = .ok (a, next) → c.offset ≤ next.offset ∧ next.size = c.size
  bounds : ∀ {c offset needed}, step c = .error (.truncated offset needed) →
    c.offset ≤ offset ∧ offset ≤ c.size ∧ 1 ≤ needed
  goes : ∀ {c a next}, step c = .ok (a, next) →
    ∀ x, step (c.extended x) = .ok (a, next.extended x)
  fails : ∀ {c e}, step c = .error e → e.Lasting → ∀ x, step (c.extended x) = .error e
  short : ∀ {c offset needed x}, step c = .error (.truncated offset needed) → x.length < needed →
    step (c.extended x) = .error (.truncated offset (needed - x.length))
  passes : ∀ {c offset needed x}, step c = .error (.truncated offset needed) → needed ≤ x.length →
    ∀ {a next}, step (c.extended x) = .ok (a, next) → offset < next.offset
  later : ∀ {c offset needed x}, step c = .error (.truncated offset needed) → needed ≤ x.length →
    ∀ {offset' needed'}, step (c.extended x) = .error (.truncated offset' needed') →
      offset < offset'

theorem take_of_length_lt {n : Nat} {c : Cursor} (h : c.rest.length < n) :
    take n c = .error (.truncated c.offset (n - c.rest.length)) := by
  have hall : c.rest.take n = c.rest := List.take_of_length_le (Nat.le_of_lt h)
  simp only [take, hall]
  rw [if_pos h]

theorem take_of_le_length {n : Nat} {c : Cursor} (h : n ≤ c.rest.length) :
    take n c = .ok (c.rest.take n, ⟨c.rest.drop n, c.offset + n⟩) := by
  have hlength : (c.rest.take n).length = n := List.length_take_of_le h
  simp only [take, hlength]
  rw [if_neg (Nat.lt_irrefl n)]

theorem take_eq_ok {n : Nat} {c next : Cursor} {bs : Bytes} (h : take n c = .ok (bs, next)) :
    n ≤ c.rest.length ∧ bs = c.rest.take n ∧ next = ⟨c.rest.drop n, c.offset + n⟩ := by
  by_cases hle : n ≤ c.rest.length
  · rw [take_of_le_length hle] at h
    cases h
    exact ⟨hle, rfl, rfl⟩
  · rw [take_of_length_lt (Nat.not_le.mp hle)] at h
    cases h

theorem take_eq_error {n : Nat} {c : Cursor} {e : DecodeError} (h : take n c = .error e) :
    c.rest.length < n ∧ e = .truncated c.offset (n - c.rest.length) := by
  by_cases hle : n ≤ c.rest.length
  · rw [take_of_le_length hle] at h
    cases h
  · rw [take_of_length_lt (Nat.not_le.mp hle)] at h
    cases h
    exact ⟨Nat.not_le.mp hle, rfl⟩

theorem length_extended (x : Bytes) (c : Cursor) :
    (c.extended x).rest.length = c.rest.length + x.length := List.length_append

theorem streams_take (n : Nat) : Streams (take n) where
  place h := by
    obtain ⟨hle, -, rfl⟩ := take_eq_ok h
    constructor
    · exact Nat.le_add_right _ _
    · simp only [size, List.length_drop]
      omega
  bounds h := by
    obtain ⟨hlt, he⟩ := take_eq_error h
    cases he
    simp only [size]
    omega
  goes {c a next} h x := by
    obtain ⟨hle, rfl, rfl⟩ := take_eq_ok h
    have hmore : n ≤ (c.extended x).rest.length := by
      rw [length_extended]
      omega
    rw [take_of_le_length hmore]
    simp only [extended, List.take_append_of_le_length hle, List.drop_append_of_le_length hle]
  fails h hlasting x := absurd (take_eq_error h).2 (hlasting _ _)
  short {c offset needed x} h hx := by
    obtain ⟨hlt, he⟩ := take_eq_error h
    cases he
    have hstill : (c.extended x).rest.length < n := by
      rw [length_extended]
      omega
    rw [take_of_length_lt hstill, length_extended, Nat.sub_add_eq]
    rfl
  passes {c offset needed x} h _ a next hok := by
    obtain ⟨hlt, he⟩ := take_eq_error h
    cases he
    obtain ⟨-, -, rfl⟩ := take_eq_ok hok
    show c.offset < c.offset + n
    omega
  later {c offset needed x} h hx offset' needed' herror := by
    obtain ⟨hlt, he⟩ := take_eq_error h
    cases he
    have hstill := (take_eq_error herror).1
    rw [length_extended] at hstill
    omega

theorem streams_pure {α : Type} (a : α) : Streams fun c => .ok (a, c) where
  place h := by
    cases h
    exact ⟨Nat.le_refl _, rfl⟩
  bounds h := nomatch h
  goes h x := by
    cases h
    rfl
  fails h := nomatch h
  short h := nomatch h
  passes h := nomatch h
  later h := nomatch h

theorem streams_fail {α : Type} {e : DecodeError} (he : e.Lasting) :
    Streams (fail e : Read α) where
  place h := nomatch h
  bounds h := by
    cases h
    exact absurd rfl (he _ _)
  goes h := nomatch h
  fails h _ _ := h
  short h := by
    cases h
    exact absurd rfl (he _ _)
  passes h := by
    cases h
    exact absurd rfl (he _ _)
  later h := by
    cases h
    exact absurd rfl (he _ _)

theorem andThen_of_ok {α β : Type} {step : Read α} {following : α → Read β} {c next : Cursor}
    {a : α} (h : step c = .ok (a, next)) : andThen step following c = following a next := by
  simp only [andThen, h]

theorem andThen_of_error {α β : Type} {step : Read α} {following : α → Read β} {c : Cursor}
    {e : DecodeError} (h : step c = .error e) : andThen step following c = .error e := by
  simp only [andThen, h]

theorem andThen_eq_error {α β : Type} {step : Read α} {following : α → Read β} {c : Cursor}
    {e : DecodeError} (h : andThen step following c = .error e) :
    step c = .error e ∨ ∃ a mid, step c = .ok (a, mid) ∧ following a mid = .error e := by
  cases hs : step c with
  | error e' =>
    rw [andThen_of_error hs] at h
    cases h
    exact .inl rfl
  | ok p =>
    rw [andThen_of_ok hs] at h
    exact .inr ⟨p.1, p.2, rfl, h⟩

theorem Streams.andThen {α β : Type} {step : Read α} {following : α → Read β} (hs : Streams step)
    (hf : ∀ a, Streams (following a)) : Streams (andThen step following) where
  place h := by
    obtain ⟨a, mid, ha, hb⟩ := andThen_eq_ok.mp h
    obtain ⟨hle, hsize⟩ := hs.place ha
    obtain ⟨hle', hsize'⟩ := (hf a).place hb
    exact ⟨Nat.le_trans hle hle', hsize'.trans hsize⟩
  bounds h := by
    obtain h | ⟨a, mid, ha, hb⟩ := andThen_eq_error h
    · exact hs.bounds h
    · obtain ⟨hle, hsize⟩ := hs.place ha
      obtain ⟨hlow, hhigh, hneeded⟩ := (hf a).bounds hb
      rw [hsize] at hhigh
      exact ⟨Nat.le_trans hle hlow, hhigh, hneeded⟩
  goes h x := by
    obtain ⟨a, mid, ha, hb⟩ := andThen_eq_ok.mp h
    rw [andThen_of_ok (hs.goes ha x)]
    exact (hf a).goes hb x
  fails h hlasting x := by
    obtain h | ⟨a, mid, ha, hb⟩ := andThen_eq_error h
    · exact andThen_of_error (hs.fails h hlasting x)
    · rw [andThen_of_ok (hs.goes ha x)]
      exact (hf a).fails hb hlasting x
  short {c offset needed x} h hx := by
    obtain h | ⟨a, mid, ha, hb⟩ := andThen_eq_error h
    · exact andThen_of_error (hs.short h hx)
    · rw [andThen_of_ok (hs.goes ha x)]
      exact (hf a).short hb hx
  passes {c offset needed x} h hx b next hok := by
    obtain h | ⟨a, mid, ha, hb⟩ := andThen_eq_error h
    · obtain ⟨a, mid, ha, hb⟩ := andThen_eq_ok.mp hok
      exact Nat.lt_of_lt_of_le (hs.passes h hx ha) ((hf a).place hb).1
    · rw [andThen_of_ok (hs.goes ha x)] at hok
      exact (hf a).passes hb hx hok
  later {c offset needed x} h hx offset' needed' herror := by
    obtain h | ⟨a, mid, ha, hb⟩ := andThen_eq_error h
    · obtain herror | ⟨a, mid, ha, hb⟩ := andThen_eq_error herror
      · exact hs.later h hx herror
      · exact Nat.lt_of_lt_of_le (hs.passes h hx ha) ((hf a).bounds hb).1
    · rw [andThen_of_ok (hs.goes ha x)] at herror
      exact (hf a).later hb hx herror

theorem streams_here {α : Type} {step : Nat → Read α} (hs : ∀ offset, Streams (step offset)) :
    Streams fun c => step c.offset c where
  place h := (hs _).place h
  bounds h := (hs _).bounds h
  goes h := (hs _).goes h
  fails h := (hs _).fails h
  short h := (hs _).short h
  passes h := (hs _).passes h
  later h := (hs _).later h

theorem Blames.lasting {e : Nat → DecodeError} (h : Blames e) (offset : Nat) :
    (e offset).Lasting := by
  cases h <;> exact nofun

theorem Composed.streams {α : Type} {step : Nat → Read α} (h : Composed step) (offset : Nat) :
    Streams (step offset) := by
  induction h generalizing offset with
  | take n => exact streams_take n
  | pure a => exact streams_pure a
  | fail he => exact streams_fail (he.lasting offset)
  | andThen _ _ hs hf => exact (hs offset).andThen fun a => hf a offset
  | here _ hs => exact streams_here hs

theorem streams_readRecord : Streams readRecord := composed_readRecord.streams 0

/-- Records, and then one that cannot be read. -/
inductive Stuck (e : DecodeError) : Cursor → Prop where
  | here {c} (ahead : c.rest ≠ []) (fails : readRecord c = .error e) : Stuck e c
  | behind {c r next} (reads : readRecord c = .ok (r, next)) (stuck : Stuck e next) : Stuck e c

theorem readRecords_of_stuck {c : Cursor} {e : DecodeError} (h : Stuck e c) :
    readRecords c = .error e := by
  induction h with
  | here ahead fails => exact readRecords_of_error ahead fails
  | behind reads _ ih =>
    rw [readRecords_of_ok reads, ih]
    rfl

theorem stuck_of_readRecords {c : Cursor} {e : DecodeError} (h : readRecords c = .error e) :
    Stuck e c := by
  -- The induction is on the bytes ahead, which every record makes fewer.
  induction hn : c.rest.length using Nat.strongRecOn generalizing c with
  | _ size ih =>
    have hne : c.rest ≠ [] := by
      intro hnil
      rw [readRecords_of_nil hnil] at h
      cases h
    cases hr : readRecord c with
    | error e' =>
      rw [readRecords_of_error hne hr] at h
      cases h
      exact .here hne hr
    | ok p =>
      have hshorter := readRecord_shorter hr
      rw [hn] at hshorter
      rw [readRecords_of_ok hr] at h
      cases hrest : readRecords p.2 with
      | ok rs =>
        rw [hrest] at h
        cases h
      | error e' =>
        rw [hrest] at h
        cases h
        exact .behind hr (ih _ hshorter hrest rfl)

theorem extended_rest_ne_nil {c : Cursor} (hne : c.rest ≠ []) (x : Bytes) :
    (c.extended x).rest ≠ [] := by
  simp [extended, hne]

namespace Stuck

variable {c : Cursor} {x : Bytes} {offset needed : Nat}

theorem bounds (h : Stuck (.truncated offset needed) c) :
    c.offset ≤ offset ∧ offset ≤ c.size ∧ 1 ≤ needed := by
  induction h with
  | here _ fails => exact streams_readRecord.bounds fails
  | behind reads _ ih =>
    obtain ⟨hle, hsize⟩ := streams_readRecord.place reads
    obtain ⟨hlow, hhigh, hneeded⟩ := ih
    rw [hsize] at hhigh
    exact ⟨Nat.le_trans hle hlow, hhigh, hneeded⟩

theorem lasting {e : DecodeError} (h : Stuck e c) (he : e.Lasting) (x : Bytes) :
    Stuck e (c.extended x) := by
  induction h with
  | here ahead fails =>
    exact .here (extended_rest_ne_nil ahead x) (streams_readRecord.fails fails he x)
  | behind reads _ ih => exact .behind (streams_readRecord.goes reads x) ih

theorem short (h : Stuck (.truncated offset needed) c) (hx : x.length < needed) :
    Stuck (.truncated offset (needed - x.length)) (c.extended x) := by
  induction h with
  | here ahead fails =>
    exact .here (extended_rest_ne_nil ahead x) (streams_readRecord.short fails hx)
  | behind reads _ ih => exact .behind (streams_readRecord.goes reads x) ih

/-- With the bytes it missed, a record is read or misses bytes further on. -/
theorem later {offset' needed' : Nat} (h : Stuck (.truncated offset needed) c)
    (hx : needed ≤ x.length) (hmore : Stuck (.truncated offset' needed') (c.extended x)) :
    offset < offset' := by
  induction h with
  | here ahead fails =>
    cases hmore with
    | here _ fails' => exact streams_readRecord.later fails hx fails'
    | behind reads stuck =>
      exact Nat.lt_of_lt_of_le (streams_readRecord.passes fails hx reads) stuck.bounds.1
  | behind reads _ ih =>
    have hreads := streams_readRecord.goes reads x
    cases hmore with
    | here _ fails' =>
      rw [hreads] at fails'
      cases fails'
    | behind reads' stuck =>
      rw [hreads] at reads'
      cases reads'
      exact ih stuck

end Stuck

/-- In front of bytes that let it be read in the end, a sequence breaks off. -/
theorem truncated_of_stuck {c : Cursor} {x : Bytes} {e : DecodeError} {rs : List Record}
    (h : Stuck e c) (hwhole : readRecords (c.extended x) = .ok rs) :
    ∃ offset needed, e = .truncated offset needed ∧ needed ≤ x.length := by
  have hread : ∀ e', ¬ Stuck e' (c.extended x) := by
    intro e' hstuck
    rw [readRecords_of_stuck hstuck] at hwhole
    cases hwhole
  by_cases hlasting : e.Lasting
  · exact absurd (h.lasting hlasting x) (hread e)
  · simp only [DecodeError.Lasting, not_forall, not_not] at hlasting
    obtain ⟨offset, needed, rfl⟩ := hlasting
    refine ⟨offset, needed, rfl, Nat.not_lt.mp fun hlt => ?_⟩
    exact hread _ (h.short hlt)

theorem prefix_of_readRecords_extended {c : Cursor} {x : Bytes} {part rs : List Record}
    (hpart : readRecords c = .ok part) (hwhole : readRecords (c.extended x) = .ok rs)
    (hx : x ≠ []) : part <+: rs ∧ part ≠ rs := by
  rw [extended, readRecords_append hpart x] at hwhole
  cases hrest : readRecords ⟨x, c.offset + c.rest.length⟩ with
  | error e =>
    rw [hrest] at hwhole
    cases hwhole
  | ok more =>
    rw [hrest] at hwhole
    cases hwhole
    refine ⟨List.prefix_append part more, fun hsame => hx ?_⟩
    have hnone : more = [] := List.self_eq_append_right.mp hsame
    rw [hnone] at hrest
    exact readRecords_eq_nil.mp hrest

end Cursor

/-! ### Documents -/

namespace Document

variable {b e : Bytes} {doc : Document} {code : Byte} {rest : Bytes} {offset needed : Nat}

theorem decode_cons_eq_ok : decode (code :: rest) = .ok doc ↔
    Simulation.ofCode? code = some doc.simulation ∧
      Cursor.readRecords ⟨rest, 1⟩ = .ok doc.records := by
  rw [decode]
  cases Simulation.ofCode? code with
  | none => simp
  | some s =>
    cases Cursor.readRecords ⟨rest, 1⟩ with
    | error e => simp [Except.map]
    | ok rs =>
      constructor
      · intro h
        cases h
        exact ⟨rfl, rfl⟩
      · rintro ⟨hs, hrs⟩
        cases hs
        cases hrs
        rfl

theorem decode_cons_eq_error {s : Simulation} {e : DecodeError}
    (hs : Simulation.ofCode? code = some s) :
    decode (code :: rest) = .error e ↔ Cursor.Stuck e ⟨rest, 1⟩ := by
  simp only [decode, hs]
  constructor
  · intro h
    apply Cursor.stuck_of_readRecords
    cases hrest : Cursor.readRecords ⟨rest, 1⟩ with
    | ok rs =>
      rw [hrest] at h
      cases h
    | error e' =>
      rw [hrest] at h
      cases h
      rfl
  · intro h
    rw [Cursor.readRecords_of_stuck h]
    rfl

theorem stuck_of_decode_truncated (h : decode b = .error (.truncated offset needed)) :
    ∃ code rest s, b = code :: rest ∧ Simulation.ofCode? code = some s ∧
      Cursor.Stuck (.truncated offset needed) ⟨rest, 1⟩ := by
  cases b with
  | nil => cases h
  | cons code rest =>
    cases hs : Simulation.ofCode? code with
    | none =>
      simp only [decode, hs] at h
      cases h
    | some s => exact ⟨code, rest, s, rfl, hs, (decode_cons_eq_error hs).mp h⟩

theorem decode_extended (h : decode b = .error (.truncated offset needed)) :
    (e.length < needed → decode (b ++ e) = .error (.truncated offset (needed - e.length))) ∧
      (needed ≤ e.length → ∀ needed', decode (b ++ e) ≠ .error (.truncated offset needed')) := by
  obtain ⟨code, rest, s, rfl, hs, hstuck⟩ := stuck_of_decode_truncated h
  rw [List.cons_append]
  constructor
  · intro hshort
    exact (decode_cons_eq_error hs).mpr (hstuck.short hshort)
  · intro henough needed' hagain
    have hlater := hstuck.later henough ((decode_cons_eq_error hs).mp hagain)
    exact Nat.lt_irrefl _ hlater

theorem decode_cut {n : Nat} (h : decode b = .ok doc) (hpos : 1 ≤ n) (hn : n < b.length) :
    (∃ rs, decode (b.take n) = .ok ⟨doc.simulation, rs⟩ ∧ rs <+: doc.records ∧ rs ≠ doc.records) ∨
      ∃ offset needed, decode (b.take n) = .error (.truncated offset needed) ∧
        offset ≤ n ∧ 1 ≤ needed ∧ n + needed ≤ b.length := by
  obtain ⟨m, rfl⟩ : ∃ m, n = m + 1 := ⟨n - 1, by omega⟩
  cases b with
  | nil => cases h
  | cons code rest =>
    obtain ⟨hs, hwhole⟩ := decode_cons_eq_ok.mp h
    rw [List.length_cons] at hn
    have hm : (rest.take m).length = m := List.length_take_of_le (by omega)
    have hcut : Cursor.extended (rest.drop m) ⟨rest.take m, 1⟩ = ⟨rest, 1⟩ := by
      rw [Cursor.extended, List.take_append_drop]
    rw [← hcut] at hwhole
    rw [List.take_succ_cons]
    cases hpart : Cursor.readRecords ⟨rest.take m, 1⟩ with
    | ok rs =>
      have hne : rest.drop m ≠ [] := by
        rw [Ne, List.drop_eq_nil_iff]
        omega
      have hprefix := Cursor.prefix_of_readRecords_extended hpart hwhole hne
      exact .inl ⟨rs, decode_cons_eq_ok.mpr ⟨hs, hpart⟩, hprefix⟩
    | error e =>
      have hstuck := Cursor.stuck_of_readRecords hpart
      obtain ⟨offset, needed, rfl, hneeded⟩ := Cursor.truncated_of_stuck hstuck hwhole
      obtain ⟨-, hoffset, hpositive⟩ := hstuck.bounds
      refine .inr ⟨offset, needed, (decode_cons_eq_error hs).mpr hstuck, ?_, hpositive, ?_⟩
      · simp only [Cursor.size, hm] at hoffset
        omega
      · rw [List.length_drop] at hneeded
        rw [List.length_cons]
        omega

/-- The beginning of a document is a document with fewer records, or misses bytes that the whole
has. More bytes lower the number that is missing, and enough of them lead past that place. -/
theorem decode_breaks_off :
    (∀ (b : Bytes) (doc : Document) (n : Nat), decode b = .ok doc → 1 ≤ n → n < b.length →
      (∃ rs, decode (b.take n) = .ok ⟨doc.simulation, rs⟩ ∧ rs <+: doc.records ∧
        rs ≠ doc.records) ∨
      ∃ offset needed, decode (b.take n) = .error (.truncated offset needed) ∧
        offset ≤ n ∧ 1 ≤ needed ∧ n + needed ≤ b.length) ∧
    ∀ (b e : Bytes) (offset needed : Nat), decode b = .error (.truncated offset needed) →
      (e.length < needed → decode (b ++ e) = .error (.truncated offset (needed - e.length))) ∧
      (needed ≤ e.length → ∀ needed', decode (b ++ e) ≠ .error (.truncated offset needed')) :=
  ⟨fun _ _ _ h hpos hn => decode_cut h hpos hn, fun _ _ _ _ h => decode_extended h⟩

/-- A rate in front of a scene with the name `hé`. -/
def named : Bytes := [2, 3, 0, 1, 0, 0, 0, 0, 0, 0, 240, 63, 1, 0, 255, 0, 3, 104, 195, 169]

theorem decode_breaks_off_named :
    decode named = .ok ⟨.escape, [.spawnRate ⟨0x3FF0000000000000⟩, .sceneFile "hé"]⟩ ∧
      ((∃ rs, decode (named.take 18) = .ok ⟨.escape, rs⟩ ∧
          rs <+: [.spawnRate ⟨0x3FF0000000000000⟩, .sceneFile "hé"] ∧
          rs ≠ [.spawnRate ⟨0x3FF0000000000000⟩, .sceneFile "hé"]) ∨
        ∃ offset needed, decode (named.take 18) = .error (.truncated offset needed) ∧
          offset ≤ 18 ∧ 1 ≤ needed ∧ 18 + needed ≤ 20) ∧
      decode (named.take 18) = .error (.truncated 17 2) ∧
      decode (named.take 18 ++ [195]) = .error (.truncated 17 1) ∧
      ∀ needed, decode (named.take 18 ++ [195, 169]) ≠ .error (.truncated 17 needed) := by
  have hwhole : decode named =
      .ok ⟨.escape, [.spawnRate ⟨0x3FF0000000000000⟩, .sceneFile "hé"]⟩ := by
    cbv
  have hcut : decode (named.take 18) = .error (.truncated 17 2) := by
    cbv
  obtain ⟨hbegins, hgoes⟩ := decode_breaks_off
  refine ⟨hwhole, hbegins named _ 18 hwhole (by decide) (by decide), hcut, ?_, ?_⟩
  · exact (hgoes _ [195] _ _ hcut).1 (by decide)
  · exact (hgoes _ [195, 169] _ _ hcut).2 (by decide)

end Document

end CrowdScenario
