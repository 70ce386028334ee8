import CrowdScenario.Wire.Record

/-!
# Reading documents (`SPEC_FULL.md`, section 12)

A document is read from front to back by a `Cursor`, which knows how many bytes lie behind it. A
record says itself how long it is, so reading one depends only on the bytes ahead
(`readRecord_shorter`: each one takes at least a byte, hence reading ends).
-/

namespace CrowdScenario

/-- Why bytes are not a document. Offsets count from the start of the document. -/
inductive DecodeError where
  | empty
  | truncated (offset needed : Nat)
  | unknownSimulation (code : Byte)
  | unknownSection (code : Byte) (offset : Nat)
  | unknownElement (c : Coordinate)
  | unknownDistribution (code : Byte) (offset : Nat)
  | invalidText (offset : Nat)
deriving DecidableEq

namespace DecodeError

def message : DecodeError → String
  | empty => "document is empty"
  | truncated offset needed =>
    s!"truncated record at offset {offset}: needed {needed} more bytes"
  | unknownSimulation code => "unknown simulation type code 0x" ++ Bytes.hexPadded 2 code.toNat
  | unknownSection code offset =>
    "unknown section 0x" ++ Bytes.hexPadded 2 code.toNat ++ s!" at offset {offset}"
  | unknownElement c =>
    "unknown element 0x" ++ Bytes.hexPadded 4 c.element.toNat ++ s!" in section {c.owner.title}"
  | unknownDistribution code offset =>
    "unknown distribution code 0x" ++ Bytes.hexPadded 2 code.toNat ++ s!" at offset {offset}"
  | invalidText offset => s!"invalid UTF-8 in text at offset {offset}"

end DecodeError

/-- The bytes ahead and the number of bytes behind. -/
structure Cursor where
  rest : Bytes
  offset : Nat
deriving DecidableEq

abbrev Read (α : Type) := Cursor → Except DecodeError (α × Cursor)

namespace Cursor

def take (n : Nat) : Read Bytes := fun c =>
  let taken := c.rest.take n
  if taken.length < n then .error (.truncated c.offset (n - taken.length))
  else .ok (taken, ⟨c.rest.drop n, c.offset + n⟩)

def map {α β : Type} (f : α → β) (step : Read α) : Read β := fun c =>
  match step c with
  | .ok (a, next) => .ok (f a, next)
  | .error e => .error e

def andThen {α β : Type} (step : Read α) (following : α → Read β) : Read β := fun c =>
  match step c with
  | .ok (a, next) => following a next
  | .error e => .error e

def fail {α : Type} (e : DecodeError) : Read α := fun _ => .error e

/-- A whole number of `n` bytes, most significant first. -/
def number (n : Nat) : Read Nat := map Bytes.ofBigEndian (take n)

def byte : Read Byte := map UInt8.ofNat (number 1)

def float : Read Binary64 := map Binary64.ofBytes (take 8)

def decodeText (offset : Nat) (bs : Bytes) : Read String := fun c =>
  match Bytes.toText? bs with
  | some s => .ok (s, c)
  | none => .error (.invalidText offset)

def text : Read String :=
  andThen (number 2) fun length c => andThen (take length) (decodeText c.offset) c

/-- The numbers of a distribution whose code was read at an offset. -/
def distributionOf (offset : Nat) (code : Byte) : Read Distribution :=
  match DistributionKind.ofCode? code with
  | none => fail (.unknownDistribution code offset)
  | some kind => andThen float fun first => map (Distribution.mk kind first) float

def distribution : Read Distribution := fun start =>
  andThen byte (distributionOf start.offset) start

def members : List MemberWidth → Read (List Int64)
  | [] => fun c => .ok ([], c)
  | w :: ws =>
    andThen (map MemberWidth.ofBytes (take w.byteCount)) fun v => map (v :: ·) (members ws)

/-- The payload of a record at a coordinate without a distribution. -/
def plainPayload (c : Coordinate) : Read Record :=
  if c = .sceneFile then map .sceneFile text
  else if c = .sceneScale then map .sceneScale float
  else if c.owner = .scene then
    match GeometryTag.ofElement? c.element with
    | some tag => map (fun values => .geometry ⟨tag, values⟩) (members tag.layout)
    | none => fail (.unknownElement c)
  else if c = .endTime then map (fun n => .endTime (.ofSeconds (UInt32.ofNat n))) (number 4)
  else if c = .tick then map .tick float
  else if c = .spawnRate then map .spawnRate float
  else if c = .densityEnabled then map (fun b => .densityEnabled (b ≠ 0)) byte
  else if c = .densityMinimum then map .densityMinimum float
  else if c = .densityMaximum then map .densityMaximum float
  else fail (.unknownElement c)

def payload (c : Coordinate) : Read Record :=
  if c.holdsDistribution then map (.distribution c) distribution else plainPayload c

def coordinateOf (offset : Nat) (code : Byte) : Read Coordinate :=
  match Section.ofCode? code with
  | none => fail (.unknownSection code offset)
  | some owner => map (fun n => ⟨owner, UInt16.ofNat n⟩) (number 2)

def coordinate : Read Coordinate := fun start =>
  andThen byte (coordinateOf start.offset) start

def readRecord : Read Record := andThen coordinate payload

/-- The failures that a step finds in what it reads, by the offset that it knows. -/
inductive Blames : (Nat → DecodeError) → Prop
  | unknownSection (code : Byte) : Blames (.unknownSection code)
  | unknownElement (c : Coordinate) : Blames fun _ => .unknownElement c
  | unknownDistribution (code : Byte) : Blames (.unknownDistribution code)
  | invalidText : Blames .invalidText

/-- Steps, which may know an offset, as they are composed: bytes are taken, a value or a failure is the
end, one step follows another, and a step may begin by looking at its offset. What is shown of these by
induction holds of reading a record (`composed_readRecord`). -/
inductive Composed : {α : Type} → (Nat → Read α) → Prop
  | take (n : Nat) : Composed fun _ => take n
  | pure {α : Type} (a : α) : Composed fun _ c => .ok (a, c)
  | fail {α : Type} {e : Nat → DecodeError} (he : Blames e) :
      Composed fun offset => (fail (e offset) : Read α)
  | andThen {α β : Type} {step : Nat → Read α} {following : Nat → α → Read β} (hs : Composed step)
      (hf : ∀ a, Composed fun offset => following offset a) :
      Composed fun offset => andThen (step offset) (following offset)
  | here {α : Type} {step : Nat → Read α} (hs : Composed step) : Composed fun _ c => step c.offset c

theorem map_eq_andThen {α β : Type} (f : α → β) (step : Read α) :
    map f step = andThen step fun a c => .ok (f a, c) := by
  funext c
  unfold map andThen
  cases step c with
  | error e => rfl
  | ok p => rfl

theorem Composed.map {α β : Type} (f : α → β) {step : Nat → Read α} (hs : Composed step) :
    Composed fun offset => map f (step offset) := by
  simp only [map_eq_andThen]
  exact hs.andThen fun a => .pure (f a)

theorem composed_number (n : Nat) : Composed fun _ => number n := (Composed.take n).map _

theorem composed_byte : Composed fun _ => byte := (composed_number 1).map _

theorem composed_float : Composed fun _ => float := (Composed.take 8).map _

theorem composed_decodeText (bs : Bytes) : Composed fun offset => decodeText offset bs := by
  unfold decodeText
  cases Bytes.toText? bs with
  | none => exact .fail .invalidText
  | some s => exact .pure s

theorem composed_text : Composed fun _ => text := by
  refine (composed_number 2).andThen fun length => ?_
  exact ((Composed.take length).andThen composed_decodeText).here

theorem composed_distributionOf (code : Byte) :
    Composed fun offset => distributionOf offset code := by
  unfold distributionOf
  cases DistributionKind.ofCode? code with
  | none => exact .fail (.unknownDistribution code)
  | some kind => exact composed_float.andThen fun first => composed_float.map _

theorem composed_distribution : Composed fun _ => distribution :=
  (composed_byte.andThen composed_distributionOf).here

theorem composed_members (ws : List MemberWidth) : Composed fun _ => members ws := by
  induction ws with
  | nil => exact .pure []
  | cons w ws ih => exact ((Composed.take w.byteCount).map _).andThen fun v => ih.map _

theorem composed_plainPayload (c : Coordinate) : Composed fun _ => plainPayload c := by
  have hunknown : Composed fun _ => (fail (.unknownElement c) : Read Record) :=
    .fail (.unknownElement c)
  unfold plainPayload
  repeat' split
  all_goals
    first
    | exact hunknown
    | exact composed_text.map _
    | exact composed_float.map _
    | exact (composed_members _).map _
    | exact composed_byte.map _
    | exact (composed_number 4).map _

theorem composed_payload (c : Coordinate) : Composed fun _ => payload c := by
  unfold payload
  split
  · exact composed_distribution.map _
  · exact composed_plainPayload c

theorem composed_coordinateOf (code : Byte) : Composed fun offset => coordinateOf offset code := by
  unfold coordinateOf
  cases Section.ofCode? code with
  | none => exact .fail (.unknownSection code)
  | some owner => exact (composed_number 2).map _

theorem composed_coordinate : Composed fun _ => coordinate :=
  (composed_byte.andThen composed_coordinateOf).here

theorem composed_readRecord : Composed fun _ => readRecord :=
  composed_coordinate.andThen composed_payload

theorem map_eq_ok {α β : Type} {f : α → β} {step : Read α} {c next : Cursor} {b : β} :
    map f step c = .ok (b, next) ↔ ∃ a, step c = .ok (a, next) ∧ f a = b := by
  unfold map
  cases step c with
  | error e => simp
  | ok p =>
    rcases p with ⟨a, n⟩
    constructor
    · intro h
      cases h
      exact ⟨a, rfl, rfl⟩
    · rintro ⟨a', h, rfl⟩
      cases h
      rfl

theorem andThen_eq_ok {α β : Type} {step : Read α} {following : α → Read β} {c next : Cursor}
    {b : β} :
    andThen step following c = .ok (b, next) ↔
      ∃ a mid, step c = .ok (a, mid) ∧ following a mid = .ok (b, next) := by
  unfold andThen
  cases step c with
  | error e => simp
  | ok p =>
    rcases p with ⟨a, mid⟩
    constructor
    · intro h
      exact ⟨a, mid, rfl, h⟩
    · rintro ⟨a', mid', h, h'⟩
      cases h
      exact h'

/-- No step goes back. -/
theorem Composed.forward {α : Type} {step : Nat → Read α} (h : Composed step) (offset : Nat)
    {c next : Cursor} {a : α} (hstep : step offset c = .ok (a, next)) :
    next.rest.length ≤ c.rest.length := by
  induction h generalizing offset c next with
  | take n =>
    simp only [Cursor.take] at hstep
    split at hstep
    · cases hstep
    · cases hstep
      simp
  | pure a =>
    cases hstep
    exact Nat.le_refl _
  | fail he => cases hstep
  | andThen _ _ hs hf =>
    obtain ⟨a, mid, ha, hb⟩ := andThen_eq_ok.mp hstep
    exact Nat.le_trans (hf a offset hb) (hs offset ha)
  | here _ hs => exact hs _ hstep

theorem byte_shorter {c next : Cursor} {b : Byte} (h : byte c = .ok (b, next)) :
    next.rest.length < c.rest.length := by
  rcases c with ⟨rest, offset⟩
  cases rest with
  | nil => simp [byte, number, map, take] at h
  | cons x xs =>
    simp [byte, number, map, take] at h
    simp [← h.2]

theorem coordinate_shorter {c next : Cursor} {a : Coordinate}
    (h : coordinate c = .ok (a, next)) : next.rest.length < c.rest.length := by
  obtain ⟨code, mid, hb, hr⟩ := andThen_eq_ok.mp h
  exact Nat.lt_of_le_of_lt ((composed_coordinateOf code).forward _ hr) (byte_shorter hb)

theorem readRecord_shorter {c next : Cursor} {r : Record} (h : readRecord c = .ok (r, next)) :
    next.rest.length < c.rest.length := by
  obtain ⟨a, mid, hc, hp⟩ := andThen_eq_ok.mp h
  exact Nat.lt_of_le_of_lt ((composed_payload a).forward mid.offset hp) (coordinate_shorter hc)

def readRecords (c : Cursor) : Except DecodeError (List Record) :=
  if c.rest = [] then .ok []
  else
    match _h : readRecord c with
    | .error e => .error e
    | .ok (r, next) =>
      match readRecords next with
      | .error e => .error e
      | .ok rs => .ok (r :: rs)
termination_by c.rest.length
decreasing_by exact readRecord_shorter _h

end Cursor

def Document.decode : Bytes → Except DecodeError Document
  | [] => .error .empty
  | code :: rest =>
    match Simulation.ofCode? code with
    | none => .error (.unknownSimulation code)
    | some simulation => (Cursor.readRecords ⟨rest, 1⟩).map (Document.mk simulation)

end CrowdScenario
