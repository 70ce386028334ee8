import CrowdScenario.Proofs.Wire.Progress

/-!
# Reading by positions

A cursor holds the bytes that are ahead. This file reads a document as a machine does that has all of
its bytes and an offset into them: it counts the bytes from the offset to the end and cuts a piece out
of them, and either goes astray where the offset is behind the end. The machine comes to an end with
what `Document.decode` gives, and never goes astray (`decode_within_bounds`).
-/

namespace CrowdScenario

/-- What is read, take by take: a value or a failure in the end, and before that a number of bytes,
with what is to be done with them and with the offset they were at. -/
inductive Script (α : Type) where
  | done (a : α)
  | fail (e : DecodeError)
  | take (n : Nat) (next : Nat → Bytes → Script α)

namespace Script

variable {α β : Type}

def andThen : Script α → (α → Script β) → Script β
  | done a, following => following a
  | fail e, _ => fail e
  | take n next, following => take n fun offset bs => (next offset bs).andThen following

def map (f : α → β) (s : Script α) : Script β := s.andThen fun a => done (f a)

/-- What a cursor reads by a script. -/
def read : Script α → Read α
  | done a => fun c => .ok (a, c)
  | fail e => Cursor.fail e
  | take n next => fun c => Cursor.andThen (Cursor.take n) (fun bs => (next c.offset bs).read) c

theorem read_andThen (s : Script α) (following : α → Script β) :
    (s.andThen following).read = Cursor.andThen s.read fun a => (following a).read := by
  induction s with
  | done a => rfl
  | fail e => rfl
  | take n next ih =>
    funext c
    simp only [andThen, read, ih, Cursor.andThen]
    cases Cursor.take n c with
    | error e => rfl
    | ok p => rfl

theorem read_map (f : α → β) (s : Script α) : (s.map f).read = Cursor.map f s.read := by
  rw [map, read_andThen, Cursor.map_eq_andThen]
  rfl

def number (n : Nat) : Script Nat := take n fun _ bs => done (Bytes.ofBigEndian bs)

def byte : Script Byte := (number 1).map UInt8.ofNat

def float : Script Binary64 := take 8 fun _ bs => done (Binary64.ofBytes bs)

def code (next : Nat → Byte → Script α) : Script α :=
  take 1 fun offset bs => next offset (UInt8.ofNat (Bytes.ofBigEndian bs))

def decodeText (offset : Nat) (bs : Bytes) : Script String :=
  match Bytes.toText? bs with
  | some s => done s
  | none => fail (.invalidText offset)

def text : Script String := (number 2).andThen fun length => take length decodeText

def distributionOf (offset : Nat) (c : Byte) : Script Distribution :=
  match DistributionKind.ofCode? c with
  | none => fail (.unknownDistribution c offset)
  | some kind => float.andThen fun first => float.map (Distribution.mk kind first)

def distribution : Script Distribution := code distributionOf

def member (w : MemberWidth) : Script Int64 :=
  take w.byteCount fun _ bs => done (MemberWidth.ofBytes bs)

def members : List MemberWidth → Script (List Int64)
  | [] => done []
  | w :: ws => (member w).andThen fun v => (members ws).map (v :: ·)

def plainPayload (c : Coordinate) : Script Record :=
  if c = .sceneFile then text.map .sceneFile
  else if c = .sceneScale then float.map .sceneScale
  else if c.owner = .scene then
    match GeometryTag.ofElement? c.element with
    | some tag => (members tag.layout).map fun values => .geometry ⟨tag, values⟩
    | none => fail (.unknownElement c)
  else if c = .endTime then (number 4).map fun n => .endTime (.ofSeconds (UInt32.ofNat n))
  else if c = .tick then float.map .tick
  else if c = .spawnRate then float.map .spawnRate
  else if c = .densityEnabled then byte.map fun b => .densityEnabled (b ≠ 0)
  else if c = .densityMinimum then float.map .densityMinimum
  else if c = .densityMaximum then float.map .densityMaximum
  else fail (.unknownElement c)

def payload (c : Coordinate) : Script Record :=
  if c.holdsDistribution then distribution.map (.distribution c) else plainPayload c

def coordinateOf (offset : Nat) (c : Byte) : Script Coordinate :=
  match Section.ofCode? c with
  | none => fail (.unknownSection c offset)
  | some owner => (number 2).map fun n => ⟨owner, UInt16.ofNat n⟩

def record : Script Record := (code coordinateOf).andThen payload

def kindOf (c : Byte) : Script Simulation :=
  match Simulation.ofCode? c with
  | none => fail (.unknownSimulation c)
  | some kind => done kind

def simulation : Script Simulation := code fun _ c => kindOf c

theorem read_number (n : Nat) : (number n).read = Cursor.number n := by
  rw [Cursor.number, Cursor.map_eq_andThen]
  rfl

theorem read_byte : byte.read = Cursor.byte := by
  rw [byte, read_map, read_number, Cursor.byte]

theorem read_float : float.read = Cursor.float := by
  rw [Cursor.float, Cursor.map_eq_andThen]
  rfl

theorem read_code {next : Nat → Byte → Script α} {step : Nat → Byte → Read α}
    (h : ∀ offset c, (next offset c).read = step offset c) :
    (code next).read = fun start => Cursor.andThen Cursor.byte (step start.offset) start := by
  funext start
  simp only [code, read, h, Cursor.byte, Cursor.number, Cursor.andThen, Cursor.map]
  cases Cursor.take 1 start with
  | error e => rfl
  | ok p => rfl

theorem read_decodeText (offset : Nat) (bs : Bytes) :
    (decodeText offset bs).read = Cursor.decodeText offset bs := by
  funext c
  unfold decodeText Cursor.decodeText
  cases Bytes.toText? bs with
  | none => rfl
  | some s => rfl

theorem read_text : text.read = Cursor.text := by
  rw [text, read_andThen, read_number, Cursor.text]
  simp only [read, read_decodeText]

theorem read_distributionOf (offset : Nat) (c : Byte) :
    (distributionOf offset c).read = Cursor.distributionOf offset c := by
  unfold distributionOf Cursor.distributionOf
  cases DistributionKind.ofCode? c with
  | none => rfl
  | some kind => simp only [read_andThen, read_map, read_float]

theorem read_distribution : distribution.read = Cursor.distribution :=
  read_code read_distributionOf

theorem read_member (w : MemberWidth) :
    (member w).read = Cursor.map MemberWidth.ofBytes (Cursor.take w.byteCount) := by
  rw [Cursor.map_eq_andThen]
  rfl

theorem read_members (ws : List MemberWidth) : (members ws).read = Cursor.members ws := by
  induction ws with
  | nil => rfl
  | cons w ws ih =>
    rw [members, read_andThen, read_member, Cursor.members]
    simp only [read_map, ih]

theorem read_plainPayload (c : Coordinate) : (plainPayload c).read = Cursor.plainPayload c := by
  unfold plainPayload Cursor.plainPayload
  cases GeometryTag.ofElement? c.element with
  | none =>
    simp only [apply_ite read, read_map, read_text, read_float, read_number, read_byte, read]
  | some tag =>
    simp only [apply_ite read, read_map, read_text, read_float, read_members, read_number, read_byte,
      read]

theorem read_payload (c : Coordinate) : (payload c).read = Cursor.payload c := by
  unfold payload Cursor.payload
  split
  · rw [read_map, read_distribution]
  · exact read_plainPayload c

theorem read_coordinateOf (offset : Nat) (c : Byte) :
    (coordinateOf offset c).read = Cursor.coordinateOf offset c := by
  unfold coordinateOf Cursor.coordinateOf
  cases Section.ofCode? c with
  | none => rfl
  | some owner => rw [read_map, read_number]

theorem read_record : record.read = Cursor.readRecord := by
  rw [record, read_andThen, read_code read_coordinateOf, Cursor.readRecord]
  simp only [read_payload]
  rfl

end Script

/-! ### Bytes by their places -/

/-- The number of bytes behind an offset, if the offset is not behind the end. -/
def left? (b : Bytes) (offset : Nat) : Option Nat :=
  if offset ≤ b.length then some (b.length - offset) else none

/-- The bytes from one place to another, if there are such places. -/
def slice? (b : Bytes) (first last : Nat) : Option Bytes :=
  if first ≤ last ∧ last ≤ b.length then some ((b.take last).drop first) else none

inductive Taken where
  | bytes (bs : Bytes)
  | missing (needed : Nat)
  /-- A place was asked for that is not among the bytes. -/
  | astray

def taken (b : Bytes) (offset n : Nat) : Taken :=
  match left? b offset with
  | none => .astray
  | some left =>
    if left < n then .missing (n - left)
    else
      match slice? b offset (offset + n) with
      | none => .astray
      | some bs => .bytes bs

def Cursor.at (b : Bytes) (offset : Nat) : Cursor := ⟨b.drop offset, offset⟩

section
variable {b bs : Bytes} {offset n : Nat} {next : Cursor} {e : DecodeError}

theorem taken_of_take_ok (hoffset : offset ≤ b.length)
    (h : Cursor.take n (.at b offset) = .ok (bs, next)) :
    taken b offset n = .bytes bs ∧ next = .at b (offset + n) ∧ offset + n ≤ b.length := by
  obtain ⟨hle, rfl, rfl⟩ := Cursor.take_eq_ok h
  simp only [Cursor.at, List.length_drop] at hle
  have hlast : offset + n ≤ b.length := by omega
  refine ⟨?_, ?_, hlast⟩
  · have hslice : (b.take (offset + n)).drop offset = (b.drop offset).take n := by
      rw [List.drop_take, Nat.add_sub_cancel_left]
    simp only [taken, left?, if_pos hoffset, slice?, hslice]
    rw [if_neg (Nat.not_lt.mpr hle), if_pos ⟨Nat.le_add_right _ _, hlast⟩]
    rfl
  · rw [Cursor.at, Cursor.at, List.drop_drop]

theorem taken_of_take_error (hoffset : offset ≤ b.length)
    (h : Cursor.take n (.at b offset) = .error e) :
    ∃ needed, taken b offset n = .missing needed ∧ e = .truncated offset needed := by
  obtain ⟨hlt, rfl⟩ := Cursor.take_eq_error h
  simp only [Cursor.at, List.length_drop] at hlt ⊢
  refine ⟨_, ?_, rfl⟩
  simp only [taken, left?, if_pos hoffset, if_pos hlt]

theorem taken_ne_astray (hoffset : offset ≤ b.length) : taken b offset n ≠ .astray := by
  cases h : Cursor.take n (.at b offset) with
  | error e =>
    obtain ⟨needed, htaken, -⟩ := taken_of_take_error hoffset h
    rw [htaken]
    nofun
  | ok p =>
    rw [(taken_of_take_ok hoffset h).1]
    nofun

theorem le_length_of_taken (hoffset : offset ≤ b.length) (h : taken b offset n = .bytes bs) :
    offset + n ≤ b.length := by
  cases htake : Cursor.take n (.at b offset) with
  | error e =>
    obtain ⟨needed, htaken, -⟩ := taken_of_take_error hoffset htake
    rw [htaken] at h
    cases h
  | ok p => exact (taken_of_take_ok hoffset htake).2.2

end

inductive Phase where
  | opening
  | simulation (s : Script Simulation)
  /-- To look for a record, with those that were read. -/
  | between (d : Document)
  | record (d : Document) (s : Script Record)

structure Decoding where
  offset : Nat
  phase : Phase

namespace Decoding

inductive Move where
  | go (s : Decoding)
  | halt (result : Except DecodeError Document)
  | astray

section
variable {α : Type}

/-- The next step of a script, which goes on or is done. -/
def follow (b : Bytes) (offset : Nat) (busy : Script α → Phase) (done : α → Phase) :
    Script α → Move
  | .done a => .go ⟨offset, done a⟩
  | .fail e => .halt (.error e)
  | .take n next =>
    match taken b offset n with
    | .bytes bs => .go ⟨offset + n, busy (next offset bs)⟩
    | .missing needed => .halt (.error (.truncated offset needed))
    | .astray => .astray

end

def extend (d : Document) (r : Record) : Document := ⟨d.simulation, d.records ++ [r]⟩

def move (b : Bytes) : Decoding → Move
  | ⟨offset, .opening⟩ =>
    if b = [] then .halt (.error .empty) else .go ⟨offset, .simulation .simulation⟩
  | ⟨offset, .simulation s⟩ => follow b offset .simulation (fun kind => .between ⟨kind, []⟩) s
  | ⟨offset, .between d⟩ =>
    if b.length ≤ offset then .halt (.ok d) else .go ⟨offset, .record d .record⟩
  | ⟨offset, .record d s⟩ => follow b offset (.record d) (fun r => .between (extend d r)) s

def start : Decoding := ⟨0, .opening⟩

inductive Reaches (b : Bytes) : Decoding → Decoding → Prop
  | stay (s : Decoding) : Reaches b s s
  | go {s s' s'' : Decoding} (next : s.move b = .go s') (rest : Reaches b s' s'') : Reaches b s s''

def Ends (b : Bytes) (s : Decoding) (result : Except DecodeError Document) : Prop :=
  ∃ s', Reaches b s s' ∧ s'.move b = .halt result

variable {b : Bytes} {s s' s'' : Decoding} {result : Except DecodeError Document}

theorem Reaches.trans (h : Reaches b s s') (h' : Reaches b s' s'') : Reaches b s s'' := by
  induction h with
  | stay s => exact h'
  | go next _ ih => exact .go next (ih h')

theorem Reaches.ends (h : Reaches b s s') (h' : Ends b s' result) : Ends b s result := by
  obtain ⟨last, hlast, hhalt⟩ := h'
  exact ⟨last, h.trans hlast, hhalt⟩

theorem ends_of_halt (h : s.move b = .halt result) : Ends b s result := ⟨s, .stay s, h⟩

/-- A state is not behind the end, and so is not what comes next. -/
structure Safe (b : Bytes) (offset : Nat) (m : Move) : Prop where
  stays : m ≠ .astray
  forward : ∀ s, m = .go s → offset ≤ s.offset ∧ s.offset ≤ b.length

theorem safe_halt (b : Bytes) (offset : Nat) (result : Except DecodeError Document) :
    Safe b offset (.halt result) := ⟨nofun, nofun⟩

theorem safe_go {b : Bytes} {offset : Nat} {s : Decoding} (hforward : offset ≤ s.offset)
    (hbound : s.offset ≤ b.length) : Safe b offset (.go s) := by
  refine ⟨nofun, fun s' h => ?_⟩
  cases h
  exact ⟨hforward, hbound⟩

theorem safe_follow {α : Type} {b : Bytes} {offset : Nat} (hoffset : offset ≤ b.length)
    (busy : Script α → Phase) (done : α → Phase) (script : Script α) :
    Safe b offset (follow b offset busy done script) := by
  cases script with
  | done a => exact safe_go (Nat.le_refl _) hoffset
  | fail e => exact safe_halt b offset _
  | take n next =>
    rw [follow]
    cases htaken : taken b offset n with
    | bytes bs => exact safe_go (Nat.le_add_right _ _) (le_length_of_taken hoffset htaken)
    | missing needed => exact safe_halt b offset _
    | astray => exact absurd htaken (taken_ne_astray hoffset)

theorem safe_move (hs : s.offset ≤ b.length) : Safe b s.offset (s.move b) := by
  rcases s with ⟨offset, phase⟩
  cases phase with
  | opening =>
    rw [move]
    split
    · exact safe_halt b offset _
    · exact safe_go (Nat.le_refl _) hs
  | simulation script => exact safe_follow hs _ _ script
  | between d =>
    rw [move]
    split
    · exact safe_halt b offset _
    · exact safe_go (Nat.le_refl _) hs
  | record d script => exact safe_follow hs _ _ script

theorem Reaches.offset_le (h : Reaches b s s') (hs : s.offset ≤ b.length) :
    s'.offset ≤ b.length := by
  induction h with
  | stay s => exact hs
  | go next _ ih => exact ih ((safe_move hs).forward _ next).2

/-! ### The machine ends as the decoder does -/

/-- While a script is followed the machine reads what a cursor reads. -/
theorem follows_script {α : Type} {b : Bytes} (busy : Script α → Phase) (done : α → Phase)
    (hmove : ∀ offset script, move b ⟨offset, busy script⟩ = follow b offset busy done script)
    (script : Script α) {offset : Nat} (hoffset : offset ≤ b.length) :
    (∀ a next, script.read (.at b offset) = .ok (a, next) →
      Reaches b ⟨offset, busy script⟩ ⟨next.offset, done a⟩ ∧ next = .at b next.offset ∧
        next.offset ≤ b.length) ∧
      ∀ e, script.read (.at b offset) = .error e → Ends b ⟨offset, busy script⟩ (.error e) := by
  -- On the script, whatever the offset is by then: each take leaves a script that is shorter.
  induction script generalizing offset with
  | done a =>
    refine ⟨fun a' next h => ?_, nofun⟩
    cases h
    exact ⟨.go (hmove _ _) (.stay _), rfl, hoffset⟩
  | fail e =>
    refine ⟨nofun, fun e' h => ?_⟩
    cases h
    exact ends_of_halt (hmove _ _)
  | take n next ih =>
    have hstep := hmove offset (.take n next)
    rw [follow] at hstep
    cases htake : Cursor.take n (.at b offset) with
    | error e =>
      obtain ⟨needed, htaken, rfl⟩ := taken_of_take_error hoffset htake
      have hread : (Script.take n next).read (.at b offset) = .error (.truncated offset needed) :=
        Cursor.andThen_of_error htake
      rw [htaken] at hstep
      rw [hread]
      refine ⟨nofun, fun e' h => ?_⟩
      cases h
      exact ends_of_halt hstep
    | ok p =>
      obtain ⟨htaken, hnext, hbound⟩ := taken_of_take_ok hoffset htake
      have hread : (Script.take n next).read (.at b offset) = (next offset p.1).read p.2 :=
        Cursor.andThen_of_ok htake
      rw [htaken] at hstep
      rw [hread, hnext]
      obtain ⟨hreads, hfails⟩ := ih offset p.1 hbound
      refine ⟨fun a last h => ?_, fun e h => ?_⟩
      · obtain ⟨hreaches, hlast⟩ := hreads a last h
        exact ⟨.go hstep hreaches, hlast⟩
      · exact Reaches.ends (.go hstep (.stay _)) (hfails e h)

/-- The document with the records that are ahead. -/
def complete (d : Document) (rs : List Record) : Document := ⟨d.simulation, d.records ++ rs⟩

theorem ends_between (d : Document) {offset : Nat} (hoffset : offset ≤ b.length) :
    Ends b ⟨offset, .between d⟩ ((Cursor.readRecords (.at b offset)).map (complete d)) := by
  -- On the bytes ahead, which every record makes fewer. The document has what was read by then.
  induction hn : b.length - offset using Nat.strongRecOn generalizing offset d with
  | _ size ih =>
    by_cases hend : b.length ≤ offset
    · have hnil : (Cursor.at b offset).rest = [] := List.drop_of_length_le hend
      have hhalt : move b ⟨offset, .between d⟩ = .halt (.ok d) := by
        rw [move, if_pos hend]
      have hd : complete d [] = d := by
        rw [complete, List.append_nil]
      rw [Cursor.readRecords_of_nil hnil]
      show Ends b _ (.ok (complete d []))
      rw [hd]
      exact ends_of_halt hhalt
    · have hne : (Cursor.at b offset).rest ≠ [] := by
        rw [Cursor.at, Ne, List.drop_eq_nil_iff]
        exact hend
      have hgo : move b ⟨offset, .between d⟩ = .go ⟨offset, .record d .record⟩ := by
        rw [move, if_neg hend]
      obtain ⟨hreads, hfails⟩ := follows_script (.record d) (fun r => .between (extend d r))
        (fun _ _ => rfl) .record hoffset
      rw [Script.read_record] at hreads hfails
      cases hr : Cursor.readRecord (.at b offset) with
      | error e =>
        rw [Cursor.readRecords_of_error hne hr]
        exact Reaches.ends (.go hgo (.stay _)) (hfails e hr)
      | ok p =>
        obtain ⟨hreaches, hnext, hbound⟩ := hreads p.1 p.2 hr
        have hadvances : offset + 4 ≤ p.2.offset := Cursor.readRecord_advances hr
        have hrest := ih (b.length - p.2.offset) (by omega) (extend d p.1) hbound rfl
        rw [← hnext] at hrest
        rw [Cursor.readRecords_of_ok hr]
        refine Reaches.ends (.go hgo hreaches) ?_
        cases htail : Cursor.readRecords p.2 with
        | error e =>
          rw [htail] at hrest
          exact hrest
        | ok rs =>
          rw [htail] at hrest
          have hd : complete (extend d p.1) rs = complete d (p.1 :: rs) := by
            simp only [complete, extend, List.append_assoc, List.singleton_append]
          show Ends b _ (.ok (complete d (p.1 :: rs)))
          rw [← hd]
          exact hrest

theorem read_simulation_cons (c : Byte) (rest : Bytes) :
    Script.simulation.read (.at (c :: rest) 0) =
      (Script.kindOf c).read (.at (c :: rest) 1) := by
  have hbyte : Cursor.byte (.at (c :: rest) 0) = .ok (c, .at (c :: rest) 1) :=
    (Cursor.exact_byte _ c _).mpr ⟨[c], rfl, rfl, rfl⟩
  rw [Script.simulation, Script.read_code fun _ _ => rfl]
  exact Cursor.andThen_of_ok hbyte

theorem ends_start (b : Bytes) : Ends b start (Document.decode b) := by
  cases b with
  | nil => exact ends_of_halt rfl
  | cons c rest =>
    have hgo : move (c :: rest) start = .go ⟨0, .simulation .simulation⟩ := rfl
    obtain ⟨hreads, hfails⟩ := follows_script (b := c :: rest) .simulation
      (fun kind => .between ⟨kind, []⟩) (fun _ _ => rfl) .simulation (Nat.zero_le _)
    have hread := read_simulation_cons c rest
    rw [Script.kindOf] at hread
    cases hs : Simulation.ofCode? c with
    | none =>
      rw [hs] at hread
      rw [Document.decode, hs]
      exact Reaches.ends (.go hgo (.stay _)) (hfails _ hread)
    | some kind =>
      rw [hs] at hread
      obtain ⟨hreaches, -, hbound⟩ := hreads _ _ hread
      rw [Document.decode, hs]
      exact Reaches.ends (.go hgo hreaches) (ends_between ⟨kind, []⟩ hbound)

/-- A reading from the start ends, with what `Document.decode` gives. On its way no place behind the
end of the bytes is asked for. A record moves the offset by four or more, so there are few of them. A
place that a failure tells of is among the bytes, and what is before the record that fails is a document
of its own. -/
theorem decode_within_bounds (b : Bytes) :
    Ends b start (Document.decode b) ∧
    (∀ s, Reaches b start s → s.offset ≤ b.length ∧ s.move b ≠ .astray) ∧
    (∀ c r next, Cursor.readRecord c = .ok (r, next) → c.offset + 4 ≤ next.offset) ∧
    (∀ doc, Document.decode b = .ok doc → doc.records.length ≤ (b.length - 1) / 4) ∧
    ∀ e, Document.decode b = .error e →
      (∀ place, e.offset? = some place → 1 ≤ place ∧ place ≤ b.length) ∧
      ∀ code s, b.head? = some code → Simulation.ofCode? code = some s →
        ∃ first rs, 1 ≤ first ∧ first < b.length ∧
          Document.decode (b.take first) = .ok ⟨s, rs⟩ ∧
          Cursor.readRecord (.at b first) = .error e ∧
          ∀ place, e.offset? = some place → first ≤ place ∧ place ≤ b.length := by
  refine ⟨ends_start b, fun s hs => ?_, fun c r next => Cursor.readRecord_advances,
    fun doc => Document.length_le, fun e he => ⟨fun place hplace => ?_, fun code s hcode hs => ?_⟩⟩
  · have hbound := hs.offset_le (Nat.zero_le _)
    exact ⟨hbound, (safe_move hbound).stays⟩
  · obtain ⟨code, rest, s, rfl, hs⟩ := Document.opened_of_place he hplace
    obtain ⟨first, rs, hfirst, -, -, -, hplaced⟩ := Document.fails_in_record hs he
    obtain ⟨hlow, hhigh⟩ := hplaced place hplace
    exact ⟨Nat.le_trans hfirst hlow, hhigh⟩
  · obtain ⟨rest, rfl⟩ := List.head?_eq_some_iff.mp hcode
    exact Document.fails_in_record hs he

/-- A tick in front of a scene whose name is no text. -/
def misnamed : Bytes := [2, 2, 0, 2, 0, 0, 0, 0, 0, 0, 240, 63, 1, 0, 255, 0, 1, 255]

theorem decode_within_bounds_misnamed :
    Document.decode misnamed = .error (.invalidText 17) ∧ (1 ≤ 17 ∧ 17 ≤ misnamed.length) ∧
      (∃ first rs, 1 ≤ first ∧ first < misnamed.length ∧
        Document.decode (misnamed.take first) = .ok ⟨.escape, rs⟩ ∧
        Cursor.readRecord (.at misnamed first) = .error (.invalidText 17) ∧ first ≤ 17) ∧
      Document.decode (misnamed.take 12) = .ok ⟨.escape, [.tick ⟨0x3FF0000000000000⟩]⟩ ∧
      1 ≤ ((misnamed.take 12).length - 1) / 4 ∧
      Reaches misnamed start ⟨0, .simulation .simulation⟩ ∧
      move misnamed ⟨0, .simulation .simulation⟩ ≠ .astray ∧
      ∃ next, Cursor.readRecord (.at misnamed 1) = .ok (.tick ⟨0x3FF0000000000000⟩, next) ∧
        1 + 4 ≤ next.offset := by
  have hfails : Document.decode misnamed = .error (.invalidText 17) := by
    cbv
  have hkept : Document.decode (misnamed.take 12) =
      .ok ⟨.escape, [.tick ⟨0x3FF0000000000000⟩]⟩ := by
    cbv
  have htick : Cursor.readRecord (.at misnamed 1) =
      .ok (.tick ⟨0x3FF0000000000000⟩, .at misnamed 12) := by
    cbv
  have hmove : Reaches misnamed start ⟨0, .simulation .simulation⟩ := .go rfl (.stay _)
  obtain ⟨-, hsafe, hadvances, -, herror⟩ := decode_within_bounds misnamed
  obtain ⟨-, -, -, hfew, -⟩ := decode_within_bounds (misnamed.take 12)
  obtain ⟨hplaced, hsplit⟩ := herror _ hfails
  obtain ⟨first, rs, hpos, hlt, hdecode, hrecord, hblamed⟩ := hsplit 2 .escape rfl rfl
  exact ⟨hfails, hplaced 17 rfl, ⟨first, rs, hpos, hlt, hdecode, hrecord, (hblamed 17 rfl).1⟩, hkept,
    hfew _ hkept, hmove, (hsafe _ hmove).2, _, htick, hadvances _ _ _ htick⟩

end Decoding

end CrowdScenario
