import CrowdScenario.Proofs.Wire.Calls

/-!
# From calls to the decoded document

Which calls a writer refuses and for what reason, and that the decoder finds the records of all the
other calls, in order and nothing else (`decode_performAll`).
-/

namespace CrowdScenario
namespace Writing

theorem length_ofText (s : String) : (Bytes.ofText s).length = s.utf8ByteSize := by
  rw [Bytes.ofText, Array.length_toList]
  rfl

theorem outcome_text (c : Coordinate) (s : String) (e : WireError) (w : Writer) :
    outcome (.text c s) w = .error e ↔ 65535 < s.utf8ByteSize ∧ e = .textTooLong s.utf8ByteSize := by
  have hlongest : longestText = 65535 := rfl
  rw [outcome_eq, ← length_ofText]
  by_cases hle : (Bytes.ofText s).length ≤ longestText
  · have hnot : ¬ 65535 < (Bytes.ofText s).length := by omega
    simp [Entry.toBytes?, textBytes?, hle, hnot, Except.map]
  · have hlt : 65535 < (Bytes.ofText s).length := by omega
    simp [Entry.toBytes?, textBytes?, hle, hlt, Except.map, eq_comm]

/-- Why a geometry tuple is refused: its length comes before its members. -/
theorem outcome_geometry (g : Geometry) (w : Writer) :
    (outcome (.geometry g) w =
        .error (.arityMismatch g.tag g.tag.layout.length g.members.length) ∧
      g.members.length ≠ g.tag.layout.length) ∨
    (∃ i v width, outcome (.geometry g) w = .error (.outOfRange g.tag i v width) ∧
      g.members.length = g.tag.layout.length ∧
      Geometry.FirstMisfit g.tag.layout g.members i v width) ∨
    (outcome (.geometry g) w = .ok () ∧ g.members.length = g.tag.layout.length ∧
      ∀ (j : Nat) (v : Int64) (width : MemberWidth), g.members[j]? = some v →
        g.tag.layout[j]? = some width → 0 ≤ v.toInt ∧ v.toInt ≤ width.max) := by
  rw [outcome_eq, Entry.toBytes?, Geometry.toBytes?]
  split
  · next hlen =>
    split
    · next i v width hmisfit =>
      obtain ⟨-, hfirst⟩ := firstMisfit?_eq_some.mp hmisfit
      exact Or.inr (Or.inl ⟨i, v, width, rfl, hlen, hfirst⟩)
    · next hfit => exact Or.inr (Or.inr ⟨rfl, hlen, firstMisfit?_eq_none.mp hfit⟩)
  · next hlen => exact Or.inl ⟨rfl, hlen⟩

end Writing

theorem Geometry.FirstMisfit.unique {ws : List MemberWidth} {vs : List Int64} {i i' : Nat}
    {v v' : Int64} {width width' : MemberWidth} (h : FirstMisfit ws vs i v width)
    (h' : FirstMisfit ws vs i' v' width') : i = i' ∧ v = v' ∧ width = width' := by
  obtain ⟨hv, hw, hout, hbefore⟩ := h
  obtain ⟨hv', hw', hout', hbefore'⟩ := h'
  have hi : i = i' := by
    rcases Nat.lt_trichotomy i i' with hlt | heq | hlt
    · exact absurd (hbefore' i hlt v width hv hw) hout
    · exact heq
    · exact absurd (hbefore i' hlt v' width' hv' hw') hout'
  subst hi
  rw [hv] at hv'
  rw [hw] at hw'
  exact ⟨rfl, Option.some.inj hv', Option.some.inj hw'⟩

namespace Writing

theorem outcome_arityMismatch (g : Geometry) (w : Writer) (t : GeometryTag) (m n : Nat) :
    outcome (.geometry g) w = .error (.arityMismatch t m n) ↔
      g.members.length ≠ g.tag.layout.length ∧
        t = g.tag ∧ m = g.tag.layout.length ∧ n = g.members.length := by
  rcases outcome_geometry g w with ⟨hout, hlen⟩ | ⟨i, v, width, hout, hlen, -⟩ | ⟨hout, hlen, -⟩
  · rw [hout]
    constructor
    · intro h
      cases h
      exact ⟨hlen, rfl, rfl, rfl⟩
    · intro h
      obtain ⟨-, rfl, rfl, rfl⟩ := h
      rfl
  · rw [hout]
    exact ⟨nofun, fun h => absurd hlen h.1⟩
  · rw [hout]
    exact ⟨nofun, fun h => absurd hlen h.1⟩

theorem outcome_outOfRange (g : Geometry) (w : Writer) (t : GeometryTag) (i : Nat) (v : Int64)
    (width : MemberWidth) :
    outcome (.geometry g) w = .error (.outOfRange t i v width) ↔
      g.members.length = g.tag.layout.length ∧ t = g.tag ∧
        Geometry.FirstMisfit g.tag.layout g.members i v width := by
  rcases outcome_geometry g w with ⟨hout, hlen⟩ | ⟨i', v', width', hout, hlen, hfirst⟩ |
    ⟨hout, hlen, hfit⟩
  · rw [hout]
    exact ⟨nofun, fun h => absurd h.1 hlen⟩
  · rw [hout]
    constructor
    · intro h
      cases h
      exact ⟨hlen, rfl, hfirst⟩
    · intro h
      obtain ⟨-, rfl, hfirst'⟩ := h
      obtain ⟨rfl, rfl, rfl⟩ := hfirst.unique hfirst'
      rfl
  · rw [hout]
    refine ⟨nofun, fun h => ?_⟩
    obtain ⟨-, -, hv, hw, hmisfit, -⟩ := h
    exact absurd (hfit i v width hv hw) hmisfit

theorem outcome_geometry_ok (g : Geometry) (w : Writer) :
    outcome (.geometry g) w = .ok () ↔
      g.members.length = g.tag.layout.length ∧
        ∀ (j : Nat) (v : Int64) (width : MemberWidth), g.members[j]? = some v →
          g.tag.layout[j]? = some width → 0 ≤ v.toInt ∧ v.toInt ≤ width.max := by
  rcases outcome_geometry g w with ⟨hout, hlen⟩ | ⟨i, v, width, hout, hlen, hfirst⟩ |
    ⟨hout, hlen, hfit⟩
  · rw [hout]
    exact ⟨nofun, fun h => absurd h.1 hlen⟩
  · rw [hout]
    refine ⟨nofun, fun h => ?_⟩
    obtain ⟨hv, hw, hmisfit, -⟩ := hfirst
    exact absurd (h.2 i v width hv hw) hmisfit
  · rw [hout]
    exact ⟨fun _ => ⟨hlen, hfit⟩, fun _ => rfl⟩

/-- The outcomes of calls on a fresh writer, after the byte that opens a document, and the writer
they leave behind. -/
def written (s : Simulation) (calls : List Call) : List (Except WireError Unit) × Writer :=
  performAll (calls.map Call.entry) (Writer.empty.simulation s)

theorem holds_written (s : Simulation) (calls : List Call) :
    (written s calls).2.Holds s (kept calls (written s calls).1) :=
  holds_performAll calls (holds_simulation s)

/-- A writer refuses a text exactly if it is too long, and a geometry tuple exactly for its length
or, failing that, for its first member that does not fit; nothing else is refused, and a refusal
changes nothing. After any calls the decoder finds the records of those that were not refused. -/
theorem decode_performAll (s : Simulation) (calls : List Call) (w : Writer) :
    (∀ c text e, outcome (.text c text) w = .error e ↔
      65535 < text.utf8ByteSize ∧ e = .textTooLong text.utf8ByteSize) ∧
    (∀ g t m n, outcome (.geometry g) w = .error (.arityMismatch t m n) ↔
      g.members.length ≠ g.tag.layout.length ∧
        t = g.tag ∧ m = g.tag.layout.length ∧ n = g.members.length) ∧
    (∀ g t i v width, outcome (.geometry g) w = .error (.outOfRange t i v width) ↔
      g.members.length = g.tag.layout.length ∧ t = g.tag ∧
        Geometry.FirstMisfit g.tag.layout g.members i v width) ∧
    (∀ g, outcome (.geometry g) w = .ok () ↔
      g.members.length = g.tag.layout.length ∧
        ∀ (j : Nat) (v : Int64) (width : MemberWidth), g.members[j]? = some v →
          g.tag.layout[j]? = some width → 0 ≤ v.toInt ∧ v.toInt ≤ width.max) ∧
    (∀ e, outcome e w = .ok () ∨ (∃ c text, e = .text c text) ∨ ∃ g, e = .geometry g) ∧
    (∀ e cause, outcome e w = .error cause → after e w = w) ∧
    Document.decode (written s calls).2.bytes = .ok ⟨s, kept calls (written s calls).1⟩ ∧
    (written s calls).2.recordCount = (kept calls (written s calls).1).length := by
  refine ⟨fun c text e => outcome_text c text e w, fun g => outcome_arityMismatch g w,
    fun g => outcome_outOfRange g w, fun g => outcome_geometry_ok g w, ?_,
    fun e cause => after_of_error, ?_⟩
  · intro e
    cases e with
    | text c text => exact Or.inr (Or.inl ⟨c, text, rfl⟩)
    | geometry g => exact Or.inr (Or.inr ⟨g, rfl⟩)
    | _ => exact Or.inl (outcome_eq _ w)
  · have hholds := holds_written s calls
    exact ⟨holds_decode hholds, hholds.2⟩

end Writing
end CrowdScenario
