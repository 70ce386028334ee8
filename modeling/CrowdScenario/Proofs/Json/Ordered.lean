import CrowdScenario.Description
import Mathlib.Tactic.SplitIfs

/-!
# Objects in the order of their names

A text that comes before another by its characters also comes before it by its bytes. The members of
every object that is read ascend by name, so the bytes of the names ascend too, and no name occurs
twice.
-/

namespace CrowdScenario

theorem toNat_val_lt (c : Char) : c.val.toNat < 0x110000 := by
  have hvalid := c.valid
  simp only [UInt32.isValidChar, Nat.isValidChar] at hvalid
  omega

/-- Whatever follows them, the bytes of a character come before those of a greater one. -/
theorem utf8EncodeChar_append_lt {c d : Char} (h : c < d) (rest rest' : List UInt8) :
    String.utf8EncodeChar c ++ rest < String.utf8EncodeChar d ++ rest' := by
  have hval : c.val.toNat < d.val.toNat := h
  have hc := toNat_val_lt c
  have hd := toNat_val_lt d
  simp only [String.utf8EncodeChar]
  generalize c.val.toNat = m at *
  generalize d.val.toNat = n at *
  -- one case for every pair of lengths
  split_ifs <;>
    simp (disch := omega) only [List.cons_append, List.nil_append, List.cons_lt_cons_iff,
      UInt8.lt_iff_toNat_lt, ← UInt8.toNat_inj, UInt8.toNat_ofNat', Nat.reducePow,
      Nat.mod_eq_of_lt] <;>
    omega

namespace Bytes

theorem ofText_eq_flatMap (s : String) : ofText s = s.toList.flatMap String.utf8EncodeChar := by
  have hs : s.toByteArray = s.toList.utf8Encode := by
    rw [← String.toByteArray_ofList, String.ofList_toList]
  rw [ofText, String.toUTF8_eq_toByteArray, hs]
  simp [List.utf8Encode]

theorem flatMap_utf8EncodeChar_lt {cs ds : List Char} (h : cs < ds) :
    cs.flatMap String.utf8EncodeChar < ds.flatMap String.utf8EncodeChar := by
  induction h with
  | nil =>
    obtain ⟨b, bs, hbytes⟩ := List.exists_cons_of_ne_nil String.utf8EncodeChar_ne_nil
    rw [List.flatMap_cons, hbytes]
    exact List.nil_lt_cons _ _
  | cons _ ih =>
    rw [List.flatMap_cons, List.flatMap_cons]
    exact List.append_left_lt ih
  | rel hlt =>
    rw [List.flatMap_cons, List.flatMap_cons]
    exact utf8EncodeChar_append_lt hlt _ _

theorem ofText_lt_of_lt {a b : String} (h : a < b) : ofText a < ofText b := by
  rw [ofText_eq_flatMap, ofText_eq_flatMap]
  exact flatMap_utf8EncodeChar_lt (String.lt_iff.mp h)

end Bytes

namespace Json

/-- A value in which the members of every object ascend by the bytes of their names. -/
inductive Ordered : Json → Prop
  | null : Ordered null
  | bool (b : Bool) : Ordered (bool b)
  | integer (n : Int) : Ordered (integer n)
  | float (x : Binary64) : Ordered (float x)
  | string (s : String) : Ordered (string s)
  | array {items : List Json} (below : ∀ j ∈ items, Ordered j) : Ordered (array items)
  | object {members : Members}
      (ascending : (members.map Prod.fst).Pairwise fun a b => Bytes.ofText a < Bytes.ofText b)
      (below : ∀ m ∈ members, Ordered m.2) : Ordered (object members)

theorem mem_insertMember {name : String} {value : Json} {members : Members} {m : String × Json}
    (h : m ∈ insertMember name value members) : m = (name, value) ∨ m ∈ members := by
  induction members with
  | nil => exact .inl (List.mem_singleton.mp h)
  | cons first rest ih =>
    rw [insertMember] at h
    split at h
    · rcases List.mem_cons.mp h with rfl | h
      · exact .inl rfl
      · exact .inr (List.mem_cons_of_mem _ h)
    · split at h
      · exact List.mem_cons.mp h
      · rcases List.mem_cons.mp h with rfl | h
        · exact .inr List.mem_cons_self
        · rcases ih h with rfl | h
          · exact .inl rfl
          · exact .inr (List.mem_cons_of_mem _ h)

theorem ascending_insertMember {name : String} {value : Json} {members : Members}
    (h : (members.map Prod.fst).Pairwise (· < ·)) :
    ((insertMember name value members).map Prod.fst).Pairwise (· < ·) := by
  induction members with
  | nil => simp [insertMember]
  | cons first rest ih =>
    rcases first with ⟨name', value'⟩
    rw [List.map_cons, List.pairwise_cons] at h
    obtain ⟨hfirst, hrest⟩ := h
    rw [insertMember]
    split
    · next heq =>
      subst heq
      exact List.pairwise_cons.mpr ⟨hfirst, hrest⟩
    · next hne =>
      split
      · next hlt =>
        have htail := List.pairwise_cons.mpr ⟨hfirst, hrest⟩
        refine List.pairwise_cons.mpr ⟨fun other hother => ?_, htail⟩
        rcases List.mem_cons.mp hother with rfl | hother
        · exact hlt
        · exact String.lt_trans hlt (hfirst other hother)
      · next hnot =>
        have hlt : name' < name := by
          rcases Std.lt_trichotomy name name' with hlt | heq | hgt
          · exact absurd hlt hnot
          · exact absurd heq hne
          · exact hgt
        refine List.pairwise_cons.mpr ⟨fun other hother => ?_, ih hrest⟩
        obtain ⟨m, hm, rfl⟩ := List.mem_map.mp hother
        rcases mem_insertMember hm with rfl | hm
        · exact hlt
        · exact hfirst _ (List.mem_map_of_mem hm)

theorem ordered_sortMembers {members : Members} (h : ∀ m ∈ members, Ordered m.2) :
    Ordered (object (sortMembers members)) := by
  have hsorted : ((sortMembers members).map Prod.fst).Pairwise (· < ·) ∧
      ∀ m ∈ sortMembers members, Ordered m.2 := by
    refine List.foldlRecOn (motive := fun sorted : Members =>
      (sorted.map Prod.fst).Pairwise (· < ·) ∧ ∀ m ∈ sorted, Ordered m.2) members _
      ⟨.nil, nofun⟩ ?_
    rintro sorted ⟨hascending, hbelow⟩ m hm
    refine ⟨ascending_insertMember hascending, fun m' hm' => ?_⟩
    rcases mem_insertMember hm' with rfl | hm'
    · exact h m hm
    · exact hbelow m' hm'
  exact .object (hsorted.1.imp Bytes.ofText_lt_of_lt) hsorted.2

variable [DoubleReader]

theorem ordered_of_number? {n : NumberText} {j : Json} (h : n.value? = some j) : Ordered j := by
  rw [NumberText.value?] at h
  split at h
  · next i _ =>
    cases h
    exact .integer i
  · obtain ⟨x, -, rfl⟩ := Option.map_eq_some_iff.mp h
    exact .float x

namespace Written

mutual

theorem ordered_of_value? {depth : Nat} {j : Json} :
    ∀ w : Written, value? depth w = some j → Ordered j
  | null, h => by
    cases h
    exact .null
  | bool b, h => by
    cases h
    exact .bool b
  | number n, h => ordered_of_number? h
  | string s, h => by
    obtain ⟨text, -, rfl⟩ := Option.map_eq_some_iff.mp h
    exact .string text
  | array items, h => by
    cases depth with
    | zero => cases h
    | succ depth =>
      obtain ⟨js, hjs, rfl⟩ := Option.map_eq_some_iff.mp h
      exact .array (ordered_of_values? items hjs)
  | object members, h => by
    cases depth with
    | zero => cases h
    | succ depth =>
      obtain ⟨ms, hms, rfl⟩ := Option.map_eq_some_iff.mp h
      exact ordered_sortMembers (ordered_of_memberValues? members hms)

theorem ordered_of_values? {depth : Nat} {js : List Json} :
    ∀ items : List Written, values? depth items = some js → ∀ j ∈ js, Ordered j
  | [], h => by
    cases h
    exact nofun
  | w :: ws, h => by
    obtain ⟨v, hv, hrest⟩ := Option.bind_eq_some_iff.mp h
    obtain ⟨vs, hvs, hjs⟩ := Option.bind_eq_some_iff.mp hrest
    cases hjs
    exact List.forall_mem_cons.mpr ⟨ordered_of_value? w hv, ordered_of_values? ws hvs⟩

theorem ordered_of_memberValues? {depth : Nat} {ms : Members} :
    ∀ members : List (Label × Written), memberValues? depth members = some ms →
      ∀ m ∈ ms, Ordered m.2
  | [], h => by
    cases h
    exact nofun
  | (label, w) :: rest, h => by
    obtain ⟨name, -, hname⟩ := Option.bind_eq_some_iff.mp h
    obtain ⟨v, hv, hrest⟩ := Option.bind_eq_some_iff.mp hname
    obtain ⟨vs, hvs, hms⟩ := Option.bind_eq_some_iff.mp hrest
    cases hms
    exact List.forall_mem_cons.mpr ⟨ordered_of_value? w hv, ordered_of_memberValues? rest hvs⟩

end

end Written

theorem ordered_of_parse? {text : String} {j : Json} (h : parse? text = some j) : Ordered j := by
  obtain ⟨tree, -, hvalue⟩ := Option.bind_eq_some_iff.mp h
  exact Written.ordered_of_value? tree hvalue

end Json

/-- A description that is read is ordered. -/
theorem Description.ordered_of_parse [Json.DoubleReader] {text : String} {d : Description}
    (h : parse text = .ok d) : d.toJson.Ordered := by
  unfold parse at h
  split at h
  · cases h
  · next members hmembers =>
    cases h
    exact Json.ordered_of_parse? hmembers
  · cases h

end CrowdScenario
