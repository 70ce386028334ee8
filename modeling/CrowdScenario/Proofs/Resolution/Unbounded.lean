import CrowdScenario.Proofs.Binary64.Finite
import CrowdScenario.Proofs.Resolution.Chains
import CrowdScenario.Proofs.Text.Digits

/-!
# Integers from numbers that are not finite

A text that reads as a number that is not finite is no integer (`parseInt?_of_not_finite`). A double that
is not finite is made into one, be it a default or the value of another field: zero, or an end of the
range. References among number fields hand that on, however many there are (`Relay.descends`).
-/

namespace CrowdScenario

open Resolution

namespace Text

theorem toLower_of_isDigit {c : Char} (h : c.isDigit = true) : c.toLower = c := by
  obtain ⟨-, hhigh⟩ := isDigit_iff.mp h
  have hnot : ¬(c.val ≥ 'A'.val ∧ c.val ≤ 'Z'.val) := by
    rintro ⟨hupper, -⟩
    have hupper' : 65 ≤ c.toNat := hupper
    omega
  rw [Char.toLower, dif_neg hnot]

theorem ofList_toLower_ne {digits : List Char} (h : ∀ c ∈ digits, c.isDigit = true) (name : String)
    (hname : ∃ c ∈ name.toList, c.isDigit = false) :
    String.ofList (digits.map Char.toLower) ≠ name := by
  rintro rfl
  obtain ⟨c, hc, hnot⟩ := hname
  rw [String.toList_ofList] at hc
  obtain ⟨d, hd, rfl⟩ := List.mem_map.mp hc
  rw [toLower_of_isDigit (h d hd), h d hd] at hnot
  cases hnot

theorem int64?_eq_some {cs : List Char} {n : Int64} (h : int64? cs = some n) :
    (splitSign cs).2 ≠ [] ∧ (∀ c ∈ (splitSign cs).2, c.isDigit = true) ∧
      digitsValue (splitSign cs).2 ≤ 2 ^ 63 := by
  rw [int64?] at h
  generalize splitSign cs = parts at h ⊢
  simp only at h
  by_cases hdigits : parts.2 ≠ [] ∧ parts.2.all Char.isDigit = true
  · refine ⟨hdigits.1, List.all_eq_true.mp hdigits.2, ?_⟩
    rw [if_pos hdigits] at h
    by_cases hbounds : Binary64.smallestInt64 ≤ (if parts.1 then -(digitsValue parts.2 : Int)
        else digitsValue parts.2) ∧ (if parts.1 then -(digitsValue parts.2 : Int)
        else digitsValue parts.2) ≤ Binary64.largestInt64
    · unfold Binary64.smallestInt64 Binary64.largestInt64 at hbounds
      split at hbounds <;> omega
    · rw [if_neg hbounds] at h
      cases h
  · rw [if_neg hdigits] at h
    cases h

end Text

theorem Decimal.unsigned?_of_digits (negative : Bool) {digits : List Char} (hne : digits ≠ [])
    (h : ∀ c ∈ digits, c.isDigit = true) :
    unsigned? negative digits = some (Binary64.ofDecimal negative (Text.digitsValue digits) 0) := by
  have hwhole : digits.takeWhile Char.isDigit = digits := List.takeWhile_eq_self_iff.mpr h
  have hrest : digits.dropWhile Char.isDigit = [] := List.dropWhile_eq_nil_iff.mpr h
  simp [unsigned?, hwhole, hrest, fractionPart, exponentPart?, hne]

theorem Decimal.isFinite_of_int64? {cs : List Char} {n : Int64} {x : Binary64}
    (h : Text.int64? cs = some n) (hx : Decimal.parse? cs = some x) : x.isFinite = true := by
  obtain ⟨hne, hdigit, hbound⟩ := Text.int64?_eq_some h
  rw [Decimal.parse?] at hx
  generalize Text.splitSign cs = parts at hne hdigit hbound hx
  have hinfinity : ¬(String.ofList (parts.2.map Char.toLower) = "inf" ∨
      String.ofList (parts.2.map Char.toLower) = "infinity") := by
    rintro (hname | hname)
    · exact Text.ofList_toLower_ne hdigit _ ⟨'i', by decide, rfl⟩ hname
    · exact Text.ofList_toLower_ne hdigit _ ⟨'i', by decide, rfl⟩ hname
  have hnan : String.ofList (parts.2.map Char.toLower) ≠ "nan" :=
    Text.ofList_toLower_ne hdigit _ ⟨'n', by decide, rfl⟩
  simp only at hx
  rw [if_neg hinfinity, if_neg hnan, unsigned?_of_digits _ hne hdigit] at hx
  cases hx
  exact Binary64.isFinite_ofDecimal _ hbound

theorem Input.parseInt?_of_not_finite {s : String} {x : Binary64}
    (h : Input.parseFloat? s = some x) (hx : x.isFinite = false) : Input.parseInt? s = none := by
  rw [Input.parseInt?]
  split
  · next n hn =>
    have hfinite := Decimal.isFinite_of_int64? hn h
    rw [hx] at hfinite
    cases hfinite
  · rw [h, Option.filter_some, hx]
    rfl

def Input.words? : Input → Option String
  | json (.string s) => some s
  | value (.text s) => some s
  | _ => none

theorem coerce_int_of_words {i : Input} {s : String} {x : Binary64} (hwords : i.words? = some s)
    (hread : Input.parseFloat? s = some x) (hx : x.isFinite = false) (path : String) :
    coerce .int path (some i) = .error (invalidInput path "integer" i) := by
  have hnone : i.int? = none := by
    unfold Input.words? at hwords
    split at hwords
    · cases hwords
      exact Input.parseInt?_of_not_finite hread hx
    · cases hwords
      exact Input.parseInt?_of_not_finite hread hx
    · cases hwords
  rw [coerce, readInput, hnone]

/-- What a number field makes of a double that is not finite, by way of any number fields. -/
inductive Descends (x : Binary64) : Value → Prop
  | float : Descends x (.float x)
  | int : Descends x (.int x.bound)
  /-- The integer as a double. -/
  | rounded : Descends x (.float (.ofInt x.bound.toInt))

namespace Descends

variable {x : Binary64} {v : Value}

theorem coerce_int (h : Descends x v) (hx : x.isFinite = false) (path : String) :
    coerce .int path (some (.value v)) = .ok (.int x.bound) := by
  cases h with
  | float => exact congrArg (fun n => Except.ok (Value.int n)) (Binary64.toInt64_of_not_isFinite hx)
  | int => rfl
  | rounded => exact congrArg (fun n => Except.ok (Value.int n)) (Binary64.toInt64_ofInt_bound x)

theorem coerce_float (h : Descends x v) (path : String) :
    ∃ v', coerce .float path (some (.value v)) = .ok v' ∧ Descends x v' := by
  cases h with
  | float => exact ⟨_, rfl, .float⟩
  | int => exact ⟨_, rfl, .rounded⟩
  | rounded => exact ⟨_, rfl, .rounded⟩

end Descends

namespace Resolution

/-- The input that a field takes from its sources when it is started. -/
def Takes (ctx : Context) (root : Node) (m : Memo) (id : FieldId) (n : Node) (f : Field)
    (i : Input) : Prop :=
  ∃ m', perform (firstInput root (resolveAmong ctx root (others (root.scalars []) id)) id.path
    (n.sources ctx.settings.strictReferences f)) (m.start id) = (.ok (some i), m')

theorem takes_given {ctx : Context} {n : Node} {f : Field} {i : Input} {rest : List Source}
    (h : n.sources ctx.settings.strictReferences f = .given i :: rest) (root : Node) (m : Memo)
    (id : FieldId) : Takes ctx root m id n f i := by
  rw [Takes, h]
  exact ⟨_, rfl⟩

section
variable {registry : Registry} {ctx : Context} {root n : Node} {id : FieldId} {f : Field} {m : Memo}

theorem perform_takes (hbuilt : root.Built registry) (hfield : root.field? id = some (n, f))
    (hkind : f.kind.isCoerced = true) (hidle : m.underway = []) (hvalue : m.value? id = none)
    {i : Input} (h : Takes ctx root m id n f i) :
    (perform (resolve ctx root id.owner n.schema id.name) m).1 = coerce f.kind id.path (some i) := by
  obtain ⟨m', hinput⟩ := h
  have hplain := FieldKind.isNested_of_isCoerced hkind
  have hid : id ∈ root.scalars [] := hbuilt.mem_scalars_iff.mpr ⟨n, f, hfield, hplain⟩
  rw [resolve_of_field? ctx hfield (Node.field?_eq_some.mp hfield).1 hplain,
    perform_resolveField hid hfield hidle hvalue, evaluate_eq, perform_bind_ok hinput,
    complete_of_isCoerced hkind, perform_ofExcept]

theorem Tallies.ok {α : Type} {a b : Except CompileError α} (h : Tallies a b) {v : α}
    (hb : b = .ok v) : a = .ok v := by
  rcases h with rfl | ⟨-, path, hturn⟩
  · exact hb
  · rw [hturn] at hb
    cases hb

theorem Tallies.error {α : Type} {a b : Except CompileError α} (h : Tallies a b) {e : CompileError}
    (hb : b = .error e) (he : ∀ path, e ≠ .cyclicReference path) : a = .error e := by
  rcases h with rfl | ⟨-, path, hturn⟩
  · exact hb
  · rw [hturn] at hb
    cases hb
    exact absurd rfl (he path)

end

/-- Number fields, of which each but the first refers to the one before it. -/
structure Relay (ctx : Context) (root : Node) (length : Nat) (link : Nat → FieldId) : Prop where
  declared : ∀ i ≤ length, ∃ n f, root.field? (link i) = some (n, f) ∧
    (f.kind = .int ∨ f.kind = .float)
  leads : ∀ i < length, ∀ n f, root.field? (link (i + 1)) = some (n, f) →
    LeadsTo ctx root (link (i + 1)) (link i) n f

section
variable {registry : Registry} {ctx : Context} {root n : Node} {f : Field} {m : Memo} {length : Nat}
  {link : Nat → FieldId} {x : Binary64} {v : Value} {i : Nat}

theorem isCoerced_of_number (h : f.kind = .int ∨ f.kind = .float) : f.kind.isCoerced = true := by
  rcases h with h | h <;> rw [h] <;> rfl

/-- One reference hands on what the field before has. -/
theorem Relay.handed (hbuilt : root.Built registry) (h : Relay ctx root length link)
    (hidle : m.underway = []) (hi : i < length) (hvalue : m.value? (link (i + 1)) = none)
    (hfield : root.field? (link (i + 1)) = some (n, f)) (hnumber : f.kind = .int ∨ f.kind = .float)
    {v' : Value} (hv : (perform (resolveField ctx root (link i)) m).1 = .ok v)
    (hcoerce : coerce f.kind (link (i + 1)).path (some (.value v)) = .ok v') :
    (perform (resolveField ctx root (link (i + 1))) m).1 = .ok v' := by
  obtain ⟨n', f', hfield', hnumber'⟩ := h.declared i (Nat.le_of_lt hi)
  have hkind := isCoerced_of_number hnumber
  have htallies := (h.leads i hi n f hfield).tallies hbuilt
    (FieldKind.isNested_of_isCoerced hkind) hkind hfield'
    (FieldKind.isNested_of_isCoerced (isCoerced_of_number hnumber')) hidle hvalue
  rw [hv] at htallies
  exact htallies.ok hcoerce

theorem Relay.descends (hbuilt : root.Built registry) (h : Relay ctx root length link)
    (hx : x.isFinite = false) (hidle : m.underway = [])
    (hvalues : ∀ i < length, m.value? (link (i + 1)) = none)
    (hfirst : (perform (resolveField ctx root (link 0)) m).1 = .ok (.float x)) (hi : i ≤ length) :
    ∃ v, (perform (resolveField ctx root (link i)) m).1 = .ok v ∧ Descends x v := by
  -- A float field that refers to an integer field holds a double again, so `Descends` is what is kept.
  induction i with
  | zero => exact ⟨_, hfirst, .float⟩
  | succ i ih =>
    obtain ⟨v, hv, hdescends⟩ := ih (Nat.le_of_succ_le hi)
    obtain ⟨n, f, hfield, hnumber⟩ := h.declared (i + 1) hi
    rcases hnumber with hint | hfloat
    · refine ⟨_, h.handed hbuilt hidle hi (hvalues i hi) hfield (.inl hint) hv ?_, .int⟩
      rw [hint]
      exact hdescends.coerce_int hx _
    · obtain ⟨v', hcoerce, hdescends'⟩ := hdescends.coerce_float (link (i + 1)).path
      refine ⟨v', h.handed hbuilt hidle hi (hvalues i hi) hfield (.inr hfloat) hv ?_, hdescends'⟩
      rw [hfloat]
      exact hcoerce

theorem Relay.int (hbuilt : root.Built registry) (h : Relay ctx root length link)
    (hx : x.isFinite = false) (hidle : m.underway = [])
    (hvalues : ∀ i < length, m.value? (link (i + 1)) = none)
    (hfirst : (perform (resolveField ctx root (link 0)) m).1 = .ok (.float x)) (hi : i < length)
    (hfield : root.field? (link (i + 1)) = some (n, f)) (hkind : f.kind = .int) :
    (perform (resolveField ctx root (link (i + 1))) m).1 = .ok (.int x.bound) := by
  obtain ⟨v, hv, hdescends⟩ := h.descends hbuilt hx hidle hvalues hfirst (Nat.le_of_lt hi)
  refine h.handed hbuilt hidle hi (hvalues i hi) hfield (.inl hkind) hv ?_
  rw [hkind]
  exact hdescends.coerce_int hx _

end

/-! ### Integer fields -/

section
variable {registry : Registry} {members : Json.Members} {root : Node}

/-- Be it the text of an author or of a default, or that of a field that is referred to: a text that
reads as a number that is not finite makes no integer. But such a double as a default, or as the value
of a field from which any number of references among number fields lead here, makes zero or an end of
the range. -/
theorem int_of_unbounded (hroot : Node.ofDescription registry members = .ok root) (ctx : Context)
    {m : Memo} (hidle : m.underway = []) {x : Binary64} (hx : x.isFinite = false) :
    (∀ id n f i s, root.field? id = some (n, f) → f.kind = .int → m.value? id = none →
      Takes ctx root m id n f i → i.words? = some s → Input.parseFloat? s = some x →
        (perform (resolve ctx root id.owner n.schema id.name) m).1 =
          .error (.invalidValue id.path "integer" i.describe)) ∧
    (∀ id n f target n' f' s, LeadsTo ctx root id target n f → f.kind = .int → m.value? id = none →
      root.field? target = some (n', f') → f'.kind.isNested = false →
        (perform (resolve ctx root target.owner n'.schema target.name) m).1 = .ok (.text s) →
          Input.parseFloat? s = some x →
            (perform (resolve ctx root id.owner n.schema id.name) m).1 =
              .error (.invalidValue id.path "integer" (Value.text s).display)) ∧
    (∀ id n f, root.field? id = some (n, f) → f.kind = .int → m.value? id = none →
      Takes ctx root m id n f (.value (.float x)) →
        (perform (resolve ctx root id.owner n.schema id.name) m).1 = .ok (.int x.bound)) ∧
    ∀ length link first f₀, Relay ctx root length link → root.field? (link 0) = some (first, f₀) →
      (∀ i < length, m.value? (link (i + 1)) = none) →
        (perform (resolve ctx root (link 0).owner first.schema (link 0).name) m).1 =
          .ok (.float x) →
            ∀ i n f, i < length → root.field? (link (i + 1)) = some (n, f) → f.kind = .int →
              (perform (resolve ctx root (link (i + 1)).owner n.schema (link (i + 1)).name) m).1 =
                .ok (.int x.bound) := by
  have hbuilt := Node.built_ofDescription hroot
  have hasked : ∀ id n f, root.field? id = some (n, f) → f.kind.isNested = false →
      resolve ctx root id.owner n.schema id.name = resolveField ctx root id :=
    fun id n f hfield => resolve_of_field? ctx hfield (Node.field?_eq_some.mp hfield).1
  refine ⟨?texts, ?references, ?doubles, ?relays⟩
  case texts =>
    intro id n f i s hfield hkind hvalue htakes hwords hread
    rw [perform_takes hbuilt hfield (by rw [hkind]; rfl) hidle hvalue htakes, hkind]
    exact coerce_int_of_words hwords hread hx id.path
  case references =>
    intro id n f target n' f' s hleads hkind hvalue htarget hplain' hs hread
    rw [hasked target n' f' htarget hplain'] at hs
    have htallies := hleads.tallies hbuilt (by rw [hkind]; rfl) (by rw [hkind]; rfl) htarget hplain'
      hidle hvalue
    rw [hs, hkind] at htallies
    rw [hasked id n f hleads.declared (by rw [hkind]; rfl)]
    exact htallies.error (coerce_int_of_words rfl hread hx id.path) nofun
  case doubles =>
    intro id n f hfield hkind hvalue htakes
    rw [perform_takes hbuilt hfield (by rw [hkind]; rfl) hidle hvalue htakes, hkind]
    exact Descends.float.coerce_int hx id.path
  case relays =>
    intro length link first f₀ hrelay hfirst hvalues hx₀ i n f hi hfield hkind
    obtain ⟨n', f', hfield', hnumber⟩ := hrelay.declared 0 (Nat.zero_le _)
    rw [hfirst] at hfield'
    cases hfield'
    rw [hasked _ _ _ hfirst (FieldKind.isNested_of_isCoerced (isCoerced_of_number hnumber))] at hx₀
    rw [hasked _ _ _ hfield (by rw [hkind]; rfl)]
    exact hrelay.int hbuilt hx hidle hvalues hx₀ hi hfield hkind

end

namespace Endless

def far : Field := ⟨"far", .float, none, .skip⟩

def near : Field := ⟨"near", .float, none, .skip⟩

def count : Field := ⟨"count", .int, none, .skip⟩

def shown : Field := ⟨"shown", .int, none, .skip⟩

def word : Field := ⟨"word", .text, none, .skip⟩

def said : Field := ⟨"said", .int, none, .skip⟩

def most : Field := ⟨"most", .int, some (.float (.infinity false)), .skip⟩

def schema : Schema where
  name := Schema.rootName
  owner := none
  fields := [far, near, count, shown, word, said, most]
  names_nodup := by decide
  owner_of_emission := by decide

def registry : Registry := ⟨[schema], by decide⟩

def members : Json.Members :=
  [("count", .string "ref:near"), ("far", .string "inf"), ("near", .string "ref:far"),
    ("said", .string "ref:word"), ("shown", .string "1e999"), ("word", .string "infinity")]

def tree : Node := ⟨schema, none, members, []⟩

def surroundings : Context := ⟨.standard, none, fun _ => .ok []⟩

def link : Nat → FieldId
  | 0 => ⟨[], "far"⟩
  | 1 => ⟨[], "near"⟩
  | _ => ⟨[], "count"⟩

theorem relay : Relay surroundings tree 2 link where
  declared i _ := match i with
    | 0 => ⟨tree, far, rfl, .inr rfl⟩
    | 1 => ⟨tree, near, rfl, .inr rfl⟩
    | _ + 2 => ⟨tree, count, rfl, .inl rfl⟩
  leads i hi n f hfield := match i, hi with
    | 0, _ => by
      cases hfield
      exact ⟨rfl, "ref:far", true, [], [.field "far"], rfl, by decide, rfl⟩
    | 1, _ => by
      cases hfield
      exact ⟨rfl, "ref:near", true, [], [.field "near"], rfl, by decide, rfl⟩

end Endless

open Endless in
theorem int_of_unbounded_endless :
    Node.ofDescription registry members = .ok tree ∧
      (Binary64.infinity false).isFinite = false ∧
      (perform (resolve surroundings tree [] schema "shown") .empty).1 =
        .error (.invalidValue "shown" "integer" "\"1e999\"") ∧
      (perform (resolve surroundings tree [] schema "said") .empty).1 =
        .error (.invalidValue "said" "integer" "'infinity'") ∧
      (perform (resolve surroundings tree [] schema "most") .empty).1 = .ok (.int Int64.maxValue) ∧
      (perform (resolve surroundings tree [] schema "count") .empty).1 = .ok (.int Int64.maxValue) := by
  have hroot : Node.ofDescription registry members = .ok tree := by cbv
  have hbuilt := Node.built_ofDescription hroot
  have hx : (Binary64.infinity false).isFinite = false := by decide
  obtain ⟨htexts, hreferences, hdoubles, hrelays⟩ :=
    int_of_unbounded hroot surroundings (m := .empty) rfl hx
  refine ⟨hroot, hx, ?_, ?_, ?_, ?_⟩
  · have hread : Input.parseFloat? "1e999" = some (.infinity false) := by cbv
    have hshown : (Input.json (.string "1e999")).describe = "\"1e999\"" := by cbv
    have htakes : Takes surroundings tree .empty ⟨[], "shown"⟩ tree shown (.json (.string "1e999")) :=
      takes_given rfl tree .empty _
    rw [← hshown]
    exact htexts ⟨[], "shown"⟩ tree shown _ _ rfl rfl rfl htakes rfl hread
  · have hread : Input.parseFloat? "infinity" = some (.infinity false) := by cbv
    have hsaid : (Value.text "infinity").display = "'infinity'" := by cbv
    have hfield : tree.field? ⟨[], "word"⟩ = some (tree, word) := rfl
    have hword : (perform (resolve surroundings tree [] schema "word") .empty).1 =
        .ok (.text "infinity") :=
      (perform_takes hbuilt hfield rfl rfl rfl (takes_given rfl tree .empty _)).trans rfl
    have hleads : LeadsTo surroundings tree ⟨[], "said"⟩ ⟨[], "word"⟩ tree said :=
      ⟨rfl, "ref:word", true, [], [.field "word"], rfl, by decide, rfl⟩
    rw [← hsaid]
    exact hreferences ⟨[], "said"⟩ tree said ⟨[], "word"⟩ tree word _ hleads rfl rfl rfl rfl hword
      hread
  · have htakes : Takes surroundings tree .empty ⟨[], "most"⟩ tree most
        (.value (.float (.infinity false))) := takes_given rfl tree .empty _
    exact hdoubles ⟨[], "most"⟩ tree most rfl rfl rfl htakes
  · have hfield : tree.field? ⟨[], "far"⟩ = some (tree, far) := rfl
    have hfar : (perform (resolve surroundings tree [] schema "far") .empty).1 =
        .ok (.float (.infinity false)) :=
      (perform_takes hbuilt hfield rfl rfl rfl (takes_given rfl tree .empty _)).trans (by cbv)
    exact hrelays 2 link tree far relay rfl (fun _ _ => rfl) hfar 1 tree count (by decide) rfl rfl

namespace Counted

def schema : Schema where
  name := Schema.rootName
  owner := none
  fields := [⟨"a", .float, none, .skip⟩, ⟨"count", .int, none, .skip⟩]
  names_nodup := by decide
  owner_of_emission := by decide

def registry : Registry := ⟨[schema], by decide⟩

def members : Json.Members := [("a", .string "inf"), ("count", .string "ref:a")]

def tree : Node := ⟨schema, none, members, []⟩

end Counted

open Counted in
/-- A count that refers to an infinite number is the largest integer. Written itself, the same text would
be refused. -/
theorem int_of_infinity :
    Node.ofDescription registry members = .ok tree ∧
      (perform (resolve ⟨.standard, none, fun _ => .ok []⟩ tree [] schema "a") .empty).1 =
        .ok (.float (.infinity false)) ∧
      (Binary64.infinity false).isFinite = false ∧
      (perform (resolve ⟨.standard, none, fun _ => .ok []⟩ tree [] schema "count") .empty).1 =
        .ok (.int 9223372036854775807) ∧
      coerce .int "count" (some (.json (.string "inf"))) =
        .error (.invalidValue "count" "integer" "\"inf\"") := by
  refine ⟨by cbv, by cbv, by decide, by cbv, by cbv⟩

end Resolution

end CrowdScenario
