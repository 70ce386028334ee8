import CrowdScenario.Proofs.Encoding.Agreement
import CrowdScenario.Proofs.Resolution.Moves

/-!
# Evaluation outside a section

Two trees that differ at most below one field of their root give every other field the same value, as
long as no source of such a field refers into what differs (`field_outside`).
-/

namespace CrowdScenario

namespace Node

section
variable {registry : Registry} {root : Node} {id : FieldId}

mutual

theorem holdsValue_of_mem_scalars (hbuilt : Built registry root) (here : Address) :
    ∀ n, root.at? here = some n → id ∈ scalars here n → root.HoldsValue id
  | ⟨schema, slot?, members, children⟩, hn, hid => by
    rw [scalars, List.mem_append] at hid
    rcases hid with hid | hid
    · obtain ⟨f, hf, rfl⟩ := List.mem_map.mp hid
      obtain ⟨hmem, hplain⟩ := List.mem_filter.mp hf
      exact holdsValue_of_mem hn hmem (by simpa using hplain)
    · exact holdsValue_of_mem_scalarsBelow hbuilt here children (fun p hp => hbuilt.at?_child hn hp)
        hid

theorem holdsValue_of_mem_scalarsBelow (hbuilt : Built registry root) (here : Address) :
    ∀ children : List (String × Node), (∀ p ∈ children, root.at? (here ++ [p.1]) = some p.2) →
      id ∈ scalarsBelow here children → root.HoldsValue id
  | [], _, hid => by
    rw [scalarsBelow] at hid
    cases hid
  | (name, n) :: rest, hat, hid => by
    rw [scalarsBelow, List.mem_append] at hid
    rcases hid with hid | hid
    · exact holdsValue_of_mem_scalars hbuilt (here ++ [name]) n (hat (name, n) List.mem_cons_self) hid
    · exact holdsValue_of_mem_scalarsBelow hbuilt here rest
        (fun p hp => hat p (List.mem_cons_of_mem _ hp)) hid

end

theorem Built.mem_scalars_iff (hbuilt : Built registry root) :
    id ∈ root.scalars [] ↔ root.HoldsValue id :=
  ⟨holdsValue_of_mem_scalars hbuilt [] root rfl, HoldsValue.mem_scalars⟩

theorem Built.plain_of_mem_scalars {n : Node} {f : Field} (hbuilt : Built registry root)
    (hid : id ∈ root.scalars []) (hfield : root.field? id = some (n, f)) :
    f.kind.isNested = false := by
  obtain ⟨_, _, hfield', hplain⟩ := hbuilt.mem_scalars_iff.mp hid
  rw [hfield] at hfield'
  cases hfield'
  exact hplain

end

/-- Two trees that differ at most below one field of their root, which holds a section. -/
structure SameOutside (name : String) (root root' : Node) : Prop where
  schema : root.schema = root'.schema
  slot : root.slot? = root'.slot?
  nested : ∀ f, root.schema.field? name = some f → f.kind.isNested = true
  supplied : ∀ other, other ≠ name →
    Json.supplied? root.members other = Json.supplied? root'.members other
  child : ∀ other, other ≠ name → root.child? other = root'.child? other

section
variable {name : String} {root root' : Node}

theorem child?_of_middle {n : Node} {before middle behind : List (String × Node)} {other : String}
    (hchildren : n.children = before ++ middle ++ behind) (hmiddle : ∀ p ∈ middle, p.1 = name)
    (hother : other ≠ name) : n.child? other = (before.lookup other).or (behind.lookup other) := by
  have hnone : middle.lookup other = none := by
    rw [List.lookup_eq_none_iff]
    intro p hp
    rw [hmiddle p hp]
    simpa using hother
  rw [child?, hchildren, List.lookup_append, List.lookup_append, hnone, Option.or_none]

theorem sameOutside_of_middle {before middle middle' behind : List (String × Node)} {f : Field}
    (hschema : root.schema = root'.schema) (hslot : root.slot? = root'.slot?)
    (hf : f ∈ root.schema.fields) (hnested : f.kind.isNested = true)
    (hmembers : ∀ other, other ≠ f.name →
      Json.supplied? root.members other = Json.supplied? root'.members other)
    (hchildren : root.children = before ++ middle ++ behind)
    (hchildren' : root'.children = before ++ middle' ++ behind)
    (hmiddle : ∀ p ∈ middle, p.1 = f.name) (hmiddle' : ∀ p ∈ middle', p.1 = f.name) :
    SameOutside f.name root root' where
  schema := hschema
  slot := hslot
  nested := by
    intro g hg
    rw [Schema.field?_of_mem _ hf] at hg
    cases hg
    exact hnested
  supplied := hmembers
  child := fun other hother => by
    rw [child?_of_middle hchildren hmiddle hother, child?_of_middle hchildren' hmiddle' hother]

theorem SameOutside.at? (h : SameOutside name root root') {first : String} {rest : Address}
    (hfirst : first ≠ name) : root.at? (first :: rest) = root'.at? (first :: rest) := by
  rw [Node.at?, Node.at?, h.child first hfirst]

theorem SameOutside.field? (h : SameOutside name root root') {id : FieldId}
    (hout : id.owner.head? ≠ some name) :
    (root.field? id = none ∧ root'.field? id = none) ∨
      ∃ n n' f, root.field? id = some (n, f) ∧ root'.field? id = some (n', f) ∧
        (f.kind.isNested = false → ∀ strict, n.sources strict f = n'.sources strict f) := by
  rcases id with ⟨_ | ⟨first, rest⟩, own⟩
  · have hfield : root.field? ⟨[], own⟩ = (root.schema.field? own).map (root, ·) := rfl
    have hfield' : root'.field? ⟨[], own⟩ = (root.schema.field? own).map (root', ·) := by
      rw [h.schema]
      rfl
    rw [hfield, hfield']
    cases hf : root.schema.field? own with
    | none => exact .inl ⟨rfl, rfl⟩
    | some f =>
      refine .inr ⟨root, root', f, rfl, rfl, fun hplain strict => ?_⟩
      have hne : f.name ≠ name := by
        intro heq
        have hname := (Schema.mem_of_field? hf).2
        have hnested := h.nested f (by rw [← heq, hname, hf])
        rw [hplain] at hnested
        cases hnested
      rw [sources, sources, fallback?, fallback?, h.supplied f.name hne, h.slot]
  · have hfirst : first ≠ name := fun heq => hout (congrArg some heq)
    have hsame : root.field? ⟨first :: rest, own⟩ = root'.field? ⟨first :: rest, own⟩ := by
      rw [Node.field?, Node.field?, h.at? hfirst]
    cases hf : root.field? ⟨first :: rest, own⟩ with
    | none =>
      rw [hf] at hsame
      exact .inl ⟨rfl, hsame.symm⟩
    | some p =>
      rw [hf] at hsame
      exact .inr ⟨p.1, p.1, p.2, rfl, hsame.symm, fun _ _ => rfl⟩

theorem SameOutside.locate? (h : SameOutside name root root') {reference : Reference}
    (hfree : ∀ rest, reference ≠ .field name :: rest) :
    root.locate? [] reference = root'.locate? [] reference := by
  rcases reference with _ | ⟨⟨first⟩ | tag, rest⟩
  · rfl
  · have hfirst : first ≠ name := by
      rintro rfl
      exact hfree rest rfl
    rw [Node.locate?, Node.locate?, h.child first hfirst, h.schema]
  · rfl

/-- A reference leads to no section above the one it is followed from. -/
theorem owner_of_locate? {n : Node} {here : Address} {reference : Reference} {t : Target}
    (h : n.locate? here reference = some t) : here <+: t.field.owner := by
  induction reference generalizing n here with
  | nil => cases h
  | cons segment rest ih =>
    cases segment with
    | tag tag => cases h
    | field first =>
      rw [Node.locate?] at h
      split at h
      · exact (List.prefix_append here [first]).trans (ih h)
      · unfold target? at h
        split at h
        · split at h
          · cases h
          · cases h
            exact List.prefix_rfl
        · obtain ⟨f, -, rfl⟩ := Option.map_eq_some_iff.mp h
          exact List.prefix_rfl

theorem outside_of_locate? {reference : Reference} {t : Target}
    (hfree : ∀ rest, reference ≠ .field name :: rest) (h : root.locate? [] reference = some t) :
    t.field.owner.head? ≠ some name := by
  rcases reference with _ | ⟨⟨first⟩ | tag, rest⟩
  · cases h
  · have hfirst : first ≠ name := by
      rintro rfl
      exact hfree rest rfl
    rw [Node.locate?] at h
    split at h
    · obtain ⟨below, howner⟩ := owner_of_locate? h
      rw [← howner]
      simpa using hfirst
    · unfold target? at h
      split at h
      · split at h
        · cases h
        · cases h
          exact (Option.some_ne_none name).symm
      · obtain ⟨f, -, rfl⟩ := Option.map_eq_some_iff.mp h
        exact (Option.some_ne_none name).symm
  · cases h

end

/-- No source of a field outside of a section refers into the section. -/
def FreeOf (strict : Bool) (name : String) (root : Node) : Prop :=
  ∀ id n f, root.field? id = some (n, f) → id.owner.head? ≠ some name →
    ∀ expression required, .reference expression required ∈ n.sources strict f →
      ∀ rest, Reference.parse? expression ≠ some (.field name :: rest)

end Node

namespace Plain

section
variable {ctx : Context} {registry : Registry} {root root' : Node} {name : String}

theorem field_of_built (hbuilt : root.Built registry) (busy : List FieldId) (id : FieldId) :
    field ctx root busy id =
      if id ∈ busy then .error (.cyclicReference id.path)
      else match root.field? id with
        | some (n, f) =>
          if f.kind.isNested then .error (.unknownField id.name id.owner.path)
          else evaluate ctx root n id f (field ctx root (id :: busy))
        | none => .error (.unknownField id.name id.owner.path) := by
  rw [field]
  by_cases hbusy : id ∈ busy
  · rw [dif_pos hbusy, if_pos hbusy]
  · rw [dif_neg hbusy, if_neg hbusy]
    cases hfield : root.field? id with
    | none => simp
    | some p =>
      rcases p with ⟨n, f⟩
      have hscalar : id ∈ root.scalars [] ↔ f.kind.isNested = false := by
        rw [hbuilt.mem_scalars_iff]
        constructor
        · rintro ⟨_, _, heq, hplain⟩
          rw [hfield] at heq
          cases heq
          exact hplain
        · exact fun hplain => ⟨n, f, hfield, hplain⟩
      cases hplain : f.kind.isNested with
      | false => simp [hscalar, hplain]
      | true => simp [hscalar, hplain]

theorem follow_outside (hsame : Node.SameOutside name root root') {read read' : Reader}
    (hread : ∀ id, id.owner.head? ≠ some name → read id = read' id) {expression : String}
    (hfree : ∀ rest, Reference.parse? expression ≠ some (.field name :: rest)) (path : String) :
    follow root expression path read = follow root' expression path read' := by
  unfold follow
  cases hparse : Reference.parse? expression with
  | none => rfl
  | some reference =>
    have hne : ∀ rest, reference ≠ .field name :: rest := by
      rintro rest rfl
      exact hfree rest hparse
    simp only
    rw [← hsame.locate? hne]
    cases hlocate : root.locate? [] reference with
    | none => rfl
    | some t =>
      have hout := Node.outside_of_locate? hne hlocate
      simp only [readTarget, Inquiry.bind_apply, ask, hread _ hout]
      cases read' t.field with
      | error e => rfl
      | ok e => cases t.side? <;> rfl

theorem firstInput_outside (hsame : Node.SameOutside name root root') {read read' : Reader}
    (hread : ∀ id, id.owner.head? ≠ some name → read id = read' id) (path : String)
    {sources : List Source} (hfree : ∀ expression required,
      .reference expression required ∈ sources →
        ∀ rest, Reference.parse? expression ≠ some (.field name :: rest)) :
    firstInput root path sources read = firstInput root' path sources read' := by
  induction sources with
  | nil => rfl
  | cons source rest ih =>
    cases source with
    | given i => rfl
    | reference expression required =>
      have hfollow := follow_outside hsame hread (hfree expression required List.mem_cons_self) path
      have hrest := ih fun e r hmem => hfree e r (List.mem_cons_of_mem _ hmem)
      simp only [firstInput, Inquiry.bind_apply, hfollow]
      cases follow root' expression path read' with
      | error e => rfl
      | ok v? =>
        cases v? with
        | some v => rfl
        | none =>
          cases required with
          | true => rfl
          | false => exact hrest

/-- A field outside of what differs has one value in both trees. -/
theorem field_outside (hbuilt : root.Built registry) (hbuilt' : root'.Built registry)
    (hsame : Node.SameOutside name root root')
    (hfree : root.FreeOf ctx.settings.strictReferences name) (busy : List FieldId) {id : FieldId}
    (hout : id.owner.head? ≠ some name) : field ctx root busy id = field ctx root' busy id := by
  -- The induction is on the number of fields that are left.
  induction hn : (left root busy).length using Nat.strongRecOn generalizing busy id with
  | _ size ih =>
    rw [field_of_built hbuilt, field_of_built hbuilt']
    by_cases hbusy : id ∈ busy
    · rw [if_pos hbusy, if_pos hbusy]
    · rw [if_neg hbusy, if_neg hbusy]
      rcases hsame.field? hout with ⟨hnone, hnone'⟩ | ⟨n, n', f, hfield, hfield', hsources⟩
      · rw [hnone, hnone']
      · rw [hfield, hfield']
        cases hplain : f.kind.isNested with
        | true => simp only [hplain, if_true]
        | false =>
          have hscalar : id ∈ root.scalars [] := hbuilt.mem_scalars_iff.mpr ⟨n, f, hfield, hplain⟩
          have hlt := length_left_lt hscalar hbusy
          rw [hn] at hlt
          have hread : ∀ id', id'.owner.head? ≠ some name →
              field ctx root (id :: busy) id' = field ctx root' (id :: busy) id' :=
            fun id' hout' => ih _ hlt (id :: busy) hout' rfl
          have hinput := firstInput_outside hsame hread id.path
            (hfree id n f hfield hout)
          simp only [hplain, Bool.false_eq_true, if_false, evaluate, Inquiry.bind_apply]
          rw [← hsources hplain, hinput]
          rfl

end

end Plain
end CrowdScenario
