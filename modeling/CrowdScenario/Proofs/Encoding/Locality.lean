import CrowdScenario.Proofs.Encoding.Order

/-!
# Where the steps of an encoding are taken

Every step is taken in the section it belongs to, and asks for fields of this section alone
(`Step.plain_congr`). So steps that are taken elsewhere write the same whenever the fields there have
the same values.
-/

namespace CrowdScenario
namespace Encoding

def Step.here : Step → Address
  | field here _ _ => here
  | distribution here _ _ => here

mutual

theorem prefix_of_mem_steps {s : Step} (here : Address) :
    ∀ n, s ∈ steps here n → here <+: s.here
  | ⟨schema, some slot, _, _⟩, hs => by
    rw [steps, List.mem_singleton] at hs
    rw [hs]
    exact List.prefix_rfl
  | ⟨schema, none, _, children⟩, hs => by
    rw [steps, List.mem_append] at hs
    rcases hs with hs | hs
    · obtain ⟨f, -, rfl⟩ := List.mem_map.mp hs
      exact List.prefix_rfl
    · obtain ⟨p, -, hp⟩ := prefix_of_mem_stepsBelow here children hs
      exact (List.prefix_append here [p.1]).trans hp

theorem prefix_of_mem_stepsBelow {s : Step} (here : Address) :
    ∀ children, s ∈ stepsBelow here children → ∃ p ∈ children, here ++ [p.1] <+: s.here
  | [], hs => by
    rw [stepsBelow] at hs
    cases hs
  | (name, n) :: rest, hs => by
    rw [stepsBelow, List.mem_append] at hs
    rcases hs with hs | hs
    · exact ⟨(name, n), List.mem_cons_self, prefix_of_mem_steps (here ++ [name]) n hs⟩
    · obtain ⟨p, hmem, hp⟩ := prefix_of_mem_stepsBelow here rest hs
      exact ⟨p, List.mem_cons_of_mem _ hmem, hp⟩

end

theorem stepsBelow_append (here : Address) (before behind : List (String × Node)) :
    stepsBelow here (before ++ behind) = stepsBelow here before ++ stepsBelow here behind := by
  induction before with
  | nil => rw [stepsBelow, List.nil_append, List.nil_append]
  | cons p rest ih =>
    rcases p with ⟨name, n⟩
    rw [List.cons_append, stepsBelow, stepsBelow, ih, List.append_assoc]

section
variable {ctx : Context} {read read' : Reader}

theorem bind_congr {α β : Type} {p : Inquiry α} {next : α → Inquiry β} (hp : p read = p read')
    (hnext : ∀ a, next a read = next a read') : (p >>= next) read = (p >>= next) read' := by
  rw [Inquiry.bind_apply, Inquiry.bind_apply, hp]
  cases p read' with
  | error e => rfl
  | ok a => exact hnext a

theorem resolve_congr {here : Address} (h : ∀ name, read ⟨here, name⟩ = read' ⟨here, name⟩)
    (schema : Schema) (name : String) :
    Plain.resolve here schema name read = Plain.resolve here schema name read' := by
  unfold Plain.resolve
  cases schema.field? name with
  | none => rfl
  | some f =>
    simp only
    split
    · rfl
    · exact h name

theorem distribution_congr {here : Address} (h : ∀ name, read ⟨here, name⟩ = read' ⟨here, name⟩)
    (schema : Schema) :
    Plain.distribution here schema read = Plain.distribution here schema read' := by
  have hnumber : ∀ name, Plain.distributionNumber here schema name read =
      Plain.distributionNumber here schema name read' := by
    refine fun name => bind_congr (resolve_congr h schema name) fun e => ?_
    cases e.value.float? <;> rfl
  have hkind : Plain.distributionKind here schema read =
      Plain.distributionKind here schema read' := by
    refine bind_congr (resolve_congr h schema Schema.kindField) fun e => ?_
    cases DistributionKind.ofName? (e.value.text?.getD "") <;> rfl
  refine bind_congr hkind fun kind => ?_
  refine bind_congr (hnumber kind.firstName) fun first => ?_
  exact bind_congr (hnumber kind.secondName) fun second => rfl

theorem Step.plain_congr {s : Step} (h : ∀ name, read ⟨s.here, name⟩ = read' ⟨s.here, name⟩)
    (w : Writer) : s.plain ctx w read = s.plain ctx w read' := by
  cases s with
  | field here schema f => exact bind_congr (resolve_congr h schema f.name) fun e => rfl
  | distribution here schema slot => exact bind_congr (distribution_congr h schema) fun d => rfl

theorem allPlain_congr {ss : List Step}
    (h : ∀ s ∈ ss, ∀ name, read ⟨s.here, name⟩ = read' ⟨s.here, name⟩) :
    allPlain ctx read ss = allPlain ctx read' ss := by
  have hsteps : (ss.map fun s => s.plain ctx .empty read) = ss.map fun s => s.plain ctx .empty read' :=
    List.map_congr_left fun s hs => Step.plain_congr (h s hs) .empty
  rw [allPlain, allPlain, hsteps]

theorem allPlain_append_eq_ok {before behind : List Step} {w : Writer} :
    allPlain ctx read (before ++ behind) = .ok w ↔
      ∃ w1 w2, allPlain ctx read before = .ok w1 ∧ allPlain ctx read behind = .ok w2 ∧
        w = join w1 w2 := by
  rw [allPlain_append, bind_eq_ok]
  constructor
  · intro h
    obtain ⟨w1, hw1, hrest⟩ := h
    obtain ⟨w2, hw2, rfl⟩ := map_eq_ok.mp hrest
    exact ⟨w1, w2, hw1, hw2, rfl⟩
  · intro h
    obtain ⟨w1, w2, hw1, hw2, rfl⟩ := h
    exact ⟨w1, hw1, map_eq_ok.mpr ⟨w2, hw2, rfl⟩⟩

end

end Encoding

end CrowdScenario
