import CrowdScenario.Proofs.Resolution.Moves
import Mathlib.Data.List.Basic
import Mathlib.Logic.Relation

/-!
# Cycles

An evaluation reports a cycle exactly where it comes back to a field that it is in the middle of. It
does so exactly if what its fields read, read in turn, comes round to one of them: fields get their
values after what they read has them, so that without coming back there is an order to them
(`comesBack_iff`).
-/

namespace CrowdScenario
namespace Evaluation

open Relation

section
variable (ctx : Context) (root : Node) (asked : FieldId)

/-- The evaluation reads a field while it is in the middle of it. -/
def ComesBack (s : Evaluation) (id : FieldId) : Prop :=
  ∃ ids s', Runs ctx root asked s ids s' ∧ reads? root asked s' = some id ∧ id ∈ s'.busy

/-- The evaluation reads one field for the sake of another, which is the latest it is in the middle
of. -/
def ReadsFor (s : Evaluation) (reader id : FieldId) : Prop :=
  ∃ ids s', Runs ctx root asked s ids s' ∧ s'.busy.head? = some reader ∧
    reads? root asked s' = some id

end

variable {ctx : Context} {root : Node} {asked : FieldId} {s s' : Evaluation} {id : FieldId}
  {ids : List FieldId} {result : Except CompileError Value} {m : Memo}

theorem ComesBack.ends (h : ComesBack ctx root asked s id) (hs : s.Sane) :
    ∃ ids m, Ends ctx root asked s ids (.error (.cyclicReference id.path)) m := by
  obtain ⟨ids, s', hruns, hreads, hbusy⟩ := h
  refine ⟨ids, unwind s'.busy s'.memory, s', hruns, ?_⟩
  rw [move_eq_enter hreads ((hruns.sane hs).idle id hbusy), enter, if_pos hbusy]
  rfl

/-- A cycle is reported exactly for a field that the evaluation comes back to. -/
theorem Ends.cyclic_iff (h : Ends ctx root asked s ids result m) (hs : s.Sane) (p : String) :
    result = .error (.cyclicReference p) ↔ ∃ id, ComesBack ctx root asked s id ∧ id.path = p := by
  constructor
  · rintro rfl
    obtain ⟨last, hruns, hhalt⟩ := h
    obtain ⟨id, hreads, hbusy, hpath⟩ := move_eq_cyclic hhalt
    exact ⟨id, ⟨ids, last, hruns, hreads, hbusy⟩, hpath⟩
  · rintro ⟨id, hback, rfl⟩
    obtain ⟨ids', m', hends⟩ := hback.ends hs
    exact (h.unique hends).1

/-- The fields with values, the oldest value first, and then those that are to have theirs next. -/
def order (s : Evaluation) : List FieldId := (s.memory.values.map Prod.fst).reverse ++ s.busy

def After (s : Evaluation) (later earlier : FieldId) : Prop :=
  later ∈ s.order ∧ s.order.idxOf earlier < s.order.idxOf later

theorem value?_eq_none_iff : m.value? id = none ↔ id ∉ m.values.map Prod.fst := by
  rw [Memo.value?, List.lookup_eq_none_iff, List.mem_map]
  constructor
  · rintro h ⟨p, hp, rfl⟩
    simpa using h p hp
  · intro h p hp
    have hne : id ≠ p.1 := fun heq => h ⟨p, hp, heq.symm⟩
    simpa using hne

theorem idxOf_append_cons_lt {before behind : List FieldId} {new later earlier : FieldId}
    (hlater : later ≠ new) (hearlier : earlier ≠ new)
    (h : (before ++ behind).idxOf earlier < (before ++ behind).idxOf later) :
    (before ++ new :: behind).idxOf earlier < (before ++ new :: behind).idxOf later := by
  by_cases hl : later ∈ before
  · have hlt := List.idxOf_lt_length_of_mem hl
    by_cases he : earlier ∈ before
    · simpa [List.idxOf_append_of_mem, hl, he] using h
    · rw [List.idxOf_append_of_mem hl, List.idxOf_append_of_notMem he] at h
      omega
  · rw [List.idxOf_append_of_notMem hl] at h ⊢
    rw [List.idxOf_cons_ne _ hlater.symm]
    by_cases he : earlier ∈ before
    · have hlt := List.idxOf_lt_length_of_mem he
      rw [List.idxOf_append_of_mem he]
      omega
    · rw [List.idxOf_append_of_notMem he] at h ⊢
      rw [List.idxOf_cons_ne _ hearlier.symm]
      omega

theorem After.trans {later between earlier : FieldId} (h : s.After later between)
    (h' : s.After between earlier) : s.After later earlier := ⟨h.1, Nat.lt_trans h'.2 h.2⟩

theorem After.start {later earlier : FieldId} (h : s.After later earlier)
    (next : move ctx root asked s = .start id s') : s'.After later earlier := by
  obtain ⟨hlater, hlt⟩ := h
  obtain ⟨-, hvalue, hbusy, n, f, -, rfl⟩ := move_eq_start next
  have hnew : id ∉ s.order := by
    rw [order, List.mem_append, List.mem_reverse, not_or]
    exact ⟨value?_eq_none_iff.mp hvalue, hbusy⟩
  have hearlier : earlier ∈ s.order :=
    List.idxOf_lt_length_iff.mp (Nat.lt_trans hlt (List.idxOf_lt_length_of_mem hlater))
  have hne : ∀ x ∈ s.order, x ≠ id := fun x hx heq => hnew (heq ▸ hx)
  refine ⟨?_, idxOf_append_cons_lt (hne later hlater) (hne earlier hearlier) hlt⟩
  rw [order, List.mem_append] at hlater ⊢
  exact hlater.imp_right (List.mem_cons_of_mem _)

theorem After.pass {later earlier : FieldId} (h : s.After later earlier)
    (next : move ctx root asked s = .pass s') : s'.After later earlier := by
  have horder : s'.order = s.order := by
    obtain ⟨m, fr, rest, rfl, ⟨left, -, rfl⟩ | ⟨m', v, hvalues, -, rfl⟩⟩ := move_eq_pass next
    · rfl
    · simp [order, busy, Memo.remember, Memo.stop, hvalues]
  rw [After, horder]
  exact h

theorem After.run {later earlier : FieldId} (h : s.After later earlier)
    (hruns : Runs ctx root asked s ids s') : s'.After later earlier := by
  induction hruns with
  | stay => exact h
  | pass next _ ih => exact ih (h.pass next)
  | start next _ ih => exact ih (h.start next)

theorem after_of_value {reader : FieldId} (hs : s.Sane) (hreader : s.busy.head? = some reader)
    (hvalue : s.memory.value? id ≠ none) : s.After reader id := by
  have hbusy : reader ∈ s.busy := List.mem_of_head? hreader
  have hread : id ∈ (s.memory.values.map Prod.fst).reverse := by
    rw [List.mem_reverse]
    exact not_not.mp fun h => hvalue (value?_eq_none_iff.mpr h)
  have hnot : reader ∉ (s.memory.values.map Prod.fst).reverse := by
    rw [List.mem_reverse]
    exact value?_eq_none_iff.mp (hs.idle reader hbusy)
  have hlt := List.idxOf_lt_length_of_mem hread
  refine ⟨List.mem_append_right _ hbusy, ?_⟩
  rw [order, List.idxOf_append_of_mem hread, List.idxOf_append_of_notMem hnot]
  omega

theorem after_of_start {reader : FieldId} (hs : s.Sane) (hreader : s.busy.head? = some reader)
    (next : move ctx root asked s = .start id s') : s'.After reader id := by
  have hbusy : reader ∈ s.busy := List.mem_of_head? hreader
  obtain ⟨-, hvalue, hnew, n, f, -, rfl⟩ := move_eq_start next
  have hne : id ≠ reader := fun heq => hnew (heq ▸ hbusy)
  have hid : id ∉ (s.memory.values.map Prod.fst).reverse := by
    rw [List.mem_reverse]
    exact value?_eq_none_iff.mp hvalue
  have hnot : reader ∉ (s.memory.values.map Prod.fst).reverse := by
    rw [List.mem_reverse]
    exact value?_eq_none_iff.mp (hs.idle reader hbusy)
  refine ⟨List.mem_append_right _ (List.mem_cons_of_mem _ hbusy), ?_⟩
  show List.idxOf id ((s.memory.values.map Prod.fst).reverse ++ id :: s.busy) <
    List.idxOf reader ((s.memory.values.map Prod.fst).reverse ++ id :: s.busy)
  rw [List.idxOf_append_of_notMem hid, List.idxOf_append_of_notMem hnot, List.idxOf_cons_self,
    List.idxOf_cons_ne _ hne]
  omega

/-- Where an evaluation does not come back, every field has its value after what it reads. -/
theorem ReadsFor.after {reader : FieldId} {last : Evaluation}
    (h : ReadsFor ctx root asked s reader id) (hasked : root.HoldsValue asked) (hs : s.Sane)
    (hlast : Runs ctx root asked s ids last) (hhalt : move ctx root asked last = .halt result m)
    (hforward : ∀ id, ¬ ComesBack ctx root asked s id) : last.After reader id := by
  obtain ⟨ids', s', hruns, hreader, hreads⟩ := h
  have hs' := hruns.sane hs
  obtain ⟨behind, honward⟩ := hruns.onward hlast hhalt
  by_cases hvalue : s'.memory.value? id = none
  · have hbusy : id ∉ s'.busy := fun hbusy => hforward id ⟨ids', s', hruns, hreads, hbusy⟩
    obtain ⟨n, f, hfield, -⟩ := holdsValue_of_reads? hasked hreads
    have hstart : move ctx root asked s' = enter ctx root s' id := move_eq_enter hreads hvalue
    rw [enter, if_neg hbusy, hfield] at hstart
    have hafter := after_of_start hs' hreader hstart
    cases honward with
    | stay =>
      rw [hstart] at hhalt
      cases hhalt
    | pass next =>
      rw [hstart] at next
      cases next
    | start next rest =>
      rw [hstart] at next
      cases next
      exact hafter.run rest
  · exact (after_of_value hs' hreader hvalue).run honward

/-- What the evaluation is in the middle of is read for the field that is asked for, and each of it
for the one before it. -/
structure Linked (ctx : Context) (root : Node) (asked : FieldId) (first s : Evaluation) : Prop where
  chain : s.busy.Pairwise fun x y => TransGen (ReadsFor ctx root asked first) y x
  origin : ∀ x ∈ s.busy, ReflTransGen (ReadsFor ctx root asked first) asked x

theorem Linked.start {first : Evaluation} (h : Linked ctx root asked first s)
    (hruns : Runs ctx root asked first ids s) (next : move ctx root asked s = .start id s') :
    Linked ctx root asked first s' := by
  obtain ⟨hreads, -, -, n, f, -, rfl⟩ := move_eq_start next
  rcases s with ⟨m, _ | ⟨fr, rest⟩⟩
  · cases hreads
    refine ⟨List.pairwise_singleton _ _, fun x hx => ?_⟩
    rw [List.mem_singleton.mp hx]
  · have hread : ReadsFor ctx root asked first fr.field id := ⟨ids, _, hruns, rfl, hreads⟩
    have hchain := h.chain
    refine ⟨List.pairwise_cons.mpr ⟨fun y hy => ?_, hchain⟩, fun x hx => ?_⟩
    · rcases List.mem_cons.mp hy with rfl | hy
      · exact .single hread
      · exact (List.rel_of_pairwise_cons hchain hy).tail hread
    · rcases List.mem_cons.mp hx with rfl | hx
      · exact (h.origin fr.field List.mem_cons_self).tail hread
      · exact h.origin x hx

theorem Linked.pass {first : Evaluation} (h : Linked ctx root asked first s)
    (next : move ctx root asked s = .pass s') : Linked ctx root asked first s' := by
  obtain ⟨m, fr, rest, rfl, ⟨left, -, rfl⟩ | ⟨m', v, -, -, rfl⟩⟩ := move_eq_pass next
  · exact ⟨h.chain, h.origin⟩
  · exact ⟨(List.pairwise_cons.mp h.chain).2, fun x hx => h.origin x (List.mem_cons_of_mem _ hx)⟩

theorem Runs.linked {first : Evaluation} {ids' : List FieldId}
    (hruns : Runs ctx root asked s ids s') (hbefore : Runs ctx root asked first ids' s)
    (h : Linked ctx root asked first s) : Linked ctx root asked first s' := by
  induction hruns generalizing ids' with
  | stay => exact h
  | pass next _ ih => exact ih (hbefore.trans (.pass next (.stay _))) (h.pass next)
  | start next _ ih => exact ih (hbefore.trans (.start next (.stay _))) (h.start hbefore next)

theorem ComesBack.transGen {m : Memo} (h : ComesBack ctx root asked ⟨m, []⟩ id) :
    ReflTransGen (ReadsFor ctx root asked ⟨m, []⟩) asked id ∧
      TransGen (ReadsFor ctx root asked ⟨m, []⟩) id id := by
  obtain ⟨ids, ⟨m', _ | ⟨fr, rest⟩⟩, hruns, hreads, hbusy⟩ := h
  · cases hbusy
  · have hlinked : Linked ctx root asked ⟨m, []⟩ ⟨m', fr :: rest⟩ :=
      hruns.linked (.stay _) ⟨.nil, nofun⟩
    have hread : ReadsFor ctx root asked ⟨m, []⟩ fr.field id := ⟨ids, _, hruns, rfl, hreads⟩
    refine ⟨hlinked.origin id hbusy, ?_⟩
    rcases List.mem_cons.mp hbusy with rfl | hbusy
    · exact .single hread
    · exact (List.rel_of_pairwise_cons hlinked.chain hbusy).tail hread

/-- An evaluation comes back exactly if something is read in turn for itself. -/
theorem comesBack_iff {m m' : Memo} (hasked : root.HoldsValue asked) (hm : m.underway = [])
    (h : Ends ctx root asked ⟨m, []⟩ ids result m') :
    (∃ id, ComesBack ctx root asked ⟨m, []⟩ id) ↔
      ∃ id, ReflTransGen (ReadsFor ctx root asked ⟨m, []⟩) asked id ∧
        TransGen (ReadsFor ctx root asked ⟨m, []⟩) id id := by
  constructor
  · rintro ⟨id, hback⟩
    exact ⟨id, hback.transGen⟩
  · rintro ⟨id, -, hcycle⟩
    by_contra hforward
    obtain ⟨last, hruns, hhalt⟩ := h
    have hsane : Sane ⟨m, []⟩ := ⟨hm, List.nodup_nil, nofun⟩
    have hafter : ∀ {x y}, TransGen (ReadsFor ctx root asked ⟨m, []⟩) x y → last.After x y := by
      intro x y hxy
      induction hxy with
      | single hread => exact hread.after hasked hsane hruns hhalt (not_exists.mp hforward)
      | tail _ hread ih =>
        exact ih.trans (hread.after hasked hsane hruns hhalt (not_exists.mp hforward))
    exact Nat.lt_irrefl _ (hafter hcycle).2

def Refers (ctx : Context) (root : Node) (id id' : FieldId) : Prop :=
  ∃ n f source t, root.field? id = some (n, f) ∧
    source ∈ n.sources ctx.settings.strictReferences f ∧ leads? root [source] = some t ∧
    t.field = id'

def Sourced (ctx : Context) (root : Node) (s : Evaluation) : Prop :=
  ∀ fr ∈ s.frames, ∃ n f, root.field? fr.field = some (n, f) ∧
    fr.sources <:+ n.sources ctx.settings.strictReferences f

theorem Runs.sourced (h : Runs ctx root asked s ids s') (hs : s.Sourced ctx root) :
    s'.Sourced ctx root := by
  induction h with
  | stay => exact hs
  | pass next _ ih =>
    refine ih ?_
    obtain ⟨m, fr, rest, rfl, ⟨left, hleft, rfl⟩ | ⟨m', v, -, -, rfl⟩⟩ := move_eq_pass next
    · intro fr' hfr'
      rcases List.mem_cons.mp hfr' with rfl | hfr'
      · obtain ⟨n, f, hfield, hsources⟩ := hs fr List.mem_cons_self
        exact ⟨n, f, hfield, hleft.trans hsources⟩
      · exact hs fr' (List.mem_cons_of_mem _ hfr')
    · exact fun fr' hfr' => hs fr' (List.mem_cons_of_mem _ hfr')
  | start next _ ih =>
    refine ih ?_
    obtain ⟨-, -, -, n, f, hfield, rfl⟩ := move_eq_start next
    intro fr' hfr'
    rcases List.mem_cons.mp hfr' with rfl | hfr'
    · exact ⟨n, f, hfield, List.suffix_rfl⟩
    · exact hs fr' hfr'

theorem ReadsFor.refers {reader : FieldId} (h : ReadsFor ctx root asked ⟨m, []⟩ reader id) :
    Refers ctx root reader id := by
  obtain ⟨ids, ⟨m', _ | ⟨fr, rest⟩⟩, hruns, hreader, hreads⟩ := h
  · cases hreader
  · cases hreader
    obtain ⟨n, f, hfield, hsources⟩ := hruns.sourced nofun fr List.mem_cons_self
    obtain ⟨t, hleads, rfl⟩ := Option.map_eq_some_iff.mp hreads
    cases hleft : fr.sources with
    | nil =>
      rw [hleft] at hleads
      cases hleads
    | cons source left =>
      rw [hleft] at hleads hsources
      refine ⟨n, f, source, t, hfield, hsources.mem List.mem_cons_self, ?_, rfl⟩
      cases source <;> exact hleads

end Evaluation
end CrowdScenario
