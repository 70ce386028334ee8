import CrowdScenario.Tree.Basic

/-!
# The grammar of references

A reference is written as a mark and its segments with points between them. Whatever is parsed is
written so, and whatever is written so, from segments that fit, is parsed (`parse?_eq_some`). The
path of a field is the reference to it without the mark.
-/

namespace CrowdScenario

namespace Text

variable {mark : Char}

theorem not_mem_of_mem_parts {cs part : List Char} (h : part ∈ parts mark cs) : mark ∉ part := by
  induction cs generalizing part with
  | nil =>
    rw [List.mem_singleton.mp h]
    exact List.not_mem_nil
  | cons c cs ih =>
    rw [parts] at h
    split at h
    · cases h with
      | head => exact List.not_mem_nil
      | tail _ h => exact ih h
    next hc =>
    split at h
    · rw [List.mem_singleton.mp h, List.mem_singleton]
      exact fun heq => hc heq.symm
    · next first rest hparts =>
      cases h with
      | head =>
        rw [List.mem_cons, not_or]
        exact ⟨fun heq => hc heq.symm, ih (hparts ▸ List.mem_cons_self)⟩
      | tail _ h => exact ih (hparts ▸ List.mem_cons_of_mem _ h)

theorem parts_joinParts_append {ps : List (List Char)} (hne : ps ≠ []) (h : ∀ p ∈ ps, mark ∉ p)
    (cs : List Char) : parts mark (joinParts mark ps ++ mark :: cs) = ps ++ parts mark cs := by
  induction ps with
  | nil => exact absurd rfl hne
  | cons p ps ih =>
    have hp := h p List.mem_cons_self
    cases ps with
    | nil => exact parts_append hp cs
    | cons next rest =>
      have hrest := ih (List.cons_ne_nil _ _) fun q hq => h q (List.mem_cons_of_mem _ hq)
      rw [joinParts, List.append_assoc, List.cons_append, parts_append hp, hrest]
      rfl

theorem parts_joinParts {ps : List (List Char)} (hne : ps ≠ []) (h : ∀ p ∈ ps, mark ∉ p) :
    parts mark (joinParts mark ps) = ps := by
  induction ps with
  | nil => exact absurd rfl hne
  | cons p ps ih =>
    have hp := h p List.mem_cons_self
    cases ps with
    | nil => exact parts_of_not_mem hp
    | cons next rest =>
      have hrest := ih (List.cons_ne_nil _ _) fun q hq => h q (List.mem_cons_of_mem _ hq)
      rw [joinParts, parts_append hp, hrest]

theorem joinParts_append {ps qs : List (List Char)} (hps : ps ≠ []) (hqs : qs ≠ []) :
    joinParts mark (ps ++ qs) = joinParts mark ps ++ mark :: joinParts mark qs := by
  induction ps with
  | nil => exact absurd rfl hps
  | cons p ps ih =>
    cases ps with
    | nil =>
      cases qs with
      | nil => exact absurd rfl hqs
      | cons q qs => rfl
    | cons next rest =>
      have hrest := ih (List.cons_ne_nil _ _)
      rw [List.cons_append] at hrest
      rw [List.cons_append, List.cons_append, joinParts, hrest, joinParts, List.append_assoc,
        List.cons_append]

end Text

namespace Segment

def text : Segment → List Char
  | field name => name.toList
  | tag name => '[' :: (name.toList ++ [']'])

/-- Whether a segment may stand between points. -/
def Fits : Segment → Prop
  | field name =>
    name.toList ≠ [] ∧ '.' ∉ name.toList ∧ ']' ∉ name.toList ∧ name.toList.head? ≠ some '['
  | tag name => name.toList ≠ [] ∧ '.' ∉ name.toList

instance (s : Segment) : Decidable s.Fits :=
  match s with
  | field name => inferInstanceAs (Decidable (name.toList ≠ [] ∧ _))
  | tag name => inferInstanceAs (Decidable (name.toList ≠ [] ∧ _))

theorem Fits.not_mem_text {s : Segment} (h : s.Fits) : '.' ∉ s.text := by
  cases s with
  | field name => exact h.2.1
  | tag name =>
    have hname : '.' ∉ name.toList := h.2
    simpa [text] using hname

end Segment

namespace Reference

open Segment

theorem segment?_bracket {rest : List Char} {s : Segment} (hpoint : '.' ∉ rest) :
    segment? ('[' :: rest) = some s ↔ s.Fits ∧ '[' :: rest = s.text := by
  constructor
  · intro h
    rw [segment?] at h
    split at h
    · next hclosed =>
      cases h
      obtain ⟨name, rfl⟩ := List.getLast?_eq_some_iff.mp hclosed.1
      have hname := hclosed.2
      rw [List.dropLast_concat] at hname ⊢
      refine ⟨⟨?_, ?_⟩, ?_⟩
      · rwa [String.toList_ofList]
      · rw [String.toList_ofList]
        exact fun hmem => hpoint (List.mem_append_left _ hmem)
      · rw [text, String.toList_ofList]
    · cases h
  · rintro ⟨hfits, htext⟩
    cases s with
    | field name =>
      have hhead := hfits.2.2.2
      rw [text] at htext
      rw [← htext] at hhead
      exact absurd rfl hhead
    | tag name =>
      obtain rfl : rest = name.toList ++ [']'] := (List.cons.inj htext).2
      simp [segment?, hfits.1, String.ofList_toList]

theorem segment?_eq_some {cs : List Char} {s : Segment} (hpoint : '.' ∉ cs) :
    segment? cs = some s ↔ s.Fits ∧ cs = s.text := by
  match cs with
  | [] =>
    refine ⟨nofun, fun h => ?_⟩
    cases s with
    | field name => exact absurd h.2.symm h.1.1
    | tag name => exact absurd h.2 (List.cons_ne_nil _ _).symm
  | c :: rest =>
    by_cases hc : c = '['
    · rw [hc]
      exact segment?_bracket fun hmem => hpoint (List.mem_cons_of_mem _ hmem)
    · have hplain : segment? (c :: rest) =
          if ']' ∈ c :: rest then none else some (.field (String.ofList (c :: rest))) := by
        rw [segment?]
        · exact nofun
        · exact fun _ heq => hc (List.cons.inj heq).1
      rw [hplain]
      constructor
      · intro h
        split at h
        · cases h
        · next hclosing =>
          cases h
          refine ⟨⟨?_, ?_, ?_, ?_⟩, ?_⟩
          · simp
          · rwa [String.toList_ofList]
          · rwa [String.toList_ofList]
          · simpa using hc
          · rw [text, String.toList_ofList]
      · rintro ⟨hfits, htext⟩
        cases s with
        | field name =>
          have hclosing : ']' ∉ c :: rest := by
            rw [htext]
            exact hfits.2.2.1
          rw [if_neg hclosing, htext, text, String.ofList_toList]
        | tag name => exact absurd (List.cons.inj htext).1 hc

theorem mapM_segment?_eq_some {ps : List (List Char)} {r : Reference} (h : ∀ p ∈ ps, '.' ∉ p) :
    ps.mapM segment? = some r ↔ (∀ s ∈ r, s.Fits) ∧ ps = r.map Segment.text := by
  induction ps generalizing r with
  | nil =>
    constructor
    · intro hmap
      cases hmap
      exact ⟨nofun, rfl⟩
    · rintro ⟨-, hnil⟩
      rw [List.map_eq_nil_iff.mp hnil.symm]
      rfl
  | cons p ps ih =>
    have hp := h p List.mem_cons_self
    have hps := fun q hq => h q (List.mem_cons_of_mem _ hq)
    rw [List.mapM_cons]
    simp only [Option.bind_eq_bind, Option.bind_eq_some_iff, segment?_eq_some hp, ih hps]
    constructor
    · rintro ⟨s, ⟨hs, rfl⟩, rest, ⟨hrest, rfl⟩, hcons⟩
      cases hcons
      exact ⟨List.forall_mem_cons.mpr ⟨hs, hrest⟩, rfl⟩
    · rintro ⟨hfits, hcons⟩
      obtain ⟨s, rest, rfl, hs, hrest⟩ := List.map_eq_cons_iff.mp hcons.symm
      obtain ⟨hfit, hfits⟩ := List.forall_mem_cons.mp hfits
      exact ⟨s, ⟨hfit, hs.symm⟩, rest, ⟨hfits, hrest.symm⟩, rfl⟩

def body (r : Reference) : List Char := Text.joinParts '.' (r.map Segment.text)

def text (r : Reference) : String := String.ofList (mark ++ body r)

theorem isReference_iff {e : String} : isReference e = true ↔ ∃ cs, e.toList = mark ++ cs := by
  rw [isReference, List.isPrefixOf_iff_prefix]
  exact ⟨fun ⟨cs, h⟩ => ⟨cs, h.symm⟩, fun ⟨cs, h⟩ => ⟨cs, h.symm⟩⟩

theorem parse?_of_mark {e : String} {cs : List Char} (h : e.toList = mark ++ cs) :
    parse? e = (Text.parts '.' cs).mapM segment? := by
  have href : isReference e = true := isReference_iff.mpr ⟨cs, h⟩
  rw [parse?, if_pos href, h, List.drop_left]

theorem parse?_eq_some {e : String} {r : Reference} :
    parse? e = some r ↔ r ≠ [] ∧ (∀ s ∈ r, s.Fits) ∧ e = text r := by
  constructor
  · intro h
    cases href : isReference e with
    | false => simp [parse?, href] at h
    | true =>
      obtain ⟨cs, hcs⟩ := isReference_iff.mp href
      rw [parse?_of_mark hcs,
        mapM_segment?_eq_some fun p hp => Text.not_mem_of_mem_parts hp] at h
      obtain ⟨hfits, hparts⟩ := h
      refine ⟨?_, hfits, ?_⟩
      · rintro rfl
        exact Text.parts_ne_nil '.' cs hparts
      · rw [text, body, ← hparts, Text.joinParts_parts, ← hcs, String.ofList_toList]
  · rintro ⟨hne, hfits, rfl⟩
    have hpoints : ∀ p ∈ r.map Segment.text, '.' ∉ p := by
      intro p hp
      obtain ⟨s, hs, rfl⟩ := List.mem_map.mp hp
      exact (hfits s hs).not_mem_text
    have hnil : r.map Segment.text ≠ [] := fun heq => hne (List.map_eq_nil_iff.mp heq)
    have hbody : (text r).toList = mark ++ body r := String.toList_ofList
    rw [parse?_of_mark hbody, body, Text.parts_joinParts hnil hpoints,
      mapM_segment?_eq_some hpoints]
    exact ⟨hfits, rfl⟩

end Reference

/-! ### Accepted texts -/

namespace Segment

/-- What may stand between points: something in brackets, or a name that needs none. -/
def IsWritten (cs : List Char) : Prop :=
  '.' ∉ cs ∧
    ((∃ tag, tag ≠ [] ∧ cs = '[' :: (tag ++ [']'])) ∨
      cs ≠ [] ∧ cs.head? ≠ some '[' ∧ ']' ∉ cs)

theorem Fits.isWritten {s : Segment} (h : s.Fits) : IsWritten s.text := by
  refine ⟨h.not_mem_text, ?_⟩
  cases s with
  | field name =>
    obtain ⟨hne, -, hclosing, hopening⟩ := h
    exact .inr ⟨hne, hopening, hclosing⟩
  | tag name => exact .inl ⟨name.toList, h.1, rfl⟩

theorem IsWritten.exists_fits {cs : List Char} (h : IsWritten cs) :
    ∃ s : Segment, s.Fits ∧ s.text = cs := by
  obtain ⟨hpoint, ⟨tag, hne, rfl⟩ | ⟨hne, hopening, hclosing⟩⟩ := h
  · have htag : '.' ∉ tag := by
      intro hmem
      exact hpoint (List.mem_cons_of_mem _ (List.mem_append_left _ hmem))
    refine ⟨.tag (String.ofList tag), ?_, ?_⟩
    · simp [Fits, hne, htag]
    · simp [text]
  · refine ⟨.field (String.ofList cs), ?_, ?_⟩
    · simp [Fits, hne, hpoint, hopening, hclosing]
    · simp [text]

/-- Texts are written segments exactly if they are those of segments that fit. -/
theorem exists_fits_iff {ps : List (List Char)} :
    (∃ r : Reference, (∀ s ∈ r, s.Fits) ∧ r.map text = ps) ↔ ∀ p ∈ ps, IsWritten p := by
  constructor
  · rintro ⟨r, hfits, rfl⟩ p hp
    obtain ⟨s, hs, rfl⟩ := List.mem_map.mp hp
    exact (hfits s hs).isWritten
  · intro h
    induction ps with
    | nil => exact ⟨[], nofun, rfl⟩
    | cons p ps ih =>
      obtain ⟨hp, hps⟩ := List.forall_mem_cons.mp h
      obtain ⟨s, hs, rfl⟩ := hp.exists_fits
      obtain ⟨r, hr, rfl⟩ := ih hps
      exact ⟨s :: r, List.forall_mem_cons.mpr ⟨hs, hr⟩, rfl⟩

end Segment

/-- A text is a reference exactly if it is the mark and then written segments with points between
them. Nothing is lost: what is parsed is written as before, what is written from segments that fit
is parsed as these, and no two texts are parsed as the same segments. -/
theorem Reference.grammar_lossless :
    (∀ e : String, (∃ r, parse? e = some r) ↔
      ∃ ps : List (List Char), ps ≠ [] ∧ (∀ p ∈ ps, Segment.IsWritten p) ∧
        e.toList = "ref:".toList ++ Text.joinParts '.' ps) ∧
    (∀ e r, parse? e = some r → text r = e) ∧
    (∀ r : Reference, r ≠ [] → (∀ s ∈ r, s.Fits) → parse? (text r) = some r) ∧
    ∀ e e' r, parse? e = some r → parse? e' = some r → e = e' := by
  have hwritten : ∀ e r, parse? e = some r → text r = e :=
    fun _ _ h => (parse?_eq_some.mp h).2.2.symm
  refine ⟨fun e => ?_, hwritten, ?_, ?_⟩
  · constructor
    · rintro ⟨r, hr⟩
      obtain ⟨hne, hfits, rfl⟩ := parse?_eq_some.mp hr
      refine ⟨r.map Segment.text, ?_, Segment.exists_fits_iff.mp ⟨r, hfits, rfl⟩, ?_⟩
      · exact fun hnil => hne (List.map_eq_nil_iff.mp hnil)
      · exact String.toList_ofList
    · rintro ⟨ps, hne, hps, he⟩
      obtain ⟨r, hfits, rfl⟩ := Segment.exists_fits_iff.mpr hps
      refine ⟨r, parse?_eq_some.mpr ⟨?_, hfits, ?_⟩⟩
      · rintro rfl
        exact hne rfl
      · rw [text, body, ← String.toList_inj, String.toList_ofList, he]
        rfl
  · exact fun r hne hfits => parse?_eq_some.mpr ⟨hne, hfits, rfl⟩
  · intro e e' r h h'
    rw [← hwritten e r h, hwritten e' r h']

/-- Only the outermost brackets belong to the reference, and a name may hold an opening one. -/
theorem Reference.grammar_lossless_brackets :
    parse? "ref:a[.[]].[[b]" = some [.field "a[", .tag "]", .tag "[b"] ∧
      text [.field "a[", .tag "]", .tag "[b"] = "ref:a[.[]].[[b]" := by
  obtain ⟨-, -, hparse, -⟩ := grammar_lossless
  have htext : text [.field "a[", .tag "]", .tag "[b"] = "ref:a[.[]].[[b]" := by decide
  have hparsed := hparse [.field "a[", .tag "]", .tag "[b"] (by decide) (by decide)
  rw [htext] at hparsed
  exact ⟨hparsed, htext⟩

theorem Text.joinParts_merge {mark : Char} (p q : List Char) (rest : List (List Char)) :
    joinParts mark ((p ++ mark :: q) :: rest) = joinParts mark (p :: q :: rest) := by
  cases rest with
  | nil => rfl
  | cons next rest => rw [joinParts, joinParts, joinParts, List.append_assoc, List.cons_append]

theorem toList_foldl_joinPath {path : String} (hpath : path ≠ "") (names : List String) :
    (names.foldl joinPath path).toList =
      Text.joinParts '.' (path.toList :: names.map String.toList) := by
  induction names generalizing path with
  | nil => rfl
  | cons name rest ih =>
    have hjoin : (joinPath path name).toList = path.toList ++ '.' :: name.toList := by
      rw [joinPath, if_neg hpath, String.toList_append, String.toList_append, List.append_assoc]
      rfl
    have hne : joinPath path name ≠ "" := by
      intro heq
      rw [heq] at hjoin
      exact absurd hjoin.symm (List.append_ne_nil_of_right_ne_nil _ (List.cons_ne_nil _ _))
    rw [List.foldl_cons, ih hne, hjoin, Text.joinParts_merge, List.map_cons]

namespace Address

/-- Whether a path can be told from its names. -/
def Fits (a : Address) : Prop := ∀ name ∈ a, (Segment.field name).Fits

theorem Fits.concat {a : Address} {name : String} (h : a.Fits) (hname : (Segment.field name).Fits) :
    Fits (a ++ [name]) :=
  List.forall_mem_append.mpr ⟨h, List.forall_mem_singleton.mpr hname⟩

theorem toList_path {a : Address} (h : a.Fits) :
    a.path.toList = Text.joinParts '.' (a.map String.toList) := by
  cases a with
  | nil => rfl
  | cons name rest =>
    have hname : name ≠ "" := by
      rintro rfl
      exact (h "" List.mem_cons_self).1 rfl
    have hfirst : Address.path (name :: rest) = rest.foldl joinPath name := rfl
    rw [hfirst, toList_foldl_joinPath hname, List.map_cons]

theorem path_concat (a : Address) (name : String) : path (a ++ [name]) = joinPath a.path name := by
  rw [path, List.foldl_append]
  rfl

end Address

theorem FieldId.path_eq (id : FieldId) : id.path = Address.path (id.owner ++ [id.name]) :=
  (Address.path_concat id.owner id.name).symm

namespace Reference

theorem toList_mark (text : String) : ("ref:" ++ text).toList = mark ++ text.toList := by
  rw [String.toList_append]
  rfl

def ofAddress (a : Address) : Reference := a.map .field

theorem map_text_ofAddress (a : Address) :
    (ofAddress a).map Segment.text = a.map String.toList := by
  rw [ofAddress, List.map_map]
  rfl

theorem fits_ofAddress {a : Address} (h : a.Fits) : ∀ s ∈ ofAddress a, s.Fits := by
  intro s hs
  obtain ⟨name, hname, rfl⟩ := List.mem_map.mp hs
  exact h name hname

theorem text_ofAddress {a : Address} (h : a.Fits) : text (ofAddress a) = "ref:" ++ a.path := by
  rw [← String.toList_inj, toList_mark, text, String.toList_ofList, body, map_text_ofAddress,
    Address.toList_path h]

theorem text_ofAddress_tag {a : Address} (hne : a ≠ []) (h : a.Fits) (tag : String) :
    text (ofAddress a ++ [.tag tag]) = "ref:" ++ a.path ++ ".[" ++ tag ++ "]" := by
  have hnames : a.map String.toList ≠ [] := fun heq => hne (List.map_eq_nil_iff.mp heq)
  rw [← String.toList_inj, text, String.toList_ofList, body, List.map_append, map_text_ofAddress,
    List.map_singleton, Text.joinParts_append hnames (List.cons_ne_nil _ _)]
  simp only [String.toList_append, Address.toList_path h, Segment.text, Text.joinParts,
    List.append_assoc]
  rfl

theorem parse?_ofAddress {a : Address} (hne : a ≠ []) (h : a.Fits) :
    parse? ("ref:" ++ a.path) = some (ofAddress a) := by
  refine parse?_eq_some.mpr ⟨fun heq => hne (List.map_eq_nil_iff.mp heq), fits_ofAddress h, ?_⟩
  exact (text_ofAddress h).symm

theorem parse?_empty : parse? "ref:" = none := by decide

theorem parse?_behind {a : Address} (hne : a ≠ []) (h : a.Fits) {rest : String} {r : Reference}
    (hparse : parse? ("ref:" ++ a.path ++ "." ++ rest) = some r) :
    ∃ behind : Reference, r = ofAddress a ++ behind ∧ (∀ s ∈ behind, s.Fits) ∧
      Text.parts '.' rest.toList = behind.map Segment.text := by
  have hnames : a.map String.toList ≠ [] := fun heq => hne (List.map_eq_nil_iff.mp heq)
  have hpoints : ∀ p ∈ a.map String.toList, '.' ∉ p := by
    intro p hp
    obtain ⟨name, hname, rfl⟩ := List.mem_map.mp hp
    exact (h name hname).2.1
  have hlist : ("ref:" ++ a.path ++ "." ++ rest).toList =
      mark ++ (Text.joinParts '.' (a.map String.toList) ++ '.' :: rest.toList) := by
    rw [String.toList_append, String.toList_append, toList_mark, Address.toList_path h]
    simp only [List.append_assoc]
    rfl
  have hrest : ∀ p ∈ a.map String.toList ++ Text.parts '.' rest.toList, '.' ∉ p :=
    List.forall_mem_append.mpr ⟨hpoints, fun p hp => Text.not_mem_of_mem_parts hp⟩
  rw [parse?_of_mark hlist, Text.parts_joinParts_append hnames hpoints,
    mapM_segment?_eq_some hrest] at hparse
  obtain ⟨hfits, htexts⟩ := hparse
  obtain ⟨front, behind, rfl, hfront, hbehind⟩ := List.map_eq_append_iff.mp htexts.symm
  obtain ⟨hfitsFront, hfitsBehind⟩ := List.forall_mem_append.mp hfits
  have hparsed := (mapM_segment?_eq_some hpoints).mpr ⟨hfitsFront, hfront.symm⟩
  have hnamed := (mapM_segment?_eq_some hpoints).mpr ⟨fits_ofAddress h, (map_text_ofAddress a).symm⟩
  cases hnamed.symm.trans hparsed
  exact ⟨behind, rfl, hfitsBehind, hbehind.symm⟩

end Reference

end CrowdScenario
