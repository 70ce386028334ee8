import CrowdScenario.Text.Parts
import CrowdScenario.Wire.Listing

/-!
# Lines of listings

No record takes two lines in a listing, whatever its file name holds. So a listing has a line for
the kind of simulation and one for every record (`Document.lists_listing`).
-/

namespace CrowdScenario

namespace Text

def OneLine (s : String) : Prop := '\n' ∉ s.toList

instance (s : String) : Decidable (OneLine s) := inferInstanceAs (Decidable ('\n' ∉ s.toList))

/-- The lines of a text, each ended by a line break. -/
def Lists (text : String) (lines : List String) : Prop :=
  parts '\n' text.toList = lines.map String.toList ++ [[]]

theorem lists_join {lines : List String} (h : ∀ l ∈ lines, OneLine l) :
    Lists (String.join (lines.map (· ++ "\n"))) lines := by
  unfold Lists
  induction lines with
  | nil => rfl
  | cons l ls ih =>
    have hl : '\n' ∉ l.toList := h l List.mem_cons_self
    have hls := ih fun l' hl' => h l' (List.mem_cons_of_mem l hl')
    have hsplit : (String.join ((l :: ls).map (· ++ "\n"))).toList =
        l.toList ++ '\n' :: (String.join (ls.map (· ++ "\n"))).toList := by
      simp [String.toList_join]
    rw [hsplit, parts_append hl, hls]
    rfl

theorem OneLine.append {s t : String} (hs : OneLine s) (ht : OneLine t) : OneLine (s ++ t) := by
  intro h
  rw [String.toList_append] at h
  obtain h | h := List.mem_append.mp h
  · exact hs h
  · exact ht h

theorem oneLine_ofList {cs : List Char} (h : '\n' ∉ cs) : OneLine (String.ofList cs) := by
  rw [OneLine, String.toList_ofList]
  exact h

theorem oneLine_join {texts : List String} (h : ∀ s ∈ texts, OneLine s) :
    OneLine (String.join texts) := by
  intro hmem
  rw [String.toList_join] at hmem
  obtain ⟨s, hs, hin⟩ := List.mem_flatMap.mp hmem
  exact h s hs hin

theorem oneLine_intercalate {mark : String} {texts : List String} (hmark : OneLine mark)
    (h : ∀ s ∈ texts, OneLine s) : OneLine (mark.intercalate texts) := by
  induction texts with
  | nil => exact List.not_mem_nil
  | cons s rest ih =>
    have hs := h s List.mem_cons_self
    have hrest := ih fun t ht => h t (List.mem_cons_of_mem s ht)
    cases rest with
    | nil => simpa using hs
    | cons t rest =>
      rw [String.intercalate_cons_cons]
      exact (hs.append hmark).append hrest

theorem digitChar_ne_newline (n : Nat) : Nat.digitChar n ≠ '\n' :=
  Nat.digitChar_ne _ (by decide)

theorem newline_not_mem_toDigits {base : Nat} (hbase : 1 < base) (n : Nat) :
    '\n' ∉ Nat.toDigits base n := by
  induction n using Nat.strongRecOn with
  | _ n ih =>
    rw [Nat.toDigits_eq_if hbase]
    split
    · simp [(digitChar_ne_newline n).symm]
    · next hle =>
      have hless : n / base < n := Nat.div_lt_self (by omega) hbase
      simp [ih _ hless, (digitChar_ne_newline _).symm]

theorem oneLine_nat (n : Nat) : OneLine (toString n) := by
  rw [Nat.toString_eq_ofList_toDigits]
  exact oneLine_ofList (newline_not_mem_toDigits (by decide) n)

theorem oneLine_int (n : Int) : OneLine (toString n) := by
  cases n with
  | ofNat n => exact oneLine_nat n
  | negSucc n =>
    have hsign : OneLine "-" := by decide
    exact hsign.append (oneLine_nat (n + 1))

theorem newline_not_mem_replicate {c : Char} (hc : c ≠ '\n') (n : Nat) :
    '\n' ∉ List.replicate n c := by
  intro h
  exact hc (List.eq_of_mem_replicate h).symm

theorem oneLine_hexPadded (width n : Nat) : OneLine (Bytes.hexPadded width n) := by
  apply oneLine_ofList
  rw [List.mem_append, not_or]
  constructor
  · exact newline_not_mem_replicate (by decide) _
  · exact newline_not_mem_toDigits (by decide) n

theorem oneLine_quoteChar (c : Char) : OneLine (quoteChar c) := by
  unfold quoteChar
  split
  · decide
  split
  · decide
  split
  · decide
  next hbreak =>
  split
  · decide
  split
  · decide
  split
  · decide
  split
  · have hopen : OneLine "\\u\x7b" := by decide
    have hclose : OneLine "\x7d" := by decide
    exact (hopen.append (oneLine_hexPadded 1 _)).append hclose
  · have hsingle : c.toString.toList = [c] := String.toList_singleton c
    rw [OneLine, hsingle, List.mem_singleton]
    exact Ne.symm hbreak

theorem oneLine_quoted (s : String) : OneLine (quoted s) := by
  have hquote : OneLine "\"" := by decide
  have hinside : OneLine (String.join (s.toList.map quoteChar)) := by
    apply oneLine_join
    intro t ht
    obtain ⟨c, -, rfl⟩ := List.mem_map.mp ht
    exact oneLine_quoteChar c
  exact (hquote.append hinside).append hquote

end Text

namespace Decimal

open Text

theorem oneLine_positionalText {layout : Layout} (hsuffix : OneLine layout.wholeSuffix)
    {digits : List Char} (h : '\n' ∉ digits) (point : Int) :
    OneLine (positionalText layout digits point) := by
  have hzeros (n : Nat) : '\n' ∉ List.replicate n '0' := newline_not_mem_replicate (by decide) n
  unfold positionalText
  split
  · have hlead : OneLine "0." := by decide
    apply hlead.append (oneLine_ofList _)
    simp [h]
  split
  · apply OneLine.append _ hsuffix
    apply oneLine_ofList
    simp [h]
  · have hpoint : OneLine "." := by decide
    have hwhole := oneLine_ofList fun hmem => h (List.mem_of_mem_take (i := point.toNat) hmem)
    have hfraction := oneLine_ofList fun hmem => h (List.mem_of_mem_drop (i := point.toNat) hmem)
    exact (hwhole.append hpoint).append hfraction

theorem oneLine_render {layout : Layout} (hpositional : layout.positional = none)
    (hsuffix : OneLine layout.wholeSuffix) (x : Binary64) : OneLine (render layout x) := by
  have hsign : OneLine (if x.isNegative then "-" else "") := by
    split <;> decide
  have hdigits : '\n' ∉ Nat.toDigits 10 (shortest layout.tie x).digits :=
    newline_not_mem_toDigits (by decide) _
  simp only [render, hpositional]
  split
  · have hzero : OneLine "0" := by decide
    exact (hsign.append hzero).append hsuffix
  · exact hsign.append (oneLine_positionalText hsuffix hdigits _)

theorem oneLine_display (x : Binary64) : OneLine (display x) := by
  unfold display
  split
  · decide
  split
  · split <;> decide
  · exact oneLine_render rfl (by decide) x

end Decimal

open Text

theorem Geometry.oneLine_membersText (members : List Int64) : OneLine (membersText members) := by
  have hopen : OneLine "[" := by decide
  have hclose : OneLine "]" := by decide
  have hinside : OneLine (String.intercalate ", " (members.map fun v => toString v.toInt)) := by
    apply oneLine_intercalate (by decide)
    intro s hs
    obtain ⟨v, -, rfl⟩ := List.mem_map.mp hs
    exact oneLine_int v.toInt
  exact (hopen.append hinside).append hclose

theorem GeometryTag.oneLine_name (t : GeometryTag) : OneLine t.name := by
  cases t <;> decide

theorem Section.oneLine_name (s : Section) : OneLine s.name := by
  cases s <;> decide

theorem DistributionKind.oneLine_name (k : DistributionKind) : OneLine k.name := by
  cases k <;> decide

theorem Simulation.oneLine_name (s : Simulation) : OneLine s.name := by
  cases s <;> decide

namespace Record

theorem oneLine_number {label : String} (h : OneLine label) (x : Binary64) :
    OneLine (label ++ Decimal.display x) := h.append (Decimal.oneLine_display x)

theorem oneLine_distributionText (d : Distribution) : OneLine (distributionText d) := by
  have hblank : OneLine " " := by decide
  have hfirst := oneLine_number (d.kind.oneLine_name.append hblank) d.first
  exact oneLine_number (hfirst.append hblank) d.second

theorem oneLine_line (r : Record) : OneLine r.line := by
  cases r with
  | geometry g =>
    have hscene : OneLine "scene." := by decide
    have hblank : OneLine " " := by decide
    exact ((hscene.append g.tag.oneLine_name).append hblank).append
      (Geometry.oneLine_membersText g.members)
  | sceneFile name =>
    have hlabel : OneLine "scene.file " := by decide
    exact hlabel.append (oneLine_quoted name)
  | sceneScale scale => exact oneLine_number (by decide) scale
  | endTime t =>
    cases t with
    | infinite => decide
    | finite seconds =>
      have hlabel : OneLine "time.end_time " := by decide
      have hunit : OneLine "s" := by decide
      exact (hlabel.append (oneLine_nat seconds.toNat)).append hunit
  | tick seconds => exact oneLine_number (by decide) seconds
  | spawnRate rate => exact oneLine_number (by decide) rate
  | distribution c value =>
    have hopen : OneLine "[0x" := by decide
    have hclose : OneLine "] " := by decide
    have hcode := (c.owner.oneLine_name.append hopen).append (oneLine_hexPadded 4 c.element.toNat)
    exact (hcode.append hclose).append (oneLine_distributionText value)
  | densityEnabled enabled => cases enabled <;> decide
  | densityMinimum threshold => exact oneLine_number (by decide) threshold
  | densityMaximum threshold => exact oneLine_number (by decide) threshold

end Record

theorem Document.oneLine_of_mem_lines {d : Document} {l : String} (h : l ∈ d.lines) :
    OneLine l := by
  obtain rfl | h := List.mem_cons.mp h
  · have hlabel : OneLine "type " := by decide
    exact hlabel.append d.simulation.oneLine_name
  · obtain ⟨r, -, rfl⟩ := List.mem_map.mp h
    exact r.oneLine_line

theorem Document.lists_listing (d : Document) : Lists d.listing d.lines :=
  lists_join fun _ h => oneLine_of_mem_lines h

end CrowdScenario
