import CrowdScenario.Proofs.Json.Numbers
import CrowdScenario.Proofs.Json.Tokens

/-!
# Printed JSON is read back

A printed value has a tree, in which a double that is not finite is null. Both forms of the value,
compact and spread, are read as that tree (`Json.parse?_compact`, `Json.parse?_spread`): the text is
scanned into the tokens of the tree, and the tokens of a tree are put together to the tree again.
-/

namespace CrowdScenario.Json

open Text

def numberTree (x : Binary64) : Written :=
  if x.isFinite then .number (Pieces.ofFloat x).number else .null

mutual

def tree : Json → Written
  | null => .null
  | bool b => .bool b
  | integer n => .number (Pieces.ofInt n).number
  | float x => numberTree x
  | string s => .string (some s)
  | array items => .array (trees items)
  | object members => .object (memberTrees members)

def trees : List Json → List Written
  | [] => []
  | v :: vs => tree v :: trees vs

def memberTrees : Members → List (Label × Written)
  | [] => []
  | (name, v) :: ms => (some name, tree v) :: memberTrees ms

end

theorem trees_eq_map (vs : List Json) : trees vs = vs.map tree := by
  induction vs with
  | nil => rfl
  | cons v vs ih => rw [trees, ih, List.map_cons]

theorem memberTrees_eq_map (ms : Members) :
    memberTrees ms = ms.map fun m => (some m.1, tree m.2) := by
  induction ms with
  | nil => rfl
  | cons m ms ih => rw [memberTrees, ih, List.map_cons]

theorem compactItems_eq_map (vs : List Json) : compactItems vs = vs.map compact := by
  induction vs with
  | nil => rfl
  | cons v vs ih => rw [compactItems, ih, List.map_cons]

theorem compactMembers_eq_map (ms : Members) :
    compactMembers ms = ms.map fun m => printString m.1 ++ ":" ++ compact m.2 := by
  induction ms with
  | nil => rfl
  | cons m ms ih => rw [compactMembers, ih, List.map_cons]

theorem spreadItems_eq_map (depth : ℕ) (vs : List Json) :
    spreadItems depth vs = vs.map (spread depth) := by
  induction vs with
  | nil => rfl
  | cons v vs ih => rw [spreadItems, ih, List.map_cons]

theorem spreadMembers_eq_map (depth : ℕ) (ms : Members) :
    spreadMembers depth ms = ms.map fun m => printString m.1 ++ ": " ++ spread depth m.2 := by
  induction ms with
  | nil => rfl
  | cons m ms ih => rw [spreadMembers, ih, List.map_cons]

theorem unit?_hexPadded {n : ℕ} (hn : n < 0x20) :
    ∃ a b c d, (Bytes.hexPadded 4 n).toList = [a, b, c, d] ∧ unit? a b c d = some n := by
  have hall : ∀ n < 0x20, (Bytes.hexPadded 4 n).toList =
      ['0', '0', (n / 16).digitChar, (n % 16).digitChar] ∧
      unit? '0' '0' (n / 16).digitChar (n % 16).digitChar = some n := by
    decide
  exact ⟨_, _, _, _, hall n hn⟩

theorem scanString?_plain {s : Spelling} {c : Char} {rest : List Char} (hquote : c ≠ '"')
    (hslash : c ≠ '\\') (hcontrol : ¬c.toNat < 0x20) :
    scanString? s (c :: rest) = scanString? (s.push c) rest := by
  rw [scanString?.eq_def]
  split
  · next heq => cases heq
  · next heq =>
    cases heq
    exact absurd rfl hquote
  · next heq =>
    cases heq
    exact absurd rfl hslash
  · next heq =>
    cases heq
    exact absurd rfl hslash
  · next heq =>
    cases heq
    rw [if_neg (not_or.mpr ⟨hcontrol, hslash⟩)]

theorem scanString?_printChar (s : Spelling) (c : Char) (rest : List Char) :
    scanString? s ((printChar c).toList ++ rest) = scanString? (s.push c) rest := by
  unfold printChar
  -- The seven characters with an escape of their own.
  iterate 7
    split
    · next h =>
      rw [h]
      rfl
  split
  · next hcontrol =>
    obtain ⟨a, b, x, d, htext, hunit⟩ := unit?_hexPadded hcontrol
    have hpush : s.pushUnit c.toNat = s.push c := by
      rw [Spelling.pushUnit, if_neg (by omega), if_neg (by omega), Char.ofNat_toNat]
    rw [String.toList_append, htext]
    show scanString? s ('\\' :: 'u' :: a :: b :: x :: d :: rest) = _
    rw [scanString?, hunit, ← hpush]
  · next hquote hslash _ _ _ _ _ hcontrol =>
    simp only [Char.toString_eq_singleton, String.toList_singleton, List.singleton_append]
    exact scanString?_plain hquote hslash hcontrol

theorem scanString?_body (cs done rest : List Char) :
    scanString? ⟨done, none, false⟩ ((cs.flatMap fun c => (printChar c).toList) ++ '"' :: rest) =
      some (some (String.ofList (done.reverse ++ cs)), rest) := by
  induction cs generalizing done with
  | nil => simp [scanString?, Spelling.text?]
  | cons c cs ih =>
    rw [List.flatMap_cons, List.append_assoc, scanString?_printChar]
    have hpush : Spelling.push ⟨done, none, false⟩ c = ⟨c :: done, none, false⟩ := rfl
    rw [hpush, ih, List.reverse_cons, List.append_assoc, List.singleton_append]

theorem scanTokens?_blank {c : Char} (hc : isSpace c = true) (found : List Token)
    (cs : List Char) : scanTokens? found (c :: cs) = scanTokens? found cs := by
  rw [scanTokens?, if_pos hc]

theorem scanTokens?_token {c : Char} {cs rest : List Char} {t : Token} (hc : isSpace c = false)
    (h : scanToken? c cs = some (t, rest)) (found : List Token) :
    scanTokens? found (c :: cs) = scanTokens? (t :: found) rest := by
  rw [scanTokens?, hc, if_neg Bool.false_ne_true]
  split
  · next hnone =>
    rw [h] at hnone
    cases hnone
  · next hsome =>
    rw [h] at hsome
    cases hsome
    rfl

def Scans (cs : List Char) (ts : List Token) : Prop :=
  ∀ found rest, StopsBefore continuesNumber rest →
    scanTokens? found (cs ++ rest) = scanTokens? (ts.reverse ++ found) rest

structure IsMark (c : Char) (t : Token) : Prop where
  not_space : isSpace c = false
  stops : continuesNumber c = false
  scan : ∀ cs, scanToken? c cs = some (t, cs)

theorem isMark_comma : IsMark ',' .comma := ⟨rfl, rfl, fun _ => rfl⟩

theorem isMark_colon : IsMark ':' .colon := ⟨rfl, rfl, fun _ => rfl⟩

theorem isMark_openArray : IsMark '[' .openArray := ⟨rfl, rfl, fun _ => rfl⟩

theorem isMark_closeArray : IsMark ']' .closeArray := ⟨rfl, rfl, fun _ => rfl⟩

theorem isMark_openObject : IsMark '\x7b' .openObject := ⟨rfl, rfl, fun _ => rfl⟩

theorem isMark_closeObject : IsMark '\x7d' .closeObject := ⟨rfl, rfl, fun _ => rfl⟩

theorem continuesNumber_of_space {c : Char} (h : isSpace c = true) : continuesNumber c = false := by
  simp only [isSpace, decide_eq_true_eq] at h
  rcases h with rfl | rfl | rfl | rfl <;> rfl

section

variable {cs cs' : List Char} {ts ts' : List Token} {c : Char} {t : Token} {gap : List Char}

theorem stopsBefore_append (h : StopsBefore continuesNumber cs)
    (h' : StopsBefore continuesNumber cs') : StopsBefore continuesNumber (cs ++ cs') := by
  cases cs with
  | nil => exact h'
  | cons c cs => exact stopsBefore_cons (h c rfl)

theorem stopsBefore_blank (hgap : ∀ c ∈ gap, isSpace c = true)
    (h : StopsBefore continuesNumber cs) : StopsBefore continuesNumber (gap ++ cs) := by
  refine stopsBefore_append (fun c hc => ?_) h
  exact continuesNumber_of_space (hgap c (List.mem_of_mem_head? hc))

theorem scans_nil : Scans [] [] := fun _ _ _ => rfl

theorem Scans.append (h : Scans cs ts) (h' : Scans cs' ts')
    (hstop : StopsBefore continuesNumber cs') : Scans (cs ++ cs') (ts ++ ts') := by
  intro found rest hrest
  rw [List.append_assoc, h found _ (stopsBefore_append hstop hrest), h' _ _ hrest,
    List.reverse_append, List.append_assoc]

theorem Scans.blank (h : Scans cs ts) (hgap : ∀ c ∈ gap, isSpace c = true) :
    Scans (gap ++ cs) ts := by
  induction gap with
  | nil => exact h
  | cons c gap ih =>
    intro found rest hrest
    have htail := ih fun b hb => hgap b (List.mem_cons_of_mem c hb)
    rw [List.cons_append, List.cons_append, scanTokens?_blank (hgap c List.mem_cons_self)]
    exact htail found rest hrest

theorem Scans.mark (h : Scans cs ts) (hmark : IsMark c t) : Scans (c :: cs) (t :: ts) := by
  intro found rest hrest
  rw [List.cons_append, scanTokens?_token hmark.not_space (hmark.scan _), h _ _ hrest,
    List.reverse_cons, List.append_assoc, List.singleton_append]

end

theorem scanToken?_number {c : Char} (hc : c = '-' ∨ c.isDigit = true) (cs : List Char) :
    isSpace c = false ∧ scanToken? c cs =
      (scanNumber? (c :: cs)).map fun (number, rest) => (.number number, rest) := by
  have hne : ∀ b : Char, b ≠ '-' → b.isDigit = false → c ≠ b := by
    rintro b hminus hdigit rfl
    rcases hc with hc | hc
    · exact hminus hc
    · rw [hc] at hdigit
      cases hdigit
  refine ⟨by simp [isSpace, hne], ?_⟩
  unfold scanToken?
  split
  iterate 7 · exact absurd rfl (hne _ (by decide) (by decide))
  split
  iterate 3
    next heq =>
      cases heq
      exact absurd rfl (hne _ (by decide) (by decide))
  rfl

theorem Pieces.text_eq_cons {p : Pieces} (h : p.Valid) :
    ∃ c cs, p.text = c :: cs ∧ (c = '-' ∨ c.isDigit = true) := by
  obtain ⟨c, cs, hcs, hc⟩ := Pieces.whole_eq_cons h
  unfold Pieces.text Pieces.signText
  rw [hcs]
  split
  · exact ⟨_, _, rfl, .inl rfl⟩
  · exact ⟨_, _, rfl, .inr hc⟩

/-! ### Values -/

theorem scans_null : Scans "null".toList [.null] := fun found _ _ =>
  scanTokens?_token (c := 'n') rfl rfl found

theorem scans_bool (b : Bool) : Scans (if b then "true" else "false").toList [.bool b] := by
  intro found rest _
  cases b with
  | true => exact scanTokens?_token (c := 't') rfl rfl found
  | false => exact scanTokens?_token (c := 'f') rfl rfl found

theorem scans_pieces {p : Pieces} (h : p.Valid) : Scans p.text [.number p.number] := by
  intro found rest hrest
  have hscan := Pieces.scanNumber?_text h hrest
  obtain ⟨c, cs, hcs, hc⟩ := Pieces.text_eq_cons h
  obtain ⟨hspace, htoken⟩ := scanToken?_number hc (cs ++ rest)
  rw [hcs, List.cons_append] at hscan ⊢
  rw [hscan] at htoken
  exact scanTokens?_token hspace htoken found

theorem scans_integer (n : ℤ) :
    Scans (toString n).toList [.number (Pieces.ofInt n).number] := by
  rw [Pieces.text_ofInt]
  exact scans_pieces (Pieces.valid_ofInt n)

theorem scans_float (x : Binary64) : Scans (printFloat x).toList (numberTree x).tokens := by
  unfold printFloat numberTree
  split
  · rw [Pieces.text_ofFloat]
    exact scans_pieces (Pieces.valid_ofFloat x)
  · exact scans_null

theorem scans_string (s : String) : Scans (printString s).toList [.string (some s)] := by
  intro found rest _
  have htext : (printString s).toList =
      '"' :: ((s.toList.flatMap fun c => (printChar c).toList) ++ ['"']) := by
    simp [printString, List.flatMap_map]
  have hscan := scanString?_body s.toList [] rest
  rw [htext, List.cons_append, List.append_assoc, List.singleton_append]
  refine scanTokens?_token rfl ?_ found
  unfold scanToken?
  rw [Spelling.start, hscan]
  simp

section

variable {α : Type} {text : α → List Char} {ts : α → List Token} {gap tail : List Char}

theorem scans_items {as : List α} (has : ∀ a ∈ as, Scans (text a) (ts a))
    (hgap : ∀ c ∈ gap, isSpace c = true) {cs : List Char} {us : List Token} (h : Scans cs us)
    (hstop : StopsBefore continuesNumber cs) :
    Scans ((as.flatMap fun a => ',' :: (gap ++ text a)) ++ cs)
        ((as.flatMap fun a => .comma :: ts a) ++ us) ∧
      StopsBefore continuesNumber ((as.flatMap fun a => ',' :: (gap ++ text a)) ++ cs) := by
  induction as with
  | nil => exact ⟨h, hstop⟩
  | cons a as ih =>
    obtain ⟨hrest, hstop'⟩ := ih fun b hb => has b (List.mem_cons_of_mem a hb)
    -- A comma or the last mark follows the item, so a number ends there.
    have hitem := ((has a List.mem_cons_self).append hrest hstop').blank hgap
    have htext : ((a :: as).flatMap fun a => ',' :: (gap ++ text a)) ++ cs =
        ',' :: (gap ++ (text a ++ ((as.flatMap fun a => ',' :: (gap ++ text a)) ++ cs))) := by
      simp
    have htokens : ((a :: as).flatMap fun a => .comma :: ts a) ++ us =
        .comma :: (ts a ++ ((as.flatMap fun a => .comma :: ts a) ++ us)) := by
      simp
    rw [htext, htokens]
    exact ⟨hitem.mark isMark_comma, stopsBefore_cons rfl⟩

/-- Items between marks, with blanks before each of them and before the last mark. -/
theorem scans_block {as : List α} (has : ∀ a ∈ as, Scans (text a) (ts a)) {first last : Char}
    {t t' : Token} (hfirst : IsMark first t) (hlast : IsMark last t')
    (hgap : ∀ c ∈ gap, isSpace c = true) (htail : ∀ c ∈ tail, isSpace c = true) :
    Scans (first :: ([','].intercalate (as.map fun a => gap ++ text a) ++ (tail ++ [last])))
      (t :: ([.comma].intercalate (as.map ts) ++ [t'])) := by
  have hend : Scans (tail ++ [last]) [t'] := (scans_nil.mark hlast).blank htail
  have hstop : StopsBefore continuesNumber (tail ++ [last]) :=
    stopsBefore_blank htail (stopsBefore_cons hlast.stops)
  cases as with
  | nil => exact hend.mark hfirst
  | cons a as =>
    obtain ⟨hrest, hstop'⟩ := scans_items (fun b hb => has b (List.mem_cons_of_mem a hb)) hgap hend
      hstop
    have hitem := ((has a List.mem_cons_self).append hrest hstop').blank hgap
    rw [List.map_cons, List.map_cons, intercalate_cons, intercalate_cons, List.flatMap_map,
      List.flatMap_map, List.append_assoc, List.append_assoc, List.append_assoc]
    exact hitem.mark hfirst

end

theorem toList_spreadBlock {α : Type} (first last : String) (depth : ℕ) (as : List α)
    (text : α → String) :
    ∃ gap tail, (∀ c ∈ gap, isSpace c = true) ∧ (∀ c ∈ tail, isSpace c = true) ∧
      (spreadBlock first last depth (as.map text)).toList = first.toList ++
        ([','].intercalate (as.map fun a => gap ++ (text a).toList) ++ (tail ++ last.toList)) := by
  have hindent : ∀ n, ∀ c ∈ ("\n" ++ String.ofList (List.replicate (2 * n) ' ')).toList,
      isSpace c = true := by
    intro n c hc
    simp only [String.toList_append, String.toList_ofList, List.mem_append] at hc
    rcases hc with hc | hc
    · rw [List.mem_singleton.mp hc]
      rfl
    · rw [List.eq_of_mem_replicate hc]
      rfl
  cases as with
  | nil => exact ⟨[], [], List.forall_mem_nil _, List.forall_mem_nil _, by simp [spreadBlock]⟩
  | cons a as =>
    refine ⟨_, _, hindent (depth + 1), hindent depth, ?_⟩
    have hcomma : ",".toList = [','] := rfl
    have hne : ((a :: as).map text).isEmpty = false := rfl
    simp only [spreadBlock, hne, Bool.false_eq_true, ↓reduceIte, String.toList_append,
      String.toList_intercalate, List.map_map, Function.comp_def, hcomma, List.append_assoc]

/-- Whether both forms of a value are scanned into the tokens of its tree. -/
def Prints (j : Json) : Prop :=
  Scans (compact j).toList (tree j).tokens ∧
    ∀ depth, Scans (spread depth j).toList (tree j).tokens

theorem prints_array {items : List Json} (h : ∀ v ∈ items, Prints v) : Prints (.array items) := by
  have htokens : (tree (.array items)).tokens = .openArray ::
      ([.comma].intercalate (items.map fun v => (tree v).tokens) ++ [.closeArray]) := by
    rw [tree, Written.tokens, Written.itemTokens_eq_map, trees_eq_map, List.map_map]
    rfl
  rw [Prints, htokens]
  refine ⟨?_, fun depth => ?_⟩
  · have htext : (compact (.array items)).toList = '[' ::
        ([','].intercalate (items.map fun v => [] ++ (compact v).toList) ++ ([] ++ [']'])) := by
      simp [compact, compactItems_eq_map, String.toList_intercalate, Function.comp_def]
    have hnone : ∀ c ∈ ([] : List Char), isSpace c = true := List.forall_mem_nil _
    rw [htext]
    exact scans_block (fun v hv => (h v hv).1) isMark_openArray isMark_closeArray hnone hnone
  · obtain ⟨gap, tail, hgap, htail, htext⟩ :=
      toList_spreadBlock "[" "]" depth items (spread (depth + 1))
    rw [spread, spreadItems_eq_map, htext]
    exact scans_block (fun v hv => (h v hv).2 (depth + 1)) isMark_openArray isMark_closeArray hgap
      htail

theorem scans_member (name : String) {cs gap : List Char} {ts : List Token} (h : Scans cs ts)
    (hgap : ∀ c ∈ gap, isSpace c = true) :
    Scans ((printString name).toList ++ ':' :: (gap ++ cs)) (.string (some name) :: .colon :: ts) :=
  (scans_string name).append ((h.blank hgap).mark isMark_colon) (stopsBefore_cons rfl)

theorem prints_object {members : Members} (h : ∀ m ∈ members, Prints m.2) :
    Prints (.object members) := by
  have htokens : (tree (.object members)).tokens =
      .openObject :: ([.comma].intercalate (members.map fun m =>
        .string (some m.1) :: .colon :: (tree m.2).tokens) ++ [.closeObject]) := by
    rw [tree, Written.tokens, Written.memberTokens_eq_map, memberTrees_eq_map, List.map_map]
    rfl
  rw [Prints, htokens]
  refine ⟨?_, fun depth => ?_⟩
  · have htext : (compact (.object members)).toList = '\x7b' ::
        ([','].intercalate (members.map fun m =>
          [] ++ ((printString m.1).toList ++ ':' :: ([] ++ (compact m.2).toList))) ++
          ([] ++ ['\x7d'])) := by
      simp [compact, compactMembers_eq_map, String.toList_intercalate, Function.comp_def]
    have hnone : ∀ c ∈ ([] : List Char), isSpace c = true := List.forall_mem_nil _
    have hmembers : ∀ m ∈ members,
        Scans ((printString m.1).toList ++ ':' :: ([] ++ (compact m.2).toList))
          (.string (some m.1) :: .colon :: (tree m.2).tokens) :=
      fun m hm => scans_member m.1 (h m hm).1 hnone
    rw [htext]
    exact scans_block hmembers isMark_openObject isMark_closeObject hnone hnone
  · obtain ⟨gap, tail, hgap, htail, htext⟩ := toList_spreadBlock "\x7b" "\x7d" depth members
      fun m => printString m.1 ++ ": " ++ spread (depth + 1) m.2
    have hblank : ∀ c ∈ [' '], isSpace c = true := List.forall_mem_singleton.mpr rfl
    have hmembers : ∀ m ∈ members,
        Scans (printString m.1 ++ ": " ++ spread (depth + 1) m.2).toList
          (.string (some m.1) :: .colon :: (tree m.2).tokens) := by
      intro m hm
      have hmember := scans_member m.1 ((h m hm).2 (depth + 1)) hblank
      simpa using hmember
    rw [spread, spreadMembers_eq_map, htext]
    exact scans_block hmembers isMark_openObject isMark_closeObject hgap htail

mutual

theorem prints : ∀ j : Json, Prints j
  | .array items => prints_array (prints_items items)
  | .object members => prints_object (prints_members members)
  | .null => ⟨scans_null, fun _ => scans_null⟩
  | .bool b => ⟨scans_bool b, fun _ => scans_bool b⟩
  | .integer n => ⟨scans_integer n, fun _ => scans_integer n⟩
  | .float x => ⟨scans_float x, fun _ => scans_float x⟩
  | .string s => ⟨scans_string s, fun _ => scans_string s⟩

theorem prints_items : ∀ vs : List Json, ∀ v ∈ vs, Prints v
  | [] => List.forall_mem_nil _
  | v :: vs => List.forall_mem_cons.mpr ⟨prints v, prints_items vs⟩

theorem prints_members : ∀ ms : Members, ∀ m ∈ ms, Prints m.2
  | [] => List.forall_mem_nil _
  | (_, v) :: ms => List.forall_mem_cons.mpr ⟨prints v, prints_members ms⟩

end

theorem parse?_of_scans {text : String} {w : Written} (h : Scans text.toList w.tokens) :
    Written.parse? text = some w := by
  have htokens : tokens? text.toList = some w.tokens := by
    have hscan := h [] [] (stopsBefore_nil _)
    rw [List.append_nil, List.append_nil] at hscan
    rw [tokens?, hscan, scanTokens?, List.reverse_reverse]
  have hrun : w.tokens.foldlM Progress.step (.value []) = some (.finished w) :=
    Progress.builds w []
  rw [Written.parse?, htokens]
  simp only [Option.bind_eq_bind, Option.bind_some, hrun]
  rfl

theorem parse?_compact (j : Json) : Written.parse? j.compact = some (tree j) :=
  parse?_of_scans (prints j).1

theorem parse?_spread (depth : ℕ) (j : Json) : Written.parse? (j.spread depth) = some (tree j) :=
  parse?_of_scans ((prints j).2 depth)

end CrowdScenario.Json
