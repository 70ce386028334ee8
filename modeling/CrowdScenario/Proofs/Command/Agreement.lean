import CrowdScenario.Command.Outcome
import CrowdScenario.Proofs.Compilation.Decoding
import CrowdScenario.Proofs.Directory
import CrowdScenario.Proofs.Wire.Listing

/-!
# Agreement of the command lines

Compiling to standard output, compiling into a file and checking are one compilation with three ways
to end. They fail with the same report and deliver nothing, or the file has the bytes of standard
output, and what is inspected there has as many records as were counted (`command_lines_agree`).
-/

namespace CrowdScenario

/-- A word that is positional, and the value of an option that stands before it. -/
def IsWord (s : String) : Prop := s ≠ "" ∧ s.toList.head? ≠ some '-'

instance (s : String) : Decidable (IsWord s) :=
  inferInstanceAs (Decidable (s ≠ "" ∧ s.toList.head? ≠ some '-'))

def settingsArguments : Option String → List String
  | none => []
  | some path => ["--settings", path]

namespace ArgumentGrammar

variable {g : ArgumentGrammar} {a : Arguments} {word : String} {rest : List String}

theorem form_of_isWord (h : IsWord word) : g.form word = .positional word := by
  unfold form
  split
  · next hform => simp [IsWord, hform] at h
  · next hform => simp [IsWord, hform] at h
  · next hform => simp [IsWord, hform] at h
  · rfl

theorem readOnto?_word (h : IsWord word) :
    g.readOnto? a (word :: rest) =
      g.readOnto? { a with positional := a.positional ++ [word] } rest := by
  rw [readOnto?, form_of_isWord h]
  simp [Arguments.addPositional?, h.1]

theorem readOnto?_option {option announced : String}
    (hform : g.form announced = .announcement option) (hnew : a.value? option = none)
    (h : IsWord word) :
    g.readOnto? a (announced :: word :: rest) =
      g.readOnto? { a with values := a.values ++ [(option, word)] } rest := by
  have hvalue : isValue word = true := by simp [isValue, h.2]
  rw [readOnto?, hform]
  simp [hvalue, Arguments.addValue?, h.1, hnew]

theorem readOnto?_settings {settings? : Option String}
    (hform : g.form "--settings" = .announcement "settings") (hnew : a.value? "settings" = none)
    (h : ∀ s ∈ settings?, IsWord s) :
    g.readOnto? a (settingsArguments settings?) =
      some { a with values := a.values ++ settings?.toList.map ("settings", ·) } := by
  cases settings? with
  | none => simp [settingsArguments, readOnto?]
  | some s =>
    rw [settingsArguments, readOnto?_option hform hnew (h s rfl), readOnto?]
    rfl

end ArgumentGrammar

namespace Command

open ArgumentGrammar

variable {path file : String} {settings? : Option String}

theorem ofArguments?_compile (hpath : IsWord path) (hsettings : ∀ s ∈ settings?, IsWord s) :
    ofArguments? (["compile", path] ++ settingsArguments settings?) =
      some (.compile path none settings?) := by
  have hread : compileGrammar.read? (path :: settingsArguments settings?) =
      some ⟨[path], settings?.toList.map ("settings", ·), []⟩ := by
    rw [read?, readOnto?_word hpath, readOnto?_settings (by decide) (by rfl) hsettings]
    rfl
  simp only [ofArguments?, List.cons_append, List.nil_append, hread]
  cases settings? <;> rfl

theorem ofArguments?_compile_into (hpath : IsWord path) (hfile : IsWord file)
    (hsettings : ∀ s ∈ settings?, IsWord s) :
    ofArguments? (["compile", path, "-o", file] ++ settingsArguments settings?) =
      some (.compile path (some file) settings?) := by
  have hletter : compileGrammar.form "-o" = .announcement "output" := by decide
  have hread : compileGrammar.read? (path :: "-o" :: file :: settingsArguments settings?) =
      some ⟨[path], ("output", file) :: settings?.toList.map ("settings", ·), []⟩ := by
    rw [read?, readOnto?_word hpath, readOnto?_option hletter (by rfl) hfile,
      readOnto?_settings (by decide) (by rfl) hsettings]
    rfl
  simp only [ofArguments?, List.cons_append, List.nil_append, hread]
  cases settings? <;> rfl

theorem ofArguments?_check (hpath : IsWord path) (hsettings : ∀ s ∈ settings?, IsWord s) :
    ofArguments? (["check", path] ++ settingsArguments settings?) =
      some (.check path settings?) := by
  have hread : checkGrammar.read? (path :: settingsArguments settings?) =
      some ⟨[path], settings?.toList.map ("settings", ·), []⟩ := by
    rw [read?, readOnto?_word hpath, readOnto?_settings (by decide) (by rfl) hsettings]
    rfl
  simp only [ofArguments?, List.cons_append, List.nil_append, hread]
  cases settings? <;> rfl

theorem ofArguments?_inspect (hpath : IsWord path) :
    ofArguments? ["inspect", path] = some (.inspect path false) := by
  have hread : inspectGrammar.read? [path] = some ⟨[path], [], []⟩ := by
    rw [read?, readOnto?_word hpath, readOnto?]
    rfl
  simp only [ofArguments?, hread]
  rfl

variable [Json.DoubleReader] {d : Directory} {preferred? : Option String}

theorem run_compile {c : Compiled} (h : compileFile d.read preferred? settings? path = .ok c) :
    (compile path none settings?).run d preferred? = (.success c.bytes, d) := by
  simp only [run, perform, h]
  rfl

theorem run_compile_into {c : Compiled} {d' : Directory}
    (h : compileFile d.read preferred? settings? path = .ok c)
    (hwrite : d.write file c.bytes = .ok d') :
    (compile path (some file) settings?).run d preferred? = (.success [], d') := by
  simp only [run, perform, h, Except.map, Delivery.ofBytes, hwrite]

theorem run_check {c : Compiled} (h : compileFile d.read preferred? settings? path = .ok c) :
    (check path settings?).run d preferred? =
      (.success (Bytes.ofText (checkLine path c)), d) := by
  simp only [run, perform, h]
  rfl

theorem run_of_error {e : CommandError}
    (h : compileFile d.read preferred? settings? path = .error e) :
    (∀ output?, (compile path output? settings?).run d preferred? = (.failure e, d)) ∧
      (check path settings?).run d preferred? = (.failure e, d) := by
  constructor
  · intro output?
    simp only [run, perform, h]
    rfl
  · simp only [run, perform, h]
    rfl

theorem run_inspect {content : Bytes} {doc : Document} (hread : d.read path = .ok content)
    (hdecode : Document.decode content = .ok doc) :
    (inspect path false).run d preferred? = (.success (Bytes.ofText doc.listing), d) := by
  have hdecoded : decodeFile d.read path = .ok doc := by
    simp only [decodeFile, hread]
    show Except.mapError _ (Document.decode content) = _
    rw [hdecode]
    rfl
  simp only [run, perform, hdecoded]
  rfl

end Command

theorem Command.decode_of_compileFile [Json.DoubleReader] {read : FileReader}
    {preferred? named? : Option String} {path : String} {c : Compiled}
    (h : compileFile read preferred? named? path = .ok c) :
    ∃ doc, Document.decode c.bytes = .ok doc ∧ doc.records.length = c.recordCount := by
  unfold compileFile at h
  cases hinputs : inputs read preferred? named? path with
  | error e =>
    rw [hinputs] at h
    cases h
  | ok p =>
    rw [hinputs] at h
    change Except.mapError (CommandError.compilation path)
      (CrowdScenario.compile p.1 .standard (Scene.ofFiles read) p.2) = .ok c at h
    cases hcompile : CrowdScenario.compile p.1 .standard (Scene.ofFiles read) p.2 with
    | error e =>
      rw [hcompile] at h
      cases h
    | ok c' =>
      rw [hcompile] at h
      cases h
      obtain ⟨_, doc, -, hdecode, hcount, -, -⟩ := document_of_compile hcompile
      exact ⟨doc, hdecode, hcount⟩

def Directory.Writable (d : Directory) (path : String) : Prop :=
  ∃ content d', d.write path content = .ok d'

/-- Three command lines about one description either fail with one report or deliver one document, and
every document is inspected line by line. -/
theorem command_lines_agree [Json.DoubleReader] :
    (∀ (d : Directory) (preferred? settings? : Option String) (path file : String),
      IsWord path → IsWord file → (∀ s ∈ settings?, IsWord s) → d.Writable file →
      (∃ report : Report,
        runArguments d preferred? (["compile", path] ++ settingsArguments settings?) =
          (⟨1, [], report.text⟩, d) ∧
        runArguments d preferred? (["compile", path, "-o", file] ++ settingsArguments settings?) =
          (⟨1, [], report.text⟩, d) ∧
        runArguments d preferred? (["check", path] ++ settingsArguments settings?) =
          (⟨1, [], report.text⟩, d)) ∨
      ∃ bytes count digest d' doc listing,
        runArguments d preferred? (["compile", path] ++ settingsArguments settings?) =
          (⟨0, bytes, ""⟩, d) ∧
        runArguments d preferred? (["compile", path, "-o", file] ++ settingsArguments settings?) =
          (⟨0, [], ""⟩, d') ∧
        d.write file bytes = .ok d' ∧ d'.read file = .ok bytes ∧
        runArguments d preferred? (["check", path] ++ settingsArguments settings?) =
          (⟨0, Bytes.ofText
            s!"{path}: {count} records, {bytes.length} bytes, digest {digest}\n", ""⟩, d) ∧
        digest = (Digest.ofBytes bytes).toHex ∧
        (∀ later?, runArguments d' later? ["inspect", file] =
          (⟨0, Bytes.ofText listing, ""⟩, d')) ∧
        Document.decode bytes = .ok doc ∧ doc.records.length = count ∧
        Text.Lists listing (("type " ++ doc.simulation.name) :: doc.records.map Record.line)) ∧
    ∀ (d : Directory) (preferred? : Option String) (path : String) (content : Bytes)
      (doc : Document), IsWord path → d.read path = .ok content →
      Document.decode content = .ok doc →
      ∃ listing, runArguments d preferred? ["inspect", path] =
          (⟨0, Bytes.ofText listing, ""⟩, d) ∧
        Text.Lists listing (("type " ++ doc.simulation.name) :: doc.records.map Record.line) := by
  constructor
  · intro d preferred? settings? path file hpath hfile hsettings hwritable
    obtain ⟨old, before, hwrite⟩ := hwritable
    simp only [runArguments, Command.ofArguments?_compile hpath hsettings,
      Command.ofArguments?_compile_into hpath hfile hsettings,
      Command.ofArguments?_check hpath hsettings, Command.ofArguments?_inspect hfile]
    cases hcompile : Command.compileFile d.read preferred? settings? path with
    | error e =>
      obtain ⟨hfails, hcheck⟩ := Command.run_of_error hcompile
      exact .inl ⟨e.report, hfails none, hfails (some file), hcheck⟩
    | ok c =>
      obtain ⟨d', hwritten⟩ := Directory.write_of_write hwrite c.bytes
      obtain ⟨doc, hdecode, hcount⟩ := Command.decode_of_compileFile hcompile
      have hread := Directory.read_of_write hwritten
      exact .inr ⟨c.bytes, c.recordCount, c.digest.toHex, d', doc, doc.listing,
        Command.run_compile hcompile, Command.run_compile_into hcompile hwritten, hwritten, hread,
        Command.run_check hcompile, rfl, fun _ => Command.run_inspect hread hdecode, hdecode,
        hcount, doc.lists_listing⟩
  · intro d preferred? path content doc hpath hread hdecode
    simp only [runArguments, Command.ofArguments?_inspect hpath]
    exact ⟨doc.listing, Command.run_inspect hread hdecode, doc.lists_listing⟩

/-- An empty word is no argument at all. -/
theorem command_lines_refuse_empty :
    "".toList.head? ≠ some '-' ∧ Directory.Writable ⟨[]⟩ "out" ∧
      Directory.read ⟨[]⟩ "out" = .error .notFound ∧
      (runArguments ⟨[]⟩ none ["compile", ""]).1.status = 2 ∧
      (runArguments ⟨[]⟩ none ["compile", "", "-o", "out"]).1.status = 2 ∧
      (runArguments ⟨[]⟩ none ["check", ""]).1.status = 2 := by
  have hwritable : Directory.Writable ⟨[]⟩ "out" := ⟨[], _, rfl⟩
  refine ⟨by decide, hwritable, rfl, ?_, ?_, ?_⟩
  · rfl
  · rfl
  · rfl

namespace Desk

/-- A description, and a document whose scene has a line break for a name. -/
def directory : Directory :=
  ⟨[(["hall"], [123, 125]), (["named"], [1, 1, 0, 255, 0, 1, 10])]⟩

end Desk

open Desk in
theorem command_lines_agree_desk :
    directory.Writable "out" ∧
      runArguments directory none ["compile", "hall"] = (⟨0, [1], ""⟩, directory) ∧
      (∃ d', runArguments directory none ["compile", "hall", "-o", "out"] = (⟨0, [], ""⟩, d') ∧
        d'.read "out" = .ok [1]) ∧
      ∃ listing, runArguments directory none ["inspect", "named"] =
          (⟨0, Bytes.ofText listing, ""⟩, directory) ∧
        Text.Lists listing ["type " ++ Simulation.flow.name, Record.line (.sceneFile "\n")] := by
  have hwritable : directory.Writable "out" := ⟨[], _, rfl⟩
  have hcompile : runArguments directory none ["compile", "hall"] = (⟨0, [1], ""⟩, directory) := by
    cbv
  have hnamed : Document.decode [1, 1, 0, 255, 0, 1, 10] = .ok ⟨.flow, [.sceneFile "\n"]⟩ := by
    cbv
  have hread : directory.read "named" = .ok [1, 1, 0, 255, 0, 1, 10] := rfl
  obtain ⟨hlines, hinspect⟩ := command_lines_agree
  refine ⟨hwritable, hcompile, ?_, ?_⟩
  · have hsettings : ∀ s ∈ (none : Option String), IsWord s := by simp
    have hhall :=
      hlines directory none none "hall" "out" (by decide) (by decide) hsettings hwritable
    obtain ⟨report, hfails, -⟩ | ⟨bytes, -, -, d', -, -, hout, hinto, -, hread, -⟩ := hhall
    · rw [settingsArguments, List.append_nil, hcompile] at hfails
      cases hfails
    · rw [settingsArguments, List.append_nil, hcompile] at hout
      cases hout
      exact ⟨d', hinto, hread⟩
  · obtain ⟨listing, hrun, hlisting⟩ := hinspect _ none "named" _ _ (by decide) hread hnamed
    exact ⟨listing, hrun, hlisting⟩

end CrowdScenario
