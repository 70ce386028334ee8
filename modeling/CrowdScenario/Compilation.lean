import CrowdScenario.Description
import CrowdScenario.Digest
import CrowdScenario.Encoding
import CrowdScenario.Tree.Build

/-!
# Compilation (`SPEC_FULL.md`, section 2)

A description becomes a document: its tree is built and encoded from the root on, with one memory.
The first failure ends the compilation.
-/

namespace CrowdScenario

structure Compiled where
  bytes : Bytes
  /-- The number of records, not counting the leading byte. -/
  recordCount : Nat
deriving DecidableEq

namespace Compiled

def digest (c : Compiled) : Digest := Digest.ofBytes c.bytes

def ofWriter (w : Writer) : Compiled := ⟨w.bytes, w.recordCount⟩

end Compiled

namespace Compilation

def encode (ctx : Context) (root : Node) : Resolution Compiled := do
  let ((), w) ← (Encoding.encodeNode ctx root [] root).run .empty
  return .ofWriter w

/-- The document of a description, and what the compilation leaves in memory. -/
def run (settings : Settings) (registry : Registry) (ingest : Ingestor) (d : Description) :
    Except CompileError Compiled × Memo :=
  match Node.ofDescription registry d.members with
  | .error e => (.error e, .empty)
  | .ok root => (encode ⟨settings, d.directory?, ingest⟩ root).run.run .empty

end Compilation

def compile (settings : Settings) (registry : Registry) (ingest : Ingestor) (d : Description) :
    Except CompileError Compiled :=
  (Compilation.run settings registry ingest d).1

end CrowdScenario
