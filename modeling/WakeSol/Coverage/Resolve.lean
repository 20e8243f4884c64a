import Mathlib.Data.Char
import Mathlib.Data.List.Lex
import WakeSol.Address
import WakeSol.Coverage.Elf
import WakeSol.Lib.Cache
import WakeSol.Lib.Tally

/- Execution counts of the programs under test and their resolution into counts of
   source lines. The counters are one record per process; so is the cache of parsed
   line tables. -/
set_option autoImplicit false

namespace WakeSol.Coverage

open TextLib TallyLib CacheLib

def u64Max : Nat := 2 ^ 64 - 1

def saturatingAdd (left right : Nat) : Nat := min (left + right) u64Max

structure ProgramCounters where
  hits : List Nat
  elf : Option Bytes

structure Counters where
  programs : Dict Address ProgramCounters
  debugElfs : Dict Address Bytes

def Counters.fresh : Counters := ⟨.empty, .empty⟩

def ProgramCounters.new (nInsns : Nat) : ProgramCounters := ⟨List.replicate nInsns 0, none⟩

-- A program counter outside the vector is dropped.
def countHit (hits : List Nat) (pc : Nat) : List Nat := hits.modify pc fun slot => saturatingAdd slot 1

-- The ELF is captured at the first sight of it and kept.
def ProgramCounters.record (entry : ProgramCounters) (found : Option Bytes) (trace : List Nat) : ProgramCounters where
  hits := trace.foldl countHit entry.hits
  elf := entry.elf <|> found

def Counters.record (counters : Counters) (programId : Address) (text : Bytes) (found : Option Bytes) (trace : List Nat) :
    Counters :=
  let entry := (counters.programs.get programId).getD (.new (text.length / insnSize))
  { counters with programs := counters.programs.set programId (entry.record found trace) }

def Counters.registerDebugElf (counters : Counters) (programId : Address) (elf : Bytes) : Counters :=
  { counters with debugElfs := counters.debugElfs.set programId elf }

def Counters.reset (counters : Counters) : Counters := { counters with programs := .empty }

structure ProgramReport where
  programId : Text
  instructionsCovered : Nat
  instructionsTotal : Nat
  hasDebugInfo : Bool
  linesResolved : Nat
  textMismatch : Bool
  textSha256 : Text
deriving DecidableEq

abbrev LineCounts := Tally Text Nat Nat

def hitsAt (hits : List Nat) (textAddr addr : Nat) : Nat :=
  if addr < textAddr then 0 else (hits[(addr - textAddr) / insnSize]?).getD 0

-- Every line with code gets an entry; only the first row of a run of rows for one
-- line is charged.
def chargeRow (charge : Nat → Nat) (prev : Option (Text × Nat)) (lines : LineCounts) (row : StmtRow) : LineCounts :=
  update lines row.file row.line fun slot =>
    if prev ≠ some (row.file, row.line) then max (slot.getD 0) (charge row.address) else slot.getD 0

def chargeRows (charge : Nat → Nat) : Option (Text × Nat) → LineCounts → List StmtRow → LineCounts
  | _, lines, [] => lines
  | prev, lines, row :: rest => chargeRows charge (some (row.file, row.line)) (chargeRow charge prev lines row) rest

def lineCounts (table : LineTable) (hits : List Nat) : LineCounts :=
  chargeRows (hitsAt hits table.textAddr) none .empty table.rows

def addLines (out lines : LineCounts) : LineCounts := absorb (fun slot count => saturatingAdd (slot.getD 0) count) out lines

def rootsFingerprint (roots : List RootSpec) : Text :=
  [Char.ofNat 2].intercalate (roots.map fun root => root.dir ++ Char.ofNat 1 :: root.crateName)

def textDigest (toolchain : Toolchain) (elf : Option Bytes) : Text :=
  match elf.bind (textOf toolchain) with
  | none => []
  | some text => toolchain.sha256Hex text

def cacheKey (programId : Address) (digest : Text) (roots : List RootSpec) : Text :=
  programId.text ++ Char.ofNat 3 :: digest ++ Char.ofNat 3 :: rootsFingerprint roots

inductive ElfChoice where
  | mismatch
  | absent
  | elf (bytes : Bytes)

-- A registered sidecar wins if it describes the code that ran.
def chooseElf (toolchain : Toolchain) : Option Bytes → Option Bytes → ElfChoice
  | some sidecar, some deployed =>
    if textMatches (textOf toolchain sidecar) (textOf toolchain deployed) then .elf sidecar else .mismatch
  | some sidecar, none => .elf sidecar
  | none, some deployed => .elf deployed
  | none, none => .absent

abbrev RowCache := Text → Option LineTable

def RowCache.empty : RowCache := fun _ => none

structure Resolution where
  report : ProgramReport
  lines : LineCounts
  cache : RowCache

def bareReport (toolchain : Toolchain) (programId : Address) (counters : ProgramCounters) : ProgramReport where
  programId := programId.text
  instructionsCovered := counters.hits.countP (0 < ·)
  instructionsTotal := counters.hits.length
  hasDebugInfo := false
  linesResolved := 0
  textMismatch := false
  textSha256 := textDigest toolchain counters.elf

def resolveProgram (toolchain : Toolchain) (disk : Disk) (programId : Address) (counters : ProgramCounters)
    (debugElf : Option Bytes) (roots : List RootSpec) (out : LineCounts) (cache : RowCache) : Resolution :=
  let report := bareReport toolchain programId counters
  match chooseElf toolchain debugElf counters.elf with
  | .absent => ⟨report, out, cache⟩
  | .mismatch => ⟨{ report with textMismatch := true }, out, cache⟩
  | .elf elf =>
    match toolchain.parse elf with
    | none => ⟨report, out, cache⟩
    | some object =>
      let report := { report with hasDebugInfo := hasLineTable toolchain elf }
      let key := cacheKey programId report.textSha256 roots
      match request cache key (freshTable disk roots object) with
      | (none, cache) => ⟨report, out, cache⟩
      | (some table, cache) =>
        ⟨{ report with linesResolved := table.rows.length },
          if table.rows.isEmpty then out else addLines out (lineCounts table counters.hits), cache⟩

structure Report where
  lines : LineCounts
  programs : List ProgramReport

def byProgramId (left right : ProgramReport) : Prop := left.programId ≤ right.programId

instance : DecidableRel byProgramId := fun left right => inferInstanceAs (Decidable (left.programId ≤ right.programId))

-- The programs are visited in the order of the counters; the source visits a hash
-- map.
def resolveAll (toolchain : Toolchain) (disk : Disk) (debugElfs : Dict Address Bytes) (roots : List RootSpec) :
    List (Address × ProgramCounters) → LineCounts → RowCache → LineCounts × List ProgramReport × RowCache
  | [], out, cache => (out, [], cache)
  | program :: rest, out, cache =>
    let here := resolveProgram toolchain disk program.1 program.2 (debugElfs.get program.1) roots out cache
    let later := resolveAll toolchain disk debugElfs roots rest here.lines here.cache
    (later.1, here.report :: later.2.1, later.2.2)

def buildReport (toolchain : Toolchain) (disk : Disk) (counters : Counters) (roots : List RootSpec) (cache : RowCache) :
    Report × RowCache :=
  let resolved := resolveAll toolchain disk counters.debugElfs roots counters.programs.entries .empty cache
  (⟨resolved.1, resolved.2.1.insertionSort byProgramId⟩, resolved.2.2)

end WakeSol.Coverage
