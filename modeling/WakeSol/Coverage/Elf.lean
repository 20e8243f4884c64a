import Mathlib.Data.List.Sort
import WakeSol.Lib.Text

/- What coverage reads out of an ELF file: the image of its code and the statement
   rows of its line table, placed in the user's source tree. Parsing of the file
   and of its DWARF sections is a parameter, as are the files on disk. -/
set_option autoImplicit false

namespace WakeSol.Coverage

open TextLib

abbrev Bytes := List UInt8

structure CodeSection where
  address : Nat
  data : Option Bytes

-- An entry of the file table. A string attribute that DWARF cannot resolve is
-- none inside the outer option.
structure FileEntry where
  directoryIndex : Nat
  directory : Option (Option Text)
  pathName : Option Text

structure LineRow where
  address : Nat
  endSequence : Bool
  isStmt : Bool
  line : Option Nat
  fileIndex : Nat

structure LineProgram where
  files : List (Nat × FileEntry)
  rows : List LineRow

structure CompUnit where
  name : Option Text
  compDir : Option (Option Text)
  lineProgram : Option LineProgram

-- A parsed file. The units are none where reading them, or a row of one of their
-- line programs, ends in an error.
structure ObjectFile where
  text : Option CodeSection
  debugLine : Option Nat
  units : Option (List CompUnit)

structure Toolchain where
  parse : Bytes → Option ObjectFile
  sha256Hex : Bytes → Text
  executableText : Bytes → Bytes

structure Disk where
  isFile : Text → Bool
  lineCount : Text → Option Nat

structure RootSpec where
  dir : Text
  crateName : Text

structure StmtRow where
  address : Nat
  file : Text
  line : Nat
deriving DecidableEq

def insnSize : Nat := 8

def textOf (toolchain : Toolchain) (elf : Bytes) : Option Bytes := do
  let object ← toolchain.parse elf
  let text ← object.text
  text.data

def hasLineTable (toolchain : Toolchain) (elf : Bytes) : Bool :=
  match toolchain.parse elf with
  | none => false
  | some object => match object.debugLine with
    | none => false
    | some size => 0 < size

-- chunks_exact(8): what is left over at the end belongs to no slot.
def slots (text : Bytes) : List Bytes :=
  (List.range (text.length / insnSize)).map fun slot => (text.drop (insnSize * slot)).take insnSize

def callImm : UInt8 := 0x85

-- The loader rewrites the immediate of every call, so it is left out.
def slotMatches (left right : Bytes) : Bool :=
  if left.head? = some callImm ∧ right.head? = some callImm then left.take 4 == right.take 4 else left == right

def textMatches : Option Bytes → Option Bytes → Bool
  | some left, some right =>
    left.length == right.length && ((slots left).zip (slots right)).all fun pair => slotMatches pair.1 pair.2
  | _, _ => false

def isAbsolute (path : Text) : Bool := path.head? == some '/'

def pushComponent (path component : Text) : Text :=
  if isAbsolute component then component
  else if path ≠ [] ∧ path.getLast? ≠ some '/' then path ++ '/' :: component
  else path ++ component

def composePath (unit : CompUnit) (file : FileEntry) : Option Text := do
  let compiled ← match unit.compDir with
    | none => some []
    | some dir => dir.map (pushComponent [])
  -- Directory 0 is the directory of the compilation unit itself.
  let inside ← match file.directory with
    | none => some compiled
    | some dir => if file.directoryIndex ≠ 0 then dir.map (pushComponent compiled) else some compiled
  file.pathName.map (pushComponent inside)

def unitCrateName (unit : CompUnit) : Option Text := do
  let name ← unit.name
  let pair ← splitOnce ['/', '@', '/'] name
  let tail := match splitOnce ['/', '@', '/'] pair.2 with
    | none => pair.2
    | some inner => inner.1
  some (tail.takeWhile (· ≠ '.'))

-- The components of a path: empty segments vanish, and a dot stays only as the
-- first component of a relative path.
def components (path : Text) : List Text :=
  let segments := (path.splitOn '/').filter (· ≠ [])
  if isAbsolute path then ['/'] :: segments.filter (· ≠ ['.'])
  else segments.take 1 ++ (segments.drop 1).filter (· ≠ ['.'])

def pathStartsWith (path dir : Text) : Bool := (components dir).isPrefixOf (components path)

def resolvePath (disk : Disk) (path : Text) (krate : Option Text) (roots : List RootSpec) : Option Text :=
  if isAbsolute path then
    if roots.isEmpty || roots.any fun root => pathStartsWith path root.dir then some path else none
  else match krate with
    | none => none
    | some krate => roots.findSome? fun root =>
      if root.crateName = krate ∧ disk.isFile (pushComponent root.dir path) then some (pushComponent root.dir path) else none

def pastEnd (disk : Disk) (file : Text) (line : Nat) : Bool :=
  match disk.lineCount file with
  | none => false
  | some count => count < line

def statementRow (disk : Disk) (roots : List RootSpec) (unit : CompUnit) (program : LineProgram) (row : LineRow) :
    Option StmtRow := do
  if row.endSequence || !row.isStmt then none
  else
    let line ← row.line
    let entry ← program.files.lookup row.fileIndex
    let path ← composePath unit entry
    let file ← resolvePath disk path (unitCrateName unit) roots
    if pastEnd disk file (line % 2 ^ 32) then none else some ⟨row.address, file, line % 2 ^ 32⟩

def unitRows (disk : Disk) (roots : List RootSpec) (unit : CompUnit) : List StmtRow :=
  match unit.lineProgram with
  | none => []
  | some program => program.rows.filterMap (statementRow disk roots unit program)

def statementRows (disk : Disk) (roots : List RootSpec) (units : List CompUnit) : List StmtRow :=
  units.flatMap (unitRows disk roots)

def byAddress (left right : StmtRow) : Prop := left.address ≤ right.address

instance : DecidableRel byAddress := fun left right => inferInstanceAs (Decidable (left.address ≤ right.address))

instance : Std.Total byAddress := ⟨fun left right => Nat.le_total left.address right.address⟩

instance : IsTrans StmtRow byAddress := ⟨fun _ _ _ first second => Nat.le_trans first second⟩

structure LineTable where
  textAddr : Nat
  rows : List StmtRow
  sorted : rows.Pairwise byAddress

theorem sorted_rows (rows : List StmtRow) : (rows.insertionSort byAddress).Pairwise byAddress :=
  List.pairwise_insertionSort byAddress rows

def freshTable (disk : Disk) (roots : List RootSpec) (object : ObjectFile) : Option LineTable := do
  let text ← object.text
  let units ← object.units
  some ⟨text.address, (statementRows disk roots units).insertionSort byAddress, sorted_rows _⟩

end WakeSol.Coverage
