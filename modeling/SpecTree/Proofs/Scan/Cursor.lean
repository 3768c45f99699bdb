import SpecTree.Proofs.Scan.Mark

/-!
# Scanning by a cursor

The comment lines of a file are read by one cursor, which is moved by hand. A loop goes on for as long
as it likes, so the scan is given a limit that no loop is to pass; a line is looked at wherever the
cursor is, so it may not be there; and an error ends the scan where it stands.

The cursor leaves a trail of the places where it has been, and each round over the file says where it
began and ended before the cursor is moved by force.
-/

namespace SpecTree

/-- Why a scan ended early. -/
inductive EarlyEnd where
  | failed (e : LoadError)
  /-- A line was looked for that is not there. -/
  | outOfBounds

/-- Where a scan is. -/
structure Place where
  pos : Nat
  /-- The name in the last header. -/
  spec : Option String
  /-- Where the cursor has been before, the last place first. -/
  trail : List Nat
  /-- Where the rounds over the file began and ended, the last one first. -/
  rounds : List (Nat × Nat)

/-- Steps of a scan. `none` stands for a loop that has passed its limit; the place outlives an error. -/
abbrev Scan (α : Type) : Type := ExceptT EarlyEnd (StateT Place Option) α

namespace Place

def first : Place := ⟨0, none, [], []⟩

/-- The place one line further on. -/
def next (p : Place) : Place := { p with pos := p.pos + 1, trail := p.pos :: p.trail }

/-- The place after a round over the file that began at `start`. -/
def endRound (start : Nat) (p : Place) : Place := { p with rounds := (start, p.pos) :: p.rounds }

variable (lines : List CommentLine) (p : Place)

def atEnd : Bool := lines.length ≤ p.pos

/-- What the line at the cursor means. -/
def kind : LineKind :=
  match lines[p.pos]? with
  | some l => l.kind
  | none => .blank

/-- The number of the last line. -/
def lastNumber : Nat := (lines.getLast?.map (·.number)).getD 0

/-- The number of the line at the cursor. At the end it is the number of the last line. -/
def line : Nat :=
  match lines[p.pos]? with
  | some l => l.number
  | none => lastNumber lines

end Place

namespace Scan

variable (file : String) (lines : List CommentLine) (limit : Nat)

/-- A loop has gone round more often than it may. -/
def overLimit {α : Type} : Scan α := ExceptT.mk fun _ => none

/-! ## Single lines -/

/-- Go on by one line. -/
def forward : Scan Unit := modify Place.next

/-- The text at the cursor, which is not checked to be inside. -/
def text : Scan String := do
  let p ← get
  match lines[p.pos]? with
  | some l => return l.text
  | none => throw .outOfBounds

/-- Fail on account of a line. -/
def failAt {α : Type} (line : Nat) (problem : LoadProblem) : Scan α := do
  let p ← get
  throw (.failed { spec := p.spec, file, line, problem })

/-- Fail on account of the line at the cursor. -/
def fail {α : Type} (problem : LoadProblem) : Scan α := do
  let p ← get
  failAt file (p.line lines) problem

/-- Skip lines of some kinds. As every loop it goes round so many times at most. -/
def skipWhile (skips : LineKind → Bool) : Nat → Scan Unit
  | 0 => overLimit
  | rounds + 1 => do
    let p ← get
    if p.atEnd lines ∨ !skips (p.kind lines) then
      return ()
    forward
    skipWhile skips rounds

/-- Go on to the next mark, or to the end. -/
def advance : Scan Unit := skipWhile lines (fun kind => !kind.isMarker) limit

/-- Skip blank lines. -/
def skipBlank : Scan Unit := skipWhile lines (fun kind => kind = .blank) limit

/-- Gather the prose from the cursor on. -/
def gatherProse : Nat → List String → Scan (List String)
  | 0, _ => overLimit
  | rounds + 1, parts => do
    let p ← get
    if p.atEnd lines then
      return parts
    match p.kind lines with
    | .prose =>
      let later ← text lines
      forward
      gatherProse rounds (parts ++ [Text.trimmed later])
    | _ => return parts

/-- Gather the line at the cursor and the prose behind it. -/
def gather : Scan (String × Nat) := do
  let p ← get
  let front ← text lines
  forward
  let parts ← gatherProse lines limit [Text.trimmed front]
  return (" ".intercalate parts, p.line lines)

/-- Read what is gathered from the cursor on, given its line. -/
def readGathered {α : Type} (read : Nat → String → Except DeclarationFault α) : Scan α := do
  let (text, line) ← gather lines limit
  match read line text with
  | .ok a => return a
  | .error fault => failAt file line (.badDeclaration fault text)

def readDeclaration : Scan Declared :=
  readGathered file lines limit fun line text => Declaration.read ⟨file, line⟩ text

def readItem : Scan (Item × Nat) :=
  readGathered file lines limit fun line text => (Item.read text).map (·, line)

/-! ## Lists -/

def readItems : Nat → List (Item × Nat) → Scan (List (Item × Nat))
  | 0, _ => overLimit
  | rounds + 1, items => do
    let p ← get
    if p.atEnd lines ∨ p.kind lines ≠ .item then
      return items
    let item ← readItem file lines limit
    readItems rounds (items ++ [item])

/-- Read the list that the word at the cursor opens. -/
def readList : Scan (List (Item × Nat)) := do
  forward
  skipBlank lines limit
  readItems file lines limit limit []

/-! ## Scopes and blocks -/

/-- Read the header at the cursor, if there is one. A scope in a block has none. -/
def readHeader (nested : Bool) : Scan (Option (String × Nat)) := do
  if nested then
    return none
  let p ← get
  match p.kind lines with
  | .header name =>
    modify fun p => { p with spec := some name }
    forward
    advance lines limit
    return some (name, p.line lines)
  | _ => return none

/-- Read what is in a scope. In a block there are declarations only, and so nothing to read a block
with. -/
def readParts (readBlock? : Option (Keyword → Scan Part)) : Nat → Scope → Scan Scope
  | 0, _ => overLimit
  | rounds + 1, scope => do
    let p ← get
    if p.atEnd lines then
      return scope
    match p.kind lines with
    | .declaration =>
      match ← readDeclaration file lines limit with
      | .parameter d =>
        advance lines limit
        readParts readBlock? rounds { scope with parameters := scope.parameters ++ d.visible }
      | .include spec =>
        if readBlock?.isNone then
          fail file lines .includeInBlock
        else
          advance lines limit
          readParts readBlock? rounds { scope with includes := scope.includes ++ [spec] }
    | .keyword k =>
      match k with
      | .oneOf | .condition =>
        match readBlock? with
        | none => fail file lines (.nestedBlock k)
        | some readBlock =>
          let part ← readBlock k
          advance lines limit
          readParts readBlock? rounds { scope with blocks := scope.blocks ++ [part] }
      | .evaluators | .keys | .includes | .dependencies =>
        if readBlock?.isNone then
          fail file lines (.listInBlock k)
        else
          let items ← readList file lines limit
          advance lines limit
          readParts readBlock? rounds (scope.addItems file k items)
      | .or | .close | .whenTrue | .whenFalse => return scope
    | .item =>
      forward
      advance lines limit
      readParts readBlock? rounds scope
    | _ => return scope

/-- Read a scope, with its header and the line of it. -/
def readScope (readBlock? : Option (Keyword → Scan Part)) :
    Scan (Option (String × Nat) × Scope) := do
  advance lines limit
  let header ← readHeader lines limit readBlock?.isNone
  let scope ← readParts file lines limit readBlock? limit .empty
  return (header, scope)

/-- Read the parameters of a scope in a block. -/
def readBranch : Scan (List Declaration) := do
  let (_, scope) ← readScope file lines limit none
  return scope.parameters

/-- Read the branches of the block that was opened on line `start`, from the word at the cursor on. -/
def readBranches (start : Nat) : Nat → List (List Declaration) → Scan (List (List Declaration))
  | 0, _ => overLimit
  | rounds + 1, branches => do
    forward
    let branch ← readBranch file lines limit
    let branches := branches ++ [branch]
    let p ← get
    if p.kind lines = .keyword .or ∧ !p.atEnd lines then
      readBranches start rounds branches
    else if p.kind lines = .keyword .close ∧ !p.atEnd lines then
      forward
      return branches
    else
      fail file lines (.unclosedOneOf start)

def readOneOf : Scan Part := do
  let p ← get
  let branches ← readBranches file lines limit (p.line lines) limit []
  if branches.length < 2 ∨ branches.any List.isEmpty then
    failAt file (p.line lines) .fewBranches
  else
    return .oneOf branches

/-- Read the branch behind a word, if it is at the cursor. -/
def readBranchAfter (k : Keyword) : Scan (List Declaration) := do
  let p ← get
  if p.kind lines = .keyword k ∧ !p.atEnd lines then
    forward
    readBranch file lines limit
  else
    return []

def readConditional : Scan Part := do
  let p ← get
  forward
  match ← readBranch file lines limit with
  | [condition] =>
    if condition.type ≠ .primitive (.scalar .bool) then
      failAt file condition.origin.line (.conditionNotBool condition.name)
    else
      let whenTrue ← readBranchAfter file lines limit .whenTrue
      let whenFalse ← readBranchAfter file lines limit .whenFalse
      let q ← get
      if q.atEnd lines ∨ q.kind lines ≠ .keyword .close then
        fail file lines (.unclosedConditional (p.line lines))
      else
        forward
        return .conditional condition whenTrue whenFalse
  | _ => failAt file (p.line lines) .notOneCondition

/-- Read the block that the word at the cursor opens. -/
def readBlock (k : Keyword) : Scan Part :=
  if k = .oneOf then readOneOf file lines limit else readConditional file lines limit

/-- Read a scope outside of blocks. -/
def readOuterScope : Scan (Option (String × Nat) × Scope) :=
  readScope file lines limit (some (readBlock file lines limit))

/-! ## Files -/

/-- Read the scope at the cursor. A round that has not moved the cursor moves it by one line. -/
def readRound (stem : String) : Scan (List Definition) := do
  let p ← get
  modify fun p => { p with spec := none }
  let (header, scope) ← readOuterScope file lines limit
  let (name, line) := header.getD (Naming.ofStem stem, p.line lines)
  modify (Place.endRound p.pos)
  let q ← get
  if q.pos = p.pos then
    forward
  return scope.definitions name ⟨file, line⟩

/-- The word in a line, if it has no place outside of blocks. -/
def strayWord? : LineKind → Option Keyword
  | .keyword k => if k.endsBranch then some k else none
  | _ => none

/-- Read one scope after the other. -/
def readRounds (stem : String) : Nat → List Definition → Scan (List Definition)
  | 0, _ => overLimit
  | rounds + 1, found => do
    advance lines limit
    let p ← get
    if p.atEnd lines then
      return found
    match strayWord? (p.kind lines) with
    | some k => fail file lines (.strayKeyword k)
    | none =>
      let ds ← readRound file lines limit stem
      readRounds stem rounds (found ++ ds)

/-- Scan the comment lines of a file from the start, with a limit on the rounds of every loop. -/
def readFile (stem : String) : Option (Except EarlyEnd (List Definition) × Place) :=
  (readRounds file lines limit stem limit []).run.run .first

end Scan

end SpecTree
