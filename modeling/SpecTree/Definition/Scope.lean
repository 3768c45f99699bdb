import SpecTree.Comment.Token
import SpecTree.LoadError
import SpecTree.Naming
import SpecTree.Result

/-!
# Scopes

The comment lines of a source file describe one spec after another. A header line names the
spec that the lines below it describe; the lines above the first header describe a spec
named after the file. Inside a scope, declarations and list items may stand in any order
with `ONE OF` and `IF` blocks, whose branches hold declarations only. Main statement:
`length_readBranch` and its relatives, what is left after reading is no longer than before.
-/

namespace SpecTree

/-- What the reader of a scope knows: the file, the last comment line of it, at which errors
at the end are reported, and the name in the header. -/
structure ScopeContext where
  file : String
  lastLine : Nat
  spec : Option String

namespace ScopeContext

/-- The line at which a text continues. -/
def lineAt (ctx : ScopeContext) : List Token → Nat
  | [] => ctx.lastLine
  | t :: _ => t.line

/-- An error in the scope. -/
def error (ctx : ScopeContext) (line : Nat) (problem : LoadProblem) : LoadError :=
  { spec := ctx.spec, file := ctx.file, line, problem }

/-- Read a declaration that starts on the given line. -/
def readDeclaration (ctx : ScopeContext) (line : Nat) (text : String) :
    Except LoadError Declared :=
  match Declaration.read ⟨ctx.file, line⟩ text with
  | .ok declared => .ok declared
  | .error fault => .error (ctx.error line (.badDeclaration fault text))

/-- Read an item that starts on the given line. -/
def readItem (ctx : ScopeContext) (line : Nat) (text : String) : Except LoadError Item :=
  match Item.read text with
  | .ok item => .ok item
  | .error fault => .error (ctx.error line (.badDeclaration fault text))

end ScopeContext

namespace Declaration

/-- Parameters whose name starts with an underscore are not part of a spec. -/
def isPrivate (d : Declaration) : Bool := d.name.toList.head? = some '_'

/-- The declaration, unless it is private. -/
def visible (d : Declaration) : List Declaration := if d.isPrivate then [] else [d]

end Declaration

namespace Scope

/-- Read the declarations of a branch, up to a header or to a word that divides or closes a
block. Nothing else may stand in a branch. -/
def readBranch (ctx : ScopeContext) :
    List Token → Except LoadError (List Declaration × List Token)
  | [] => .ok ([], [])
  | t :: rest =>
    match t.kind with
    | .blank | .prose _ | .item _ => readBranch ctx rest
    | .declaration text =>
      match ctx.readDeclaration t.line text with
      | .error e => .error e
      | .ok (.include _) => .error (ctx.error (ctx.lineAt rest) .includeInBlock)
      | .ok (.parameter d) => do
        let (ds, after) ← readBranch ctx rest
        return (d.visible ++ ds, after)
    | .keyword k =>
      match k with
      | .oneOf | .condition => .error (ctx.error t.line (.nestedBlock k))
      | .evaluators | .keys | .includes | .dependencies =>
        .error (ctx.error t.line (.listInBlock k))
      | .or | .close | .whenTrue | .whenFalse => .ok ([], t :: rest)
    | .header _ => .ok ([], t :: rest)

/-- Reading a branch leaves no more tokens than there were. -/
theorem length_readBranch {ctx : ScopeContext} {ts : List Token} {ds : List Declaration}
    {rest : List Token} (h : readBranch ctx ts = .ok (ds, rest)) : rest.length ≤ ts.length := by
  fun_induction readBranch ctx ts generalizing ds with
  | case1 => simp_all
  | case2 | case3 | case4 => simp only [List.length_cons]; grind
  | case7 t rest' text hk d hd ih =>
    simp only [bind_eq_ok, pure_eq_ok, Prod.mk.injEq] at h
    obtain ⟨⟨ds', after⟩, hr, _, rfl⟩ := h
    have : after.length ≤ rest'.length := ih hr
    simp only [List.length_cons]
    omega
  | _ => simp_all

/-- Read the branches of a `ONE OF` block that was opened on line `start`. -/
def readBranches (ctx : ScopeContext) (start : Nat) (ts : List Token) :
    Except LoadError (List (List Declaration) × List Token) :=
  match _h : readBranch ctx ts with
  | .error e => .error e
  | .ok (ds, ⟨_, .keyword .or⟩ :: rest) => do
    let (branches, after) ← readBranches ctx start rest
    return (ds :: branches, after)
  | .ok (ds, ⟨_, .keyword .close⟩ :: rest) => .ok ([ds], rest)
  | .ok (_, rest) => .error (ctx.error (ctx.lineAt rest) (.unclosedOneOf start))
termination_by ts.length
decreasing_by
  have := length_readBranch _h
  simp only [List.length_cons] at this
  omega

/-- Read a `ONE OF` block. It has two branches at least, and none of them is empty. -/
def readOneOf (ctx : ScopeContext) (start : Nat) (ts : List Token) :
    Except LoadError (Part × List Token) := do
  let (branches, rest) ← readBranches ctx start ts
  if branches.length < 2 ∨ [] ∈ branches then .error (ctx.error start .fewBranches)
  else return (.oneOf branches, rest)

/-- Read a branch that stands behind the given word, if the word comes next. -/
def readBranchAfter (ctx : ScopeContext) (k : Keyword) :
    List Token → Except LoadError (List Declaration × List Token)
  | [] => .ok ([], [])
  | t :: rest => if t.kind = .keyword k then readBranch ctx rest else .ok ([], t :: rest)

/-- Read an `IF` block: one parameter of type bool, and a branch for either of its values. -/
def readConditional (ctx : ScopeContext) (start : Nat) (ts : List Token) :
    Except LoadError (Part × List Token) := do
  match ← readBranch ctx ts with
  | ([condition], rest) =>
    if condition.type ≠ .primitive (.scalar .bool) then
      .error (ctx.error condition.origin.line (.conditionNotBool condition.name))
    else
      let (whenTrue, rest) ← readBranchAfter ctx .whenTrue rest
      let (whenFalse, rest) ← readBranchAfter ctx .whenFalse rest
      match rest with
      | ⟨_, .keyword .close⟩ :: rest => return (.conditional condition whenTrue whenFalse, rest)
      | rest => .error (ctx.error (ctx.lineAt rest) (.unclosedConditional start))
  | _ => .error (ctx.error start .notOneCondition)

/-- Read items that follow one another, with the line of each. -/
def readItems (ctx : ScopeContext) :
    List Token → Except LoadError (List (Item × Nat) × List Token)
  | [] => .ok ([], [])
  | t :: rest =>
    match t.kind with
    | .item text => do
      let item ← ctx.readItem t.line text
      let (items, after) ← readItems ctx rest
      return ((item, t.line) :: items, after)
    | _ => .ok ([], t :: rest)

/-- Read the items of a list. Blank lines may stand before the first of them. -/
def readList (ctx : ScopeContext) (ts : List Token) :
    Except LoadError (List (Item × Nat) × List Token) :=
  readItems ctx (ts.dropWhile (·.kind = .blank))

/-- Reading the branches of a choice leaves no more tokens than there were. -/
theorem length_readBranches {ctx : ScopeContext} {start : Nat} {ts : List Token}
    {branches : List (List Declaration)} {rest : List Token}
    (h : readBranches ctx start ts = .ok (branches, rest)) : rest.length ≤ ts.length := by
  fun_induction readBranches ctx start ts generalizing branches with
  | case2 ts ds line rest' hb ih =>
    have := length_readBranch hb
    simp only [bind_eq_ok, pure_eq_ok, Prod.mk.injEq] at h
    obtain ⟨⟨bs, after⟩, hr, _, rfl⟩ := h
    have := ih hr
    simp only [List.length_cons] at *
    omega
  | case3 ts ds line rest' hb =>
    have := length_readBranch hb
    simp_all
    omega
  | _ => simp_all

/-- Reading a choice leaves no more tokens than there were. -/
theorem length_readOneOf {ctx : ScopeContext} {start : Nat} {ts : List Token} {part : Part}
    {rest : List Token} (h : readOneOf ctx start ts = .ok (part, rest)) :
    rest.length ≤ ts.length := by
  simp only [readOneOf, bind_eq_ok] at h
  obtain ⟨⟨bs, after⟩, hb, h⟩ := h
  split at h
  · contradiction
  · simp only [pure_eq_ok, Prod.mk.injEq] at h
    exact h.2 ▸ length_readBranches hb

theorem length_readBranchAfter {ctx : ScopeContext} {k : Keyword} {ts : List Token}
    {ds : List Declaration} {rest : List Token}
    (h : readBranchAfter ctx k ts = .ok (ds, rest)) : rest.length ≤ ts.length := by
  unfold readBranchAfter at h
  split at h
  · simp_all
  · split at h
    · have := length_readBranch h
      simp only [List.length_cons]
      omega
    · simp_all

/-- Reading a conditional leaves no more tokens than there were. -/
theorem length_readConditional {ctx : ScopeContext} {start : Nat} {ts : List Token}
    {part : Part} {rest : List Token} (h : readConditional ctx start ts = .ok (part, rest)) :
    rest.length ≤ ts.length := by
  simp only [readConditional, bind_eq_ok] at h
  obtain ⟨⟨ds, after⟩, hc, h⟩ := h
  have := length_readBranch hc
  split at h
  · next heq =>
    simp only [Prod.mk.injEq] at heq
    obtain ⟨rfl, rfl⟩ := heq
    split at h
    · contradiction
    · simp only [bind_eq_ok] at h
      obtain ⟨⟨ds₁, rest₁⟩, h₁, ⟨ds₂, rest₂⟩, h₂, h⟩ := h
      have := length_readBranchAfter h₁
      have := length_readBranchAfter h₂
      split at h
      · next closed =>
        simp only [pure_eq_ok, Prod.mk.injEq] at h
        obtain ⟨_, rfl⟩ := h
        have := congrArg List.length closed
        simp only [List.length_cons] at *
        omega
      · contradiction
  · contradiction

theorem length_readItems {ctx : ScopeContext} {ts : List Token} {items : List (Item × Nat)}
    {rest : List Token} (h : readItems ctx ts = .ok (items, rest)) : rest.length ≤ ts.length := by
  induction ts generalizing items with
  | nil => simp_all [readItems]
  | cons t ts ih =>
    simp only [readItems] at h
    split at h
    · simp only [bind_eq_ok, pure_eq_ok, Prod.mk.injEq] at h
      obtain ⟨_, _, ⟨items', after⟩, hr, _, rfl⟩ := h
      have : after.length ≤ ts.length := ih hr
      simp only [List.length_cons]
      omega
    · simp_all

theorem length_readList {ctx : ScopeContext} {ts : List Token} {items : List (Item × Nat)}
    {rest : List Token} (h : readList ctx ts = .ok (items, rest)) : rest.length ≤ ts.length :=
  Nat.le_trans (length_readItems h) (List.dropWhile_suffix _).length_le

end Scope

/-- What a scope has said so far. -/
structure Scope where
  blocks : List Part
  parameters : List Declaration
  evaluators : List String
  keys : List String
  includes : List String
  dependencies : List String

namespace Scope

def empty : Scope := ⟨[], [], [], [], [], []⟩

/-- The parameter that a key stands for. -/
def keyParameter (file : String) (item : Item) (line : Nat) : Declaration :=
  { name := item.name ++ " key"
    type := .primitive (.scalar .string)
    default := item.default.map .string
    isOptional := true
    doc := item.doc
    origin := ⟨file, line⟩ }

/-- Add the items of a list. A key is a parameter too. -/
def addItems (scope : Scope) (file : String) (k : Keyword) (items : List (Item × Nat)) : Scope :=
  let names := items.map (·.1.name)
  match k with
  | .evaluators => { scope with evaluators := scope.evaluators ++ names }
  | .includes => { scope with includes := scope.includes ++ names }
  | .dependencies => { scope with dependencies := scope.dependencies ++ names }
  | _ =>
    { scope with
      keys := scope.keys ++ names
      parameters := scope.parameters ++ items.map fun (item, line) => keyParameter file item line }

/-- Read a scope up to the next header, or to a word that has no place outside a block. -/
def read (ctx : ScopeContext) (scope : Scope) : List Token → Except LoadError (Scope × List Token)
  | [] => .ok (scope, [])
  | t :: rest =>
    match t.kind with
    | .blank | .prose _ | .item _ => read ctx scope rest
    | .declaration text =>
      match ctx.readDeclaration t.line text with
      | .error e => .error e
      | .ok (.include spec) => read ctx { scope with includes := scope.includes ++ [spec] } rest
      | .ok (.parameter d) =>
        read ctx { scope with parameters := scope.parameters ++ d.visible } rest
    | .keyword k =>
      match k with
      | .oneOf =>
        match _h : readOneOf ctx t.line rest with
        | .error e => .error e
        | .ok (part, after) => read ctx { scope with blocks := scope.blocks ++ [part] } after
      | .condition =>
        match _h : readConditional ctx t.line rest with
        | .error e => .error e
        | .ok (part, after) => read ctx { scope with blocks := scope.blocks ++ [part] } after
      | .evaluators | .keys | .includes | .dependencies =>
        match _h : readList ctx rest with
        | .error e => .error e
        | .ok (items, after) => read ctx (scope.addItems ctx.file k items) after
      | .or | .close | .whenTrue | .whenFalse => .ok (scope, t :: rest)
    | .header _ => .ok (scope, t :: rest)
termination_by ts => ts.length
decreasing_by
  all_goals simp only [List.length_cons]
  all_goals first
    | omega
    | have := length_readOneOf _h; omega
    | have := length_readConditional _h; omega
    | have := length_readList _h; omega

/-- The definition that a scope makes: its blocks, and then all its plain parameters. -/
def toDefinition (scope : Scope) (name : String) (origin : Origin) : Definition :=
  let plain := if scope.parameters = [] then [] else [Part.parameters scope.parameters]
  { name
    parts := scope.blocks ++ plain
    evaluators := scope.evaluators
    keys := scope.keys
    includes := scope.includes
    dependencies := scope.dependencies
    origin }

/-- The definition that a scope makes, unless it says nothing. -/
def definitions (scope : Scope) (name : String) (origin : Origin) : List Definition :=
  let d := scope.toDefinition name origin
  if d.isEmpty then [] else [d]

/-- Reading a scope leaves no more tokens than there were. -/
theorem length_read {ctx : ScopeContext} {scope scope' : Scope} {ts rest : List Token}
    (h : read ctx scope ts = .ok (scope', rest)) : rest.length ≤ ts.length := by
  fun_induction read ctx scope ts with
  | case1 => simp_all
  -- one token is passed over:
  | case2 | case3 | case4 | case6 | case7 =>
    rename_i ih
    have := ih h
    simp only [List.length_cons]
    omega
  -- a block or a list is taken off as a whole:
  | case9 _ t rest' part after hb _ ih =>
    have := ih h
    have := length_readOneOf hb
    simp only [List.length_cons]
    omega
  | case11 _ t rest' part after hb _ ih =>
    have := ih h
    have := length_readConditional hb
    simp only [List.length_cons]
    omega
  | case13 _ t rest' items after hb _ ih
  | case15 _ t rest' items after hb _ ih
  | case17 _ t rest' items after hb _ ih
  | case19 _ t rest' items after hb _ ih =>
    have := ih h
    have := length_readList hb
    simp only [List.length_cons]
    omega
  | _ => simp_all

/-- Read the scopes that headers open. `spec` is the name of the scope before. -/
def readHeaded (file : String) (lastLine : Nat) (spec : Option String) :
    List Token → Except LoadError (List Definition)
  | [] => .ok []
  | t :: rest =>
    match t.kind with
    | .header name =>
      match _h : read ⟨file, lastLine, some name⟩ empty rest with
      | .error e => .error e
      | .ok (scope, after) => do
        let later ← readHeaded file lastLine (some name) after
        return scope.definitions name ⟨file, t.line⟩ ++ later
    | .keyword k => .error (ScopeContext.error ⟨file, lastLine, spec⟩ t.line (.strayKeyword k))
    | _ => readHeaded file lastLine spec rest
termination_by ts => ts.length
decreasing_by
  · have := length_read _h
    simp only [List.length_cons]
    omega
  all_goals simp only [List.length_cons]; omega

/-- The definitions in a list of tokens. What stands above the first header describes a spec
that is named after the file's stem. -/
def readAll (file stem : String) (lastLine : Nat) (ts : List Token) :
    Except LoadError (List Definition) := do
  let ctx : ScopeContext := ⟨file, lastLine, none⟩
  let ts := ts.dropWhile fun t => t.kind = .blank ∨ t.proseText?.isSome
  let (scope, rest) ← read ctx empty ts
  let later ← readHeaded file lastLine none rest
  return scope.definitions (Naming.ofStem stem) ⟨file, ctx.lineAt ts⟩ ++ later

end Scope

namespace Definition

/-- The definitions in the comment lines of a file. -/
def readLines (file stem : String) (lines : List CommentLine) : Except LoadError (List Definition) :=
  Scope.readAll file stem ((lines.getLast?.map (·.number)).getD 0) (Token.ofLines lines)

/-- The definitions in the comments of a source text. -/
def readSource (file stem source : String) : Except LoadError (List Definition) :=
  readLines file stem (CommentLine.extract source)

end Definition

end SpecTree
