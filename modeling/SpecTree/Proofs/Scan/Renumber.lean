import Mathlib.Data.List.Basic
import SpecTree.Proofs.Scan.Mark

/-!
# Line numbers

The scanner hands line numbers on, but never looks at them: if the comment lines are given other
numbers, so are the origins in what is read, and the places in an error. Main statements:

* `Token.ofLines_renumber`: tokens;
* `Scope.read_renumber`: one scope;
* `Scope.readAll_renumber`: the definitions of a file.
-/

namespace SpecTree

variable (f : Nat → Nat)

/-! ## Other numbers -/

def CommentLine.renumber (l : CommentLine) : CommentLine := { l with number := f l.number }

def Token.renumber (t : Token) : Token := { t with line := f t.line }

def Origin.renumber (origin : Origin) : Origin := { origin with line := f origin.line }

def Declaration.renumber (d : Declaration) : Declaration := { d with origin := d.origin.renumber f }

def Declared.renumber : Declared → Declared
  | .parameter d => .parameter (d.renumber f)
  | .include spec => .include spec

def Part.renumber : Part → Part
  | parameters ds => parameters (ds.map (Declaration.renumber f))
  | oneOf branches => oneOf (branches.map (List.map (Declaration.renumber f)))
  | conditional condition yes no =>
    conditional (condition.renumber f) (yes.map (Declaration.renumber f))
      (no.map (Declaration.renumber f))

def Definition.renumber (d : Definition) : Definition :=
  { d with parts := d.parts.map (Part.renumber f), origin := d.origin.renumber f }

def Scope.renumber (s : Scope) : Scope :=
  { s with
    blocks := s.blocks.map (Part.renumber f)
    parameters := s.parameters.map (Declaration.renumber f) }

def ScopeContext.renumber (ctx : ScopeContext) : ScopeContext :=
  { ctx with lastLine := f ctx.lastLine }

/-- A block that is not closed is reported with the line that opens it. -/
def LoadProblem.renumber : LoadProblem → LoadProblem
  | unclosedOneOf start => unclosedOneOf (f start)
  | unclosedConditional start => unclosedConditional (f start)
  | problem => problem

def LoadError.renumber (e : LoadError) : LoadError :=
  { e with line := f e.line, problem := e.problem.renumber f }

/-- What is read under other line numbers: what `g` makes of a result, or the error elsewhere. -/
def renumbered {α β : Type} (g : α → β) : Except LoadError α → Except LoadError β
  | .ok a => .ok (g a)
  | .error e => .error (e.renumber f)

variable {f}

/-- Steps that each renumber what they give do so one after the other. -/
theorem renumbered_bind {α β γ δ : Type} {g : α → β} {h : γ → δ} {x : Except LoadError α}
    {step : α → Except LoadError γ} {step' : β → Except LoadError δ}
    (hstep : ∀ a, x = .ok a → step' (g a) = renumbered f h (step a)) :
    (renumbered f g x >>= step') = renumbered f h (x >>= step) := by
  cases x with
  | error e => rfl
  | ok a => exact hstep a rfl

/-- What kind of line it is does not depend on its number. -/
@[simp]
theorem CommentLine.kind_renumber (l : CommentLine) : (l.renumber f).kind = l.kind := rfl

/-! ## Tokens -/

namespace Token

@[simp]
theorem kind_renumber (t : Token) : (t.renumber f).kind = t.kind := rfl

@[simp]
theorem line_renumber (t : Token) : (t.renumber f).line = f t.line := rfl

/-- A text is joined from the texts of the tokens, not from their numbers. -/
theorem joined_renumber (text : String) (later : List Token) :
    joined text (later.map (renumber f)) = joined text later := by
  unfold joined
  rw [List.takeWhile_map, List.filterMap_map]
  rfl

/-- The tokens of renumbered lines are the renumbered tokens. -/
theorem ofLines_renumber (lines : List CommentLine) :
    ofLines (lines.map (CommentLine.renumber f)) = (ofLines lines).map (renumber f) := by
  induction lines with
  | nil => rfl
  | cons l lines ih =>
    have htext : (l.renumber f).text = l.text := rfl
    simp only [List.map_cons, ofLines, ih, joined_renumber, List.dropWhile_map, htext]
    cases LineKind.ofText l.text <;> rfl

end Token

/-! ## Declarations and items -/

/-- A step that maps what another one gives maps the outcome of the whole. -/
theorem bind_eq_map_bind {ε α β γ : Type} {g : β → γ} {x : Except ε α} {step : α → Except ε β}
    {step' : α → Except ε γ} (h : ∀ a, step' a = (step a).map g) :
    (x >>= step') = (x >>= step).map g := by
  cases x with
  | error e => rfl
  | ok a => exact h a

/-- A declaration is read alike on another line, but for the line that it carries. -/
theorem Declaration.read_renumber (file : String) (line : Nat) (text : String) :
    Declaration.read ⟨file, f line⟩ text =
      (Declaration.read ⟨file, line⟩ text).map (Declared.renumber f) := by
  unfold Declaration.read
  cases Text.afterPrefix? ['*'] (Text.trim text.toList) with
  | none => rfl
  | some body =>
    refine bind_eq_map_bind fun named => ?_
    rcases named with _ | named
    on_goal 1 => dsimp only; split
    -- with a name or without, a type and the end of the declaration are read:
    all_goals
      refine bind_eq_map_bind fun named => bind_eq_map_bind fun typed =>
        bind_eq_map_bind fun tail => ?_
      split
      · cases TypeRef.ofText typed.1 with
        | primitive => rfl
        | spec => cases tail.default <;> rfl
      · exact bind_eq_map_bind fun default => rfl

namespace ScopeContext

variable (ctx : ScopeContext)

/-- The line that an error is put down to is renumbered. -/
theorem lineAt_renumber (ts : List Token) :
    (ctx.renumber f).lineAt (ts.map (Token.renumber f)) = f (ctx.lineAt ts) := by
  cases ts <;> rfl

/-- A declaration is read alike in a renumbered scope. -/
theorem readDeclaration_renumber (line : Nat) (text : String) :
    (ctx.renumber f).readDeclaration (f line) text =
      renumbered f (Declared.renumber f) (ctx.readDeclaration line text) := by
  have hread : Declaration.read ⟨(ctx.renumber f).file, f line⟩ text =
      (Declaration.read ⟨ctx.file, line⟩ text).map (Declared.renumber f) :=
    Declaration.read_renumber ctx.file line text
  unfold readDeclaration
  rw [hread]
  cases Declaration.read ⟨ctx.file, line⟩ text <;> rfl

theorem readItem_renumber (line : Nat) (text : String) :
    (ctx.renumber f).readItem (f line) text = renumbered f id (ctx.readItem line text) := by
  unfold readItem
  cases Item.read text <;> rfl

end ScopeContext

namespace Scope

variable (ctx : ScopeContext)

/-! ## Blocks -/

/-- A hidden parameter stays hidden. -/
theorem visible_renumber (d : Declaration) :
    (d.renumber f).visible = d.visible.map (Declaration.renumber f) := by
  unfold Declaration.visible
  show (if d.isPrivate then _ else _) = _
  split <;> rfl

/-- A branch is read alike. The induction follows the reading, token by token. -/
theorem readBranch_renumber (ts : List Token) :
    readBranch (ctx.renumber f) (ts.map (Token.renumber f)) =
      renumbered f (Prod.map (List.map (Declaration.renumber f)) (List.map (Token.renumber f)))
        (readBranch ctx ts) := by
  induction ts with
  | nil => rfl
  | cons t ts ih =>
    rw [List.map_cons]
    unfold readBranch
    rw [Token.kind_renumber, Token.line_renumber]
    cases t.kind with
    | blank | prose | item => exact ih
    | header => rfl
    | keyword k => cases k <;> rfl
    | declaration text =>
      dsimp only
      rw [ctx.readDeclaration_renumber]
      cases ctx.readDeclaration t.line text with
      | error e => rfl
      | ok declared =>
        -- an include is an error, and carries the line that comes next:
        cases declared with
        | «include» spec =>
          simp only [renumbered, Declared.renumber]
          rw [ScopeContext.lineAt_renumber]
          rfl
        | parameter d =>
          simp only [renumbered, Declared.renumber]
          rw [ih, visible_renumber]
          refine renumbered_bind fun x _ => ?_
          simp [renumbered, pure, Except.pure]

/-- The branches of a block, one after the other. -/
theorem readBranches_eq (start : Nat) (ts : List Token) :
    readBranches ctx start ts = (readBranch ctx ts >>= fun (ds, rest) =>
      match rest with
      | ⟨_, .keyword .or⟩ :: rest => readBranches ctx start rest >>= fun (branches, after) =>
        .ok (ds :: branches, after)
      | ⟨_, .keyword .close⟩ :: rest => .ok ([ds], rest)
      | rest => .error (ctx.error (ctx.lineAt rest) (.unclosedOneOf start))) := by
  rw [readBranches]
  split
  · next h => rw [h]; rfl
  · next h => rw [h]; rfl
  · next h => rw [h]; rfl
  · next ds rest hor hclose h =>
    rw [h, ok_bind]
    dsimp only
    split
    · exact (hor _ _ rfl).elim
    · exact (hclose _ _ rfl).elim
    · rfl

/-- The branches of a choice are read alike, up to its end or to the end of the file. -/
theorem readBranches_renumber (start : Nat) (ts : List Token) :
    readBranches (ctx.renumber f) (f start) (ts.map (Token.renumber f)) =
      renumbered f (Prod.map (List.map (List.map (Declaration.renumber f)))
        (List.map (Token.renumber f))) (readBranches ctx start ts) := by
  fun_induction readBranches ctx start ts with
  | case1 ts e h => rw [readBranches_eq, readBranch_renumber, h]; rfl
  | case2 ts ds line rest h ih =>
    rw [readBranches_eq, readBranch_renumber, h]
    show (readBranches (ctx.renumber f) (f start) (rest.map _) >>= _) = _
    rw [ih]
    exact renumbered_bind fun x _ => rfl
  | case3 ts ds line rest h => rw [readBranches_eq, readBranch_renumber, h]; rfl
  | case4 ts ds rest hor hclose h =>
    rw [readBranches_eq, readBranch_renumber, h]
    cases rest with
    | nil => rfl
    | cons t rest =>
      obtain ⟨line, kind⟩ := t
      cases kind with
      | keyword k =>
        cases k with
        | or => exact (hor _ _ rfl).elim
        | close => exact (hclose _ _ rfl).elim
        | _ => rfl
      | _ => rfl

/-- A choice is read alike, and so is the place of an error in it. -/
theorem readOneOf_renumber (start : Nat) (ts : List Token) :
    readOneOf (ctx.renumber f) (f start) (ts.map (Token.renumber f)) =
      renumbered f (Prod.map (Part.renumber f) (List.map (Token.renumber f)))
        (readOneOf ctx start ts) := by
  unfold readOneOf
  rw [readBranches_renumber]
  apply renumbered_bind
  rintro ⟨branches, rest⟩ -
  have hbranches : (branches.map (List.map (Declaration.renumber f))).length < 2 ∨
      [] ∈ branches.map (List.map (Declaration.renumber f)) ↔
        branches.length < 2 ∨ [] ∈ branches := by
    rw [List.length_map, List.mem_map]
    simp
  dsimp only [Prod.map]
  rw [if_congr hbranches rfl rfl]
  split <;> rfl

/-- A branch behind its keyword is read alike. -/
theorem readBranchAfter_renumber (k : Keyword) (ts : List Token) :
    readBranchAfter (ctx.renumber f) k (ts.map (Token.renumber f)) =
      renumbered f (Prod.map (List.map (Declaration.renumber f)) (List.map (Token.renumber f)))
        (readBranchAfter ctx k ts) := by
  cases ts with
  | nil => rfl
  | cons t ts =>
    unfold readBranchAfter
    rw [List.map_cons]
    dsimp only
    rw [Token.kind_renumber, readBranch_renumber]
    split <;> rfl

/-- A conditional is read alike, through its condition and both of its branches. -/
theorem readConditional_renumber (start : Nat) (ts : List Token) :
    readConditional (ctx.renumber f) (f start) (ts.map (Token.renumber f)) =
      renumbered f (Prod.map (Part.renumber f) (List.map (Token.renumber f)))
        (readConditional ctx start ts) := by
  unfold readConditional
  rw [readBranch_renumber]
  apply renumbered_bind
  rintro ⟨conditions, rest⟩ -
  -- any number of conditions but one is an error, on the same line as before:
  rcases conditions with _ | ⟨condition, _ | ⟨second, more⟩⟩
  · rfl
  · have htype : (condition.renumber f).type = condition.type := rfl
    simp only [Prod.map_apply, List.map_cons, List.map_nil, htype]
    split
    · rfl
    · rw [readBranchAfter_renumber]
      apply renumbered_bind
      rintro ⟨yes, rest⟩ -
      simp only [Prod.map_apply]
      rw [readBranchAfter_renumber]
      apply renumbered_bind
      rintro ⟨no, rest⟩ -
      cases rest with
      | nil => rfl
      | cons t rest =>
        obtain ⟨line, kind⟩ := t
        cases kind with
        | keyword k => cases k <;> rfl
        | _ => rfl
  · rfl

/-! ## Lists -/

/-- The items of a list are read alike, each with its number. -/
theorem readItems_renumber (ts : List Token) :
    readItems (ctx.renumber f) (ts.map (Token.renumber f)) =
      renumbered f (Prod.map (List.map (Prod.map id f)) (List.map (Token.renumber f)))
        (readItems ctx ts) := by
  induction ts with
  | nil => rfl
  | cons t ts ih =>
    rw [List.map_cons]
    unfold readItems
    rw [Token.kind_renumber, Token.line_renumber]
    cases t.kind with
    | item text =>
      dsimp only
      rw [ctx.readItem_renumber, ih]
      exact renumbered_bind fun item _ => renumbered_bind fun items _ => rfl
    | _ => rfl

theorem readList_renumber (ts : List Token) :
    readList (ctx.renumber f) (ts.map (Token.renumber f)) =
      renumbered f (Prod.map (List.map (Prod.map id f)) (List.map (Token.renumber f)))
        (readList ctx ts) := by
  unfold readList
  rw [List.dropWhile_map]
  exact readItems_renumber ctx _

/-- What a list adds to a scope is renumbered. -/
theorem addItems_renumber (s : Scope) (file : String) (k : Keyword) (items : List (Item × Nat)) :
    (s.renumber f).addItems file k (items.map (Prod.map id f)) =
      (s.addItems file k items).renumber f := by
  cases k <;> simp [addItems, renumber, Function.comp_def] <;> intros <;> rfl

/-! ## Scopes -/

/-- What the token at the front does to a scope, and how it goes on. -/
theorem read_cons (s : Scope) (t : Token) (ts : List Token) :
    read ctx s (t :: ts) =
      match t.kind with
      | .blank | .prose _ | .item _ => read ctx s ts
      | .declaration text => ctx.readDeclaration t.line text >>= fun
        | .include spec => read ctx { s with includes := s.includes ++ [spec] } ts
        | .parameter d => read ctx { s with parameters := s.parameters ++ d.visible } ts
      | .keyword .oneOf => readOneOf ctx t.line ts >>= fun (part, after) =>
        read ctx { s with blocks := s.blocks ++ [part] } after
      | .keyword .condition => readConditional ctx t.line ts >>= fun (part, after) =>
        read ctx { s with blocks := s.blocks ++ [part] } after
      | .keyword k =>
        if k.opensList then readList ctx ts >>= fun (items, after) =>
          read ctx (s.addItems ctx.file k items) after
        else .ok (s, t :: ts)
      | .header _ => .ok (s, t :: ts) := by
  rw [read]
  cases hkind : t.kind with
  | blank | prose | item | header => rfl
  | declaration text =>
    dsimp only
    cases ctx.readDeclaration t.line text with
    | error e => rfl
    | ok declared => cases declared <;> rfl
  | keyword k =>
    cases k with
    | or | close | whenTrue | whenFalse => rfl
    | oneOf | condition =>
      dsimp only
      split <;> next h => rw [h]; rfl
    | evaluators | keys | includes | dependencies =>
      simp only [Keyword.opensList, if_true]
      split <;> next h => rw [h]; rfl

/-- A scope is read alike. The induction follows the reading, construct by construct. -/
theorem read_renumber (s : Scope) (ts : List Token) :
    read (ctx.renumber f) (s.renumber f) (ts.map (Token.renumber f)) =
      renumbered f (Prod.map (Scope.renumber f) (List.map (Token.renumber f))) (read ctx s ts) := by
  induction hn : ts.length using Nat.strongRecOn generalizing ts s with
  | _ n ih =>
  cases ts with
  | nil => rw [List.map_nil, read, read]; rfl
  | cons t ts =>
    -- the rest of a construct is shorter, whatever the construct was:
    have hrest : ∀ s rest, rest.length ≤ ts.length →
        read (ctx.renumber f) (s.renumber f) (rest.map (Token.renumber f)) =
          renumbered f (Prod.map (Scope.renumber f) (List.map (Token.renumber f)))
            (read ctx s rest) := by
      intro s rest hlength
      refine ih rest.length ?_ s rest rfl
      rw [← hn, List.length_cons]
      omega
    rw [List.map_cons, read_cons, read_cons, Token.kind_renumber, Token.line_renumber]
    cases t.kind with
    | blank | prose | item => exact hrest s ts (Nat.le_refl _)
    | header => rfl
    | declaration text =>
      dsimp only
      rw [ctx.readDeclaration_renumber]
      refine renumbered_bind fun declared _ => ?_
      cases declared with
      | «include» spec =>
        exact hrest { s with includes := s.includes ++ [spec] } ts (Nat.le_refl _)
      | parameter d =>
        refine Eq.trans ?_ (hrest _ ts (Nat.le_refl _))
        simp [renumber, Declared.renumber, visible_renumber]
    | keyword k =>
      cases k with
      | or | close | whenTrue | whenFalse => rfl
      | oneOf =>
        dsimp only
        rw [readOneOf_renumber]
        apply renumbered_bind
        rintro ⟨part, after⟩ hblock
        refine Eq.trans ?_ (hrest _ after (length_readOneOf hblock))
        simp [renumber]
      | condition =>
        dsimp only
        rw [readConditional_renumber]
        apply renumbered_bind
        rintro ⟨part, after⟩ hblock
        refine Eq.trans ?_ (hrest _ after (length_readConditional hblock))
        simp [renumber]
      | evaluators | keys | includes | dependencies =>
        simp only [Keyword.opensList, if_true]
        rw [readList_renumber]
        apply renumbered_bind
        rintro ⟨items, after⟩ hlist
        refine Eq.trans ?_ (hrest _ after (length_readList hlist))
        simp only [Prod.map_apply]
        rw [← addItems_renumber]
        rfl

/-- A scope makes the same definition, with other numbers in it. -/
theorem definitions_renumber (s : Scope) (name : String) (origin : Origin) :
    (s.renumber f).definitions name (origin.renumber f) =
      (s.definitions name origin).map (Definition.renumber f) := by
  have hdefinition : (s.renumber f).toDefinition name (origin.renumber f) =
      (s.toDefinition name origin).renumber f := by
    unfold toDefinition Definition.renumber
    cases hparameters : s.parameters <;> simp [renumber, hparameters, Part.renumber]
  have hempty : ∀ d : Definition, (d.renumber f).isEmpty = d.isEmpty := by
    intro d
    simp [Definition.isEmpty, Definition.renumber]
  unfold definitions
  rw [hdefinition]
  dsimp only
  rw [hempty]
  split <;> rfl

/-! ## Files -/

/-- The scope that a header at the front opens, and the scopes behind it. -/
theorem readHeaded_cons (file : String) (lastLine : Nat) (spec : Option String) (t : Token)
    (ts : List Token) :
    readHeaded file lastLine spec (t :: ts) =
      match t.kind with
      | .header name => read ⟨file, lastLine, some name⟩ empty ts >>= fun (scope, after) =>
        readHeaded file lastLine (some name) after >>= fun later =>
          .ok (scope.definitions name ⟨file, t.line⟩ ++ later)
      | .keyword k => .error (ScopeContext.error ⟨file, lastLine, spec⟩ t.line (.strayKeyword k))
      | _ => readHeaded file lastLine spec ts := by
  rw [readHeaded]
  cases t.kind with
  | header name =>
    dsimp only
    split <;> next h => rw [h]; rfl
  | _ => rfl

/-- The scopes of a file are read alike, from header to header. -/
theorem readHeaded_renumber (file : String) (lastLine : Nat) (spec : Option String)
    (ts : List Token) :
    readHeaded file (f lastLine) spec (ts.map (Token.renumber f)) =
      renumbered f (List.map (Definition.renumber f)) (readHeaded file lastLine spec ts) := by
  induction hn : ts.length using Nat.strongRecOn generalizing ts spec with
  | _ n ih =>
  cases ts with
  | nil => rw [List.map_nil, readHeaded, readHeaded]; rfl
  | cons t ts =>
    -- what is left behind a token or a scope is shorter:
    have hrest : ∀ spec rest, rest.length ≤ ts.length →
        readHeaded file (f lastLine) spec (rest.map (Token.renumber f)) =
          renumbered f (List.map (Definition.renumber f)) (readHeaded file lastLine spec rest) := by
      intro spec rest hlength
      refine ih rest.length ?_ spec rest rfl
      rw [← hn, List.length_cons]
      omega
    rw [List.map_cons, readHeaded_cons, readHeaded_cons, Token.kind_renumber]
    cases t.kind with
    | blank | prose | item | declaration => exact hrest spec ts (Nat.le_refl _)
    | keyword k => rfl
    | header name =>
      have hread := read_renumber (f := f) ⟨file, lastLine, some name⟩ empty ts
      have hempty : empty.renumber f = empty := rfl
      rw [hempty] at hread
      dsimp only
      rw [show (⟨file, f lastLine, some name⟩ : ScopeContext) =
        ScopeContext.renumber f ⟨file, lastLine, some name⟩ from rfl, hread]
      apply renumbered_bind
      rintro ⟨scope, after⟩ hscope
      simp only [Prod.map_apply]
      rw [hrest (some name) after (length_read hscope)]
      refine renumbered_bind fun later _ => ?_
      show Except.ok ((scope.renumber f).definitions name (Origin.renumber f ⟨file, t.line⟩) ++ _) = _
      rw [definitions_renumber, ← List.map_append]
      rfl

/-- The scope above the first header, and the scopes that headers open. -/
theorem readAll_eq (file stem : String) (lastLine : Nat) (ts : List Token) :
    readAll file stem lastLine ts =
      (read ⟨file, lastLine, none⟩ empty (Token.fromFirstMark ts) >>= fun (scope, rest) =>
        readHeaded file lastLine none rest >>= fun later =>
          .ok (scope.definitions (Naming.ofStem stem)
            ⟨file, ScopeContext.lineAt ⟨file, lastLine, none⟩ (Token.fromFirstMark ts)⟩ ++ later)) :=
  rfl

/-- **The definitions in a file, and the errors, are the same under other line numbers.** -/
theorem readAll_renumber (file stem : String) (lastLine : Nat) (ts : List Token) :
    readAll file stem (f lastLine) (ts.map (Token.renumber f)) =
      renumbered f (List.map (Definition.renumber f)) (readAll file stem lastLine ts) := by
  have hfront : Token.fromFirstMark (ts.map (Token.renumber f)) =
      (Token.fromFirstMark ts).map (Token.renumber f) := List.dropWhile_map ..
  let ctx : ScopeContext := ⟨file, lastLine, none⟩
  have hctx : (⟨file, f lastLine, none⟩ : ScopeContext) = ctx.renumber f := rfl
  have hread := read_renumber (f := f) ctx empty (Token.fromFirstMark ts)
  rw [readAll_eq, readAll_eq, hfront, hctx, ctx.lineAt_renumber]
  refine Eq.trans (congrArg (· >>= _) hread) (renumbered_bind ?_)
  rintro ⟨scope, rest⟩ -
  simp only [Prod.map_apply]
  rw [readHeaded_renumber]
  refine renumbered_bind fun later _ => ?_
  show Except.ok ((scope.renumber f).definitions (Naming.ofStem stem)
    (Origin.renumber f ⟨file, ctx.lineAt (Token.fromFirstMark ts)⟩) ++ _) = _
  rw [definitions_renumber, ← List.map_append]
  rfl

end Scope

end SpecTree
