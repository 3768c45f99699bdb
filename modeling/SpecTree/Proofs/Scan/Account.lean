import Mathlib.Data.List.Nodup
import SpecTree.Proofs.Scan.Grammar

/-!
# Accounts

Where the declarations of a comment end up. A declaration belongs to the spec that the nearest
header above it opens, or to the spec named after the file. Main statements:
`Scope.declared_of_reads`, a scope gains what its lines declare, and nothing else;
`Definition.readLines_accounts`, the definitions of a file declare what its lines do, each spec
what stands below its own header.
-/

namespace SpecTree

/-- A spec, by its name and the place where it is opened. -/
abbrev Owner := String × Origin

/-- What a declaration adds to its spec: nothing if it is private. -/
def Declared.visible : Declared → List Declared
  | .parameter p => p.visible.map .parameter
  | .include spec => [.include spec]

/-- A mark with its line, and with the items of the list that it opens. -/
structure MarkedLine where
  mark : Mark
  line : Nat
  listed : List (String × Nat)

namespace MarkedLine

/-- A mark on a line, given the items that a list opened there would have. -/
def of (mark : Mark) (line : Nat) (listed : List (String × Nat)) : MarkedLine :=
  ⟨mark, line, if mark.opensList then listed else []⟩

/-- The spec that a header opens. -/
def opened? (file : String) (m : MarkedLine) : Option Owner :=
  match m.mark with
  | .header name => some (name, ⟨file, m.line⟩)
  | _ => none

/-- What a line declares: a parameter that is not private, an include, or what the items of its
list stand for. -/
def declared (file : String) (m : MarkedLine) : List Declared :=
  match m.mark with
  | .declaration (.ok d) => d.visible
  | .keyword .keys =>
    (m.listed.filterMap Scope.readListed?).map fun (i, n) => .parameter (Scope.keyParameter file i n)
  | .keyword .includes => (m.listed.filterMap Scope.readListed?).map fun (i, _) => .include i.name
  | _ => []

/-- What lines declare, each declaration with the spec that it belongs to. `owner` is the spec
that is described above the lines. -/
def owned (file : String) (owner : Owner) : List MarkedLine → List (Owner × Declared)
  | [] => []
  | m :: ms =>
    let owner := (m.opened? file).getD owner
    (m.declared file).map (owner, ·) ++ owned file owner ms

end MarkedLine

namespace CommentLine

/-- The marks of comment lines, with their lines and lists. -/
def marked (file : String) : List CommentLine → List MarkedLine
  | [] => []
  | l :: below =>
    ((Mark.ofLine? file l below).map (.of · l.number (listed below))).toList ++ marked file below

/-- The spec that a header line opens. -/
def opened? (file : String) (l : CommentLine) : Option Owner :=
  match l.kind with
  | .header name => some (name, ⟨file, l.number⟩)
  | _ => none

/-- The spec that the lines above the first header describe. -/
def headerless (file stem : String) (lines : List CommentLine) : Owner :=
  (Naming.ofStem stem, ⟨file, ((marked file lines).head?.map (·.line)).getD 0⟩)

/-- The spec that is described below some lines: the nearest header among them opens it, or
else it is the given one. -/
def ownerBelow (file : String) (owner : Owner) (above : List CommentLine) : Owner :=
  (above.reverse.findSome? (opened? file)).getD owner

end CommentLine

namespace Definition

def owner (d : Definition) : Owner := (d.name, d.origin)

/-- What a definition declares: parameters and includes. -/
def declared (d : Definition) : List Declared :=
  d.declarations.map .parameter ++ d.includes.map .include

/-- What definitions declare, each declaration with the spec that has it. -/
def owned (ds : List Definition) : List (Owner × Declared) :=
  ds.flatMap fun d => d.declared.map (d.owner, ·)

end Definition

theorem Definition.owned_append (ds es : List Definition) : owned (ds ++ es) = owned ds ++ owned es :=
  List.flatMap_append

/-- The parameter that is declared at a place, with its spec. -/
def parameterFrom? (origin : Origin) : Owner × Declared → Option (Owner × Declaration)
  | (owner, .parameter p) => if p.origin = origin then some (owner, p) else none
  | (_, .include _) => none

/-- A declaration that stands at `origin` below the header of `owner` is accounted for among
definitions: a parameter is the only one from there, if it is not private; an include is one of
its spec, and no parameter is from there. -/
def Declared.AccountedFor (origin : Origin) (owner : Owner) (ds : List Definition) :
    Declared → Prop
  | .parameter p =>
    (Definition.owned ds).filterMap (parameterFrom? origin) = p.visible.map (owner, ·)
  | .include spec =>
    (owner, .include spec) ∈ Definition.owned ds ∧
      (Definition.owned ds).filterMap (parameterFrom? origin) = []

open Token (marks)

/-! ## From lines to tokens -/

namespace Token

variable {file : String}

/-- The marks of tokens, with their lines and lists, when other tokens follow. -/
def marked (file : String) (after : List Token) : List Token → List MarkedLine
  | [] => []
  | t :: ts =>
    ((t.mark? file).map (.of · t.line (listed (ts ++ after)))).toList ++ marked file after ts

/-- The marked lines of two texts are those of the first, and then those of the second. -/
theorem marked_append (after ts us : List Token) :
    marked file after (ts ++ us) = marked file (us ++ after) ts ++ marked file after us := by
  induction ts with
  | nil => rfl
  | cons t ts ih => simp only [List.cons_append, marked, ih, List.append_assoc]

/-- Tokens without a mark make no marked line. -/
theorem marked_of_unmarked {after ts : List Token} (h : marks file ts = []) :
    marked file after ts = [] := by
  induction ts with
  | nil => rfl
  | cons t ts ih =>
    rw [marks_cons, List.append_eq_nil_iff, Option.toList_eq_nil_iff] at h
    rw [marked, h.1, ih h.2]
    rfl

/-- Every marked line is one of the marks. -/
theorem mark_of_mem_marked {after ts : List Token} {m : MarkedLine}
    (h : m ∈ marked file after ts) : m.mark ∈ marks file ts := by
  induction ts with
  | nil => cases h
  | cons t ts ih =>
    rw [marks_cons]
    rcases List.mem_append.1 h with h | h
    · obtain ⟨mark, hmark, rfl⟩ := Option.map_eq_some_iff.1 (Option.mem_toList.1 h)
      exact List.mem_append_left _ (Option.mem_toList.2 hmark)
    · exact List.mem_append_right _ (ih h)

/-- Prose in front of the tokens makes no marked line. -/
theorem marked_dropProse (ts : List Token) :
    marked file [] (ts.dropWhile (·.proseText?.isSome)) = marked file [] ts := by
  induction ts with
  | nil => rfl
  | cons t ts ih => cases h : t.kind <;> simp_all [marked, mark?, proseText?]

/-- The marked lines of a comment are those of its tokens. -/
theorem marked_ofLines (lines : List CommentLine) :
    marked file [] (ofLines lines) = CommentLine.marked file lines := by
  induction lines with
  | nil => rfl
  | cons l below ih =>
    cases h : l.kind <;> unfold CommentLine.kind at h <;>
      simp_all [ofLines, marked, CommentLine.marked, Mark.ofLine?, CommentLine.kind, mark?,
        marked_dropProse, joined_ofLines, listed_ofLines, MarkedLine.of, Mark.opensList]
    case keyword => rfl

/-- Each token comes from a line of its own, in the same order. -/
theorem lines_ofLines (lines : List CommentLine) :
    ((ofLines lines).map (·.line)).Sublist (lines.map (·.number)) := by
  induction lines with
  | nil => exact List.Sublist.slnil
  | cons l below ih =>
    have hdrop := ((List.dropWhile_sublist fun t : Token => t.proseText?.isSome).map
      (·.line)).trans ih
    unfold ofLines
    cases LineKind.ofText l.text with
    | declaration => exact hdrop.cons_cons _
    | item => exact hdrop.cons_cons _
    | _ => exact ih.cons_cons _

end Token

namespace MarkedLine

variable {file : String}

/-- Only a header opens a scope. -/
theorem opened?_of {mark : Mark} (h : ∀ name, mark ≠ .header name) (line : Nat)
    (listed : List (String × Nat)) : (of mark line listed).opened? file = none := by
  unfold opened?
  split
  · next name hm => exact absurd hm (h name)
  · rfl

/-- Lines without a header belong to the spec that is described above them. -/
theorem owned_append {ms : List MarkedLine} (h : ∀ m ∈ ms, m.opened? file = none) (owner : Owner)
    (ns : List MarkedLine) : owned file owner (ms ++ ns)
      = (ms.flatMap (declared file)).map (owner, ·) ++ owned file owner ns := by
  induction ms with
  | nil => rfl
  | cons m ms ih =>
    obtain ⟨hm, hms⟩ := List.forall_mem_cons.1 h
    rw [List.cons_append, owned, hm, Option.getD_none, ih hms, List.flatMap_cons, List.map_append,
      List.append_assoc]

end MarkedLine

/-! ## What a scope gains -/

namespace Scope

open MarkedLine (owned)

variable {file : String}

/-- What a scope has declared so far. -/
def declared (s : Scope) : List Declared :=
  (s.blocks.flatMap Part.declarations ++ s.parameters).map .parameter ++ s.includes.map .include

/-- A part that is added declares what is in it. -/
theorem declared_addPart (s : Scope) (part : Part) :
    { s with blocks := s.blocks ++ [part] }.declared.Perm
      (s.declared ++ part.declarations.map Declared.parameter) := by
  simp only [declared, List.flatMap_append, List.flatMap_cons, List.flatMap_nil, List.map_append,
    List.append_nil, List.append_assoc]
  refine List.Perm.append_left _ ?_
  refine List.perm_append_comm.trans ?_
  rw [List.append_assoc]

/-- Parameters that are added are declared. -/
theorem declared_addParameters (s : Scope) (ds : List Declaration) :
    { s with parameters := s.parameters ++ ds }.declared.Perm
      (s.declared ++ ds.map Declared.parameter) := by
  simp only [declared, List.map_append, List.append_assoc]
  refine List.Perm.append_left _ (List.Perm.append_left _ ?_)
  exact List.perm_append_comm

theorem declared_addIncludes (s : Scope) (specs : List String) :
    { s with includes := s.includes ++ specs }.declared
      = s.declared ++ specs.map Declared.include := by
  simp only [declared, List.map_append, List.append_assoc]

/-- In a block only parameters are declared, and no spec is opened. -/
theorem declared_of_inBlock {after body : List Token} (h : ∀ m ∈ marks file body, m.inBlock) :
    (Token.marked file after body).flatMap (MarkedLine.declared file)
      = (Mark.declared (marks file body)).map Declared.parameter := by
  induction body with
  | nil => rfl
  | cons t body ih =>
    rw [Token.marks_cons, List.forall_mem_append] at h
    rw [Token.marked, List.flatMap_append, ih h.2, Token.marks_cons, Mark.declared_append,
      List.map_append]
    congr 1
    cases hm : t.mark? file with
    | none => rfl
    | some m =>
      have hblock : m.inBlock := h.1 m (by simp [hm])
      match m, hblock with
      | .item, _ => rfl
      | .declaration (.ok (.parameter d)), _ =>
        simp [MarkedLine.declared, MarkedLine.of, Declared.visible, Mark.parameters]
      | .keyword k, hblock =>
        cases k <;> first
          | rfl
          | exact absurd hblock (by decide)

/-- A block opens no scope. -/
theorem opened?_of_inBlock {after body : List Token} (h : ∀ m ∈ marks file body, m.inBlock) :
    ∀ m ∈ Token.marked file after body, m.opened? file = none := by
  intro m hm
  have hblock := h m.mark (Token.mark_of_mem_marked hm)
  unfold MarkedLine.opened?
  split
  · next name heq => simp [heq, Mark.inBlock, Mark.inBranch] at hblock
  · rfl

/-- What the items of a list add to a scope is what the line that opens the list declares. -/
theorem declared_addItems (s : Scope) {k : Keyword} (hk : k.opensList) (line : Nat)
    (items : List (String × Nat)) :
    (s.addItems file k (items.filterMap readListed?)).declared.Perm
      (s.declared ++ (MarkedLine.of (.keyword k) line items).declared file) := by
  cases k with
  | evaluators | dependencies => simp [addItems, declared, MarkedLine.declared, MarkedLine.of]
  | includes =>
    simp only [addItems, declared_addIncludes, MarkedLine.declared, MarkedLine.of, Mark.opensList,
      Keyword.opensList, if_true, List.map_map]
    exact List.Perm.refl _
  | keys =>
    simp only [addItems, MarkedLine.declared, MarkedLine.of, Mark.opensList,
      Keyword.opensList, if_true]
    refine (declared_addParameters { s with keys := _ } _).trans ?_
    rw [List.map_map]
    exact List.Perm.refl _
  | _ => cases hk

/-- A construct adds to a scope what its lines declare, and nothing else. -/
theorem declared_of_step {after body : List Token} {s s' : Scope}
    (h : Step file after body s s') :
    s'.declared.Perm
      (s.declared ++ (Token.marked file after body).flatMap (MarkedLine.declared file)) ∧
    ∀ m ∈ Token.marked file after body, m.opened? file = none := by
  cases h with
  | skip mark => simp [Token.marked, mark]
  | item mark => simp [Token.marked, mark, MarkedLine.of, MarkedLine.declared, MarkedLine.opened?]
  | inclusion mark =>
    simp [Token.marked, mark, MarkedLine.of, MarkedLine.declared, MarkedLine.opened?,
      Declared.visible, declared_addIncludes]
  | parameter mark =>
    simpa [Token.marked, mark, MarkedLine.of, MarkedLine.declared, MarkedLine.opened?,
      Declared.visible] using declared_addParameters _ _
  -- a block declares what its marks do, and opens nothing:
  | oneOf block =>
    refine ⟨?_, opened?_of_inBlock block.inBlock⟩
    rw [declared_of_inBlock block.inBlock, block.declared_eq]
    exact declared_addPart _ _
  | conditional block =>
    refine ⟨?_, opened?_of_inBlock block.inBlock⟩
    rw [declared_of_inBlock block.inBlock, block.declared_eq]
    exact declared_addPart _ _
  | list mark opens items wellFormed =>
    rename_i t body k
    -- of a list, only the mark in front declares anything:
    have hitems : ∀ m ∈ marks file body, m.inBlock := fun m hm => items m hm ▸ rfl
    have hnone : Mark.declared (marks file body) = [] :=
      List.flatMap_eq_nil_iff.2 fun m hm => items m hm ▸ rfl
    rw [Token.marked, mark]
    refine ⟨?_, List.forall_mem_append.2 ⟨?_, opened?_of_inBlock hitems⟩⟩
    · rw [List.flatMap_append, declared_of_inBlock hitems, hnone, List.map_nil, List.append_nil]
      simpa using declared_addItems s opens t.line (Token.listed (body ++ after))
    · exact List.forall_mem_singleton.2 (MarkedLine.opened?_of (by simp) _ _)

/-- **A scope gains what its lines declare, and nothing else.** -/
theorem declared_of_reads {rest body : List Token} {s final : Scope}
    (h : Reads file rest body s final) :
    final.declared.Perm
      (s.declared ++ (Token.marked file rest body).flatMap (MarkedLine.declared file)) ∧
    ∀ m ∈ Token.marked file rest body, m.opened? file = none := by
  induction h with
  | done => simp [Token.marked]
  | step first _ ih =>
    obtain ⟨hfirst, hopen⟩ := declared_of_step first
    rw [Token.marked_append, List.flatMap_append, ← List.append_assoc]
    refine ⟨ih.1.trans (hfirst.append_right _), List.forall_mem_append.2 ⟨hopen, ih.2⟩⟩

/-! ## The definitions of a file -/

/-- A scope makes one definition, or none if it says nothing. -/
theorem definitions_eq (s : Scope) (name : String) (origin : Origin) :
    s.definitions name origin = [] ∨ s.definitions name origin = [s.toDefinition name origin] := by
  simp only [definitions]
  split
  · exact .inl rfl
  · exact .inr rfl

/-- A definition that a scope makes declares what the scope does, even if it is dropped for
saying nothing. -/
theorem owned_definitions (s : Scope) (name : String) (origin : Origin) :
    Definition.owned (s.definitions name origin) = s.declared.map ((name, origin), ·) := by
  have hdeclared : (s.toDefinition name origin).declared = s.declared := by
    unfold Definition.declared Definition.declarations toDefinition declared
    by_cases hp : s.parameters = [] <;> simp [hp, Part.declarations]
  simp only [definitions]
  split
  · next hempty =>
    have hnone : (s.toDefinition name origin).declared = [] := by
      simp_all [Definition.isEmpty, Definition.declared, Definition.declarations]
    rw [← hdeclared, hnone]
    rfl
  · rw [← hdeclared]
    simp [Definition.owned, Definition.owner, toDefinition]

/-- What the definitions of a file own are the parameters of its marked lines, each under the scope
that is open there. -/
theorem owned_of_headed {ts : List Token} {ds : List Definition} (h : Headed file ts ds)
    (o : Owner) : (Definition.owned ds).Perm (owned file o (Token.marked file [] ts)) := by
  induction h generalizing o with
  | nil => exact List.Perm.refl _
  | @cons t name body rest scope later mark reads _ ih =>
    obtain ⟨hdeclared, hopen⟩ := declared_of_reads reads
    have hhead : Token.marked file [] (t :: (body ++ rest)) =
        .of (.header name) t.line (Token.listed (body ++ rest)) ::
          (Token.marked file rest body ++ Token.marked file [] rest) := by
      rw [Token.marked, mark, Token.marked_append]
      simp
    rw [hhead, Definition.owned_append, owned_definitions, MarkedLine.owned]
    simp only [MarkedLine.of, MarkedLine.opened?, MarkedLine.declared, List.map_nil,
      List.nil_append, Option.getD_some]
    rw [MarkedLine.owned_append hopen]
    exact (hdeclared.map _).append (ih _)

/-- The definitions of a file declare what its lines do, each spec what stands below its own
header. -/
theorem owned_of_readLines {stem : String} {lines : List CommentLine} {ds : List Definition}
    (h : Definition.readLines file stem lines = .ok ds) :
    (Definition.owned ds).Perm
      (owned file (CommentLine.headerless file stem lines) (CommentLine.marked file lines)) := by
  obtain ⟨lead, body, rest, scope, later, line, heq, hlead, hfirst, hreads, hheaded, rfl⟩ :=
    file_of_readLines h
  have hmarked : CommentLine.marked file lines
      = Token.marked file rest body ++ Token.marked file [] rest := by
    rw [← Token.marked_ofLines, heq, Token.marked_append, Token.marked_of_unmarked hlead,
      Token.marked_append, List.nil_append, List.append_nil]
  obtain ⟨hdeclared, hopen⟩ := declared_of_reads hreads
  have hlater := owned_of_headed hheaded (CommentLine.headerless file stem lines)
  have hscope : (Definition.owned (scope.definitions (Naming.ofStem stem) ⟨file, line⟩)).Perm
      (((Token.marked file rest body).flatMap (MarkedLine.declared file)).map
        (CommentLine.headerless file stem lines, ·)) := by
    rw [owned_definitions]
    cases hbody : body with
    | nil =>
      rw [hbody] at hdeclared
      rw [List.Perm.eq_nil hdeclared]
      exact List.Perm.refl _
    | cons t body' =>
      -- the headerless spec is said to begin at its first mark
      obtain ⟨rfl, hmark⟩ := hfirst t (by rw [hbody]; rfl)
      obtain ⟨m, hm⟩ := Option.isSome_iff_exists.1 hmark
      have hline : CommentLine.headerless file stem lines = (Naming.ofStem stem, ⟨file, t.line⟩) := by
        simp [CommentLine.headerless, hmarked, hbody, Token.marked, hm, MarkedLine.of]
      rw [hline, ← hbody]
      exact hdeclared.map _
  rw [hmarked, MarkedLine.owned_append hopen, Definition.owned_append]
  exact hscope.append hlater

/-! ## Where the specs of a file are opened -/

/-- Where the definition of a scope is opened, in front of later ones. -/
theorem sublist_definitions (s : Scope) (name : String) (origin : Origin) {ds : List Definition}
    {numbers : List Nat} (h : (ds.map (·.origin.line)).Sublist numbers) :
    ((s.definitions name origin ++ ds).map (·.origin.line)).Sublist (origin.line :: numbers) := by
  rcases definitions_eq s name origin with heq | heq
  · rw [heq]
    exact h.cons _
  · rw [heq]
    exact h.cons_cons _

/-- A scope of no lines says nothing. -/
theorem eq_of_reads_nil {rest body : List Token} {s final : Scope}
    (h : Reads file rest body s final) (hbody : body = []) : final = s := by
  induction h with
  | done => rfl
  | step first _ ih =>
    obtain ⟨hfirst, hlater⟩ := List.append_eq_nil_iff.1 hbody
    cases first with
    | oneOf block => simpa [hfirst] using block.marks
    | conditional block => simpa [hfirst] using block.marks
    | _ => cases hfirst

/-- The definitions stand on lines of the file, in their order. -/
theorem lines_of_headed {ts : List Token} {ds : List Definition} (h : Headed file ts ds) :
    (ds.map (·.origin.line)).Sublist (ts.map (·.line)) := by
  induction h with
  | nil => exact List.Sublist.slnil
  | @cons t name body rest scope later _ _ _ ih =>
    have hlater := ih.trans ((List.sublist_append_right body rest).map (·.line))
    exact sublist_definitions scope name ⟨file, t.line⟩ hlater

/-- The specs of a file are opened on lines of their own, in order. -/
theorem lines_of_readLines {stem : String} {lines : List CommentLine} {ds : List Definition}
    (h : Definition.readLines file stem lines = .ok ds) :
    (ds.map (·.origin.line)).Sublist (lines.map (·.number)) := by
  obtain ⟨lead, body, rest, scope, later, line, heq, -, hfirst, hreads, hheaded, rfl⟩ :=
    file_of_readLines h
  have hsub : (body ++ rest).Sublist (Token.ofLines lines) := by
    rw [heq]
    exact List.sublist_append_right lead _
  refine List.Sublist.trans ?_ ((hsub.map (·.line)).trans (Token.lines_ofLines lines))
  cases hbody : body with
  | nil =>
    rw [eq_of_reads_nil hreads hbody]
    exact lines_of_headed hheaded
  | cons t body' =>
    have hlater := (lines_of_headed hheaded).trans
      ((List.sublist_append_right body' rest).map (·.line))
    obtain ⟨rfl, -⟩ := hfirst t (by rw [hbody]; rfl)
    exact sublist_definitions scope (Naming.ofStem stem) ⟨file, t.line⟩ hlater

end Scope

/-! ## Line by line -/

namespace CommentLine

variable {file : String}

/-- An item of a list stands on a line of its own. -/
theorem exists_item_of_itemRun {lines : List CommentLine} {item : String × Nat}
    (h : item ∈ itemRun lines) : ∃ l ∈ lines, l.kind = .item ∧ l.number = item.2 := by
  induction lines with
  | nil => cases h
  | cons l below ih =>
    have hlater : item ∈ itemRun below → ∃ x ∈ l :: below, x.kind = .item ∧ x.number = item.2 :=
      fun h => (ih h).imp fun x hx => ⟨List.mem_cons_of_mem _ hx.1, hx.2⟩
    unfold itemRun at h
    split at h
    · next hk =>
      rcases List.mem_cons.1 h with rfl | h
      · exact ⟨l, List.mem_cons_self, hk, rfl⟩
      · exact hlater h
    · exact hlater h
    · cases h

/-- The items of a list stand on lines below. -/
theorem exists_item_of_listed {below : List CommentLine} {item : String × Nat}
    (h : item ∈ listed below) : ∃ l ∈ below, l.kind = .item ∧ l.number = item.2 := by
  have hsub := (List.dropWhile_sublist (p := fun l : CommentLine => l.kind = .blank) (l := below)).subset
  unfold listed at h
  split at h
  · cases h
  · next l later hdrop =>
    split at h
    · obtain ⟨x, hx, hitem⟩ := exists_item_of_itemRun h
      exact ⟨x, hsub (hdrop ▸ hx), hitem⟩
    · cases h

end CommentLine

theorem Declaration.visible_eq (p : Declaration) : p.visible = [] ∨ p.visible = [p] := by
  unfold visible
  split
  · exact .inl rfl
  · exact .inr rfl

/-- A parameter is declared at its own line, if it is not hidden. -/
theorem filterMap_visible {origin : Origin} {p : Declaration} (h : p.origin = origin)
    (owner : Owner) : ((Declared.parameter p).visible.map (owner, ·)).filterMap
      (parameterFrom? origin) = p.visible.map (owner, ·) := by
  rcases p.visible_eq with hvisible | hvisible <;>
    simp [Declared.visible, hvisible, parameterFrom?, h]

namespace CommentLine

variable {file : String}

/-- The marked lines are those of the first line, and then those below it. -/
theorem marked_cons (l : CommentLine) (below : List CommentLine) : marked file (l :: below) =
    ((Mark.ofLine? file l below).map (.of · l.number (listed below))).toList ++ marked file below :=
  rfl

/-- A line with a declaration makes a marked line of it. -/
theorem marked_cons_declaration {l : CommentLine} (hl : l.kind = .declaration)
    {below : List CommentLine} {declared : Declared}
    (hread : Declaration.read ⟨file, l.number⟩ (l.gathered below) = .ok declared) :
    marked file (l :: below)
      = ⟨.declaration (.ok declared), l.number, []⟩ :: marked file below := by
  rw [marked_cons, Mark.ofLine?, hl, hread]
  rfl

/-- A marked line opens the scope that its line opens. -/
theorem opened?_marked (l : CommentLine) (below : List CommentLine) {m : MarkedLine}
    (h : m ∈ (Mark.ofLine? file l below).map (.of · l.number (listed below))) :
    m.opened? file = l.opened? file := by
  obtain ⟨mark, hmark, rfl⟩ := Option.map_eq_some_iff.1 (Option.mem_def.1 h)
  unfold Mark.ofLine? at hmark
  unfold opened?
  split at hmark <;> simp_all [MarkedLine.opened?, MarkedLine.of] <;> subst hmark <;> rfl

/-- The scope that is open at a line is the one opened last above it. -/
theorem ownerBelow_cons (owner : Owner) (l : CommentLine) (above : List CommentLine) :
    ownerBelow file owner (l :: above) = ownerBelow file ((l.opened? file).getD owner) above := by
  unfold ownerBelow
  rw [List.reverse_cons, List.findSome?_append]
  cases above.reverse.findSome? (opened? file) <;> cases h : l.opened? file <;> simp [h]

/-- A parameter comes from the line that declares it, or from an item of its list. -/
theorem cases_of_mem_declared {m : MarkedLine} {p : Declaration}
    (h : Declared.parameter p ∈ m.declared file) :
    m.mark = .declaration (.ok (.parameter p)) ∨ ∃ item ∈ m.listed, p.origin = ⟨file, item.2⟩ := by
  unfold MarkedLine.declared at h
  split at h
  · next d hm =>
    left
    match d, h with
    | .parameter q, h =>
      have hq : p = q := by
        simp only [Declared.visible, Declaration.visible] at h
        split at h <;> simp_all
      rw [hm, hq]
    | .include spec, h => simp [Declared.visible] at h
  · right
    obtain ⟨⟨i, n⟩, hin, heq⟩ := List.mem_map.1 h
    obtain ⟨item, hitem, hread⟩ := List.mem_filterMap.1 hin
    obtain ⟨i', -, hi⟩ := Option.map_eq_some_iff.1 hread
    refine ⟨item, hitem, ?_⟩
    rw [← Declared.parameter.inj heq, ← (Prod.mk.inj hi).2]
    rfl
  · obtain ⟨i, -, heq⟩ := List.mem_map.1 h
    cases heq
  · cases h

/-- What one line declares does not come from another line, unless that is an item. -/
theorem filterMap_declared {l : CommentLine} {below : List CommentLine} {n : Nat}
    (hl : l.number ≠ n) (hbelow : ∀ x ∈ below, x.kind = .item → x.number ≠ n) {m : MarkedLine}
    (h : m ∈ (Mark.ofLine? file l below).map (.of · l.number (listed below))) (owner : Owner) :
    ((m.declared file).map (owner, ·)).filterMap (parameterFrom? ⟨file, n⟩) = [] := by
  obtain ⟨mark, hmark, rfl⟩ := Option.map_eq_some_iff.1 (Option.mem_def.1 h)
  apply List.filterMap_eq_nil_iff.2
  intro e he
  obtain ⟨declared, hdeclared, rfl⟩ := List.mem_map.1 he
  match declared, hdeclared with
  | .include spec, _ => rfl
  | .parameter p, hdeclared =>
    apply if_neg
    intro horigin
    -- a parameter comes from the line itself or from an item below it:
    rcases cases_of_mem_declared hdeclared with hm | ⟨item, hitem, horigin'⟩
    · obtain rfl : mark = .declaration (.ok (.parameter p)) := hm
      have hread : Declaration.read ⟨file, l.number⟩ (l.gathered below) = .ok (.parameter p) := by
        unfold Mark.ofLine? at hmark
        split at hmark <;> simp_all
      have hline := (Declaration.parameter_of_read hread).1
      rw [horigin] at hline
      exact hl (Origin.mk.inj hline).2.symm
    · have hlisted : item ∈ listed below := by
        unfold MarkedLine.of at hitem
        split at hitem
        · exact hitem
        · cases hitem
      obtain ⟨x, hx, hkind, hnumber⟩ := exists_item_of_listed hlisted
      rw [horigin] at horigin'
      exact hbelow x hx hkind (hnumber.trans (Origin.mk.inj horigin').2.symm)

/-- What lines declare does not come from a line that is not among them. -/
theorem filterMap_owned {lines : List CommentLine} {n : Nat} (h : ∀ x ∈ lines, x.number ≠ n)
    (owner : Owner) : (MarkedLine.owned file owner (marked file lines)).filterMap
      (parameterFrom? ⟨file, n⟩) = [] := by
  induction lines generalizing owner with
  | nil => rfl
  | cons l below ih =>
    obtain ⟨hl, hbelow⟩ := List.forall_mem_cons.1 h
    rw [marked_cons]
    cases hm : (Mark.ofLine? file l below).map (MarkedLine.of · l.number (listed below)) with
    | none => exact ih hbelow owner
    | some m =>
      rw [Option.toList_some, List.singleton_append, MarkedLine.owned, List.filterMap_append,
        filterMap_declared hl (fun x hx _ => hbelow x hx) hm, ih hbelow]
      rfl

/-- A declaration among well-formed lines can be read. -/
theorem exists_read_of_wellFormed {above below : List CommentLine} {l : CommentLine}
    (hl : l.kind = .declaration)
    (h : Token.WellFormed file (Token.ofLines (above ++ l :: below))) :
    ∃ declared, Declaration.read ⟨file, l.number⟩ (l.gathered below) = .ok declared := by
  have hmark : ∀ above : List CommentLine,
      Mark.declaration (Declaration.read ⟨file, l.number⟩ (l.gathered below)) ∈
        Mark.ofLines file (above ++ l :: below) := by
    intro above
    induction above with
    | nil => simp [Mark.ofLines, Mark.ofLine?, hl]
    | cons x above ih => exact List.mem_append_right _ ih
  have hwf := h.declarations _ (Token.marks_ofLines _ ▸ hmark above)
  cases hr : Declaration.read ⟨file, l.number⟩ (l.gathered below) with
  | ok declared => exact ⟨declared, rfl⟩
  | error e => simp [hr, Mark.isWellFormed] at hwf

/-- What a line declares, among all that the lines declare: it belongs to the spec of the
nearest header above, and nothing else comes from that line. -/
theorem exists_owned_append {above below : List CommentLine} {l : CommentLine}
    (hl : l.kind = .declaration) {declared : Declared}
    (hread : Declaration.read ⟨file, l.number⟩ (l.gathered below) = .ok declared)
    (habove : ∀ x ∈ above, x.number ≠ l.number) (hbelow : ∀ x ∈ below, x.number ≠ l.number)
    (owner : Owner) :
    ∃ before after, MarkedLine.owned file owner (marked file (above ++ l :: below))
        = before ++ declared.visible.map (ownerBelow file owner above, ·) ++ after ∧
      before.filterMap (parameterFrom? ⟨file, l.number⟩) = [] ∧
      after.filterMap (parameterFrom? ⟨file, l.number⟩) = [] := by
  induction above generalizing owner with
  | nil =>
    refine ⟨[], MarkedLine.owned file owner (marked file below), ?_, rfl, filterMap_owned hbelow _⟩
    rw [List.nil_append, marked_cons_declaration hl hread]
    rfl
  | cons x above ih =>
    -- a line above declares nothing from the line that is asked for:
    obtain ⟨hx, habove⟩ := List.forall_mem_cons.1 habove
    rw [List.cons_append, marked_cons, ownerBelow_cons]
    obtain ⟨before, after, heq, hbefore, hafter⟩ := ih habove ((x.opened? file).getD owner)
    cases hm : (Mark.ofLine? file x (above ++ l :: below)).map
        (MarkedLine.of · x.number (listed (above ++ l :: below))) with
    | none =>
      refine ⟨before, after, ?_, hbefore, hafter⟩
      have hopened : x.opened? file = none := by
        simp only [Option.map_eq_none_iff, Mark.ofLine?] at hm
        unfold opened?
        split at hm <;> simp_all
      rw [hopened] at heq ⊢
      exact heq
    | some m =>
      have hopened := opened?_marked x _ hm
      refine ⟨(m.declared file).map ((x.opened? file).getD owner, ·) ++ before, after, ?_, ?_, hafter⟩
      · rw [Option.toList_some, List.singleton_append, MarkedLine.owned, hopened, heq]
        simp only [List.append_assoc]
      · rw [List.filterMap_append, hbefore, List.append_nil]
        refine filterMap_declared hx ?_ hm _
        intro y hy hkind
        rcases List.mem_append.1 hy with hy | hy
        · exact habove y hy
        · rcases List.mem_cons.1 hy with rfl | hy
          · rw [hl] at hkind
            cases hkind
          · exact hbelow y hy

end CommentLine

namespace Definition

open CommentLine (headerless marked ownerBelow)

/-- **Every declaration ends up in one spec.** The specs of a file are opened at different
places, and declare together what its lines do, every line in the spec that the nearest header
above it opens. -/
theorem readLines_accounts {file stem : String} {lines : List CommentLine} {ds : List Definition}
    (distinct : (lines.map (·.number)).Nodup) (h : readLines file stem lines = .ok ds) :
    (ds.map (·.origin)).Nodup ∧
    (owned ds).Perm (MarkedLine.owned file (headerless file stem lines) (marked file lines)) ∧
    ∀ above l below, lines = above ++ l :: below → l.kind = .declaration →
      ∃ declared, Declaration.read ⟨file, l.number⟩ (l.gathered below) = .ok declared ∧
        declared.AccountedFor ⟨file, l.number⟩
          (ownerBelow file (headerless file stem lines) above) ds := by
  have howned := Scope.owned_of_readLines h
  refine ⟨?_, howned, ?_⟩
  · have hlines : ((ds.map (·.origin)).map (·.line)).Nodup := by
      rw [List.map_map]
      exact (Scope.lines_of_readLines h).nodup distinct
    exact List.Nodup.of_map (·.line) hlines
  · rintro above l below rfl hl
    obtain ⟨declared, hread⟩ : ∃ declared,
        Declaration.read ⟨file, l.number⟩ (l.gathered below) = .ok declared :=
      CommentLine.exists_read_of_wellFormed hl (Scope.isSentence_of_readLines h).2
    refine ⟨declared, hread, ?_⟩
    -- no other line has the number of this one
    rw [List.map_append, List.map_cons, List.nodup_append, List.nodup_cons] at distinct
    obtain ⟨-, ⟨hbelow, -⟩, habove⟩ := distinct
    obtain ⟨before, after, heq, hbefore, hafter⟩ := CommentLine.exists_owned_append hl hread
      (fun x hx => habove _ (List.mem_map_of_mem hx) _ List.mem_cons_self)
      (fun x hx hnumber => hbelow (List.mem_map.2 ⟨x, hx, hnumber⟩))
      (headerless file stem (above ++ l :: below))
    rw [heq] at howned
    have hfrom := howned.filterMap (parameterFrom? ⟨file, l.number⟩)
    rw [List.filterMap_append, List.filterMap_append, hbefore, hafter, List.nil_append,
      List.append_nil] at hfrom
    match declared, hread with
    | .parameter p, hread =>
      rw [filterMap_visible (Declaration.parameter_of_read hread).1] at hfrom
      show (owned ds).filterMap (parameterFrom? _) = p.visible.map _
      rcases p.visible_eq with hvisible | hvisible <;> rw [hvisible] at hfrom ⊢
      · exact List.Perm.eq_nil hfrom
      · exact List.perm_singleton.1 hfrom
    | .include spec, _ =>
      refine ⟨howned.mem_iff.2 ?_, List.Perm.eq_nil hfrom⟩
      simp [Declared.visible]

/-- Lines without a header, with a private parameter, a block, a list of keys and an include, and
lines below a header. -/
def exampleLines : List CommentLine :=
  CommentLine.numbered ["* `\"a`\" ``[int]``", "the first", "* `\"_b`\" ``[int]``", "ONE OF",
    "* `\"c`\" ``[int]``", "OR", "* `\"d`\" ``[double]``", "END", "", "KEYS", "- `\"e`\"",
    "", "``[other-spec]``", "* ``[base-spec]``", "* `\"f`\" ``[bool]``"]

theorem readLines_accounts_exampleLines :
    ∃ ds, readLines "example.hh" "example" exampleLines = .ok ds ∧
      (ds.map (·.origin)).Nodup ∧
      (owned ds).Perm (MarkedLine.owned "example.hh" ("example-spec", ⟨"example.hh", 1⟩)
        (marked "example.hh" exampleLines)) := by
  have hread : (readLines "example.hh" "example" exampleLines).toOption.isSome := by decide +kernel
  obtain ⟨ds, hds⟩ := Option.isSome_iff_exists.1 hread
  have hds : readLines "example.hh" "example" exampleLines = .ok ds := by
    cases h : readLines "example.hh" "example" exampleLines <;> simp_all [Except.toOption]
  have hstart : headerless "example.hh" "example" exampleLines
      = ("example-spec", ⟨"example.hh", 1⟩) := by decide +kernel
  obtain ⟨horigins, howned, -⟩ := readLines_accounts (by decide +kernel) hds
  exact ⟨ds, hds, horigins, hstart ▸ howned⟩

end Definition

end SpecTree
