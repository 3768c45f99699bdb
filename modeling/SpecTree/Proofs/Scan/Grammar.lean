import SpecTree.Proofs.Scan.Steps

/-!
# The grammar of comments

Comment lines can be read if and only if every declaration and every item of a list is
well-formed and the marks of the lines are a sequence of headers, declarations, stray items,
lists and blocks. Main statements: `Scope.isSentence_of_reads`, what has been read is such a
sequence; `Scope.exists_read_of_isSentence`, such a sequence is read up to the next header;
`Definition.readLines_isOk_iff`, both for all the lines of a file.
-/

namespace SpecTree

namespace Mark

/-- Does the mark open a list? -/
def opensList : Mark → Bool
  | keyword k => k.opensList
  | _ => false

/-- Is the mark, if it is a declaration, well-formed? -/
def isWellFormed : Mark → Bool
  | declaration (.error _) => false
  | _ => true

/-- The constructs of a comment. -/
inductive Construct : List Mark → Prop
  | header (name : String) : Construct [header name]
  | declaration (read : Except DeclarationFault Declared) : Construct [declaration read]
  | item : Construct [item]
  | list {k : Keyword} {items : List Mark} (opens : k.opensList) (all : ∀ m ∈ items, m = item) :
      Construct (keyword k :: items)
  | oneOf {ms : List Mark} {branches : List (List Mark)} (block : IsOneOf ms branches) :
      Construct ms
  | conditional {ms condition yes no : List Mark} {d : Declaration}
      (block : IsConditional ms condition yes no d) : Construct ms

/-- Constructs that follow one another. -/
def IsSentence (ms : List Mark) : Prop :=
  ∃ cs : List (List Mark), (∀ c ∈ cs, Construct c) ∧ ms = cs.flatten

/-! ## Sentences -/

theorem isSentence_nil : IsSentence [] := ⟨[], List.forall_mem_nil _, rfl⟩

/-- A construct in front of a sentence makes a sentence. -/
theorem Construct.append {c ms : List Mark} (hc : Construct c) (h : IsSentence ms) :
    IsSentence (c ++ ms) := by
  obtain ⟨cs, hcs, rfl⟩ := h
  exact ⟨c :: cs, List.forall_mem_cons.2 ⟨hc, hcs⟩, rfl⟩

/-- A construct has at least one mark. -/
theorem Construct.ne_nil {c : List Mark} (h : Construct c) : c ≠ [] := by
  cases h with
  | oneOf block => simp [block.marks]
  | conditional block => simp [block.marks]
  | _ => exact List.cons_ne_nil _ _

/-- The construct at the front of a sentence. -/
theorem exists_construct_of_cons {m : Mark} {ms : List Mark} (h : IsSentence (m :: ms)) :
    ∃ c ms', Construct (m :: c) ∧ ms = c ++ ms' ∧ IsSentence ms' := by
  obtain ⟨cs, hcs, heq⟩ := h
  match cs, hcs, heq with
  | [] :: cs, hcs, _ => exact absurd rfl (hcs [] List.mem_cons_self).ne_nil
  | (m' :: c) :: cs, hcs, heq =>
    obtain ⟨rfl, rfl⟩ : m = m' ∧ ms = c ++ cs.flatten := by simpa using heq
    exact ⟨c, cs.flatten, hcs _ List.mem_cons_self, rfl, cs,
      (List.forall_mem_cons.1 hcs).2, rfl⟩

/-- A mark that is a construct by itself can be taken from the front of a sentence. -/
theorem IsSentence.of_cons {m : Mark} {ms : List Mark} (hm : ∀ k, m ≠ keyword k)
    (h : IsSentence (m :: ms)) : IsSentence ms := by
  obtain ⟨c, ms', hc, rfl, hms'⟩ := exists_construct_of_cons h
  cases hc with
  | list => exact absurd rfl (hm _)
  | oneOf block => exact absurd (List.cons.inj block.marks).1 (hm _)
  | conditional block => exact absurd (List.cons.inj block.marks).1 (hm _)
  | _ => exact hms'

/-- Items can be taken from the front of a sentence. -/
theorem IsSentence.of_items {items ms : List Mark} (hitems : ∀ m ∈ items, m = item)
    (h : IsSentence (items ++ ms)) : IsSentence ms := by
  induction items with
  | nil => exact h
  | cons m items ih =>
    obtain ⟨rfl, hlater⟩ := List.forall_mem_cons.1 hitems
    exact ih hlater (IsSentence.of_cons (m := item) (by simp) h)

/-- Stray items may stand before a sentence. -/
theorem IsSentence.items_append {items ms : List Mark} (hitems : ∀ m ∈ items, m = item)
    (h : IsSentence ms) : IsSentence (items ++ ms) := by
  induction items with
  | nil => exact h
  | cons m items ih =>
    obtain ⟨rfl, hlater⟩ := List.forall_mem_cons.1 hitems
    exact Construct.item.append (ih hlater)

/-- A word at the front of a sentence opens a list or a block. -/
theorem cases_of_keyword_cons {k : Keyword} {ms : List Mark} (h : IsSentence (keyword k :: ms)) :
    (k.opensList ∧ IsSentence ms) ∨
    (k = .oneOf ∧ ∃ block ms' branches, ms = block ++ ms' ∧
      IsOneOf (keyword .oneOf :: block) branches ∧ IsSentence ms') ∨
    (k = .condition ∧ ∃ block ms' condition yes no d, ms = block ++ ms' ∧
      IsConditional (keyword .condition :: block) condition yes no d ∧ IsSentence ms') := by
  obtain ⟨c, ms', hc, rfl, hms'⟩ := exists_construct_of_cons h
  cases hc with
  | list opens all => exact .inl ⟨opens, hms'.items_append all⟩
  | oneOf block =>
    obtain rfl : k = .oneOf := keyword.inj (List.cons.inj block.marks).1
    exact .inr (.inl ⟨rfl, c, ms', _, rfl, block, hms'⟩)
  | conditional block =>
    obtain rfl : k = .condition := keyword.inj (List.cons.inj block.marks).1
    exact .inr (.inr ⟨rfl, c, ms', _, _, _, _, rfl, block, hms'⟩)

/-! ## What stands in a block -/

/-- May the mark stand in a block? It is a word that opens no list, or stands in a branch. -/
def inBlock : Mark → Bool
  | keyword k => !k.opensList
  | m => m.inBranch

/-- Is the mark well-formed by itself, and does it open no list? -/
def isSimple (m : Mark) : Bool := m.isWellFormed && !m.opensList

/-- What may stand in a branch may stand in a block. -/
theorem inBlock_of_inBranch {m : Mark} (h : m.inBranch) : m.inBlock := by
  match m, h with
  | item, _ => rfl
  | declaration (.ok (.parameter _)), _ => rfl

/-- What may stand in a block is well formed and opens no list. -/
theorem isSimple_of_inBlock {m : Mark} (h : m.inBlock) : m.isSimple := by
  match m, h with
  | keyword k, h => simpa [inBlock, isSimple, isWellFormed, opensList] using h
  | item, _ => rfl
  | declaration (.ok (.parameter _)), _ => rfl

/-- A branch holds only what may stand in a block. -/
theorem IsBranch.inBlock {ms : List Mark} (h : IsBranch ms) : ∀ m ∈ ms, m.inBlock :=
  fun m hm => inBlock_of_inBranch (h m hm)

/-- A branch with its keyword in front holds only what may stand in a block. -/
theorem IsBranchAfter.inBlock {k : Keyword} (hk : k.opensList = false) {ms : List Mark}
    (h : IsBranchAfter k ms) : ∀ m ∈ ms, m.inBlock := by
  obtain rfl | ⟨b, hb, rfl⟩ := h
  · exact List.forall_mem_nil _
  · exact List.forall_mem_cons.2 ⟨show (!k.opensList) = true by rw [hk]; rfl, hb.inBlock⟩

/-- Branches with a word between them hold only what may stand in a block. -/
theorem inBlock_intercalate {branches : List (List Mark)} (h : ∀ b ∈ branches, IsBranch b) :
    ∀ m ∈ [keyword .or].intercalate branches, m.inBlock := by
  induction branches with
  | nil => exact List.forall_mem_nil _
  | cons b branches ih =>
    obtain ⟨hb, hbranches⟩ := List.forall_mem_cons.1 h
    by_cases hlast : branches = []
    · subst hlast
      rw [List.intercalate_singleton]
      exact hb.inBlock
    · rw [List.intercalate_cons_of_ne_nil hlast, List.append_assoc]
      exact List.forall_mem_append.2 ⟨hb.inBlock,
        List.forall_mem_append.2 ⟨List.forall_mem_singleton.2 rfl, ih hbranches⟩⟩

/-- A choice holds nothing that could not stand in a block. -/
theorem IsOneOf.inBlock {ms : List Mark} {branches : List (List Mark)} (h : IsOneOf ms branches) :
    ∀ m ∈ ms, m.inBlock := by
  rw [h.marks]
  exact List.forall_mem_append.2 ⟨List.forall_mem_cons.2
    ⟨rfl, inBlock_intercalate h.branch⟩, List.forall_mem_singleton.2 rfl⟩

/-- A conditional holds nothing that could not stand in a block. -/
theorem IsConditional.inBlock {ms condition yes no : List Mark} {d : Declaration}
    (h : IsConditional ms condition yes no d) : ∀ m ∈ ms, m.inBlock := by
  rw [h.marks]
  exact List.forall_mem_cons.2 ⟨rfl, List.forall_mem_append.2 ⟨h.branch.inBlock,
    List.forall_mem_append.2 ⟨h.whenTrue.inBlock rfl, List.forall_mem_append.2
      ⟨h.whenFalse.inBlock rfl, List.forall_mem_singleton.2 rfl⟩⟩⟩⟩

end Mark

namespace Token

variable {file : String}

/-- Tokens that open no list have no items in lists. -/
theorem listItems_append {ts : List Token} (h : ∀ m ∈ marks file ts, m.opensList = false)
    (us : List Token) : listItems (ts ++ us) = listItems us := by
  induction ts with
  | nil => rfl
  | cons t ts ih =>
    rw [marks_cons, List.forall_mem_append] at h
    have := ih h.2
    cases hk : t.kind with
    | keyword k =>
      have hopens : k.opensList = false := by
        simpa [kind_of_mark?_keyword.2 hk, Mark.opensList] using h.1
      simp [listItems, hk, hopens, this]
    | _ => simp [listItems, hk, this]

/-- The items of a part of the tokens are among the items of all. -/
theorem listItems_subset_append (ts us : List Token) : listItems us ⊆ listItems (ts ++ us) := by
  induction ts with
  | nil => exact List.Subset.refl _
  | cons t ts ih =>
    refine List.Subset.trans ih ?_
    rw [List.cons_append]
    cases hk : t.kind <;> simp [listItems, hk]

/-- Is every declaration, and every item of a list, well-formed? -/
structure WellFormed (file : String) (ts : List Token) : Prop where
  declarations : ∀ m ∈ marks file ts, m.isWellFormed
  items : ∀ item ∈ listItems ts, ∃ i, Item.read item.1 = .ok i

/-- What is behind well formed tokens is well formed. -/
theorem WellFormed.of_append {ts us : List Token} (h : WellFormed file (ts ++ us)) :
    WellFormed file us where
  declarations m hm := h.declarations m (by rw [marks_append]; exact List.mem_append_right _ hm)
  items item hi := h.items item (listItems_subset_append ts us hi)

end Token

namespace Scope

open Mark (Construct IsSentence)
open Token (marks listItems)

variable {file : String}

/-! ## What has been read -/

/-- What one step reads makes a sentence with the one behind it. -/
theorem isSentence_of_step {after body : List Token} {s s' : Scope}
    (h : Step file after body s s') {ms : List Mark} (hms : IsSentence ms) :
    IsSentence (marks file body ++ ms) := by
  cases h with
  | skip mark => simpa [Token.marks_cons, mark] using hms
  | item mark => simpa [Token.marks_cons, mark] using Construct.item.append hms
  | inclusion mark => simpa [Token.marks_cons, mark] using (Construct.declaration _).append hms
  | parameter mark => simpa [Token.marks_cons, mark] using (Construct.declaration _).append hms
  | oneOf block => exact (Construct.oneOf block).append hms
  | conditional block => exact (Construct.conditional block).append hms
  | list mark opens items =>
    rw [Token.marks_cons, mark]
    exact (Construct.list opens items).append hms

/-- Marks that are well formed and open no list may stand in front of well formed tokens. -/
theorem wellFormed_append {body after : List Token} (h : ∀ m ∈ marks file body, m.isSimple)
    (hafter : Token.WellFormed file after) : Token.WellFormed file (body ++ after) where
  declarations := by
    rw [Token.marks_append]
    refine List.forall_mem_append.2 ⟨?_, hafter.declarations⟩
    intro m hm
    exact (Bool.and_eq_true_iff.1 (h m hm)).1
  items := by
    have hopens : ∀ m ∈ marks file body, m.opensList = false := by
      intro m hm
      simpa using (Bool.and_eq_true_iff.1 (h m hm)).2
    rw [Token.listItems_append hopens]
    exact hafter.items

/-- What one step reads may stand in front of well formed tokens. -/
theorem wellFormed_of_step {after body : List Token} {s s' : Scope}
    (h : Step file after body s s') (hafter : Token.WellFormed file after) :
    Token.WellFormed file (body ++ after) := by
  cases h with
  | oneOf block =>
    exact wellFormed_append (fun m hm => Mark.isSimple_of_inBlock (block.inBlock m hm)) hafter
  | conditional block =>
    exact wellFormed_append (fun m hm => Mark.isSimple_of_inBlock (block.inBlock m hm)) hafter
  | list mark opens items wellFormed =>
    rename_i t body k
    have hrest := wellFormed_append (fun m hm => items m hm ▸ rfl) hafter
    refine ⟨?_, ?_⟩
    · rw [List.cons_append, Token.marks_cons, mark]
      exact List.forall_mem_cons.2 ⟨rfl, hrest.declarations⟩
    · have hkind := Token.kind_of_mark?_keyword.1 mark
      simp only [List.cons_append, listItems, hkind, if_pos opens]
      exact List.forall_mem_append.2 ⟨wellFormed, hrest.items⟩
  | skip mark | item mark | inclusion mark | parameter mark =>
    refine wellFormed_append ?_ hafter
    intro m hm
    simp_all [Token.marks_cons, Mark.isSimple, Mark.isWellFormed, Mark.opensList]

/-- What has been read is a sequence of constructs, all of them well-formed. -/
theorem isSentence_of_reads {rest body : List Token} {s final : Scope}
    (h : Reads file rest body s final) (hrest : IsSentence (marks file rest))
    (hwf : Token.WellFormed file rest) :
    IsSentence (marks file (body ++ rest)) ∧ Token.WellFormed file (body ++ rest) := by
  induction h with
  | done => exact ⟨hrest, hwf⟩
  | step first _ ih =>
    rw [List.append_assoc, Token.marks_append]
    exact ⟨isSentence_of_step first ih.1, wellFormed_of_step first ih.2⟩

/-- The scopes that were read are sentences, and what is in them is well formed. -/
theorem isSentence_of_headed {ts : List Token} {ds : List Definition} (h : Headed file ts ds) :
    IsSentence (marks file ts) ∧ Token.WellFormed file ts := by
  induction h with
  | nil => exact ⟨Mark.isSentence_nil, List.forall_mem_nil _, List.forall_mem_nil _⟩
  | @cons t name body rest _ _ mark reads _ ih =>
    obtain ⟨hsentence, hwf⟩ := isSentence_of_reads reads ih.1 ih.2
    have hheader : ∀ m ∈ marks file [t], m.isSimple := by
      rw [Token.marks_cons, mark]
      exact List.forall_mem_singleton.2 rfl
    refine ⟨?_, wellFormed_append hheader hwf⟩
    rw [Token.marks_cons, mark]
    exact (Construct.header name).append hsentence

/-! ## What is read -/

variable {ctx : ScopeContext} {s : Scope}

/-- A token that is no mark is passed over. -/
theorem read_cons_unmarked {t : Token} (h : t.mark? ctx.file = none) (ts : List Token) :
    read ctx s (t :: ts) = read ctx s ts := by
  cases hk : t.kind <;> simp_all [Token.mark?, read]

theorem read_cons_item {t : Token} (h : t.mark? ctx.file = some .item) (ts : List Token) :
    read ctx s (t :: ts) = read ctx s ts := by
  cases hk : t.kind <;> simp_all [Token.mark?, read]

/-- A header ends the scope in front of it. -/
theorem read_cons_header {t : Token} {name : String} (h : t.mark? ctx.file = some (.header name))
    (ts : List Token) : read ctx s (t :: ts) = .ok (s, t :: ts) := by
  cases hk : t.kind <;> simp_all [Token.mark?, read]

/-- A declaration that can be read is put into the scope, and the reading goes on. -/
theorem read_cons_declaration {t : Token} {declared : Declared}
    (h : t.mark? ctx.file = some (.declaration (.ok declared))) (ts : List Token) :
    ∃ s', read ctx s (t :: ts) = read ctx s' ts := by
  cases hk : t.kind with
  | declaration text =>
    have hread : Declaration.read ⟨ctx.file, t.line⟩ text = .ok declared := by
      simpa [Token.mark?, hk] using h
    rw [read]
    simp only [hk, ScopeContext.readDeclaration_eq_ok.2 hread]
    cases declared <;> exact ⟨_, rfl⟩
  | _ => simp [Token.mark?, hk] at h

/-- A block that is read becomes one more part of the scope. -/
theorem read_cons_block {t : Token} {ts after : List Token} {part : Part}
    (h : t.kind = .keyword .oneOf ∧ readOneOf ctx t.line ts = .ok (part, after) ∨
      t.kind = .keyword .condition ∧ readConditional ctx t.line ts = .ok (part, after)) :
    read ctx s (t :: ts) = read ctx { s with blocks := s.blocks ++ [part] } after := by
  rw [read]
  rcases h with ⟨hkind, hread⟩ | ⟨hkind, hread⟩
  all_goals
    simp only [hkind]
    split <;> simp_all

/-- A list is read with its items, and the reading goes on behind it. -/
theorem read_cons_list {t : Token} {k : Keyword} (hk : k.opensList) (h : t.kind = .keyword k)
    {ts after : List Token} {items : List (Item × Nat)}
    (hread : readList ctx ts = .ok (items, after)) :
    read ctx s (t :: ts) = read ctx (s.addItems ctx.file k items) after := by
  rw [read]
  cases k <;> simp_all [Keyword.opensList] <;> split <;> simp_all

/-- A construct that is no header is read, and the rest of the sentence is left. -/
theorem exists_read_cons {t : Token} {ts : List Token}
    (hms : IsSentence (marks ctx.file (t :: ts))) (hwf : Token.WellFormed ctx.file (t :: ts))
    (hheader : ∀ name, t.mark? ctx.file ≠ some (.header name)) (s : Scope) :
    ∃ s' after, read ctx s (t :: ts) = read ctx s' after ∧ after.length ≤ ts.length ∧
      IsSentence (marks ctx.file after) ∧ Token.WellFormed ctx.file after := by
  have hwf' := Token.WellFormed.of_append (show Token.WellFormed ctx.file ([t] ++ ts) from hwf)
  rw [Token.marks_cons] at hms
  cases hm : t.mark? ctx.file with
  | none =>
    rw [hm] at hms
    exact ⟨s, ts, read_cons_unmarked hm ts, Nat.le_refl _, hms, hwf'⟩
  | some m =>
    rw [hm] at hms
    cases m with
    | header name => exact absurd hm (hheader name)
    | item => exact ⟨s, ts, read_cons_item hm ts, Nat.le_refl _, hms.of_cons (by simp), hwf'⟩
    | declaration reading =>
      have hreading := hwf.declarations (.declaration reading) (by simp [Token.marks_cons, hm])
      cases reading with
      | error e => cases hreading
      | ok declared =>
        obtain ⟨s', hread⟩ := read_cons_declaration (s := s) hm ts
        exact ⟨s', ts, hread, Nat.le_refl _, hms.of_cons (by simp), hwf'⟩
    | keyword k =>
      have hkind := Token.kind_of_mark?_keyword.1 hm
      -- the word opens a list, a choice or a conditional, as the sentence says:
      rcases Mark.cases_of_keyword_cons hms with ⟨hopens, hlater⟩ |
        ⟨rfl, block, ms, branches, heq, hblock, hlater⟩ |
        ⟨rfl, block, ms, condition, yes, no, d, heq, hblock, hlater⟩
      · have hitems : ∀ item ∈ Token.listed ts, ∃ i, Item.read item.1 = .ok i := by
          intro item hi
          refine hwf.items item ?_
          simp only [listItems, hkind, if_pos hopens]
          exact List.mem_append_left _ hi
        obtain ⟨items, after, hread⟩ : ∃ items after, readList ctx ts = .ok (items, after) :=
          exists_readItems hitems
        obtain ⟨body, rfl, hbody, -⟩ := list_of_readList hread
        rw [Token.marks_append] at hlater
        exact ⟨_, after, read_cons_list hopens hkind hread, length_readList hread,
          hlater.of_items hbody, hwf'.of_append⟩
      · obtain ⟨after, hread, hafter⟩ := readOneOf_of_isOneOf t.line hblock heq
        obtain ⟨body, _, rfl, -⟩ := oneOf_of_readOneOf hread
        exact ⟨_, after, read_cons_block (.inl ⟨hkind, hread⟩), length_readOneOf hread,
          hafter ▸ hlater, hwf'.of_append⟩
      · obtain ⟨after, hread, hafter⟩ := readConditional_of_isConditional t.line hblock heq
        obtain ⟨body, _, _, _, _, rfl, -⟩ := conditional_of_readConditional hread
        exact ⟨_, after, read_cons_block (.inr ⟨hkind, hread⟩), length_readConditional hread,
          hafter ▸ hlater, hwf'.of_append⟩

/-- Constructs are read up to the next header. -/
theorem exists_read_of_isSentence (ctx : ScopeContext) {ts : List Token}
    (hms : IsSentence (marks ctx.file ts)) (hwf : Token.WellFormed ctx.file ts) (s : Scope) :
    ∃ final rest, read ctx s ts = .ok (final, rest) ∧ IsSentence (marks ctx.file rest) := by
  induction hn : ts.length using Nat.strongRecOn generalizing ts s with
  | _ n ih =>
  cases ts with
  | nil => exact ⟨s, [], by rw [read], hms⟩
  | cons t ts =>
    by_cases hheader : ∃ name, t.mark? ctx.file = some (.header name)
    · obtain ⟨name, hm⟩ := hheader
      exact ⟨s, t :: ts, read_cons_header hm ts, hms⟩
    · obtain ⟨s', after, hread, hshort, hafter, hwf'⟩ :=
        exists_read_cons hms hwf (not_exists.1 hheader) s
      have hlt : after.length < n := by
        rw [← hn, List.length_cons]
        omega
      rw [hread]
      exact ih after.length hlt hafter hwf' s' rfl

/-- Where a scope ends in a sequence of constructs, a header or nothing follows. -/
theorem exists_readHeaded_of_isSentence (lastLine : Nat) {ts : List Token}
    (hms : IsSentence (marks file ts)) (hwf : Token.WellFormed file ts)
    (hstop : Token.Stop file ts) (spec : Option String) :
    ∃ ds, readHeaded file lastLine spec ts = .ok ds := by
  induction hn : ts.length using Nat.strongRecOn generalizing ts spec with
  | _ n ih =>
  cases ts with
  | nil => exact ⟨[], by rw [readHeaded]⟩
  | cons t ts =>
    obtain ⟨m, hm, hs⟩ := hstop t rfl
    rw [Token.marks_cons, hm] at hms
    cases m with
    | declaration | item => cases hs
    | header name =>
      have hwf' := Token.WellFormed.of_append (show Token.WellFormed file ([t] ++ ts) from hwf)
      obtain ⟨scope, after, hread, hafter⟩ := exists_read_of_isSentence
        ⟨file, lastLine, some name⟩ (hms.of_cons (by simp)) hwf' .empty
      obtain ⟨body, rfl, -, hstop'⟩ := reads_of_read hread
      have hlt : after.length < n := by
        rw [← hn, List.length_cons, List.length_append]
        omega
      obtain ⟨later, hlater⟩ := ih after.length hlt hafter hwf'.of_append hstop' (some name) rfl
      refine ⟨scope.definitions name ⟨file, t.line⟩ ++ later, ?_⟩
      have hkind : t.kind = .header name := by
        cases hk : t.kind <;> simp_all [Token.mark?]
      rw [readHeaded]
      simp only [hkind]
      split <;> simp_all [bind, Except.bind, pure_eq_ok]
    | keyword k =>
      -- a word that divides or closes a block begins no construct
      have hk : k.endsBranch := hs
      rcases Mark.cases_of_keyword_cons hms with ⟨hopens, -⟩ | ⟨rfl, -⟩ | ⟨rfl, -⟩
      · cases k <;> simp_all [Keyword.opensList, Keyword.endsBranch]
      · simp [Keyword.endsBranch] at hk
      · simp [Keyword.endsBranch] at hk

/-- Constructs are read to the end. -/
theorem exists_readAll_of_isSentence (stem : String) (lastLine : Nat) {ts : List Token}
    (hms : IsSentence (marks file ts)) (hwf : Token.WellFormed file ts) :
    ∃ ds, readAll file stem lastLine ts = .ok ds := by
  have hts : ts.takeWhile Token.isUnmarked ++ Token.fromFirstMark ts = ts :=
    List.takeWhile_append_dropWhile
  rw [← Token.marks_fromFirstMark] at hms
  rw [← hts] at hwf
  obtain ⟨scope, rest, hread, hrest⟩ :=
    exists_read_of_isSentence ⟨file, lastLine, none⟩ hms hwf.of_append .empty
  obtain ⟨body, hbody, -, hstop⟩ := reads_of_read hread
  have hwf' := hwf.of_append
  rw [hbody] at hwf'
  obtain ⟨later, hlater⟩ :=
    exists_readHeaded_of_isSentence lastLine hrest hwf'.of_append hstop none
  exact ⟨_, readAll_eq_ok.2 ⟨scope, rest, later, hread, hlater, rfl⟩⟩

/-- The lines that have been read are a sequence of constructs, all of them well-formed. -/
theorem isSentence_of_readLines {stem : String} {lines : List CommentLine} {ds : List Definition}
    (h : Definition.readLines file stem lines = .ok ds) :
    IsSentence (Mark.ofLines file lines) ∧ Token.WellFormed file (Token.ofLines lines) := by
  obtain ⟨lead, body, rest, scope, later, line, heq, hlead, -, hreads, hheaded, -⟩ :=
    file_of_readLines h
  obtain ⟨hrest, hwf⟩ := isSentence_of_headed hheaded
  obtain ⟨hms, hwf⟩ := isSentence_of_reads hreads hrest hwf
  rw [← Token.marks_ofLines, heq, Token.marks_append, hlead]
  exact ⟨hms, wellFormed_append (by rw [hlead]; exact List.forall_mem_nil _) hwf⟩

end Scope

namespace Definition

/-- **Comment lines are read if and only if they obey the grammar.** -/
theorem readLines_isOk_iff (file stem : String) (lines : List CommentLine) :
    (∃ ds, readLines file stem lines = .ok ds) ↔
      (∀ m ∈ Mark.ofLines file lines, m.isWellFormed) ∧
      (∀ item ∈ CommentLine.listItems lines, ∃ i, Item.read item.1 = .ok i) ∧
      Mark.IsSentence (Mark.ofLines file lines) := by
  rw [← Token.marks_ofLines, ← Token.listItems_ofLines]
  constructor
  · rintro ⟨ds, h⟩
    obtain ⟨hms, hwf⟩ := Scope.isSentence_of_readLines h
    exact ⟨hwf.declarations, hwf.items, Token.marks_ofLines lines ▸ hms⟩
  · rintro ⟨hdeclarations, hitems, hms⟩
    exact Scope.exists_readAll_of_isSentence stem _ hms ⟨hdeclarations, hitems⟩

end Definition

end SpecTree
