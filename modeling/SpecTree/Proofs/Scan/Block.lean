import SpecTree.Proofs.Scan.Mark

/-!
# Blocks

What a branch, a `ONE OF` block, an `IF` block and a list are in terms of marks, and that the
readers of each take exactly that from the front of the tokens. Main statements:
`branch_of_readBranch`, `oneOf_of_readOneOf`, `conditional_of_readConditional` and
`list_of_readList`, what a reader that succeeds has taken; `readBranch_of_isBranch` and its
relatives, that it succeeds on such marks.
-/

namespace SpecTree

namespace Mark

/-- May the mark stand in a branch? -/
def inBranch : Mark → Bool
  | item | declaration (.ok (.parameter _)) => true
  | _ => false

/-- The parameter that a mark declares, unless it is private. -/
def parameters : Mark → List Declaration
  | declaration (.ok (.parameter d)) => d.visible
  | _ => []

/-- The parameters that marks declare, without the private ones. -/
def declared (ms : List Mark) : List Declaration := ms.flatMap parameters

/-- A branch holds parameters and stray items. -/
def IsBranch (ms : List Mark) : Prop := ∀ m ∈ ms, m.inBranch

/-- A branch behind a word, or nothing. -/
def IsBranchAfter (k : Keyword) (ms : List Mark) : Prop :=
  ms = [] ∨ ∃ b, IsBranch b ∧ ms = keyword k :: b

/-- A `ONE OF` block with the given branches: there are two at least, and each of them has a
parameter. -/
structure IsOneOf (ms : List Mark) (branches : List (List Mark)) : Prop where
  marks : ms = keyword .oneOf :: [keyword .or].intercalate branches ++ [keyword .close]
  two : 2 ≤ branches.length
  branch : ∀ b ∈ branches, IsBranch b
  full : ∀ b ∈ branches, declared b ≠ []

/-- An `IF` block on a parameter: the condition declares it alone and it is of type bool. -/
structure IsConditional (ms condition yes no : List Mark) (d : Declaration) : Prop where
  marks : ms = keyword .condition :: (condition ++ (yes ++ (no ++ [keyword .close])))
  branch : IsBranch condition
  one : declared condition = [d]
  bool : d.type = .primitive (.scalar .bool)
  whenTrue : IsBranchAfter .whenTrue yes
  whenFalse : IsBranchAfter .whenFalse no

@[simp] theorem declared_nil : declared [] = [] := rfl

@[simp] theorem declared_cons (m : Mark) (ms : List Mark) :
    declared (m :: ms) = m.parameters ++ declared ms := rfl

theorem declared_append (ms ns : List Mark) : declared (ms ++ ns) = declared ms ++ declared ns :=
  List.flatMap_append

/-- Words between branches declare nothing. -/
theorem declared_intercalate (branches : List (List Mark)) :
    declared ([keyword .or].intercalate branches) = (branches.map declared).flatten := by
  induction branches with
  | nil => rfl
  | cons b branches ih =>
    by_cases hlast : branches = []
    · simp [hlast]
    · rw [List.intercalate_cons_of_ne_nil hlast, declared_append, declared_append, ih]
      simp [parameters]

theorem IsOneOf.declared_eq {ms : List Mark} {branches : List (List Mark)}
    (h : IsOneOf ms branches) : declared ms = (branches.map declared).flatten := by
  rw [h.marks, declared_append, declared_cons, declared_intercalate]
  simp [parameters]

theorem IsConditional.declared_eq {ms condition yes no : List Mark} {d : Declaration}
    (h : IsConditional ms condition yes no d) :
    declared ms = d :: declared yes ++ declared no := by
  simp [h.marks, declared_append, h.one, parameters]

theorem isBranch_cons {m : Mark} {ms : List Mark} :
    IsBranch (m :: ms) ↔ m.inBranch ∧ IsBranch ms :=
  List.forall_mem_cons

theorem isBranch_nil : IsBranch [] := List.forall_mem_nil _

end Mark

/-- A declared parameter stands where its text does, and its default is read by its type. -/
theorem Declaration.parameter_of_read {origin : Origin} {text : String} {p : Declaration}
    (h : Declaration.read origin text = .ok (.parameter p)) :
    p.origin = origin ∧ ∃ given, Declaration.readDefault p.type given = .ok p.default := by
  unfold Declaration.read at h
  split at h
  · next body _ =>
    obtain ⟨named, -, h⟩ := bind_eq_ok.1 h
    cases named with
    | some named =>
      obtain ⟨named, hnamed, h⟩ := bind_eq_ok.1 h
      obtain ⟨typed, -, h⟩ := bind_eq_ok.1 h
      obtain ⟨tail, -, h⟩ := bind_eq_ok.1 h
      cases hnamed
      obtain ⟨default, hdefault, h⟩ := bind_eq_ok.1 h
      cases h
      exact ⟨rfl, tail.default, hdefault⟩
    | none =>
      -- a declaration without a name is an include
      exfalso
      dsimp only at h
      split at h
      · obtain ⟨named, hnamed, h⟩ := bind_eq_ok.1 h
        obtain ⟨typed, -, h⟩ := bind_eq_ok.1 h
        obtain ⟨tail, -, h⟩ := bind_eq_ok.1 h
        cases hnamed
        dsimp only at h
        split at h
        · cases h
        · split at h <;> cases h
      · cases h
  · cases h

/-! ### Declarations and items in a scope -/

namespace ScopeContext

variable {ctx : ScopeContext}

/-- The error for a fault in a text that starts on the given line. -/
def faulty (ctx : ScopeContext) (line : Nat) (text : String) (fault : DeclarationFault) :
    LoadError :=
  ctx.error line (.badDeclaration fault text)

theorem readDeclaration_eq_mapError (ctx : ScopeContext) (line : Nat) (text : String) :
    ctx.readDeclaration line text
      = (Declaration.read ⟨ctx.file, line⟩ text).mapError (ctx.faulty line text) := by
  unfold readDeclaration
  cases Declaration.read ⟨ctx.file, line⟩ text <;> rfl

theorem readItem_eq_mapError (ctx : ScopeContext) (line : Nat) (text : String) :
    ctx.readItem line text = (Item.read text).mapError (ctx.faulty line text) := by
  unfold readItem
  cases Item.read text <;> rfl

theorem readDeclaration_eq_ok {line : Nat} {text : String} {declared : Declared} :
    ctx.readDeclaration line text = .ok declared ↔
      Declaration.read ⟨ctx.file, line⟩ text = .ok declared := by
  rw [readDeclaration_eq_mapError, mapError_eq_ok]

theorem readItem_eq_ok {line : Nat} {text : String} {item : Item} :
    ctx.readItem line text = .ok item ↔ Item.read text = .ok item := by
  rw [readItem_eq_mapError, mapError_eq_ok]

end ScopeContext

namespace Token

variable {file : String}

/-- The token that a mark comes from. -/
theorem kind_of_mark?_keyword {t : Token} {k : Keyword} :
    t.mark? file = some (.keyword k) ↔ t.kind = .keyword k := by
  unfold mark?
  cases t.kind <;> simp

theorem mark?_keyword (line : Nat) (k : Keyword) :
    (⟨line, .keyword k⟩ : Token).mark? file = some (.keyword k) := rfl

end Token

open Token (marks)

namespace Scope

variable {ctx : ScopeContext}

/-! ## Branches -/

/-- What has been read of a branch. -/
theorem branch_of_readBranch {ts rest : List Token} {ds : List Declaration}
    (h : readBranch ctx ts = .ok (ds, rest)) :
    ∃ body, ts = body ++ rest ∧ Mark.IsBranch (marks ctx.file body) ∧
      ds = Mark.declared (marks ctx.file body) := by
  fun_induction readBranch ctx ts generalizing ds with
  | case1 =>
    cases h
    exact ⟨[], rfl, Mark.isBranch_nil, rfl⟩
  | case2 t ts hk ih | case3 t ts _ hk ih =>
    -- the line has no mark
    obtain ⟨body, rfl, hbranch, rfl⟩ := ih h
    refine ⟨t :: body, rfl, ?_⟩
    have hmark : t.mark? ctx.file = none := by simp only [Token.mark?, hk]
    rw [Token.marks_cons, hmark]
    exact ⟨hbranch, rfl⟩
  | case4 t ts text hk ih =>
    obtain ⟨body, rfl, hbranch, rfl⟩ := ih h
    refine ⟨t :: body, rfl, ?_⟩
    have hmark : t.mark? ctx.file = some .item := by simp only [Token.mark?, hk]
    rw [Token.marks_cons, hmark]
    exact ⟨Mark.isBranch_cons.2 ⟨rfl, hbranch⟩, rfl⟩
  | case7 t ts text hk d hd ih =>
    simp only [bind_eq_ok, pure_eq_ok, Prod.mk.injEq] at h
    obtain ⟨⟨ds', after⟩, hr, rfl, rfl⟩ := h
    obtain ⟨body, rfl, hbranch, rfl⟩ := ih hr
    refine ⟨t :: body, rfl, ?_⟩
    have hmark : t.mark? ctx.file = some (.declaration (.ok (.parameter d))) := by
      simp only [Token.mark?, hk, ScopeContext.readDeclaration_eq_ok.1 hd]
    rw [Token.marks_cons, hmark]
    exact ⟨Mark.isBranch_cons.2 ⟨rfl, hbranch⟩, rfl⟩
  | case14 | case15 | case16 | case17 | case18 =>
    cases h
    exact ⟨[], rfl, Mark.isBranch_nil, rfl⟩
  | _ => cases h

/-- Lines without a mark are skipped. -/
theorem readBranch_append_unmarked {skipped : List Token}
    (h : ∀ t ∈ skipped, t.mark? ctx.file = none) (ts : List Token) :
    readBranch ctx (skipped ++ ts) = readBranch ctx ts := by
  induction skipped with
  | nil => rfl
  | cons t skipped ih =>
    obtain ⟨ht, hskipped⟩ := List.forall_mem_cons.1 h
    rw [List.cons_append, ← ih hskipped]
    cases hk : t.kind <;> simp_all [Token.mark?, readBranch]

theorem readBranch_cons_item {t : Token} (h : t.mark? ctx.file = some .item) (ts : List Token) :
    readBranch ctx (t :: ts) = readBranch ctx ts := by
  cases hk : t.kind <;> simp_all [Token.mark?, readBranch]

theorem readBranch_cons_parameter {t : Token} {d : Declaration}
    (h : t.mark? ctx.file = some (.declaration (.ok (.parameter d)))) {ts rest : List Token}
    {ds : List Declaration} (hts : readBranch ctx ts = .ok (ds, rest)) :
    readBranch ctx (t :: ts) = .ok (d.visible ++ ds, rest) := by
  cases hk : t.kind with
  | declaration text =>
    have hread : Declaration.read ⟨ctx.file, t.line⟩ text = .ok (.parameter d) := by
      simpa [Token.mark?, hk] using h
    simp only [readBranch, hk, ScopeContext.readDeclaration_eq_ok.2 hread, hts]
    rfl
  | _ => simp [Token.mark?, hk] at h

theorem readBranch_cons_ends {t : Token} {k : Keyword} (hk : k.endsBranch)
    (h : t.kind = .keyword k) (ts : List Token) : readBranch ctx (t :: ts) = .ok ([], t :: ts) := by
  cases k <;> simp_all [Keyword.endsBranch, readBranch]

/-- The branch that stands before a word that ends it is read, and nothing else. -/
theorem readBranch_of_isBranch {k : Keyword} (hk : k.endsBranch) {b ms : List Mark}
    (hb : Mark.IsBranch b) {ts : List Token} (h : marks ctx.file ts = b ++ .keyword k :: ms) :
    ∃ line rest, readBranch ctx ts = .ok (Mark.declared b, ⟨line, .keyword k⟩ :: rest) ∧
      marks ctx.file rest = ms := by
  induction b generalizing ts with
  | nil =>
    obtain ⟨skipped, t, rest, rfl, hskipped, ht, hrest⟩ := List.filterMap_eq_cons_iff.1 h
    obtain ⟨line, kind⟩ := t
    obtain rfl : kind = .keyword k := Token.kind_of_mark?_keyword.1 ht
    refine ⟨line, rest, ?_, hrest⟩
    rw [readBranch_append_unmarked hskipped, readBranch_cons_ends hk rfl]
    rfl
  | cons m b ih =>
    obtain ⟨hm, hb⟩ := Mark.isBranch_cons.1 hb
    obtain ⟨skipped, t, ts, rfl, hskipped, ht, hts⟩ := List.filterMap_eq_cons_iff.1 h
    obtain ⟨line, rest, hread, hrest⟩ := ih hb hts
    refine ⟨line, rest, ?_, hrest⟩
    rw [readBranch_append_unmarked hskipped]
    match m, hm with
    | .item, _ => rw [readBranch_cons_item ht, hread]; rfl
    | .declaration (.ok (.parameter d)), _ => exact readBranch_cons_parameter ht hread

/-! ## Alternatives -/

/-- What has been read of the branches of a `ONE OF` block. -/
theorem branches_of_readBranches {start : Nat} {ts rest : List Token}
    {bs : List (List Declaration)} (h : readBranches ctx start ts = .ok (bs, rest)) :
    ∃ body branches, ts = body ++ rest ∧ branches ≠ [] ∧
      marks ctx.file body = [.keyword .or].intercalate branches ++ [.keyword .close] ∧
      (∀ b ∈ branches, Mark.IsBranch b) ∧ bs = branches.map Mark.declared := by
  fun_induction readBranches ctx start ts generalizing bs with
  | case2 ts ds line ts' hb ih =>
    simp only [bind_eq_ok, pure_eq_ok, Prod.mk.injEq] at h
    obtain ⟨⟨bs', after⟩, hr, rfl, rfl⟩ := h
    obtain ⟨body, rfl, hbranch, rfl⟩ := branch_of_readBranch hb
    obtain ⟨body', branches, rfl, hne, hmarks, hbranches, rfl⟩ := ih hr
    refine ⟨body ++ ⟨line, .keyword .or⟩ :: body', marks ctx.file body :: branches, by simp,
      by simp, ?_, List.forall_mem_cons.2 ⟨hbranch, hbranches⟩, rfl⟩
    rw [Token.marks_append, Token.marks_cons, Token.mark?_keyword, hmarks,
      List.intercalate_cons_of_ne_nil hne]
    simp
  | case3 ts ds line ts' hb =>
    cases h
    obtain ⟨body, rfl, hbranch, rfl⟩ := branch_of_readBranch hb
    refine ⟨body ++ [⟨line, .keyword .close⟩], [marks ctx.file body], by simp, by simp, ?_,
      List.forall_mem_singleton.2 hbranch, rfl⟩
    rw [Token.marks_append, Token.marks_cons, Token.mark?_keyword, List.intercalate_singleton]
    rfl
  | _ => cases h

/-- Branches between words `OR` and before a word `END` are read, and nothing else. -/
theorem readBranches_of_isBranch (start : Nat) {branches : List (List Mark)} {ms : List Mark}
    (hne : branches ≠ []) (hbranch : ∀ b ∈ branches, Mark.IsBranch b) {ts : List Token}
    (h : marks ctx.file ts = [.keyword .or].intercalate branches ++ .keyword .close :: ms) :
    ∃ rest, readBranches ctx start ts = .ok (branches.map Mark.declared, rest) ∧
      marks ctx.file rest = ms := by
  induction branches generalizing ts with
  | nil => contradiction
  | cons b branches ih =>
    obtain ⟨hb, hbranch⟩ := List.forall_mem_cons.1 hbranch
    by_cases hlast : branches = []
    · subst hlast
      rw [List.intercalate_singleton] at h
      obtain ⟨line, rest, hread, hrest⟩ := readBranch_of_isBranch rfl hb h
      refine ⟨rest, ?_, hrest⟩
      rw [readBranches]
      split <;> simp_all
    · rw [List.intercalate_cons_of_ne_nil hlast, List.append_assoc, List.append_assoc] at h
      obtain ⟨line, later, hread, hlater⟩ := readBranch_of_isBranch rfl hb h
      obtain ⟨rest, hreads, hrest⟩ := ih hlast hbranch hlater
      refine ⟨rest, ?_, hrest⟩
      rw [readBranches]
      split <;> simp_all [bind, Except.bind, pure_eq_ok]

/-- What has been read behind the words `ONE OF`. -/
theorem oneOf_of_readOneOf {start : Nat} {ts rest : List Token} {part : Part}
    (h : readOneOf ctx start ts = .ok (part, rest)) :
    ∃ body branches, ts = body ++ rest ∧
      Mark.IsOneOf (.keyword .oneOf :: marks ctx.file body) branches ∧
      part = .oneOf (branches.map Mark.declared) := by
  simp only [readOneOf, bind_eq_ok] at h
  obtain ⟨⟨bs, after⟩, hb, h⟩ := h
  obtain ⟨body, branches, rfl, -, hmarks, hbranch, rfl⟩ := branches_of_readBranches hb
  split at h
  · contradiction
  · next hfew =>
    simp only [pure_eq_ok, Prod.mk.injEq] at h
    obtain ⟨rfl, rfl⟩ := h
    rw [not_or, List.length_map, Nat.not_lt] at hfew
    refine ⟨body, branches, rfl, ⟨?_, hfew.1, hbranch, ?_⟩, rfl⟩
    · rw [hmarks, List.cons_append]
    · intro b hb hempty
      exact hfew.2 (hempty ▸ List.mem_map_of_mem hb)

/-- A `ONE OF` block is read, and nothing else. -/
theorem readOneOf_of_isOneOf (start : Nat) {block ms : List Mark} {branches : List (List Mark)}
    (hblock : Mark.IsOneOf (.keyword .oneOf :: block) branches) {ts : List Token}
    (h : marks ctx.file ts = block ++ ms) :
    ∃ rest, readOneOf ctx start ts = .ok (.oneOf (branches.map Mark.declared), rest) ∧
      marks ctx.file rest = ms := by
  have hne : branches ≠ [] := List.ne_nil_of_length_pos (Nat.lt_of_lt_of_le Nat.two_pos hblock.two)
  have hmarks := hblock.marks
  rw [List.cons_append, List.cons.injEq] at hmarks
  rw [hmarks.2, List.append_assoc] at h
  obtain ⟨rest, hread, hrest⟩ := readBranches_of_isBranch start hne hblock.branch h
  refine ⟨rest, ?_, hrest⟩
  have hfew : ¬ ((branches.map Mark.declared).length < 2 ∨ [] ∈ branches.map Mark.declared) := by
    rw [not_or, List.length_map, Nat.not_lt]
    refine ⟨hblock.two, ?_⟩
    intro hmem
    obtain ⟨b, hb, hempty⟩ := List.mem_map.1 hmem
    exact hblock.full b hb hempty
  simp only [readOneOf, hread, ok_bind, if_neg hfew]
  rfl

/-! ## Conditions -/

/-- What has been read of a branch that may stand behind a word. -/
theorem branch_of_readBranchAfter {k : Keyword} {ts rest : List Token} {ds : List Declaration}
    (h : readBranchAfter ctx k ts = .ok (ds, rest)) :
    ∃ body, ts = body ++ rest ∧ Mark.IsBranchAfter k (marks ctx.file body) ∧
      ds = Mark.declared (marks ctx.file body) := by
  unfold readBranchAfter at h
  split at h
  · cases h
    exact ⟨[], rfl, .inl rfl, rfl⟩
  · next t ts =>
    split at h
    · next hk =>
      obtain ⟨body, rfl, hbranch, rfl⟩ := branch_of_readBranch h
      refine ⟨t :: body, rfl, ?_⟩
      rw [Token.marks_cons, Token.kind_of_mark?_keyword.2 hk]
      exact ⟨.inr ⟨_, hbranch, rfl⟩, rfl⟩
    · cases h
      exact ⟨[], rfl, .inl rfl, rfl⟩

/-- A branch behind a word is read, or nothing if another word comes next. -/
theorem readBranchAfter_of_isBranchAfter {k k' : Keyword} (hk : k'.endsBranch) (hkk : k ≠ k')
    {b ms : List Mark} (hb : Mark.IsBranchAfter k b) (line : Nat) {k₀ : Keyword} {ts : List Token}
    (h : .keyword k₀ :: marks ctx.file ts = b ++ .keyword k' :: ms) :
    ∃ line' rest, readBranchAfter ctx k (⟨line, .keyword k₀⟩ :: ts)
        = .ok (Mark.declared b, ⟨line', .keyword k'⟩ :: rest) ∧ marks ctx.file rest = ms := by
  obtain rfl | ⟨b, hb, rfl⟩ := hb
  · obtain ⟨rfl, rfl⟩ : k₀ = k' ∧ marks ctx.file ts = ms := by simpa using h
    refine ⟨line, ts, ?_, rfl⟩
    rw [readBranchAfter, if_neg fun heq => hkk (TokenKind.keyword.inj heq).symm]
    rfl
  · obtain ⟨rfl, hts⟩ : k₀ = k ∧ marks ctx.file ts = b ++ .keyword k' :: ms := by simpa using h
    obtain ⟨line', rest, hread, hrest⟩ := readBranch_of_isBranch hk hb hts
    refine ⟨line', rest, ?_, hrest⟩
    rw [readBranchAfter, if_pos rfl, hread]
    rfl

/-- What has been read behind the word `IF`. -/
theorem conditional_of_readConditional {start : Nat} {ts rest : List Token} {part : Part}
    (h : readConditional ctx start ts = .ok (part, rest)) :
    ∃ body condition yes no d, ts = body ++ rest ∧
      Mark.IsConditional (.keyword .condition :: marks ctx.file body) condition yes no d ∧
      part = .conditional d (Mark.declared yes) (Mark.declared no) := by
  simp only [readConditional, bind_eq_ok] at h
  obtain ⟨⟨ds, after⟩, hc, h⟩ := h
  obtain ⟨body, rfl, hbranch, rfl⟩ := branch_of_readBranch hc
  split at h
  · -- exactly one boolean parameter stands in front of the branches:
    next d _ hone =>
    obtain ⟨hdeclared, rfl⟩ := Prod.mk.inj hone
    split at h
    · contradiction
    · next hbool =>
      simp only [bind_eq_ok] at h
      obtain ⟨⟨ds₁, rest₁⟩, h₁, ⟨ds₂, rest₂⟩, h₂, h⟩ := h
      obtain ⟨body₁, rfl, hyes, rfl⟩ := branch_of_readBranchAfter h₁
      obtain ⟨body₂, hrest₁, hno, rfl⟩ := branch_of_readBranchAfter h₂
      obtain rfl : rest₁ = body₂ ++ rest₂ := hrest₁
      split at h
      · next line after hclose =>
        obtain rfl : rest₂ = ⟨line, .keyword .close⟩ :: after := hclose
        simp only [pure_eq_ok, Prod.mk.injEq] at h
        obtain ⟨rfl, rfl⟩ := h
        -- condition, two branches and the closing word, one behind the other:
        refine ⟨body ++ (body₁ ++ (body₂ ++ [⟨line, .keyword .close⟩])), marks ctx.file body,
          marks ctx.file body₁, marks ctx.file body₂, d, by simp,
          ⟨?_, hbranch, hdeclared, not_not.1 hbool, hyes, hno⟩, rfl⟩
        rw [Token.marks_append, Token.marks_append, Token.marks_append, Token.marks_cons,
          Token.mark?_keyword]
        rfl
      · contradiction
  · contradiction

/-- A branch that may stand behind a word begins with that word, or the next one follows. -/
theorem exists_word_of_isBranchAfter {k k' : Keyword} (hk : k.endsBranch) (hk' : k'.endsBranch)
    {b : List Mark} (hb : Mark.IsBranchAfter k b) (ms : List Mark) :
    ∃ k₀ ms₀, b ++ .keyword k' :: ms = .keyword k₀ :: ms₀ ∧ k₀.endsBranch ∧ (k₀ = k ∨ k₀ = k') := by
  obtain rfl | ⟨b, -, rfl⟩ := hb
  · exact ⟨k', ms, rfl, hk', .inr rfl⟩
  · exact ⟨k, b ++ .keyword k' :: ms, rfl, hk, .inl rfl⟩

/-- An `IF` block is read, and nothing else. -/
theorem readConditional_of_isConditional (start : Nat) {block condition yes no ms : List Mark}
    {d : Declaration} (hblock : Mark.IsConditional (.keyword .condition :: block) condition yes no d)
    {ts : List Token} (h : marks ctx.file ts = block ++ ms) :
    ∃ rest, readConditional ctx start ts
        = .ok (.conditional d (Mark.declared yes) (Mark.declared no), rest) ∧
      marks ctx.file rest = ms := by
  obtain rfl : block = condition ++ (yes ++ (no ++ [.keyword .close])) :=
    (List.cons.inj hblock.marks).2
  have hmarks : marks ctx.file ts = condition ++ (yes ++ (no ++ .keyword .close :: ms)) := by
    simpa using h
  -- the words that end the condition and the branch behind `THEN`
  obtain ⟨k₂, ms₂, hno, hk₂, hword⟩ :=
    exists_word_of_isBranchAfter rfl (show Keyword.close.endsBranch from rfl) hblock.whenFalse ms
  obtain ⟨k₁, ms₁, hyes, hk₁, -⟩ :=
    exists_word_of_isBranchAfter rfl hk₂ hblock.whenTrue ms₂
  have hne : Keyword.whenTrue ≠ k₂ := by rcases hword with rfl | rfl <;> decide
  rw [hno, hyes] at hmarks
  obtain ⟨line, rest, hread, hrest⟩ := readBranch_of_isBranch hk₁ hblock.branch hmarks
  obtain ⟨line₁, rest₁, hread₁, hrest₁⟩ :=
    readBranchAfter_of_isBranchAfter hk₂ hne hblock.whenTrue line (hrest ▸ hyes.symm)
  obtain ⟨line₂, rest₂, hread₂, hrest₂⟩ :=
    readBranchAfter_of_isBranchAfter rfl (by decide) hblock.whenFalse line₁
      (hrest₁ ▸ hno.symm)
  refine ⟨rest₂, ?_, hrest₂⟩
  simp only [readConditional, hread, ok_bind, hblock.one, hread₁, hread₂, hblock.bool]
  rfl

/-! ## Lists -/

/-- What an item of a list is read as, if it is well-formed. -/
def readListed? (item : String × Nat) : Option (Item × Nat) :=
  (Item.read item.1).toOption.map (·, item.2)

theorem readListed?_of_read {item : String × Nat} {i : Item} (h : Item.read item.1 = .ok i) :
    readListed? item = some (i, item.2) := by
  unfold readListed?
  rw [h]
  rfl

/-- What has been read of items that follow one another. -/
theorem items_of_readItems {ts rest : List Token} {items : List (Item × Nat)}
    (h : readItems ctx ts = .ok (items, rest)) :
    ∃ body, ts = body ++ rest ∧ (∀ m ∈ marks ctx.file body, m = .item) ∧
      (∀ item ∈ Token.itemRun ts, ∃ i, Item.read item.1 = .ok i) ∧
      items = (Token.itemRun ts).filterMap readListed? := by
  induction ts generalizing items with
  | nil =>
    cases h
    exact ⟨[], rfl, List.forall_mem_nil _, List.forall_mem_nil _, rfl⟩
  | cons t ts ih =>
    unfold readItems at h
    -- an item is followed by the rest of its list, anything else ends it:
    split at h
    · next text hk =>
      simp only [bind_eq_ok, pure_eq_ok, Prod.mk.injEq] at h
      obtain ⟨i, hi, ⟨items', after⟩, hr, rfl, hafter⟩ := h
      obtain rfl : after = rest := hafter
      obtain ⟨body, rfl, hbody, hread, rfl⟩ := ih hr
      have hi := ScopeContext.readItem_eq_ok.1 hi
      have hmark : t.mark? ctx.file = some .item := by simp only [Token.mark?, hk]
      have hrun : Token.itemRun (t :: (body ++ after))
          = (text, t.line) :: Token.itemRun (body ++ after) := by simp only [Token.itemRun, hk]
      rw [hrun]
      refine ⟨t :: body, rfl, ?_, List.forall_mem_cons.2 ⟨⟨i, hi⟩, hread⟩, ?_⟩
      · rw [Token.marks_cons, hmark]
        exact List.forall_mem_cons.2 ⟨rfl, hbody⟩
      · have hfirst : readListed? (text, t.line) = some (i, t.line) := readListed?_of_read hi
        rw [List.filterMap_cons_some hfirst]
    · next hk =>
      cases h
      have hrun : Token.itemRun (t :: ts) = [] := by
        unfold Token.itemRun
        split
        · next text hitem => exact absurd hitem (hk text)
        · rfl
      rw [hrun]
      exact ⟨[], rfl, List.forall_mem_nil _, List.forall_mem_nil _, rfl⟩

/-- Items that follow one another are read if each of them is well-formed. -/
theorem exists_readItems {ts : List Token}
    (h : ∀ item ∈ Token.itemRun ts, ∃ i, Item.read item.1 = .ok i) :
    ∃ items rest, readItems ctx ts = .ok (items, rest) := by
  induction ts with
  | nil => exact ⟨[], [], rfl⟩
  | cons t ts ih =>
    unfold readItems
    unfold Token.itemRun at h
    split
    · next text hk =>
      simp only [hk] at h
      obtain ⟨⟨i, hi⟩, h⟩ := List.forall_mem_cons.1 h
      obtain ⟨items, rest, hread⟩ := ih h
      refine ⟨(i, t.line) :: items, rest, ?_⟩
      rw [ScopeContext.readItem_eq_ok.2 hi, hread]
      rfl
    · exact ⟨[], t :: ts, rfl⟩

/-- What has been read behind a word that opens a list. -/
theorem list_of_readList {ts rest : List Token} {items : List (Item × Nat)}
    (h : readList ctx ts = .ok (items, rest)) :
    ∃ body, ts = body ++ rest ∧ (∀ m ∈ marks ctx.file body, m = .item) ∧
      (∀ item ∈ Token.listed ts, ∃ i, Item.read item.1 = .ok i) ∧
      items = (Token.listed ts).filterMap readListed? := by
  obtain ⟨body, hbody, hitem, hread, rfl⟩ := items_of_readItems h
  refine ⟨ts.takeWhile (·.kind = .blank) ++ body, ?_, ?_, hread, rfl⟩
  · rw [List.append_assoc, ← hbody, List.takeWhile_append_dropWhile]
  · intro m hm
    rw [Token.marks_append, List.mem_append] at hm
    rcases hm with hm | hm
    · -- blank lines have no mark
      obtain ⟨t, ht, hmark⟩ := List.mem_filterMap.1 hm
      have hkind : t.kind = .blank := by
        simpa using List.all_eq_true.1 List.all_takeWhile t ht
      simp [Token.mark?, hkind] at hmark
    · exact hitem m hm

end Scope

end SpecTree
