import SpecTree.Proofs.Scan.Block
import SpecTree.Proofs.Scan.Renumber

/-!
# Scopes behind one another

A header ends whatever stands before it, just as the end of a file does. So tokens that can be read
can be read in front of a header too, and what stands behind the header is read as if nothing stood
before it. Main statements:

* `Scope.readBranch_append` and its relatives: a block that is closed does not see what follows;
* `Scope.read_append`: a scope ends before the next header;
* `Scope.readAll_append`: definitions behind one another.
-/

namespace SpecTree

namespace Token

/-- A token without a mark is passed over. -/
theorem fromFirstMark_cons (t : Token) (ts : List Token) :
    fromFirstMark (t :: ts) = if t.isUnmarked then fromFirstMark ts else t :: ts :=
  List.dropWhile_cons

/-- What has no mark may be left out first. -/
theorem fromFirstMark_dropWhile {p : Token → Bool} (hp : ∀ t, p t = true → t.isUnmarked = true)
    (ts : List Token) : fromFirstMark (ts.dropWhile p) = fromFirstMark ts := by
  induction ts with
  | nil => rfl
  | cons t ts ih =>
    rw [List.dropWhile_cons]
    split
    · next ht => rw [ih, fromFirstMark_cons, if_pos (hp t ht)]
    · rfl

/-- The first mark is a header, if there is one. -/
def BeforeHeader (ts : List Token) : Prop :=
  ∀ t ∈ (fromFirstMark ts).head?, ∃ name, t.kind = .header name

end Token

namespace Token.BeforeHeader

variable {later later' : List Token}

/-- Only what is seen from the first mark on counts. -/
theorem congr (h : BeforeHeader later) (hfront : fromFirstMark later' = fromFirstMark later) :
    BeforeHeader later' := by
  unfold BeforeHeader
  rw [hfront]
  exact h

/-- A token at the front has no mark, or it is the header. -/
theorem cases_cons {t : Token} (h : BeforeHeader (t :: later)) :
    t.isUnmarked = true ∧ BeforeHeader later ∨ ∃ name, t.kind = .header name := by
  unfold BeforeHeader at h
  rw [fromFirstMark_cons] at h
  split at h
  · next ht => exact .inl ⟨ht, h⟩
  · exact .inr (h t rfl)

/-- A list does not go on before a header. -/
theorem not_item (h : BeforeHeader later) : ∀ t ∈ later.head?, ∀ text, t.kind ≠ .item text := by
  intro t ht text hk
  cases later with
  | nil => cases ht
  | cons t later =>
    cases ht
    rcases h.cases_cons with ⟨hunmarked, -⟩ | ⟨name, hheader⟩
    · simp [isUnmarked, proseText?, hk] at hunmarked
    · cases hk.symm.trans hheader

end Token.BeforeHeader

namespace Scope

variable {ctx ctx' : ScopeContext}

/-! ## Blocks -/

/-- A declaration that was read is read alike in another scope of the same file. -/
theorem readDeclaration_congr (hfile : ctx'.file = ctx.file) {line : Nat} {text : String}
    {declared : Declared} (h : ctx.readDeclaration line text = .ok declared) :
    ctx'.readDeclaration line text = .ok declared := by
  rw [ScopeContext.readDeclaration_eq_ok] at h ⊢
  rw [hfile]
  exact h

/-- A branch that ends before a token ends there, whatever follows. -/
theorem readBranch_append (hfile : ctx'.file = ctx.file) (later : List Token)
    {ts rest : List Token} {ds : List Declaration} (h : readBranch ctx ts = .ok (ds, rest))
    (hrest : rest ≠ []) : readBranch ctx' (ts ++ later) = .ok (ds, rest ++ later) := by
  fun_induction readBranch ctx ts generalizing ds with
  | case1 =>
    cases h
    exact absurd rfl hrest
  | case2 t ts hk ih | case3 t ts _ hk ih | case4 t ts _ hk ih =>
    rw [List.cons_append, readBranch]
    simp only [hk]
    exact ih h
  | case7 t ts text hk d hd ih =>
    obtain ⟨⟨ds', after⟩, hafter, hpure⟩ := bind_eq_ok.1 h
    cases hpure
    rw [List.cons_append, readBranch]
    simp only [hk, readDeclaration_congr hfile hd, ih hafter]
    rfl
  | case14 t ts hk | case15 t ts hk | case16 t ts hk | case17 t ts hk | case18 t ts _ hk =>
    cases h
    rw [List.cons_append, readBranch]
    simp only [hk]
  | _ => cases h

/-- Alternatives that were read to their end are read alike with more tokens behind them. -/
theorem readBranches_append (hfile : ctx'.file = ctx.file) (later : List Token) {start : Nat}
    {ts rest : List Token} {branches : List (List Declaration)}
    (h : readBranches ctx start ts = .ok (branches, rest)) :
    readBranches ctx' start (ts ++ later) = .ok (branches, rest ++ later) := by
  fun_induction readBranches ctx start ts generalizing branches with
  | case1 => cases h
  | case2 ts ds line after hbranch ih =>
    obtain ⟨⟨branches', rest'⟩, hrest, hpure⟩ := bind_eq_ok.1 h
    cases hpure
    rw [readBranches_eq, readBranch_append hfile later hbranch (List.cons_ne_nil _ _)]
    show (readBranches ctx' start (after ++ later) >>= _) = _
    rw [ih hrest]
    rfl
  | case3 ts ds line after hbranch =>
    cases h
    rw [readBranches_eq, readBranch_append hfile later hbranch (List.cons_ne_nil _ _)]
    rfl
  | case4 => cases h

/-- A choice that was read is read alike with more tokens behind it. -/
theorem readOneOf_append (hfile : ctx'.file = ctx.file) (later : List Token) {start : Nat}
    {ts rest : List Token} {part : Part} (h : readOneOf ctx start ts = .ok (part, rest)) :
    readOneOf ctx' start (ts ++ later) = .ok (part, rest ++ later) := by
  obtain ⟨⟨branches, after⟩, hbranches, h⟩ := bind_eq_ok.1 h
  unfold readOneOf
  rw [readBranches_append hfile later hbranches, ok_bind]
  dsimp only at h ⊢
  split at h
  · cases h
  · next hlength =>
    cases h
    rw [if_neg hlength]
    rfl

/-- A branch behind its keyword is read alike with more tokens behind it, if it did not end with the
text. -/
theorem readBranchAfter_append (hfile : ctx'.file = ctx.file) (later : List Token) {k : Keyword}
    {ts rest : List Token} {ds : List Declaration} (h : readBranchAfter ctx k ts = .ok (ds, rest))
    (hrest : rest ≠ []) : readBranchAfter ctx' k (ts ++ later) = .ok (ds, rest ++ later) := by
  cases ts with
  | nil =>
    cases h
    exact absurd rfl hrest
  | cons t ts =>
    unfold readBranchAfter at h ⊢
    rw [List.cons_append]
    dsimp only at h ⊢
    split at h
    · next hk =>
      rw [if_pos hk]
      exact readBranch_append hfile later h hrest
    · next hk =>
      cases h
      rw [if_neg hk]
      rfl

/-- Without tokens there is no branch to read. -/
theorem ne_nil_of_readBranchAfter {k : Keyword} {ts rest : List Token} {ds : List Declaration}
    (h : readBranchAfter ctx k ts = .ok (ds, rest)) (hrest : rest ≠ []) : ts ≠ [] := by
  rintro rfl
  exact hrest (List.length_eq_zero_iff.1 (Nat.le_zero.1 (length_readBranchAfter h)))

/-- A conditional that was read is read alike with more tokens behind it. -/
theorem readConditional_append (hfile : ctx'.file = ctx.file) (later : List Token) {start : Nat}
    {ts rest : List Token} {part : Part} (h : readConditional ctx start ts = .ok (part, rest)) :
    readConditional ctx' start (ts ++ later) = .ok (part, rest ++ later) := by
  obtain ⟨⟨conditions, after⟩, hcondition, h⟩ := bind_eq_ok.1 h
  split at h
  · next condition after heq =>
    cases heq
    split at h
    · cases h
    · next htype =>
      obtain ⟨⟨yes, after₁⟩, hyes, h⟩ := bind_eq_ok.1 h
      obtain ⟨⟨no, after₂⟩, hno, h⟩ := bind_eq_ok.1 h
      dsimp only at hno h
      split at h
      · next line rest' =>
        cases h
        -- the word that closes the block stands behind all three branches:
        have hafter₂ := List.cons_ne_nil (⟨line, .keyword .close⟩ : Token) rest
        have hafter₁ := ne_nil_of_readBranchAfter hno hafter₂
        have hafter := ne_nil_of_readBranchAfter hyes hafter₁
        unfold readConditional
        rw [readBranch_append hfile later hcondition hafter, ok_bind]
        dsimp only
        rw [if_neg htype, readBranchAfter_append hfile later hyes hafter₁, ok_bind]
        dsimp only
        rw [readBranchAfter_append hfile later hno hafter₂, ok_bind]
        rfl
      · cases h
  · cases h

/-! ## Lists -/

/-- An item that was read is read alike in another scope of the same file. -/
theorem readItem_congr {line : Nat} {text : String} {item : Item}
    (h : ctx.readItem line text = .ok item) : ctx'.readItem line text = .ok item := by
  rw [ScopeContext.readItem_eq_ok] at h ⊢
  exact h

/-- Items end where no item follows. -/
theorem readItems_append {later : List Token}
    (hlater : ∀ t ∈ later.head?, ∀ text, t.kind ≠ .item text) {ts rest : List Token}
    {items : List (Item × Nat)} (h : readItems ctx ts = .ok (items, rest)) :
    readItems ctx' (ts ++ later) = .ok (items, rest ++ later) := by
  induction ts generalizing items with
  | nil =>
    cases h
    -- the list ends here, and what follows is no item:
    cases later with
    | nil => rfl
    | cons t later =>
      show readItems ctx' (t :: later) = _
      unfold readItems
      cases hk : t.kind with
      | item text => exact absurd hk (hlater t rfl text)
      | _ => rfl
  | cons t ts ih =>
    rw [List.cons_append]
    unfold readItems at h ⊢
    cases hk : t.kind with
    | item text =>
      rw [hk] at h
      obtain ⟨item, hitem, h⟩ := bind_eq_ok.1 h
      obtain ⟨⟨items', after⟩, hitems, hpure⟩ := bind_eq_ok.1 h
      cases hpure
      dsimp only
      rw [readItem_congr hitem, ih hitems]
      rfl
    | _ =>
      rw [hk] at h
      cases h
      rfl

/-- A list that was read is read alike with a header behind it, but for what has no mark in between.
-/
theorem readList_append {later : List Token} (hlater : Token.BeforeHeader later)
    {ts rest : List Token} {items : List (Item × Nat)} (h : readList ctx ts = .ok (items, rest)) :
    ∃ later', Token.fromFirstMark later' = Token.fromFirstMark later ∧
      readList ctx' (ts ++ later) = .ok (items, rest ++ later') := by
  unfold readList at h ⊢
  rw [List.dropWhile_append]
  split
  · next hblank =>
    rw [List.isEmpty_iff.1 hblank] at h
    -- blank lines before the header are left out too:
    have hfront : Token.fromFirstMark (later.dropWhile (·.kind = .blank)) =
        Token.fromFirstMark later :=
      Token.fromFirstMark_dropWhile (fun t ht => by simp_all [Token.isUnmarked]) later
    obtain rfl : rest = [] := by cases h; rfl
    exact ⟨_, hfront, readItems_append (hlater.congr hfront).not_item h⟩
  · exact ⟨later, rfl, readItems_append hlater.not_item h⟩

/-! ## Scopes -/

/-- Before a header nothing is read. -/
theorem read_of_beforeHeader {later : List Token} (hlater : Token.BeforeHeader later) (s : Scope) :
    read ctx s later = .ok (s, Token.fromFirstMark later) := by
  induction later with
  | nil => rw [read]; rfl
  | cons t later ih =>
    rw [read_cons, Token.fromFirstMark_cons]
    rcases hlater.cases_cons with ⟨hunmarked, hlater⟩ | ⟨name, hheader⟩
    · rw [if_pos hunmarked, ← ih hlater]
      cases hk : t.kind <;> simp_all [Token.isUnmarked, Token.proseText?]
    · simp [hheader, Token.isUnmarked, Token.proseText?]

/-- A scope that ends with the tokens ends before a header that follows as well; blank lines before
the header may be taken for part of it. -/
theorem read_append (hfile : ctx'.file = ctx.file) {later : List Token}
    (hlater : Token.BeforeHeader later) {s s' : Scope} {ts rest : List Token}
    (h : read ctx s ts = .ok (s', rest)) :
    ∃ later', Token.fromFirstMark later' = Token.fromFirstMark later ∧
      read ctx' s (ts ++ later) = .ok (s', rest ++ later') := by
  fun_induction read ctx s ts generalizing later with
  | case1 =>
    cases h
    exact ⟨_, Token.fromFirstMark_dropWhile (fun _ ht => ht) later, read_of_beforeHeader hlater _⟩
  | case2 s t ts hk ih | case3 s t ts _ hk ih | case4 s t ts _ hk ih =>
    rw [List.cons_append, read_cons]
    simp only [hk]
    exact ih hlater h
  | case6 s t ts text hk spec hd ih | case7 s t ts text hk d hd ih =>
    rw [List.cons_append, read_cons]
    simp only [hk, readDeclaration_congr hfile hd, ok_bind]
    exact ih hlater h
  | case9 s t ts part after hb hk ih =>
    rw [List.cons_append, read_cons]
    simp only [hk, readOneOf_append hfile later hb, ok_bind]
    exact ih hlater h
  | case11 s t ts part after hb hk ih =>
    rw [List.cons_append, read_cons]
    simp only [hk, readConditional_append hfile later hb, ok_bind]
    exact ih hlater h
  | case13 s t ts items after hb hk ih | case15 s t ts items after hb hk ih
  | case17 s t ts items after hb hk ih | case19 s t ts items after hb hk ih =>
    -- what follows the list is seen from its first mark on:
    obtain ⟨later', hfront, hlist⟩ : ∃ later',
        Token.fromFirstMark later' = Token.fromFirstMark later ∧
          readList ctx' (ts ++ later) = .ok (items, after ++ later') := readList_append hlater hb
    obtain ⟨later'', hfront', hread⟩ := ih (hlater.congr hfront) h
    refine ⟨later'', hfront'.trans hfront, ?_⟩
    rw [List.cons_append, read_cons]
    simp only [hk, Keyword.opensList, if_true, hlist, ok_bind, hfile]
    exact hread
  -- the scope ends at this word, with or without more behind it:
  | case20 s t ts hk | case21 s t ts hk | case22 s t ts hk | case23 s t ts hk =>
    cases h
    refine ⟨later, rfl, ?_⟩
    rw [List.cons_append, read_cons]
    simp only [hk, Keyword.opensList]
    rfl
  | case24 s t ts name hk =>
    cases h
    refine ⟨later, rfl, ?_⟩
    rw [List.cons_append, read_cons]
    simp only [hk]
  | _ => cases h

/-! ## Files -/

variable {file : String} {lastLine lastLine' : Nat}

/-- What stands before the first header is left out, and it does not matter which scope ends
there. -/
theorem readHeaded_of_beforeHeader {later : List Token} (hlater : Token.BeforeHeader later)
    (spec : Option String) :
    readHeaded file lastLine spec later =
      readHeaded file lastLine none (Token.fromFirstMark later) := by
  induction later with
  | nil => rw [Token.fromFirstMark, List.dropWhile_nil, readHeaded, readHeaded]
  | cons t later ih =>
    rw [Token.fromFirstMark_cons]
    rcases hlater.cases_cons with ⟨hunmarked, hlater⟩ | ⟨name, hheader⟩
    · rw [if_pos hunmarked, ← ih hlater, readHeaded_cons]
      cases hk : t.kind <;> simp_all [Token.isUnmarked, Token.proseText?]
    · have hmarked : ¬ t.isUnmarked = true := by
        simp [Token.isUnmarked, Token.proseText?, hheader]
      rw [if_neg hmarked, readHeaded_cons, readHeaded_cons, hheader]

/-- Only what is seen from the first mark on is read. -/
theorem readHeaded_congr {later later' : List Token} (hlater : Token.BeforeHeader later)
    (hfront : Token.fromFirstMark later' = Token.fromFirstMark later) (spec spec' : Option String) :
    readHeaded file lastLine spec later' = readHeaded file lastLine spec' later := by
  rw [readHeaded_of_beforeHeader (hlater.congr hfront), readHeaded_of_beforeHeader hlater, hfront]

/-- Scopes that were read are read alike with others behind them. The induction is on the tokens,
from header to header. -/
theorem readHeaded_append {later : List Token} (hlater : Token.BeforeHeader later)
    {spec : Option String} (spec' : Option String) {ts : List Token} {ds : List Definition}
    (h : readHeaded file lastLine spec ts = .ok ds) :
    readHeaded file lastLine' spec' (ts ++ later) =
      (readHeaded file lastLine' none later).map (ds ++ ·) := by
  -- the induction is on the number of tokens, as a scope takes several at once:
  induction hn : ts.length using Nat.strongRecOn generalizing ts spec spec' ds later with
  | _ n ih =>
  cases ts with
  | nil =>
    rw [readHeaded] at h
    cases h
    rw [List.nil_append, readHeaded_congr hlater rfl spec' none]
    cases readHeaded file lastLine' none later <;> rfl
  | cons t ts =>
    have hshort : ts.length < n := by
      rw [← hn, List.length_cons]
      omega
    rw [readHeaded_cons] at h
    rw [List.cons_append, readHeaded_cons]
    cases hk : t.kind with
    | keyword k =>
      rw [hk] at h
      cases h
    | blank | prose | item | declaration =>
      rw [hk] at h
      exact ih ts.length hshort hlater spec' h rfl
    | header name =>
      rw [hk] at h
      obtain ⟨⟨scope, after⟩, hread, h⟩ := bind_eq_ok.1 h
      obtain ⟨es, hafter, hpure⟩ := bind_eq_ok.1 h
      cases hpure
      have hfile : (⟨file, lastLine', some name⟩ : ScopeContext).file = file := rfl
      obtain ⟨later', hfront, hread'⟩ := read_append hfile hlater hread
      have hlength := Nat.lt_of_le_of_lt (length_read hread) hshort
      dsimp only
      rw [hread', ok_bind]
      dsimp only
      rw [ih after.length hlength (hlater.congr hfront) (some name) hafter rfl,
        readHeaded_congr hlater hfront none none]
      cases readHeaded file lastLine' none later with
      | error e => rfl
      | ok later => exact congrArg Except.ok (List.append_assoc ..).symm

/-- A file that was read is read alike with a header and its scope behind it. -/
theorem readAll_append_headed {later : List Token} (hlater : Token.BeforeHeader later) {stem : String}
    {ts : List Token} {ds : List Definition} (h : readAll file stem lastLine ts = .ok ds) :
    readAll file stem lastLine' (ts ++ later) =
      (readHeaded file lastLine' none later).map (ds ++ ·) := by
  rw [readAll_eq] at h
  obtain ⟨⟨scope, rest⟩, hread, h⟩ := bind_eq_ok.1 h
  obtain ⟨es, hrest, hpure⟩ := bind_eq_ok.1 h
  cases hpure
  have hfront : Token.fromFirstMark (ts ++ later) =
      if (Token.fromFirstMark ts).isEmpty then Token.fromFirstMark later
      else Token.fromFirstMark ts ++ later := List.dropWhile_append ..
  have hidem : Token.fromFirstMark (Token.fromFirstMark later) = Token.fromFirstMark later :=
    Token.fromFirstMark_dropWhile (fun _ ht => ht) later
  have hfile : (⟨file, lastLine', none⟩ : ScopeContext).file = file := rfl
  rw [readAll_eq, hfront]
  split
  · next hempty =>
    -- nothing stands above the first header:
    rw [List.isEmpty_iff.1 hempty, read] at hread
    cases hread
    rw [readHeaded] at hrest
    cases hrest
    rw [read_of_beforeHeader (hlater.congr hidem), ok_bind]
    dsimp only
    rw [hidem, readHeaded_of_beforeHeader hlater]
    cases readHeaded file lastLine' none (Token.fromFirstMark later) <;> rfl
  · next hmarked =>
    obtain ⟨later', hfront', hread'⟩ := read_append hfile hlater hread
    rw [hread', ok_bind]
    dsimp only
    have hline : ScopeContext.lineAt ⟨file, lastLine', none⟩ (Token.fromFirstMark ts ++ later) =
        ScopeContext.lineAt ⟨file, lastLine, none⟩ (Token.fromFirstMark ts) := by
      cases hts : Token.fromFirstMark ts with
      | nil => simp [hts] at hmarked
      | cons t front => rfl
    rw [readHeaded_append (hlater.congr hfront') none hrest, hline,
      readHeaded_congr hlater hfront' none none]
    cases readHeaded file lastLine' none later with
    | error e => rfl
    | ok later => exact congrArg Except.ok (List.append_assoc ..).symm

theorem readAll_nil (file stem : String) (lastLine : Nat) : readAll file stem lastLine [] = .ok [] := by
  have hfront : Token.fromFirstMark [] = [] := rfl
  rw [readAll_eq, hfront, read, ok_bind]
  dsimp only
  rw [readHeaded]
  rfl

/-- **The definitions of tokens that can be read come before those of tokens that start with a
header, if there are any, and errors are those of the latter.** -/
theorem readAll_append {later : List Token} (hlater : Token.BeforeHeader later) {stem : String}
    {ts : List Token} {ds : List Definition} (h : readAll file stem lastLine ts = .ok ds) :
    readAll file stem lastLine' (ts ++ later) =
      (readAll file stem lastLine' later).map (ds ++ ·) := by
  have halone : readAll file stem lastLine' later =
      (readHeaded file lastLine' none later).map ([] ++ ·) :=
    readAll_append_headed hlater (readAll_nil file stem lastLine)
  rw [readAll_append_headed hlater h, halone]
  cases readHeaded file lastLine' none later <;> rfl

end Scope

end SpecTree
