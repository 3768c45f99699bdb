import SpecTree.Proofs.Scan.Following

/-!
# The cursor moves on

Whatever the comment lines are, scanning them by a cursor ends: no loop goes round more than once for
each line and once more. The cursor never goes back and never leaves the lines, no line is looked for
that is not there, and every round over the file moves the cursor by itself. Main statements:

* `follows_readParts`: what is in a scope is read as from the tokens, inside of blocks and outside;
* `follows_readBranches`, `follows_readConditional`: blocks;
* `opens_readRound`: a round over the file moves the cursor;
* `answers_headed`: rounds one after the other;
* `readFile_ends`: a scan of a file ends with what reading its tokens gives.
-/

namespace SpecTree

open Token (fromFirstMark)

namespace Scope

/-! ## Readings from the first mark on -/

variable {ctx : ScopeContext}

/-- A branch is read from its first mark on. -/
theorem readBranch_fromFirstMark (ts : List Token) :
    readBranch ctx (fromFirstMark ts) = readBranch ctx ts := by
  have hts : ts.takeWhile Token.isUnmarked ++ fromFirstMark ts = ts :=
    List.takeWhile_append_dropWhile
  conv_rhs => rw [← hts]
  refine (readBranch_append_unmarked (fun t ht => ?_) _).symm
  exact Token.mark?_eq_none.2 (List.all_eq_true.1 List.all_takeWhile t ht)

/-- A scope is read from its first mark on. -/
theorem read_fromFirstMark (s : Scope) (ts : List Token) :
    read ctx s (fromFirstMark ts) = read ctx s ts := by
  induction ts with
  | nil => rfl
  | cons t ts ih =>
    rw [Token.fromFirstMark_cons]
    split
    · next ht =>
      rw [ih, read_cons]
      have hmark : t.mark? ctx.file = none := Token.mark?_eq_none.2 ht
      cases hk : t.kind <;> simp_all [Token.mark?]
    · rfl

/-- The scope behind a header is read from its first mark on. -/
theorem readHeaded_fromFirstMark (file : String) (lastLine : Nat) (spec : Option String)
    (ts : List Token) :
    readHeaded file lastLine spec (fromFirstMark ts) = readHeaded file lastLine spec ts := by
  induction ts with
  | nil => rfl
  | cons t ts ih =>
    rw [Token.fromFirstMark_cons]
    split
    · next ht =>
      rw [ih, readHeaded_cons]
      have hmark : t.mark? file = none := Token.mark?_eq_none.2 ht
      cases hk : t.kind <;> simp_all [Token.mark?]
    · rfl

/-! ## Readings up to a header -/

/-- A branch that ends at once is empty. -/
theorem readBranch_of_stop {ts : List Token} (h : Token.Stop ctx.file ts) :
    readBranch ctx ts = .ok ([], ts) := by
  cases ts with
  | nil => rfl
  | cons t ts =>
    rcases Token.stop_cons_iff.1 h with ⟨name, hk⟩ | ⟨k, hk, hends⟩
    · rw [readBranch]
      simp only [hk]
    · exact readBranch_cons_ends hends hk ts

/-- A scope ends before a header, and before a word that has no place in it. -/
theorem read_of_stop (s : Scope) {ts : List Token} (h : Token.Stop ctx.file ts) :
    read ctx s ts = .ok (s, ts) := by
  cases ts with
  | nil => rw [read]
  | cons t ts =>
    rw [read_cons]
    rcases Token.stop_cons_iff.1 h with ⟨name, hk⟩ | ⟨k, hk, hends⟩
    · rw [hk]
    · rw [hk]
      cases k with
      | or | close | whenTrue | whenFalse => rfl
      | _ => cases hends

/-- Nothing is read above the first header if it comes first. -/
theorem readAll_of_stop {file : String} (stem : String) (lastLine : Nat) {ts : List Token}
    (h : Token.Stop file (fromFirstMark ts)) :
    readAll file stem lastLine ts = (readHeaded file lastLine none ts).map ([] ++ ·) := by
  have hread : read ⟨file, lastLine, none⟩ empty (fromFirstMark ts)
      = .ok (empty, fromFirstMark ts) := read_of_stop empty h
  rw [readAll_eq, hread, ok_bind, ← readHeaded_fromFirstMark]
  dsimp only
  cases readHeaded file lastLine none (fromFirstMark ts) <;> rfl

/-! ## What is read behind what has been read -/

/-- The scope with some more parameters. -/
def addParameters (s : Scope) (ds : List Declaration) : Scope :=
  { s with parameters := s.parameters ++ ds }

theorem addParameters_nil (s : Scope) : s.addParameters [] = s := by
  unfold addParameters
  rw [List.append_nil]

theorem addParameters_addParameters (s : Scope) (ds es : List Declaration) :
    (s.addParameters ds).addParameters es = s.addParameters (ds ++ es) := by
  unfold addParameters
  rw [List.append_assoc]

/-- What is in a scope, as it is read from the tokens. In a block there are declarations only. -/
def readParts (ctx : ScopeContext) (nested : Bool) (s : Scope) (ts : List Token) :
    Except LoadError (Scope × List Token) :=
  if nested then (readBranch ctx ts).map (Prod.map s.addParameters id) else read ctx s ts

/-- The parts of a scope are read from the first mark on. -/
theorem readParts_fromFirstMark (nested : Bool) (s : Scope) (ts : List Token) :
    readParts ctx nested s (fromFirstMark ts) = readParts ctx nested s ts := by
  unfold readParts
  rw [readBranch_fromFirstMark, read_fromFirstMark]

/-- Where a scope ends, nothing more is read for it. -/
theorem readParts_of_stop (nested : Bool) (s : Scope) {ts : List Token}
    (h : Token.Stop ctx.file ts) : readParts ctx nested s ts = .ok (s, ts) := by
  unfold readParts
  cases nested with
  | false => rw [if_neg Bool.false_ne_true, read_of_stop s h]
  | true =>
    rw [if_pos rfl, readBranch_of_stop h]
    show Except.ok (s.addParameters [], ts) = _
    rw [addParameters_nil]

theorem readParts_cons_item (nested : Bool) (s : Scope) (line : Nat) (text : String)
    (ts : List Token) :
    readParts ctx nested s (⟨line, .item text⟩ :: ts) = readParts ctx nested s ts := by
  unfold readParts
  rw [readBranch, read_cons]

/-- What a declaration does to a scope. -/
theorem readParts_cons_declaration (nested : Bool) (s : Scope) (line : Nat) (text : String)
    (ts : List Token) :
    readParts ctx nested s (⟨line, .declaration text⟩ :: ts)
      = (((ctx.readDeclaration line text).map (·, ts)) >>= fun (declared, ts) =>
        match declared with
        | .parameter d => readParts ctx nested (s.addParameters d.visible) ts
        | .include spec =>
          if nested then .error (ctx.error (ctx.lineAt ts) .includeInBlock)
          else readParts ctx nested { s with includes := s.includes ++ [spec] } ts) := by
  unfold readParts
  cases nested with
  | false =>
    -- in a scope an include is noted:
    rw [if_neg Bool.false_ne_true, read_cons]
    dsimp only
    cases ctx.readDeclaration line text with
    | error e => rfl
    | ok declared => cases declared <;> rfl
  | true =>
    -- in a block it is an error:
    rw [if_pos rfl, readBranch]
    dsimp only
    cases ctx.readDeclaration line text with
    | error e => rfl
    | ok declared =>
      cases declared with
      | «include» spec => rfl
      | parameter d =>
        show (readBranch ctx ts >>= _).map _ = (readBranch ctx ts).map _
        cases readBranch ctx ts with
        | error e => rfl
        | ok later =>
          simp [Except.map, pure, Except.pure, ok_bind, Prod.map, addParameters_addParameters]

/-- What the branches of a block come to. -/
theorem readBranches_map (start : Nat) (found : List (List Declaration)) (ts : List Token) :
    (readBranches ctx start ts).map (Prod.map (found ++ ·) id)
      = (readBranch ctx ts >>= fun (ds, rest) =>
          match rest with
          | ⟨_, .keyword .or⟩ :: rest =>
            (readBranches ctx start rest).map (Prod.map (found ++ [ds] ++ ·) id)
          | ⟨_, .keyword .close⟩ :: rest => .ok (found ++ [ds], rest)
          | rest => .error (ctx.error (ctx.lineAt rest) (.unclosedOneOf start))) := by
  rw [readBranches_eq]
  cases readBranch ctx ts with
  | error e => rfl
  | ok result =>
    obtain ⟨ds, rest⟩ := result
    cases rest with
    | nil => rfl
    | cons t rest =>
      obtain ⟨line, kind⟩ := t
      cases kind with
      | keyword k =>
        cases k with
        | or =>
          show (readBranches ctx start rest >>= _).map _ = (readBranches ctx start rest).map _
          cases readBranches ctx start rest with
          | error e => rfl
          | ok later => simp [Except.map, ok_bind, Prod.map]
        | _ => rfl
      | _ => rfl

/-- What the scope behind a header comes to, and those behind it. -/
theorem readHeaded_header_map (file : String) (lastLine : Nat) (spec : Option String) (line : Nat)
    (name : String) (ts : List Token) (found : List Definition) :
    (readHeaded file lastLine spec (⟨line, .header name⟩ :: ts)).map (found ++ ·)
      = (read ⟨file, lastLine, some name⟩ empty ts >>= fun (s, rest) =>
        (readHeaded file lastLine (some name) rest).map
          (found ++ s.definitions name ⟨file, line⟩ ++ ·)) := by
  rw [readHeaded_cons]
  dsimp only
  cases read ⟨file, lastLine, some name⟩ empty ts with
  | error e => rfl
  | ok result =>
    rw [ok_bind, ok_bind]
    cases readHeaded file lastLine (some name) result.2 with
    | error e => rfl
    | ok later => simp [Except.map, ok_bind]

/-- A scope that does not end at once goes on beyond the first token. -/
theorem length_read_lt {s s' : Scope} {ts rest : List Token} (hgo : ¬ Token.Stop ctx.file ts)
    (h : read ctx s ts = .ok (s', rest)) : rest.length < ts.length := by
  rcases ts with _ | ⟨t, ts⟩
  · exact absurd (by simp [Token.Stop]) hgo
  rw [Token.stop_cons_iff, not_or] at hgo
  -- whatever begins here takes at least its first token:
  refine Nat.lt_succ_of_le ?_
  rw [read_cons] at h
  cases hk : t.kind with
  | header name => exact absurd ⟨name, hk⟩ hgo.1
  | blank | prose | item =>
    rw [hk] at h
    exact length_read h
  | declaration text =>
    rw [hk] at h
    obtain ⟨declared, -, h⟩ := bind_eq_ok.1 h
    cases declared <;> exact length_read h
  | keyword k =>
    rw [hk] at h
    cases k with
    | or | close | whenTrue | whenFalse => exact absurd ⟨_, hk, rfl⟩ hgo.2
    | oneOf =>
      obtain ⟨_, hblock, h⟩ := bind_eq_ok.1 h
      exact Nat.le_trans (length_read h) (length_readOneOf hblock)
    | condition =>
      obtain ⟨_, hblock, h⟩ := bind_eq_ok.1 h
      exact Nat.le_trans (length_read h) (length_readConditional hblock)
    | evaluators | keys | includes | dependencies =>
      obtain ⟨_, hlist, h⟩ := bind_eq_ok.1 h
      exact Nat.le_trans (length_read h) (length_readList hlist)

end Scope

namespace Scan

open Place

variable {lines : List CommentLine} {limit : Nat} {p : Place} {l : CommentLine} {ctx : ScopeContext}

/-! ## What is in a scope -/

/-- A stray word is one that ends a branch. -/
theorem strayWord?_eq_some {kind : LineKind} {k : Keyword} :
    strayWord? kind = some k ↔ kind = .keyword k ∧ k.endsBranch = true := by
  unfold strayWord?
  cases kind with
  | keyword k' => cases k' <;> cases k <;> simp [Keyword.endsBranch]
  | _ => simp

/-- Whether a scope ends can be seen at the line under the cursor. -/
theorem stop_tokens_iff (file : String) (hl : lines[p.pos]? = some l) :
    Token.Stop file (p.tokens lines) ↔
      (∃ name, l.kind = .header name) ∨ ∃ k, strayWord? l.kind = some k := by
  rw [tokens_of_some hl]
  cases l.kind <;> simp [Token.Stop, Token.mark?, Mark.stops, strayWord?]

/-- The cursor comes to the next mark before the rest is read. -/
theorem follows_advance_bind {α : Type} (hlimit : lines.length < limit) (hp : p.Within lines ctx)
    {x : Scan α} {reading : Except LoadError (α × List Token)}
    (h : ∀ q, q.Within lines ctx → q.tokens lines = fromFirstMark (p.tokens lines) →
      Follows lines x q reading) :
    Follows lines (advance lines limit >>= fun _ => x) p reading :=
  follows_bind_of_ends (ends_advance hlimit hp.sane) fun _ q hq =>
    ⟨h q (hp.reached hq.1) hq.2, hq.1⟩

/-- Do blocks end as they are read from the tokens behind the word that opens them? -/
def BlocksFollow (lines : List CommentLine) (ctx : ScopeContext) (readBlock : Keyword → Scan Part) :
    Prop :=
  ∀ (p : Place) (l : CommentLine), p.Within lines ctx → lines[p.pos]? = some l →
    Follows lines (readBlock .oneOf) p (Scope.readOneOf ctx l.number (p.next.tokens lines)) ∧
      Follows lines (readBlock .condition) p
        (Scope.readConditional ctx l.number (p.next.tokens lines))

/-- Is the rest of a scope read as from the tokens, wherever fewer are left than at a place? -/
def RestFollows (lines : List CommentLine) (limit : Nat) (ctx : ScopeContext)
    (readBlock? : Option (Keyword → Scan Part)) (rounds : Nat) (p : Place) : Prop :=
  ∀ (q : Place) (s : Scope), q.Within lines ctx →
    (fromFirstMark (q.tokens lines)).length < (p.tokens lines).length →
    Follows lines
      (advance lines limit >>= fun _ => readParts ctx.file lines limit readBlock? rounds s) q
      (Scope.readParts ctx readBlock?.isNone s (q.tokens lines))

section Parts

variable {readBlock? : Option (Keyword → Scan Part)} {rounds : Nat}

/-- At a line that ends the scope, its parts are given back as they are. -/
theorem follows_readParts_of_stop (hp : p.Within lines ctx) (hl : lines[p.pos]? = some l)
    (hstop : (∃ name, l.kind = .header name) ∨ ∃ k, strayWord? l.kind = some k) (s : Scope) :
    Follows lines (readParts ctx.file lines limit readBlock? (rounds + 1) s) p
      (Scope.readParts ctx readBlock?.isNone s (p.tokens lines)) := by
  rw [Scope.readParts_of_stop _ s ((stop_tokens_iff ctx.file hl).2 hstop), readParts,
    follows_get_bind, not_atEnd hl, if_neg Bool.false_ne_true, kind_of_some hl]
  rcases hstop with ⟨name, hk⟩ | ⟨k, hk⟩
  · rw [hk]
    exact follows_pure hp.sane s
  · obtain ⟨hk, hends⟩ := strayWord?_eq_some.1 hk
    rw [hk]
    cases k with
    | or | close | whenTrue | whenFalse => exact follows_pure hp.sane s
    | _ => cases hends

/-- A word opens a block or a list, which leaves fewer tokens than there are behind the word. -/
theorem follows_readParts_keyword {k : Keyword} (hlimit : lines.length < limit)
    (hblocks : ∀ readBlock ∈ readBlock?, BlocksFollow lines ctx readBlock)
    (hp : p.Within lines ctx) (hl : lines[p.pos]? = some l) (hk : l.kind = .keyword k)
    (hrest : RestFollows lines limit ctx readBlock? rounds p) (s : Scope) :
    Follows lines (readParts ctx.file lines limit readBlock? (rounds + 1) s) p
      (Scope.readParts ctx readBlock?.isNone s (p.tokens lines)) := by
  cases hends : k.endsBranch with
  | true =>
    exact follows_readParts_of_stop hp hl (.inr ⟨k, strayWord?_eq_some.2 ⟨hk, hends⟩⟩) s
  | false =>
    have htokens := tokens_of_keyword hl hk
    -- the word is taken, so fewer tokens are left from the next mark on:
    have hshorter : ∀ {q : Place}, (q.tokens lines).length ≤ (p.next.tokens lines).length →
        (fromFirstMark (q.tokens lines)).length < (p.tokens lines).length := by
      intro q hle
      have hfront := Token.length_fromFirstMark_le (q.tokens lines)
      rw [htokens, List.length_cons]
      omega
    have hfail := follows_fail (α := Scope) hp
    rw [htokens] at hfail
    rw [readParts, follows_get_bind, not_atEnd hl, if_neg Bool.false_ne_true, kind_of_some hl, hk,
      htokens]
    cases readBlock? with
    | none =>
      cases k with
      | or | close | whenTrue | whenFalse => cases hends
      | _ => exact hfail _
    | some readBlock =>
      rw [Scope.readParts, Option.isNone_some, if_neg Bool.false_ne_true, Scope.read_cons]
      cases k with
      | or | close | whenTrue | whenFalse => cases hends
      | oneOf =>
        refine (hblocks readBlock rfl p l hp hl).1.bind fun part q hq hread => ?_
        exact hrest q _ (hp.reached hq) (hshorter (Scope.length_readOneOf hread))
      | condition =>
        refine (hblocks readBlock rfl p l hp hl).2.bind fun part q hq hread => ?_
        exact hrest q _ (hp.reached hq) (hshorter (Scope.length_readConditional hread))
      | evaluators | keys | includes | dependencies =>
        refine (follows_readList hlimit hp hl).bind fun items q hq hread => ?_
        exact hrest q _ (hp.reached hq) (hshorter (Scope.length_readList hread))

/-- A declaration is added to the scope, and the scan goes on behind it. -/
theorem follows_readParts_declaration (hlimit : lines.length < limit) (hp : p.Within lines ctx)
    (hl : lines[p.pos]? = some l) (hk : l.kind = .declaration)
    (hrest : RestFollows lines limit ctx readBlock? rounds p) (s : Scope) :
    Follows lines (readParts ctx.file lines limit readBlock? (rounds + 1) s) p
      (Scope.readParts ctx readBlock?.isNone s (p.tokens lines)) := by
  have htokens := tokens_of_some hl
  rw [hk] at htokens
  rw [readParts, follows_get_bind, not_atEnd hl, if_neg Bool.false_ne_true, kind_of_some hl, hk,
    htokens, Scope.readParts_cons_declaration]
  refine (follows_readDeclaration hlimit hp hl).bind fun declared q hq hdeclared => ?_
  have hq := hp.reached hq
  have hshorter : (fromFirstMark (q.tokens lines)).length < (p.tokens lines).length := by
    obtain ⟨_, -, heq⟩ := map_eq_ok.1 hdeclared
    rw [← (Prod.mk.inj heq).2, htokens]
    exact Nat.lt_succ_of_le (Token.length_fromFirstMark_le _)
  cases declared with
  | parameter d => exact hrest q (s.addParameters d.visible) hq hshorter
  | «include» spec =>
    cases readBlock? with
    | none => exact follows_fail hq .includeInBlock
    | some readBlock => exact hrest q _ hq hshorter

/-- An item that no list has opened is skipped, as the prose behind it is. -/
theorem follows_readParts_item (hp : p.Within lines ctx) (hl : lines[p.pos]? = some l)
    (hk : l.kind = .item) (hrest : RestFollows lines limit ctx readBlock? rounds p) (s : Scope) :
    Follows lines (readParts ctx.file lines limit readBlock? (rounds + 1) s) p
      (Scope.readParts ctx readBlock?.isNone s (p.tokens lines)) := by
  have htokens := tokens_of_some hl
  rw [hk] at htokens
  have hfront := Token.fromFirstMark_dropProse (p.next.tokens lines)
  have hshorter : (fromFirstMark (p.next.tokens lines)).length < (p.tokens lines).length := by
    rw [htokens, ← hfront]
    exact Nat.lt_succ_of_le (Token.length_fromFirstMark_le _)
  have hskip := hrest p.next s (hp.reached (reached_next hp.sane hl)) hshorter
  rw [← Scope.readParts_fromFirstMark, ← hfront, Scope.readParts_fromFirstMark] at hskip
  rw [readParts, follows_get_bind, not_atEnd hl, if_neg Bool.false_ne_true, kind_of_some hl, hk,
    htokens, Scope.readParts_cons_item]
  exact follows_forward_bind hp.sane hl hskip

/-- What is in a scope is read as from the tokens. No block stands in another one. -/
theorem follows_readParts (hlimit : lines.length < limit)
    (hblocks : ∀ readBlock ∈ readBlock?, BlocksFollow lines ctx readBlock)
    (hp : p.Within lines ctx) (hmark : fromFirstMark (p.tokens lines) = p.tokens lines)
    (hrounds : (p.tokens lines).length < rounds) (s : Scope) :
    Follows lines (readParts ctx.file lines limit readBlock? rounds s) p
      (Scope.readParts ctx readBlock?.isNone s (p.tokens lines)) := by
  induction rounds generalizing p s with
  | zero => exact absurd hrounds (Nat.not_lt_zero _)
  | succ rounds ih =>
  -- what comes after one part is read in the rounds that are left:
  have hrest : RestFollows lines limit ctx readBlock? rounds p := by
    intro q s hq hshorter
    refine follows_advance_bind hlimit hq fun r hr htokens => ?_
    rw [← htokens] at hshorter
    have hfront := Token.fromFirstMark_eq_self htokens
    have hread := ih hr hfront (Nat.lt_of_lt_of_le hshorter (Nat.le_of_lt_succ hrounds)) s
    rwa [htokens, Scope.readParts_fromFirstMark] at hread
  cases hl : lines[p.pos]? with
  | none =>
    rw [tokens_of_none hl, Scope.readParts_of_stop _ s (by simp [Token.Stop]), readParts,
      follows_get_bind, if_pos (atEnd_iff.2 hl), ← tokens_of_none hl]
    exact follows_pure hp.sane s
  | some l =>
    cases hk : l.kind with
    | blank | prose =>
      rw [tokens_of_some hl, hk] at hmark
      exact absurd rfl (Token.not_isUnmarked hmark)
    | header name => exact follows_readParts_of_stop hp hl (.inl ⟨name, hk⟩) s
    | keyword k => exact follows_readParts_keyword hlimit hblocks hp hl hk hrest s
    | declaration => exact follows_readParts_declaration hlimit hp hl hk hrest s
    | item => exact follows_readParts_item hp hl hk hrest s

end Parts

/-- A branch of a block is read by the loop that reads a scope, with no block allowed in it. -/
theorem follows_readBranch (hlimit : lines.length < limit) (hp : p.Within lines ctx) :
    Follows lines (readBranch ctx.file lines limit) p (Scope.readBranch ctx (p.tokens lines)) := by
  have hscope : Scope.readBranch ctx (p.tokens lines)
      = (Scope.readParts ctx true .empty (p.tokens lines) >>= fun (s, rest) =>
        .ok (s.parameters, rest)) := by
    rw [Scope.readParts, if_pos rfl]
    cases Scope.readBranch ctx (p.tokens lines) <;> rfl
  rw [readBranch, readScope, bind_assoc, hscope]
  refine follows_advance_bind hlimit hp fun q hq htokens => ?_
  have hfront := Token.fromFirstMark_eq_self htokens
  have hblocks : ∀ readBlock ∈ (none : Option (Keyword → Scan Part)),
      BlocksFollow lines ctx readBlock := fun readBlock h => absurd h (Option.not_mem_none _)
  have hparts := follows_readParts hlimit hblocks hq hfront (length_tokens_lt hlimit) .empty
  rw [htokens, Scope.readParts_fromFirstMark] at hparts
  rw [readHeader, if_pos Option.isNone_none, pure_bind, bind_assoc]
  exact hparts.bind fun s r hr _ => follows_pure hr.sane _

/-! ## Blocks -/

/-- The branches of a choice are read until its end. The induction is on the rounds that are left.
-/
theorem follows_readBranches (hlimit : lines.length < limit) (hp : p.Within lines ctx)
    (hl : lines[p.pos]? = some l) {rounds : Nat} (hrounds : (p.next.tokens lines).length < rounds)
    (start : Nat) (found : List (List Declaration)) :
    Follows lines (readBranches ctx.file lines limit start rounds found) p
      ((Scope.readBranches ctx start (p.next.tokens lines)).map (Prod.map (found ++ ·) id)) := by
  induction rounds generalizing p l found with
  | zero => exact absurd hrounds (Nat.not_lt_zero _)
  | succ rounds ih =>
  have hnext := hp.reached (reached_next hp.sane hl)
  rw [readBranches, Scope.readBranches_map]
  refine follows_forward_bind hp.sane hl ((follows_readBranch hlimit hnext).bind ?_)
  intro ds q hq hread
  have hq := hnext.reached hq
  have hfail := follows_fail (α := List (List Declaration)) hq (.unclosedOneOf start)
  rw [follows_get_bind]
  cases hlq : lines[q.pos]? with
  | none =>
    rw [kind_of_none hlq, if_neg (by simp), if_neg (by simp)]
    rw [tokens_of_none hlq] at hfail ⊢
    exact hfail
  | some m =>
    have htokens := tokens_of_some hlq
    rw [not_atEnd hlq, kind_of_some hlq]
    cases hk : m.kind with
    | keyword k =>
      rw [hk] at htokens
      rw [htokens] at hfail hread ⊢
      cases k with
      -- one more branch begins, or the block ends, or the word has no place here:
      | or =>
        have hshorter : (q.next.tokens lines).length < rounds :=
          Nat.lt_of_lt_of_le (Scope.length_readBranch hread) (Nat.le_of_lt_succ hrounds)
        rw [if_pos ⟨rfl, rfl⟩]
        exact ih hq hlq hshorter (found ++ [ds])
      | close =>
        rw [if_neg (by simp), if_pos ⟨rfl, rfl⟩]
        exact follows_forward_bind hq.sane hlq (follows_pure (reached_next hq.sane hlq).sane _)
      | _ =>
        rw [if_neg (by simp), if_neg (by simp)]
        exact hfail
    | _ =>
      rw [hk] at htokens
      rw [if_neg (by simp), if_neg (by simp), htokens]
      rw [htokens] at hfail
      exact hfail

/-- A choice is read from the line behind its keyword. -/
theorem follows_readOneOf (hlimit : lines.length < limit) (hp : p.Within lines ctx)
    (hl : lines[p.pos]? = some l) :
    Follows lines (readOneOf ctx.file lines limit) p
      (Scope.readOneOf ctx l.number (p.next.tokens lines)) := by
  have hbranches := follows_readBranches hlimit hp hl (length_tokens_lt hlimit) l.number []
  rw [map_nil_append] at hbranches
  rw [readOneOf, follows_get_bind, line_of_some hl]
  refine hbranches.bind fun branches q hq _ => ?_
  have hfew : (branches.length < 2 ∨ branches.any List.isEmpty = true)
      ↔ branches.length < 2 ∨ [] ∈ branches := by simp
  dsimp only
  by_cases h : branches.length < 2 ∨ [] ∈ branches
  · rw [if_pos h, if_pos (hfew.2 h)]
    exact follows_failAt (hp.reached hq) _ _
  · rw [if_neg h, if_neg (mt hfew.1 h)]
    exact follows_pure hq.sane _

/-- One branch of a conditional is read after its keyword. -/
theorem follows_readBranchAfter (hlimit : lines.length < limit) (hp : p.Within lines ctx)
    (k : Keyword) :
    Follows lines (readBranchAfter ctx.file lines limit k) p
      (Scope.readBranchAfter ctx k (p.tokens lines)) := by
  have hnone : Follows lines (pure ([] : List Declaration)) p (.ok ([], p.tokens lines)) :=
    follows_pure hp.sane []
  rw [readBranchAfter, follows_get_bind]
  cases hl : lines[p.pos]? with
  | none =>
    rw [kind_of_none hl, if_neg (by simp)]
    rw [tokens_of_none hl] at hnone ⊢
    exact hnone
  | some l =>
    rw [not_atEnd hl, kind_of_some hl]
    by_cases hk : l.kind = .keyword k
    · have htokens := tokens_of_some hl
      rw [hk] at htokens
      rw [if_pos ⟨hk, rfl⟩, htokens, Scope.readBranchAfter, if_pos rfl]
      exact follows_forward_bind hp.sane hl
        (follows_readBranch hlimit (hp.reached (reached_next hp.sane hl)))
    · obtain ⟨t, rest, htokens, hkeyword⟩ := exists_token hl
      rw [if_neg fun h => hk h.1, htokens, Scope.readBranchAfter,
        if_neg fun h => hk ((hkeyword k).1 h)]
      rwa [htokens] at hnone

/-- A block is closed if the word for it is at the cursor. -/
theorem follows_close (hp : p.Within lines ctx) (part : Part) (problem : LoadProblem) :
    Follows lines
      (if p.atEnd lines ∨ p.kind lines ≠ .keyword .close then
        fail ctx.file lines problem
      else do
        forward
        return part) p
      (match p.tokens lines with
        | ⟨_, .keyword .close⟩ :: rest => .ok (part, rest)
        | rest => .error (ctx.error (ctx.lineAt rest) problem)) := by
  have hfail := follows_fail (α := Part) hp problem
  cases hl : lines[p.pos]? with
  | none =>
    rw [if_pos (.inl (atEnd_iff.2 hl))]
    rw [tokens_of_none hl] at hfail ⊢
    exact hfail
  | some l =>
    rw [not_atEnd hl, kind_of_some hl]
    by_cases hk : l.kind = .keyword .close
    · have htokens := tokens_of_some hl
      rw [hk] at htokens
      rw [if_neg (by simp [hk]), htokens]
      exact follows_forward_bind hp.sane hl (follows_pure (reached_next hp.sane hl).sane part)
    · obtain ⟨t, rest, htokens, hkeyword⟩ := exists_token hl
      rw [if_pos (.inr hk), htokens]
      rw [htokens] at hfail
      split
      · next heq => exact absurd ((hkeyword .close).1 (by rw [(List.cons.inj heq).1])) hk
      · exact hfail

/-- A conditional is read from the line behind its keyword, both branches and the end. -/
theorem follows_readConditional (hlimit : lines.length < limit) (hp : p.Within lines ctx)
    (hl : lines[p.pos]? = some l) :
    Follows lines (readConditional ctx.file lines limit) p
      (Scope.readConditional ctx l.number (p.next.tokens lines)) := by
  have hnext := hp.reached (reached_next hp.sane hl)
  rw [readConditional, follows_get_bind, line_of_some hl]
  refine follows_forward_bind hp.sane hl ((follows_readBranch hlimit hnext).bind ?_)
  intro ds q hq _
  have hq := hnext.reached hq
  rcases ds with _ | ⟨condition, _ | ⟨_, _⟩⟩
  · exact follows_failAt hq _ _
  · dsimp only
    split
    · exact follows_failAt hq _ _
    · refine (follows_readBranchAfter hlimit hq .whenTrue).bind fun yes r hr _ => ?_
      have hr := hq.reached hr
      refine (follows_readBranchAfter hlimit hr .whenFalse).bind fun no u hu _ => ?_
      rw [follows_get_bind]
      exact follows_close (hr.reached hu) _ _
  · exact follows_failAt hq _ _

/-! ## Scopes -/

/-- Both kinds of blocks follow their readings. -/
theorem blocksFollow_readBlock (hlimit : lines.length < limit) :
    BlocksFollow lines ctx (readBlock ctx.file lines limit) := fun _ _ hp hl => by
  rw [readBlock, readBlock, if_pos rfl, if_neg (by decide)]
  exact ⟨follows_readOneOf hlimit hp hl, follows_readConditional hlimit hp hl⟩

/-- What is in a scope outside of blocks is read as from the tokens. -/
theorem follows_readParts_outside (hlimit : lines.length < limit) (hp : p.Within lines ctx)
    (hmark : fromFirstMark (p.tokens lines) = p.tokens lines) (s : Scope) :
    Follows lines
      (readParts ctx.file lines limit (some (readBlock ctx.file lines limit)) limit s) p
      (Scope.read ctx s (p.tokens lines)) := by
  refine follows_readParts hlimit (fun readBlock h => ?_) hp hmark (length_tokens_lt hlimit) s
  obtain rfl := Option.mem_some.1 h
  exact blocksFollow_readBlock hlimit

/-! ## Rounds over a file -/

variable (file stem : String)

/-- What a scope is read with at the top of a file. -/
def context (lines : List CommentLine) (spec : Option String) : ScopeContext :=
  ⟨file, lastNumber lines, spec⟩

/-- Does a scan go beyond a place and read a scope there, from some tokens and under some name? -/
def Opens {α : Type} (lines : List CommentLine) (spec : Option String) (ts : List Token)
    (x : Scan α) (p : Place) (value : Scope → α) : Prop :=
  Ends x p
    (fun a q => q.Sane lines.length ∧ p.pos < q.pos ∧ q.spec = spec ∧ ∃ s,
      Scope.read (context file lines spec) .empty ts = .ok (s, q.tokens lines) ∧ a = value s)
    fun h q => q.Sane lines.length ∧ ∃ e,
      Scope.read (context file lines spec) .empty ts = .error e ∧ h = .failed e

/-- A header is read, and the cursor is behind it, at the first mark that follows. -/
theorem ends_readHeader {name : String} (hlimit : lines.length < limit) (hp : p.Sane lines.length)
    (hl : lines[p.pos]? = some l) (hk : l.kind = .header name) :
    Ends (readHeader lines limit false) p
      (fun header q => header = some (name, l.number) ∧
        q.Within lines (context file lines (some name)) ∧ p.pos < q.pos ∧
        q.tokens lines = fromFirstMark (p.next.tokens lines))
      fun _ _ => False := by
  let named : Place := { p with spec := some name }
  have hnamed : named.Within lines (context file lines (some name)) :=
    ⟨⟨hp.inside, hp.trail, hp.rounds⟩, rfl, rfl⟩
  have hnext := hnamed.reached (reached_next hnamed.sane hl)
  rw [readHeader, if_neg Bool.false_ne_true, ends_bind, ends_get, kind_of_some hl, hk]
  simp only [ends_bind, ends_modify, ends_forward]
  refine (ends_advance hlimit hnext.sane).mono (fun _ q hq => ?_) fun _ _ h => h
  have hlt : p.pos < q.pos := hq.1.le
  exact ⟨by rw [line_of_some hl], hnext.reached hq.1, hlt, hq.2⟩

/-- A scope with a header is opened and read. -/
theorem opens_readScope_header {name : String} (hlimit : lines.length < limit)
    (hp : p.Sane lines.length) (hl : lines[p.pos]? = some l) (hk : l.kind = .header name) :
    Opens file lines (some name) (p.next.tokens lines) (readOuterScope file lines limit)
      { p with spec := none } fun s => (some (name, l.number), s) := by
  have hmark : fromFirstMark (p.tokens lines) = p.tokens lines := by
    rw [tokens_of_header hl hk]
    rfl
  have hheader := ends_readHeader file hlimit (p := { p with spec := none })
    ⟨hp.inside, hp.trail, hp.rounds⟩ hl hk
  rw [Opens, readOuterScope, readScope, ends_bind,
    ends_advance_of_mark (p := { p with spec := none }) hlimit hmark, ends_bind]
  refine hheader.mono (fun header q hq => ?_) fun _ _ h => h.elim
  obtain ⟨rfl, hwithin, hlt, htokens⟩ := hq
  have hfront := Token.fromFirstMark_eq_self htokens
  have hparts := follows_readParts_outside hlimit hwithin hfront .empty
  rw [htokens, Scope.read_fromFirstMark] at hparts
  rw [ends_bind]
  refine hparts.mono (fun s r hr => ?_) fun _ _ h => h
  have hreached := hwithin.reached hr.1
  exact ⟨hreached.sane, Nat.lt_of_lt_of_le hlt hr.1.le, hreached.spec, s, hr.2, rfl⟩

/-- Lines in front of the first header are read as a scope of the file. -/
theorem opens_readScope_headerless (hlimit : lines.length < limit) (hp : p.Sane lines.length)
    (hspec : p.spec = none) (hl : lines[p.pos]? = some l)
    (hmark : fromFirstMark (p.tokens lines) = p.tokens lines)
    (hgo : ¬ Token.Stop file (p.tokens lines)) :
    Opens file lines none (p.tokens lines) (readOuterScope file lines limit) p
      fun s => (none, s) := by
  have hwithin : p.Within lines (context file lines none) := ⟨hp, rfl, hspec⟩
  have hnone : ∀ {ok : Option (String × Nat) → Place → Prop} {halt : EarlyEnd → Place → Prop},
      ok none p → Ends (readHeader lines limit false) p ok halt := by
    intro ok halt h
    rw [readHeader, if_neg Bool.false_ne_true, ends_bind, ends_get, kind_of_some hl]
    split
    · next name hk => exact absurd ((stop_tokens_iff file hl).2 (.inl ⟨name, hk⟩)) hgo
    · exact h
  rw [Opens, readOuterScope, readScope, ends_bind, ends_advance_of_mark hlimit hmark, ends_bind]
  refine hnone ?_
  rw [ends_bind]
  refine (follows_readParts_outside hlimit hwithin hmark .empty).mono (fun s q hq => ?_)
    fun _ _ h => h
  have hreached := hwithin.reached hq.1
  refine ⟨hreached.sane, ?_, hreached.spec, s, hq.2, rfl⟩
  -- fewer tokens are left, so the cursor has moved
  have hgo : ¬ Token.Stop (context file lines none).file (p.tokens lines) := hgo
  have hlength : (q.tokens lines).length < (p.tokens lines).length :=
    Scope.length_read_lt hgo hq.2
  refine Nat.lt_of_le_of_ne hq.1.le fun heq => ?_
  have hsame : q.tokens lines = p.tokens lines := by rw [tokens, tokens, heq]
  rw [hsame] at hlength
  exact Nat.lt_irrefl _ hlength

/-- **A round moves the cursor**, so it never has to be moved afterwards. -/
theorem opens_readRound {spec : Option String} {ts : List Token} {header : Option (String × Nat)}
    (h : Opens file lines spec ts (readOuterScope file lines limit) { p with spec := none }
      fun s => (header, s)) :
    Opens file lines spec ts (readRound file lines limit stem) p fun s =>
      s.definitions (header.getD (Naming.ofStem stem, p.line lines)).1
        ⟨file, (header.getD (Naming.ofStem stem, p.line lines)).2⟩ := by
  simp only [Opens, readRound, ends_bind, ends_get, ends_modify]
  refine h.mono ?_ fun _ _ h => h
  rintro _ q ⟨hq, hlt, hspec, s, hread, rfl⟩
  have hlt : p.pos < q.pos := hlt
  have hsane : (q.endRound p.pos).Sane lines.length :=
    ⟨hq.inside, hq.trail, List.forall_mem_cons.2 ⟨hlt, hq.rounds⟩⟩
  rw [if_neg (show ¬ (q.endRound p.pos).pos = p.pos from Nat.ne_of_gt hlt)]
  exact ⟨hsane, hlt, hspec, s, hread, rfl⟩

/-! ## Files -/

/-- Does a scan from a place end with an answer, or with its error? -/
def Answers {α : Type} (lines : List CommentLine) (x : Scan α) (p : Place)
    (answer : Except LoadError α) : Prop :=
  Ends x p (fun a q => q.Sane lines.length ∧ answer = .ok a)
    fun h q => q.Sane lines.length ∧ ∃ e, answer = .error e ∧ h = .failed e

variable {file stem}

/-- A scope is read, and then the rest. -/
theorem Opens.bind {α β : Type} {spec : Option String} {ts : List Token} {x : Scan α}
    {value : Scope → α} (hx : Opens file lines spec ts x p value) {f : α → Scan β}
    {next : Scope × List Token → Except LoadError β}
    (hf : ∀ s q, q.Sane lines.length → q.spec = spec →
      Scope.read (context file lines spec) .empty ts = .ok (s, q.tokens lines) →
      Answers lines (f (value s)) q (next (s, q.tokens lines))) :
    Answers lines (x >>= f) p (Scope.read (context file lines spec) .empty ts >>= next) := by
  rw [Answers, ends_bind]
  refine hx.mono (fun a q hq => ?_) fun h q hq => ?_
  · obtain ⟨hsane, -, hspec, s, hread, rfl⟩ := hq
    rw [hread]
    exact hf s q hsane hspec hread
  · obtain ⟨hsane, e, hread, rfl⟩ := hq
    rw [hread]
    exact ⟨hsane, e, rfl, rfl⟩

/-- The scopes that headers open are read round by round. -/
theorem answers_headed (hlimit : lines.length < limit) (hp : p.Sane lines.length)
    (hstop : Token.Stop file (fromFirstMark (p.tokens lines))) {rounds : Nat}
    (hrounds : (p.tokens lines).length < rounds) (found : List Definition) :
    Answers lines (readRounds file lines limit stem rounds found) p
      ((Scope.readHeaded file (lastNumber lines) p.spec (p.tokens lines)).map (found ++ ·)) := by
  induction rounds generalizing p found with
  | zero => exact absurd hrounds (Nat.not_lt_zero _)
  | succ rounds ih =>
  rw [Answers, readRounds, ends_bind, ← Scope.readHeaded_fromFirstMark]
  refine (ends_advance hlimit hp).mono (fun _ q hq => ?_) fun _ _ h => h.elim
  obtain ⟨hreached, htokens⟩ := hq
  rw [← htokens] at hstop ⊢
  rw [← hreached.spec, ends_bind, ends_get]
  cases hl : lines[q.pos]? with
  | none =>
    rw [if_pos (atEnd_iff.2 hl), tokens_of_none hl, Scope.readHeaded]
    exact ⟨hreached.sane, by simp [Except.map]⟩
  | some l =>
    rw [not_atEnd hl, if_neg Bool.false_ne_true, kind_of_some hl]
    -- a header opens the next scope, a stray word ends the file with an error:
    rcases (stop_tokens_iff file hl).1 hstop with ⟨name, hk⟩ | ⟨k, hstray⟩
    · have hround := opens_readRound file stem
        (opens_readScope_header file hlimit hreached.sane hl hk)
      have hheader := tokens_of_header hl hk
      rw [hk, hheader, Scope.readHeaded_header_map]
      refine hround.bind fun s r hr hspec hread => ?_
      -- the header is read with its scope, so fewer tokens are left:
      have hshorter : (r.tokens lines).length < rounds := by
        have hlength := Scope.length_read hread
        have hle := Token.length_fromFirstMark_le (p.tokens lines)
        rw [← htokens, hheader, List.length_cons] at hle
        exact Nat.lt_of_lt_of_le (Nat.lt_of_le_of_lt hlength hle) (Nat.le_of_lt_succ hrounds)
      obtain ⟨_, -, -, hstops⟩ := Scope.reads_of_read hread
      rw [← hspec]
      exact ih hr hstops.fromFirstMark hshorter _
    · obtain ⟨hk, -⟩ := strayWord?_eq_some.1 hstray
      have hwithin : q.Within lines (context file lines q.spec) := ⟨hreached.sane, rfl, rfl⟩
      have hfail := follows_fail (α := List Definition) hwithin (.strayKeyword k)
      rw [tokens_of_keyword hl hk] at hfail
      rw [hstray, tokens_of_keyword hl hk, Scope.readHeaded_cons]
      refine hfail.mono (fun _ _ h => by cases h.2) fun _ _ h => ?_
      obtain ⟨hsane, e, herror, hhalt⟩ := h
      cases herror
      exact ⟨hsane, _, rfl, hhalt⟩

/-- A scan of a whole file ends with the answer that reading its tokens gives. -/
theorem answers_readRounds (file stem : String) (hlimit : lines.length < limit) :
    Answers lines (readRounds file lines limit stem limit []) Place.first
      (Definition.readLines file stem lines) := by
  have hlines : Token.ofLines lines = Place.first.tokens lines := rfl
  by_cases hstop : Token.Stop file (fromFirstMark (Token.ofLines lines))
  · -- nothing stands above the first header
    rw [Definition.readLines, Scope.readAll_of_stop stem _ hstop]
    exact answers_headed hlimit Sane.first hstop (length_tokens_lt hlimit) []
  · have hfirst : (Place.first.tokens lines).length < limit := length_tokens_lt hlimit
    -- the first round reads the lines above the first header:
    obtain ⟨rounds, hrounds⟩ := Nat.exists_eq_succ_of_ne_zero (Nat.ne_zero_of_lt hlimit)
    have hscan : readRounds file lines limit stem limit []
        = readRounds file lines limit stem (rounds + 1) [] := by rw [← Nat.succ_eq_add_one, ← hrounds]
    rw [Definition.readLines, Scope.readAll_eq, Answers, hscan, readRounds, ends_bind]
    refine (ends_advance hlimit Sane.first).mono (fun _ q hq => ?_) fun _ _ h => h.elim
    obtain ⟨hreached, htokens⟩ := hq
    rw [hlines, ← htokens] at hstop ⊢
    rw [ends_bind, ends_get]
    cases hl : lines[q.pos]? with
    | none =>
      rw [tokens_of_none hl] at hstop
      exact absurd (by simp [Token.Stop]) hstop
    | some l =>
      have hstray : strayWord? l.kind = none :=
        Option.eq_none_iff_forall_ne_some.2 fun k h =>
          hstop ((stop_tokens_iff file hl).2 (.inr ⟨k, h⟩))
      have hmark := Token.fromFirstMark_eq_self htokens
      have hround := opens_readRound file stem
        (opens_readScope_headerless file hlimit (p := { q with spec := none })
          ⟨hreached.sane.inside, hreached.sane.trail, hreached.sane.rounds⟩ rfl hl hmark hstop)
      rw [not_atEnd hl, if_neg Bool.false_ne_true, kind_of_some hl, hstray]
      refine hround.bind fun s r hr hspec hread => ?_
      obtain ⟨_, -, -, hstops⟩ := Scope.reads_of_read hread
      have hshorter : (r.tokens lines).length < rounds := by
        have hgo : ¬ Token.Stop (context file lines none).file (q.tokens lines) := hstop
        have hlength : (r.tokens lines).length < (q.tokens lines).length :=
          Scope.length_read_lt hgo hread
        have hle := Token.length_fromFirstMark_le (Place.first.tokens lines)
        rw [← htokens] at hle
        omega
      have hline : q.line lines = (context file lines none).lineAt (q.tokens lines) :=
        line_eq_lineAt rfl
      have hlater : ∀ ds : List Definition, ∀ x : Except LoadError (List Definition),
          (x >>= fun later => .ok (ds ++ later)) = x.map ([] ++ ds ++ ·) :=
        fun ds x => by cases x <;> rfl
      dsimp only
      rw [hlater, ← hspec]
      show Answers lines (readRounds file lines limit stem rounds
        ([] ++ s.definitions (Naming.ofStem stem) ⟨file, q.line lines⟩)) r _
      rw [hline]
      -- all further rounds begin with a header:
      exact answers_headed hlimit hr hstops.fromFirstMark hshorter _

/-- **A scan by the cursor ends**, whatever the comment lines are: no loop goes round more than once
for each line and once more. It ends with the answer that reading the tokens of the lines gives, so
that no line was looked for that is not there. The cursor has never gone back, and never left the
lines. Every round over the file that came to its end has moved the cursor by itself. -/
theorem readFile_ends (file stem : String) {lines : List CommentLine} {limit : Nat}
    (hlimit : lines.length < limit) :
    ∃ outcome place, readFile file lines limit stem = some (outcome, place) ∧
      outcome = (Definition.readLines file stem lines).mapError .failed ∧
      (place.pos :: place.trail).Pairwise (· ≥ ·) ∧
      (∀ pos ∈ place.pos :: place.trail, pos ≤ lines.length) ∧
      ∀ round ∈ place.rounds, round.1 < round.2 := by
  have hanswer := answers_readRounds file stem hlimit
  have hbounds : ∀ {place : Place}, place.Sane lines.length →
      ∀ pos ∈ place.pos :: place.trail, pos ≤ lines.length := fun h pos hpos => by
    rcases List.mem_cons.1 hpos with rfl | hpos
    · exact h.inside
    · exact Nat.le_trans ((List.pairwise_cons.1 h.trail).1 pos hpos) h.inside
  unfold Answers Ends at hanswer
  unfold readFile
  split at hanswer
  · exact hanswer.elim
  · next ds place hrun =>
    obtain ⟨hsane, hread⟩ := hanswer
    exact ⟨_, place, hrun, by rw [hread]; rfl, hsane.trail, hbounds hsane, hsane.rounds⟩
  · next h place hrun =>
    obtain ⟨hsane, e, hread, rfl⟩ := hanswer
    exact ⟨_, place, hrun, by rw [hread]; rfl, hsane.trail, hbounds hsane, hsane.rounds⟩

/-- A list and a stray item above the first header, a scope, and another one that ends in an open
block. -/
def exampleOpen : List CommentLine :=
  CommentLine.numbered ["- `\"a`\"", "EVALUATORS", "", "- `\"b`\"", "``[c-spec]``",
    "* `\"d`\" ``[int]``", "``[e-spec]``", "ONE OF", "* `\"f`\" ``[int]``", "which way"]

theorem readFile_ends_exampleOpen :
    exampleOpen.length < 11 ∧ ∃ place,
      readFile "example.hh" exampleOpen 11 "example"
        = some (.error (.failed ⟨some "e-spec", "example.hh", 10, .unclosedOneOf 8⟩), place) ∧
      (place.pos :: place.trail).Pairwise (· ≥ ·) ∧
      (∀ pos ∈ place.pos :: place.trail, pos ≤ 10) ∧
      place.rounds = [(4, 6), (0, 4)] ∧ ∀ round ∈ place.rounds, round.1 < round.2 := by
  have hlimit : exampleOpen.length < 11 := by decide
  have hread : Definition.readLines "example.hh" "example" exampleOpen
      = .error ⟨some "e-spec", "example.hh", 10, .unclosedOneOf 8⟩ := by decide +kernel
  -- two rounds come to their end before the third one fails
  have hrounds : (readFile "example.hh" exampleOpen 11 "example").map (·.2.rounds)
      = some [(4, 6), (0, 4)] := by decide +kernel
  obtain ⟨outcome, place, hrun, houtcome, htrail, hinside, hmoved⟩ :=
    readFile_ends "example.hh" "example" hlimit
  rw [hrun] at hrounds
  rw [houtcome, hread] at hrun
  exact ⟨hlimit, place, hrun, htrail, hinside, Option.some.inj hrounds, hmoved⟩

end Scan

end SpecTree
