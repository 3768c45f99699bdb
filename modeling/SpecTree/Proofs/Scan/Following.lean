import Mathlib.Data.List.DropRight
import SpecTree.Proofs.Scan.Append
import SpecTree.Proofs.Scan.Cursor
import SpecTree.Proofs.Scan.Steps

/-!
# Scans and readings

A scan by the cursor does what reading the tokens does: it ends, with the same value or the same error,
and the cursor stands before the tokens that are left. Main statements:

* `ends_bind`: how one scan after the other ends;
* `Sane.next`, `Reached.trans`: a cursor that moves inside the lines keeps its trail in order;
* `ends_advance`, `ends_gather`: single lines, and the prose behind them;
* `Follows.bind`: scans one after the other follow readings one after the other;
* `follows_readDeclaration`, `follows_readList`: declarations and lists.
-/

namespace SpecTree

open Token (fromFirstMark)

namespace Scan

/-! ## How a scan ends -/

/-- A scan from a place ends, with a value and in a place of which `ok` holds, or early, for a reason
and in a place of which `halt` holds. -/
def Ends {α : Type} (x : Scan α) (p : Place) (ok : α → Place → Prop) (halt : EarlyEnd → Place → Prop) :
    Prop :=
  match x.run.run p with
  | none => False
  | some (.ok a, q) => ok a q
  | some (.error h, q) => halt h q

section Ends

variable {α β : Type} {p : Place} {ok : α → Place → Prop} {halt : EarlyEnd → Place → Prop}

@[simp] theorem ends_pure (a : α) : Ends (pure a) p ok halt ↔ ok a p := Iff.rfl

@[simp] theorem ends_get {ok : Place → Place → Prop} : Ends get p ok halt ↔ ok p p := Iff.rfl

@[simp] theorem ends_modify (f : Place → Place) {ok : PUnit → Place → Prop} :
    Ends (modify f) p ok halt ↔ ok ⟨⟩ (f p) := Iff.rfl

/-- One scan after the other. -/
@[simp] theorem ends_bind (x : Scan α) (f : α → Scan β) {ok : β → Place → Prop} :
    Ends (x >>= f) p ok halt ↔ Ends x p (fun a q => Ends (f a) q ok halt) halt := by
  have hrun : (x >>= f).run.run p = (x.run.run p >>= fun (r, q) =>
      match r with
      | .ok a => (f a).run.run q
      | .error h => some (.error h, q)) := by
    show (x.run.run p >>= _) = _
    congr 1
    funext (r, q)
    cases r <;> rfl
  unfold Ends
  rw [hrun]
  cases x.run.run p with
  | none => exact Iff.rfl
  | some result =>
    obtain ⟨r, q⟩ := result
    cases r <;> exact Iff.rfl

/-- What is known of the end of a scan may be weakened. -/
theorem Ends.mono {x : Scan α} {ok' : α → Place → Prop} {halt' : EarlyEnd → Place → Prop}
    (h : Ends x p ok halt) (hok : ∀ a q, ok a q → ok' a q) (hhalt : ∀ e q, halt e q → halt' e q) :
    Ends x p ok' halt' := by
  unfold Ends at h ⊢
  split at h
  · exact h
  · exact hok _ _ h
  · exact hhalt _ _ h

/-- The cursor goes forward by one line. -/
@[simp] theorem ends_forward {ok : PUnit → Place → Prop} : Ends forward p ok halt ↔ ok ⟨⟩ p.next :=
  Iff.rfl

end Ends

end Scan

namespace Token

/-- A line makes at most one token. -/
theorem length_ofLines_le (lines : List CommentLine) : (ofLines lines).length ≤ lines.length := by
  induction lines with
  | nil => exact Nat.le_refl _
  | cons line lines ih =>
    have hprose : ((ofLines lines).dropWhile (·.proseText?.isSome)).length ≤ lines.length :=
      Nat.le_trans (List.dropWhile_suffix _).length_le ih
    rw [ofLines]
    cases LineKind.ofText line.text with
    | declaration | item => exact Nat.succ_le_succ hprose
    | blank | prose | header | keyword => exact Nat.succ_le_succ ih

/-- The search for a mark only leaves tokens out. -/
theorem length_fromFirstMark_le (ts : List Token) : (fromFirstMark ts).length ≤ ts.length :=
  (List.dropWhile_suffix _).length_le

/-- At the first mark there is nothing to skip. -/
theorem fromFirstMark_eq_self {us ts : List Token} (h : us = fromFirstMark ts) :
    fromFirstMark us = us := by
  rw [h]
  exact List.dropWhile_idempotent _ ts

/-- Prose in front of a mark is passed over anyway. -/
theorem fromFirstMark_dropProse (ts : List Token) :
    fromFirstMark (ts.dropWhile (·.proseText?.isSome)) = fromFirstMark ts :=
  fromFirstMark_dropWhile (fun t ht => by simp [isUnmarked, ht]) ts

/-- What comes first after the tokens without a mark were skipped has one. -/
theorem not_isUnmarked {t : Token} {ts : List Token} (h : fromFirstMark (t :: ts) = t :: ts) :
    ¬ t.isUnmarked := by
  intro ht
  rw [fromFirstMark_cons, if_pos ht] at h
  have hlength := congrArg List.length h
  have hle := length_fromFirstMark_le ts
  rw [List.length_cons] at hlength
  omega

/-- A scope ends at a header, or at a word that ends a branch. -/
theorem stop_cons_iff {file : String} {t : Token} {ts : List Token} : Stop file (t :: ts) ↔
    (∃ name, t.kind = .header name) ∨ ∃ k, t.kind = .keyword k ∧ k.endsBranch = true := by
  unfold Stop mark?
  cases hk : t.kind <;> simp [hk, Mark.stops]

/-- A scope that ends before some tokens ends before their first mark. -/
theorem Stop.fromFirstMark {file : String} {ts : List Token} (h : Stop file ts) :
    Stop file (fromFirstMark ts) := by
  cases ts with
  | nil => exact h
  | cons t ts =>
    obtain ⟨m, hm, -⟩ := h t rfl
    have hmark : ¬ t.isUnmarked := fun hunmarked => by
      rw [mark?_eq_none.2 hunmarked] at hm
      cases hm
    rwa [fromFirstMark_cons, if_neg hmark]

end Token

namespace Place

/-! ## Lines at the cursor -/

variable {lines : List CommentLine} {p : Place} {l : CommentLine}

/-- The tokens from the cursor on. -/
def tokens (lines : List CommentLine) (p : Place) : List Token := Token.ofLines (lines.drop p.pos)

/-- No more tokens are left than there are lines. -/
theorem length_tokens_lt {limit : Nat} (hlimit : lines.length < limit) :
    (p.tokens lines).length < limit := by
  have hdrop := Token.length_ofLines_le (lines.drop p.pos)
  rw [List.length_drop] at hdrop
  exact Nat.lt_of_le_of_lt (Nat.le_trans hdrop (Nat.sub_le _ _)) hlimit

/-- The cursor is at the end exactly if there is no line under it. -/
theorem atEnd_iff : p.atEnd lines = true ↔ lines[p.pos]? = none := by
  rw [atEnd, decide_eq_true_iff, List.getElem?_eq_none_iff]

/-- Behind the last line there is nothing but blanks. -/
theorem kind_of_none (h : lines[p.pos]? = none) : p.kind lines = .blank := by
  unfold kind
  rw [h]

theorem kind_of_some (h : lines[p.pos]? = some l) : p.kind lines = l.kind := by
  unfold kind
  rw [h]

/-- An error at the cursor is put down to the line under it. -/
theorem line_of_some (h : lines[p.pos]? = some l) : p.line lines = l.number := by
  unfold line
  rw [h]

theorem not_atEnd (h : lines[p.pos]? = some l) : p.atEnd lines = false := by
  rw [← Bool.not_eq_true, atEnd_iff, h]
  simp

/-- Behind the last line there are no tokens. -/
theorem tokens_of_none (h : lines[p.pos]? = none) : p.tokens lines = [] := by
  unfold tokens
  rw [List.drop_eq_nil_of_le (List.getElem?_eq_none_iff.1 h)]
  rfl

/-- The line under the cursor makes the first token, and the lines behind it the others. -/
theorem tokens_of_some (h : lines[p.pos]? = some l) :
    p.tokens lines = match l.kind with
      | .blank => ⟨l.number, .blank⟩ :: p.next.tokens lines
      | .prose => ⟨l.number, .prose (Text.trimmed l.text)⟩ :: p.next.tokens lines
      | .header name => ⟨l.number, .header name⟩ :: p.next.tokens lines
      | .keyword k => ⟨l.number, .keyword k⟩ :: p.next.tokens lines
      | .declaration => ⟨l.number, .declaration (Token.joined l.text (p.next.tokens lines))⟩ ::
          (p.next.tokens lines).dropWhile (·.proseText?.isSome)
      | .item => ⟨l.number, .item (Token.joined l.text (p.next.tokens lines))⟩ ::
          (p.next.tokens lines).dropWhile (·.proseText?.isSome) := by
  obtain ⟨hlt, hget⟩ := List.getElem?_eq_some_iff.1 h
  have hdrop : lines.drop p.pos = l :: lines.drop (p.pos + 1) := by
    rw [List.drop_eq_getElem_cons hlt, hget]
  unfold tokens
  rw [hdrop]
  rfl

theorem tokens_of_header {name : String} (h : lines[p.pos]? = some l) (hk : l.kind = .header name) :
    p.tokens lines = ⟨l.number, .header name⟩ :: p.next.tokens lines := by
  rw [tokens_of_some h, hk]

theorem tokens_of_keyword {k : Keyword} (h : lines[p.pos]? = some l) (hk : l.kind = .keyword k) :
    p.tokens lines = ⟨l.number, .keyword k⟩ :: p.next.tokens lines := by
  rw [tokens_of_some h, hk]

/-- A line makes a token, which is a word if the line is. -/
theorem exists_token (h : lines[p.pos]? = some l) : ∃ t rest, p.tokens lines = t :: rest ∧
    ∀ k, t.kind = .keyword k ↔ l.kind = .keyword k := by
  have htokens := tokens_of_some h
  cases hk : l.kind <;> rw [hk] at htokens <;> exact ⟨_, _, htokens, by simp⟩

/-- The line that the cursor is at is the one of the next token, or the last one. -/
theorem line_eq_lineAt {ctx : ScopeContext} (hlast : ctx.lastLine = lastNumber lines) :
    p.line lines = ctx.lineAt (p.tokens lines) := by
  cases h : lines[p.pos]? with
  | none =>
    rw [tokens_of_none h]
    unfold line
    rw [h]
    exact hlast.symm
  | some l =>
    rw [line_of_some h, tokens_of_some h]
    cases l.kind <;> rfl

/-! ## Places inside the lines -/

/-- The cursor is inside the lines or at their end, it has never gone back, and each round over the
file has moved it. -/
structure Sane (n : Nat) (p : Place) : Prop where
  inside : p.pos ≤ n
  trail : (p.pos :: p.trail).Pairwise (· ≥ ·)
  rounds : ∀ round ∈ p.rounds, round.1 < round.2

/-- A place that is reached from another while one spec is read. -/
structure Reached (n : Nat) (p q : Place) : Prop where
  sane : q.Sane n
  le : p.pos ≤ q.pos
  spec : q.spec = p.spec

/-- A place inside the lines at which the reader of a scope knows the same as the scan. -/
structure Within (lines : List CommentLine) (ctx : ScopeContext) (p : Place) : Prop where
  sane : p.Sane lines.length
  lastLine : ctx.lastLine = lastNumber lines
  spec : p.spec = ctx.spec

variable {n : Nat} {q r : Place} {ctx : ScopeContext}

/-- A file is begun at a place that is inside of it. -/
theorem Sane.first : Place.first.Sane n :=
  ⟨Nat.zero_le n, List.pairwise_singleton _ _, List.forall_mem_nil _⟩

/-- A step over a line that is there stays inside. -/
theorem Sane.next (h : p.Sane n) (hlt : p.pos < n) : p.next.Sane n where
  inside := hlt
  trail := by
    refine List.pairwise_cons.2 ⟨List.forall_mem_cons.2 ⟨Nat.le_succ _, fun i hi => ?_⟩, h.trail⟩
    exact Nat.le_succ_of_le ((List.pairwise_cons.1 h.trail).1 i hi)
  rounds := h.rounds

theorem Reached.refl (h : p.Sane n) : Reached n p p := ⟨h, Nat.le_refl _, rfl⟩

theorem Reached.trans (hpq : Reached n p q) (hqr : Reached n q r) : Reached n p r :=
  ⟨hqr.sane, Nat.le_trans hpq.le hqr.le, hqr.spec.trans hpq.spec⟩

/-- The next line is reached, if the cursor is at one. -/
theorem Reached.next (h : p.Sane n) (hlt : p.pos < n) : Reached n p p.next :=
  ⟨h.next hlt, Nat.le_succ _, rfl⟩

theorem reached_next (h : p.Sane lines.length) (hl : lines[p.pos]? = some l) :
    Reached lines.length p p.next :=
  .next h (List.getElem?_eq_some_iff.1 hl).1

/-- What is known of the file at one place is known wherever the cursor gets from there. -/
theorem Within.reached (h : p.Within lines ctx) (hq : Reached lines.length p q) :
    q.Within lines ctx :=
  ⟨hq.sane, h.lastLine, hq.spec.trans h.spec⟩

end Place

namespace Scan

open Place

variable {lines : List CommentLine} {limit : Nat} {p : Place} {l : CommentLine} {ctx : ScopeContext}

/-! ## Single lines -/

/-- Lines are skipped that make a token each, up to the first of another kind. -/
theorem ends_skipWhile {skips : LineKind → Bool} {skipped : Token → Bool}
    (hkind : ∀ kind, skips kind = true → kind = .blank ∨ kind = .prose)
    (hskipped : ∀ (q : Place) (m : CommentLine), lines[q.pos]? = some m →
      ∀ t ∈ (q.tokens lines).head?, skipped t = skips m.kind)
    (hp : p.Sane lines.length) {rounds : Nat} (hrounds : (p.tokens lines).length < rounds) :
    Ends (skipWhile lines skips rounds) p
      (fun _ q => Reached lines.length p q ∧ q.tokens lines = (p.tokens lines).dropWhile skipped)
      fun _ _ => False := by
  -- the induction is on the rounds, each of which goes over a line:
  induction rounds generalizing p with
  | zero => exact absurd hrounds (Nat.not_lt_zero _)
  | succ rounds ih =>
  rw [skipWhile, ends_bind, ends_get]
  cases hl : lines[p.pos]? with
  | none =>
    rw [if_pos (.inl (atEnd_iff.2 hl))]
    exact ⟨.refl hp, by rw [tokens_of_none hl]; rfl⟩
  | some l =>
    obtain ⟨t, rest, htokens, -⟩ := exists_token hl
    have hfirst : skipped t = skips l.kind := hskipped p l hl t (by rw [htokens]; rfl)
    rw [not_atEnd hl, kind_of_some hl]
    cases hskips : skips l.kind with
    | false =>
      rw [if_pos (.inr rfl)]
      refine ⟨.refl hp, ?_⟩
      rw [htokens, List.dropWhile_cons_of_neg (by rw [hfirst, hskips]; simp)]
    | true =>
      have hnext := reached_next hp hl
      have hrest : rest = p.next.tokens lines := by
        have hcons := tokens_of_some hl
        rw [htokens] at hcons
        rcases hkind l.kind hskips with hk | hk <;> rw [hk] at hcons <;> exact (List.cons.inj hcons).2
      -- one token less is left, so the rounds still suffice:
      have hshorter : (p.next.tokens lines).length < rounds := by
        rw [htokens, hrest, List.length_cons] at hrounds
        exact Nat.lt_of_succ_lt_succ hrounds
      rw [if_neg (by simp), ends_bind, ends_forward]
      refine (ih hnext.sane hshorter).mono (fun _ q hq => ⟨hnext.trans hq.1, ?_⟩)
        fun _ _ h => h
      rw [hq.2, htokens, hrest, List.dropWhile_cons_of_pos (by rw [hfirst, hskips])]

/-- **The cursor comes to the next mark**, or to the end. -/
theorem ends_advance (hlimit : lines.length < limit) (hp : p.Sane lines.length) :
    Ends (advance lines limit) p
      (fun _ q => Reached lines.length p q ∧ q.tokens lines = fromFirstMark (p.tokens lines))
      fun _ _ => False := by
  refine ends_skipWhile (fun kind h => ?_) (fun q m hm t ht => ?_) hp (length_tokens_lt hlimit)
  · cases kind <;> first | exact .inl rfl | exact .inr rfl | cases h
  · rw [tokens_of_some hm] at ht
    cases hk : m.kind <;> rw [hk] at ht <;> cases ht <;> rfl

/-- Blank lines are passed over, one token each. -/
theorem ends_skipBlank (hlimit : lines.length < limit) (hp : p.Sane lines.length) :
    Ends (skipBlank lines limit) p
      (fun _ q => Reached lines.length p q ∧
        q.tokens lines = (p.tokens lines).dropWhile (·.kind = .blank))
      fun _ _ => False := by
  refine ends_skipWhile (fun kind h => .inl (of_decide_eq_true h)) (fun q m hm t ht => ?_) hp
    (length_tokens_lt hlimit)
  rw [tokens_of_some hm] at ht
  cases hk : m.kind <;> rw [hk] at ht <;> cases ht <;> rfl

/-- At a mark the cursor stays. -/
theorem ends_advance_of_mark (hlimit : lines.length < limit)
    (hmark : fromFirstMark (p.tokens lines) = p.tokens lines)
    {ok : PUnit → Place → Prop} {halt : EarlyEnd → Place → Prop} :
    Ends (advance lines limit) p ok halt ↔ ok ⟨⟩ p := by
  obtain ⟨rounds, rfl⟩ := Nat.exists_eq_succ_of_ne_zero (Nat.ne_zero_of_lt hlimit)
  rw [advance, skipWhile, ends_bind, ends_get]
  cases hl : lines[p.pos]? with
  | none =>
    rw [if_pos (.inl (atEnd_iff.2 hl))]
    exact Iff.rfl
  | some l =>
    rw [tokens_of_some hl] at hmark
    rw [not_atEnd hl, kind_of_some hl]
    cases hk : l.kind with
    | blank | prose =>
      rw [hk] at hmark
      exact absurd rfl (Token.not_isUnmarked hmark)
    | header | keyword | declaration | item =>
      rw [if_pos (.inr rfl)]
      exact Iff.rfl

/-- The text of the line under the cursor can be read. -/
theorem ends_text (hl : lines[p.pos]? = some l) {ok : String → Place → Prop}
    {halt : EarlyEnd → Place → Prop} : Ends (text lines) p ok halt ↔ ok l.text p := by
  unfold text
  rw [ends_bind, ends_get, hl]
  rfl

/-- The prose that follows is gathered line by line, behind the parts that were found before. -/
theorem ends_gatherProse (hp : p.Sane lines.length) {rounds : Nat}
    (hrounds : (p.tokens lines).length < rounds) (parts : List String) :
    Ends (gatherProse lines rounds parts) p
      (fun found q => Reached lines.length p q ∧
        found = parts ++ ((p.tokens lines).takeWhile (·.proseText?.isSome)).filterMap Token.proseText? ∧
        q.tokens lines = (p.tokens lines).dropWhile (·.proseText?.isSome))
      fun _ _ => False := by
  induction rounds generalizing p parts with
  | zero => exact absurd hrounds (Nat.not_lt_zero _)
  | succ rounds ih =>
  rw [gatherProse, ends_bind, ends_get]
  cases hl : lines[p.pos]? with
  | none =>
    rw [if_pos (atEnd_iff.2 hl), tokens_of_none hl]
    exact ⟨.refl hp, (List.append_nil parts).symm, tokens_of_none hl⟩
  | some l =>
    have hnext := reached_next hp hl
    have htokens := tokens_of_some hl
    rw [not_atEnd hl, if_neg Bool.false_ne_true, kind_of_some hl]
    cases hk : l.kind with
    | prose =>
      rw [hk] at htokens
      have hshorter : (p.next.tokens lines).length < rounds := by
        rw [htokens, List.length_cons] at hrounds
        exact Nat.lt_of_succ_lt_succ hrounds
      simp only [ends_bind, ends_text hl, ends_forward]
      refine (ih hnext.sane hshorter _).mono (fun found q hq => ⟨hnext.trans hq.1, ?_, ?_⟩)
        fun _ _ h => h
      · rw [hq.2.1, htokens]
        simp [Token.proseText?]
      · rw [hq.2.2, htokens]
        rfl
    -- any other line ends the prose and is left:
    | blank | header | keyword | declaration | item =>
      rw [hk] at htokens
      refine ⟨.refl hp, ?_, ?_⟩
      · rw [htokens]
        simp [Token.proseText?]
      · rw [htokens]
        rfl

/-- A line and the prose behind it are gathered. The line is inside. -/
theorem ends_gather (hlimit : lines.length < limit) (hp : p.Sane lines.length)
    (hl : lines[p.pos]? = some l) :
    Ends (gather lines limit) p
      (fun (text, line) q => Reached lines.length p q ∧
        text = Token.joined l.text (p.next.tokens lines) ∧ line = l.number ∧
        q.tokens lines = (p.next.tokens lines).dropWhile (·.proseText?.isSome))
      fun _ _ => False := by
  have hnext := reached_next hp hl
  simp only [gather, ends_bind, ends_get, ends_text hl, ends_forward]
  refine (ends_gatherProse hnext.sane (length_tokens_lt hlimit) _).mono (fun parts q hq => ?_)
    fun _ _ h => h
  rw [ends_pure]
  refine ⟨hnext.trans hq.1, ?_, line_of_some hl, hq.2.2⟩
  rw [hq.2.1]
  rfl

/-! ## Scans and readings -/

/-- Does a scan from a place end as a reading of the tokens does? The value is the same, and the
cursor stands before the tokens that are left, or the error is the same. -/
def Follows {α : Type} (lines : List CommentLine) (x : Scan α) (p : Place)
    (reading : Except LoadError (α × List Token)) : Prop :=
  Ends x p (fun a q => Reached lines.length p q ∧ reading = .ok (a, q.tokens lines))
    fun h q => q.Sane lines.length ∧ ∃ e, reading = .error e ∧ h = .failed e

section Follows

variable {α β : Type} {x : Scan α} {f : α → Scan β} {q : Place}
  {reading : Except LoadError (α × List Token)} {later : Except LoadError (β × List Token)}

/-- A value that is given back follows the reading that gives it back with the same tokens. -/
theorem follows_pure (hp : p.Sane lines.length) (a : α) :
    Follows lines (pure a) p (.ok (a, p.tokens lines)) :=
  ⟨.refl hp, rfl⟩

/-- What a scan comes to that goes on from a place on the way. -/
theorem Follows.of_reached (hpq : Reached lines.length p q) (h : Follows lines x q reading) :
    Ends x q (fun a r => Reached lines.length p r ∧ reading = .ok (a, r.tokens lines))
      fun h r => r.Sane lines.length ∧ ∃ e, reading = .error e ∧ h = .failed e :=
  h.mono (fun _ _ ha => ⟨hpq.trans ha.1, ha.2⟩) fun _ _ he => he

/-- Scans one after the other follow readings one after the other. -/
theorem Follows.bind (hx : Follows lines x p reading)
    {next : α × List Token → Except LoadError (β × List Token)}
    (hf : ∀ a q, Reached lines.length p q → reading = .ok (a, q.tokens lines) →
      Follows lines (f a) q (next (a, q.tokens lines))) :
    Follows lines (x >>= f) p (reading >>= next) := by
  unfold Follows
  rw [ends_bind]
  refine hx.mono (fun a q ha => ?_) fun h q he => ?_
  · have hnext := (hf a q ha.1 ha.2).of_reached ha.1
    rw [ha.2]
    exact hnext
  · obtain ⟨hsane, e, hreading, hhalt⟩ := he
    rw [hreading]
    exact ⟨hsane, e, rfl, hhalt⟩

/-- A scan that cannot fail goes first. -/
theorem follows_bind_of_ends {ok : α → Place → Prop} (hx : Ends x p ok fun _ _ => False)
    (hf : ∀ a q, ok a q → Follows lines (f a) q later ∧ Reached lines.length p q) :
    Follows lines (x >>= f) p later := by
  unfold Follows
  rw [ends_bind]
  exact hx.mono (fun a q ha => (hf a q ha).1.of_reached (hf a q ha).2) fun _ _ h => h.elim

theorem follows_get_bind {f : Place → Scan β} :
    Follows lines (get >>= f) p later ↔ Follows lines (f p) p later := Iff.rfl

/-- After a step over the line under the cursor, the scan goes on behind it. -/
theorem follows_forward_bind (hp : p.Sane lines.length) (hl : lines[p.pos]? = some l)
    {f : PUnit → Scan β} (h : Follows lines (f ⟨⟩) p.next later) :
    Follows lines (forward >>= f) p later := by
  have hrest := h.of_reached (reached_next hp hl)
  exact hrest

end Follows

/-- A failure at a line that is known follows the reading that fails there. -/
theorem follows_failAt {α : Type} (hp : p.Within lines ctx) (line : Nat) (problem : LoadProblem) :
    Follows lines (failAt ctx.file line problem : Scan α) p (.error (ctx.error line problem)) := by
  refine ⟨hp.sane, _, rfl, ?_⟩
  rw [ScopeContext.error, ← hp.spec]

/-- A failure at the cursor follows the reading that fails at the next token. -/
theorem follows_fail {α : Type} (hp : p.Within lines ctx) (problem : LoadProblem) :
    Follows lines (fail ctx.file lines problem : Scan α) p
      (.error (ctx.error (ctx.lineAt (p.tokens lines)) problem)) := by
  rw [← line_eq_lineAt hp.lastLine]
  exact follows_failAt hp _ problem

/-! ## Declarations and lists -/

/-- A text is gathered with the prose behind it, and then read: a fault in it is one of the scope.
-/
theorem follows_readGathered {α : Type} (hlimit : lines.length < limit) (hp : p.Within lines ctx)
    (hl : lines[p.pos]? = some l) (read : Nat → String → Except DeclarationFault α) :
    Follows lines (readGathered ctx.file lines limit read) p
      (((read l.number (Token.joined l.text (p.next.tokens lines))).mapError
        (ctx.faulty l.number (Token.joined l.text (p.next.tokens lines)))).map
          (·, (p.next.tokens lines).dropWhile (·.proseText?.isSome))) := by
  unfold readGathered
  refine follows_bind_of_ends (ends_gather hlimit hp.sane hl) ?_
  rintro ⟨text, line⟩ q ⟨hq, rfl, rfl, htokens⟩
  refine ⟨?_, hq⟩
  rw [← htokens]
  dsimp only
  cases read l.number (Token.joined l.text (p.next.tokens lines)) with
  | ok a => exact follows_pure hq.sane a
  | error fault => exact follows_failAt (hp.reached hq) _ _

/-- A declaration is read from its line and the prose behind it. -/
theorem follows_readDeclaration (hlimit : lines.length < limit) (hp : p.Within lines ctx)
    (hl : lines[p.pos]? = some l) :
    Follows lines (readDeclaration ctx.file lines limit) p
      ((ctx.readDeclaration l.number (Token.joined l.text (p.next.tokens lines))).map
        (·, (p.next.tokens lines).dropWhile (·.proseText?.isSome))) := by
  rw [ScopeContext.readDeclaration_eq_mapError]
  exact follows_readGathered hlimit hp hl fun line text => Declaration.read ⟨ctx.file, line⟩ text

/-- An item is read from its line and the prose behind it. -/
theorem follows_readItem (hlimit : lines.length < limit) (hp : p.Within lines ctx)
    (hl : lines[p.pos]? = some l) :
    Follows lines (readItem ctx.file lines limit) p
      ((ctx.readItem l.number (Token.joined l.text (p.next.tokens lines))).map fun item =>
        ((item, l.number), (p.next.tokens lines).dropWhile (·.proseText?.isSome))) := by
  have hread := follows_readGathered hlimit hp hl fun line text => (Item.read text).map (·, line)
  rw [ScopeContext.readItem_eq_mapError]
  cases h : Item.read (Token.joined l.text (p.next.tokens lines)) <;>
    rw [h] at hread <;> exact hread

/-- What the items of a list come to, behind those that have been read. -/
theorem readItems_cons_item (ctx : ScopeContext) (found : List (Item × Nat)) (line : Nat)
    (text : String) (rest : List Token) :
    (Scope.readItems ctx (⟨line, .item text⟩ :: rest)).map (Prod.map (found ++ ·) id)
      = (((ctx.readItem line text).map fun item => ((item, line), rest)) >>= fun (item, rest) =>
        (Scope.readItems ctx rest).map (Prod.map (found ++ [item] ++ ·) id)) := by
  rw [Scope.readItems]
  dsimp only
  cases ctx.readItem line text with
  | error e => rfl
  | ok item =>
    show (Scope.readItems ctx rest >>= _).map _ = (Scope.readItems ctx rest).map _
    cases Scope.readItems ctx rest with
    | error e => rfl
    | ok result => simp [Except.map, pure, Except.pure, ok_bind, Prod.map]

/-- Items follow each other until a line that is none, and are added to those found before. -/
theorem follows_readItems (hlimit : lines.length < limit) (hp : p.Within lines ctx) {rounds : Nat}
    (hrounds : (p.tokens lines).length < rounds) (found : List (Item × Nat)) :
    Follows lines (readItems ctx.file lines limit rounds found) p
      ((Scope.readItems ctx (p.tokens lines)).map (Prod.map (found ++ ·) id)) := by
  induction rounds generalizing p found with
  | zero => exact absurd hrounds (Nat.not_lt_zero _)
  | succ rounds ih =>
  -- where the list ends, the items found so far are all:
  have hdone : Follows lines (pure found) p (.ok (found ++ [], p.tokens lines)) := by
    rw [List.append_nil]
    exact follows_pure hp.sane found
  rw [readItems, follows_get_bind]
  cases hl : lines[p.pos]? with
  | none =>
    rw [if_pos (.inl (atEnd_iff.2 hl))]
    rw [tokens_of_none hl] at hdone ⊢
    exact hdone
  | some l =>
    have htokens := tokens_of_some hl
    rw [not_atEnd hl, kind_of_some hl]
    cases hk : l.kind with
    | item =>
      rw [hk] at htokens
      rw [if_neg (by simp), htokens, readItems_cons_item]
      refine (follows_readItem hlimit hp hl).bind fun item q hq hitem => ?_
      have hshorter : (q.tokens lines).length < rounds := by
        obtain ⟨i, -, heq⟩ := map_eq_ok.1 hitem
        rw [htokens, (Prod.mk.inj heq).2] at hrounds
        exact Nat.lt_of_succ_lt_succ hrounds
      exact ih (hp.reached hq) hshorter _
    | blank | prose | header | keyword | declaration =>
      rw [hk] at htokens
      rw [if_pos (.inr LineKind.noConfusion)]
      rw [htokens] at hdone ⊢
      exact hdone

theorem map_nil_append {α : Type} (x : Except LoadError (List α × List Token)) :
    x.map (Prod.map ([] ++ ·) id) = x := by
  cases x <;> rfl

/-- A list is read from the line behind its keyword. -/
theorem follows_readList (hlimit : lines.length < limit) (hp : p.Within lines ctx)
    (hl : lines[p.pos]? = some l) :
    Follows lines (readList ctx.file lines limit) p (Scope.readList ctx (p.next.tokens lines)) := by
  have hnext := hp.reached (reached_next hp.sane hl)
  unfold readList
  refine follows_forward_bind hp.sane hl ?_
  refine follows_bind_of_ends (ends_skipBlank hlimit hnext.sane) fun _ q hq => ⟨?_, hq.1⟩
  have hitems := follows_readItems hlimit (hnext.reached hq.1) (length_tokens_lt hlimit) []
  rwa [map_nil_append, hq.2] at hitems

end Scan

end SpecTree
