import SpecTree.Proofs.Scan.Block

/-!
# Steps

What reading does to a scope, one construct after another, and how the scopes of a file follow
one another. Main statements: `reads_of_read`, `headed_of_readHeaded` and `file_of_readLines`,
whatever has been read was read in such steps.
-/

namespace SpecTree

open Token (marks)

/-- Does the mark end a scope, or has it no place in one? -/
def Mark.stops : Mark → Bool
  | header _ => true
  | keyword k => k.endsBranch
  | _ => false

/-- Does a scope end before these tokens? -/
def Token.Stop (file : String) (ts : List Token) : Prop :=
  ∀ t ∈ ts.head?, ∃ m, t.mark? file = some m ∧ m.stops

namespace Scope

/-- What the construct that stands in `body` does to a scope, when `after` follows. -/
inductive Step (file : String) (after : List Token) : List Token → Scope → Scope → Prop
  | skip {t : Token} {s : Scope} (mark : t.mark? file = none) : Step file after [t] s s
  | item {t : Token} {s : Scope} (mark : t.mark? file = some .item) : Step file after [t] s s
  | inclusion {t : Token} {s : Scope} {spec : String}
      (mark : t.mark? file = some (.declaration (.ok (.include spec)))) :
      Step file after [t] s { s with includes := s.includes ++ [spec] }
  | parameter {t : Token} {s : Scope} {d : Declaration}
      (mark : t.mark? file = some (.declaration (.ok (.parameter d)))) :
      Step file after [t] s { s with parameters := s.parameters ++ d.visible }
  | oneOf {body : List Token} {s : Scope} {branches : List (List Mark)}
      (block : Mark.IsOneOf (marks file body) branches) :
      Step file after body s
        { s with blocks := s.blocks ++ [.oneOf (branches.map Mark.declared)] }
  | conditional {body : List Token} {s : Scope} {condition yes no : List Mark} {d : Declaration}
      (block : Mark.IsConditional (marks file body) condition yes no d) :
      Step file after body s
        { s with blocks := s.blocks ++ [.conditional d (Mark.declared yes) (Mark.declared no)] }
  | list {t : Token} {body : List Token} {s : Scope} {k : Keyword}
      (mark : t.mark? file = some (.keyword k)) (opens : k.opensList)
      (items : ∀ m ∈ marks file body, m = .item)
      (wellFormed : ∀ item ∈ Token.listed (body ++ after), ∃ i, Item.read item.1 = .ok i) :
      Step file after (t :: body) s
        (s.addItems file k ((Token.listed (body ++ after)).filterMap readListed?))

/-- What the constructs that follow one another in `body` do to a scope, when `rest` follows. -/
inductive Reads (file : String) (rest : List Token) : List Token → Scope → Scope → Prop
  | done {s : Scope} : Reads file rest [] s s
  | step {body later : List Token} {s s' final : Scope}
      (first : Step file (later ++ rest) body s s') (next : Reads file rest later s' final) :
      Reads file rest (body ++ later) s final

/-- A step that takes one token may be put in front of a reading. -/
theorem Reads.cons {file : String} {rest later : List Token} {t : Token} {s s' final : Scope}
    (first : Step file (later ++ rest) [t] s s') (next : Reads file rest later s' final) :
    Reads file rest (t :: later) s final :=
  Reads.step first next

/-- A scope that has been read was read construct by construct, up to where it ends. -/
theorem reads_of_read {ctx : ScopeContext} {s final : Scope} {ts rest : List Token}
    (h : read ctx s ts = .ok (final, rest)) :
    ∃ body, ts = body ++ rest ∧ Reads ctx.file rest body s final ∧ Token.Stop ctx.file rest := by
  fun_induction read ctx s ts with
  | case1 =>
    cases h
    exact ⟨[], rfl, .done, by simp [Token.Stop]⟩
  -- one token is one step:
  | case2 s t ts hk ih | case3 s t ts _ hk ih =>
    obtain ⟨body, rfl, hreads, hstop⟩ := ih h
    exact ⟨t :: body, rfl, .cons (.skip (by simp only [Token.mark?, hk])) hreads, hstop⟩
  | case4 s t ts text hk ih =>
    obtain ⟨body, rfl, hreads, hstop⟩ := ih h
    exact ⟨t :: body, rfl, .cons (.item (by simp only [Token.mark?, hk])) hreads, hstop⟩
  | case6 s t ts text hk spec hd ih =>
    obtain ⟨body, rfl, hreads, hstop⟩ := ih h
    refine ⟨t :: body, rfl, .cons (.inclusion ?_) hreads, hstop⟩
    simp only [Token.mark?, hk, ScopeContext.readDeclaration_eq_ok.1 hd]
  | case7 s t ts text hk d hd ih =>
    obtain ⟨body, rfl, hreads, hstop⟩ := ih h
    refine ⟨t :: body, rfl, .cons (.parameter ?_) hreads, hstop⟩
    simp only [Token.mark?, hk, ScopeContext.readDeclaration_eq_ok.1 hd]
  -- a block or a list is one step, over all of its tokens:
  | case9 s t ts part after hb hk ih =>
    obtain ⟨body, rfl, hreads, hstop⟩ := ih h
    obtain ⟨block, branches, rfl, hblock, rfl⟩ := oneOf_of_readOneOf hb
    have hmarks : Mark.IsOneOf (marks ctx.file (t :: block)) branches := by
      rw [Token.marks_cons, Token.kind_of_mark?_keyword.2 hk]
      exact hblock
    exact ⟨t :: block ++ body, by simp, .step (.oneOf hmarks) hreads, hstop⟩
  | case11 s t ts part after hb hk ih =>
    obtain ⟨body, rfl, hreads, hstop⟩ := ih h
    obtain ⟨block, condition, yes, no, d, rfl, hblock, rfl⟩ := conditional_of_readConditional hb
    have hmarks : Mark.IsConditional (marks ctx.file (t :: block)) condition yes no d := by
      rw [Token.marks_cons, Token.kind_of_mark?_keyword.2 hk]
      exact hblock
    exact ⟨t :: block ++ body, by simp, .step (.conditional hmarks) hreads, hstop⟩
  | case13 s t ts items after hb hk ih | case15 s t ts items after hb hk ih
  | case17 s t ts items after hb hk ih | case19 s t ts items after hb hk ih =>
    obtain ⟨body, rfl, hreads, hstop⟩ := ih h
    obtain ⟨block, rfl, hitem, hread, rfl⟩ := list_of_readList hb
    exact ⟨t :: block ++ body, by simp,
      .step (.list (Token.kind_of_mark?_keyword.2 hk) rfl hitem hread) hreads, hstop⟩
  -- here the scope ends:
  | case20 s t ts hk | case21 s t ts hk | case22 s t ts hk | case23 s t ts hk =>
    cases h
    refine ⟨[], rfl, .done, ?_⟩
    intro t' ht
    obtain rfl := Option.mem_some.1 ht
    exact ⟨_, Token.kind_of_mark?_keyword.2 hk, rfl⟩
  | case24 s t ts name hk =>
    cases h
    refine ⟨[], rfl, .done, ?_⟩
    intro t' ht
    obtain rfl := Option.mem_some.1 ht
    exact ⟨.header name, by simp only [Token.mark?, hk], rfl⟩
  | _ => cases h

/-- The scopes that headers open one after another, and the definitions that they make. -/
inductive Headed (file : String) : List Token → List Definition → Prop
  | nil : Headed file [] []
  | cons {t : Token} {name : String} {body rest : List Token} {scope : Scope}
      {later : List Definition} (mark : t.mark? file = some (.header name))
      (reads : Reads file rest body .empty scope) (next : Headed file rest later) :
      Headed file (t :: (body ++ rest)) (scope.definitions name ⟨file, t.line⟩ ++ later)

/-- The scopes of a file are read one behind the other, each with its header. -/
theorem headed_of_readHeaded {file : String} {lastLine : Nat} {spec : Option String}
    {ts : List Token} {ds : List Definition} (hstop : Token.Stop file ts)
    (h : readHeaded file lastLine spec ts = .ok ds) : Headed file ts ds := by
  fun_induction readHeaded file lastLine spec ts generalizing ds with
  | case1 =>
    cases h
    exact .nil
  | case3 spec t ts name hk scope after hread ih =>
    obtain ⟨later, hlater, heq⟩ := bind_eq_ok.1 h
    cases heq
    obtain ⟨body, rfl, hreads, hstop'⟩ := reads_of_read hread
    exact .cons (by simp only [Token.mark?, hk]) hreads (ih hstop' hlater)
  | case5 spec t ts hheader hkeyword ih =>
    -- a scope ends before a header or a word only
    obtain ⟨m, hm, hs⟩ := hstop t rfl
    cases hk : t.kind with
    | header name => exact absurd hk (hheader name)
    | keyword k => exact absurd hk (hkeyword k)
    | declaration text =>
      obtain rfl : Mark.declaration _ = m := by simpa [Token.mark?, hk] using hm
      simp [Mark.stops] at hs
    | item text =>
      obtain rfl : Mark.item = m := by simpa [Token.mark?, hk] using hm
      simp [Mark.stops] at hs
    | _ => simp [Token.mark?, hk] at hm
  | _ => cases h

/-- A file is read as the lines in front of the first header, and then scope by scope. -/
theorem readAll_eq_ok {file stem : String} {lastLine : Nat} {ts : List Token}
    {ds : List Definition} : readAll file stem lastLine ts = .ok ds ↔
      ∃ scope rest later,
        read ⟨file, lastLine, none⟩ .empty (Token.fromFirstMark ts) = .ok (scope, rest) ∧
        readHeaded file lastLine none rest = .ok later ∧
        ds = scope.definitions (Naming.ofStem stem)
          ⟨file, ScopeContext.lineAt ⟨file, lastLine, none⟩ (Token.fromFirstMark ts)⟩ ++ later := by
  constructor
  · intro h
    obtain ⟨⟨scope, rest⟩, hread, h⟩ := bind_eq_ok.1 h
    obtain ⟨later, hlater, h⟩ := bind_eq_ok.1 h
    cases h
    exact ⟨scope, rest, later, hread, hlater, rfl⟩
  · rintro ⟨scope, rest, later, hread, hlater, rfl⟩
    exact bind_eq_ok.2 ⟨_, hread, bind_eq_ok.2 ⟨later, hlater, rfl⟩⟩

/-- A file that has been read is a scope without a header, whose first line is a mark, and then
scopes with headers. -/
theorem file_of_readLines {file stem : String} {lines : List CommentLine} {ds : List Definition}
    (h : Definition.readLines file stem lines = .ok ds) :
    ∃ lead body rest scope later line,
      Token.ofLines lines = lead ++ (body ++ rest) ∧ marks file lead = [] ∧
      (∀ t ∈ (body ++ rest).head?, t.line = line ∧ (t.mark? file).isSome) ∧
      Reads file rest body .empty scope ∧ Headed file rest later ∧
      ds = scope.definitions (Naming.ofStem stem) ⟨file, line⟩ ++ later := by
  obtain ⟨scope, rest, later, hread, hlater, rfl⟩ := readAll_eq_ok.1 h
  obtain ⟨body, hbody, hreads, hstop⟩ := reads_of_read hread
  refine ⟨(Token.ofLines lines).takeWhile Token.isUnmarked, body, rest, scope, later, _, ?_,
    Token.marks_takeWhile_isUnmarked _, ?_, hreads, headed_of_readHeaded hstop hlater, rfl⟩
  · rw [← hbody]
    exact List.takeWhile_append_dropWhile.symm
  · intro t ht
    rw [hbody]
    obtain ⟨later, hcons⟩ := List.head?_eq_some_iff.1 (Option.mem_def.1 ht)
    refine ⟨by rw [hcons]; rfl, ?_⟩
    have hnot := List.head?_dropWhile_not Token.isUnmarked (Token.ofLines lines)
    rw [show (Token.ofLines lines).dropWhile Token.isUnmarked = body ++ rest from hbody, ht] at hnot
    rw [Option.isSome_iff_ne_none, Ne, Token.mark?_eq_none]
    exact ne_true_of_eq_false hnot

end Scope

end SpecTree
