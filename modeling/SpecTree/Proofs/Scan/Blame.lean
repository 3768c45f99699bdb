import SpecTree.Proofs.Scan.Account
import SpecTree.Proofs.Scan.Concatenation

/-!
# Where errors are reported

An error in a comment names the file, a line of the comment, and the spec that is described there:
the one that the nearest header above that line opens. Main statements:

* `ScopeContext.Blames`: what holds of an error in a part of a scope, and `blames_of_readBranch` and
  its relatives, that every reader keeps to it;
* `Scope.reports_of_readAll`: scopes behind one another;
* `Definition.attributed_of_readLines`: the errors of a file.
-/

namespace SpecTree

open Token (marks)

/-! ## Headers -/

/-- The name in a header line. -/
def CommentLine.headerName? (l : CommentLine) : Option String :=
  match l.kind with
  | .header name => some name
  | _ => none

/-- The name in the nearest header above the line of a number. -/
def CommentLine.headerAbove (lines : List CommentLine) (number : Nat) : Option String :=
  ((lines.filter (·.number < number)).filterMap headerName?).getLast?

namespace Token

variable {file : String}

/-- The name in a header. -/
def headerName? (t : Token) : Option String :=
  match t.kind with
  | .header name => some name
  | _ => none

/-- The name in the last header among tokens, or the given one if there is none. -/
def lastHeader (spec : Option String) (ts : List Token) : Option String :=
  (ts.filterMap headerName?).getLast?.or spec

/-- A token that is no header has no name. -/
theorem headerName?_eq_none {t : Token} (h : ∀ name, t.kind ≠ .header name) :
    t.headerName? = none := by
  unfold headerName?
  split
  · next name hk => exact absurd hk (h name)
  · rfl

theorem headerName?_of_keyword {t : Token} {k : Keyword} (h : t.kind = .keyword k) :
    t.headerName? = none := by
  apply headerName?_eq_none
  simp [h]

theorem filterMap_headerName?_eq_nil {ts : List Token} (h : ∀ t ∈ ts, t.headerName? = none) :
    ts.filterMap headerName? = [] :=
  List.filterMap_eq_nil_iff.2 h

/-- Tokens without a header do not change which one is the last. -/
theorem lastHeader_append {spec : Option String} {ts : List Token}
    (h : ∀ t ∈ ts, t.headerName? = none) (us : List Token) :
    lastHeader spec (ts ++ us) = lastHeader spec us := by
  unfold lastHeader
  rw [List.filterMap_append, filterMap_headerName?_eq_nil h, List.nil_append]

/-- Behind a header its name takes the place of the one before. -/
theorem lastHeader_cons_header {spec : Option String} {t : Token} {name : String}
    (h : t.kind = .header name) (ts : List Token) :
    lastHeader spec (t :: ts) = lastHeader (some name) ts := by
  have hname : t.headerName? = some name := by simp [headerName?, h]
  unfold lastHeader
  rw [List.filterMap_cons_some hname, List.getLast?_cons]
  cases (ts.filterMap headerName?).getLast? <;> rfl

/-- What stands in a block is no header. -/
theorem headerName?_of_inBlock {ts : List Token} (h : ∀ m ∈ marks file ts, m.inBlock) :
    ∀ t ∈ ts, t.headerName? = none := by
  intro t ht
  apply headerName?_eq_none
  intro name hk
  have hmark : t.mark? file = some (.header name) := by simp [mark?, hk]
  have hblock := h _ (List.mem_filterMap.2 ⟨t, ht, hmark⟩)
  simp [Mark.inBlock, Mark.inBranch] at hblock

/-- What has been read of a scope is no header. -/
theorem headerName?_of_reads {rest body : List Token} {s final : Scope}
    (h : Scope.Reads file rest body s final) : ∀ t ∈ body, t.headerName? = none := by
  induction h with
  | done => exact List.forall_mem_nil _
  | step first _ ih =>
    refine List.forall_mem_append.2 ⟨?_, ih⟩
    cases first with
    | oneOf block => exact headerName?_of_inBlock block.inBlock
    | conditional block => exact headerName?_of_inBlock block.inBlock
    | list mark opens items =>
      refine List.forall_mem_cons.2 ⟨headerName?_of_keyword (kind_of_mark?_keyword.1 mark), ?_⟩
      exact headerName?_of_inBlock fun m hm => items m hm ▸ rfl
    | skip mark | item mark | inclusion mark | parameter mark =>
      refine List.forall_mem_singleton.2 (headerName?_eq_none fun name hk => ?_)
      simp [mark?, hk] at mark

end Token

/-! ## Errors in a scope -/

/-- An error that is found while tokens are read: it is about the file and the spec of the scope,
and it stands on the line of a token, or at the end, before which there is no header. -/
structure ScopeContext.Blames (ctx : ScopeContext) (ts : List Token) (e : LoadError) : Prop where
  stage : e.stage = 0
  file : e.file = ctx.file
  spec : e.spec = ctx.spec
  place : ∃ before after, ts = before ++ after ∧ (∀ t ∈ before, t.headerName? = none) ∧
    e.line = ctx.lineAt after

namespace ScopeContext

variable {ctx : ScopeContext} {ts : List Token} {e : LoadError}

/-- An error of the first stage at a token is put down to it. -/
theorem blames_error {problem : LoadProblem} (h : problem.stage = 0) (ts : List Token) :
    ctx.Blames ts (ctx.error (ctx.lineAt ts) problem) :=
  ⟨h, rfl, rfl, [], ts, rfl, List.forall_mem_nil _, rfl⟩

/-- What stands in front without a header does not change the blame. -/
theorem Blames.append {before : List Token} (h : ctx.Blames ts e)
    (hbefore : ∀ t ∈ before, t.headerName? = none) : ctx.Blames (before ++ ts) e := by
  obtain ⟨before', after, rfl, hbefore', hline⟩ := h.place
  refine ⟨h.stage, h.file, h.spec, before ++ before', after, ?_, ?_, hline⟩
  · rw [List.append_assoc]
  · exact List.forall_mem_append.2 ⟨hbefore, hbefore'⟩

theorem Blames.cons {t : Token} (h : ctx.Blames ts e) (ht : t.headerName? = none) :
    ctx.Blames (t :: ts) e :=
  h.append (List.forall_mem_singleton.2 ht)

end ScopeContext

namespace Scope

variable {ctx : ScopeContext} {ts : List Token} {e : LoadError}

/-! ### Branches -/

/-- An error in a branch is put down to a token of the branch, before any header. -/
theorem blames_of_readBranch (h : readBranch ctx ts = .error e) : ctx.Blames ts e := by
  fun_induction readBranch ctx ts with
  | case2 t ts hk ih | case3 t ts _ hk ih | case4 t ts _ hk ih =>
    refine (ih h).cons (Token.headerName?_eq_none ?_)
    simp [hk]
  | case5 t ts text hk e' hd =>
    cases h
    rw [ScopeContext.readDeclaration_eq_mapError] at hd
    obtain ⟨fault, -, rfl⟩ := mapError_eq_error.1 hd
    exact ScopeContext.blames_error rfl (t :: ts)
  | case6 t ts text hk spec hd =>
    -- this error is reported behind the declaration
    cases h
    refine (ScopeContext.blames_error rfl ts).cons (Token.headerName?_eq_none ?_)
    simp [hk]
  | case7 t ts text hk d hd ih =>
    rcases bind_eq_error.1 h with hbranch | ⟨x, -, hpure⟩
    · refine (ih hbranch).cons (Token.headerName?_eq_none ?_)
      simp [hk]
    · cases hpure
  | case8 t ts | case9 t ts | case10 t ts | case11 t ts | case12 t ts | case13 t ts =>
    cases h
    exact ScopeContext.blames_error rfl (t :: ts)
  | _ => cases h

/-- What has been read of a branch is no header. -/
theorem exists_body_of_readBranch {rest : List Token} {ds : List Declaration}
    (h : readBranch ctx ts = .ok (ds, rest)) :
    ∃ body, ts = body ++ rest ∧ ∀ t ∈ body, t.headerName? = none := by
  obtain ⟨body, rfl, hbranch, -⟩ := branch_of_readBranch h
  exact ⟨body, rfl, Token.headerName?_of_inBlock hbranch.inBlock⟩

/-! ### Alternatives -/

/-- An error in the branches of a choice is put down to a token of them, before any header. -/
theorem blames_of_readBranches {start : Nat} (h : readBranches ctx start ts = .error e) :
    ctx.Blames ts e := by
  fun_induction readBranches ctx start ts with
  | case1 ts e' hbranch =>
    cases h
    exact blames_of_readBranch hbranch
  | case2 ts ds line after hbranch ih =>
    rcases bind_eq_error.1 h with hlater | ⟨x, -, hpure⟩
    · obtain ⟨body, rfl, hbody⟩ := exists_body_of_readBranch hbranch
      exact ((ih hlater).cons (Token.headerName?_of_keyword rfl)).append hbody
    · cases hpure
  | case3 => cases h
  | case4 ts ds rest _ _ hbranch =>
    cases h
    obtain ⟨body, rfl, hbody⟩ := exists_body_of_readBranch hbranch
    exact (ScopeContext.blames_error rfl rest).append hbody

/-- An error in a `ONE OF` block is reported inside it, or where it is opened. -/
theorem blames_of_readOneOf {t : Token} (ht : t.headerName? = none)
    (h : readOneOf ctx t.line ts = .error e) : ctx.Blames (t :: ts) e := by
  rcases bind_eq_error.1 h with hbranches | ⟨⟨branches, rest⟩, -, hfew⟩
  · exact (blames_of_readBranches hbranches).cons ht
  · dsimp only at hfew
    split at hfew
    · cases hfew
      exact ScopeContext.blames_error rfl (t :: ts)
    · cases hfew

/-! ### Conditions -/

/-- An error in a branch of a conditional is put down to a token of it, before any header. -/
theorem blames_of_readBranchAfter {k : Keyword} (h : readBranchAfter ctx k ts = .error e) :
    ctx.Blames ts e := by
  cases ts with
  | nil => cases h
  | cons t ts =>
    unfold readBranchAfter at h
    dsimp only at h
    split at h
    · next hk => exact (blames_of_readBranch h).cons (Token.headerName?_of_keyword hk)
    · cases h

/-- A branch of a conditional that was read holds no header. -/
theorem exists_body_of_readBranchAfter {k : Keyword} (hk : k.opensList = false)
    {rest : List Token} {ds : List Declaration}
    (h : readBranchAfter ctx k ts = .ok (ds, rest)) :
    ∃ body, ts = body ++ rest ∧ ∀ t ∈ body, t.headerName? = none := by
  obtain ⟨body, rfl, hbranch, -⟩ := branch_of_readBranchAfter h
  exact ⟨body, rfl, Token.headerName?_of_inBlock (hbranch.inBlock hk)⟩

/-- A parameter of a branch stands on the line of one of the tokens that have been read. -/
theorem exists_line_of_readBranch {rest : List Token} {ds : List Declaration}
    (h : readBranch ctx ts = .ok (ds, rest)) {d : Declaration} (hd : d ∈ ds) :
    ∃ before t after, ts = before ++ t :: after ∧ (∀ t ∈ before, t.headerName? = none) ∧
      d.origin.line = t.line := by
  fun_induction readBranch ctx ts generalizing ds with
  | case2 t ts hk ih | case3 t ts _ hk ih | case4 t ts _ hk ih =>
    obtain ⟨before, u, after, rfl, hbefore, hline⟩ := ih h hd
    have ht : t.headerName? = none := Token.headerName?_eq_none (by simp [hk])
    exact ⟨t :: before, u, after, rfl, List.forall_mem_cons.2 ⟨ht, hbefore⟩, hline⟩
  | case7 t ts text hk p hp ih =>
    obtain ⟨⟨later, rest'⟩, hread, heq⟩ := bind_eq_ok.1 h
    cases heq
    rcases List.mem_append.1 hd with hd | hd
    · obtain rfl : d = p := by
        unfold Declaration.visible at hd
        split at hd <;> simp_all
      have horigin := (Declaration.parameter_of_read (ScopeContext.readDeclaration_eq_ok.1 hp)).1
      exact ⟨[], t, ts, rfl, List.forall_mem_nil _, by rw [horigin]⟩
    · obtain ⟨before, u, after, rfl, hbefore, hline⟩ := ih hread hd
      have ht : t.headerName? = none := Token.headerName?_eq_none (by simp [hk])
      exact ⟨t :: before, u, after, rfl, List.forall_mem_cons.2 ⟨ht, hbefore⟩, hline⟩
  | _ => cases h <;> cases hd

/-- What the branches of a condition leave is the end of the block, or the block is not closed. -/
theorem blames_of_branches {start : Nat} {condition : Declaration}
    (h : (readBranchAfter ctx .whenTrue ts >>= fun (whenTrue, rest) =>
      readBranchAfter ctx .whenFalse rest >>= fun (whenFalse, rest) =>
        match rest with
        | ⟨_, .keyword .close⟩ :: rest =>
          pure (Part.conditional condition whenTrue whenFalse, rest)
        | rest => .error (ctx.error (ctx.lineAt rest) (.unclosedConditional start))) = .error e) :
    ctx.Blames ts e := by
  rcases bind_eq_error.1 h with hyes | ⟨⟨yes, rest₁⟩, hyes, hafter⟩
  · exact blames_of_readBranchAfter hyes
  · obtain ⟨body₁, rfl, hbody₁⟩ := exists_body_of_readBranchAfter rfl hyes
    refine ScopeContext.Blames.append ?_ hbody₁
    rcases bind_eq_error.1 hafter with hno | ⟨⟨no, rest₂⟩, hno, hend⟩
    · exact blames_of_readBranchAfter hno
    · obtain ⟨body₂, rfl, hbody₂⟩ := exists_body_of_readBranchAfter rfl hno
      refine ScopeContext.Blames.append ?_ hbody₂
      dsimp only at hend
      split at hend
      · cases hend
      · cases hend
        exact ScopeContext.blames_error rfl rest₂

/-- An error in an `IF` block is reported inside it, or where it is opened. -/
theorem blames_of_readConditional {t : Token} (ht : t.headerName? = none)
    (h : readConditional ctx t.line ts = .error e) : ctx.Blames (t :: ts) e := by
  rcases bind_eq_error.1 h with hcondition | ⟨⟨conditions, rest⟩, hcondition, hblock⟩
  · exact (blames_of_readBranch hcondition).cons ht
  · rcases conditions with _ | ⟨d, _ | ⟨second, more⟩⟩
    · cases hblock
      exact ScopeContext.blames_error rfl (t :: ts)
    · dsimp only at hblock
      split at hblock
      · -- the condition is not of type bool
        cases hblock
        obtain ⟨before, u, after, rfl, hbefore, hline⟩ :=
          exists_line_of_readBranch hcondition List.mem_cons_self
        rw [hline]
        have hblames : ctx.Blames (u :: after)
          (ctx.error (ctx.lineAt (u :: after)) (.conditionNotBool d.name)) :=
          ScopeContext.blames_error rfl (u :: after)
        exact (hblames.append hbefore).cons ht
      · obtain ⟨body, rfl, hbody⟩ := exists_body_of_readBranch hcondition
        exact ((blames_of_branches hblock).append hbody).cons ht
    · cases hblock
      exact ScopeContext.blames_error rfl (t :: ts)

/-! ### Lists -/

/-- An error in a list is put down to the item that it is about. -/
theorem blames_of_readItems (h : readItems ctx ts = .error e) : ctx.Blames ts e := by
  induction ts with
  | nil => cases h
  | cons t ts ih =>
    unfold readItems at h
    split at h
    · next text hk =>
      rcases bind_eq_error.1 h with hitem | ⟨item, -, hlater⟩
      · rw [ScopeContext.readItem_eq_mapError] at hitem
        obtain ⟨fault, -, rfl⟩ := mapError_eq_error.1 hitem
        exact ScopeContext.blames_error rfl (t :: ts)
      · rcases bind_eq_error.1 hlater with hitems | ⟨x, -, hpure⟩
        · exact (ih hitems).cons (Token.headerName?_eq_none (by simp [hk]))
        · cases hpure
    · cases h

/-- A list without items is put down to the token that comes instead. -/
theorem blames_of_readList (h : readList ctx ts = .error e) : ctx.Blames ts e := by
  have hblank : ∀ t ∈ ts.takeWhile (·.kind = .blank), t.headerName? = none := by
    intro t ht
    have hk := List.all_eq_true.1 List.all_takeWhile t ht
    exact Token.headerName?_eq_none (by simp [of_decide_eq_true hk])
  have hsplit : ts.takeWhile (·.kind = .blank) ++ ts.dropWhile (·.kind = .blank) = ts :=
    List.takeWhile_append_dropWhile
  rw [← hsplit]
  exact (blames_of_readItems h).append hblank

/-! ### Scopes -/

/-- An error in a scope is reported inside it. -/
theorem blames_of_read {s : Scope} (h : read ctx s ts = .error e) : ctx.Blames ts e := by
  fun_induction read ctx s ts with
  -- what is passed over in front of the error holds no header:
  | case2 s t ts hk ih | case3 s t ts _ hk ih | case4 s t ts _ hk ih
  | case6 s t ts _ hk _ _ ih | case7 s t ts _ hk _ _ ih =>
    exact (ih h).cons (Token.headerName?_eq_none (by simp [hk]))
  | case5 s t ts text hk e' hd =>
    cases h
    rw [ScopeContext.readDeclaration_eq_mapError] at hd
    obtain ⟨fault, -, rfl⟩ := mapError_eq_error.1 hd
    exact ScopeContext.blames_error rfl (t :: ts)
  | case8 s t ts e' hb hk =>
    cases h
    exact blames_of_readOneOf (Token.headerName?_of_keyword hk) hb
  | case9 s t ts part after hb hk ih =>
    obtain ⟨body, branches, rfl, hblock, -⟩ := oneOf_of_readOneOf hb
    have hbody := Token.headerName?_of_inBlock fun m hm =>
      hblock.inBlock m (List.mem_cons_of_mem _ hm)
    exact ((ih h).append hbody).cons (Token.headerName?_of_keyword hk)
  | case10 s t ts e' hb hk =>
    cases h
    exact blames_of_readConditional (Token.headerName?_of_keyword hk) hb
  | case11 s t ts part after hb hk ih =>
    obtain ⟨body, condition, yes, no, d, rfl, hblock, -⟩ := conditional_of_readConditional hb
    have hbody := Token.headerName?_of_inBlock fun m hm =>
      hblock.inBlock m (List.mem_cons_of_mem _ hm)
    exact ((ih h).append hbody).cons (Token.headerName?_of_keyword hk)
  | case12 s t ts e' hb hk | case14 s t ts e' hb hk | case16 s t ts e' hb hk
  | case18 s t ts e' hb hk =>
    cases h
    exact (blames_of_readList hb).cons (Token.headerName?_of_keyword hk)
  | case13 s t ts items after hb hk ih | case15 s t ts items after hb hk ih
  | case17 s t ts items after hb hk ih | case19 s t ts items after hb hk ih =>
    obtain ⟨body, rfl, hitems, -⟩ := list_of_readList hb
    have hbody := Token.headerName?_of_inBlock fun m hm => hitems m hm ▸ rfl
    exact ((ih h).append hbody).cons (Token.headerName?_of_keyword hk)
  | _ => cases h

end Scope

/-! ## Errors in scopes behind one another -/

/-- An error that is found while scopes are read: the last header before the place that it is about
names its spec. At the end of the tokens the last one is no header. -/
structure ScopeContext.Reports (ctx : ScopeContext) (ts : List Token) (e : LoadError) : Prop where
  stage : e.stage = 0
  file : e.file = ctx.file
  place : ∃ before after, ts = before ++ after ∧ e.line = ctx.lineAt after ∧
    e.spec = Token.lastHeader ctx.spec before ∧
    (after = [] → ∃ t ∈ before.getLast?, t.headerName? = none)

namespace ScopeContext

variable {ctx : ScopeContext} {ts : List Token} {e : LoadError}

/-- Before the place of an error in a scope there is no header. -/
theorem Blames.reports (h : ctx.Blames ts e) (hne : ts ≠ []) : ctx.Reports ts e := by
  obtain ⟨before, after, rfl, hbefore, hline⟩ := h.place
  refine ⟨h.stage, h.file, before, after, rfl, hline, ?_, fun hafter => ?_⟩
  · have hnone : Token.lastHeader ctx.spec (before ++ []) = Token.lastHeader ctx.spec [] :=
      Token.lastHeader_append hbefore []
    rw [List.append_nil] at hnone
    rw [h.spec, hnone]
    rfl
  · have hlast : before ≠ [] := by simpa [hafter] using hne
    exact ⟨before.getLast hlast, List.getLast?_eq_some_getLast hlast,
      hbefore _ (List.getLast_mem hlast)⟩

/-- What stands in front without a header does not change the report. -/
theorem Reports.append {body : List Token} (h : ctx.Reports ts e)
    (hbody : ∀ t ∈ body, t.headerName? = none) : ctx.Reports (body ++ ts) e := by
  obtain ⟨before, after, rfl, hline, hspec, hend⟩ := h.place
  refine ⟨h.stage, h.file, body ++ before, after, ?_, hline, ?_, fun hafter => ?_⟩
  · rw [List.append_assoc]
  · rw [hspec, Token.lastHeader_append hbody]
  · obtain ⟨t, ht, hname⟩ := hend hafter
    exact ⟨t, List.mem_getLast?_append_of_mem_getLast? ht, hname⟩

/-- Behind a header errors are about the spec that it names, and so they are before the next. -/
theorem Reports.cons_header {t : Token} {name : String} (hk : t.kind = .header name)
    (h : Reports ⟨ctx.file, ctx.lastLine, some name⟩ ts e) : ctx.Reports (t :: ts) e := by
  obtain ⟨before, after, rfl, hline, hspec, hend⟩ := h.place
  refine ⟨h.stage, h.file, t :: before, after, rfl, ?_, ?_, fun hafter => ?_⟩
  · rw [hline]
    cases after <;> rfl
  · rw [hspec, Token.lastHeader_cons_header hk]
  · obtain ⟨u, hu, hname⟩ := hend hafter
    have hlast : u ∈ ([t] ++ before).getLast? := List.mem_getLast?_append_of_mem_getLast? hu
    exact ⟨u, hlast, hname⟩

end ScopeContext

namespace Scope

variable {file : String} {lastLine : Nat} {ts : List Token} {e : LoadError}

/-- There is no error without a token. -/
theorem ne_nil_of_read_eq_error {ctx : ScopeContext} {s : Scope} (h : read ctx s ts = .error e) :
    ts ≠ [] := by
  rintro rfl
  rw [read] at h
  cases h

/-- An error in scopes that headers open is reported where it is. -/
theorem reports_of_readHeaded {spec : Option String}
    (h : readHeaded file lastLine spec ts = .error e) :
    ScopeContext.Reports ⟨file, lastLine, spec⟩ ts e := by
  fun_induction readHeaded file lastLine spec ts with
  | case1 => cases h
  | case2 spec t ts name hk e' hread =>
    cases h
    exact ((blames_of_read hread).reports (ne_nil_of_read_eq_error hread)).cons_header hk
  | case3 spec t ts name hk scope after hread ih =>
    obtain ⟨body, rfl, hreads, -⟩ := reads_of_read hread
    rcases bind_eq_error.1 h with hlater | ⟨later, -, hpure⟩
    · exact ((ih hlater).append (Token.headerName?_of_reads hreads)).cons_header hk
    · cases hpure
  | case4 spec t ts k hk =>
    cases h
    exact (ScopeContext.blames_error rfl (t :: ts)).reports (List.cons_ne_nil _ _)
  | case5 spec t ts hheader hkeyword ih =>
    exact (ih h).append (List.forall_mem_singleton.2 (Token.headerName?_eq_none hheader))

/-- An error in the tokens of a file is reported where it is. -/
theorem reports_of_readAll {stem : String} (h : readAll file stem lastLine ts = .error e) :
    ScopeContext.Reports ⟨file, lastLine, none⟩ ts e := by
  have hunmarked : ∀ m ∈ marks file (ts.takeWhile Token.isUnmarked), m.inBlock := by
    rw [Token.marks_takeWhile_isUnmarked]
    exact List.forall_mem_nil _
  have hlead := Token.headerName?_of_inBlock hunmarked
  have hsplit : ts.takeWhile Token.isUnmarked ++ Token.fromFirstMark ts = ts :=
    List.takeWhile_append_dropWhile
  rw [← hsplit]
  refine ScopeContext.Reports.append ?_ hlead
  rw [readAll_eq] at h
  rcases bind_eq_error.1 h with hfirst | ⟨⟨scope, rest⟩, hread, hheaded⟩
  · exact (blames_of_read hfirst).reports (ne_nil_of_read_eq_error hfirst)
  · obtain ⟨body, hbody, hreads, -⟩ := reads_of_read hread
    rw [hbody]
    rcases bind_eq_error.1 hheaded with hlater | ⟨later, -, hpure⟩
    · exact (reports_of_readHeaded hlater).append (Token.headerName?_of_reads hreads)
    · cases hpure

end Scope

/-! ## From tokens to lines -/

namespace Token

/-- The token of a line, and the tokens below it that are left. -/
theorem ofLines_cons (l : CommentLine) (lines : List CommentLine) :
    ∃ t dropped rest, ofLines (l :: lines) = t :: rest ∧ ofLines lines = dropped ++ rest ∧
      (∀ u ∈ dropped, u.headerName? = none) ∧ t.line = l.number ∧
      t.headerName? = l.headerName? := by
  have hprose : ∀ u ∈ (ofLines lines).takeWhile (·.proseText?.isSome), u.headerName? = none := by
    intro u hu
    have hsome := List.all_eq_true.1 List.all_takeWhile u hu
    apply headerName?_eq_none
    intro name hk
    simp [proseText?, hk] at hsome
  have hsplit : (ofLines lines).takeWhile (·.proseText?.isSome) ++
      (ofLines lines).dropWhile (·.proseText?.isSome) = ofLines lines :=
    List.takeWhile_append_dropWhile
  rw [ofLines]
  unfold CommentLine.headerName? CommentLine.kind
  cases LineKind.ofText l.text with
  | declaration | item => exact ⟨_, _, _, rfl, hsplit.symm, hprose, rfl, rfl⟩
  | _ => exact ⟨_, [], _, rfl, rfl, List.forall_mem_nil _, rfl, rfl⟩

/-- The headers of the lines are those of the tokens. -/
theorem filterMap_headerName?_ofLines (lines : List CommentLine) :
    (ofLines lines).filterMap headerName? = lines.filterMap CommentLine.headerName? := by
  induction lines with
  | nil => rfl
  | cons l lines ih =>
    obtain ⟨t, dropped, rest, hcons, hsplit, hdropped, -, hname⟩ := ofLines_cons l lines
    rw [hsplit, List.filterMap_append, filterMap_headerName?_eq_nil hdropped] at ih
    rw [hcons, List.filterMap_cons, List.filterMap_cons, hname, ← ih]
    rfl

/-- A token stands on a line, and the headers before it are those above the line. -/
theorem exists_line_of_ofLines {lines : List CommentLine} {before after : List Token} {t : Token}
    (h : ofLines lines = before ++ t :: after) :
    ∃ above l below, lines = above ++ l :: below ∧ l.number = t.line ∧
      above.filterMap CommentLine.headerName? = before.filterMap headerName? := by
  induction lines generalizing before with
  | nil => simp [ofLines] at h
  | cons l lines ih =>
    obtain ⟨u, dropped, rest, hcons, hsplit, hdropped, hline, hname⟩ := ofLines_cons l lines
    rw [hcons] at h
    cases before with
    | nil =>
      obtain ⟨rfl, -⟩ := List.cons.inj h
      exact ⟨[], l, lines, rfl, hline.symm, rfl⟩
    | cons v before =>
      obtain ⟨rfl, rfl⟩ := List.cons.inj h
      have hsplit : ofLines lines = dropped ++ before ++ t :: after := by
        rw [hsplit, List.append_assoc]
        rfl
      obtain ⟨above, m, below, rfl, hnumber, habove⟩ := ih hsplit
      refine ⟨l :: above, m, below, rfl, hnumber, ?_⟩
      rw [List.filterMap_append, filterMap_headerName?_eq_nil hdropped, List.nil_append] at habove
      rw [List.filterMap_cons, List.filterMap_cons, hname, habove]

/-- If the last line is a header, it is the last token. -/
theorem getLast?_ofLines_header {above : List CommentLine} {l : CommentLine} {name : String}
    (h : l.kind = .header name) :
    (ofLines (above ++ [l])).getLast? = some ⟨l.number, .header name⟩ := by
  have hfirst : ∀ m ∈ [l].head?, m.kind ≠ .prose := by simp [h]
  have hlast : ofLines [l] = [⟨l.number, .header name⟩] := by
    unfold CommentLine.kind at h
    simp [ofLines, h]
  rw [ofLines_append hfirst, hlast, List.getLast?_concat]

end Token

/-- Above a line of increasing ones are those with a smaller number. -/
theorem CommentLine.headerAbove_append {above below : List CommentLine} {l : CommentLine}
    (h : (above ++ l :: below).Pairwise (·.number < ·.number)) :
    headerAbove (above ++ l :: below) l.number = (above.filterMap headerName?).getLast? := by
  obtain ⟨-, hbelow, habove⟩ := List.pairwise_append.1 h
  have hsmaller : above.filter (·.number < l.number) = above := by
    apply List.filter_eq_self.2
    intro m hm
    exact decide_eq_true (habove m hm l List.mem_cons_self)
  have hlarger : (l :: below).filter (·.number < l.number) = [] := by
    apply List.filter_eq_nil_iff.2
    intro m hm hlt
    have hlt := of_decide_eq_true hlt
    rcases List.mem_cons.1 hm with rfl | hm
    · exact Nat.lt_irrefl _ hlt
    · exact Nat.lt_asymm hlt ((List.pairwise_cons.1 hbelow).1 m hm)
  unfold headerAbove
  rw [List.filter_append, hsmaller, hlarger, List.append_nil]

/-! ## Files -/

namespace Definition

/-- **Errors are attributed to the scope that they are found in.** An error in comment lines names
the file, the number of one of the lines, and the spec in the nearest header above that line. -/
theorem attributed_of_readLines {file stem : String} {lines : List CommentLine} {e : LoadError}
    (increasing : lines.Pairwise (·.number < ·.number))
    (h : readLines file stem lines = .error e) :
    e.stage = 0 ∧ e.file = file ∧ (∃ l ∈ lines, l.number = e.line) ∧
      e.spec = CommentLine.headerAbove lines e.line := by
  have hreports := Scope.reports_of_readAll h
  refine ⟨hreports.stage, hreports.file, ?_⟩
  obtain ⟨before, after, htokens, hline, hspec, hend⟩ := hreports.place
  have hnone : Token.lastHeader none before = (before.filterMap Token.headerName?).getLast? :=
    Option.or_none
  suffices hplace : ∃ above l below, lines = above ++ l :: below ∧ l.number = e.line ∧
      above.filterMap CommentLine.headerName? = before.filterMap Token.headerName? by
    obtain ⟨above, l, below, rfl, hnumber, habove⟩ := hplace
    refine ⟨⟨l, by simp, hnumber⟩, ?_⟩
    rw [hspec, hnone, ← hnumber, CommentLine.headerAbove_append increasing, habove]
  cases after with
  | cons t after =>
    rw [hline]
    exact Token.exists_line_of_ofLines htokens
  | nil =>
    -- at the end the error stands on the last line, which is no header
    obtain ⟨t, ht, hname⟩ := hend rfl
    rw [List.append_nil] at htokens
    have hlines : lines ≠ [] := by
      rintro rfl
      rw [← htokens] at ht
      cases ht
    obtain ⟨above, l, rfl⟩ : ∃ above l, lines = above ++ [l] :=
      ⟨_, _, (List.dropLast_append_getLast hlines).symm⟩
    refine ⟨above, l, [], rfl, ?_, ?_⟩
    · rw [hline]
      simp [ScopeContext.lineAt]
    · have hl : l.headerName? = none := by
        unfold CommentLine.headerName?
        split
        · next name hk =>
          rw [← htokens, Token.getLast?_ofLines_header hk] at ht
          cases ht
          cases hname
        · rfl
      have hall := Token.filterMap_headerName?_ofLines (above ++ [l])
      rw [htokens, List.filterMap_append, List.filterMap_cons_none hl] at hall
      simpa using hall.symm

/-- Two specs, in the second of which a condition is not of type bool, and a third header. -/
def exampleFaulty : List CommentLine :=
  CommentLine.numbered ["* `\"a`\" ``[int]``", "``[first-spec]``", "* `\"b`\" ``[int]``",
    "``[second-spec]``", "IF", "* `\"c`\" ``[int]``", "which way", "END", "``[third-spec]``"]

theorem attributed_of_readLines_exampleFaulty :
    exampleFaulty.Pairwise (·.number < ·.number) ∧ ∃ e,
      readLines "example.hh" "example" exampleFaulty = .error e ∧
      e.problem = .conditionNotBool "c" ∧ e.line = 6 ∧
      e.spec = CommentLine.headerAbove exampleFaulty e.line ∧ e.spec = some "second-spec" := by
  have increasing : exampleFaulty.Pairwise (·.number < ·.number) := by decide +kernel
  have hread : readLines "example.hh" "example" exampleFaulty =
      .error ⟨some "second-spec", "example.hh", 6, .conditionNotBool "c"⟩ := by decide +kernel
  obtain ⟨-, -, -, hspec⟩ := attributed_of_readLines increasing hread
  exact ⟨increasing, _, hread, rfl, rfl, hspec, rfl⟩

end Definition

end SpecTree
