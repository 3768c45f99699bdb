import Mathlib.Data.List.Chain
import SpecTree.Proofs.Scan.Block
import SpecTree.Proofs.Scan.Renumber
import SpecTree.Proofs.Text

/-!
# Declarations as they are written

A declaration of a parameter is written as a quoted name, a bracketed type, a marker and a comment.
What has been written is read back, on one line or broken into several. Main statements:

* `Spelled.read_text`: the text of a declaration is read back;
* `IsBroken.trim_joined`: lines that a text is broken into are joined to it again;
* `Definition.readLines_spelled`: the lines of a declaration are read as that parameter alone.
-/

namespace SpecTree

/-! ## What is written -/

/-- What stands between asterisks behind the type. -/
inductive Marker where
  | none
  | optional
  | default (text : String)
deriving DecidableEq

namespace Marker

def text? : Marker → Option String
  | none => Option.none
  | optional => some "optional"
  | default text => some text

/-- The marker and the blank behind it. -/
def written (m : Marker) : List Char :=
  match m.text? with
  | some text => "**".toList ++ (text.toList ++ ("**".toList ++ [' ']))
  | Option.none => []

/-- Can the marker stand between a type and a comment? A default has to be one of the type, and
to be told from the word and the asterisks around it. -/
def Fits (type doc : String) : Marker → Prop
  | none => ¬ "**".toList <+: doc.toList
  | optional => True
  | default text =>
    (∃ p v, TypeRef.ofText type = .primitive p ∧ Value.parse p text = .ok v) ∧
      text ≠ "optional" ∧ ¬ "**".toList <:+: text.toList ∧ text.toList.getLast? ≠ some '*'

/-- The default that a marker stands for. -/
def value? (type : TypeRef) : Marker → Option Value
  | default text => type.primitive?.bind fun p => (Value.parse p text).toOption
  | _ => Option.none

end Marker

/-- A declaration as it is written. -/
structure Spelled where
  name : String
  type : String
  marker : Marker
  doc : String

namespace Spelled

/-- What stands behind the type. -/
def tail (s : Spelled) : List Char := s.marker.written ++ s.doc.toList

/-- The line of a declaration, with the given quotes and brackets. -/
def text (s : Spelled) (quotes brackets : List Char × List Char) : String :=
  String.ofList ("* ".toList ++ (quotes.1 ++ (s.name.toList ++ (quotes.2 ++ (' ' ::
    (brackets.1 ++ (s.type.toList ++ (brackets.2 ++ (' ' :: s.tail)))))))))

/-- The parameter that is declared. -/
def declaration (s : Spelled) (origin : Origin) : Declaration :=
  { name := s.name
    type := TypeRef.ofText s.type
    default := s.marker.value? (TypeRef.ofText s.type)
    isOptional := s.marker ≠ .none
    doc := s.doc
    origin }

/-- No part of the declaration begins or ends with a blank, and the name and the type do not hold
what closes them. -/
structure IsWritable (s : Spelled) (quotes brackets : List Char × List Char) : Prop where
  trimmedName : Text.trim s.name.toList = s.name.toList
  trimmedType : Text.trim s.type.toList = s.type.toList
  trimmedDoc : Text.trim s.doc.toList = s.doc.toList
  visible : s.name.toList.head? ≠ some '_'
  closesName : ¬ quotes.2 <:+: s.name.toList
  closesType : ¬ brackets.2 <:+: s.type.toList
  marked : s.marker.Fits s.type s.doc

end Spelled

/-- Lines that a text is broken into, at blanks that stand alone. All but the first are prose. -/
structure IsBroken (text : String) (lines : List String) : Prop where
  joined : " ".intercalate lines = text
  apart : lines.IsChain fun l m =>
    l.toList.getLast?.any Text.isBlank = false ∧ m.toList.head?.any Text.isBlank = false
  prose : ∀ l ∈ lines.tail, LineKind.ofText l = .prose

/-! ## Reading a declaration -/

namespace Declaration

/-- What closes a name or a type does not go on as it begins. -/
theorem exists_closing {tokens : List Char × List Char}
    (h : tokens ∈ nameQuotes ∨ tokens ∈ typeBrackets) : ∃ a p, tokens.2 = a :: p ∧ a ∉ p := by
  rcases h with h | h <;> rcases List.mem_pair.1 h with rfl | rfl
  · exact ⟨'`', ['"'], rfl, by decide⟩
  · exact ⟨'"', [], rfl, by decide⟩
  · exact ⟨']', ['`', '`'], rfl, by decide⟩
  · exact ⟨']', [], rfl, by decide⟩

/-- A part is taken up to what closes it. -/
theorem takeUntil?_append {tokens : List Char × List Char}
    (htokens : tokens ∈ nameQuotes ∨ tokens ∈ typeBrackets) {part : String}
    (hpart : ¬ tokens.2 <:+: part.toList) (htrim : Text.trim part.toList = part.toList)
    (behind : List Char) : takeUntil? tokens.2 (part.toList ++ (tokens.2 ++ behind)) =
      some (part, Text.trimStart behind) := by
  obtain ⟨a, p, hsplit, ha⟩ := exists_closing htokens
  rw [hsplit] at hpart ⊢
  unfold takeUntil?
  rw [Text.cutAt?_append (List.cons_ne_nil a p) (Text.not_infix_append_dropLast ha hpart)]
  simp [htrim]

theorem takeName_append {quotes : List Char × List Char} (hquotes : quotes ∈ nameQuotes)
    {name : String} (hname : ¬ quotes.2 <:+: name.toList)
    (htrim : Text.trim name.toList = name.toList) (behind : List Char) :
    takeName (quotes.1 ++ (name.toList ++ (quotes.2 ++ behind))) =
      .ok (some (name, Text.trimStart behind)) := by
  have hopening : ∀ rest, takeOpening? (quotes.1 ++ rest) nameQuotes = some (quotes.2, rest) := by
    intro rest
    rcases List.mem_pair.1 hquotes with rfl | rfl <;> rfl
  unfold takeName
  rw [hopening]
  simp only [takeUntil?_append (.inl hquotes) hname htrim]

theorem takeType_append {brackets : List Char × List Char} (hbrackets : brackets ∈ typeBrackets)
    {type : String} (htype : ¬ brackets.2 <:+: type.toList)
    (htrim : Text.trim type.toList = type.toList) (behind : List Char) :
    takeType (brackets.1 ++ (type.toList ++ (brackets.2 ++ behind))) =
      .ok (type, Text.trimStart behind) := by
  have hopening : ∀ rest,
      takeOpening? (brackets.1 ++ rest) typeBrackets = some (brackets.2, rest) := by
    intro rest
    rcases List.mem_pair.1 hbrackets with rfl | rfl <;> rfl
  unfold takeType
  rw [hopening]
  simp only [takeUntil?_append (.inr hbrackets) htype htrim]

/-- Two asterisks behind a marker do not begin in it. -/
theorem not_infix_append_asterisk {marker : List Char} (hinside : ¬ ['*', '*'] <:+: marker)
    (hlast : marker.getLast? ≠ some '*') :
    ¬ ['*', '*'] <:+: marker ++ ['*', '*'].dropLast := by
  have hdrop : ['*', '*'].dropLast = ['*'] := rfl
  rw [hdrop, List.infix_concat_iff]
  rintro (hend | hin)
  · obtain ⟨t, ht, hsuffix⟩ :=
      (List.suffix_concat_iff.1 hend).resolve_left (List.cons_ne_nil _ _)
    obtain rfl : ['*'] = t := (List.append_left_inj ['*']).1 ht
    obtain ⟨before, hbefore⟩ := hsuffix
    exact hlast (by rw [← hbefore, List.getLast?_concat])
  · exact hinside hin

/-- A text between asterisks, in which there are no two of them, is a marker. -/
theorem readTail_marked {marker doc : String} (hinside : ¬ "**".toList <:+: marker.toList)
    (hlast : marker.toList.getLast? ≠ some '*') (hdoc : Text.trim doc.toList = doc.toList)
    {rest : List Char} (hrest : Text.trim rest = Text.trim
      ("**".toList ++ (marker.toList ++ ("**".toList ++ [' '])) ++ doc.toList)) :
    readTail rest = .ok (if marker = "optional" then ⟨none, true, doc⟩
      else ⟨some marker, false, doc⟩) := by
  have hsep : ['*', '*'] ≠ [] := List.cons_ne_nil _ _
  have htrimmed : Text.trim rest =
      [] ++ (['*', '*'] ++ (marker.toList ++ (['*', '*'] ++ Text.trimEnd (' ' :: doc.toList)))) := by
    have hsplit : "**".toList ++ (marker.toList ++ ("**".toList ++ [' '])) ++ doc.toList =
        ['*'] ++ '*' :: (marker.toList ++ ['*'] ++ '*' :: (' ' :: doc.toList)) := by
      simp
    rw [hrest, hsplit, Text.trim_append_cons (by decide), Text.trimStart_cons (by decide),
      Text.trimEnd_append_cons (by decide)]
    simp
  have hmarker := not_infix_append_asterisk hinside hlast
  -- cutting at the asterisks gives the marker between two of them:
  have hpieces : Text.pieces ['*', '*'] (Text.trim rest) =
      [] :: marker.toList :: Text.pieces ['*', '*'] (Text.trimEnd (' ' :: doc.toList)) := by
    rw [htrimmed, Text.pieces_append hsep (by decide), Text.pieces_append hsep hmarker]
  have hstarts : Text.startsWith ['*', '*'] (Text.trim rest) = true := by
    rw [htrimmed, List.nil_append, Text.startsWith, Text.afterPrefix?_append]
    rfl
  obtain ⟨first, more, hmore⟩ := List.exists_cons_of_ne_nil
    (Text.pieces_ne_nil ['*', '*'] (Text.trimEnd (' ' :: doc.toList)))
  -- the text behind the marker is put together again:
  have hjoined : Text.trim (['*', '*'].intercalate (first :: more)) = doc.toList := by
    rw [← hmore, Text.intercalate_pieces hsep, Text.trim_trimEnd, Text.trim_cons_of_blank rfl, hdoc]
  unfold readTail
  dsimp only
  rw [if_pos hstarts, hpieces, hmore]
  dsimp only
  rw [hjoined, String.ofList_toList]
  simp only [String.toList_inj, String.ofList_toList]
  split <;> rfl

/-- An opening token is no blank. -/
theorem trimStart_opening {tokens : List Char × List Char}
    (h : tokens ∈ nameQuotes ∨ tokens ∈ typeBrackets) (rest : List Char) :
    Text.trimStart (' ' :: (tokens.1 ++ rest)) = tokens.1 ++ rest := by
  rcases h with h | h <;> rcases List.mem_pair.1 h with rfl | rfl <;> rfl

end Declaration

namespace Spelled

variable {s : Spelled} {quotes brackets : List Char × List Char}

open Declaration (nameQuotes typeBrackets)

/-- Only behind the type may blanks be lost. -/
theorem trim_text (hbrackets : brackets ∈ typeBrackets) :
    Text.trim (s.text quotes brackets).toList =
      '*' :: ' ' :: (quotes.1 ++ (s.name.toList ++ (quotes.2 ++ (' ' ::
        (brackets.1 ++ (s.type.toList ++ (brackets.2 ++ Text.trimEnd (' ' :: s.tail)))))))) := by
  obtain ⟨front, c, hlast, hc⟩ : ∃ front c, brackets.2 = front ++ [c] ∧ Text.isBlank c = false := by
    rcases List.mem_pair.1 hbrackets with rfl | rfl
    · exact ⟨[']', '`'], '`', rfl, rfl⟩
    · exact ⟨[], ']', rfl, rfl⟩
  let before := ' ' :: (quotes.1 ++ (s.name.toList ++ (quotes.2 ++ (' ' ::
    (brackets.1 ++ (s.type.toList ++ front))))))
  have hsplit : (s.text quotes brackets).toList = '*' :: before ++ c :: (' ' :: s.tail) := by
    rw [text, String.toList_ofList, hlast]
    simp [before]
  rw [hsplit, Text.trim_append_cons hc, Text.trimStart_cons (by decide), hlast]
  simp [before]

/-- What is said behind the type. -/
theorem readTail_tail (h : s.marker.Fits s.type s.doc)
    (hdoc : Text.trim s.doc.toList = s.doc.toList) {rest : List Char}
    (hrest : Text.trim rest = Text.trim s.tail) :
    Declaration.readTail rest = .ok (match s.marker with
      | .none => ⟨none, false, s.doc⟩
      | .optional => ⟨none, true, s.doc⟩
      | .default text => ⟨some text, false, s.doc⟩) := by
  unfold tail Marker.written at hrest
  cases hmarker : s.marker with
  | none =>
    rw [hmarker] at h hrest
    have hplain : Text.trim rest = s.doc.toList := hrest.trans hdoc
    -- no asterisks stand at the front, so there is no marker:
    have hstarts : Text.startsWith ['*', '*'] s.doc.toList = false := by
      rw [Text.startsWith, Option.isSome_eq_false_iff, Option.isNone_iff_eq_none,
        Option.eq_none_iff_forall_not_mem]
      intro behind hbehind
      exact h ⟨behind, (Text.eq_of_afterPrefix? hbehind).symm⟩
    unfold Declaration.readTail
    dsimp only
    rw [hplain, hstarts, String.ofList_toList]
    rfl
  | optional =>
    rw [hmarker] at hrest
    have hinside : ¬ "**".toList <:+: "optional".toList := by decide +kernel
    have hlast : "optional".toList.getLast? ≠ some '*' := by decide +kernel
    rw [Declaration.readTail_marked hinside hlast hdoc hrest, if_pos rfl]
  | default text =>
    rw [hmarker] at h hrest
    obtain ⟨-, hword, hinside, hlast⟩ := h
    rw [Declaration.readTail_marked hinside hlast hdoc hrest, if_neg hword]

/-- **A declaration is read as it was written.** -/
theorem read_text (hquotes : quotes ∈ nameQuotes) (hbrackets : brackets ∈ typeBrackets)
    (h : s.IsWritable quotes brackets) (origin : Origin) {text : String}
    (htext : Text.trim text.toList = Text.trim (s.text quotes brackets).toList) :
    Declaration.read origin text = .ok (.parameter (s.declaration origin)) := by
  have hrest : Text.trim (Text.trimStart (Text.trimEnd (' ' :: s.tail))) = Text.trim s.tail := by
    rw [Text.trim_trimStart, Text.trim_trimEnd, Text.trim_cons_of_blank rfl]
  have htail := readTail_tail h.marked h.trimmedDoc hrest
  have hmarked := h.marked
  unfold Declaration.read
  rw [htext, trim_text hbrackets]
  simp only [Text.afterPrefix?, if_true]
  rw [Declaration.trimStart_opening (.inl hquotes),
    Declaration.takeName_append hquotes h.closesName h.trimmedName, ok_bind]
  dsimp only
  rw [Declaration.trimStart_opening (.inr hbrackets)]
  simp only [pure_bind]
  rw [Declaration.takeType_append hbrackets h.closesType h.trimmedType, ok_bind]
  dsimp only
  rw [htail]
  unfold declaration
  cases hmarker : s.marker with
  | none | optional => rfl
  | default d =>
    -- the default is read by its type
    rw [hmarker] at hmarked
    obtain ⟨⟨p, v, htype, hvalue⟩, -⟩ := hmarked
    simp only [htype, ok_bind, Declaration.readDefault, hvalue]
    simp [Marker.value?, TypeRef.primitive?, hvalue, Except.toOption]

end Spelled

/-! ## Broken lines -/

namespace IsBroken

/-- Prose is not blank. -/
theorem head?_of_prose {l : String} (h : LineKind.ofText l = .prose) : l.toList ≠ [] := by
  intro hnil
  simp [LineKind.ofText, hnil, Text.trim, Text.trimStart, Text.trimEnd] at h

/-- Lines that are broken apart are joined again, whatever stands at the end of the last. -/
theorem intercalate_trim {ls : List (List Char)}
    (hapart : ls.IsChain fun l m =>
      l.getLast?.any Text.isBlank = false ∧ m.head?.any Text.isBlank = false)
    (hfront : ∀ l ∈ ls.head?, l.head?.any Text.isBlank = false)
    (hfull : ∀ l ∈ ls.tail, l ≠ []) :
    [' '].intercalate (ls.map Text.trim) = Text.trimEnd ([' '].intercalate ls) := by
  induction ls with
  | nil => rfl
  | cons l ls ih =>
    have hl := (Option.any_eq_false _ _).1 (hfront l rfl)
    cases ls with
    | nil =>
      have hstart : Text.trimStart l = l := by
        cases l with
        | nil => rfl
        | cons c l => exact Text.trimStart_cons (hl c rfl) l
      simp [Text.trim, hstart]
    | cons m ls =>
      obtain ⟨⟨hend, hstart⟩, hlater⟩ := List.isChain_cons_cons.1 hapart
      have hm : m ≠ [] := hfull m List.mem_cons_self
      obtain ⟨c, m, rfl⟩ := List.exists_cons_of_ne_nil hm
      have hrest := ih hlater (by simpa using hstart) fun l hl =>
        hfull l (List.mem_cons_of_mem _ hl)
      -- neither line ends or begins with a blank where they meet:
      have htrim : Text.trim l = l := Text.trim_of_ends hl ((Option.any_eq_false _ _).1 hend)
      obtain ⟨behind, hbehind⟩ : ∃ behind, [' '].intercalate ((c :: m) :: ls) = c :: behind := by
        cases ls with
        | nil => exact ⟨m, List.intercalate_singleton⟩
        | cons => rw [List.intercalate_cons_cons]; exact ⟨_, rfl⟩
      have hc : Text.isBlank c = false := hstart
      rw [List.map_cons, List.map_cons, List.intercalate_cons_cons, ← List.map_cons, hrest,
        List.intercalate_cons_cons, hbehind, Text.trimEnd_append_cons hc, htrim]
      exact congrArg (l ++ [' '] ++ ·) (Text.trimEnd_append_cons hc [] behind)

/-- The first line of a text that starts with an asterisk and a blank. -/
theorem first_of_asterisk {l rest : List Char} {ls : List (List Char)}
    (h : [' '].intercalate (l :: ls) = '*' :: ' ' :: rest) :
    l = ['*'] ∨ ∃ t, l = '*' :: ' ' :: t := by
  cases ls with
  | nil =>
    rw [List.intercalate_singleton] at h
    exact .inr ⟨rest, h⟩
  | cons m ls =>
    rw [List.intercalate_cons_cons, List.append_assoc] at h
    cases l with
    | nil => simp at h
    | cons a l =>
      cases l with
      | nil => exact .inl (by simp_all)
      | cons b l => exact .inr ⟨l, by simp_all⟩

/-- What starts with an asterisk and a blank is a declaration. -/
theorem ofText_of_asterisk {l : String}
    (h : l.toList = ['*'] ∨ ∃ t, l.toList = '*' :: ' ' :: t) : LineKind.ofText l = .declaration := by
  have htrim : ∃ t, Text.trim l.toList = '*' :: t ∧ ∀ c ∈ t.head?, c = ' ' := by
    rcases h with h | ⟨t, h⟩
    · exact ⟨[], by rw [h]; rfl, by simp⟩
    · have hline := Text.trim_append_cons (show Text.isBlank '*' = false from rfl) [] (' ' :: t)
      refine ⟨Text.trimEnd (' ' :: t), by rw [h]; exact hline, ?_⟩
      rw [Text.trimEnd_cons_of_blank rfl]
      split <;> simp
  obtain ⟨t, htrim, hnext⟩ := htrim
  have hheader : LineKind.headerName? ('*' :: t) = none := rfl
  have hsecond : Text.startsWith ['*', '*'] ('*' :: t) = false := by
    cases t with
    | nil => rfl
    | cons c t =>
      obtain rfl := hnext c rfl
      rfl
  unfold LineKind.ofText
  rw [htrim, if_neg (List.cons_ne_nil _ _), hheader, hsecond]
  rfl

end IsBroken

namespace Token

/-- A declaration takes the prose below it. -/
theorem ofLines_declaration {l : CommentLine} {below : List CommentLine}
    (hl : l.kind = .declaration) (hbelow : ∀ m ∈ below, m.kind = .prose) :
    ofLines (l :: below) = [⟨l.number, .declaration (l.gathered below)⟩] := by
  have hprose : ∀ t ∈ ofLines below, t.proseText?.isSome = true := by
    induction below with
    | nil => exact List.forall_mem_nil _
    | cons m below ih =>
      obtain ⟨hm, hlater⟩ := List.forall_mem_cons.1 hbelow
      unfold CommentLine.kind at hm
      simp only [ofLines, hm]
      exact List.forall_mem_cons.2 ⟨rfl, ih hlater⟩
  unfold CommentLine.kind at hl
  simp only [ofLines, hl]
  rw [joined_ofLines, List.dropWhile_eq_nil_iff.2 hprose]

end Token

namespace IsBroken

/-- Broken lines are joined to the text that they were broken from. -/
theorem trim_gathered {text : String} {l : CommentLine} {below : List CommentLine}
    (h : IsBroken text ((l :: below).map (·.text)))
    (hfront : l.text.toList.head?.any Text.isBlank = false) :
    Text.trim (l.gathered below).toList = Text.trim text.toList := by
  have hbelow : below.takeWhile (·.kind = .prose) = below := by
    apply List.takeWhile_eq_self_iff.2
    intro m hm
    exact decide_eq_true (h.prose m.text (List.mem_map_of_mem hm))
  have hapart : (((l :: below).map (·.text)).map String.toList).IsChain fun l m =>
      l.getLast?.any Text.isBlank = false ∧ m.head?.any Text.isBlank = false :=
    (List.isChain_map String.toList).2 h.apart
  have hjoined := intercalate_trim hapart (by simpa using hfront) (by
    intro t ht
    obtain ⟨m, hm, rfl⟩ : ∃ m ∈ below.map (·.text), m.toList = t := by simpa using ht
    exact head?_of_prose (h.prose m hm))
  have hgathered : (l.gathered below).toList =
      [' '].intercalate ((((l :: below).map (·.text)).map String.toList).map Text.trim) := by
    unfold CommentLine.gathered
    rw [hbelow, String.toList_intercalate]
    simp [Text.trimmed, Function.comp_def]
  rw [hgathered, hjoined, Text.trim_trimEnd, ← h.joined, String.toList_intercalate]
  simp

end IsBroken

/-! ## Reading lines -/

namespace Scope

/-- A parameter alone, in a scope without a header. -/
theorem readAll_parameter {file : String} {line : Nat} {text : String} {d : Declaration}
    (hread : Declaration.read ⟨file, line⟩ text = .ok (.parameter d)) (hvisible : d.visible = [d])
    (stem : String) (lastLine : Nat) :
    readAll file stem lastLine [⟨line, .declaration text⟩] =
      .ok [⟨Naming.ofStem stem, [.parameters [d]], [], [], [], [], ⟨file, line⟩⟩] := by
  have hfront : Token.fromFirstMark [⟨line, .declaration text⟩] = [⟨line, .declaration text⟩] := rfl
  have hdeclaration : ScopeContext.readDeclaration ⟨file, lastLine, none⟩ line text =
      .ok (.parameter d) := ScopeContext.readDeclaration_eq_ok.2 hread
  rw [readAll_eq, hfront, read_cons]
  dsimp only
  rw [hdeclaration, ok_bind]
  dsimp only
  rw [read, ok_bind]
  dsimp only
  rw [readHeaded, ok_bind, hvisible]
  rfl

end Scope

namespace Definition

/-- **The syntax of declarations reads back.** In either kind of quotes and brackets, and on one
line or broken into several, a declaration is read as the parameter that it was written for. -/
theorem readLines_spelled {quotes brackets : List Char × List Char}
    (hquotes : quotes ∈ Declaration.nameQuotes) (hbrackets : brackets ∈ Declaration.typeBrackets)
    {s : Spelled} (h : s.IsWritable quotes brackets) {l : CommentLine} {below : List CommentLine}
    (hlines : IsBroken (s.text quotes brackets) ((l :: below).map (·.text)))
    (file stem : String) :
    readLines file stem (l :: below) =
      .ok [{ name := Naming.ofStem stem
             parts := [.parameters [s.declaration ⟨file, l.number⟩]]
             evaluators := []
             keys := []
             includes := []
             dependencies := []
             origin := ⟨file, l.number⟩ }] := by
  have hjoined : [' '].intercalate ((((l :: below).map (·.text)).map String.toList)) =
      (s.text quotes brackets).toList := by
    rw [← hlines.joined, String.toList_intercalate]
    rfl
  have hasterisk : ∃ rest, (s.text quotes brackets).toList = '*' :: ' ' :: rest :=
    ⟨_, String.toList_ofList⟩
  obtain ⟨rest, hrest⟩ := hasterisk
  -- the asterisk in front makes the first line a declaration, and the others are prose:
  have hfirst : l.text.toList = ['*'] ∨ ∃ t, l.text.toList = '*' :: ' ' :: t :=
    IsBroken.first_of_asterisk (hjoined.trans hrest)
  have hfront : l.text.toList.head?.any Text.isBlank = false := by
    rcases hfirst with hl | ⟨t, hl⟩ <;> (rw [hl]; rfl)
  have htokens : Token.ofLines (l :: below) = [⟨l.number, .declaration (l.gathered below)⟩] :=
    Token.ofLines_declaration (IsBroken.ofText_of_asterisk hfirst) fun m hm =>
      hlines.prose m.text (List.mem_map_of_mem hm)
  have hread := Spelled.read_text hquotes hbrackets h ⟨file, l.number⟩ (hlines.trim_gathered hfront)
  have hvisible : (s.declaration ⟨file, l.number⟩).visible = [s.declaration ⟨file, l.number⟩] := by
    unfold Declaration.visible Declaration.isPrivate
    rw [if_neg]
    simpa [Spelled.declaration] using h.visible
  unfold readLines
  rw [htokens]
  exact Scope.readAll_parameter hread hvisible stem _

/-- A default with a blank and an asterisk, and asterisks in the comment. -/
def exampleSpelled : Spelled := ⟨"it`s", "string", .default "*a b", "see **c** there"⟩

def exampleFirst : CommentLine := ⟨"* `\"it`s`\" ``[string]`` ***a", 4⟩

def exampleProse : List CommentLine := [⟨"b** see **c**", 5⟩, ⟨"there", 6⟩]

theorem readLines_spelled_exampleSpelled :
    exampleSpelled.IsWritable ("`\"".toList, "`\"".toList) ("``[".toList, "]``".toList) ∧
    IsBroken (exampleSpelled.text ("`\"".toList, "`\"".toList) ("``[".toList, "]``".toList))
      ((exampleFirst :: exampleProse).map (·.text)) ∧
    readLines "example.hh" "example" (exampleFirst :: exampleProse) =
      .ok [⟨"example-spec", [.parameters [⟨"it`s", .primitive (.scalar .string),
        some (.string "*a b"), true, "see **c** there", ⟨"example.hh", 4⟩⟩]], [], [], [], [],
        ⟨"example.hh", 4⟩⟩] := by
  have hwritable : exampleSpelled.IsWritable ("`\"".toList, "`\"".toList)
      ("``[".toList, "]``".toList) := by
    refine ⟨?_, ?_, ?_, ?_, ?_, ?_, ⟨.scalar .string, .string "*a b", ?_, ?_⟩, ?_, ?_, ?_⟩
    all_goals decide +kernel
  have hbroken : IsBroken
      (exampleSpelled.text ("`\"".toList, "`\"".toList) ("``[".toList, "]``".toList))
      ((exampleFirst :: exampleProse).map (·.text)) := by
    constructor <;> decide +kernel
  refine ⟨hwritable, hbroken, ?_⟩
  exact readLines_spelled (by decide) (by decide) hwritable hbroken "example.hh" "example"

end Definition

end SpecTree
