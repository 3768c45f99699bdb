import SpecTree.Proofs.Numeral
import SpecTree.Result
import SpecTree.Value.Text

/-!
# Text forms that read back

The text of a value is read as the value again, unless a string is lost in an array: the items stand
between commas that are not escaped, and an array of blanks is an empty one. Doubles are left out,
since their text is rounded. Main statements:

* `Value.splitArray?_arrayText_iff`: which items come apart again;
* `Value.parse_toText_iff`: which values read back.
-/

namespace SpecTree.Value

/-! ## Single values -/

theorem parseInt?_intText (n : Int64) : parseInt? (intText n) = some n :=
  Number.int?_toString n

theorem parseBool?_boolText (b : Bool) : parseBool? (boolText b) = some b := by
  cases b <;> decide

/-! ## Arrays -/

/-- The items of an array, joined by commas. -/
def joined (items : List String) : List Char := [','].intercalate (items.map String.toList)

theorem toList_arrayText (items : List String) :
    (arrayText items).toList = '\x7b' :: (joined items ++ ['\x7d']) := by
  unfold arrayText joined
  rw [String.toList_append, String.toList_append, String.toList_intercalate]
  rfl

/-- Between its braces an array is read as it was joined. -/
theorem splitArray?_arrayText (items : List String) :
    splitArray? (arrayText items) =
      if Text.trim (joined items) = [] then some []
      else some ((Text.splitOnChar ',' (joined items)).map String.ofList) := by
  have htrim : Text.trim (arrayText items).toList = '\x7b' :: (joined items ++ ['\x7d']) := by
    have hopen := Text.trim_append_cons (c := '\x7b') (by decide) [] (joined items ++ ['\x7d'])
    rw [Text.trimEnd_append_singleton (by decide)] at hopen
    rw [toList_arrayText]
    exact hopen
  have hopened : Text.afterPrefix? ['\x7b'] ('\x7b' :: (joined items ++ ['\x7d']))
      = some (joined items ++ ['\x7d']) := rfl
  have hinner : Text.beforeSuffix? ['\x7d'] (joined items ++ ['\x7d']) = some (joined items) := by
    simp [Text.beforeSuffix?, Text.afterPrefix?]
  unfold splitArray?
  rw [htrim, hopened]
  simp only [Option.bind_eq_bind, Option.bind_some, hinner]

/-- Joined items are all blank if there are none, or a single one that is all blank. -/
theorem trim_joined_eq_nil_iff {items : List String} :
    Text.trim (joined items) = [] ↔
      items = [] ∨ ∃ s, items = [s] ∧ ∀ c ∈ s.toList, Text.isBlank c = true := by
  rw [Text.trim_eq_nil_iff]
  unfold joined
  cases items with
  | nil => simp
  | cons s rest =>
    cases rest with
    | nil => simp
    | cons t rest =>
      -- between two items there is a comma:
      refine iff_of_false (fun h => ?_) (by simp)
      have hcomma : ',' ∈ [','].intercalate ((s :: t :: rest).map String.toList) := by simp
      cases h _ hcomma

/-- The items of an array come apart again, if no comma is in any of them and there is not a single
one that is all blank. -/
theorem splitArray?_arrayText_iff {items : List String} :
    splitArray? (arrayText items) = some items ↔
      (∀ s ∈ items, ',' ∉ s.toList) ∧
        ¬ ∃ s, items = [s] ∧ ∀ c ∈ s.toList, Text.isBlank c = true := by
  rw [splitArray?_arrayText]
  split
  · next hblank =>
    rcases trim_joined_eq_nil_iff.1 hblank with rfl | ⟨s, rfl, hs⟩
    · simp
    · exact iff_of_false nofun fun h => h.2 ⟨s, rfl, hs⟩
  · next hblank =>
    rw [trim_joined_eq_nil_iff, not_or] at hblank
    constructor
    · intro hsplit
      refine ⟨?_, hblank.2⟩
      intro s hs
      rw [← Option.some.inj hsplit] at hs
      obtain ⟨part, hpart, rfl⟩ := List.mem_map.1 hs
      rw [String.toList_ofList]
      exact Text.not_mem_of_mem_splitOnChar hpart
    · rintro ⟨hcomma, -⟩
      -- without commas inside, cutting undoes joining:
      have hparts : Text.splitOnChar ',' (joined items) = items.map String.toList := by
        refine Text.splitOnChar_intercalate (by simp [hblank.1]) ?_
        intro part hpart
        obtain ⟨s, hs, rfl⟩ := List.mem_map.1 hpart
        exact hcomma s hs
      rw [hparts, List.map_map]
      simp [Function.comp_def]

/-- Items that are each read from their text are read from the texts of all. -/
theorem parseItems_map {α : Type} {target : Scalar} {read : String → Option α}
    {write : α → String} (h : ∀ a, read (write a) = some a) (as : List α) :
    parseItems target read (as.map write) = .ok as := by
  unfold parseItems
  induction as with
  | nil => rfl
  | cons a as ih =>
    rw [List.map_cons, List.mapM_cons]
    simp only [h, ih]
    rfl

/-- Does a text hold no comma, and something that is not blank? -/
def IsItem (s : String) : Prop :=
  ',' ∉ s.toList ∧ ∃ c ∈ s.toList, Text.isBlank c = false

/-- Such items come apart again, however many there are. -/
theorem splitArray?_map {α : Type} {write : α → String} (h : ∀ a, IsItem (write a))
    (as : List α) : splitArray? (arrayText (as.map write)) = some (as.map write) := by
  rw [splitArray?_arrayText_iff]
  constructor
  · intro s hs
    obtain ⟨a, -, rfl⟩ := List.mem_map.1 hs
    exact (h a).1
  · rintro ⟨s, hs, hblank⟩
    obtain ⟨a, -, rfl⟩ := List.mem_map.1 (hs ▸ List.mem_singleton_self s)
    obtain ⟨c, hc, hnot⟩ := (h a).2
    rw [hblank c hc] at hnot
    cases hnot

/-! ## Values -/

theorem isItem_intText (n : Int64) : IsItem (intText n) := by
  constructor
  · intro hcomma
    rcases Number.cases_of_mem_toString hcomma with h | h <;> cases h
  · obtain ⟨c, hc⟩ := List.exists_mem_of_ne_nil _ (Number.toList_toString_ne_nil n.toInt)
    exact ⟨c, hc, Number.isBlank_of_mem_toString hc⟩

theorem isItem_boolText (b : Bool) : IsItem (boolText b) := by
  cases b
  · exact ⟨by decide, 'f', by decide, rfl⟩
  · exact ⟨by decide, 't', by decide, rfl⟩

/-- A text is read as an array of strings whatever its items are. -/
theorem parse_strings_iff {text : String} {ss : List String} :
    parse (.array .string) text = .ok (.strings ss) ↔ splitArray? text = some ss := by
  unfold parse
  cases splitArray? text with
  | none => simp
  | some items => simp [ofItems]

/-- **Text forms read back**, but for the strings of an array that hold commas, and for a single one
that is all blank. -/
theorem parse_toText_iff {v : Value} (h : v.type.element ≠ .double) :
    parse v.type v.toText = .ok v ↔
      ¬ ∃ ss, v = .strings ss ∧
        ((∃ s ∈ ss, ',' ∈ s.toList) ∨ ∃ s, ss = [s] ∧ ∀ c ∈ s.toList, Text.isBlank c = true) := by
  cases v with
  | double x => exact absurd rfl h
  | doubles xs => exact absurd rfl h
  | int n =>
    refine iff_of_true ?_ (by simp)
    show parse (.scalar .int) (intText n) = _
    simp only [parse, parseInt?_intText, Option.map_some]
  | bool b =>
    refine iff_of_true ?_ (by simp)
    show parse (.scalar .bool) (boolText b) = _
    simp only [parse, parseBool?_boolText, Option.map_some]
  | string s => exact iff_of_true rfl (by simp)
  | ints ns =>
    refine iff_of_true ?_ (by simp)
    show parse (.array .int) (arrayText (ns.map intText)) = _
    simp only [parse, splitArray?_map isItem_intText, ofItems, parseItems_map parseInt?_intText]
    rfl
  | bools bs =>
    refine iff_of_true ?_ (by simp)
    show parse (.array .bool) (arrayText (bs.map boolText)) = _
    simp only [parse, splitArray?_map isItem_boolText, ofItems, parseItems_map parseBool?_boolText]
    rfl
  | strings ss =>
    show parse (.array .string) (arrayText ss) = .ok (.strings ss) ↔ _
    rw [parse_strings_iff, splitArray?_arrayText_iff]
    simp

/-- Blanks and braces beside other items are read back, a blank alone is not. -/
theorem parse_toText_iff_exampleItems :
    (Value.strings [" a", "", "\x7d"]).type.element ≠ .double ∧
      parse (.array .string) (arrayText [" a", "", "\x7d"]) = .ok (.strings [" a", "", "\x7d"]) ∧
      parse (.array .string) (arrayText [" "]) ≠ .ok (.strings [" "]) := by
  refine ⟨by decide, ?_, fun hread => ?_⟩
  · exact (parse_toText_iff (v := .strings [" a", "", "\x7d"]) (by decide)).2 (by simp)
  · have hblank : ∀ c ∈ " ".toList, Text.isBlank c = true := by
      intro c hc
      rw [List.mem_singleton.1 hc]
      rfl
    exact (parse_toText_iff (v := .strings [" "]) (by decide)).1 hread
      ⟨[" "], rfl, .inr ⟨" ", rfl, hblank⟩⟩

end SpecTree.Value
