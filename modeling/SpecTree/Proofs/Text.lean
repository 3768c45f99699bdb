import Mathlib.Data.List.DropRight
import Mathlib.Data.List.TakeWhile
import SpecTree.Text.Blank
import SpecTree.Text.Cut

/-!
# Laws of texts

Trimming, splitting and cutting at a separator, and taking off a prefix or a suffix. Main
statements:

* `trim_append_cons`, `trim_of_ends`, `trim_eq_nil_iff`: what trimming takes away;
* `trimStart_trimEnd`: it does not matter which end is trimmed first;
* `splitOnChar_intercalate`: joined parts come apart again, if the separator is in none of them;
* `not_mem_of_mem_splitOnChar`: and no part that was split off holds the separator;
* `cutAt?_append`, `pieces_append`: a cut is made where the separator occurs first;
* `intercalate_pieces`: the pieces of a text are joined to the text;
* `withoutPrefix?_eq_some_iff`, `withoutSuffix?_eq_some_iff`: what is left is what was put on.
-/

namespace SpecTree.Text

/-! ## Trimming -/

theorem dropWhile_append_cons {α : Type} {p : α → Bool} {a : α} (ha : p a = false)
    (before after : List α) :
    (before ++ a :: after).dropWhile p = before.dropWhile p ++ a :: after := by
  rw [List.dropWhile_append, List.dropWhile_cons_of_neg (Bool.not_eq_true _ ▸ ha)]
  split
  · next hempty => rw [List.isEmpty_iff.1 hempty, List.nil_append]
  · rfl

/-- Trimming at the end does not go past what is not blank. -/
theorem trimEnd_append_cons {c : Char} (hc : isBlank c = false) (before after : List Char) :
    trimEnd (before ++ c :: after) = before ++ c :: trimEnd after := by
  unfold trimEnd
  rw [List.reverse_append, List.reverse_cons, List.append_assoc, List.singleton_append,
    dropWhile_append_cons hc]
  simp

/-- Trimming does not go past what is not blank. -/
theorem trim_append_cons {c : Char} (hc : isBlank c = false) (before after : List Char) :
    trim (before ++ c :: after) = trimStart before ++ c :: trimEnd after := by
  have hstart : trimStart (before ++ c :: after) = trimStart before ++ c :: after :=
    dropWhile_append_cons hc before after
  unfold trim
  rw [hstart, trimEnd_append_cons hc]

/-- A text that begins with no blank begins as it was. -/
theorem trimStart_cons {c : Char} (hc : isBlank c = false) (s : List Char) :
    trimStart (c :: s) = c :: s :=
  List.dropWhile_cons_of_neg (Bool.not_eq_true _ ▸ hc)

/-- A text that ends with no blank ends as it was. -/
theorem trimEnd_append_singleton {c : Char} (hc : isBlank c = false) (s : List Char) :
    trimEnd (s ++ [c]) = s ++ [c] := by
  unfold trimEnd
  rw [List.reverse_append, List.reverse_singleton, List.singleton_append,
    List.dropWhile_cons_of_neg (Bool.not_eq_true _ ▸ hc), List.reverse_cons, List.reverse_reverse]

/-- From a text that neither begins nor ends with a blank nothing is taken away. -/
theorem trim_of_ends {s : List Char} (hhead : ∀ c ∈ s.head?, isBlank c = false)
    (hlast : ∀ c ∈ s.getLast?, isBlank c = false) : trim s = s := by
  have hstart : trimStart s = s := by
    cases s with
    | nil => rfl
    | cons c s => exact trimStart_cons (hhead c rfl) s
  have hend : trimEnd s = s := by
    rcases s.eq_nil_or_concat with rfl | ⟨t, c, rfl⟩
    · rfl
    · rw [List.concat_eq_append] at hlast ⊢
      exact trimEnd_append_singleton (hlast c List.getLast?_concat) t
  unfold trim
  rw [hstart, hend]

/-- From a text without blanks nothing is taken away. -/
theorem trim_of_forall {s : List Char} (h : ∀ c ∈ s, isBlank c = false) : trim s = s :=
  trim_of_ends (fun c hc => h c (List.mem_of_head? hc)) fun c hc => h c (List.mem_of_getLast? hc)

/-- A trimmed text does not begin with a blank. -/
theorem isBlank_of_head?_trim {s : List Char} {c : Char} (h : c ∈ (trim s).head?) :
    isBlank c = false := by
  have hprefix : trim s <+: (trimStart s).reverse.reverse :=
    List.reverse_prefix.2 (List.dropWhile_suffix _)
  rw [List.reverse_reverse] at hprefix
  obtain ⟨rest, hrest⟩ := hprefix
  have hhead := List.head?_dropWhile_not isBlank s
  rw [show s.dropWhile isBlank = trimStart s from rfl, ← hrest, List.head?_append, h] at hhead
  exact hhead

/-- A trimmed text does not end with a blank. -/
theorem isBlank_of_getLast?_trim {s : List Char} {c : Char} (h : c ∈ (trim s).getLast?) :
    isBlank c = false := by
  have hhead := List.head?_dropWhile_not isBlank (trimStart s).reverse
  unfold trim trimEnd at h
  rw [List.getLast?_reverse] at h
  rw [h] at hhead
  exact hhead

/-- A text is trimmed to nothing if it is all blank. -/
theorem trim_eq_nil_iff {s : List Char} : trim s = [] ↔ ∀ c ∈ s, isBlank c = true := by
  unfold trim trimEnd trimStart
  rw [List.reverse_eq_nil_iff, List.dropWhile_eq_nil_iff]
  constructor
  · intro h
    refine List.dropWhile_eq_nil_iff.1 ?_
    -- what is not dropped at the start would begin with no blank:
    by_contra hne
    have hhead := List.head_dropWhile_not isBlank hne
    have hblank := h _ (List.mem_reverse.2 (List.head_mem hne))
    rw [hhead] at hblank
    cases hblank
  · intro h c hc
    rw [List.dropWhile_eq_nil_iff.2 h] at hc
    cases hc

theorem trimEnd_cons_of_blank {c : Char} (hc : isBlank c = true) (s : List Char) :
    trimEnd (c :: s) = if trimEnd s = [] then [] else c :: trimEnd s := by
  unfold trimEnd
  rw [List.reverse_cons, List.dropWhile_append, List.dropWhile_cons_of_pos hc, List.dropWhile_nil]
  cases s.reverse.dropWhile isBlank with
  | nil => rfl
  | cons d t => simp

theorem trimEnd_trimEnd (s : List Char) : trimEnd (trimEnd s) = trimEnd s := by
  unfold trimEnd
  rw [List.reverse_reverse, List.dropWhile_idempotent]

/-- It does not matter which end is trimmed first. -/
theorem trimStart_trimEnd (s : List Char) : trimStart (trimEnd s) = trim s := by
  unfold trim
  induction s with
  | nil => rfl
  | cons c s ih =>
    by_cases hc : isBlank c = true
    · have hstart : ∀ t, trimStart (c :: t) = trimStart t := fun t => List.dropWhile_cons_of_pos hc
      rw [hstart, ← ih, trimEnd_cons_of_blank hc]
      split
      · next hnil => rw [hnil]
      · exact hstart _
    · have hc : isBlank c = false := Bool.eq_false_iff.2 hc
      have hend : trimEnd (c :: s) = c :: trimEnd s := trimEnd_append_cons hc [] s
      rw [hend, trimStart_cons hc, trimStart_cons hc, hend]

theorem trim_trimEnd (s : List Char) : trim (trimEnd s) = trim s := by
  unfold trim
  rw [trimStart_trimEnd]
  exact trimEnd_trimEnd _

theorem trim_trimStart (s : List Char) : trim (trimStart s) = trim s := by
  unfold trim trimStart
  rw [List.dropWhile_idempotent]

theorem trim_cons_of_blank {c : Char} (hc : isBlank c = true) (s : List Char) :
    trim (c :: s) = trim s := by
  unfold trim trimStart
  rw [List.dropWhile_cons_of_pos hc]

/-! ## Splitting -/

theorem splitOnChar_ne_nil (sep : Char) (s : List Char) : splitOnChar sep s ≠ [] := by
  cases s with
  | nil => exact List.cons_ne_nil _ _
  | cons c s =>
    unfold splitOnChar
    split
    · exact List.cons_ne_nil _ _
    · split <;> exact List.cons_ne_nil _ _

theorem splitOnChar_append (sep : Char) (s t : List Char) :
    splitOnChar sep (s ++ sep :: t) = splitOnChar sep s ++ splitOnChar sep t := by
  induction s with
  | nil => simp [splitOnChar]
  | cons c s ih =>
    rw [List.cons_append, splitOnChar, splitOnChar, ih]
    split
    · rfl
    · obtain ⟨part, parts, hparts⟩ := List.exists_cons_of_ne_nil (splitOnChar_ne_nil sep s)
      rw [hparts]
      rfl

/-- A text without the separator is one part. -/
theorem splitOnChar_of_not_mem {sep : Char} {s : List Char} (h : sep ∉ s) :
    splitOnChar sep s = [s] := by
  induction s with
  | nil => rfl
  | cons c s ih =>
    rw [List.mem_cons, not_or] at h
    rw [splitOnChar, if_neg (Ne.symm h.1), ih h.2]

/-- Parts without the separator come apart as they were joined. -/
theorem splitOnChar_intercalate {sep : Char} {parts : List (List Char)} (hne : parts ≠ [])
    (h : ∀ part ∈ parts, sep ∉ part) :
    splitOnChar sep ([sep].intercalate parts) = parts := by
  induction parts with
  | nil => exact absurd rfl hne
  | cons part parts ih =>
    have hpart := splitOnChar_of_not_mem (h part List.mem_cons_self)
    cases parts with
    | nil => rwa [List.intercalate_singleton]
    | cons next rest =>
      have hrest := ih (List.cons_ne_nil _ _) fun p hp => h p (List.mem_cons_of_mem _ hp)
      rw [List.intercalate_cons_cons, List.append_assoc, List.singleton_append,
        splitOnChar_append, hpart, hrest, List.singleton_append]

/-- The separator is in none of the parts. -/
theorem not_mem_of_mem_splitOnChar {sep : Char} {s part : List Char}
    (h : part ∈ splitOnChar sep s) : sep ∉ part := by
  induction s generalizing part with
  | nil =>
    rw [List.mem_singleton.1 h]
    exact List.not_mem_nil
  | cons c s ih =>
    obtain ⟨first, rest, hsplit⟩ := List.exists_cons_of_ne_nil (splitOnChar_ne_nil sep s)
    rw [splitOnChar, hsplit] at h
    rw [hsplit] at ih
    split at h
    · rcases List.mem_cons.1 h with rfl | h
      · exact List.not_mem_nil
      · exact ih h
    · next hc =>
      rcases List.mem_cons.1 h with rfl | h
      · rw [List.mem_cons, not_or]
        exact ⟨Ne.symm hc, ih List.mem_cons_self⟩
      · exact ih (List.mem_cons_of_mem _ h)

/-! ## Cutting -/

/-- A text is cut at the first occurrence of a separator: none begins before. -/
theorem cutAt?_append {sep s : List Char} (hsep : sep ≠ []) (h : ¬ sep <:+: s ++ sep.dropLast)
    (r : List Char) : cutAt? sep (s ++ (sep ++ r)) = some (s, r) := by
  induction s with
  | nil =>
    obtain ⟨c, p, rfl⟩ := List.exists_cons_of_ne_nil hsep
    rw [List.nil_append, List.cons_append, cutAt?, ← List.cons_append, afterPrefix?_append]
  | cons c s ih =>
    -- no separator begins before the end of the piece:
    have hnone : afterPrefix? sep (c :: (s ++ (sep ++ r))) = none := by
      rw [Option.eq_none_iff_forall_not_mem]
      intro rest hrest
      have hsplit : sep ++ r = sep.dropLast ++ ([sep.getLast hsep] ++ r) := by
        rw [← List.append_assoc, List.dropLast_append_getLast hsep]
      have hprefix : sep <+: c :: s ++ sep.dropLast ++ ([sep.getLast hsep] ++ r) := by
        refine ⟨rest, (eq_of_afterPrefix? hrest).symm.trans ?_⟩
        rw [hsplit, List.append_assoc]
        rfl
      have hlength : sep.length ≤ (c :: s ++ sep.dropLast).length := by
        simp only [List.cons_append, List.length_cons, List.length_append, List.length_dropLast]
        omega
      exact h (List.prefix_of_prefix_length_le hprefix (List.prefix_append _ _) hlength).isInfix
    have hlater : ¬ sep <:+: s ++ sep.dropLast := by
      intro hin
      exact h (hin.trans (List.suffix_cons c _).isInfix)
    rw [List.cons_append, cutAt?, hnone, ih hlater]
    rfl

theorem pieces_ne_nil (sep s : List Char) : pieces sep s ≠ [] := by
  unfold pieces
  repeat' split
  all_goals exact List.cons_ne_nil _ _

/-- The pieces of a text are joined to the text. -/
theorem intercalate_pieces {sep : List Char} (hsep : sep ≠ []) (s : List Char) :
    sep.intercalate (pieces sep s) = s := by
  fun_induction pieces sep s with
  | case1 s h => exact List.intercalate_singleton
  | case2 s before rest h hnil => exact absurd hnil hsep
  | case3 s before rest h hnil ih =>
    rw [List.intercalate_cons_of_ne_nil (pieces_ne_nil sep rest), ih, eq_of_cutAt? h]

/-- A separator whose first character does not come again does not begin at the end of a text and
go on behind it. -/
theorem not_infix_append_dropLast {a : Char} {p s : List Char} (ha : a ∉ p)
    (h : ¬ a :: p <:+: s) : ¬ a :: p <:+: s ++ (a :: p).dropLast := by
  rw [List.infix_append_iff_ne_nil]
  rintro (hs | hlast | ⟨front, back, hfront, hback, hsplit, -, rest, hrest⟩)
  · exact h hs
  · have hlength := hlast.length_le
    rw [List.length_dropLast, List.length_cons] at hlength
    omega
  · obtain ⟨b, front, rfl⟩ := List.exists_cons_of_ne_nil hfront
    obtain ⟨c, back, rfl⟩ := List.exists_cons_of_ne_nil hback
    obtain ⟨rfl, rfl⟩ := List.cons.inj hsplit
    -- the rest of the separator would begin as the separator does
    rw [List.dropLast_cons_of_ne_nil (by simp)] at hrest
    obtain ⟨rfl, -⟩ := List.cons.inj hrest
    exact ha (by simp)

/-- The piece before the first separator. -/
theorem pieces_append {sep s : List Char} (hsep : sep ≠ []) (h : ¬ sep <:+: s ++ sep.dropLast)
    (r : List Char) : pieces sep (s ++ (sep ++ r)) = s :: pieces sep r := by
  rw [pieces]
  split
  · next hnone =>
    rw [cutAt?_append hsep h] at hnone
    cases hnone
  · next before rest hcut =>
    rw [cutAt?_append hsep h] at hcut
    cases hcut
    rw [dif_neg hsep]

/-! ## Prefixes and suffixes -/

theorem withoutPrefix?_eq_some_iff {p s r : String} : withoutPrefix? p s = some r ↔ s = p ++ r := by
  unfold withoutPrefix?
  rw [Option.map_eq_some_iff]
  constructor
  · rintro ⟨rest, hrest, rfl⟩
    rw [← String.toList_inj, String.toList_append, String.toList_ofList]
    exact eq_of_afterPrefix? hrest
  · rintro rfl
    rw [String.toList_append]
    exact ⟨r.toList, afterPrefix?_append _ _, String.ofList_toList⟩

theorem withoutSuffix?_eq_some_iff {p s r : String} : withoutSuffix? p s = some r ↔ s = r ++ p := by
  unfold withoutSuffix? beforeSuffix?
  rw [Option.map_map, Option.map_eq_some_iff]
  constructor
  · rintro ⟨rest, hrest, rfl⟩
    rw [← String.toList_inj, String.toList_append, Function.comp_apply, String.toList_ofList,
      ← List.reverse_inj, List.reverse_append, List.reverse_reverse]
    exact eq_of_afterPrefix? hrest
  · rintro rfl
    rw [String.toList_append, List.reverse_append]
    refine ⟨r.toList.reverse, afterPrefix?_append _ _, ?_⟩
    rw [Function.comp_apply, List.reverse_reverse, String.ofList_toList]

end SpecTree.Text
