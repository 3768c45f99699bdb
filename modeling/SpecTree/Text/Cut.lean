/-!
# Cutting text at delimiters

Prefixes, suffixes and separators of texts, given as lists of characters. Main statement:
`eq_of_cutAt?`, a cut loses nothing but one copy of the separator.
-/

namespace SpecTree.Text

/-- What follows the prefix `p` of `s`, if `s` starts with it. -/
def afterPrefix? : List Char → List Char → Option (List Char)
  | [], s => some s
  | _ :: _, [] => none
  | p :: ps, c :: cs => if p = c then afterPrefix? ps cs else none

/-- What comes before the suffix `p` of `s`, if `s` ends with it. -/
def beforeSuffix? (p s : List Char) : Option (List Char) :=
  (afterPrefix? p.reverse s.reverse).map List.reverse

/-- The texts before and after the first occurrence of `sep`. -/
def cutAt? (sep : List Char) : List Char → Option (List Char × List Char)
  | [] => (afterPrefix? sep []).map fun rest => ([], rest)
  | c :: cs =>
    match afterPrefix? sep (c :: cs) with
    | some rest => some ([], rest)
    | none => (cutAt? sep cs).map fun (before, rest) => (c :: before, rest)

theorem eq_of_afterPrefix? {p s r : List Char} (h : afterPrefix? p s = some r) : s = p ++ r := by
  fun_induction afterPrefix? p s with
  | case1 s => simpa using h
  | case2 => simp at h
  | case3 ps c cs ih => simp [ih h]
  | case4 => simp at h

theorem afterPrefix?_append (p r : List Char) : afterPrefix? p (p ++ r) = some r := by
  induction p with
  | nil => rfl
  | cons c p ih => simp [afterPrefix?, ih]

/-- A cut loses nothing but the separator. -/
theorem eq_of_cutAt? {sep s before rest : List Char} (h : cutAt? sep s = some (before, rest)) :
    s = before ++ sep ++ rest := by
  induction s generalizing before with
  | nil =>
    simp only [cutAt?, Option.map_eq_some_iff, Prod.mk.injEq] at h
    obtain ⟨r, hr, rfl, rfl⟩ := h
    simpa using eq_of_afterPrefix? hr
  | cons c cs ih =>
    simp only [cutAt?] at h
    split at h
    · next r hr =>
      simp only [Option.some.injEq, Prod.mk.injEq] at h
      obtain ⟨rfl, rfl⟩ := h
      simpa using eq_of_afterPrefix? hr
    · simp only [Option.map_eq_some_iff, Prod.exists, Prod.mk.injEq] at h
      obtain ⟨b, r, hb, rfl, rfl⟩ := h
      simp [ih hb]

/-- The parts of `s` between the occurrences of `sep`, taken from the left. -/
def pieces (sep s : List Char) : List (List Char) :=
  match _hcut : cutAt? sep s with
  | none => [s]
  | some (before, rest) =>
    if _hsep : sep = [] then [s] else before :: pieces sep rest
termination_by s.length
decreasing_by
  have hlen := congrArg List.length (eq_of_cutAt? _hcut)
  have hpos : 0 < sep.length := List.length_pos_iff.2 _hsep
  simp only [List.length_append] at hlen
  omega

/-- Every occurrence of `old`, taken from the left, replaced by `new`. -/
def replaceAll (old new s : List Char) : List Char :=
  new.intercalate (pieces old s)

/-- Does `s` start with `p`? -/
def startsWith (p s : List Char) : Bool :=
  (afterPrefix? p s).isSome

/-- Does `s` end with `p`? -/
def endsWith (p s : List Char) : Bool :=
  (beforeSuffix? p s).isSome

/-- Does `p` occur in `s`? -/
def occursIn (p s : List Char) : Bool :=
  (cutAt? p s).isSome

/-- What follows the prefix `p` of the string `s`, if `s` starts with it. -/
def withoutPrefix? (p s : String) : Option String :=
  (afterPrefix? p.toList s.toList).map String.ofList

/-- What comes before the suffix `p` of the string `s`, if `s` ends with it. -/
def withoutSuffix? (p s : String) : Option String :=
  (beforeSuffix? p.toList s.toList).map String.ofList

end SpecTree.Text
