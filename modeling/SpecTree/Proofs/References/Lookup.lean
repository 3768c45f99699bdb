import Mathlib.Data.List.Induction
import Mathlib.Data.Option.Basic
import Mathlib.Tactic.Tauto
import SpecTree.Proofs.References.Variants
import SpecTree.Proofs.Text

/-!
# Looking up the variant of a type

A type of a choice is looked up under its hyphenated name. What is found does not depend on
whether the variants of the choice were found when the catalog was made. Main statements:

* `Naming.hyphenate_hyphenate`: hyphenating twice is hyphenating once;
* `Variants.find?_among`: what is found among names;
* `Index.mem_typedNames_iff`: the choices whose variants a catalog keeps;
* `Index.validTypes_exact`: what is found in a catalog.
-/

namespace SpecTree

/-- What is found by a key that belongs to one entry only is there, wherever it stands. -/
theorem find?_eq_some_iff_of_injOn {α κ : Type} [DecidableEq κ] {key : α → κ} {xs : List α}
    (hkey : ∀ x ∈ xs, ∀ y ∈ xs, key x = key y → x = y) {k : κ} {x : α} :
    xs.find? (key · = k) = some x ↔ x ∈ xs ∧ key x = k := by
  constructor
  · intro hx
    exact ⟨List.mem_of_find?_eq_some hx, by simpa using List.find?_some hx⟩
  · rintro ⟨hx, rfl⟩
    cases hfound : xs.find? (key · = key x) with
    | none => simpa using List.find?_eq_none.1 hfound x hx
    | some y =>
      have hy : key y = key x := by simpa using List.find?_some hfound
      rw [hkey y (List.mem_of_find?_eq_some hfound) x hx hy]

/-! ## Names -/

namespace Naming

theorem toList_hyphenate (s : String) :
    (hyphenate s).toList = (Text.trim s.toList).map fun c => if c = ' ' then '-' else c :=
  String.toList_ofList

theorem hyphenate_hyphenate (s : String) : hyphenate (hyphenate s) = hyphenate s := by
  have hblank : ∀ c, Text.isBlank c = false →
      Text.isBlank (if c = ' ' then '-' else c) = false := by
    intro c hc
    split
    · rfl
    · exact hc
  -- the ends stay as they are, as a trimmed text has no blank there:
  have htrim : Text.trim (hyphenate s).toList = (hyphenate s).toList := by
    rw [toList_hyphenate]
    refine Text.trim_of_ends ?_ ?_
    · rw [List.head?_map]
      intro c hc
      obtain ⟨d, hd, rfl⟩ := Option.map_eq_some_iff.1 hc
      exact hblank d (Text.isBlank_of_head?_trim hd)
    · rw [List.getLast?_map]
      intro c hc
      obtain ⟨d, hd, rfl⟩ := Option.map_eq_some_iff.1 hc
      exact hblank d (Text.isBlank_of_getLast?_trim hd)
  rw [← String.toList_inj, toList_hyphenate, htrim, toList_hyphenate, List.map_map]
  refine List.map_congr_left fun c _ => ?_
  rw [Function.comp_apply]
  split
  · rfl
  · rfl

/-- The variant of a type is that of the hyphenated type. -/
theorem variantName_hyphenate (field type : String) :
    variantName field (hyphenate type) = variantName field type := by
  unfold variantName
  rw [hyphenate_hyphenate]

/-- The name of the list of lists of a name, as deep as the number says. -/
def listOf (name : String) : Nat → String
  | 0 => name
  | depth + 1 => listOf name depth ++ listSuffix

theorem innermost_append (name : String) : innermost (name ++ listSuffix) = innermost name := by
  have hsuffix : Text.withoutSuffix? listSuffix (name ++ listSuffix) = some name :=
    Text.withoutSuffix?_eq_some_iff.2 rfl
  rw [innermost]
  split
  · next element h => rw [Option.some.inj (hsuffix.symm.trans h)]
  · next h => cases hsuffix.symm.trans h

theorem innermost_of_eq_none {name : String} (h : Text.withoutSuffix? listSuffix name = none) :
    innermost name = name := by
  rw [innermost]
  split
  · next hsome => cases h.symm.trans hsome
  · rfl

/-- A name is that of a list of lists of the innermost element. -/
theorem exists_listOf_innermost (name : String) :
    ∃ depth, name = listOf (innermost name) depth := by
  induction name using innermost.induct with
  | case1 name element h ih =>
    obtain ⟨depth, hdepth⟩ := ih
    obtain rfl := Text.withoutSuffix?_eq_some_iff.1 h
    rw [innermost_append]
    exact ⟨depth + 1, congrArg (· ++ listSuffix) hdepth⟩
  | case2 name h => exact ⟨0, (innermost_of_eq_none h).symm⟩

/-- What is not the name of a list is the innermost element of the lists of it. -/
theorem innermost_eq_iff {name typed : String}
    (htyped : Text.withoutSuffix? listSuffix typed = none) :
    innermost name = typed ↔ ∃ depth, name = listOf typed depth := by
  constructor
  · rintro rfl
    exact exists_listOf_innermost name
  · rintro ⟨depth, rfl⟩
    induction depth with
    | zero => exact innermost_of_eq_none htyped
    | succ depth ih => rw [listOf, innermost_append, ih]

/-- The name of a choice is not that of a list. -/
theorem withoutSuffix?_of_typed {typed field : String} {placement : Placement}
    (h : SpecForm.ofName typed = .typed field placement) :
    Text.withoutSuffix? listSuffix typed = none := by
  by_contra hne
  obtain ⟨element, helement⟩ := Option.ne_none_iff_exists'.1 hne
  obtain rfl := Text.withoutSuffix?_eq_some_iff.1 helement
  by_cases hempty : element = ""
  · -- not even if it is the suffix alone
    subst hempty
    have hform : SpecForm.ofName ("" ++ listSuffix) = .plain := by decide
    cases hform.symm.trans h
  · have hlist : listElement? (element ++ listSuffix) = some element := by
      unfold listElement?
      rw [helement, Option.filter_some, if_pos (decide_eq_true hempty)]
    unfold SpecForm.ofName at h
    rw [hlist] at h
    split at h <;> cases h

end Naming

/-! ## Variants among names -/

namespace Variants

/-- What is found after a type is put in. -/
theorem find?_insert (type spec key : String) (variants : Variants) :
    (Variants.insert type spec variants).find? key
      = if type = key then some spec else variants.find? key := by
  unfold find?
  induction variants with
  | nil => grind [Variants.insert]
  | cons first rest ih => grind [Variants.insert]

/-- A name is a variant if it is a plain one, and is made of the field and a hyphenated type. -/
theorem typeOf?_eq_some_iff {typed field name type : String} :
    typeOf? typed field name = some type ↔
      name ≠ typed ∧ SpecForm.ofName name = .plain ∧ type ≠ "" ∧ Naming.hyphenate type = type ∧
        name = Naming.variantName field type := by
  have hname (type : String) : Naming.variantName field type =
      Naming.hyphenate field ++ "-" ++ (Naming.hyphenate type ++ Naming.specSuffix) := by
    rw [← String.append_assoc]
    rfl
  unfold typeOf?
  constructor
  · intro h
    split at h
    · cases h
    · next hplain =>
      rw [not_or, not_not] at hplain
      obtain ⟨rest, hrest, h⟩ := Option.bind_eq_some_iff.1 h
      obtain ⟨found, hfound, h⟩ := Option.bind_eq_some_iff.1 h
      obtain ⟨⟨hne, hvariant⟩, hfound'⟩ := Option.ite_none_right_eq_some.1 h
      obtain rfl := Option.some.inj hfound'
      -- the name is made of the type, and of the hyphenated type:
      obtain rfl := Text.withoutSuffix?_eq_some_iff.1 hfound
      have hcut := Text.withoutPrefix?_eq_some_iff.1 hrest
      have hsame := (hname found).symm.trans (hvariant.trans hcut)
      rw [String.append_right_inj, String.append_left_inj] at hsame
      exact ⟨hplain.1, hplain.2, hne, hsame, hvariant.symm⟩
  · rintro ⟨htyped, hplain, hne, hhyphenate, rfl⟩
    have hrest : Text.withoutPrefix? (Naming.hyphenate field ++ "-")
        (Naming.variantName field type) = some (type ++ Naming.specSuffix) := by
      rw [Text.withoutPrefix?_eq_some_iff, hname, hhyphenate]
    have hfound : Text.withoutSuffix? Naming.specSuffix (type ++ Naming.specSuffix) = some type :=
      Text.withoutSuffix?_eq_some_iff.2 rfl
    rw [if_neg (not_or.2 ⟨htyped, not_not.2 hplain⟩), hrest]
    show (Text.withoutSuffix? Naming.specSuffix (type ++ Naming.specSuffix)).bind _ = _
    rw [hfound]
    exact if_pos ⟨hne, rfl⟩

theorem variantName_of_typeOf? {typed field name type : String}
    (h : typeOf? typed field name = some type) : Naming.variantName field type = name :=
  (typeOf?_eq_some_iff.1 h).2.2.2.2.symm

theorem among_concat (typed field : String) (names : List String) (name : String) :
    among typed field (names ++ [name]) = match typeOf? typed field name with
      | some type => Variants.insert type name (among typed field names)
      | none => among typed field names :=
  List.foldl_append ..

/-- **What is found among names**: the variant of a type, if it is one of the names. -/
theorem find?_among {typed field type variant : String} {names : List String} :
    (among typed field names).find? type = some variant ↔
      variant ∈ names ∧ typeOf? typed field variant = some type := by
  induction names using List.reverseRecOn with
  | nil => simp [among, find?]
  | append_singleton names name ih =>
    rw [among_concat, List.mem_append, List.mem_singleton]
    cases hname : typeOf? typed field name with
    | none => grind
    | some type' =>
      rw [find?_insert]
      by_cases htype : type' = type
      · subst htype
        rw [if_pos rfl, Option.some_inj]
        constructor
        · rintro rfl
          exact ⟨.inr rfl, hname⟩
        · -- a type is that of one name only
          rintro ⟨-, hvariant⟩
          exact (variantName_of_typeOf? hname).symm.trans (variantName_of_typeOf? hvariant)
      · rw [if_neg htype, ih]
        grind

end Variants

/-! ## The choices of an index -/

namespace Index

/-- The names in definitions, their own and those that they refer to. -/
def mentioned (index : Index) : List String :=
  index.definitions.flatMap fun d => d.name :: d.references.map (·.1)

/-- Is this the name of a choice, and of its field? -/
def IsTyped (entry : String × String) : Prop :=
  ∃ placement, SpecForm.ofName entry.1 = .typed entry.2 placement

/-- The field of a choice follows from its name. -/
theorem IsTyped.eq_of_name {e f : String × String} (he : IsTyped e) (hf : IsTyped f)
    (hname : e.1 = f.1) : e = f := by
  obtain ⟨typed, field⟩ := e
  obtain ⟨placement, he⟩ := he
  obtain ⟨placement', hf⟩ := hf
  cases hname
  cases he.symm.trans hf
  rfl

/-- Choices, and one more if the name is that of a new one. -/
def addTyped (found : List (String × String)) (name : String) : List (String × String) :=
  match SpecForm.ofName name with
  | .typed field _ => if found.any (·.1 = name) then found else found ++ [(name, field)]
  | _ => found

theorem typedNames_eq (index : Index) :
    index.typedNames = (index.mentioned.map Naming.innermost).foldl addTyped [] := rfl

theorem mem_addTyped_iff {found : List (String × String)} (hfound : ∀ e ∈ found, IsTyped e)
    (name : String) (entry : String × String) :
    entry ∈ addTyped found name ↔ entry ∈ found ∨ entry.1 = name ∧ IsTyped entry := by
  unfold addTyped
  split
  · next field placement hname =>
    have hnew : IsTyped (name, field) := ⟨placement, hname⟩
    split
    · next hany =>
      -- the name is in already, and a name has one field only:
      obtain ⟨e, he, hename⟩ := List.any_eq_true.1 hany
      refine ⟨.inl, ?_⟩
      rintro (hmem | ⟨hentry, htyped⟩)
      · exact hmem
      · exact htyped.eq_of_name (hfound e he) (hentry.trans (of_decide_eq_true hename).symm) ▸ he
    · rw [List.mem_append, List.mem_singleton]
      refine or_congr_right ⟨?_, fun h => h.2.eq_of_name hnew h.1⟩
      rintro rfl
      exact ⟨rfl, hnew⟩
  · next hname =>
    refine ⟨.inl, ?_⟩
    rintro (hmem | ⟨rfl, placement, htyped⟩)
    · exact hmem
    · exact (hname _ _ htyped).elim

theorem mem_foldl_addTyped_iff {found : List (String × String)} (hfound : ∀ e ∈ found, IsTyped e)
    (names : List String) (entry : String × String) :
    entry ∈ names.foldl addTyped found ↔ entry ∈ found ∨ entry.1 ∈ names ∧ IsTyped entry := by
  induction names generalizing found with
  | nil => simp
  | cons name names ih =>
    have hmore : ∀ e ∈ addTyped found name, IsTyped e := fun e he =>
      ((mem_addTyped_iff hfound name e).1 he).elim (hfound e) And.right
    rw [List.foldl_cons, ih hmore, mem_addTyped_iff hfound, List.mem_cons]
    tauto

/-- The choices of an index are those whose names are mentioned in it, also as elements of
lists. -/
theorem mem_typedNames_iff {index : Index} {entry : String × String} :
    entry ∈ index.typedNames ↔ entry.1 ∈ index.mentioned.map Naming.innermost ∧ IsTyped entry := by
  rw [typedNames_eq, mem_foldl_addTyped_iff (List.forall_mem_nil _)]
  simp

/-- The choices of an index are those of which it mentions the name, or that of a list of them, or
of a list of such lists. -/
theorem find?_typedNames_eq_some_iff {index : Index} {typed field : String} {placement : Placement}
    (hname : SpecForm.ofName typed = .typed field placement) {entry : String × String} :
    index.typedNames.find? (·.1 = typed) = some entry ↔
      entry = (typed, field) ∧ ∃ depth, Naming.listOf typed depth ∈ index.mentioned := by
  have hkey : ∀ e ∈ index.typedNames, ∀ f ∈ index.typedNames, e.1 = f.1 → e = f :=
    fun _ he _ hf => (mem_typedNames_iff.1 he).2.eq_of_name (mem_typedNames_iff.1 hf).2
  have hinnermost (name : String) :
      Naming.innermost name = typed ↔ ∃ depth, name = Naming.listOf typed depth :=
    Naming.innermost_eq_iff (Naming.withoutSuffix?_of_typed hname)
  have htyped : IsTyped (typed, field) := ⟨placement, hname⟩
  rw [find?_eq_some_iff_of_injOn hkey, mem_typedNames_iff, List.mem_map]
  constructor
  · rintro ⟨⟨⟨name, hmem, hentry⟩, hfield⟩, rfl⟩
    obtain ⟨depth, rfl⟩ := (hinnermost name).1 hentry
    exact ⟨hfield.eq_of_name htyped rfl, depth, hmem⟩
  · rintro ⟨rfl, depth, hmem⟩
    exact ⟨⟨⟨_, hmem, (hinnermost _).2 ⟨depth, rfl⟩⟩, htyped⟩, rfl⟩

/-! ## The variants in a catalog -/

/-- A catalog keeps the variants of the choices of its index. -/
theorem find?_variants_catalog (index : Index) (typed : String) :
    index.catalog.variants.find? (·.1 = typed) =
      (index.typedNames.find? (·.1 = typed)).map fun entry =>
        (entry.1, Variants.among entry.1 entry.2 index.names) :=
  List.find?_map ..

/-- A choice that is mentioned has the variants among all names, for its own field. -/
theorem validTypes_catalog (index : Index) (typed field : String) :
    index.catalog.validTypes typed field =
      Variants.among typed (((index.typedNames.find? (·.1 = typed)).map (·.2)).getD field)
        index.names := by
  unfold Catalog.validTypes
  rw [find?_variants_catalog]
  cases hfound : index.typedNames.find? (·.1 = typed) with
  | none => rw [show index.catalog.index.names = index.names from names_expanded index]; rfl
  | some entry =>
    have hname : entry.1 = typed := by simpa using List.find?_some hfound
    subst hname
    rfl

/-- A choice has the variants among all names, whether or not it is mentioned. -/
theorem validTypes_of_typed {typed field : String} {placement : Placement}
    (hname : SpecForm.ofName typed = .typed field placement) (index : Index) :
    index.catalog.validTypes typed field = Variants.among typed field index.names := by
  rw [validTypes_catalog]
  cases hfound : index.typedNames.find? (·.1 = typed) with
  | none => rfl
  | some entry =>
    obtain ⟨rfl, -⟩ := (find?_typedNames_eq_some_iff hname).1 hfound
    rfl

/-- **What is found for a type of a choice**: its variant, if that is registered under a plain name
that is not the choice's. The variants are kept by the catalog if the index mentions the choice, or
lists of it to any depth, and looked for if it does not; they are the same either way. -/
theorem validTypes_exact (index : Index) {typed field : String} {placement : Placement}
    (hname : SpecForm.ofName typed = .typed field placement) :
    (∀ type variant,
      (index.catalog.validTypes typed field).find? (Naming.hyphenate type) = some variant ↔
        Naming.hyphenate type ≠ "" ∧ variant = Naming.variantName field type ∧
          index.catalog.contains variant = true ∧ SpecForm.ofName variant = .plain ∧
          variant ≠ typed) ∧
    (∀ kept, index.catalog.variants.find? (·.1 = typed) = some kept ↔
      kept = (typed, Variants.among typed field index.catalog.index.names) ∧
        ∃ depth, Naming.listOf typed depth ∈ index.mentioned) ∧
    index.catalog.validTypes typed field =
      Variants.among typed field index.catalog.index.names := by
  have hnames : index.catalog.index.names = index.names := names_expanded index
  refine ⟨?_, ?_, ?_⟩
  · intro type variant
    -- expanding the includes registers the names that were there before:
    have hcontains : index.catalog.contains variant = true ↔ variant ∈ index.names := by
      rw [← contains_iff_mem_names]
      exact Bool.eq_iff_iff.1 (contains_expanded index variant)
    rw [validTypes_of_typed hname, Variants.find?_among, Variants.typeOf?_eq_some_iff, hcontains,
      Naming.variantName_hyphenate]
    constructor
    · rintro ⟨hmem, htyped, hplain, hne, -, hvariant⟩
      exact ⟨hne, hvariant, hmem, hplain, htyped⟩
    · rintro ⟨hne, hvariant, hmem, hplain, htyped⟩
      exact ⟨hmem, htyped, hplain, hne, Naming.hyphenate_hyphenate type, hvariant⟩
  · intro kept
    rw [find?_variants_catalog, Option.map_eq_some_iff, hnames]
    constructor
    · rintro ⟨entry, hentry, rfl⟩
      obtain ⟨rfl, hmentioned⟩ := (find?_typedNames_eq_some_iff hname).1 hentry
      exact ⟨rfl, hmentioned⟩
    · rintro ⟨rfl, hmentioned⟩
      exact ⟨_, (find?_typedNames_eq_some_iff hname).2 ⟨rfl, hmentioned⟩, rfl⟩
  · rw [validTypes_of_typed hname, hnames]

/-- A variant of a field, and lists of lists of the choice among its variants. -/
def exampleFlows : Index where
  definitions := [
    ⟨"flow-a-b-spec", [], [], [], [], [], ⟨"flow.hh", 1⟩⟩,
    ⟨"pool-spec", [.parameters [⟨"flows", .spec "flow-typed-spec-list-list", none, false, "",
      ⟨"pool.hh", 2⟩⟩]], [], [], [], [], ⟨"pool.hh", 1⟩⟩]

theorem validTypes_exact_exampleFlows :
    SpecForm.ofName "flow-typed-spec" = .typed "flow" .standard ∧
      (exampleFlows.catalog.validTypes "flow-typed-spec" "flow").find?
        (Naming.hyphenate " a b") = some "flow-a-b-spec" ∧
      (∀ variant, (exampleFlows.catalog.validTypes "flow-typed-spec" "flow").find?
        (Naming.hyphenate "c") ≠ some variant) ∧
      ∃ kept, exampleFlows.catalog.variants.find? (·.1 = "flow-typed-spec") = some kept := by
  have hname : SpecForm.ofName "flow-typed-spec" = .typed "flow" .standard := by decide +kernel
  obtain ⟨hfind, hkept, -⟩ := validTypes_exact exampleFlows hname
  refine ⟨hname, (hfind _ _).2 ?_, fun variant hvariant => ?_, _, (hkept _).2 ⟨rfl, 2, ?_⟩⟩
  · decide +kernel
  · obtain ⟨-, rfl, hcontains, -⟩ := (hfind _ _).1 hvariant
    have hunknown : exampleFlows.catalog.contains (Naming.variantName "flow" "c") = false := by
      decide +kernel
    cases hunknown.symm.trans hcontains
  · decide +kernel

end Index

end SpecTree
