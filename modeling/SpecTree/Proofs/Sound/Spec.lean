import SpecTree.Proofs.Sound.Component
import SpecTree.Proofs.Spec

/-!
# What writes to specs keep

A spec shows under a key what the first of its components shows that shows anything. So nothing
is lost as long as every component keeps what it shows, and none begins to show a key. Main
statements:

* `kept_set`: a write keeps what is shown, unless it is to a case parameter that may hide it;
* `shown_of_set_eq_ok`: a key that was set is shown, with the value;
* `reach_cases`: a sub-spec is refused, or handed out;
* `kept_merge`, `kept_push`: components that are added at the end hide nothing.
-/

namespace SpecTree

variable {ν : Type} [Judged ν] {S : ν → Prop} {key : String} {value : Value}

omit [Judged ν] in
/-- What the first of two shows counts. -/
theorem Parameter.Keeps.or {Q : Parameter ν → Prop} {a a' b b' : Option (Parameter ν)}
    (ha : Keeps Q a a') (hb : Keeps Q b b') : Keeps Q (a.or b) (a'.or b') := by
  constructor
  · intro h
    obtain ⟨ha', hb'⟩ := Option.or_eq_none_iff.1 h
    rw [ha.hidden ha', hb.hidden hb']
    rfl
  · rintro ⟨p, hp, hQ⟩
    cases a with
    | none =>
      rw [ha.hidden rfl]
      exact hb.shown ⟨p, hp, hQ⟩
    | some q =>
      cases Option.mem_def.1 hp
      obtain ⟨q', hq', hQ'⟩ := ha.shown ⟨p, rfl, hQ⟩
      rw [Option.mem_def.1 hq']
      exact ⟨q', rfl, hQ'⟩

/-! ## Lists of components -/

namespace Component

variable {allowed : (Parameter ν → Prop) → String → Prop} {c c' : Component ν}
  {cs cs' ds pre post post' : List (Component ν)}

theorem parameter?_cons (S : ν → Prop) (c : Component ν) (cs : List (Component ν)) (k : String) :
    (listView S).parameter? (c :: cs) k = (c.parameter? k).or ((listView S).parameter? cs k) := by
  show List.findSome? (fun c => c.parameter? k) (c :: cs) = _
  rw [List.findSome?_cons]
  cases c.parameter? k <;> rfl

theorem kept_cons (hc : (view S).Kept S allowed c c')
    (hcs : (listView S).Kept S allowed cs cs') :
    (listView S).Kept S allowed (c :: cs) (c' :: cs') where
  fit := List.forall_mem_cons.2 ⟨hc.fit, hcs.fit⟩
  hasValue := by
    show (c.hasValue || cs.any hasValue) = true → (c'.hasValue || cs'.any hasValue) = true
    rw [Bool.or_eq_true, Bool.or_eq_true]
    exact Or.imp hc.hasValue hcs.hasValue
  keeps Q hQ k hk := by
    rw [parameter?_cons, parameter?_cons]
    exact (hc.keeps Q hQ k hk).or (hcs.keeps Q hQ k hk)

theorem kept_map {change : Component ν → Component ν}
    (h : ∀ c ∈ cs, (view S).Kept S allowed c (change c)) :
    (listView S).Kept S allowed cs (cs.map change) := by
  induction cs with
  | nil => exact .refl fun _ hc => absurd hc List.not_mem_nil
  | cons c cs ih =>
    exact kept_cons (h c List.mem_cons_self) (ih fun d hd => h d (List.mem_cons_of_mem _ hd))

theorem kept_append (hpre : ∀ d ∈ pre, d.Fit S) (h : (listView S).Kept S allowed cs cs') :
    (listView S).Kept S allowed (pre ++ cs) (pre ++ cs') := by
  induction pre with
  | nil => exact h
  | cons d pre ih =>
    exact kept_cons (.refl (hpre d List.mem_cons_self))
      (ih fun e he => hpre e (List.mem_cons_of_mem _ he))

/-- Components that are added at the end hide nothing that was shown. -/
theorem kept_extend (hcs : ∀ c ∈ cs, c.Fit S) (hds : ∀ d ∈ ds, d.Fit S) :
    (listView S).Kept S (fun _ k => (listView S).parameter? cs k ≠ none) cs (cs ++ ds) where
  fit c hc := (List.mem_append.1 hc).elim (hcs c) (hds c)
  hasValue := by
    show cs.any hasValue = true → (cs ++ ds).any hasValue = true
    rw [List.any_append, Bool.or_eq_true]
    exact Or.inl
  keeps Q _ k hk := by
    show Parameter.Keeps Q (List.findSome? _ cs) (List.findSome? _ (cs ++ ds))
    rw [List.findSome?_append]
    obtain ⟨p, hp⟩ := Option.ne_none_iff_exists'.1 hk
    have hp' : cs.findSome? (fun c => c.parameter? k) = some p := hp
    rw [hp']
    exact .refl Q _

/-- The first component that declares a key hands out what it shows, if those behind it keep
theirs. -/
theorem handsOut_first {p : Parameter ν} {m : ν} {put : ν → Component ν}
    (hpre : ∀ d ∈ pre, d.Fit S) (hhidden : ∀ d ∈ pre, d.contains key = false)
    (hc : (view S).HandsOut S key c p m put)
    (hpost : (listView S).Kept S (fun _ _ => True) post post') :
    (listView S).HandsOut S key (pre ++ c :: post) p m fun m => pre ++ put m :: post' := by
  have hnone : pre.findSome? (fun d => d.parameter? key) = none :=
    List.findSome?_eq_none_iff.2 fun d hd => parameter?_eq_none (hhidden d hd)
  have hfirst : ∀ {d : Component ν} {q rest}, d.parameter? key = some q →
      (listView S).parameter? (pre ++ d :: rest) key = some q := by
    intro d q rest hq
    show List.findSome? (fun d => d.parameter? key) (pre ++ d :: rest) = some q
    rw [List.findSome?_append, hnone, Option.none_or, List.findSome?_cons_of_isSome]
    · exact hq
    · rw [hq]
      rfl
  refine ⟨hfirst hc.shown, hc.isPrimitive, hc.node, fun m' => hfirst (hc.put_shown m'), ?_⟩
  intro m' hm' hmono
  exact kept_append hpre (kept_cons (hc.kept m' hm' hmono) (hpost.imp fun _ _ _ => trivial))

end Component

/-! ## Specs -/

namespace Spec

variable {s s' : Spec ν} {p : Parameter ν}

theorem embeds_components (s : Spec ν) :
    View.Embeds (Component.listView S) (view S) fun components => { s with components } :=
  ⟨fun _ _ => rfl, fun _ _ h => h, fun _ h => h⟩

/-- A value that is shown counts. -/
theorem hasValue_of_shown (h : s.Fit S) {k : String}
    (hshown : ∃ p ∈ s.parameter? k, p.hasValue = true) : s.hasValue = true := by
  obtain ⟨p, hp, hv⟩ := hshown
  obtain ⟨c, hc, hcp⟩ := List.exists_of_findSome?_eq_some (Option.mem_def.1 hp)
  exact List.any_eq_true.2 ⟨c, hc, Component.hasValue_of_shown (h c hc) ⟨p, hcp, hv⟩⟩

theorem fit_of_parameter? (h : s.Fit S) {k : String} (hp : s.parameter? k = some p) : p.Fit S := by
  obtain ⟨c, hc, hcp⟩ := List.exists_of_findSome?_eq_some hp
  exact Component.fit_of_parameter? (h c hc) hcp

theorem contains_of_parameter? {k : String} (hp : s.parameter? k = some p) :
    s.contains k = true := by
  obtain ⟨c, hc, hcp⟩ := List.exists_of_findSome?_eq_some hp
  exact List.any_eq_true.2 ⟨c, hc, Component.contains_of_parameter? hcp⟩

/-- Is the key that of the case parameter of groups that declare another one? -/
def hides (s : Spec ν) (key k : String) : Bool := s.components.any (Component.hides key k)

omit [Judged ν] in
/-- Only case parameters hide anything. -/
theorem hides_eq_false {k : String} (h : s.isSelector key = false) : s.hides key k = false := by
  refine List.any_eq_false.2 fun c hc hhides => List.any_eq_false.1 h c hc ?_
  cases c with
  | collection c => cases hhides
  | oneOf o => cases hhides
  | conditional d => exact (Bool.and_eq_true_iff.1 hhides).1

/-! ## Plain parameters -/

theorem fit_insertFixed (h : s.Fit S) (hp : p.Fit S) : (s.insertFixed p).Fit S := by
  -- the parameter goes to the first collection, or to a new one at the end:
  have hlist : ∀ cs : List (Component ν), (∀ c ∈ cs, c.Fit S) →
      ∀ c ∈ insertFirst p cs, c.Fit S := by
    intro cs hcs
    induction cs with
    | nil =>
      intro c hc
      rw [List.mem_singleton.1 hc]
      exact Collection.fit_ofList fun q hq => by rwa [List.mem_singleton.1 hq]
    | cons d cs ih =>
      obtain ⟨hd, hrest⟩ := List.forall_mem_cons.1 hcs
      cases d with
      | collection d =>
        exact List.forall_mem_cons.2 ⟨Collection.Fit.insert hd hp, hrest⟩
      | oneOf o => exact List.forall_mem_cons.2 ⟨hd, ih hrest⟩
      | conditional d => exact List.forall_mem_cons.2 ⟨hd, ih hrest⟩
  exact hlist s.components h

/-- A plain parameter that is put in hides at most what had its name. -/
theorem parameter?_insertFixed {k : String} (hk : p.name ≠ k) (s : Spec ν) :
    (s.insertFixed p).parameter? k = s.parameter? k := by
  have hlist : ∀ cs : List (Component ν),
      (Component.listView (fun _ => True)).parameter? (insertFirst p cs) k
        = (Component.listView fun _ => True).parameter? cs k := by
    intro cs
    induction cs with
    | nil =>
      rw [insertFirst, Component.parameter?_cons]
      show (Parameter.find? [p] k).or none = none
      rw [Parameter.find?_cons, if_neg hk]
      rfl
    | cons d cs ih =>
      cases d with
      | collection d =>
        rw [insertFirst, Component.parameter?_cons, Component.parameter?_cons]
        show ((d.insert p).parameter? k).or _ = (d.parameter? k).or _
        rw [Collection.parameter?_insert, if_neg hk]
      | oneOf o =>
        show (Component.listView _).parameter? (.oneOf o :: insertFirst p cs) k = _
        rw [Component.parameter?_cons, Component.parameter?_cons, ih]
      | conditional d =>
        show (Component.listView _).parameter? (.conditional d :: insertFirst p cs) k = _
        rw [Component.parameter?_cons, Component.parameter?_cons, ih]
  exact hlist s.components

/-- A plain parameter of a new name is shown. -/
theorem parameter?_insertFixed_self (hp : s.contains p.name = false) :
    (s.insertFixed p).parameter? p.name = some p := by
  have hlist : ∀ cs : List (Component ν), (∀ c ∈ cs, c.contains p.name = false) →
      (Component.listView (fun _ => True)).parameter? (insertFirst p cs) p.name = some p := by
    intro cs hcs
    induction cs with
    | nil =>
      rw [insertFirst, Component.parameter?_cons]
      show (Parameter.find? [p] p.name).or _ = some p
      rw [Parameter.find?_cons, if_pos rfl, Option.some_or]
    | cons d cs ih =>
      obtain ⟨hd, hrest⟩ := List.forall_mem_cons.1 hcs
      have hnone : d.parameter? p.name = none := Component.parameter?_eq_none hd
      cases d with
      | collection d =>
        rw [insertFirst, Component.parameter?_cons]
        show ((d.insert p).parameter? p.name).or _ = some p
        rw [Collection.parameter?_insert, if_pos rfl, Option.some_or]
      | oneOf o =>
        show (Component.listView _).parameter? (.oneOf o :: insertFirst p cs) p.name = _
        rw [Component.parameter?_cons, hnone, ih hrest, Option.none_or]
      | conditional d =>
        show (Component.listView _).parameter? (.conditional d :: insertFirst p cs) p.name = _
        rw [Component.parameter?_cons, hnone, ih hrest, Option.none_or]
  exact hlist s.components fun c hc => by simpa using List.any_eq_false.1 hp c hc

/-! ## Writes -/

theorem kept_edited (h : s.Fit S) (haccepted : ∀ c ∈ s.components, c.contains key →
    c.checkSet key value = .ok ()) :
    (view S).Kept S (fun _ k => s.hides key k = false) s
      (s.edited key (Component.set key value).stateAfter) := by
  refine View.Kept.embed (embeds_components s) (Component.kept_map fun c hc => ?_)
  by_cases hcontains : c.contains key = true
  · rw [if_pos hcontains]
    obtain ⟨c', hset⟩ := Component.set_of_checkSet_eq_ok hcontains (haccepted c hc hcontains)
    rw [Edit.stateAfter_of_ok hset]
    exact (Component.kept_set (h c hc) hcontains hset).imp fun _ _ hhides =>
      Bool.eq_false_iff.2 (List.any_eq_false.1 hhides c hc)
  · rw [if_neg hcontains]
    exact .refl (h c hc)

/-- A write keeps what is shown, unless it is to a case parameter that may hide it. -/
theorem kept_set (h : s.Fit S) (hset : Spec.set key value s = .ok () s') :
    (view S).Kept S (fun _ k => s.hides key k = false ∧ s.parameter? k ≠ none) s s' := by
  rcases set_cases s key value with ⟨e, he⟩ | ⟨hkey, p, hp, hok⟩ | ⟨-, haccepted, hok⟩
  · rw [he] at hset
    cases hset
  · -- a key that is added was not shown before
    rw [hok] at hset
    cases hset
    obtain ⟨w, hw, hpw⟩ := Parameter.set_eq_ok.1 hp
    have hname : p.name = key := by rw [hpw]; rfl
    have hpfit : p.Fit S := hpw ▸ (Parameter.fit_primitive key value.type).set hw
    have hpv : p.hasValue = true := hpw ▸ Parameter.hasValue_of_check hw
    have hfit := fit_insertFixed h hpfit
    refine ⟨hfit, fun _ => ?_, fun Q _ k hk => ?_⟩
    · exact hasValue_of_shown hfit ⟨p, parameter?_insertFixed_self (hname ▸ hkey), hpv⟩
    · have hne : p.name ≠ k := by
        rintro rfl
        obtain ⟨q, hq⟩ := Option.ne_none_iff_exists'.1 hk.2
        rw [← hname, contains_of_parameter? hq] at hkey
        cases hkey
      show Parameter.Keeps Q (s.parameter? k) ((s.insertFixed p).parameter? k)
      rw [parameter?_insertFixed hne]
      exact .refl Q _
  · rw [hok] at hset
    cases hset
    exact (kept_edited h haccepted).imp fun _ _ hk => hk.1

/-- A key that was set is shown, with the value. -/
theorem shown_of_set_eq_ok (hset : Spec.set key value s = .ok () s') :
    ∃ p ∈ s'.parameter? key, p.Shows value := by
  rcases set_cases s key value with ⟨e, he⟩ | ⟨hkey, p, hp, hok⟩ | ⟨hkey, haccepted, hok⟩
  · rw [he] at hset
    cases hset
  · rw [hok] at hset
    cases hset
    obtain ⟨w, hw, hpw⟩ := Parameter.set_eq_ok.1 hp
    have hname : p.name = key := by rw [hpw]; rfl
    have hself := parameter?_insertFixed_self (p := p) (hname ▸ hkey)
    rw [hname] at hself
    exact ⟨p, hself, hpw ▸ Parameter.shows_of_check hw⟩
  · rw [hok] at hset
    cases hset
    have hshows : ∀ c ∈ s.components, c.contains key = true →
        ∃ p, ((Component.set key value).stateAfter c).parameter? key = some p ∧
          p.Shows value := by
      intro c hc hcontains
      obtain ⟨c', hcset⟩ := Component.set_of_checkSet_eq_ok hcontains (haccepted c hc hcontains)
      rw [Edit.stateAfter_of_ok hcset]
      exact Component.parameter?_of_set_eq_ok hcontains hcset
    show ∃ p, List.findSome? _ (s.components.map _) = some p ∧ Parameter.Shows value p
    -- the first component that shows the key afterwards is one that was written:
    cases hfound : List.findSome? (fun c => c.parameter? key) (s.components.map fun c =>
        if c.contains key then (Component.set key value).stateAfter c else c) with
    | none =>
      obtain ⟨c, hc, hcontains⟩ := List.any_eq_true.1 hkey
      obtain ⟨p, hp, -⟩ := hshows c hc hcontains
      have hnone := List.findSome?_eq_none_iff.1 hfound _ (List.mem_map_of_mem hc)
      rw [if_pos hcontains, hp] at hnone
      cases hnone
    | some q =>
      obtain ⟨c', hc', hq⟩ := List.exists_of_findSome?_eq_some hfound
      obtain ⟨c, hc, rfl⟩ := List.mem_map.1 hc'
      split at hq
      · rename_i hcontains
        obtain ⟨p, hp, hvalue⟩ := hshows c hc hcontains
        rw [hp] at hq
        cases hq
        exact ⟨q, rfl, hvalue⟩
      · rename_i hcontains
        exact absurd (Component.contains_of_parameter? hq) hcontains

/-- A sub-spec is refused, and then nothing is lost, or it is handed out. -/
theorem reach_cases (h : s.Fit S) (key : String) :
    (∃ s', Edit.Refuses (within key) s s' ∧ (view S).Kept S (fun _ _ => True) s s') ∨
      ∃ p m put, (view S).HandsOut S key s p m put ∧ Edit.Reaches (within key) s m put := by
  rcases within_cases s key with
    hrefuses | ⟨pre, c, post, happend, hhidden, -, haccess, hwithin⟩
  · exact Or.inl ⟨s, hrefuses, .refl h⟩
  · have hall : ∀ d ∈ pre ++ c :: post, d.Fit S := happend ▸ h
    have hpre : ∀ d ∈ pre, d.Fit S := fun d hd => hall d (List.mem_append_left _ hd)
    have hc : c.Fit S := hall c (List.mem_append_right _ List.mem_cons_self)
    -- narrowing those behind the first loses nothing:
    have hpost : (Component.listView S).Kept S (fun _ _ => True) post
        (post.map fun d => if d.contains key then (Component.select key).stateAfter d else d) := by
      refine Component.kept_map fun d hd => ?_
      have hmem : d ∈ pre ++ c :: post :=
        List.mem_append_right _ (List.mem_cons_of_mem _ hd)
      by_cases hcontains : d.contains key = true
      · rw [if_pos hcontains]
        obtain ⟨d', hselect⟩ :=
          Component.select_of_checkAccess_eq_ok (haccess d (happend ▸ hmem) hcontains)
        rw [Edit.stateAfter_of_ok hselect]
        exact Component.kept_select (hall d hmem) hselect
      · rw [if_neg hcontains]
        exact .refl (hall d hmem)
    have hs : s = { s with components := pre ++ c :: post } := by rw [← happend]
    rcases Component.reach_cases hc key with ⟨c', hrefuses, hkept⟩ | ⟨p, m, put, hout, hreaches⟩
    · refine Or.inl ⟨_, hrefuses.through hwithin, ?_⟩
      rw [hs]
      exact (Component.kept_append hpre (Component.kept_cons hkept hpost)).embed
        (embeds_components s)
    · refine Or.inr ⟨p, m, _, ?_, hreaches.through hwithin⟩
      have hfirst := (Component.handsOut_first hpre hhidden hout hpost).embed (embeds_components s)
      rw [← hs] at hfirst
      exact hfirst

/-! ## More components -/

theorem kept_merge {other : Spec ν} (h : s.Fit S) (hother : other.Fit S) :
    (view S).Kept S (fun _ k => s.parameter? k ≠ none) s (s.merge other) := by
  have hkept := Component.kept_extend h hother
  exact ⟨hkept.fit, hkept.hasValue, hkept.keeps⟩

theorem kept_push {c : Component ν} (h : s.Fit S) (hc : c.Fit S) :
    (view S).Kept S (fun _ k => s.parameter? k ≠ none) s (s.push c) := by
  have hkept := Component.kept_extend h fun d hd => (List.mem_singleton.1 hd ▸ hc : d.Fit S)
  exact ⟨hkept.fit, hkept.hasValue, hkept.keeps⟩

end Spec

end SpecTree
