import SpecTree.Proofs.Edit
import SpecTree.Proofs.Operation

/-!
# The course of an operation

Filling a document and operating on sub-specs come down to keys that are set, entries that are
appended and sub-specs that are edited. What holds of each of these holds of every operation
(`Node.Stepwise`). Main statements:

* `Node.Stepwise.fillFrom`: what holds when a node is filled from a document;
* `Node.Stepwise.apply`, `Node.Stepwise.applyAll`: what holds of operations.
-/

namespace SpecTree

namespace Node

variable {catalog : Catalog} {n : Node} {key : String}

theorem handedOut?_of_refuses {n' : Node} (h : Edit.Refuses (within key) n n') :
    n.handedOut? key = none := by
  obtain ⟨e, he⟩ := h
  have hget : (within key get : Edit Node Node) n = .error e n' := he get
  unfold handedOut? Edit.answer
  rw [hget]

theorem handedOut?_of_reaches {m : Node} {put : Node → Node}
    (h : Edit.Reaches (within key) n m put) : n.handedOut? key = some m := by
  have hget : (within key get : Edit Node Node) n = Edit.through put get m := h get
  unfold handedOut? Edit.answer
  rw [hget]
  rfl

/-- The settings in the sub-spec that is handed out under a key, if there is one. -/
def settingsBelow (n : Node) (key : String) (settings : Node → List Setting) : List Setting :=
  match n.handedOut? key with
  | some m => (settings m).map (·.below key)
  | none => []

/-! ## Filling -/

section Fill

variable {α β : Type} {act : Fill Node α} {next : α → Fill Node β} {n' : Node}

theorem stateAfter_of_ok {a : α} (h : act n = .ok a n') : act.stateAfter n = n' := by
  rw [Fill.stateAfter, h]

theorem stateAfter_of_error {e : FillError} (h : act n = .error e n') : act.stateAfter n = n' := by
  rw [Fill.stateAfter, h]

theorem stateAfter_bind_of_ok {a : α} (h : act n = .ok a n') :
    (act >>= next).stateAfter n = (next a).stateAfter n' := by
  have hbind : (act >>= next) n = next a n' := by
    show EStateM.bind act next n = _
    unfold EStateM.bind
    rw [h]
  rw [Fill.stateAfter, hbind]
  rfl

theorem stateAfter_bind_of_error {e : FillError} (h : act n = .error e n') :
    (act >>= next).stateAfter n = n' := by
  have hbind : (act >>= next) n = .error e n' := by
    show EStateM.bind act next n = _
    unfold EStateM.bind
    rw [h]
  exact stateAfter_of_error hbind

/-- Naming the path in errors changes nothing else. -/
theorem stateAfter_filling (path : String) (act : Edit Node α) (n : Node) :
    (filling path act).stateAfter n = act.stateAfter n := by
  unfold Fill.stateAfter filling Edit.stateAfter
  cases act n <;> rfl

/-- A fill as an edit that answers with the failure. -/
def caught (act : Fill Node α) : Edit Node (Except FillError α) := fun n =>
  match act n with
  | .ok a n => .ok (.ok a) n
  | .error e n => .ok (.error e) n

/-- The failure that an edit answers with, as the failure of a fill. -/
def uncaught (path : String) :
    EStateM.Result TreeError Node (Except FillError α) → EStateM.Result FillError Node α
  | .ok (.ok a) n => .ok a n
  | .ok (.error e) n => .error e n
  | .error e n => .error (.tree path e) n

theorem stateAfter_caught (act : Fill Node α) (n : Node) :
    (caught act).stateAfter n = act.stateAfter n := by
  unfold Edit.stateAfter caught Fill.stateAfter
  cases act n <;> rfl

/-- Filling a sub-spec is an edit of it. -/
theorem stateAfter_fillWithin (path key : String) (act : Fill Node α) (n : Node) :
    (fillWithin path key act).stateAfter n = (within key (caught act)).stateAfter n := by
  have hrun : fillWithin path key act n = uncaught path (within key (caught act) n) := rfl
  unfold Fill.stateAfter Edit.stateAfter
  rw [hrun]
  cases within key (caught act) n with
  | error e n' => rfl
  | ok result n' => cases result <;> rfl

end Fill

/-- An entry is there already, or is appended, or the node is no list. -/
theorem stateAfter_ensureEntry (catalog : Catalog) (key : String) (n : Node) :
    (ensureEntry catalog key).stateAfter n = n ∨
      (ensureEntry catalog key).stateAfter n = (appendEmpty catalog key).stateAfter n := by
  cases n with
  | spec s => exact .inl rfl
  | choice c => exact .inl rfl
  | list l =>
    have hrun : ensureEntry catalog key (.list l)
        = if l.contains key then .ok () (.list l) else appendEmpty catalog key (.list l) := by
      show (if l.contains key then pure () else appendEmpty catalog key : Edit Node Unit)
        (.list l) = _
      split <;> rfl
    by_cases hkey : l.contains key = true
    · rw [if_pos hkey] at hrun
      exact .inl (Edit.stateAfter_of_ok hrun)
    · rw [if_neg hkey] at hrun
      unfold Edit.stateAfter
      rw [hrun]
      exact .inr rfl

/-- The selectors are filled first, as they decide which keys there are. -/
theorem stateAfter_fillFrom (catalog : Catalog) (path : String) (members : List (String × Json))
    (n : Node) : (fillFrom catalog path (.object members)).stateAfter n
      = (fillMembers catalog path n.isSelector true members >>= fun _ =>
          fillMembers catalog path n.isSelector false members).stateAfter n := by
  unfold Fill.stateAfter
  rw [fillFrom]
  rfl

/-- A member whose turn it is not is passed over. -/
theorem stateAfter_fillMembers_cons (catalog : Catalog) (path : String)
    (isSelector : String → Bool) (selectors : Bool) (member : String × Json)
    (members : List (String × Json)) (n : Node) :
    (fillMembers catalog path isSelector selectors (member :: members)).stateAfter n
      = if isSelector member.1 = selectors then
          (fillMember catalog path member >>= fun _ =>
            fillMembers catalog path isSelector selectors members).stateAfter n
        else (fillMembers catalog path isSelector selectors members).stateAfter n := by
  unfold Fill.stateAfter
  rw [fillMembers]
  by_cases hselects : isSelector member.1 = selectors
  · rw [if_pos hselects, if_pos hselects]
  · rw [if_neg hselects, if_neg hselects]

/-! ## Step by step -/

/-- A relation between a node as it was, the keys that are set, and the node as it is then. It
composes, and it holds of single edits. -/
structure Stepwise (catalog : Catalog) (R : List Setting → Node → Node → Prop) : Prop where
  refl : ∀ n, R [] n n
  trans : ∀ {ss ss' n n' n''}, R ss n n' → R ss' n' n'' → R (ss ++ ss') n n''
  set : ∀ n key value, R [⟨[], n, key, value⟩] n ((Node.set catalog key value).stateAfter n)
  append : ∀ n name, R [] n ((appendEmpty catalog name).stateAfter n)
  within : ∀ n key {α : Type} (act : Edit Node α) (settings : Node → List Setting),
    (∀ m, R (settings m) m (act.stateAfter m)) →
      R (n.settingsBelow key settings) n ((Node.within key act).stateAfter n)

namespace Stepwise

variable {R : List Setting → Node → Node → Prop}

theorem ensureEntry (hR : Stepwise catalog R) (n : Node) (key : String) :
    R [] n ((Node.ensureEntry catalog key).stateAfter n) := by
  rcases stateAfter_ensureEntry catalog key n with heq | heq
  · rw [heq]
    exact hR.refl n
  · rw [heq]
    exact hR.append n key

theorem fillLeaf (hR : Stepwise catalog R) (n : Node) (path key : String) (json : Json) :
    R (n.leafSettings key json) n ((Node.fillLeaf catalog path key json).stateAfter n) := by
  unfold leafSettings Fill.stateAfter Node.fillLeaf
  rw [Edit.get_bind]
  cases json.toValue? (n.hint? key) with
  | none => exact hR.refl n
  | some value =>
    show R _ n ((filling path (Node.set catalog key value)).stateAfter n)
    rw [stateAfter_filling]
    exact hR.set n key value

/-- Of two fills the second is left out if the first fails. -/
theorem bind (hR : Stepwise catalog R) {act next : Fill Node Unit} {ss : List Setting}
    {settings : Node → List Setting} (hact : R ss n (act.stateAfter n))
    (hnext : ∀ n', R (settings n') n' (next.stateAfter n')) :
    R (ss ++ match act n with
        | .ok _ n' => settings n'
        | .error _ _ => []) n
      ((act >>= fun _ => next).stateAfter n) := by
  cases hrun : act n with
  | error e n' =>
    rw [stateAfter_of_error hrun] at hact
    rw [stateAfter_bind_of_error hrun]
    simp only [List.append_nil]
    exact hact
  | ok u n' =>
    rw [stateAfter_of_ok hrun] at hact
    rw [stateAfter_bind_of_ok hrun]
    exact hR.trans hact (hnext n')

/-- An entry is made sure of, and then filled. -/
theorem entry (hR : Stepwise catalog R) (n : Node) (here key : String) {act : Fill Node Unit}
    {settings : Node → List Setting} (hact : ∀ n', R (settings n') n' (act.stateAfter n')) :
    R (match Node.ensureEntry catalog key n with
        | .ok _ n' => settings n'
        | .error _ _ => []) n
      ((filling here (Node.ensureEntry catalog key) >>= fun _ => act).stateAfter n) := by
  have hentry := hR.ensureEntry n key
  cases hensure : Node.ensureEntry catalog key n with
  | error e n' =>
    rw [Edit.stateAfter_of_error hensure] at hentry
    have hrun : filling here (Node.ensureEntry catalog key) n = .error (.tree here e) n' := by
      unfold filling
      rw [hensure]
    rw [stateAfter_bind_of_error hrun]
    exact hentry
  | ok u n' =>
    rw [Edit.stateAfter_of_ok hensure] at hentry
    have hrun : filling here (Node.ensureEntry catalog key) n = .ok u n' := by
      unfold filling
      rw [hensure]
    rw [stateAfter_bind_of_ok hrun]
    exact hR.trans hentry (hact n')

mutual

/-- What holds of single edits holds when a node is filled from a document. -/
theorem fillFrom (hR : Stepwise catalog R) (path : String) : ∀ (json : Json) (n : Node),
    R (n.fillSettings catalog path json) n ((Node.fillFrom catalog path json).stateAfter n)
  | .object members, n => by
    rw [stateAfter_fillFrom, fillSettings]
    exact hR.bind (hR.fillMembers path n.isSelector true members n)
      (hR.fillMembers path n.isSelector false members)
  | .null, n => hR.refl n
  | .bool _, n => hR.refl n
  | .number _, n => hR.refl n
  | .string _, n => hR.refl n
  | .array _, n => hR.refl n

theorem fillMembers (hR : Stepwise catalog R) (path : String) (isSelector : String → Bool)
    (selectors : Bool) : ∀ (members : List (String × Json)) (n : Node),
    R (n.membersSettings catalog path isSelector selectors members) n
      ((Node.fillMembers catalog path isSelector selectors members).stateAfter n)
  | [], n => hR.refl n
  | member :: members, n => by
    rw [stateAfter_fillMembers_cons, membersSettings]
    by_cases hselects : isSelector member.1 = selectors
    · rw [if_pos hselects, if_pos hselects]
      exact hR.bind (hR.fillMember path member n)
        (hR.fillMembers path isSelector selectors members)
    · rw [if_neg hselects, if_neg hselects]
      exact hR.fillMembers path isSelector selectors members n

theorem fillMember (hR : Stepwise catalog R) (path : String) :
    ∀ (member : String × Json) (n : Node),
    R (n.memberSettings catalog path member) n
      ((Node.fillMember catalog path member).stateAfter n)
  | (key, .object members), n => by
    rw [Node.fillMember, memberSettings]
    apply hR.entry n _ key
    intro n'
    rw [stateAfter_fillWithin]
    apply hR.within n' key
    intro m
    rw [stateAfter_caught]
    exact hR.fillFrom (memberPath path key) (.object members) m
  | (key, .null), n => hR.entry n _ key fun n' => hR.fillLeaf n' _ key _
  | (key, .bool _), n => hR.entry n _ key fun n' => hR.fillLeaf n' _ key _
  | (key, .number _), n => hR.entry n _ key fun n' => hR.fillLeaf n' _ key _
  | (key, .string _), n => hR.entry n _ key fun n' => hR.fillLeaf n' _ key _
  | (key, .array _), n => hR.entry n _ key fun n' => hR.fillLeaf n' _ key _

end

mutual

/-- **What holds of single edits holds of every operation.** -/
theorem apply (hR : Stepwise catalog R) : ∀ (o : Operation) (n : Node),
    R (o.settings catalog n) n (o.apply catalog n)
  | .set key value, n => hR.set n key value
  | .append name, n => hR.append n name
  | .fill json, n => hR.fillFrom "" json n
  | .within key operations, n => by
    rw [Operation.settings, Operation.apply]
    exact hR.within n key _ _ (hR.applyAll operations)

/-- What holds of single edits holds of operations, one after the other. -/
theorem applyAll (hR : Stepwise catalog R) : ∀ (os : List Operation) (n : Node),
    R (Operation.settingsAll catalog os n) n (Operation.applyAll catalog os n)
  | [], n => hR.refl n
  | o :: os, n => by
    rw [Operation.settingsAll, Operation.applyAll]
    exact hR.trans (hR.apply o n) (hR.applyAll os _)

end

end Stepwise

end Node

end SpecTree
