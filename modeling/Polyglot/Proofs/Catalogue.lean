import Mathlib.Logic.Function.Basic
import Polyglot.Catalogue
import Polyglot.Proofs.Outcome
import Polyglot.Proofs.Table
import Polyglot.Proofs.Text.Blanks

/-!
Catalogues are finite maps from names to classes, however the names are written: whatever is done with a
catalogue, it answers as the map does. A name stays with its first class until another one is said to take
its place, and what is refused leaves no trace.
-/

namespace Polyglot.Catalogue

def Spells (v : Value) (n : String) : Prop :=
  ∃ s, v = .str s ∧ ¬ Text.allBlank s.toList ∧ n = Text.lower (Text.trimmed s)

inductive Misnames : Value → CatalogueError → Prop where
  | notText {v : Value} (h : ∀ s, v ≠ .str s) : Misnames v (.nameNotText v.typeName)
  | blank {s : String} (h : Text.allBlank s.toList) : Misnames (.str s) .nameBlank

/--
What can be done with a catalogue. A class comes with its name, or later for a name that has been given; what
comes need not be a class.
-/
inductive Op where
  | register (name : Value) (c : Except String Class) (replace : Bool)
  | slot (name : Value) (replace : Bool)
  | enter (number : Nat) (c : Except String Class)
  | get (name : Value)
  | require (name : Value)
  | contains (name : Value)
  | keys
  | items

def Op.name? : Op → Option Value
  | .register name _ _ | .slot name _ | .get name | .require name => some name
  | .contains (.str s) => some (.str s)
  | .enter _ _ | .contains _ | .keys | .items => none

inductive Answer where
  | entered (c : Class)
  | given (number : Nat)
  | noSlot
  | found (c : Option Class)
  | told (b : Bool)
  | names (ns : List String)
  | classes (es : List (String × Class))
  | refused (e : CatalogueError)

/--
A catalogue, and the names that have been given for classes to come, by number. A class may come for the same
one more than once.
-/
structure Desk where
  catalogue : Catalogue
  slots : List Slot := []

namespace Desk

def perform (d : Desk) : Op → Answer × Desk
  | .register name c replace => settle (d.catalogue.register name c replace)
  | .slot name replace =>
    match Catalogue.slot name replace with
    | .ok s => (.given d.slots.length, { d with slots := d.slots ++ [s] })
    | .error e => (.refused e, d)
  | .enter number c =>
    match d.slots[number]? with
    | some s => settle (d.catalogue.enter s c)
    | none => (.noSlot, d)
  | .get name => (look .found (d.catalogue.get? name), d)
  | .require name => (look (.found ∘ some) (d.catalogue.require name), d)
  | .contains name => (look .told (d.catalogue.contains name), d)
  | .keys => (.names d.catalogue.sortedNames, d)
  | .items => (.classes d.catalogue.classes.sorted, d)
where
  settle : Except CatalogueError (Catalogue × Class) → Answer × Desk
    | .ok (k, c) => (.entered c, { d with catalogue := k })
    | .error e => (.refused e, d)
  look {α : Type} (answer : α → Answer) : Except CatalogueError α → Answer
    | .ok a => answer a
    | .error e => .refused e

def session (d : Desk) : List Op → List Answer × Desk
  | [] => ([], d)
  | op :: ops =>
    let (a, d') := d.perform op
    let (as, d'') := d'.session ops
    (a :: as, d'')

end Desk

/--
The classes by their names, and the names that are waiting for classes.
-/
structure Names where
  title : String
  base : Option Class
  classOf : String → Option Class := fun _ => none
  slots : List Slot := []

namespace Names

variable (m : Names)

def Admits (c : Class) : Prop :=
  ∀ base, m.base = some base → c.extends? base

def Free (s : Slot) (c : Class) : Prop :=
  m.Admits c ∧ (s.replace ∨ ∀ old, m.classOf s.name = some old → old.serial = c.serial)

inductive Bars (s : Slot) : Except String Class → CatalogueError → Prop where
  | notClass (type : String) : Bars s (.error type) (.notClass m.title s.name type)
  | notBelow {c base : Class} (hbase : m.base = some base) (h : ¬ c.extends? base) :
      Bars s (.ok c) (.notBelow m.title c base)
  | taken {c old : Class} (hadmits : m.Admits c) (hreplace : s.replace = false)
      (hold : m.classOf s.name = some old) (hother : old.serial ≠ c.serial) :
      Bars s (.ok c) (.taken m.title s.name old)

def put (n : String) (c : Class) : Names :=
  { m with classOf := Function.update m.classOf n (some c) }

def Lists (ns : List String) : Prop :=
  ns.Pairwise (· < ·) ∧ ∀ n, n ∈ ns ↔ (m.classOf n).isSome

def ListsClasses (es : List (String × Class)) : Prop :=
  es.Pairwise (·.1 < ·.1) ∧ ∀ n c, (n, c) ∈ es ↔ m.classOf n = some c

end Names

/--
What an operation comes to on the map: its answer, and the map behind it.
-/
inductive Step (m : Names) : Op → Answer → Names → Prop where
  | misnamed {op : Op} {v : Value} {e : CatalogueError} (hop : op.name? = some v)
      (hname : Misnames v e) : Step m op (.refused e) m
  | registered {v : Value} {n : String} {replace : Bool} {c : Class} (hname : Spells v n)
      (hfree : m.Free ⟨n, replace⟩ c) : Step m (.register v (.ok c) replace) (.entered c) (m.put n c)
  | barred {v : Value} {n : String} {replace : Bool} {c : Except String Class} {e : CatalogueError}
      (hname : Spells v n) (hbars : m.Bars ⟨n, replace⟩ c e) :
      Step m (.register v c replace) (.refused e) m
  | given {v : Value} {n : String} (replace : Bool) (hname : Spells v n) :
      Step m (.slot v replace) (.given m.slots.length) { m with slots := m.slots ++ [⟨n, replace⟩] }
  | filled {number : Nat} {s : Slot} {c : Class} (hslot : m.slots[number]? = some s)
      (hfree : m.Free s c) : Step m (.enter number (.ok c)) (.entered c) (m.put s.name c)
  | unfilled {number : Nat} {s : Slot} {c : Except String Class} {e : CatalogueError}
      (hslot : m.slots[number]? = some s) (hbars : m.Bars s c e) :
      Step m (.enter number c) (.refused e) m
  | noSlot {number : Nat} (c : Except String Class) (hslot : m.slots[number]? = none) :
      Step m (.enter number c) .noSlot m
  | got {v : Value} {n : String} (hname : Spells v n) : Step m (.get v) (.found (m.classOf n)) m
  | required {v : Value} {n : String} {c : Class} (hname : Spells v n) (hclass : m.classOf n = some c) :
      Step m (.require v) (.found (some c)) m
  | missing {v : Value} {n : String} {ns : List String} (hname : Spells v n)
      (hclass : m.classOf n = none) (hns : m.Lists ns) :
      Step m (.require v) (.refused (.missing m.title n ns)) m
  | contained {v : Value} {n : String} (hname : Spells v n) :
      Step m (.contains v) (.told (m.classOf n).isSome) m
  | notContained {v : Value} (h : ∀ s, v ≠ .str s) : Step m (.contains v) (.told false) m
  | keys {ns : List String} (hns : m.Lists ns) : Step m .keys (.names ns) m
  | items {es : List (String × Class)} (hes : m.ListsClasses es) : Step m .items (.classes es) m

/--
What operations come to, one after the other.
-/
inductive Run : Names → List Op → List Answer → Names → Prop where
  | nil (m : Names) : Run m [] [] m
  | cons {m m' m'' : Names} {op : Op} {ops : List Op} {a : Answer} {as : List Answer}
      (hstep : Step m op a m') (hrun : Run m' ops as m'') : Run m (op :: ops) (a :: as) m''

/--
An operation that is said to let a class take the place of what stands under a name.
-/
inductive Op.Replaces (slots : List Slot) (n : String) : Op → Prop where
  | register {v : Value} (c : Except String Class) (hname : Spells v n) :
      Replaces slots n (.register v c true)
  | enter {number : Nat} (c : Except String Class) (hslot : slots[number]? = some ⟨n, true⟩) :
      Replaces slots n (.enter number c)

section Spelling

variable {v : Value} {n : String}

theorem nameOf_cases (v : Value) :
    (∃ n, nameOf v = .ok n ∧ Spells v n) ∨ ∃ e, nameOf v = .error e ∧ Misnames v e := by
  by_cases htext : ∃ s, v = .str s
  · obtain ⟨s, rfl⟩ := htext
    simp only [nameOf, Text.isEmpty_trimmed]
    split
    · next hblank => exact .inr ⟨_, rfl, .blank hblank⟩
    · next hblank => exact .inl ⟨_, rfl, s, rfl, hblank, rfl⟩
  · have hnotText : ∀ s, v ≠ .str s := fun s hs => htext ⟨s, hs⟩
    refine .inr ⟨_, ?_, .notText hnotText⟩
    rw [nameOf.eq_def]
    split
    · next s => exact absurd rfl (hnotText s)
    · rfl

theorem nameOf_of_spells (h : Spells v n) : nameOf v = .ok n := by
  obtain ⟨s, rfl, hblank, rfl⟩ := h
  simp only [nameOf, Text.isEmpty_trimmed, if_neg hblank]

end Spelling

section Desk

variable {d : Desk} {op : Op}

/--
The map that a desk holds.
-/
def Desk.names (d : Desk) : Names :=
  ⟨d.catalogue.title, d.catalogue.base, d.catalogue.classes.get?, d.slots⟩

def Desk.put (d : Desk) (n : String) (c : Class) : Desk :=
  { d with catalogue := { d.catalogue with classes := d.catalogue.classes.set n c } }

theorem Desk.names_put (d : Desk) (n : String) (c : Class) : (d.put n c).names = d.names.put n c := by
  have hclassOf : (d.catalogue.classes.set n c).get? =
      Function.update d.catalogue.classes.get? n (some c) :=
    funext fun n' => (Table.get?_set _ _ _ _).trans (Function.update_apply _ _ _ _).symm
  rw [Desk.put, Desk.names, hclassOf]
  rfl

theorem accept?_cases (d : Desk) (s : Slot) (c : Except String Class) :
    (∃ c', c = .ok c' ∧ d.names.Admits c' ∧ d.catalogue.accept? s.name c = .ok c') ∨
    ∃ e, d.names.Bars s c e ∧ d.catalogue.accept? s.name c = .error e := by
  rw [accept?.eq_def]
  split
  · next type => exact .inr ⟨_, .notClass type, rfl⟩
  · next c' hbase =>
    exact .inl ⟨c', rfl, fun base h => absurd (hbase.symm.trans h) (by simp), rfl⟩
  · next c' base hbase =>
    split
    · next hbelow =>
      refine .inl ⟨c', rfl, fun base' h => ?_, rfl⟩
      obtain rfl := Option.some.inj (hbase.symm.trans h)
      exact hbelow
    · next hbelow => exact .inr ⟨_, .notBelow hbase hbelow, rfl⟩

theorem enter_cases (d : Desk) (s : Slot) (c : Except String Class) :
    (∃ c', c = .ok c' ∧ d.names.Free s c' ∧
      d.catalogue.enter s c = .ok ((d.put s.name c').catalogue, c')) ∨
    ∃ e, d.names.Bars s c e ∧ d.catalogue.enter s c = .error e := by
  rw [enter]
  rcases accept?_cases d s c with ⟨c', rfl, hadmits, heq⟩ | ⟨e, hbars, heq⟩
  · simp only [heq, bind, Except.bind]
    cases hold : d.catalogue.classes.get? s.name with
    | none =>
      refine .inl ⟨c', rfl, ⟨hadmits, .inr fun old h => ?_⟩, rfl⟩
      cases hold.symm.trans h
    | some old =>
      by_cases hfree : s.replace ∨ old.serial = c'.serial
      · refine .inl ⟨c', rfl, ⟨hadmits, hfree.imp id fun hsame old' h => ?_⟩, ?_⟩
        · obtain rfl := Option.some.inj (hold.symm.trans h)
          exact hsame
        · simp [hfree, pure, Except.pure, Desk.put]
      · obtain ⟨hreplace, hother⟩ := not_or.mp hfree
        rw [Bool.not_eq_true] at hreplace
        refine .inr ⟨_, .taken hadmits hreplace hold hother, ?_⟩
        simp [hreplace, hother, Desk.names]
  · exact .inr ⟨e, hbars, by rw [heq]; rfl⟩

theorem lists_sortedNames (h : d.catalogue.classes.Distinct) :
    d.names.Lists d.catalogue.sortedNames := by
  refine ⟨List.pairwise_map.mpr h.pairwise_sorted, fun n => ?_⟩
  simp only [sortedNames, List.mem_map, Table.mem_sorted, Prod.exists, exists_and_right,
    exists_eq_right, ← h.get?_eq_some, Option.isSome_iff_exists]
  rfl

theorem listsClasses_sorted (h : d.catalogue.classes.Distinct) :
    d.names.ListsClasses d.catalogue.classes.sorted :=
  ⟨h.pairwise_sorted, fun _ _ => Table.mem_sorted.trans h.get?_eq_some.symm⟩

theorem Desk.step_perform (h : d.catalogue.classes.Distinct) (op : Op) :
    Step d.names op (d.perform op).1 (d.perform op).2.names := by
  cases op with
  | register v c replace =>
    rw [Desk.perform, register]
    rcases nameOf_cases v with ⟨n, hv, hname⟩ | ⟨e, hv, hname⟩
    · rcases enter_cases d ⟨n, replace⟩ c with ⟨c', rfl, hfree, henter⟩ | ⟨e, hbars, henter⟩
      · simp only [slot, hv, Except.map, bind, Except.bind, henter]
        have hnames := d.names_put n c'
        exact hnames ▸ .registered hname hfree
      · simp only [slot, hv, Except.map, bind, Except.bind, henter]
        exact .barred hname hbars
    · simp only [slot, hv, Except.map, bind, Except.bind]
      exact .misnamed rfl hname
  | slot v replace =>
    rw [Desk.perform, Catalogue.slot]
    rcases nameOf_cases v with ⟨n, hv, hname⟩ | ⟨e, hv, hname⟩
    · rw [hv]
      exact .given replace hname
    · rw [hv]
      exact .misnamed rfl hname
  | enter number c =>
    rw [Desk.perform]
    cases hslot : d.slots[number]? with
    | none => exact .noSlot c hslot
    | some s =>
      rcases enter_cases d s c with ⟨c', rfl, hfree, henter⟩ | ⟨e, hbars, henter⟩
      · simp only [henter]
        have hnames := d.names_put s.name c'
        exact hnames ▸ .filled hslot hfree
      · simp only [henter]
        exact .unfilled hslot hbars
  | get v =>
    rw [Desk.perform, get?]
    rcases nameOf_cases v with ⟨n, hv, hname⟩ | ⟨e, hv, hname⟩
    · rw [hv]
      exact .got hname
    · rw [hv]
      exact .misnamed rfl hname
  | require v =>
    rw [Desk.perform, require]
    rcases nameOf_cases v with ⟨n, hv, hname⟩ | ⟨e, hv, hname⟩
    · cases hclass : d.catalogue.classes.get? n with
      | none =>
        simp only [hv, bind, Except.bind, hclass]
        exact .missing hname hclass (lists_sortedNames h)
      | some c =>
        simp only [hv, bind, Except.bind, hclass]
        exact .required hname hclass
    · rw [hv]
      exact .misnamed rfl hname
  | contains v =>
    rw [Desk.perform, contains.eq_def]
    split
    · next s =>
      rcases nameOf_cases (.str s) with ⟨n, hv, hname⟩ | ⟨e, hv, hname⟩
      · rw [hv]
        exact .contained hname
      · rw [hv]
        exact .misnamed rfl hname
    · next hnotText => exact .notContained fun s hs => hnotText s hs
  | keys => exact .keys (lists_sortedNames h)
  | items => exact .items (listsClasses_sorted h)

theorem Desk.perform_cases (d : Desk) (op : Op) :
    (d.perform op).2.catalogue = d.catalogue ∨
    ∃ n c, (d.perform op).2.catalogue = (d.put n c).catalogue := by
  have henter (s : Slot) (c : Except String Class) :
      (perform.settle d (d.catalogue.enter s c)).2.catalogue = d.catalogue ∨
      ∃ n c', (perform.settle d (d.catalogue.enter s c)).2.catalogue = (d.put n c').catalogue := by
    rcases enter_cases d s c with ⟨c', -, -, heq⟩ | ⟨e, -, heq⟩ <;> rw [heq]
    · exact .inr ⟨s.name, c', rfl⟩
    · exact .inl rfl
  cases op with
  | register v c replace =>
    rw [Desk.perform, register]
    cases Catalogue.slot v replace with
    | error e => exact .inl rfl
    | ok s => exact henter s c
  | slot v replace =>
    rw [Desk.perform]
    cases Catalogue.slot v replace <;> exact .inl rfl
  | enter number c =>
    rw [Desk.perform]
    cases d.slots[number]? with
    | none => exact .inl rfl
    | some s => exact henter s c
  | get | require | contains | keys | items => exact .inl rfl

theorem Desk.distinct_perform (h : d.catalogue.classes.Distinct) (op : Op) :
    (d.perform op).2.catalogue.classes.Distinct := by
  rcases d.perform_cases op with heq | ⟨n, c, heq⟩ <;> rw [heq]
  · exact h
  · exact h.set n c

theorem Desk.perform_of_refused {e : CatalogueError} (h : (d.perform op).1 = .refused e) :
    (d.perform op).2 = d := by
  have hsettle (x : Except CatalogueError (Catalogue × Class))
      (hx : (perform.settle d x).1 = .refused e) : (perform.settle d x).2 = d := by
    cases x with
    | ok r => cases hx
    | error e => rfl
  cases op with
  | register v c replace => exact hsettle _ h
  | slot v replace =>
    rw [Desk.perform] at h ⊢
    cases hslot : Catalogue.slot v replace with
    | error e => rfl
    | ok s =>
      rw [hslot] at h
      cases h
  | enter number c =>
    rw [Desk.perform] at h ⊢
    cases hslot : d.slots[number]? with
    | none => rfl
    | some s =>
      rw [hslot] at h
      exact hsettle _ h
  | get | require | contains | keys | items => rfl

end Desk

section Steps

variable {m m' : Names} {op : Op} {a : Answer} {n : String} {c : Class}

theorem Names.classOf_put (m : Names) (n l : String) (c : Class) :
    (m.put n c).classOf l = if l = n then some c else m.classOf l :=
  Function.update_apply _ _ _ _

theorem Names.Free.put {s : Slot} {c' : Class} (hfree : m.Free s c') (hclass : m.classOf n = some c)
    (hkeeps : ¬ s = ⟨n, true⟩) :
    ∃ c'', (m.put s.name c').classOf n = some c'' ∧ c''.serial = c.serial := by
  rw [Names.classOf_put]
  split
  · next heq =>
    subst heq
    obtain ⟨name, replace⟩ := s
    have hreplace : ¬ replace = true := fun h => hkeeps (by rw [h])
    exact ⟨c', rfl, (hfree.2.resolve_left hreplace c hclass).symm⟩
  · exact ⟨c, hclass, rfl⟩

theorem Step.kept (h : Step m op a m') (hclass : m.classOf n = some c)
    (hkeeps : ¬ op.Replaces m.slots n) : ∃ c', m'.classOf n = some c' ∧ c'.serial = c.serial := by
  cases h with
  | registered hname hfree =>
    refine hfree.put hclass fun heq => hkeeps ?_
    obtain ⟨rfl, rfl⟩ := Slot.mk.inj heq
    exact .register _ hname
  | filled hslot hfree =>
    exact hfree.put hclass fun heq => hkeeps (.enter _ (heq ▸ hslot))
  | _ => exact ⟨c, hclass, rfl⟩

theorem Step.base (h : Step m op a m') : m'.base = m.base := by
  cases h <;> rfl

def Names.Based (m : Names) : Prop :=
  ∀ n c, m.classOf n = some c → m.Admits c

theorem Names.Based.put {s : Slot} {c' : Class} (h : m.Based) (hfree : m.Free s c') :
    (m.put s.name c').Based := by
  intro n c hclass
  rw [Names.classOf_put] at hclass
  split at hclass
  · cases hclass
    exact hfree.1
  · exact h n c hclass

theorem Step.based (h : Step m op a m') (hm : m.Based) : m'.Based := by
  cases h with
  | registered _ hfree => exact hm.put hfree
  | filled _ hfree => exact hm.put hfree
  | _ => exact hm

theorem Run.base {ops : List Op} {as : List Answer} (h : Run m ops as m') : m'.base = m.base := by
  induction h with
  | nil => rfl
  | cons hstep _ ih => exact ih.trans hstep.base

theorem Run.based {ops : List Op} {as : List Answer} (h : Run m ops as m') (hm : m.Based) :
    m'.Based := by
  induction h with
  | nil => exact hm
  | cons hstep _ ih => exact ih (hstep.based hm)

end Steps

section Sound

variable {d : Desk} {n : String} {c : Class}

/--
What holds at every desk of a catalogue with some base, whatever has been done there.
-/
structure Desk.Sound (base : Option Class) (d : Desk) : Prop where
  unchanged : ∀ op e, (d.perform op).1 = .refused e → (d.perform op).2 = d
  agree : ∀ s, ¬ Text.allBlank s.toList → ∃ found,
    d.catalogue.get? (.str s) = .ok found ∧ d.catalogue.contains (.str s) = .ok found.isSome ∧
      ∀ c, d.catalogue.require (.str s) = .ok c ↔ found = some c
  based : d.names.base = base ∧ d.names.Based
  again : ∀ v n c replace, Spells v n → d.names.classOf n = some c →
    (d.perform (.register v (.ok c) replace)).1 = .entered c ∧
      (d.perform (.register v (.ok c) replace)).2.names = d.names
  kept : ∀ ops n c, d.names.classOf n = some c →
    (∀ before op after, ops = before ++ op :: after → ¬ op.Replaces (d.session before).2.slots n) →
    ∃ c', (d.session ops).2.names.classOf n = some c' ∧ c'.serial = c.serial

theorem Desk.agree (d : Desk) {s : String} (hs : ¬ Text.allBlank s.toList) : ∃ found,
    d.catalogue.get? (.str s) = .ok found ∧ d.catalogue.contains (.str s) = .ok found.isSome ∧
      ∀ c, d.catalogue.require (.str s) = .ok c ↔ found = some c := by
  have hname := nameOf_of_spells ⟨s, rfl, hs, rfl⟩
  refine ⟨d.catalogue.classes.get? (Text.lower (Text.trimmed s)), ?_, ?_, fun c => ?_⟩
  · rw [get?, hname]
    rfl
  · rw [contains, hname]
    rfl
  · rw [require, hname]
    simp only [bind, Except.bind]
    split
    · next c' hclass => simp [hclass, pure, Except.pure]
    · next hclass => simp [hclass]

theorem Desk.again (hbased : d.names.Based) {v : Value} (replace : Bool) (hname : Spells v n)
    (hclass : d.names.classOf n = some c) :
    (d.perform (.register v (.ok c) replace)).1 = .entered c ∧
      (d.perform (.register v (.ok c) replace)).2.names = d.names := by
  have hslot : slot v replace = .ok ⟨n, replace⟩ := by
    rw [slot, nameOf_of_spells hname]
    rfl
  have hput : d.names.put n c = d.names := by
    rw [Names.put, Function.update_eq_self_iff.mpr hclass.symm]
  rw [Desk.perform, register, hslot]
  rcases enter_cases d ⟨n, replace⟩ (.ok c) with ⟨c', hc, -, henter⟩ | ⟨e, hbars, -⟩
  · obtain rfl := Except.ok.inj hc
    simp only [bind, Except.bind, henter]
    exact ⟨rfl, (d.names_put n c).trans hput⟩
  · exfalso
    cases hbars with
    | notBelow hbase hbelow => exact hbelow (hbased n c hclass _ hbase)
    | taken _ _ hold hother =>
      obtain rfl := Option.some.inj (hclass.symm.trans hold)
      exact hother rfl

theorem Desk.kept (hdistinct : d.catalogue.classes.Distinct) (ops : List Op)
    (hclass : d.names.classOf n = some c)
    (hops : ∀ before op after, ops = before ++ op :: after →
      ¬ op.Replaces (d.session before).2.slots n) :
    ∃ c', (d.session ops).2.names.classOf n = some c' ∧ c'.serial = c.serial := by
  induction ops generalizing d c with
  | nil => exact ⟨c, hclass, rfl⟩
  | cons op ops ih =>
    obtain ⟨c', hclass', hsame⟩ :=
      (step_perform hdistinct op).kept hclass (hops [] op ops rfl)
    obtain ⟨c'', hclass'', hsame'⟩ := ih (distinct_perform hdistinct op) hclass' fun before op' after h =>
      hops (op :: before) op' after (by rw [h]; rfl)
    exact ⟨c'', hclass'', hsame'.trans hsame⟩

theorem Desk.sound {base : Option Class} (hdistinct : d.catalogue.classes.Distinct)
    (hbase : d.names.base = base) (hbased : d.names.Based) : d.Sound base where
  unchanged _ _ h := perform_of_refused h
  agree _ hs := d.agree hs
  based := ⟨hbase, hbased⟩
  again _ _ _ replace hname hclass := again hbased replace hname hclass
  kept ops _ _ hclass hops := kept hdistinct ops hclass hops

end Sound

-- The name is free when it is given, and taken by the time that the class for it comes.
example (replace : Bool) :
    (Desk.session ⟨{ title := "t" }, []⟩ [.slot (.str " A") replace,
      .register (.str "a ") (.ok ⟨0, "C", "m", []⟩) false, .enter 0 (.ok ⟨1, "D", "m", []⟩),
      .get (.str "A")]).1 =
    [.given 0, .entered ⟨0, "C", "m", []⟩,
      if replace then .entered ⟨1, "D", "m", []⟩ else .refused (.taken "t" "a" ⟨0, "C", "m", []⟩),
      .found (some (if replace then ⟨1, "D", "m", []⟩ else ⟨0, "C", "m", []⟩))] := by
  cases replace <;> rfl

end Polyglot.Catalogue
