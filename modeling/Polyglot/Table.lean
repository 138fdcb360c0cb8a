/-!
Tables: finite maps that keep their entries in the order in which their keys first came.

A memo table holds results under their keys. Any result may be kept, so only the key tells whether there is
one.
-/

namespace Polyglot

structure Table (κ α : Type) where
  entries : List (κ × α) := []

namespace Table

variable {κ α : Type} [DecidableEq κ]

def get? (t : Table κ α) (k : κ) : Option α :=
  (t.entries.find? fun e => e.1 = k).map (·.2)

def has (t : Table κ α) (k : κ) : Bool :=
  (t.get? k).isSome

def keys (t : Table κ α) : List κ :=
  t.entries.map (·.1)

def size (t : Table κ α) : Nat :=
  t.entries.length

def isEmpty (t : Table κ α) : Bool :=
  t.entries.isEmpty

def place (k : κ) (v : α) : List (κ × α) → List (κ × α)
  | [] => [(k, v)]
  | e :: es => if e.1 = k then (k, v) :: es else e :: place k v es

/--
Gives a key its value; a key that is already there keeps its place.
-/
def set (t : Table κ α) (k : κ) (v : α) : Table κ α :=
  ⟨place k v t.entries⟩

def erase (t : Table κ α) (k : κ) : Table κ α :=
  ⟨t.entries.filter fun e => e.1 ≠ k⟩

def ofEntries (es : List (κ × α)) : Table κ α :=
  es.foldl (fun t e => t.set e.1 e.2) {}

def copy (t : Table κ α) : Table κ α :=
  ofEntries t.entries

theorem get?_set_self (t : Table κ α) (k : κ) (v : α) : (t.set k v).get? k = some v := by
  obtain ⟨es⟩ := t
  simp only [set, get?]
  induction es with
  | nil => simp [place]
  | cons e es ih => by_cases h : e.1 = k <;> simp_all [place]

theorem get?_set_of_ne (t : Table κ α) {k l : κ} (v : α) (h : l ≠ k) :
    (t.set k v).get? l = t.get? l := by
  obtain ⟨es⟩ := t
  simp only [set, get?]
  induction es with
  | nil => simp [place, Ne.symm h]
  | cons e es ih =>
    by_cases hk : e.1 = k
    · simp [place, hk, Ne.symm h]
    · by_cases hl : e.1 = l <;> simp_all [place]

theorem get?_erase_self (t : Table κ α) (k : κ) : (t.erase k).get? k = none := by
  simp [get?, erase]

theorem get?_erase_of_ne (t : Table κ α) {k l : κ} (h : l ≠ k) :
    (t.erase k).get? l = t.get? l := by
  obtain ⟨es⟩ := t
  simp only [erase, get?]
  induction es with
  | nil => rfl
  | cons e es ih =>
    by_cases hk : e.1 = k
    · have : e.1 ≠ l := fun hl => h (hl.symm.trans hk)
      simp_all
    · by_cases hl : e.1 = l <;> simp_all

def sorted (t : Table String α) : List (String × α) :=
  t.entries.mergeSort fun a b => a.1 ≤ b.1

end Table

abbrev Memo (α : Type) := Table String α

namespace Memo

variable {α : Type}

def sortedKeys (m : Memo α) : List String :=
  (Table.sorted m).map (·.1)

end Memo

end Polyglot
