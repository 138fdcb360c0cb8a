import Mathlib.Data.List.Forall2
import Polyglot.Hub.Dispatch
import Polyglot.Hub.State
import Polyglot.Proofs.Hub.Key
import Polyglot.Proofs.Outcome
import Polyglot.Proofs.Table

/-!
The history of a hub, and the results that should be kept after it: for each key the first one that a
request which may be kept has finished with since the results of its mode were last dropped.
-/

namespace Polyglot

def Payload.Suits (p : Payload) : Mode → Prop
  | .transpile => ∃ o, p = .output o ∧ o.text ≠ ""
  | .interpret => ∃ v, p = .value v

theorem Output.text_ne_of_ofValue {v : Value} {o : Output} (h : Output.ofValue v = .ok o) :
    o.text ≠ "" := by
  have hparts {text diagnostics : Value} (h : ofParts text diagnostics = .ok o) : o.text ≠ "" := by
    rw [ofParts.eq_def] at h
    split at h
    · split at h
      · cases h
      · next hne =>
        cases h
        simpa [String.isEmpty_iff] using hne
    · next t =>
      cases h
      exact t.mended_ne_empty
    · cases h
  rw [Output.ofValue.eq_def] at h
  split at h
  · exact hparts h
  · exact hparts h
  · cases h

theorem Payload.suits_of_ofValue {mode : Mode} {v : Value} {p : Payload}
    (h : Payload.ofValue mode v = .ok p) : p.Suits mode := by
  cases mode with
  | transpile =>
    obtain ⟨o, ho, rfl⟩ := map_eq_ok.mp h
    exact ⟨o, rfl, Output.text_ne_of_ofValue ho⟩
  | interpret =>
    cases h
    exact ⟨v, rfl⟩

namespace Hub

def replay (base : Memo Payload) (mode : Mode) : List Event → Memo Payload
  | [] => base
  | .cleared m :: es => if m = mode then {} else replay base mode es
  | .finished e :: es =>
    let kept := replay base mode es
    if e.request.mode = mode && e.request.allowCache && !kept.has e.request.key then
      kept.set e.request.key e.payload
    else kept
  | .asked .. :: es => replay base mode es
  | .called .. :: es => replay base mode es

section Replay

variable {base : Memo Payload} {mode : Mode} {es new : List Event} {key : String} {p : Payload}

theorem get?_replay_finished (base : Memo Payload) (mode : Mode) (e : Envelope) (es : List Event)
    (key : String) : (replay base mode (.finished e :: es)).get? key =
      if e.request.mode = mode ∧ e.request.allowCache ∧ e.request.key = key ∧
          (replay base mode es).get? key = none then some e.payload
      else (replay base mode es).get? key := by
  simp only [replay]
  by_cases hkey : e.request.key = key
  · subst hkey
    by_cases hset : e.request.mode = mode ∧ e.request.allowCache ∧
        (replay base mode es).has e.request.key = false
    · obtain ⟨hmode, hcache, hhas⟩ := hset
      simp [hmode, hcache, hhas, Table.get?_eq_none_of_has hhas, Table.get?_set_self]
    · have hhas : (replay base mode es).has e.request.key = false ↔
          (replay base mode es).get? e.request.key = none := by
        simp [Table.has]
      rw [hhas] at hset
      rw [if_neg (by simpa [Table.has] using hset), if_neg (by simpa using hset)]
  · split
    · rw [Table.get?_set_of_ne _ _ (Ne.symm hkey)]
      simp [hkey]
    · simp [hkey]

theorem finished_of_replay (h : (replay base mode es).get? key = some p) :
    base.get? key = some p ∨ ∃ e, .finished e ∈ es ∧ e.request.mode = mode ∧
      e.request.allowCache ∧ e.request.key = key ∧ e.payload = p := by
  induction es with
  | nil => exact .inl h
  | cons event es ih =>
    have hmore (h : (replay base mode es).get? key = some p) : base.get? key = some p ∨
        ∃ e, .finished e ∈ event :: es ∧ e.request.mode = mode ∧ e.request.allowCache ∧
          e.request.key = key ∧ e.payload = p := by
      rcases ih h with hbase | ⟨e, he, hrest⟩
      · exact .inl hbase
      · exact .inr ⟨e, List.mem_cons_of_mem _ he, hrest⟩
    cases event with
    | asked parent r => exact hmore h
    | called r => exact hmore h
    | cleared m =>
      rw [replay] at h
      split at h
      · cases h
      · exact hmore h
    | finished e =>
      rw [get?_replay_finished] at h
      split at h
      · next hnew =>
        obtain ⟨hmode, hcache, hkey, _⟩ := hnew
        exact .inr ⟨e, List.mem_cons_self, hmode, hcache, hkey, Option.some.inj h⟩
      · exact hmore h

theorem replay_append_of_some (hnew : .cleared mode ∉ new)
    (h : (replay base mode es).get? key = some p) :
    (replay base mode (new ++ es)).get? key = some p := by
  induction new with
  | nil => exact h
  | cons event new ih =>
    rw [List.mem_cons, not_or] at hnew
    obtain ⟨hne, hrest⟩ := hnew
    have hold := ih hrest
    cases event with
    | asked parent r => exact hold
    | called r => exact hold
    | cleared m =>
      rw [List.cons_append, replay, if_neg (by rintro rfl; exact hne rfl)]
      exact hold
    | finished e =>
      rw [List.cons_append, get?_replay_finished, hold]
      simp

/--
What comes to be kept is the result of a request that has finished meanwhile and may be kept.
-/
theorem replay_append_of_none (hnew : .cleared mode ∉ new)
    (hnone : (replay base mode es).get? key = none)
    (h : (replay base mode (new ++ es)).get? key = some p) :
    ∃ e, .finished e ∈ new ∧ e.request.mode = mode ∧ e.request.allowCache ∧
      e.request.key = key ∧ e.payload = p := by
  induction new with
  | nil =>
    rw [List.nil_append, hnone] at h
    cases h
  | cons event new ih =>
    rw [List.mem_cons, not_or] at hnew
    obtain ⟨hne, hrest⟩ := hnew
    have hmore (h : (replay base mode (new ++ es)).get? key = some p) :
        ∃ e, .finished e ∈ event :: new ∧ e.request.mode = mode ∧ e.request.allowCache ∧
          e.request.key = key ∧ e.payload = p := by
      obtain ⟨e, he, hprops⟩ := ih hrest h
      exact ⟨e, List.mem_cons_of_mem _ he, hprops⟩
    cases event with
    | asked parent r => exact hmore h
    | called r => exact hmore h
    | cleared m =>
      rw [List.cons_append, replay, if_neg (by rintro rfl; exact hne rfl)] at h
      exact hmore h
    | finished e =>
      rw [List.cons_append, get?_replay_finished] at h
      split at h
      · next hset =>
        obtain ⟨hmode, hcache, hkey, _⟩ := hset
        exact ⟨e, List.mem_cons_self, hmode, hcache, hkey, Option.some.inj h⟩
      · exact hmore h

end Replay

/--
An event that a hub with these settings may have: every request is one level below the one that it is
made for, and no compiler is called too deep.
-/
def Event.Sound (h : Settings) : Event → Prop
  | .asked parent r => r.Named ∧ r.depth = Request.depthBelow parent
  | .called r => r.depth ≤ h.maxDepth
  | .finished e => e.request.Named
  | .cleared _ => True

end Hub

end Polyglot

/-!
What requests may come to, told without tasks and ticks: the outcomes of a call of a compiler, given
those of what it asks for, and the results of a request so many levels above the deepest one.
-/

namespace Polyglot

variable {K X : Type}

theorem forall₂_imp_of_mem {α β : Type} {R S : α → β → Prop} {as : List α} {bs : List β}
    (h : List.Forall₂ R as bs) (himp : ∀ a b, a ∈ as → R a b → S a b) : List.Forall₂ S as bs := by
  induction h with
  | nil => exact .nil
  | cons hab _ ih =>
    refine .cons (himp _ _ List.mem_cons_self hab) (ih ?_)
    intro a b ha
    exact himp a b (List.mem_cons_of_mem _ ha)

theorem of_forall₂_map {α β γ : Type} {R : β → γ → Prop} {f : α → β} {as : List α} {cs : List γ}
    (h : List.Forall₂ R (as.map f) cs) {a : α} (ha : a ∈ as) : ∃ c, R (f a) c := by
  rw [List.forall₂_map_left_iff] at h
  induction h with
  | nil => cases ha
  | cons hac _ ih =>
    rcases List.mem_cons.mp ha with rfl | ha
    · exact ⟨_, hac⟩
    · exact ih ha

def Part.Yields (answers : Ask → Envelope → Prop) : Part → Option Envelope → Prop
  | .ask a, result => ∃ e, result = some e ∧ answers a e
  | .done, result => result = none
  | .failed _, _ => False

namespace Call

/--
A call may hand back a value with both kinds of options, where it may see certain views and get
certain answers.
-/
def Yields (sees : View X → Prop) (answers : Ask → Envelope → Prop) :
    Call X → Value → Fields → Fields → Prop
  | answer v' compilerOptions' executerOptions', v, compilerOptions, executerOptions =>
    v' = v ∧ compilerOptions' = compilerOptions ∧ executerOptions' = executerOptions
  | fail _, _, _, _ => False
  | pause next, v, compilerOptions, executerOptions =>
    next.Yields sees answers v compilerOptions executerOptions
  | observe next, v, compilerOptions, executerOptions =>
    ∃ view, sees view ∧ (next view).Yields sees answers v compilerOptions executerOptions
  | effect _ next, v, compilerOptions, executerOptions =>
    next.Yields sees answers v compilerOptions executerOptions
  | ask a next, v, compilerOptions, executerOptions =>
    ∃ e, answers a e ∧ (next e).Yields sees answers v compilerOptions executerOptions
  | join parts next, v, compilerOptions, executerOptions =>
    ∃ results, List.Forall₂ (Part.Yields answers) parts results ∧
      (next results).Yields sees answers v compilerOptions executerOptions

def AsksOnly (may : Ask → Prop) : Call X → Prop
  | answer .. => True
  | fail _ => True
  | pause next => next.AsksOnly may
  | observe next => ∀ view, (next view).AsksOnly may
  | effect _ next => next.AsksOnly may
  | ask a next => may a ∧ ∀ e, (next e).AsksOnly may
  | join parts next => (∀ a, .ask a ∈ parts → may a) ∧ ∀ results, (next results).AsksOnly may

theorem asksOnly_of_forall {may : Ask → Prop} (h : ∀ a, may a) (call : Call X) : call.AsksOnly may := by
  induction call with
  | answer v compilerOptions executerOptions => trivial
  | fail e => trivial
  | pause next ih => exact ih
  | observe next ih => exact ih
  | effect e next ih => exact ih
  | ask a next ih => exact ⟨h a, ih⟩
  | join parts next ih => exact ⟨fun a _ => h a, ih⟩

theorem Yields.mono {may : Ask → Prop} {sees : View X → Prop} {answers answers' : Ask → Envelope → Prop}
    (hanswers : ∀ a e, may a → answers a e → answers' a e) {call : Call X} (hmay : call.AsksOnly may)
    {v : Value} {compilerOptions executerOptions : Fields}
    (h : call.Yields sees answers v compilerOptions executerOptions) :
    call.Yields sees answers' v compilerOptions executerOptions := by
  induction call with
  | answer v compilerOptions executerOptions => exact h
  | fail e => exact h
  | pause next ih => exact ih hmay h
  | observe next ih =>
    obtain ⟨view, hview, h⟩ := h
    exact ⟨view, hview, ih view (hmay view) h⟩
  | effect e next ih => exact ih hmay h
  | ask a next ih =>
    obtain ⟨e, he, h⟩ := h
    exact ⟨e, hanswers a e hmay.1 he, ih e (hmay.2 e) h⟩
  | join parts next ih =>
    obtain ⟨results, hresults, h⟩ := h
    refine ⟨results, ?_, ih results (hmay.2 results) h⟩
    apply forall₂_imp_of_mem hresults
    intro part result hpart hy
    cases part with
    | ask a =>
      obtain ⟨e, rfl, he⟩ := hy
      exact ⟨e, rfl, hanswers a e (hmay.1 a hpart) he⟩
    | done => exact hy
    | failed e => exact hy

theorem AsksOnly.mono {may may' : Ask → Prop} (hmay : ∀ a, may a → may' a) {call : Call X}
    (h : call.AsksOnly may) : call.AsksOnly may' := by
  induction call with
  | answer v compilerOptions executerOptions => trivial
  | fail e => trivial
  | pause next ih => exact ih h
  | observe next ih => exact fun view => ih view (h view)
  | effect e next ih => exact ih h
  | ask a next ih => exact ⟨hmay a h.1, fun e => ih e (h.2 e)⟩
  | join parts next ih => exact ⟨fun a ha => hmay a (h.1 a ha), fun results => ih results (h.2 results)⟩

end Call

namespace Hub

/--
What a hub may meet with while it works: the world, the root directory and the registry that it may
find, the results that may be kept or worked out meanwhile, and what it counts on of all results.
-/
structure Scene (K : Type) where
  fits : World → String → Registry K → Prop
  kept : Mode → String → Payload → Prop
  good : Mode → Payload → Prop
  fits_erase : ∀ {w root registry} input output, fits w root registry →
    fits w root (registry.eraseTranspiler input output)
  good_of_kept : ∀ {mode key p}, kept mode key p → good mode p
  good_of_suits : ∀ {mode} {p : Payload}, p.Suits mode → good mode p

variable (m : Machine K X) (c : Scene K)

def Sees (v : View X) : Prop := v.hub = some m.settings ∧ ∃ registry, c.fits v.world v.root registry

/--
A request may get its text from its location.
-/
def Loads (r r' : Request) : Prop :=
  if r.fromLocation then
    ∃ w root registry w' root' registry' plan loaded, c.fits w root registry ∧
      Source.plan w root r.location = .ok plan ∧ c.fits w' root' registry' ∧
      (plan.read m.settings.sources w').outcome = .ok loaded ∧
      r' = { r with source := some loaded.text }
  else r' = r

def handed {ε : Type} (r : Request) (c : Except ε (Value × Fields × Fields)) :
    Except ε (Option Envelope) :=
  c.map fun (v, compilerOptions, executerOptions) =>
    some ⟨{ r with compilerOptions, executerOptions }, .value v⟩

def compiler? (registry : Registry K) (r : Request) : Option K :=
  match r.mode with
  | .transpile => registry.transpiler? r.inputLang (r.outputLang.getD "")
  | .interpret => registry.interpreters.get? r.inputLang

def Finds (r : Request) (k : K) : Prop :=
  ∃ w root registry, c.fits w root registry ∧ compiler? registry r = some k

def Computes (answers : Ask → Envelope → Prop) (k : K) (r : Request) (e : Envelope) : Prop :=
  ∃ v compilerOptions executerOptions p,
    (m.perform k r).Yields (Sees m c) answers v compilerOptions executerOptions ∧
    Payload.ofValue r.mode v = .ok p ∧ e = ⟨{ r with compilerOptions, executerOptions }, p⟩

/--
A request may be worked out, given what may be asked for below it.
-/
def Works (answers : Request → Ask → Envelope → Prop) (parent : Option Request) (a : Ask)
    (e : Envelope) : Prop :=
  ∃ r r' k, requestOf a.mode a.options m.settings.inlineStart (Request.depthBelow parent) = .ok r ∧
    Loads m c r r' ∧ Finds c r' k ∧ Computes m c (answers r') k r' e

def Recalls (parent : Option Request) (a : Ask) (e : Envelope) : Prop :=
  ∃ r, requestOf a.mode a.options m.settings.inlineStart (Request.depthBelow parent) = .ok r ∧
    r.allowCache ∧ c.kept r.mode r.key e.payload ∧
    (e.request = { r with cacheHit := true } ∨ Loads m c r e.request)

def Served : Nat → Option Request → Ask → Envelope → Prop
  | 0, parent, a, e => Recalls m c parent a e
  | left + 1, parent, a, e =>
    Recalls m c parent a e ∨ Works m c (fun r => Served left (some r)) parent a e

end Hub

end Polyglot
