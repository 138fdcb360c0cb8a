import Polyglot.Proofs.Loop.Tended

/-!
Things done side by side: a task starts several others, waits for their results, and when one fails
cuts the others off and waits for their ends.
-/

namespace Polyglot.Loop

variable {σ ε ρ κ π : Type} {c : Terms σ ε ρ κ π} {l l' : Ledger κ π ε ρ} {t : Nat} {x : σ}

/--
A routine that may be started as a task that plays some part and stands at some point.
-/
structure Terms.Starts (c : Terms σ ε ρ κ π) (point : π) (child : Routine σ ε ρ) (role : κ) : Prop where
  fits : c.fits role point (.pause child)
  tends : ∀ u g l x, l.wards[u]? = some ⟨g, role⟩ → l.stage u = .pending point → c.inv l x →
    child.Tends c u [] l x
  stops : ∀ u g l x, l.wards[u]? = some ⟨g, role⟩ → l.stage u = .pending point → c.inv l x →
    l.Doomed u → c.inv (l.reach u (.ended (.error .cancelled))) x

theorem Terms.Starts.ready {point : π} {child : Routine σ ε ρ} {role : κ}
    (h : c.Starts point child role) {u : Nat} {g : Option Nat} (hw : l.wards[u]? = some ⟨g, role⟩)
    (hu : l.stage u = .pending point) : c.Ready u (child.Tends c u []) l := by
  intro l' x' hl hinv
  have hw' := hl.ward hw
  have hu' := hl.stage.trans hu
  exact ⟨h.tends u g l' x' hw' hu' hinv, h.stops u g l' x' hw' hu' hinv⟩

namespace Block

theorem tends_spawn {child : Routine σ ε ρ} {k : Nat → Routine σ ε ρ} {us : List Nat} (role : κ)
    (point : π) (hchild : c.Starts point child role)
    (hk : (k l.wards.length).Tends c t (us ++ [l.wards.length]) (l.start ⟨some t, role⟩ point) x) :
    (spawn child k).Tends c t us l x := by
  refine ⟨role, point, hchild.fits, ?_, hk⟩
  apply hchild.ready (g := some t)
  · rw [Ledger.wards_start, List.getElem?_concat_length]
  · exact l.stage_start_self _ point

theorem tends_spawnAll (Good : Ledger κ π ε ρ → Prop) {point : π} {parts : List (Routine σ ε ρ)}
    {roles : List κ} {k : List Nat → Routine σ ε ρ} {us : List Nat}
    (hparts : List.Forall₂ (c.Starts point) parts roles)
    (hstart : ∀ l role, role ∈ roles → Good l → Good (l.start ⟨some t, role⟩ point)) (hl : Good l)
    (hk : ∀ l', Good l' → l'.wards = l.wards ++ roles.map (⟨some t, ·⟩) →
      (k (List.range' l.wards.length roles.length)).Tends c t
        (us ++ List.range' l.wards.length roles.length) l' x) :
    (spawnAll parts k).Tends c t us l x := by
  induction hparts generalizing l us k with
  | nil =>
    have h := hk l hl (by simp)
    rw [List.length_nil, List.range'_zero, List.append_nil] at h
    exact h
  | @cons part role parts roles hpart _ ih =>
    apply tends_spawn role point hpart
    have hnext : (spawnAll parts fun ts => k (l.wards.length :: ts)).Tends c t
        (us ++ [l.wards.length]) (l.start ⟨some t, role⟩ point) x := by
      apply ih
      · exact fun l role hrole => hstart l role (List.mem_cons_of_mem _ hrole)
      · exact hstart l role List.mem_cons_self hl
      · intro l' hl' hwards
        have h := hk l' hl' (by rw [hwards, Ledger.wards_start]; simp)
        rw [List.length_cons, List.range'_succ] at h
        rw [Ledger.wards_start, List.length_append, List.length_singleton, List.append_assoc]
        exact h
    exact hnext

/--
What wards come to that have been started one after the other is what their parts allow.
-/
theorem forall₂_of_started {P : κ → ρ → Prop} {ws : List (Ward κ)} {roles : List κ} {vs : List ρ}
    (hws : ws ++ roles.map (⟨some t, ·⟩) <+: l.wards)
    (hvs : List.Forall₂ (fun u v => l.stage u = .ended (.ok v))
      (List.range' ws.length roles.length) vs)
    (hP : ∀ u role v, ws.length ≤ u → l.wards[u]? = some ⟨some t, role⟩ →
      l.stage u = .ended (.ok v) → P role v) : List.Forall₂ P roles vs := by
  induction roles generalizing ws vs with
  | nil =>
    cases hvs
    exact .nil
  | cons role roles ih =>
    rw [List.length_cons, List.range'_succ] at hvs
    obtain _ | ⟨hv, hvs⟩ := hvs
    rw [List.map_cons, List.append_cons] at hws
    have hrole : l.wards[ws.length]? = some ⟨some t, role⟩ := by
      obtain ⟨more, heq⟩ := hws
      rw [← heq]
      simp
    refine .cons (hP _ role _ (Nat.le_refl _) hrole hv) (ih hws ?_ ?_)
    · rwa [List.length_append, List.length_singleton]
    · intro u role v hu
      rw [List.length_append] at hu
      exact hP u role v (Nat.le_trans (Nat.le_add_right _ _) hu)

theorem exists_role_of_started {ws : List (Ward κ)} {roles : List κ} {u : Nat}
    (hws : ws ++ roles.map (⟨some t, ·⟩) <+: l.wards) (hu : u ∈ List.range' ws.length roles.length) :
    ∃ role ∈ roles, l.wards[u]? = some ⟨some t, role⟩ := by
  obtain ⟨hle, hlt⟩ := List.mem_range'_1.mp hu
  obtain ⟨more, heq⟩ := hws
  have hi : u - ws.length < roles.length := by omega
  refine ⟨roles[u - ws.length], List.getElem_mem hi, ?_⟩
  rw [← heq, List.append_assoc, List.getElem?_append_right hle,
    List.getElem?_append_left (by rwa [List.length_map])]
  simp [hi]

/--
A task may stop at some point in certain states, and finds one when it goes on.
-/
structure Parks (c : Terms σ ε ρ κ π) (t : Nat) (w : Ward κ) (point : π)
    (Good : Ledger κ π ε ρ → σ → Prop) : Prop where
  ward : ∀ {l x}, Good l x → l.wards[t]? = some w
  stop : ∀ {l x}, Good l x → c.inv (l.reach t (.pending point)) x
  go : ∀ {l x}, l.wards[t]? = some w → l.stage t = .pending point → c.inv l x → Good l x

variable {w : Ward κ} {point : π} {Good : Ledger κ π ε ρ → σ → Prop}

theorem Parks.later (h : Parks c t w point Good) (hw : l.wards[t]? = some w)
    (hl : (l.reach t (.pending point)).Later t l') (hinv : c.inv l' x) : Good l' x := by
  apply h.go (hl.ward hw) _ hinv
  rw [hl.stage, Ledger.stage_reach_self]

/--
A block that does several things side by side hands on the results of all of them, or stops when all
of them have ended.
-/
theorem tends_join {start : π} {parts : List (Routine σ ε ρ)} {k : List ρ → Routine σ ε ρ}
    (roles : List κ) (Bad : Ledger κ π ε ρ → Stop ε → Prop)
    (hparks : Parks c t w point Good)
    (hgathers : ∀ us next, c.fits w.role point (.gather us next))
    (hdrains : ∀ us next, c.fits w.role point (.drain us next))
    (hparts : List.Forall₂ (c.Starts start) parts roles)
    (hstart : ∀ l x role, role ∈ roles → Good l x → Good (l.start ⟨some t, role⟩ start) x)
    (hcut : ∀ l x us, Good l x → Good (l.cutOff us) x) (hgood : Good l x)
    (hok : ∀ l' x' vs, Good l' x' → l.wards ++ roles.map (⟨some t, ·⟩) <+: l'.wards →
      List.Forall₂ (fun u v => l'.stage u = .ended (.ok v))
        (List.range' l.wards.length roles.length) vs → (k vs).Tends c t [] l' x')
    (herror : ∀ l' x' u e, Good l' x' → l.wards ++ roles.map (⟨some t, ·⟩) <+: l'.wards →
      u ∈ List.range' l.wards.length roles.length → l'.stage u = .ended (.error e) →
      (l'.Doomed u → l'.Doomed t) → Bad l' e)
    (hdoomed : ∀ l', l'.Doomed t → Bad l' .cancelled)
    (hmono : ∀ l' l'' e, l'.Extends l'' → Bad l' e → Bad l'' e)
    (hstop : ∀ l' x' e, Good l' x' → Bad l' e → c.inv (l'.reach t (.ended (.error e))) x') :
    (join parts k).Tends c t [] l x := by
  apply tends_spawnAll (fun l => Good l x) hparts (fun l role => hstart l x role) hgood
  intro l₁ hgood₁ hwards
  rw [List.nil_append]
  generalize hts : List.range' l.wards.length roles.length = ts at hok herror
  -- when one has failed the others are cut off, and the failure is passed on when all have ended
  have hfail (l' : Ledger κ π ε ρ) (x' : σ) (e : Stop ε) (ht : l'.stage t = .pending point)
      (hgood' : Good l' x') (hbad : Bad l' e) (hne : ts ≠ [])
      {next : Except (Stop ε) Unit → Routine σ ε ρ} (hnext : next (.ok ()) = .finish (.error e))
      (hcancelled : next (.error .cancelled) = .finish (.error .cancelled)) :
      (Routine.drain ts next).Tends c t ts l' x' := by
    have hgood'' := hcut l' x' ts hgood'
    have hend : ¬ (l'.cutOff ts).Ended t := by
      rintro ⟨r, hr⟩
      cases ht.symm.trans hr
    refine ⟨rfl, fun hnil => absurd hnil hne, fun _ => ⟨point, ⟨⟨w, hparks.ward hgood'', hdrains _ _⟩,
      hparks.stop hgood''⟩, ?_⟩⟩
    intro l'' x'' hl hinv _
    have hgood := hparks.later (hparks.ward hgood'') hl hinv
    have hextends : l'.Extends l'' :=
      (Ledger.Extends.cutOff l' ts).trans ((Ledger.Extends.reach hend _).trans hl.toExtends)
    simp only [hnext, hcancelled]
    exact ⟨⟨rfl, hstop l'' x'' e hgood (hmono l' l'' e hextends hbad)⟩,
      fun hdoom => ⟨rfl, hstop l'' x'' _ hgood (hdoomed l'' hdoom)⟩⟩
  refine ⟨rfl, ?_, ?_⟩
  · intro hnil
    apply hok l₁ x [] hgood₁ (hwards ▸ List.prefix_rfl)
    rw [hnil]
    exact .nil
  · intro hne
    refine ⟨point, ⟨⟨w, hparks.ward hgood₁, hgathers _ _⟩, hparks.stop hgood₁⟩, ?_⟩
    intro l₂ x₂ hl hinv
    have hgood₂ := hparks.later (hparks.ward hgood₁) hl hinv
    have hprefix : l.wards ++ roles.map (⟨some t, ·⟩) <+: l₂.wards := hwards ▸ hl.wards
    have ht : l₂.stage t = .pending point := hl.stage.trans (l₁.stage_reach_self t _)
    refine ⟨fun vs hvs => hok l₂ x₂ vs hgood₂ hprefix hvs, ?_, ?_⟩
    · intro u e hu he hdoom
      exact hfail l₂ x₂ e ht hgood₂ (herror l₂ x₂ u e hgood₂ hprefix hu he hdoom) hne rfl rfl
    · exact fun hdoom => hfail l₂ x₂ _ ht hgood₂ (hdoomed l₂ hdoom) hne rfl rfl

end Block

end Polyglot.Loop
