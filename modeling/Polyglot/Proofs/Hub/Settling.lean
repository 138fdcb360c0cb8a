import Polyglot.Hub.Dispatch
import Polyglot.Proofs.Loop.Block
import Polyglot.Proofs.Loop.Rest
import Polyglot.Proofs.Loop.Solo

/-!
Enough ticks for a request. Where requests do not wait for each other's work, each task waits only for tasks
that it has started itself, and so the request ends, whatever its compilers do.
-/

namespace Polyglot.Hub

open Loop

variable {K X α β : Type} {m : Machine K X} {t : Nat}

def elders : Contract (State K X) (Option Envelope) where
  inv _ _ := True
  step _ _ := True
  waits := (· < ·)
  mono _ := id
  refl _ := trivial
  trans _ _ := trivial
  later := @Nat.lt_of_succ_le

def Settles (t : Nat) (b : Block K X α) : Prop :=
  ∀ ps x, t < ps.length → Block.Meets elders t b ps x fun _ _ _ => True

namespace Settles

theorem pure (a : α) : Settles t (Pure.pure a : Block K X α) := fun _ _ _ => .pure trivial

theorem bind {b : Block K X α} {f : α → Block K X β} (h : Settles t b) (hf : ∀ a, Settles t (f a)) :
    Settles t (b >>= f) :=
  fun ps x ht => (h ps x ht).bind fun a ps' x' hps _ => hf a ps' x' (ht.trans_le hps.length_le)

theorem fail (e : Failure) : Settles t (Block.fail e : Block K X α) := fun _ _ _ => .fail trivial

theorem ofExcept (r : Except Failure α) : Settles t (Block.ofExcept r : Block K X α) :=
  fun _ _ _ => .ofExcept trivial fun _ _ => trivial

theorem look : Settles t (Block.look : Block K X (State K X)) :=
  fun ps x _ _ _ hk => hk x ps x List.prefix_rfl trivial

theorem change (f : State K X → State K X) : Settles t (Block.change f : Block K X Unit) :=
  fun _ _ _ => .change trivial trivial

theorem pause : Settles t (Block.pause : Block K X Unit) :=
  fun _ _ _ => .pause trivial fun _ _ _ _ => trivial

theorem trace (debug : Bool) (logger text : String) :
    Settles t (trace debug logger text : Block K X Unit) := by
  rw [Hub.trace]
  split
  · exact .change _
  · exact .pure ()

theorem warn (debug : Bool) (logger text : String) :
    Settles t (warn debug logger text : Block K X Unit) := by
  rw [Hub.warn]
  split
  · exact .change _
  · exact .pure ()

theorem readSource (h : Settings) (r : Request) : Settles t (readSource h r : Block K X Request) := by
  refine .bind (.trace _ _ _) fun _ => .bind .look fun s => .bind (.ofExcept _) fun plan => ?_
  refine .bind .pause fun _ => .bind .look fun s => .bind (.change _) fun _ => ?_
  exact .bind (.ofExcept _) fun loaded => .pure _

theorem prepare (h : Settings) (a : Ask) (parent : Option Request) :
    Settles t (prepare h a parent : Block K X Prepared) := by
  rw [Hub.prepare]
  split
  · split
    · exact .bind (.warn _ _ _) fun _ => .fail _
    · exact .fail _
  · refine .bind (.change _) fun _ => .bind .look fun s => ?_
    split
    · exact .bind (.trace _ _ _) fun _ => .bind (.trace _ _ _) fun _ => .pure _
    · dsimp only
      split
      · exact .bind (.readSource _ _) fun _ => .bind (.trace _ _ _) fun _ => .pure _
      · exact .bind (.pure _) fun _ => .bind (.trace _ _ _) fun _ => .pure _

theorem lookUp (r : Request) : Settles t (lookUp r : Block K X K) := by
  refine .bind .look fun s => ?_
  dsimp only
  split
  · exact .pure _
  · exact .bind (.warn _ _ _) fun _ => .fail _

theorem ending (r : Except (Stop Failure) (Option Envelope)) :
    Settles t (ending r : Block K X Envelope) := by
  match r with
  | .ok (some e) => exact .pure e
  | .ok none => exact fun _ _ _ => .stop trivial
  | .error e => exact fun _ _ _ => .stop trivial

theorem keep (e : Envelope) : Settles t (keep e : Block K X Unit) := by
  refine .bind .look fun s => ?_
  split
  · exact .bind (.trace _ _ _) fun _ => .change _
  · exact .pure ()

end Settles

theorem Settles.keeps {b : Block K X Envelope} (h : Settles t b) {ps : Promises (Option Envelope)}
    (ht : t < ps.length) (x : State K X) :
    (b fun e => .finish (.ok (some e))).Keeps elders t (fun o => o.isSome) ps x :=
  h ps x ht _ _ fun _ _ _ _ _ => ⟨trivial, by rintro _ ⟨⟩; rfl⟩

theorem keeps_call {ask : Ask → Block K X Envelope} (hask : ∀ n a, Settles n (ask a)) (h : Settings)
    (r : Request) (call : Call X) {ps : Promises (Option Envelope)} (ht : t < ps.length) (x : State K X) :
    (callRoutine h ask r call).Keeps elders t (fun _ => True) ps x := by
  induction call generalizing ps x with
  | answer v compilerOptions executerOptions => exact ⟨trivial, fun _ _ => trivial⟩
  | fail e => exact ⟨trivial, fun _ _ => trivial⟩
  | pause next ih => exact ⟨trivial, fun ps' x' hps _ => ih (ht.trans_le hps.length_le) x'⟩
  | observe next ih => exact ih _ ht x
  | effect e next ih => exact ⟨trivial, ih ht _⟩
  | ask a next ih => exact hask t a ps x ht _ _ fun e ps' x' hps _ => ih e (ht.trans_le hps.length_le) x'
  | join parts next ih =>
    refine Block.Meets.join (parts.map fun _ _ => True) (fun _ _ _ => True) ht trivial ?_
      (fun _ _ _ _ _ _ => trivial) _ _ fun results ps' x' hps _ => ih results (ht.trans_le hps.length_le) x'
    rw [List.forall₂_map_left_iff, List.forall₂_map_right_iff, List.forall₂_same]
    intro part _ n ps' x' _ hn _ _
    cases part with
    | ask a => exact hask n a ps' x' hn _ _ fun _ _ _ _ _ => ⟨trivial, fun _ _ => trivial⟩
    | done => exact ⟨trivial, fun _ _ => trivial⟩
    | failed e => exact ⟨trivial, fun _ _ => trivial⟩

theorem Settles.compute {ask : Ask → Block K X Envelope} (hask : ∀ n a, Settles n (ask a)) (c : K)
    (r : Request) : Settles t (compute m ask c r) := by
  intro ps x ht
  have hspawn : Block.Meets elders t (Block.spawn (.look fun _ => .change (·.note (.called r))
      (callRoutine m.settings ask r (m.perform c r)))) ps x fun u ps' _ => u = ps.length ∧ u < ps'.length := by
    refine .spawn (q := fun _ => True) ?_ ⟨rfl, by simp⟩
    exact fun n ps' x' _ hn _ _ => ⟨trivial, keeps_call hask m.settings r (m.perform c r) hn _⟩
  refine hspawn.bind ?_
  rintro u ps' x' hps ⟨rfl, hu⟩
  refine .bind (.await trivial hu ht fun _ _ _ _ _ _ => trivial) fun ended ps'' x'' hps' _ => ?_
  refine Settles.bind (.ending ended) (fun e => ?_) ps'' x'' (ht.trans_le (hps.trans hps').length_le)
  split
  · exact .bind (.ofExcept _) fun _ => .pure _
  · exact .pure e

theorem Settles.dispatch (hm : m.settings.coalesce = false) {ask : Ask → Block K X Envelope}
    (hask : ∀ n a, Settles n (ask a)) (r : Request) : Settles t (dispatch m ask r) := by
  refine .bind (.lookUp r) fun c => ?_
  dsimp only
  rw [if_neg (by simp [hm])]
  exact .bind (.compute hask c r) fun e => .bind (.keep e) fun _ => .pure e

theorem Settles.request (hm : m.settings.coalesce = false) (left : Nat) (parent : Option Request) (a : Ask) :
    Settles t (request m left parent a) := by
  have hfinish {t : Nat} (e : Envelope) : Settles t (request.finish e : Block K X Envelope) :=
    .bind (.change _) fun _ => .pure e
  induction left generalizing t parent a with
  | zero =>
    unfold Hub.request
    refine .bind (.prepare _ _ _) fun prepared => ?_
    cases prepared with
    | hit e => exact hfinish e
    | fresh r => exact .fail _
  | succ left ih =>
    unfold Hub.request
    refine .bind (.prepare _ _ _) fun prepared => ?_
    cases prepared with
    | hit e => exact hfinish e
    | fresh r => exact .bind (.dispatch hm (fun n a => ih (some r) a) r) hfinish

/--
A request is served in finitely many ticks, and more of them change nothing. It ends in them, with an
answer or a failure, if requests do not wait for each other's work.
-/
theorem exists_fuel (m : Machine K X) (s : State K X) (a : Ask) : ∃ enough, ∀ fuel, enough ≤ fuel →
    submit m fuel s [a] = submit m enough s [a] ∧
    (m.settings.coalesce = false → ∃ r, (submit m fuel s [a]).2 = [some r]) := by
  obtain ⟨enough, hrest⟩ := Schedule.exists_run (Schedule.start s [requestRoutine m a])
  refine ⟨enough, fun fuel hfuel => ?_⟩
  obtain ⟨more, rfl⟩ := Nat.exists_eq_add_of_le hfuel
  have hsame : submit m (enough + more) s [a] = submit m enough s [a] := by
    rw [submit, submit, List.map_cons, List.map_nil, Schedule.run_add, Schedule.run_of_rest hrest]
  refine ⟨hsame, fun hm => ?_⟩
  rw [hsame]
  have hup : (Schedule.start s [requestRoutine m a]).Upholds elders none [fun o => o.isSome] :=
    (Schedule.upholds_of_empty elders s).spawn _ fun ps x hps _ =>
      (Settles.request hm _ none a).keeps (Nat.lt_of_lt_of_le (by simp) hps.length_le) x
  obtain ⟨_, ⟨later, rfl⟩, hup, -⟩ := hup.fires trivial (Schedule.fires_run _ enough)
  obtain ⟨r, hr⟩ := hup.ended hrest (fun _ _ => id) (t := 0) (by rw [← hup.length]; simp)
  have hsome (o : Option Envelope) (ho : r = .ok o) : o.isSome := by
    obtain ⟨q, hq, hfit⟩ := hup.fit (by simp) (ho ▸ hr)
    obtain rfl := Option.some.inj hq
    exact hfit
  rw [submit, List.map_cons, List.map_nil, List.length_singleton, List.range_one, List.map_singleton, hr]
  match r with
  | .ok (some e) => exact ⟨_, rfl⟩
  | .ok none => cases hsome none rfl
  | .error e => exact ⟨_, rfl⟩

end Polyglot.Hub
