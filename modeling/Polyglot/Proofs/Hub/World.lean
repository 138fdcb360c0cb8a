import Polyglot.Hub.Dispatch
import Polyglot.Proofs.Loop.Fixed

/-!
A hub only reads: whatever it is asked for and whatever its compilers do, the files are as they were.
-/

namespace Polyglot.Hub

open Loop

variable {K X : Type} {m : Machine K X}

theorem fixes_record (debug : Bool) (level : Int) (logger text : String) :
    Block.Fixes State.world
      (if debug then Block.change fun s => s.record level logger text else pure () : Block K X Unit) := by
  cases debug with
  | true => exact .change fun _ => rfl
  | false => exact .pure ()

theorem fixes_trace (debug : Bool) (logger text : String) :
    Block.Fixes State.world (trace debug logger text : Block K X Unit) := fixes_record debug 10 logger _

theorem fixes_warn (debug : Bool) (logger text : String) :
    Block.Fixes State.world (warn debug logger text : Block K X Unit) := fixes_record debug 30 logger text

theorem fixes_readSource (h : Settings) (r : Request) :
    Block.Fixes State.world (readSource h r : Block K X Request) := by
  refine .bind (fixes_trace _ _ _) fun _ => .bind .look fun s => .bind (.ofExcept _) fun plan => ?_
  refine .bind .pause fun _ => .bind .look fun s => .bind (.change fun _ => rfl) fun _ => ?_
  exact .bind (.ofExcept _) fun loaded => .pure _

theorem fixes_prepare (h : Settings) (a : Ask) (parent : Option Request) :
    Block.Fixes State.world (prepare h a parent : Block K X Prepared) := by
  rw [prepare]
  split
  · split
    · exact .bind (fixes_warn _ _ _) fun _ => .fail _
    · exact .fail _
  · refine .bind (.change fun _ => rfl) fun _ => .bind .look fun s => ?_
    split
    · exact .bind (fixes_trace _ _ _) fun _ => .bind (fixes_trace _ _ _) fun _ => .pure _
    · dsimp only
      split
      · exact .bind (fixes_readSource _ _) fun _ => .bind (fixes_trace _ _ _) fun _ => .pure _
      · exact .bind (.pure _) fun _ => .bind (fixes_trace _ _ _) fun _ => .pure _

theorem fixes_lookUp (r : Request) : Block.Fixes State.world (lookUp r : Block K X K) := by
  refine .bind .look fun s => ?_
  dsimp only
  split
  · exact .pure _
  · exact .bind (fixes_warn _ _ _) fun _ => .fail _

theorem world_apply (s : State K X) (e : Effect X) : (s.apply e).world = s.world := by
  cases e <;> rfl

theorem fixes_callRoutine {h : Settings} {ask : Ask → Block K X Envelope}
    (hask : ∀ a, Block.Fixes State.world (ask a)) (r : Request) (call : Call X) :
    (callRoutine h ask r call).Fixes State.world := by
  induction call with
  | answer v compilerOptions executerOptions => trivial
  | fail e => trivial
  | pause next ih => exact ih
  | observe next ih => exact fun s => ih (s.view h)
  | effect e next ih => exact ⟨fun s => world_apply s e, ih⟩
  | ask a next ih => exact hask a _ ih
  | join parts next ih =>
    refine Block.Fixes.join (fun part hpart => ?_) _ ih
    obtain ⟨p, -, rfl⟩ := List.mem_map.mp hpart
    cases p with
    | ask a => exact hask a _ fun _ => trivial
    | done => trivial
    | failed e => trivial

theorem fixes_ending (r : Except (Stop Failure) (Option Envelope)) :
    Block.Fixes State.world (ending r : Block K X Envelope) := by
  match r with
  | .ok (some e) => exact .pure e
  | .ok none => exact .stop _
  | .error e => exact .stop e

theorem fixes_compute {ask : Ask → Block K X Envelope} (hask : ∀ a, Block.Fixes State.world (ask a))
    (c : K) (r : Request) : Block.Fixes State.world (compute m ask c r) := by
  have hcall : Routine.Fixes State.world (.look fun _ =>
      .change (·.note (.called r)) (callRoutine m.settings ask r (m.perform c r)) : Routine K X) :=
    fun _ => ⟨fun _ => rfl, fixes_callRoutine hask r _⟩
  refine .bind (.spawn hcall) fun t => .bind (.await t) fun ended => .bind (fixes_ending ended) fun e => ?_
  split
  · exact .bind (.ofExcept _) fun _ => .pure _
  · exact .pure _

theorem fixes_share {work : Block K X Envelope} (hwork : Block.Fixes State.world work) (r : Request) :
    Block.Fixes State.world (share work r) := by
  refine .bind .look fun s => ?_
  split
  · refine .bind (fixes_trace _ _ _) fun _ => .bind (.follow _) fun ended => ?_
    exact .bind (fixes_ending ended) fun e => .pure _
  · refine .bind (.spawn (hwork _ fun _ => trivial)) fun t => .bind (.change fun _ => rfl) fun _ => ?_
    exact .bind (.await t) fun ended => .bind (.change fun _ => rfl) fun _ => fixes_ending ended

theorem world_setMemo (s : State K X) (mode : Mode) (memo : Memo Payload) :
    (s.setMemo mode memo).world = s.world := by
  cases mode <;> rfl

theorem fixes_keep (e : Envelope) : Block.Fixes State.world (keep e : Block K X Unit) := by
  refine .bind .look fun s => ?_
  split
  · exact .bind (fixes_trace _ _ _) fun _ => .change fun s => world_setMemo s _ _
  · exact .pure ()

theorem fixes_dispatch {ask : Ask → Block K X Envelope} (hask : ∀ a, Block.Fixes State.world (ask a))
    (r : Request) : Block.Fixes State.world (dispatch m ask r) := by
  refine .bind (fixes_lookUp r) fun c => ?_
  have hcompute := fixes_compute (m := m) hask c r
  dsimp only
  split
  · exact .bind (fixes_share hcompute r) fun e => .bind (fixes_keep e) fun _ => .pure e
  · exact .bind hcompute fun e => .bind (fixes_keep e) fun _ => .pure e

theorem fixes_request (left : Nat) (parent : Option Request) (a : Ask) :
    Block.Fixes State.world (request m left parent a) := by
  have hfinish (e : Envelope) : Block.Fixes State.world (request.finish e : Block K X Envelope) :=
    .bind (.change fun _ => rfl) fun _ => .pure e
  induction left generalizing parent a with
  | zero =>
    unfold request
    refine .bind (fixes_prepare _ _ _) fun prepared => ?_
    cases prepared with
    | hit e => exact hfinish e
    | fresh r => exact .fail _
  | succ left ih =>
    unfold request
    refine .bind (fixes_prepare _ _ _) fun prepared => ?_
    cases prepared with
    | hit e => exact hfinish e
    | fresh r => exact .bind (fixes_dispatch (fun a => ih (some r) a) r) hfinish

theorem world_submit (m : Machine K X) (fuel : Nat) (s : State K X) (asks : List Ask) :
    (submit m fuel s asks).1.world = s.world := by
  refine Schedule.view_run (v := State.world) (fun r hr => ?_) s fuel
  obtain ⟨a, -, rfl⟩ := List.mem_map.mp hr
  exact fixes_request _ none a _ fun _ => trivial

theorem world_serve (m : Machine K X) (fuel : Nat) (s : State K X) (a : Ask) :
    (serve m fuel s a).1.world = s.world :=
  world_submit m fuel s [a]

end Polyglot.Hub
