import Workflow.Proofs.Host.Delivery

/-!
Moves: everything one delivery of a token can do to a session.

`Move` is the list of cases, with the session afterwards written out. The logs of deliveries, dead
letters and calls are left open, since nothing later depends on them. `deliver_move` says that a host
does nothing else; invariants of runs are proved by going through the moves.
-/

set_option autoImplicit false

namespace Workflow

/-! ## Joins -/

/-- What is known of a fork's join. -/
def Session.joinOf (s : Session) (id : Key) (f : Fork) : JoinState :=
  (Store.get? (id, Name.forkId f.previousStep) s.joins).getD .empty

/-- The paths that have reported, once one more has. -/
def JoinState.add (state : JoinState) (path : Nat) : List Nat :=
  if path ∈ state.reported then state.reported else path :: state.reported

theorem Session.join_eq (s : Session) (f : Fork) (p : Nat) (m : Message) :
    s.join (Name.forkId f.previousStep) p f.paths.length m
      = if f.paths.length ≤ ((s.joinOf m.instanceId f).add p).length
          ∧ (s.joinOf m.instanceId f).released = false then
        ({ s with
          joins := Store.insert (m.instanceId, Name.forkId f.previousStep)
            ⟨(s.joinOf m.instanceId f).add p, true⟩ s.joins }).send m
      else { s with
        joins := Store.insert (m.instanceId, Name.forkId f.previousStep)
          ⟨(s.joinOf m.instanceId f).add p, (s.joinOf m.instanceId f).released⟩ s.joins } := rfl

/-! ## Moves -/

/-- Ways to go on outside forks and recoveries, with the session and the tokens that wait
afterwards. -/
inductive Settles (d : Definition) (id : Key) (s : Session) (toks : List Token) (i : Instance) :
    Session → List Token → Prop
  | start {j : Instance} (y : Spot) (here : y.In d) (plain : y.line.IsPlain) (alike : i.Alike j)
      (going : j.isFinished = false) :
      Settles d id s toks i { s with
        running := Store.insert id j s.running
        queue := s.queue ++ [(Token.start y).message d id] } (toks ++ [.start y])
  | finish {j : Instance} (finished : j.isFinished = true) :
      Settles d id s toks i { s with
        running := Store.erase id (Store.insert id j s.running)
        finished := Store.insert id j s.finished } toks
  | request {j : Instance} (a g : Approval) (attached : a ∈ d.approvals) (link : g ∈ a.chain)
      (alike : i.Alike j) (phase : j.phase = Name.awaitPhase g.gate.name)
      (going : j.isFinished = false) (correlation : Key) (m : Message) :
      Settles d id s toks i { s with
        running := Store.insert id j s.running
        queue := s.queue ++ [(Token.pending a g correlation).message d id]
        approvals := s.approvals ++ [⟨id, g.gate.name, g.gate.approverType, correlation⟩]
        events := s.events ++ [m] } (toks ++ [.pending a g correlation])

/-- All that the delivery of a token can do while others wait. -/
inductive Move (d : Definition) (h : Host) (id : Key) (s : Session) (toks : List Token) :
    Token → Session → List Token → Prop
  | work (x : Spot) (state update : Value) (failure : Option StepFailure) (delivered : List Message)
      (calls : List Call) :
      Move d h id s toks (.work x state)
        { s with queue := s.queue ++ [(Token.done x update failure).message d id], delivered, calls }
        (toks ++ [.done x update failure])
  /-- The instance is not there. -/
  | lost (tok : Token) (consumed : tok.kind ≠ .executeWorker)
      (gone : Store.get? id s.running = none) (delivered : List Message)
      (deadLetters : List DeadLetter) :
      Move d h id s toks tok { s with delivered, deadLetters } toks
  | begin (x : Spot) (i : Instance) (stored : Store.get? id s.running = some i)
      (delivered : List Message) (calls : List Call) :
      Move d h id s toks (.start x) { s with
        running := Store.insert id { i with phase := x.phase d } s.running
        queue := s.queue ++ [(Token.work x i.state).message d id]
        delivered, calls } (toks ++ [.work x i.state])
  | refuse (x : Spot) (i : Instance) (stored : Store.get? id s.running = some i) (m : Message)
      (kind : h.table.kindOf? m.name = some .validationFailed) (own : m.instanceId = id)
      (delivered : List Message) (calls : List Call) :
      Move d h id s toks (.start x) { s with
        running := Store.insert id { i with phase := Name.validationFailed } s.running
        events := s.events ++ [m]
        delivered, calls } toks
  /-- A completion on a plain line goes on. It may start a fork over, which is not under way then. -/
  | settle (x : Spot) (update : Value) (failure : Option StepFailure) (plain : x.line.IsPlain)
      (i i' : Instance) (stored : Store.get? id s.running = some i) (alike : i.Alike i')
      (joins : Store (Key × String) JoinState) (cancelled : Store (Key × String) Nat)
      (fewer : Store.Fewer cancelled s.cancelled)
      (delivered : List Message) (calls : List Call) (s' : Session) (left : List Token)
      (settles : Settles d id { s with joins, cancelled, delivered, calls } toks i' s' left) :
      Move d h id s toks (.done x update failure) s' left
  | cascade (x : Spot) (update : Value) (failure : Option StepFailure) (f : Fork)
      (declared : f ∈ d.forks) (main : x.line = .main) (i j : Instance)
      (stored : Store.get? id s.running = some i) (alike : i.Alike j) (going : j.isFinished = false)
      (joins : Store (Key × String) JoinState) (cancelled : Store (Key × String) Nat)
      (fewer : Store.Fewer cancelled s.cancelled)
      (unjoined : Store.get? (id, Name.forkId f.previousStep) joins = none)
      (uncancelled : Store.get? (id, Name.forkId f.previousStep) cancelled = none)
      (delivered : List Message) (calls : List Call) (after : f.previousStep = x.step.identifier) :
      Move d h id s toks (.done x update failure) { s with
        running := Store.insert id j s.running
        queue := s.queue ++ f.starts.map (Token.message d id)
        joins, cancelled, delivered, calls } (toks ++ f.starts)
  | onward (x y : Spot) (update : Value) (failure : Option StepFailure) (here : y.In d)
      (same : y.line = x.line) (after : y.index = x.index + 1) (off : ¬ x.line.IsPlain)
      (i j : Instance) (stored : Store.get? id s.running = some i) (alike : i.Alike j)
      (going : j.isFinished = false)
      (delivered : List Message) (calls : List Call)
      (applied : (Token.done x update failure).applied d h.collaborators i s.calls
        = ⟨j, calls, .ok [.send ((Token.start y).message d id)]⟩) :
      Move d h id s toks (.done x update failure) { s with
        running := Store.insert id j s.running
        queue := s.queue ++ [(Token.start y).message d id]
        delivered, calls } (toks ++ [.start y])
  /-- A path reaches its join before others. -/
  | report (x : Spot) (update : Value) (failure : Option StepFailure) (f : Fork) (p : Nat)
      (line : x.line = .fork f p) (i j : Instance) (stored : Store.get? id s.running = some i)
      (alike : i.Alike j) (going : j.isFinished = false)
      (short : ¬ (f.paths.length ≤ ((s.joinOf id f).add p).length
        ∧ (s.joinOf id f).released = false))
      (delivered : List Message) (calls : List Call)
      (applied : (Token.done x update failure).applied d h.collaborators i s.calls
        = ⟨j, calls, .ok [f.report p i]⟩) :
      Move d h id s toks (.done x update failure) { s with
        running := Store.insert id j s.running
        joins := Store.insert (id, Name.forkId f.previousStep)
          ⟨(s.joinOf id f).add p, (s.joinOf id f).released⟩ s.joins
        delivered, calls } toks
  /-- Or after them. -/
  | release (x : Spot) (update : Value) (failure : Option StepFailure) (f : Fork) (p : Nat)
      (line : x.line = .fork f p) (y : Spot) (here : y.In d) (main : y.line = .main)
      (i j : Instance) (stored : Store.get? id s.running = some i) (alike : i.Alike j)
      (going : j.isFinished = false) (all : f.paths.length ≤ ((s.joinOf id f).add p).length)
      (delivered : List Message) (calls : List Call)
      (applied : (Token.done x update failure).applied d h.collaborators i s.calls
        = ⟨j, calls, .ok [f.report p i]⟩) (stem : y.stem d = f.joinStep) :
      Move d h id s toks (.done x update failure) { s with
        running := Store.insert id j s.running
        queue := s.queue ++ [(Token.start y).message d id]
        joins := Store.insert (id, Name.forkId f.previousStep)
          ⟨(s.joinOf id f).add p, true⟩ s.joins
        delivered, calls } (toks ++ [.start y])
  /-- The end of a terminal recovery. -/
  | close (x : Spot) (update : Value) (failure : Option StepFailure) (g : Handler)
      (line : x.line = .recovery g) (terminal : g.isTerminal = true) (i j : Instance)
      (stored : Store.get? id s.running = some i) (finished : j.isFinished = true)
      (delivered : List Message) (calls : List Call) (phase : j.phase = Name.failed) :
      Move d h id s toks (.done x update failure) { s with
        running := Store.erase id (Store.insert id j s.running)
        finished := Store.insert id j s.finished
        delivered, calls } toks
  | resume (x y : Spot) (update : Value) (failure : Option StepFailure) (g : Handler)
      (line : x.line = .recovery g) (last : x.index + 1 = g.steps.length)
      (terminal : g.isTerminal = false) (here : y.In d)
      (i j : Instance) (stored : Store.get? id s.running = some i) (failed : y.phase d = i.failedStep)
      (takes : y.handler? d = some g) (alike : i.Alike j) (going : j.isFinished = false)
      (delivered : List Message) (calls : List Call) :
      Move d h id s toks (.done x update failure) { s with
        running := Store.insert id j s.running
        queue := s.queue ++ [(Token.start y).message d id]
        delivered, calls } (toks ++ [.start y])
  /-- A failure goes to its handler and cancels nothing. -/
  | trigger (x : Spot) (update : Value) (failure : Option StepFailure) (g : Handler)
      (takes : x.handler? d = some g) (slow : x.line.cancellation = []) (context : FailureContext)
      (failed : context.failedStep = x.phase d) (i j : Instance)
      (stored : Store.get? id s.running = some i) (alike : i.Alike j) (going : j.isFinished = false)
      (joins : Store (Key × String) JoinState) (cancelled : Store (Key × String) Nat)
      (fewer : Store.Fewer cancelled s.cancelled)
      (kept : ¬ x.line.IsPlain → joins = s.joins)
      (delivered : List Message) (calls : List Call) :
      Move d h id s toks (.done x update failure) { s with
        running := Store.insert id j s.running
        queue := s.queue ++ [(Token.trigger g context).message d id]
        joins, cancelled, delivered, calls } (toks ++ [.trigger g context])
  /-- A failure on a fail-fast fork cancels the other paths and goes to its handler. -/
  | cancel (x : Spot) (update : Value) (failure : Option StepFailure) (f : Fork) (p : Nat)
      (line : x.line = .fork f p) (failFast : f.failFast = true) (g : Handler)
      (takes : x.handler? d = some g) (context : FailureContext)
      (failed : context.failedStep = x.phase d) (i j : Instance)
      (stored : Store.get? id s.running = some i) (alike : i.Alike j) (going : j.isFinished = false)
      (delivered : List Message) (calls : List Call) :
      Move d h id s toks (.done x update failure)
        ((h.sweep { s with
          running := Store.insert id j s.running
          cancelled := Store.insert (id, Name.forkId f.previousStep) p s.cancelled
          delivered, calls }).send ((Token.trigger g context).message d id))
        (toks.filter (fun tok => !h.isCancelled { s with
          cancelled := Store.insert (id, Name.forkId f.previousStep) p s.cancelled }
            (tok.message d id)) ++ [.trigger g context])
  /-- Or ends the process at once. -/
  | abort (x : Spot) (update : Value) (failure : Option StepFailure) (f : Fork) (p : Nat)
      (line : x.line = .fork f p) (failFast : f.failFast = true) (i j : Instance)
      (stored : Store.get? id s.running = some i) (finished : j.isFinished = true)
      (delivered : List Message) (calls : List Call) (phase : j.phase = Name.failed) :
      Move d h id s toks (.done x update failure)
        (h.sweep { s with
          running := Store.erase id (Store.insert id j s.running)
          finished := Store.insert id j s.finished
          cancelled := Store.insert (id, Name.forkId f.previousStep) p s.cancelled
          delivered, calls })
        (toks.filter fun tok => !h.isCancelled { s with
          cancelled := Store.insert (id, Name.forkId f.previousStep) p s.cancelled }
            (tok.message d id))
  | fault (x : Spot) (update : Value) (failure : Option StepFailure) (off : x.line.lane? = none)
      (i : Instance) (stored : Store.get? id s.running = some i) (record : FaultRecord)
      (own : record.instanceId = id)
      (kind : (∃ step e, record.fault = .stepFailed step e)
        ∨ (∃ branch value, record.fault = .unmatchedBranch branch value)
        ∨ ∃ g, x.line = .recovery g ∧ g.isTerminal = false
          ∧ ∀ y : Spot, y.In d → y.phase d = i.failedStep → y.handler? d ≠ some g)
      (delivered : List Message) (calls : List Call) :
      Move d h id s toks (.done x update failure)
        { s with faults := s.faults ++ [record], delivered, calls } toks
  | capture (g : Handler) (context : FailureContext) (first : Step) (rest : List Step)
      (steps : g.steps = first :: rest) (i : Instance) (stored : Store.get? id s.running = some i)
      (delivered : List Message) (calls : List Call) :
      Move d h id s toks (.trigger g context) { s with
        running := Store.insert id { i with failureContext := some context } s.running
        queue := s.queue ++ [(Token.start ⟨.recovery g, 0, first⟩).message d id]
        delivered, calls } (toks ++ [.start ⟨.recovery g, 0, first⟩])
  | acknowledge (a g : Approval) (correlation : Key) (i : Instance)
      (stored : Store.get? id s.running = some i) (delivered : List Message) (calls : List Call) :
      Move d h id s toks (.pending a g correlation) { s with
        running := Store.insert id { i with pendingApproval := some correlation } s.running
        delivered, calls } toks
  /-- A signal for a request that is not open, or a decision put off. -/
  | ignore (tok : Token) (signal : tok.kind = .approvalDecided ∨ tok.kind = .approvalTimedOut)
      (i j : Instance) (stored : Store.get? id s.running = some i) (alike : i.Alike j)
      (phase : j.phase = i.phase) (going : j.isFinished = false) (delivered : List Message)
      (calls : List Call) (state : j.state = i.state) :
      Move d h id s toks tok { s with running := Store.insert id j s.running, delivered, calls } toks
  /-- A signal for the open request. -/
  | answer (tok : Token) (signal : tok.kind = .approvalDecided ∨ tok.kind = .approvalTimedOut)
      (i i' : Instance) (stored : Store.get? id s.running = some i) (asked : i.pendingApproval ≠ none)
      (key : i'.id = i.id) (cleared : i'.pendingApproval = none) (delivered : List Message)
      (calls : List Call) (s' : Session) (left : List Token)
      (settles : Settles d id { s with delivered, calls } toks i' s' left) :
      Move d h id s toks tok s' left

section Cases

variable {d : Definition} {h : Host} {id : Key} {s s' : Session} {toks left : List Token} {tok : Token}

/-- A signal is lost, is passed over, or answers the open request. -/
theorem Move.of_signal (move : Move d h id s toks tok s' left) (off : tok.isControl = false) :
    (Store.get? id s.running = none ∧ left = toks
        ∧ ∃ delivered deadLetters, s' = { s with delivered, deadLetters })
      ∨ (∃ i j delivered calls, Store.get? id s.running = some i ∧ i.Alike j ∧ j.phase = i.phase
        ∧ left = toks ∧ s' = { s with running := Store.insert id j s.running, delivered, calls })
      ∨ ∃ i i' delivered calls, Store.get? id s.running = some i ∧ i.pendingApproval ≠ none
        ∧ i'.pendingApproval = none ∧ Settles d id { s with delivered, calls } toks i' s' left := by
  cases move with
  | lost tok consumed gone delivered deadLetters =>
    exact .inl ⟨gone, rfl, delivered, deadLetters, rfl⟩
  | ignore tok signal i j stored alike phase going delivered calls =>
    exact .inr (.inl ⟨i, j, delivered, calls, stored, alike, phase, rfl, rfl⟩)
  | answer tok signal i i' stored asked key cleared delivered calls s' left settles =>
    exact .inr (.inr ⟨i, i', delivered, calls, stored, asked, cleared, settles⟩)
  | _ => simp [Token.isControl, Token.kind, MessageKind.isControl] at off

/-- Without its instance, a token is lost or is work. -/
theorem Move.of_gone (move : Move d h id s toks tok s' left) (gone : Store.get? id s.running = none) :
    Store.get? id s'.running = none ∧ (left = toks ∨ ∃ x state, tok = .work x state) := by
  cases move with
  | work x state => exact ⟨gone, .inr ⟨x, state, rfl⟩⟩
  | lost tok consumed => exact ⟨gone, .inl rfl⟩
  | _ => simp_all

end Cases

namespace Compiled

variable {d : Definition} {h : Host} (c : Compiled d h.table) {id : Key} {s s₀ : Session}
  {toks : List Token} {tok : Token}

include c

/-! ## Commits -/

omit c in
theorem commit_going {m : Message} {j : Instance} {es : List Effect} (own : m.instanceId = id)
    (reset : h.resetForks s m = s₀) (going : j.isFinished = false) :
    h.commit s m j es
      = h.effects m { s₀ with running := Store.insert id j s₀.running } es := by
  simp [Host.commit, reset, going, own]

/-- The tokens of a transition that goes on are queued. -/
theorem commit_tokens {m : Message} {j : Instance} (own : m.instanceId = id)
    (reset : h.resetForks s m = s₀) (going : j.isFinished = false) {toks : List Token}
    (here : ∀ tok ∈ toks, tok.In d) :
    h.commit s m j (toks.map fun tok => .send (tok.message d id)) = { s₀ with
      running := Store.insert id j s₀.running
      queue := s₀.queue ++ toks.map (Token.message d id) } := by
  rw [commit_going own reset going, c.effects_tokens m here]

theorem commit_token {m : Message} {j : Instance} (own : m.instanceId = id)
    (reset : h.resetForks s m = s₀) (going : j.isFinished = false) (here : tok.In d) :
    h.commit s m j [.send (tok.message d id)] = { s₀ with
      running := Store.insert id j s₀.running
      queue := s₀.queue ++ [tok.message d id] } :=
  c.commit_tokens own reset going fun _ only => List.mem_singleton.mp only ▸ here

omit c in
/-- A transition that ends the process moves the instance. -/
theorem commit_finish {m : Message} {j : Instance} (own : m.instanceId = id)
    (reset : h.resetForks s m = s₀) (finished : j.isFinished = true) :
    h.commit s m j [] = { s₀ with
      running := Store.erase id (Store.insert id j s₀.running)
      finished := Store.insert id j s₀.finished } := by
  simp [Host.commit, reset, finished, own, Host.effects, Session.retire]

theorem commit_advance {m : Message} {i j : Instance} {es : List Effect} (own : m.instanceId = id)
    (reset : h.resetForks s m = s₀) (key : i.id = id) (going : i.isFinished = false)
    (advance : Advance d i j es) :
    ∃ left, Settles d id s₀ toks i (h.commit s m j es) left := by
  cases advance with
  | start y here plain alike phase kept =>
    have sent : (Token.start y).In d := here
    rw [key, c.commit_token own reset (kept.trans going) sent]
    exact ⟨_, .start y here plain alike (kept.trans going)⟩
  | finish alike finished phase =>
    rw [commit_finish own reset finished]
    exact ⟨_, .finish finished⟩
  | request a g attached link alike phase kept =>
    rw [key, commit_going own reset (kept.trans going)]
    simp only [Host.effects, List.foldl_cons, List.foldl_nil, Host.effect]
    obtain ⟨correlation, recorded⟩ := c.dispatch_request
      { s₀ with running := Store.insert id j s₀.running } id attached link
    rw [recorded]
    exact ⟨_, .request a g attached link alike phase (kept.trans going) correlation _⟩

/-! ## Deliveries are moves -/

/-- A start that is refused stays where it is, and that is reported. -/
theorem deliver_refused {x : Spot} (here : (Token.start x).In d)
    (calm : h.isCancelled s ((Token.start x).message d id) = false) {i : Instance}
    (stored : Store.get? id s.running = some i) (key : i.id = id) (going : i.isFinished = false)
    {g : Guard} (guard : x.step.guard = some g)
    (refused : h.collaborators.conditions s.calls g.conditionId i.state = false) :
    h.deliver s ((Token.start x).message d id) = { s with
      running := Store.insert id { i with phase := Name.validationFailed } s.running
      delivered := s.delivered ++ [(Token.start x).message d id]
      calls := s.calls ++ [.condition g.conditionId false]
      events := s.events ++ [⟨Name.validationFailedEvent (x.stem d), id,
        .validationFailed (x.phase d) g.message⟩] } := by
  have applied : Token.applied d h.collaborators (.start x) i s.calls
      = ⟨{ i with phase := Name.validationFailed }, s.calls ++ [.condition g.conditionId false],
        .ok [.send ⟨Name.validationFailedEvent (x.stem d), id,
          .validationFailed (x.phase d) g.message⟩]⟩ := by
    simp only [Token.applied, Spot.started, guard, refused, key, Bool.false_eq_true, ↓reduceIte]
  have guarded : x.step.isGuarded = true := by simp [Step.isGuarded, guard]
  rw [c.deliver_commit here (by simp [Token.kind]) calm stored applied,
    commit_going (j := { i with phase := Name.validationFailed })
      (Token.message_instanceId ..) (c.resetForks_message here (by simp)) going]
  simp only [Host.effects, List.foldl_cons, List.foldl_nil, Host.effect]
  rw [(c.dispatch_refusal _ _ here guarded _).2]
  rfl

/-- The start of a step. -/
theorem move_start {x : Spot} (here : (Token.start x).In d)
    (calm : h.isCancelled s ((Token.start x).message d id) = false) {i : Instance}
    (stored : Store.get? id s.running = some i) (key : i.id = id) (going : i.isFinished = false) :
    ∃ left, Move d h id s toks (.start x) (h.deliver s ((Token.start x).message d id)) left := by
  have commits : ∀ calls, Token.applied d h.collaborators (.start x) i s.calls
      = ⟨{ i with phase := x.phase d }, calls, .ok [.send ((Token.work x i.state).message d id)]⟩ →
        ∃ left, Move d h id s toks (.start x) (h.deliver s ((Token.start x).message d id)) left := by
    intro calls applied
    have sent : (Token.work x i.state).In d := here
    rw [c.deliver_commit here (by simp [Token.kind]) calm stored applied,
      c.commit_token (j := { i with phase := x.phase d }) (Token.message_instanceId ..)
        (c.resetForks_message here (by simp)) going sent]
    exact ⟨_, .begin x i stored _ calls⟩
  cases guard : x.step.guard with
  | none =>
    apply commits s.calls
    simp only [Token.applied, Spot.started, guard, key]
  | some g =>
    by_cases holds : h.collaborators.conditions s.calls g.conditionId i.state = true
    · apply commits
      simp only [Token.applied, Spot.started, guard, holds, ↓reduceIte, key]
      rfl
    · rw [Bool.not_eq_true] at holds
      have guarded : x.step.isGuarded = true := by simp [Step.isGuarded, guard]
      rw [c.deliver_refused here calm stored key going guard holds]
      exact ⟨_, .refuse x i stored _ (c.dispatch_refusal s id here guarded .empty).1 rfl _ _⟩

/-- The signals of a gate, when they carry the open request or another one. -/
theorem move_signal (here : tok.In d)
    (signal : tok.kind = .approvalDecided ∨ tok.kind = .approvalTimedOut) {i : Instance}
    (stored : Store.get? id s.running = some i) (key : i.id = id) (going : i.isFinished = false) :
    ∃ left, Move d h id s toks tok (h.deliver s (tok.message d id)) left := by
  have consumed : tok.kind ≠ .executeWorker := by
    rcases signal with kind | kind <;> simp [kind]
  have off : tok.spot? = none := by
    cases tok <;> simp [Token.kind] at signal <;> rfl
  have calm : h.isCancelled s (tok.message d id) = false :=
    c.isCancelled_eq_false here (by rw [off]; rfl)
  have reset : ∀ s, h.resetForks s (tok.message d id) = s := by
    refine fun s => c.resetForks_message here ?_
    rintro x update failure rfl
    simp [Token.kind] at signal
  -- nothing happens but to the last decision
  have ignored : ∀ j, i.Alike j → j.phase = i.phase → j.isFinished = i.isFinished →
      j.state = i.state → tok.applied d h.collaborators i s.calls = ⟨j, s.calls, .ok []⟩ →
        ∃ left, Move d h id s toks tok (h.deliver s (tok.message d id)) left := by
    intro j alike phase kept state applied
    rw [c.deliver_commit here consumed calm stored applied,
      commit_going (Token.message_instanceId ..) (reset _) (kept.trans going)]
    exact ⟨_, .ignore tok signal i j stored alike phase (kept.trans going) _ _ state⟩
  have answered : ∀ i', i.pendingApproval ≠ none → i'.id = i.id → i'.pendingApproval = none →
      i'.isFinished = i.isFinished →
        (tok.applied d h.collaborators i s.calls).Advances d i' →
          ∃ left, Move d h id s toks tok (h.deliver s (tok.message d id)) left := by
    intro i' asked key' cleared kept advances
    obtain ⟨es, ok, advance⟩ := advances
    have applied : tok.applied d h.collaborators i s.calls
        = ⟨(tok.applied d h.collaborators i s.calls).inst,
          (tok.applied d h.collaborators i s.calls).calls, .ok es⟩ := by
      rw [← ok]
    rw [c.deliver_commit here consumed calm stored applied]
    obtain ⟨left, settles⟩ := c.commit_advance (Token.message_instanceId ..) (reset _)
      (key'.trans key) (kept.trans going) advance
    exact ⟨left, .answer tok signal i i' stored asked key' cleared _ _ _ _ settles⟩
  cases tok with
  | decided a g correlation decision =>
    by_cases asked : i.pendingApproval = some correlation
    · have applied : Token.applied d h.collaborators (.decided a g correlation decision) i s.calls
          = a.settled d g decision i s.calls := if_pos asked
      cases decision with
      | approved =>
        apply answered { i with lastDecision := some .approved, pendingApproval := none }
          (by simp [asked]) rfl rfl rfl
        rw [applied]
        have belongs : (Line.escalation a g).In d := here
        exact c.wellFormed.advances_lineEnded belongs trivial _ _
      | rejected =>
        apply answered { i with lastDecision := some .rejected, pendingApproval := none }
          (by simp [asked]) rfl rfl rfl
        rw [applied]
        exact Definition.WellFormed.advances_refused here.1 here.2 _ _
      | deferred =>
        exact ignored { i with lastDecision := some .deferred } ⟨rfl, rfl, rfl⟩ rfl rfl rfl applied
    · exact ignored i (.refl i) rfl rfl rfl (if_neg asked)
  | timedOut a g correlation =>
    by_cases asked : i.pendingApproval = some correlation
    · have applied : Token.applied d h.collaborators (.timedOut a g correlation) i s.calls
          = g.escalated { i with pendingApproval := none } s.calls := if_pos asked
      apply answered { i with pendingApproval := none } (by simp [asked]) rfl rfl rfl
      rw [applied]
      exact Definition.WellFormed.advances_escalated here.1 here.2 _ _
    · exact ignored i (.refl i) rfl rfl rfl (if_neg asked)
  | _ => simp [Token.kind] at signal

omit c in
/-- Only a failure on a fail-fast fork cancels anything. -/
theorem cancellation_cases (line : Line) :
    line.cancellation = [] ∨ ∃ f p, line = .fork f p ∧ f.failFast = true
      ∧ line.cancellation = [.cancelFork (Name.forkId f.previousStep)] := by
  cases line with
  | fork f p =>
    cases failFast : f.failFast with
    | true => exact .inr ⟨f, p, rfl, failFast, by simp [Line.cancellation, failFast]⟩
    | false => exact .inl (by simp [Line.cancellation, failFast])
  | _ => exact .inl rfl

omit c in
/-- What a cancellation does to the session of its cause. -/
theorem cancelFork_path {m : Message} {layout : ForkLayout} {p : Nat} (own : m.instanceId = id)
    (path : h.table.pathOf? m.name = some (layout, p)) (fork : String) :
    h.cancelFork s m fork
      = h.sweep { s with cancelled := Store.insert (id, fork) p s.cancelled } := by
  rw [Host.cancelFork_eq, path, own]

omit c in
/-- Cancelled paths are swept before or after the instance is moved. -/
theorem retire_sweep {i : Instance} (stored : Store.get? id s.running = some i) :
    (h.sweep s).retire id
      = h.sweep { s with
          running := Store.erase id s.running
          finished := Store.insert id i s.finished } := by
  simp only [Session.retire, Host.sweep, stored]
  rfl

section Completion

variable {x : Spot} {update : Value} {failure : Option StepFailure} {i j : Instance}
  {calls : List Call} (here : (Token.done x update failure).In d)
  (calm : h.isCancelled s ((Token.done x update failure).message d id) = false)
  (stored : Store.get? id s.running = some i)

include here

/-- Off the main line, a completion starts no fork over. -/
theorem resetForks_done (off : ¬ x.line.IsPlain) (s : Session) :
    h.resetForks s ((Token.done x update failure).message d id) = s := by
  refine c.resetForks_message here ?_
  intro x' update' failure' same main
  cases same
  rw [main] at off
  exact off trivial

include calm stored

/-- The paths of a fork start. -/
theorem move_cascade {f : Fork} (declared : f ∈ d.forks) (main : x.line = .main)
    (after : f.previousStep = x.step.identifier) (alike : i.Alike j) (going : j.isFinished = false)
    (result : (Token.done x update failure).applied d h.collaborators i s.calls
      = ⟨j, calls, .ok (f.starts.map fun tok => .send (tok.message d id))⟩) :
    ∃ left, Move d h id s toks (.done x update failure)
      (h.deliver s ((Token.done x update failure).message d id)) left := by
  rw [c.deliver_commit here (by simp [Token.kind]) calm stored result]
  obtain ⟨joins, cancelled, reset, fewer, gone⟩ := resetForks_cases h
    { s with delivered := s.delivered ++ [(Token.done x update failure).message d id], calls }
    ((Token.done x update failure).message d id)
  have name : (d.forkLayout f).trigger = ((Token.done x update failure).message d id).name := by
    simp [Definition.forkLayout, Token.message, Spot.stem, main, Line.stem, after]
  obtain ⟨unjoined, uncancelled⟩ := gone (d.forkLayout f)
    (by rw [c.forks_eq]; exact List.mem_map_of_mem declared) name
  rw [c.commit_tokens (Token.message_instanceId ..) reset going
    fun tok htok => (Fork.starts_in declared htok).1]
  exact ⟨_, .cascade x update failure f declared main i j stored alike going joins cancelled fewer
    unjoined uncancelled _ _ after⟩

/-- A path reaches its join. -/
theorem move_report {f : Fork} {p : Nat} (line : x.line = .fork f p) (key : i.id = id)
    (alike : i.Alike j) (going : j.isFinished = false)
    (result : (Token.done x update failure).applied d h.collaborators i s.calls
      = ⟨j, calls, .ok [f.report p i]⟩) :
    ∃ left, Move d h id s toks (.done x update failure)
      (h.deliver s ((Token.done x update failure).message d id)) left := by
  have off : ¬ x.line.IsPlain := by rw [line]; exact fun plain => plain
  obtain ⟨y, here', main, stem⟩ :=
    Definition.exists_spot_main (c.wellFormed.fork_join f (Spot.fork_mem here line))
  have released : (Token.start y).message d id = ⟨Name.startCommand f.joinStep, id, .empty⟩ := by
    rw [← stem]
    rfl
  rw [c.deliver_commit here (by simp [Token.kind]) calm stored result,
    commit_going (Token.message_instanceId ..) (c.resetForks_done here off _) going]
  simp only [Host.effects, List.foldl_cons, List.foldl_nil, Host.effect, Fork.report, key,
    ← released, Session.join_eq, Token.message_instanceId]
  split
  next full =>
    exact ⟨_, .release x update failure f p line y here' main i j stored alike going full.1 _ _ result
      stem⟩
  next short => exact ⟨_, .report x update failure f p line i j stored alike going short _ _ result⟩

/-- A failure goes to its handler. -/
theorem move_trigger {g : Handler} (takes : x.handler? d = some g) {context : FailureContext}
    (failed : context.failedStep = x.phase d) (alike : i.Alike j) (going : j.isFinished = false)
    (result : (Token.done x update failure).applied d h.collaborators i s.calls
      = ⟨j, calls, .ok (x.line.cancellation
        ++ [.send ((Token.trigger g context).message d id)])⟩) :
    ∃ left, Move d h id s toks (.done x update failure)
      (h.deliver s ((Token.done x update failure).message d id)) left := by
  have own : ((Token.done x update failure).message d id).instanceId = id := rfl
  have triggered : (Token.trigger g context).In d := Spot.handler_mem takes
  rw [c.deliver_commit here (by simp [Token.kind]) calm stored result]
  rcases cancellation_cases x.line with slow | ⟨f, p, line, failFast, cancels⟩
  · rw [slow, List.nil_append]
    by_cases plain : x.line.IsPlain
    · obtain ⟨joins, cancelled, reset, fewer, _⟩ := resetForks_cases h
        { s with delivered := s.delivered ++ [(Token.done x update failure).message d id], calls }
        ((Token.done x update failure).message d id)
      rw [c.commit_token own reset going triggered]
      exact ⟨_, .trigger x update failure g takes slow context failed i j stored alike going joins
        cancelled fewer (absurd plain) _ _⟩
    · rw [c.commit_token own (c.resetForks_done here plain _) going triggered]
      exact ⟨_, .trigger x update failure g takes slow context failed i j stored alike going s.joins
        s.cancelled (.refl _) (fun _ => rfl) _ _⟩
  · have off : ¬ x.line.IsPlain := by rw [line]; exact fun plain => plain
    have path := c.pathOf?_message here id
    simp only [Token.spot?, Option.bind_some, line, Line.lane?, Option.map_some] at path
    rw [cancels, commit_going own (c.resetForks_done here off _) going]
    simp only [List.cons_append, List.nil_append, Host.effects, List.foldl_cons, List.foldl_nil,
      Host.effect]
    rw [cancelFork_path own path, c.dispatch_token triggered]
    exact ⟨_, .cancel x update failure f p line failFast g takes context failed i j stored alike going
      _ _⟩

/-- A failure ends the process at once. -/
theorem move_abort {f : Fork} {p : Nat} (line : x.line = .fork f p) (failFast : f.failFast = true)
    (finished : j.isFinished = true) (phase : j.phase = Name.failed)
    (result : (Token.done x update failure).applied d h.collaborators i s.calls
      = ⟨j, calls, .ok x.line.cancellation⟩) :
    ∃ left, Move d h id s toks (.done x update failure)
      (h.deliver s ((Token.done x update failure).message d id)) left := by
  have own : ((Token.done x update failure).message d id).instanceId = id := rfl
  have off : ¬ x.line.IsPlain := by rw [line]; exact fun plain => plain
  have path := c.pathOf?_message here id
  simp only [Token.spot?, Option.bind_some, line, Line.lane?, Option.map_some] at path
  have cancels : x.line.cancellation = [.cancelFork (Name.forkId f.previousStep)] := by
    simp [line, Line.cancellation, failFast]
  rw [c.deliver_commit here (by simp [Token.kind]) calm stored result, cancels]
  simp only [Host.commit, c.resetForks_done here off, own, finished, ↓reduceIte, Host.effects,
    List.foldl_cons, List.foldl_nil, Host.effect]
  rw [cancelFork_path own path, retire_sweep (Store.get?_insert_self ..)]
  exact ⟨_, .abort x update failure f p line failFast i j stored finished _ _ phase⟩

/-- A fault, at a position that is on no path. -/
theorem move_fault {f : Fault} (off : x.line.lane? = none)
    (kind : (∃ step e, f = .stepFailed step e) ∨ (∃ branch value, f = .unmatchedBranch branch value)
      ∨ ∃ g, x.line = .recovery g ∧ g.isTerminal = false
        ∧ ∀ y : Spot, y.In d → y.phase d = i.failedStep → y.handler? d ≠ some g)
    (result : (Token.done x update failure).applied d h.collaborators i s.calls
      = ⟨j, calls, .error f⟩) :
    ∃ left, Move d h id s toks (.done x update failure)
      (h.deliver s ((Token.done x update failure).message d id)) left := by
  rw [c.deliver_fault here (by simp [Token.kind]) calm stored result]
  exact ⟨_, .fault x update failure off i stored _ rfl kind _ _⟩

/-- A completion. -/
theorem move_done (key : i.id = id) (going : i.isFinished = false) :
    ∃ left, Move d h id s toks (.done x update failure)
      (h.deliver s ((Token.done x update failure).message d id)) left := by
  have outcome := c.wellFormed.completed_outcome (x := x) here h.collaborators update failure i
    s.calls
  have consumed : (Token.done x update failure).kind ≠ .executeWorker := by simp [Token.kind]
  have own : ((Token.done x update failure).message d id).instanceId = id := rfl
  generalize result : d.completed h.collaborators x.line x.index x.step update failure i s.calls = r
    at outcome
  cases outcome with
  | advance plain advance =>
    rw [c.deliver_commit here consumed calm stored result]
    obtain ⟨joins, cancelled, reset, fewer, _⟩ := resetForks_cases h
      { s with
        delivered := s.delivered ++ [(Token.done x update failure).message d id]
        calls := _ } ((Token.done x update failure).message d id)
    obtain ⟨left, settles⟩ := c.commit_advance
      (i := { i with state := h.collaborators.reduce i.state update }) own reset key going advance
    exact ⟨left, .settle x update failure plain i
      { i with state := h.collaborators.reduce i.state update } stored ⟨rfl, rfl, rfl⟩ joins
      cancelled fewer _ _ _ _ settles⟩
  | unmatched plain =>
    exact c.move_fault here calm stored plain.lane?_eq (.inr (.inl ⟨_, _, rfl⟩)) result
  | cascade f declared main after alike kept =>
    simp only [key] at result
    exact c.move_cascade here calm stored declared main after alike.of_state (kept.trans going) result
  | onward y here' same after off alike kept =>
    have sent : (Token.start y).In d := here'
    simp only [key] at result
    rw [c.deliver_commit here consumed calm stored result,
      c.commit_token own (c.resetForks_done here off _) (kept.trans going) sent]
    exact ⟨_, .onward x y update failure here' same after off i _ stored alike.of_state
      (kept.trans going) _ _ result⟩
  | report f p line alike kept =>
    exact c.move_report here calm stored line key alike.of_state (kept.trans going) result
  | close g line terminal alike finished phase =>
    have off : ¬ x.line.IsPlain := by rw [line]; exact fun plain => plain
    rw [c.deliver_commit here consumed calm stored result,
      commit_finish own (c.resetForks_done here off _) finished]
    exact ⟨_, .close x update failure g line terminal i _ stored finished _ _ phase⟩
  | resume g line last terminal y here' failed takes alike kept =>
    have off : ¬ x.line.IsPlain := by rw [line]; exact fun plain => plain
    have sent : (Token.start y).In d := here'
    simp only [key] at result
    rw [c.deliver_commit here consumed calm stored result,
      c.commit_token own (c.resetForks_done here off _) (kept.trans going) sent]
    exact ⟨_, .resume x y update failure g line last terminal here' i _ stored failed takes
      alike.of_state (kept.trans going) _ _⟩
  | astray g line terminal none =>
    exact c.move_fault here calm stored (by rw [line]; rfl) (.inr (.inr ⟨g, line, terminal, none⟩))
      result
  | trigger g takes context failed alike kept =>
    simp only [key] at result
    exact c.move_trigger here calm stored takes failed alike.of_state (kept.trans going) result
  | abort f p line failFast alike finished phase =>
    exact c.move_abort here calm stored line failFast finished phase result
  | unhandled off => exact c.move_fault here calm stored off (.inl ⟨_, _, rfl⟩) result

end Completion

/-- A delivery of a token is one of the moves. -/
theorem deliver_move (here : tok.In d) (calm : h.isCancelled s (tok.message d id) = false)
    (fits : ∀ i, Store.get? id s.running = some i → i.id = id ∧ i.isFinished = false) :
    ∃ left, Move d h id s toks tok (h.deliver s (tok.message d id)) left := by
  by_cases work : tok.kind = .executeWorker
  · cases tok with
    | work x state =>
      obtain ⟨update, failure, calls, result⟩ := c.deliver_work here calm
      rw [result]
      exact ⟨_, .work x state update failure _ calls⟩
    | _ => cases work
  cases stored : Store.get? id s.running with
  | none =>
    obtain ⟨letters, result⟩ := c.deliver_absent here work calm stored
    rw [result]
    exact ⟨_, .lost tok work stored _ letters⟩
  | some i =>
    obtain ⟨key, going⟩ := fits i stored
    -- what is left starts no fork over
    have reset : ∀ s, (∀ x update failure, tok ≠ .done x update failure) →
        h.resetForks s (tok.message d id) = s := fun s off =>
      c.resetForks_message here fun x update failure same => absurd same (off x update failure)
    cases tok with
    | start x => exact c.move_start here calm stored key going
    | work x state => exact absurd rfl work
    | done x update failure => exact c.move_done here calm stored key going
    | trigger g context =>
      obtain ⟨first, rest, steps⟩ := List.exists_cons_of_ne_nil (c.wellFormed.handler_steps g here)
      have applied : Token.applied d h.collaborators (.trigger g context) i s.calls
          = ⟨{ i with failureContext := some context }, s.calls,
            .ok [.send ((Token.start ⟨.recovery g, 0, first⟩).message d id)]⟩ := by
        simp only [Token.applied, steps, Instance.starting, key]
        rfl
      have started : (Token.start ⟨.recovery g, 0, first⟩).In d :=
        ⟨here, by simp [Line.steps, steps]⟩
      rw [c.deliver_commit here work calm stored applied,
        c.commit_token (j := { i with failureContext := some context })
          (Token.message_instanceId ..) (reset _ (by simp)) going started]
      exact ⟨_, .capture g context first rest steps i stored _ _⟩
    | pending a g correlation =>
      rw [c.deliver_commit here work calm stored rfl,
        commit_going (j := { i with pendingApproval := some correlation })
          (Token.message_instanceId ..) (reset _ (by simp)) going]
      exact ⟨_, .acknowledge a g correlation i stored _ _⟩
    | decided a g correlation decision => exact c.move_signal here (.inl rfl) stored key going
    | timedOut a g correlation => exact c.move_signal here (.inr rfl) stored key going

end Compiled

end Workflow
