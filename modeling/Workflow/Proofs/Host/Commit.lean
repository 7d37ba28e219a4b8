import Workflow.Proofs.Host.Run

/-!
Commits: what one delivery does to the instances and to the bookkeeping of forks, whoever sent the
message.

`Host.committed?` is what the transition of a delivered message hands to the host when nothing is in
its way. All other deliveries leave instances, joins and cancellations alone. A compiled table has
three kinds of reactions: messages only, one report to the join of a fork, and one cancellation with
messages after it. The last two come from completions on the paths of forks and from nowhere else.
-/

set_option autoImplicit false

namespace Workflow

/-! ## Transitions that only send -/

/-- Whether an effect is a message. -/
def Effect.IsSend : Effect → Prop
  | .send _ => True
  | .join _ _ _ _ => False
  | .cancelFork _ => False

/-- Whether an action has to do with neither joins nor cancellations. -/
def Action.isQuiet : Action → Bool
  | .routeFailure _ => false
  | .joinPath _ => false
  | _ => true

/-- All effects so far are messages. -/
def Run.Quiet (r : Run) : Prop := ∀ e ∈ r.effects, e.IsSend

/-- Where the flow ends, all effects are messages. -/
def Flow.Quiet : Flow → Prop
  | .next r => r.Quiet
  | .stop r => r.Quiet
  | .fault r _ => r.Quiet

namespace Run.Quiet

variable {r : Run}

theorem sendBody (quiet : r.Quiet) (name : String) (body : Body) : (r.sendBody name body).Quiet := by
  intro e he
  rcases List.mem_append.mp he with old | new
  · exact quiet e old
  · rw [List.mem_singleton.mp new]
    trivial

theorem foldl_send (quiet : r.Quiet) (commands : List String) :
    (commands.foldl Run.send r).Quiet := by
  induction commands generalizing r with
  | nil => exact quiet
  | cons command rest ih => exact ih (quiet.sendBody command .empty)

theorem follow (cx : Collaborators) (quiet : r.Quiet) (k : Continuation) : (r.follow cx k).Quiet := by
  induction k generalizing r with
  | send command => exact quiet.sendBody command .empty
  | complete => exact quiet
  | fail => exact quiet
  | requestApproval q => exact sendBody (r := r.enter q.phase) quiet _ _
  | loop c exit ih =>
    simp only [Run.follow]
    split
    · exact ih quiet
    · split
      · exact ih quiet
      · exact sendBody (r := (Run.ask cx _ c.conditionId).2) quiet c.again .empty

theorem step (cx : Collaborators) (m : Message) (quiet : r.Quiet) {a : Action}
    (off : a.isQuiet = true) : (r.step cx m a).Quiet := by
  cases a with
  | validate g =>
    simp only [Run.step]
    split
    · exact quiet
    · exact sendBody (r := Run.enter _ Name.validationFailed) quiet _ _
  | dispatchWork workType command => exact quiet.sendBody _ _
  | applyUpdate =>
    simp only [Run.step]
    split
    · simp only [Run.merge]
      split <;> exact quiet
    · exact quiet
  | routeFailure route => cases off
  | joinPath target => cases off
  | proceed k => exact quiet.follow cx k
  | route route =>
    simp only [Run.step, Run.choose]
    split
    · exact quiet.follow cx _
    · exact quiet
  | startPaths fork commands => exact quiet.foldl_send commands
  | recordPendingApproval =>
    simp only [Run.step]
    split <;> exact quiet
  | guardCorrelation approval =>
    simp only [Run.step]
    split
    · split <;> exact quiet
    · exact quiet
  | recordDecision =>
    simp only [Run.step]
    split <;> exact quiet
  | decide approved rejected =>
    simp only [Run.step]
    split
    next decision _ =>
      cases decision with
      | approved => exact follow cx (r := r.setPending none) quiet approved
      | rejected => exact follow cx (r := r.setPending none) quiet rejected
      | deferred => exact quiet
    next => exact quiet
  | captureFailure =>
    simp only [Run.step]
    split <;> exact quiet
  | resumeFailedStep targets =>
    simp only [Run.step, Run.resume]
    split
    · exact quiet.sendBody _ _
    · exact quiet
  | _ => exact quiet

theorem steps (cx : Collaborators) (m : Message) {actions : List Action}
    (off : ∀ a ∈ actions, a.isQuiet = true) (quiet : r.Quiet) : (r.steps cx m actions).Quiet := by
  induction actions generalizing r with
  | nil => exact quiet
  | cons a rest ih =>
    have first := quiet.step cx m (off a List.mem_cons_self)
    simp only [Run.steps]
    split
    next r' hr =>
      rw [hr] at first
      exact ih (fun a' ha' => off a' (List.mem_cons_of_mem _ ha')) first
    next => exact first

end Run.Quiet

/-- A transition of quiet actions hands messages to the host and nothing else. -/
theorem Transition.apply_isSend {t : Transition} (off : ∀ a ∈ t.body, a.isQuiet = true)
    {cx : Collaborators} {calls : List Call} {i : Instance} {m : Message} {es : List Effect}
    (ok : (t.apply cx calls i m).result = .ok es) : ∀ e ∈ es, e.IsSend := by
  have quiet : (Run.steps cx m ⟨i, none, [], calls⟩ t.body).Quiet :=
    Run.Quiet.steps cx m off (by simp [Run.Quiet])
  unfold Transition.apply at ok
  cases flow : Run.steps cx m ⟨i, none, [], calls⟩ t.body with
  | next r | stop r =>
    rw [flow] at quiet ok
    cases ok
    exact quiet
  | fault r f =>
    rw [flow] at ok
    cases ok

/-! ## Commits -/

/-- What a transition leaves when it raises no fault: the instance and the effects. -/
def Applied.committed? (a : Applied) : Option (Instance × List Effect) :=
  match a.result with
  | .ok es => some (a.inst, es)
  | .error _ => none

/-- What a delivery commits: the instance it stores and the effects of its transition. Nothing is
committed when the message is dropped, is not known or is work, when its instance is not there, and
when its transition raises a fault. -/
def Host.committed? (h : Host) (e : Delivery) : Option (Instance × List Effect) :=
  if h.isCancelled e.before e.message = true ∨ h.table.kindOf? e.message.name = none
      ∨ h.table.kindOf? e.message.name = some .executeWorker then none
  else (Store.get? e.message.instanceId e.before.running).bind fun i =>
    (h.table.transitionFor? e.message.name).bind fun t =>
      (t.apply h.collaborators e.before.calls i e.message).committed?

theorem Applied.committed?_eq_some {a : Applied} {j : Instance} {es : List Effect} :
    a.committed? = some (j, es) ↔ a.inst = j ∧ a.result = .ok es := by
  unfold committed?
  split
  next es' ok => simp [ok]
  next f error => simp [error]

theorem Applied.committed?_eq_none {a : Applied} :
    a.committed? = none ↔ ∃ f, a.result = .error f := by
  unfold committed?
  split
  next es' ok => simp [ok]
  next f error => simp [error]

/-- Whether the instance that a message is for is under its own key. -/
def Delivery.AtHome (e : Delivery) : Prop :=
  ∀ i, Store.get? e.message.instanceId e.before.running = some i → i.id = e.message.instanceId

/-- Two sessions with the same instances and the same bookkeeping of forks. -/
structure Session.Agrees (s t : Session) : Prop where
  running : t.running = s.running
  finished : t.finished = s.finished
  joins : t.joins = s.joins
  cancelled : t.cancelled = s.cancelled

/-- A report asks nothing but the joins. -/
theorem Session.join_with (s : Session) (running : Store Key Instance) (delivered : List Message)
    (calls : List Call) (fork : String) (path total : Nat) (m : Message) :
    ({ s with running, delivered, calls }).join fork path total m
      = { s.join fork path total m with running, delivered, calls } := by
  simp only [Session.join]
  split <;> split <;> rfl

namespace Host

variable {h : Host} {e : Delivery} {s : Session} {m : Message} {j : Instance} {es : List Effect}

/-- What stands behind a commit. -/
theorem exists_of_committed? (committed : h.committed? e = some (j, es)) :
    ∃ i t, Store.get? e.message.instanceId e.before.running = some i
      ∧ h.table.transitionFor? e.message.name = some t
      ∧ (t.apply h.collaborators e.before.calls i e.message).inst = j
      ∧ (t.apply h.collaborators e.before.calls i e.message).result = .ok es
      ∧ h.deliver e.before e.message = h.commit { e.before with
        delivered := e.before.delivered ++ [e.message]
        calls := (t.apply h.collaborators e.before.calls i e.message).calls } e.message j es := by
  unfold committed? at committed
  split at committed
  · cases committed
  next free =>
    push Not at free
    obtain ⟨calm, known, consumed⟩ := free
    obtain ⟨i, stored, committed⟩ := Option.bind_eq_some_iff.mp committed
    obtain ⟨t, found, committed⟩ := Option.bind_eq_some_iff.mp committed
    obtain ⟨inst, ok⟩ := Applied.committed?_eq_some.mp committed
    refine ⟨i, t, stored, found, inst, ok, ?_⟩
    unfold deliver
    rw [if_neg calm]
    split
    next none => exact absurd none known
    next kind declared =>
      have consumed : kind ≠ .executeWorker := fun same => consumed (same ▸ declared)
      simp only [consumed, ↓reduceIte, stored, found, transact, ok, inst]

/-- Behind the commit of a token stands its rule. -/
theorem applied_of_committed? {d : Definition} (c : Compiled d h.table) {tok : Token} (here : tok.In d)
    {id : Key} (committed : h.committed? ⟨s, tok.message d id⟩ = some (j, es)) :
    tok.kind ≠ .executeWorker ∧ ∃ i, Store.get? id s.running = some i
      ∧ (tok.applied d h.collaborators i s.calls).inst = j
      ∧ (tok.applied d h.collaborators i s.calls).result = .ok es := by
  obtain ⟨i, t, stored, found, inst, ok, _⟩ := exists_of_committed? committed
  rw [Token.message_instanceId] at stored
  have consumed : tok.kind ≠ .executeWorker := by
    intro works
    rw [committed?, if_pos (.inr (.inr (by rw [c.kindOf?_message here, works])))] at committed
    cases committed
  obtain ⟨t', found', applies⟩ := c.exists_transition here consumed id
  obtain rfl := Option.some.inj (found.symm.trans found')
  rw [applies] at inst ok
  exact ⟨consumed, i, stored, inst, ok⟩

/-- A message that is dropped does nothing else. -/
theorem deliver_cancelled (cancelled : h.isCancelled s m = true) :
    h.deliver s m = { s with dropped := s.dropped ++ [m] } := by
  unfold deliver
  rw [if_pos cancelled]

/-- A delivery that commits nothing and is not dropped leaves logs, and the completion of work. -/
theorem deliver_idle (idle : h.committed? e = none)
    (calm : h.isCancelled e.before e.message = false) :
    ∃ more delivered deadLetters faults calls, (∀ m ∈ more, m.correlation? = none)
      ∧ h.deliver e.before e.message
        = { e.before with
            queue := e.before.queue ++ more, delivered, deadLetters, faults, calls } := by
  have same : ∀ delivered deadLetters faults calls,
      (∀ m ∈ ([] : List Message), m.correlation? = none)
        ∧ ({ e.before with delivered, deadLetters, faults, calls } : Session)
          = { e.before with
            queue := e.before.queue ++ [], delivered, deadLetters, faults, calls } := by simp
  have worked : ∀ delivered, ∃ more faults calls, (∀ m ∈ more, m.correlation? = none)
      ∧ h.work { e.before with delivered } e.message
        = { e.before with queue := e.before.queue ++ more, delivered, faults, calls } := by
    intro delivered
    unfold work
    split
    · split
      · exact ⟨[], _, _, same _ _ _ _⟩
      · refine ⟨[_], _, _, fun m only => ?_, rfl⟩
        rw [List.mem_singleton.mp only]
        dsimp only [Message.correlation?]
        cases h.executor e.before.calls _ _ <;> rfl
    · exact ⟨[], _, _, same _ _ _ _⟩
  unfold committed? at idle
  unfold deliver
  rw [if_neg (by simp [calm])]
  split
  · exact ⟨[], _, _, _, _, same _ _ _ _⟩
  next kind declared =>
    split
    · obtain ⟨more, faults, calls, result⟩ := worked (e.before.delivered ++ [e.message])
      exact ⟨more, _, _, faults, calls, result⟩
    next consumed =>
      rw [if_neg (by simp [calm, declared, consumed])] at idle
      dsimp only
      split
      · unfold notFound
        split <;> exact ⟨[], _, _, _, _, same _ _ _ _⟩
      next i stored =>
        rw [stored, Option.bind_some] at idle
        split
        · exact ⟨[], _, _, _, _, same _ _ _ _⟩
        next t found =>
          rw [found, Option.bind_some] at idle
          obtain ⟨f, error⟩ := Applied.committed?_eq_none.mp idle
          simp only [transact, error]
          exact ⟨[], _, _, _, _, same _ _ _ _⟩

/-- A delivery that commits nothing changes no instance and no fork. -/
theorem agrees_of_committed? (none : h.committed? e = none) :
    e.before.Agrees (h.deliver e.before e.message) := by
  cases cancelled : h.isCancelled e.before e.message with
  | true =>
    rw [deliver_cancelled cancelled]
    exact ⟨rfl, rfl, rfl, rfl⟩
  | false =>
    obtain ⟨_, _, _, _, _, _, result⟩ := deliver_idle none cancelled
    rw [result]
    exact ⟨rfl, rfl, rfl, rfl⟩

/-! ## Effects -/

/-- Messages are queued, recorded or published, and that is all. -/
theorem effects_isSend (h : Host) (cause : Message) (s : Session) (sends : ∀ e ∈ es, e.IsSend) :
    ∃ more approvals events, h.effects cause s es
      = { s with queue := s.queue ++ more, approvals, events } := by
  have one : ∀ (s : Session) (m : Message), ∃ more approvals events,
      h.dispatch s m = { s with queue := s.queue ++ more, approvals, events } := by
    intro s m
    unfold dispatch
    split
    · split
      · exact ⟨[_], _, _, rfl⟩
      · exact ⟨[], s.approvals, s.events ++ [m], by simp [Session.publish]⟩
    · exact ⟨[], s.approvals, s.events ++ [m], by simp [Session.publish]⟩
    · exact ⟨[m], s.approvals, s.events, rfl⟩
  induction es generalizing s with
  | nil => exact ⟨[], s.approvals, s.events, by simp [effects]⟩
  | cons e rest ih =>
    have first := sends e List.mem_cons_self
    cases e with
    | send m =>
      obtain ⟨more, approvals, events, sent⟩ := one s m
      obtain ⟨more', approvals', events', others⟩ := ih (h.dispatch s m)
        fun e he => sends e (List.mem_cons_of_mem _ he)
      refine ⟨more ++ more', approvals', events', ?_⟩
      simp only [effects, List.foldl_cons, effect] at others ⊢
      rw [others, sent]
      simp
    | join fork path total m => exact first.elim
    | cancelFork fork => exact first.elim

/-- No effect changes an instance. -/
theorem effects_running (h : Host) (cause : Message) (s : Session) (es : List Effect) :
    (h.effects cause s es).running = s.running ∧ (h.effects cause s es).finished = s.finished := by
  have one : ∀ (s : Session) (e : Effect), (h.effect cause s e).running = s.running
      ∧ (h.effect cause s e).finished = s.finished := by
    intro s e
    cases e with
    | send m =>
      have sends : ∀ e ∈ [Effect.send m], e.IsSend := by simp [Effect.IsSend]
      obtain ⟨more, approvals, events, sent⟩ := h.effects_isSend cause s sends
      have sent : h.effect cause s (.send m) = _ := sent
      rw [sent]
      exact ⟨rfl, rfl⟩
    | join fork path total m =>
      simp only [effect, Session.join]
      split <;> split <;> exact ⟨rfl, rfl⟩
    | cancelFork fork =>
      simp only [effect, cancelFork_eq]
      split <;> exact ⟨rfl, rfl⟩
  induction es generalizing s with
  | nil => exact ⟨rfl, rfl⟩
  | cons e rest ih =>
    obtain ⟨running, finished⟩ := ih (h.effect cause s e)
    simp only [effects, List.foldl_cons] at running finished ⊢
    exact ⟨running.trans (one s e).1, finished.trans (one s e).2⟩

/-- The end of a commit moves the instance and touches nothing else. -/
theorem commit_cases (h : Host) (s : Session) (m : Message) (j : Instance) (es : List Effect) :
    ∃ running finished, h.commit s m j es = { h.effects m { h.resetForks s m with
      running := Store.insert m.instanceId j (h.resetForks s m).running } es with
        running, finished } := by
  unfold commit
  dsimp only
  split
  · unfold Session.retire
    split
    · exact ⟨_, _, rfl⟩
    · exact ⟨_, _, rfl⟩
  · exact ⟨_, _, rfl⟩

/-- A fork that starts over loses its entry in a store. -/
def renewed {α : Type} (h : Host) (m : Message) (store : Store (Key × String) α) :
    Store (Key × String) α :=
  h.table.forks.foldl (fun store f =>
    if f.trigger = m.name then Store.erase (m.instanceId, f.id) store else store) store

theorem resetForks_eq (s : Session) (m : Message) :
    h.resetForks s m = { s with
      joins := h.renewed m s.joins
      cancelled := h.renewed m s.cancelled } := by
  unfold resetForks renewed
  induction h.table.forks generalizing s with
  | nil => rfl
  | cons f rest ih =>
    simp only [List.foldl_cons]
    rw [ih]
    split <;> rfl

theorem get?_renewed {α : Type} (m : Message) (key : Key × String)
    (store : Store (Key × String) α) :
    Store.get? key (h.renewed m store)
      = if ∃ f ∈ h.table.forks, f.trigger = m.name ∧ (m.instanceId, f.id) = key then none
        else Store.get? key store := by
  unfold renewed
  induction h.table.forks generalizing store with
  | nil => simp
  | cons f rest ih =>
    rw [List.foldl_cons, ih]
    by_cases hit : f.trigger = m.name
    · by_cases same : (m.instanceId, f.id) = key
      · simp [hit, same, Store.get?_erase]
      · simp [hit, same, Store.get?_erase]
    · simp [hit]

end Host

/-! ## Reactions -/

/-- The three kinds of effects that the transition of a message may have. -/
inductive Reaction (d : Definition) (m : Message) : List Effect → Prop
  | quiet {es : List Effect} (sends : ∀ e ∈ es, e.IsSend) : Reaction d m es
  /-- A path of a fork reaches its join. -/
  | report {f : Fork} {p : Nat} {x : Spot} (here : x.In d) (line : x.line = .fork f p)
      (name : m.name = Name.completedEvent (x.stem d)) :
      Reaction d m [.join (Name.forkId f.previousStep) p f.paths.length
        ⟨Name.startCommand f.joinStep, m.instanceId, .empty⟩]
  /-- The failure of a path cancels the other ones, and goes to a handler if there is one. -/
  | cancel {f : Fork} {p : Nat} {x : Spot} {toks : List Token} (here : x.In d)
      (line : x.line = .fork f p) (failFast : f.failFast = true)
      (name : m.name = Name.completedEvent (x.stem d))
      (triggers : ∀ tok ∈ toks, tok.In d ∧ tok.spot? = none) :
      Reaction d m (.cancelFork (Name.forkId f.previousStep)
        :: toks.map fun tok => .send (tok.message d m.instanceId))

namespace Compiled

variable {d : Definition} {h : Host} (c : Compiled d h.table) {e : Delivery} {j : Instance}
  {es : List Effect}

include c

/-- The completion of a position has one of the reactions. -/
theorem reaction_completion {x : Spot} (here : x.In d) {m : Message} {i : Instance}
    (key : i.id = m.instanceId) (name : m.name = Name.completedEvent (x.stem d)) {calls : List Call}
    (ok : ((d.completion (x.site d)).apply h.collaborators calls i m).result = .ok es) :
    Reaction d m es := by
  cases body : m.body with
  | completed update failure =>
    have applied := c.apply_completion x.line here.1 here.2 h.collaborators calls i m body
    have outcome := c.wellFormed.completed_outcome here h.collaborators update failure i calls
    rw [Spot.site, applied] at ok
    generalize d.completed h.collaborators x.line x.index x.step update failure i calls = r
      at ok outcome
    cases outcome with
    | advance plain advance =>
      cases ok
      cases advance <;> exact .quiet (by simp [Effect.IsSend])
    | unmatched plain => cases ok
    | cascade f declared main after alike going =>
      cases ok
      exact .quiet (by simp [Effect.IsSend])
    | onward y there same after off alike going =>
      cases ok
      exact .quiet (by simp [Effect.IsSend])
    | report f p line alike going =>
      cases ok
      rw [Fork.report, key]
      exact .report here line name
    | close g line terminal alike finished phase =>
      cases ok
      exact .quiet (by simp)
    | resume g line last terminal y there failed takes alike going =>
      cases ok
      exact .quiet (by simp [Effect.IsSend])
    | astray g line terminal none => cases ok
    | trigger g takes context failed alike going =>
      cases ok
      rcases cancellation_cases x.line with slow | ⟨f, p, line, failFast, cancels⟩
      · rw [slow]
        exact .quiet (by simp [Effect.IsSend])
      · rw [cancels, key]
        have declared : (Token.trigger g context).In d := Spot.handler_mem takes
        exact Reaction.cancel here line failFast name fun tok only => by
          rw [List.mem_singleton.mp only]
          exact ⟨declared, rfl⟩
    | abort f p line failFast alike finished phase =>
      cases ok
      rw [line, Line.cancellation, if_pos failFast]
      exact Reaction.cancel here line failFast name fun tok none => absurd none List.not_mem_nil
    | unhandled off => cases ok
  | _ =>
    -- the update is missing
    simp only [Definition.completion, Transition.of, Transition.apply, Run.steps, Run.step, body,
      Run.lacks, Flow.applied, reduceCtorEq] at ok

/-- What a delivery commits is one of the reactions. -/
theorem reaction (home : e.AtHome) (committed : h.committed? e = some (j, es)) :
    Reaction d e.message es := by
  obtain ⟨i, t, stored, found, _, ok, _⟩ := Host.exists_of_committed? committed
  have trigger : t.trigger = e.message.name := by simpa using List.find?_some found
  cases c.transition_cases (List.mem_of_find?_eq_some found) with
  | @start x here =>
    refine .quiet (Transition.apply_isSend ?_ ok)
    simp only [Site.startTransition, Transition.of, Site.guardActions]
    cases (x.site d).step.guard <;> simp [Action.isQuiet]
  | @completion x here =>
    refine c.reaction_completion here (home _ stored) ?_ ok
    rw [← trigger]
    simp [Definition.completion, Transition.of, Site.completedEvent]
  | gate attached link member =>
    refine .quiet (Transition.apply_isSend ?_ ok)
    simp only [Approval.transitions, List.mem_cons, List.not_mem_nil, or_false] at member
    rcases member with rfl | rfl | rfl <;> simp [Transition.of, Action.isQuiet]
  | trigger declared first =>
    exact .quiet (Transition.apply_isSend (by simp [Transition.of, Action.isQuiet]) ok)

/-! ## Sessions after a commit -/

/-- Only the completion of the step before a fork starts the fork over. -/
theorem get?_renewed_fork {α : Type} {f : Fork} (declared : f ∈ d.forks) (m : Message) (id : Key)
    (store : Store (Key × String) α) :
    Store.get? (id, Name.forkId f.previousStep) (h.renewed m store)
      = if m.instanceId = id ∧ m.name = Name.completedEvent f.previousStep then none
        else Store.get? (id, Name.forkId f.previousStep) store := by
  rw [Host.get?_renewed]
  congr 1
  rw [c.forks_eq, eq_iff_iff]
  constructor
  · rintro ⟨layout, listed, trigger, same⟩
    obtain ⟨f', declared', rfl⟩ := List.mem_map.mp listed
    obtain ⟨own, fork⟩ := Prod.mk.inj same
    have one : f' = f := List.inj_on_of_nodup_map c.wellFormed.forks_distinct declared' declared
      ((String.append_right_inj _).mp fork)
    subst one
    exact ⟨own, trigger.symm⟩
  · rintro ⟨own, name⟩
    exact ⟨d.forkLayout f, List.mem_map_of_mem declared, name.symm, by rw [own]; rfl⟩

/-- A completion on a path is none of the step before a fork. -/
theorem completedEvent_ne_of_lane {x : Spot} (here : x.In d) {f f' : Fork} {p : Nat}
    (line : x.line = .fork f' p) (declared : f ∈ d.forks) :
    Name.completedEvent f.previousStep ≠ Name.completedEvent (x.stem d) := by
  intro name
  have there : (Token.done x .null none).In d := here
  have named : Name.completedEvent f.previousStep
    = ((Token.done x .null none).message d (.number 0)).name := name
  obtain ⟨x', _, _, same, main, _⟩ := c.eq_done_of_trigger there declared named
  cases same
  rw [main] at line
  cases line

/-- A completion on a path starts no fork over. -/
theorem resetForks_lane {x : Spot} (here : x.In d) {f : Fork} {p : Nat} (line : x.line = .fork f p)
    {m : Message} (name : m.name = Name.completedEvent (x.stem d)) (s : Session) :
    h.resetForks s m = s := by
  apply resetForks_of_ne
  rw [c.forks_eq]
  intro layout listed trigger
  obtain ⟨f', declared, rfl⟩ := List.mem_map.mp listed
  exact c.completedEvent_ne_of_lane here line declared (trigger.trans name)

omit c in
/-- Messages only: forks may start over. -/
theorem deliver_quiet (committed : h.committed? e = some (j, es)) (sends : ∀ e ∈ es, e.IsSend) :
    ∃ running finished more approvals events delivered calls, h.deliver e.before e.message
      = { e.before with
          running, finished, approvals, events, delivered, calls
          queue := e.before.queue ++ more
          joins := h.renewed e.message e.before.joins
          cancelled := h.renewed e.message e.before.cancelled } := by
  obtain ⟨i, t, _, _, _, _, result⟩ := Host.exists_of_committed? committed
  obtain ⟨running, finished, moved⟩ := h.commit_cases { e.before with
    delivered := e.before.delivered ++ [e.message]
    calls := (t.apply h.collaborators e.before.calls i e.message).calls } e.message j es
  rw [result, moved, Host.resetForks_eq]
  obtain ⟨more, approvals, events, sent⟩ := h.effects_isSend e.message { e.before with
    joins := h.renewed e.message e.before.joins
    cancelled := h.renewed e.message e.before.cancelled
    delivered := e.before.delivered ++ [e.message]
    calls := (t.apply h.collaborators e.before.calls i e.message).calls
    running := Store.insert e.message.instanceId j e.before.running } sends
  rw [sent]
  exact ⟨running, finished, more, approvals, events, _, _, rfl⟩

/-- A report to a join. -/
theorem deliver_report {x : Spot} (here : x.In d) {f : Fork} {p : Nat} (line : x.line = .fork f p)
    (name : e.message.name = Name.completedEvent (x.stem d))
    (committed : h.committed? e = some (j, [.join (Name.forkId f.previousStep) p f.paths.length
      ⟨Name.startCommand f.joinStep, e.message.instanceId, .empty⟩])) :
    ∃ running finished delivered calls, h.deliver e.before e.message
      = { e.before.join (Name.forkId f.previousStep) p f.paths.length
            ⟨Name.startCommand f.joinStep, e.message.instanceId, .empty⟩ with
          running, finished, delivered, calls } := by
  obtain ⟨i, t, _, _, _, _, result⟩ := Host.exists_of_committed? committed
  obtain ⟨running, finished, moved⟩ := h.commit_cases { e.before with
    delivered := e.before.delivered ++ [e.message]
    calls := (t.apply h.collaborators e.before.calls i e.message).calls } e.message j _
  have joined : h.effects e.message { e.before with
      delivered := e.before.delivered ++ [e.message]
      calls := (t.apply h.collaborators e.before.calls i e.message).calls
      running := Store.insert e.message.instanceId j e.before.running }
        [.join (Name.forkId f.previousStep) p f.paths.length
          ⟨Name.startCommand f.joinStep, e.message.instanceId, .empty⟩] = _ :=
    Session.join_with e.before _ _ _ _ _ _ _
  rw [result, moved, c.resetForks_lane here line name, joined]
  exact ⟨running, finished, _, _, rfl⟩

/-- A cancellation: the other paths are swept, and messages follow. -/
theorem deliver_cancel {x : Spot} (here : x.In d) {f : Fork} {p : Nat} (line : x.line = .fork f p)
    (name : e.message.name = Name.completedEvent (x.stem d)) {toks : List Token}
    (triggers : ∀ tok ∈ toks, tok.In d ∧ tok.spot? = none)
    (committed : h.committed? e = some (j, .cancelFork (Name.forkId f.previousStep)
      :: toks.map fun tok => .send (tok.message d e.message.instanceId))) :
    ∃ running finished delivered calls, h.deliver e.before e.message
      = { h.sweep { e.before with
            cancelled := Store.insert (e.message.instanceId, Name.forkId f.previousStep) p
              e.before.cancelled } with
          running, finished, delivered, calls
          queue := (h.sweep { e.before with
            cancelled := Store.insert (e.message.instanceId, Name.forkId f.previousStep) p
              e.before.cancelled }).queue ++ toks.map (Token.message d e.message.instanceId) } := by
  have there : (Token.done x .null none).In d := here
  have path := c.pathOf?_message there e.message.instanceId
  simp only [Token.message, Token.spot?, Option.bind_some, line, Line.lane?, Option.map_some,
    ← name] at path
  obtain ⟨i, t, _, _, _, _, result⟩ := Host.exists_of_committed? committed
  obtain ⟨running, finished, moved⟩ := h.commit_cases { e.before with
    delivered := e.before.delivered ++ [e.message]
    calls := (t.apply h.collaborators e.before.calls i e.message).calls } e.message j _
  have swept : h.effects e.message { e.before with
      delivered := e.before.delivered ++ [e.message]
      calls := (t.apply h.collaborators e.before.calls i e.message).calls
      running := Store.insert e.message.instanceId j e.before.running }
        (.cancelFork (Name.forkId f.previousStep)
          :: toks.map fun tok => .send (tok.message d e.message.instanceId))
      = h.effects e.message (h.sweep { e.before with
        cancelled := Store.insert (e.message.instanceId, Name.forkId f.previousStep) p
          e.before.cancelled
        delivered := e.before.delivered ++ [e.message]
        calls := (t.apply h.collaborators e.before.calls i e.message).calls
        running := Store.insert e.message.instanceId j e.before.running })
          (toks.map fun tok => .send (tok.message d e.message.instanceId)) := by
    rw [Host.effects, List.foldl_cons, Host.effect, cancelFork_path rfl path]
    rfl
  rw [result, moved, c.resetForks_lane here line name, swept,
    c.effects_tokens _ fun tok htok => (triggers tok htok).1]
  exact ⟨running, finished, _, _, rfl⟩

end Compiled

namespace Host

variable {h : Host} {s : Session} {e : Delivery} {j : Instance} {es : List Effect}

/-- What a commit leaves of the instances. -/
theorem commit_running (s : Session) (m : Message) (j : Instance) (es : List Effect) :
    (h.commit s m j es).running = if j.isFinished then
        Store.erase m.instanceId (Store.insert m.instanceId j s.running)
      else Store.insert m.instanceId j s.running := by
  obtain ⟨running, _⟩ := h.effects_running m { h.resetForks s m with
    running := Store.insert m.instanceId j (h.resetForks s m).running } es
  have kept : (h.resetForks s m).running = s.running := by rw [resetForks_eq]
  unfold commit
  dsimp only
  split
  · unfold Session.retire
    rw [running, Store.get?_insert_self, kept]
  · rw [running, kept]

/-- What it leaves of the finished ones. -/
theorem commit_finished (s : Session) (m : Message) (j : Instance) (es : List Effect) :
    (h.commit s m j es).finished = if j.isFinished then
        Store.insert m.instanceId j s.finished
      else s.finished := by
  obtain ⟨running, finished⟩ := h.effects_running m { h.resetForks s m with
    running := Store.insert m.instanceId j (h.resetForks s m).running } es
  have kept : (h.resetForks s m).finished = s.finished := by rw [resetForks_eq]
  unfold commit
  dsimp only
  split
  · unfold Session.retire
    rw [running, Store.get?_insert_self, finished, kept]
  · rw [finished, kept]

/-- A delivery stores what it commits among the running instances or, once it has finished, among the
finished ones, and touches no other instance. -/
theorem get?_deliver (committed : h.committed? e = some (j, es)) (key : Key) :
    (Store.get? key (h.deliver e.before e.message).running
        = if e.message.instanceId = key then (if j.isFinished then none else some j)
          else Store.get? key e.before.running)
      ∧ Store.get? key (h.deliver e.before e.message).finished
        = if e.message.instanceId = key ∧ j.isFinished then some j
          else Store.get? key e.before.finished := by
  obtain ⟨_, _, _, _, _, _, result⟩ := exists_of_committed? committed
  rw [result, commit_running, commit_finished]
  cases j.isFinished with
  | true =>
    refine ⟨?_, by simp [Store.get?_insert]⟩
    by_cases own : e.message.instanceId = key <;> simp [Store.get?_erase, Store.get?_insert, own]
  | false => exact ⟨by simp [Store.get?_insert], by simp⟩

/-- A delivery to nobody starts nobody. -/
theorem get?_deliver_of_none (absent : Store.get? e.message.instanceId e.before.running = none) :
    Store.get? e.message.instanceId (h.deliver e.before e.message).running = none := by
  cases committed : h.committed? e with
  | none => rwa [(agrees_of_committed? committed).running]
  | some result =>
    obtain ⟨_, _, stored, _⟩ := exists_of_committed? committed
    rw [absent] at stored
    cases stored

/-- What is committed is what is found afterwards. -/
theorem inst?_deliver (committed : h.committed? e = some (j, es)) :
    (h.deliver e.before e.message).inst? e.message.instanceId = some j := by
  obtain ⟨running, finished⟩ := get?_deliver committed e.message.instanceId
  rw [Session.inst?, running, finished]
  cases j.isFinished <;> simp

/-- Instances stay under their own keys. -/
theorem AtHome.deliver (home : AtHome s) (m : Message) : AtHome (h.deliver s m) := by
  cases committed : h.committed? ⟨s, m⟩ with
  | none =>
    have same := (agrees_of_committed? committed).running
    intro key i stored
    rw [same] at stored
    exact home key i stored
  | some result =>
    obtain ⟨j, es⟩ := result
    obtain ⟨i, t, stored, _, inst, _, result⟩ := exists_of_committed? committed
    have own : j.id = m.instanceId := by
      rw [← inst, Transition.apply_inst_id]
      exact home _ _ stored
    intro key k there
    rw [result, commit_running] at there
    have inserted : Store.get? key (Store.insert m.instanceId j s.running) = some k := by
      split at there
      · rw [Store.get?_erase] at there
        split at there
        · cases there
        · exact there
      · exact there
    rw [Store.get?_insert] at inserted
    split at inserted
    next same =>
      cases inserted
      rw [own, same]
    next => exact home key k inserted

end Host

end Workflow
