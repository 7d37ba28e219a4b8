import Workflow.Proofs.Host.Exits
import Workflow.Proofs.Host.Placement
import Workflow.Proofs.Host.Requests

/-!
Loops that are entered again.

A loop that counts on from an earlier visit gets less than its bound. In a closed run that cannot happen
to a loop that is sealed: as long as its count is above zero, whatever waits for the instance comes back
into the body (`Session.Encloses`), so a step outside starts with the count at zero, and the next visit
gets the whole bound (`Host.Reaches.reentry`). Where a branch inside the body rejoins outside, the count
is left as it is: `not_reentry_essay`.

What waits for an answer comes back too, if a correlation id tells the gate that it was issued for.
-/

set_option autoImplicit false

namespace Workflow

/-! ## The invariant -/

/-- A correlation id tells the gate it was issued for. -/
def Session.Correlates (s : Session) : Prop :=
  ∀ id key gate gate', s.Issued gate id key → s.Issued gate' id key → gate = gate'

/-- Whatever waits for an instance comes back into the body of a loop, and so does the answer that it
waits for. -/
structure Session.Confined (d : Definition) (l : Loop) (s : Session) (id : Key) (i : Instance) :
    Prop where
  queued : ∀ m ∈ s.queue, m.instanceId = id → m.Within d l i.failedStep
  awaited : ∀ key, i.pendingApproval = some key → ∃ a ∈ d.approvals, ∃ g ∈ a.chain,
    d.InBody l a.gate.precedingStep ∧ s.Issued g.gate.name id key

/-- So it is of an instance for which the loop has counted. -/
def Session.Encloses (d : Definition) (l : Loop) (s : Session) (id : Key) : Prop :=
  ∀ i, Store.get? id s.running = some i → i.counter (d.control l).counter ≠ 0 → s.Confined d l id i

section Invariant

variable {d : Definition} {l : Loop} {s t : Session} {id : Key} {i : Instance}

theorem Session.Issued.mono (more : s.approvals ⊆ t.approvals) {gate : String} {key : Key}
    (issued : s.Issued gate id key) : t.Issued gate id key := by
  obtain ⟨r, hr, fits⟩ := issued
  exact ⟨r, more hr, fits⟩

theorem Session.Correlates.anti (correlates : t.Correlates) (more : s.approvals ⊆ t.approvals) :
    s.Correlates := fun id key gate gate' issued issued' =>
  correlates id key gate gate' (issued.mono more) (issued'.mono more)

theorem Session.Correlates.of_approvals (unasked : s.approvals = []) : s.Correlates := by
  rintro id key gate gate' ⟨r, hr, _⟩
  rw [unasked] at hr
  cases hr

/-- An instance that is not touched stays confined, as long as what is new in the queue is not its own
or comes back. -/
theorem Session.Encloses.still (encloses : s.Encloses d l id)
    (same : Store.get? id t.running = Store.get? id s.running) (more : s.approvals ⊆ t.approvals)
    (queue : ∀ m ∈ t.queue, m.instanceId = id → m ∈ s.queue ∨ ∀ failed, m.Within d l failed) :
    t.Encloses d l id := by
  intro i stored counted
  obtain ⟨queued, awaited⟩ := encloses i (same ▸ stored) counted
  refine ⟨fun m hm own => ?_, fun key waits => ?_⟩
  · rcases queue m hm own with old | within
    · exact queued m old own
    · exact within i.failedStep
  · obtain ⟨a, attached, g, link, inside, issued⟩ := awaited key waits
    exact ⟨a, attached, g, link, inside, issued.mono more⟩

/-- The message of a confined instance that is delivered next is one of a token that comes back: a
signal that answers carries the id of the gate that is waited for. -/
theorem Session.Confined.exists_returning {rest : List Message} {m : Message}
    (confined : s.Confined d l m.instanceId i) (queue : s.queue = m :: rest) (faithful : s.Faithful)
    (correlates : s.Correlates) :
    ∃ tok : Token, tok.In d ∧ tok.message d m.instanceId = m ∧ tok.Returns d l i := by
  have first : m ∈ s.queue := by rw [queue]; exact List.mem_cons_self
  obtain ⟨tok, here, message, within⟩ := confined.queued m first rfl
  -- the gate that is waited for is the one that the signal names
  have answered : ∀ gate key, m.IsSignal gate key → i.pendingApproval = some key →
      ∃ a ∈ d.approvals, ∃ g ∈ a.chain, d.InBody l a.gate.precedingStep ∧ g.gate.name = gate := by
    intro gate key signal waits
    obtain ⟨a, attached, g, link, inside, issued⟩ := confined.awaited key waits
    exact ⟨a, attached, g, link, inside,
      correlates _ _ _ _ issued (faithful m first gate key signal)⟩
  cases tok with
  | decided a g key decision =>
    have signal : m.IsSignal g.gate.name key := by
      rw [← message]
      exact .inl ⟨decision, rfl, rfl⟩
    by_cases waits : i.pendingApproval = some key
    · obtain ⟨a', attached, g', link, inside, same⟩ := answered _ key signal waits
      refine ⟨.decided a' g' key decision, ⟨attached, link⟩, ?_, fun _ => inside⟩
      rw [← message, Token.message, same]
      rfl
    · exact ⟨.decided a g key decision, here, message, fun asked => absurd asked waits⟩
  | timedOut a g key =>
    have signal : m.IsSignal g.gate.name key := by
      rw [← message]
      exact .inr ⟨rfl, rfl⟩
    by_cases waits : i.pendingApproval = some key
    · obtain ⟨a', attached, g', link, inside, same⟩ := answered _ key signal waits
      refine ⟨.timedOut a' g' key, ⟨attached, link⟩, ?_, fun _ => inside⟩
      rw [← message, Token.message, same]
      rfl
    · exact ⟨.timedOut a g key, here, message, fun asked => absurd asked waits⟩
  | start x => exact ⟨_, here, message, within⟩
  | work x state => exact ⟨_, here, message, within⟩
  | done x update failure => exact ⟨_, here, message, within⟩
  | trigger g context => exact ⟨_, here, message, within⟩
  | pending a g key => exact ⟨_, here, message, within⟩

/-- Only a trigger changes what a recovery is for, and what it captures is of the body. -/
theorem Token.Returns.failedStep {tok : Token} (returns : tok.Returns d l i) (cx : Collaborators)
    (calls : List Call) : (tok.applied d cx i calls).inst.failedStep = i.failedStep
      ∨ d.PhaseInBody l (tok.applied d cx i calls).inst.failedStep := by
  rw [Token.failedStep_applied]
  cases tok with
  | trigger g context => exact .inr returns
  | _ => exact .inl rfl

theorem Message.Within.again {m : Message} {failed failed' : String} (within : m.Within d l failed)
    (again : failed' = failed ∨ d.PhaseInBody l failed') : m.Within d l failed' := by
  obtain ⟨tok, here, message, within⟩ := within
  rcases again with rfl | again
  · exact ⟨tok, here, message, within⟩
  · exact ⟨tok, here, message, within.again again⟩

end Invariant

/-! ## One delivery -/

namespace Compiled

variable {d : Definition} {h : Host} (c : Compiled d h.table) {l : Loop} (closed : d.Sealed l)
  (own : l ∈ d.loops) (alone : d.CountsAlone l)

include c

/-- Work inside the body is completed there. -/
theorem within_posted {s : Session} {id : Key} {tok : Token} (here : tok.In d) {i : Instance}
    (returns : tok.Returns d l i) (idle : h.committed? ⟨s, tok.message d id⟩ = none) :
    ∀ m ∈ h.posted s (tok.message d id), m.Within d l i.failedStep := by
  have handles := h.deliver_handles s (tok.message d id)
  generalize h.deliver s (tok.message d id) = s', h.posted s (tok.message d id) = more at handles
  cases handles with
  | @work calm kind stem update failure calls name =>
    rw [c.kindOf?_message here] at kind
    cases tok with
    | work x state =>
      have same : x.stem d = stem := by
        simpa [Token.message, Name.workerCommand, String.append_left_inj, String.append_right_inj]
          using name
      intro m hm
      rw [List.mem_singleton.mp hm, ← same]
      have completes : (Token.done x update failure).In d := here
      exact Token.message_within completes returns id
    | _ => cases kind
  | commit calm declared committed =>
    rw [idle] at committed
    cases committed
  | _ => simp

/-- What an instance waits for after a delivery comes back, if what it waited for does and what is
acknowledged. -/
theorem awaited_deliver {s : Session} {id : Key} {tok : Token} {i : Instance}
    (stored : Store.get? id s.running = some i)
    (before : ∀ key, i.pendingApproval = some key → ∃ a ∈ d.approvals, ∃ g ∈ a.chain,
      d.InBody l a.gate.precedingStep ∧ s.Issued g.gate.name id key)
    (here : tok.In d) (asks : ∀ a g key, tok = .pending a g key → d.InBody l a.gate.precedingStep)
    (acknowledged : ∀ gate key, (tok.message d id).IsAcknowledgement gate key → s.Issued gate id key)
    {key : Key} (waits : (h.deliver s (tok.message d id)).Awaits id key) :
    ∃ a ∈ d.approvals, ∃ g ∈ a.chain, d.InBody l a.gate.precedingStep
      ∧ (h.deliver s (tok.message d id)).Issued g.gate.name id key := by
  have more := (h.grows_deliver s (tok.message d id)).approvals
  rcases c.awaits_of_deliver (e := ⟨s, tok.message d id⟩) waits with
    ⟨i', there, waited⟩ | ⟨_, gate, _, acks⟩
  · obtain rfl := Option.some.inj (stored.symm.trans there)
    obtain ⟨a, attached, g, link, inside, issued⟩ := before key waited
    exact ⟨a, attached, g, link, inside, issued.mono more⟩
  · dsimp only at acks
    cases tok with
    | pending a g key' =>
      have issued := acknowledged g.gate.name key' ⟨rfl, rfl⟩
      cases acks.2
      exact ⟨a, here.1, g, here.2, asks a g _ rfl, issued.mono more⟩
    | decided a g key' decision =>
      have signal : ((Token.decided a g key' decision).message d id).IsSignal g.gate.name key' :=
        .inl ⟨decision, rfl, rfl⟩
      exact absurd acks signal.not_isAcknowledgement
    | timedOut a g key' =>
      have signal : ((Token.timedOut a g key').message d id).IsSignal g.gate.name key' :=
        .inr ⟨rfl, rfl⟩
      exact absurd acks signal.not_isAcknowledgement
    | _ => cases acks.2

include closed own alone

/-- What the commit of a token queues comes back into the body. -/
theorem within_committed {s : Session} {id : Key} {tok : Token} (here : tok.In d) {i j : Instance}
    {es : List Effect} (stored : Store.get? id s.running = some i)
    (returns : i.counter (d.control l).counter ≠ 0 → tok.Returns d l i)
    (committed : h.committed? ⟨s, tok.message d id⟩ = some (j, es))
    (counted : j.counter (d.control l).counter ≠ 0) :
    ∀ m ∈ h.posted s (tok.message d id), m.Within d l j.failedStep := by
  intro m hm
  obtain ⟨_, i', there, rfl, ok⟩ := Host.applied_of_committed? c here committed
  obtain rfl := Option.some.inj (stored.symm.trans there)
  obtain ⟨s', same⟩ := Host.posted_of_committed? committed
  rw [same] at hm
  obtain ⟨e, he, s'', queued⟩ := Host.exists_of_mem_postsAll hm
  exact c.confines_applied closed own alone here i s.calls returns es ok counted e he s'' m queued

/-- A delivery to an instance that is confined, or for which the loop begins to count. -/
theorem encloses_deliver {s : Session} {id : Key} {tok : Token} (here : tok.In d)
    {i : Instance} (stored : Store.get? id s.running = some i)
    (confined : i.counter (d.control l).counter ≠ 0 → s.Confined d l id i ∧ tok.Returns d l i)
    (begins : i.counter (d.control l).counter = 0 → ∀ x update failure, tok = .done x update failure →
      x.line = .main → (∀ m ∈ s.queue, m.instanceId = id → ∀ failed, m.Within d l failed)
        ∧ i.pendingApproval = none)
    (acknowledged : ∀ gate key, (tok.message d id).IsAcknowledgement gate key → s.Issued gate id key) :
    (h.deliver s (tok.message d id)).Encloses d l id := by
  intro k stored' counted
  have mine : (tok.message d id).instanceId = id := Token.message_instanceId d id tok
  have order := (h.settles s (tok.message d id)).order
  have awaited := fun before asks key (waits : k.pendingApproval = some key) =>
    c.awaited_deliver stored (l := l) before here asks acknowledged ⟨k, stored', waits⟩
  -- what waits after the delivery waited before, or is posted
  have queued : ∀ {failed : String}, (∀ m ∈ s.queue, m.instanceId = id → m.Within d l failed) →
      (∀ m ∈ h.posted s (tok.message d id), m.Within d l failed) →
      ∀ m ∈ (h.deliver s (tok.message d id)).queue, m.instanceId = id → m.Within d l failed := by
    intro failed old new m hm own
    rcases List.mem_append.mp (order.subset hm) with before | posted
    · exact old m before own
    · exact new m posted
  cases committed : h.committed? ⟨s, tok.message d id⟩ with
  | none =>
    rw [(Host.agrees_of_committed? committed).running] at stored'
    obtain rfl := Option.some.inj (stored.symm.trans stored')
    obtain ⟨kept, returns⟩ := confined counted
    refine ⟨queued kept.queued (c.within_posted here returns committed),
      awaited kept.awaited fun a g key same => ?_⟩
    rw [same] at returns
    exact returns
  | some result =>
    obtain ⟨j, es⟩ := result
    obtain ⟨_, i', there, inst, _⟩ := Host.applied_of_committed? c here committed
    obtain rfl := Option.some.inj (stored.symm.trans there)
    rw [(Host.get?_deliver committed id).1, if_pos mine] at stored'
    have same : j = k := by
      split at stored'
      · cases stored'
      · exact Option.some.inj stored'
    subst same
    have posted := c.within_committed closed own alone here stored (fun again => (confined again).2)
      committed counted
    by_cases before : i.counter (d.control l).counter ≠ 0
    · obtain ⟨kept, returns⟩ := confined before
      refine ⟨queued (fun m hm own => ?_) posted, awaited kept.awaited fun a g key same => ?_⟩
      · exact (kept.queued m hm own).again (inst ▸ returns.failedStep h.collaborators s.calls)
      · rw [same] at returns
        exact returns
    · -- the loop begins to count, so the main line has completed a step
      obtain ⟨x, update, failure, rfl, main⟩ : ∃ x update failure,
          tok = .done x update failure ∧ x.line = .main := by
        by_contra off
        push Not at off
        have kept := Token.counters_applied h.collaborators i s.calls (d := d) off
        rw [inst] at kept
        rw [Instance.counter, kept] at counted
        exact before counted
      obtain ⟨signals, unasked⟩ := begins (not_not.mp before) x update failure rfl main
      refine ⟨queued (fun m hm own => signals m hm own _) posted,
        awaited (fun key waits => ?_) (by simp)⟩
      rw [unasked] at waits
      cases waits

end Compiled

/-! ## Runs -/

/-- A new instance has counted nothing. -/
theorem Instance.counter_fresh (t : Table) (id : Key) (state : Value) (counter : String) :
    (Instance.fresh t id state).counter counter = 0 := by
  unfold Instance.counter
  cases found : Keyed.get? counter (Instance.fresh t id state).counters with
  | none => rfl
  | some n =>
    obtain ⟨f, _, zeroed⟩ := List.mem_filterMap.mp (Keyed.mem_of_mem_ofList (Keyed.mem_of_get? found))
    split at zeroed
    · cases zeroed
      rfl
    · cases zeroed

/-- A signal comes back wherever it comes from. -/
theorem Token.within_of_signal {d : Definition} {l : Loop} {tok : Token} {failed : String}
    (off : tok.isControl = false) : tok.Within d l failed := by
  cases tok with
  | decided | timedOut => trivial
  | _ => cases off

namespace Host.Reaches

variable {d : Definition} {h : Host} (c : Compiled d h.table) {l : Loop} (closed : d.Sealed l)
  (own : l ∈ d.loops) (alone : d.CountsAlone l) {started : List Key} {past : List Delivery}
  {s : Session} (run : h.Reaches started past s) {m : Message} {rest : List Message}
  (queue : s.queue = m :: rest)

include c run queue

/-- Another instance is not touched by a delivery. -/
theorem encloses_other {id : Key} (other : m.instanceId ≠ id) (encloses : s.Encloses d l id) :
    (h.deliver { s with queue := rest } m).Encloses d l id := by
  have evolves := Host.Evolves.of_reaches run
  have same : Session.only { s with queue := rest } id = s.only id := by
    simp [Session.only, queue, other]
  have now := Host.only_deliver_other (h := h) (s := { s with queue := rest })
    (fun key i stored => evolves.atHome c key i stored) other
    (by rw [same]; exact Follows.calm (run.follows c (Placed.kept c)) id)
  rw [same] at now
  refine encloses.still ?_ (h.grows_deliver { s with queue := rest } m).approvals fun m' hm' mine => ?_
  · rw [← Session.get?_running_only, now, ← s.get?_running_only]
    rfl
  · have kept : m' ∈ ((h.deliver { s with queue := rest } m).only id).queue :=
      List.mem_filter.mpr ⟨hm', by simpa using mine⟩
    rw [now] at kept
    exact .inl (List.mem_filter.mp kept).1

include closed own alone

/-- The instance of the message that is delivered stays confined. -/
theorem encloses_own (correlates : s.Correlates) (encloses : s.Encloses d l m.instanceId) :
    (h.deliver { s with queue := rest } m).Encloses d l m.instanceId := by
  have first : m ∈ s.queue := by rw [queue]; exact List.mem_cons_self
  cases stored : Store.get? m.instanceId s.running with
  | none =>
    intro k stored' _
    rw [Host.get?_deliver_of_none (e := ⟨{ s with queue := rest }, m⟩) stored] at stored'
    cases stored'
  | some i =>
    have acknowledged := (Host.Signalled.of_reaches run).honest c |>.acknowledged m first
    by_cases counted : i.counter (d.control l).counter ≠ 0
    · have confined := encloses i stored counted
      obtain ⟨tok, here, message, returns⟩ :=
        confined.exists_returning queue (run.faithful c) correlates
      have kept : Session.Confined d l { s with queue := rest } m.instanceId i :=
        ⟨fun m' hm' => confined.queued m' (by rw [queue]; exact List.mem_cons_of_mem _ hm'),
          confined.awaited⟩
      have moved := c.encloses_deliver closed own alone (s := { s with queue := rest }) here stored
        (fun _ => ⟨kept, returns⟩) (fun zero => absurd zero counted)
        (by rw [message]; exact acknowledged)
      rwa [message] at moved
    · obtain ⟨_, tok, toks, _, here, message, tracked, holds, _⟩ :=
        Follows.exists_move c (Placed.kept c) (run.follows c (Placed.kept c)) queue
      have moved := c.encloses_deliver closed own alone (s := { s with queue := rest }) here stored
        (fun again => absurd again counted) (fun _ x update failure same main => ?_)
        (by rw [message]; exact acknowledged)
      · rwa [message] at moved
      · -- nothing but signals waits beside the completion
        obtain ⟨none, unasked⟩ := holds.of_main (i := i) (x := x) (by simpa using stored)
          (by rw [same]; rfl) main
        refine ⟨fun m' hm' mine failed => ?_, unasked⟩
        have waits : m' ∈ ({ s with queue := rest }.only m.instanceId).queue :=
          List.mem_filter.mpr ⟨hm', by simpa using mine⟩
        rw [tracked.queue] at waits
        obtain ⟨tok', among, rfl⟩ := List.mem_map.mp waits
        have off : tok'.isControl = false := by
          simpa using List.filter_eq_nil_iff.mp none tok' among
        exact Token.message_within (tracked.here tok' among) (Token.within_of_signal off) _

omit queue

/-- In every closed run, an instance for which the loop has counted is confined to its body. -/
theorem encloses (correlates : s.Correlates) (id : Key) : s.Encloses d l id := by
  induction run with
  | initial =>
    intro i stored
    cases stored
  | @start started past s s' id₀ state run fresh ok ih =>
    obtain ⟨x, here, main, letter, result, _⟩ := c.start_eq s id₀ state
    rw [ok] at result
    cases result
    by_cases same : id₀ = id
    · subst same
      intro i stored counted
      rw [Store.get?_insert_self] at stored
      cases stored
      exact absurd (Instance.counter_fresh h.table id₀ state _) counted
    · refine (ih correlates).still (Store.get?_insert_of_ne same ..) (List.Subset.refl _) ?_
      intro m hm mine
      rcases List.mem_append.mp hm with old | new
      · exact .inl old
      · rw [List.mem_singleton.mp new, Token.message_instanceId] at mine
        exact absurd mine same
  | @deliver started past s m rest run queue ih =>
    have before := ih (correlates.anti (h.grows_deliver { s with queue := rest } m).approvals)
    by_cases mine : m.instanceId = id
    · subst mine
      exact encloses_own c closed own alone run queue
        (correlates.anti (h.grows_deliver { s with queue := rest } m).approvals) before
    · exact encloses_other c run queue mine before
  | @decide started past s s' id₀ correlation approval decision run ok ih =>
    obtain ⟨_, asked, result⟩ := map_eq_ok.mp ok
    cases result
    obtain ⟨_, a, attached, g, link, rfl⟩ :=
      Follows.exists_gate (run.follows c (Placed.kept c)) asked
    have here : (Token.decided a g correlation decision).In d := ⟨attached, link⟩
    refine (ih correlates).still rfl (List.Subset.refl _) fun m hm _ => ?_
    rcases List.mem_append.mp hm with old | new
    · exact .inl old
    · rw [List.mem_singleton.mp new]
      exact .inr fun failed => Token.message_within here trivial id₀
  | @timeOut started past s s' id₀ correlation approval run ok ih =>
    obtain ⟨_, asked, result⟩ := map_eq_ok.mp ok
    cases result
    obtain ⟨_, a, attached, g, link, rfl⟩ :=
      Follows.exists_gate (run.follows c (Placed.kept c)) asked
    have here : (Token.timedOut a g correlation).In d := ⟨attached, link⟩
    refine (ih correlates).still rfl (List.Subset.refl _) fun m hm _ => ?_
    rcases List.mem_append.mp hm with old | new
    · exact .inl old
    · rw [List.mem_singleton.mp new]
      exact .inr fun failed => Token.message_within here trivial id₀

end Host.Reaches

/-! ## Visits -/

/-- From a count of zero a loop counts its turns, and where its condition does not hold it is left in
the turn that its bound counts. -/
theorem Host.Continues.counts_turns {d : Definition} {h : Host} (c : Compiled d h.table) {l : Loop}
    (own : l ∈ d.loops) (alone : d.CountsAlone l) {id : Key} {s₀ s : Session} {later : List Delivery}
    (run : h.Continues id s₀ later s)
    (zero : ∀ i, Store.get? id s₀.running = some i → i.counter (d.control l).counter = 0)
    {front rest : List Turn} {t : Turn} (turns : h.turnsOf (d.control l) id later = front ++ t :: rest)
    (rounds : ∀ t ∈ front, t.leaves = false) :
    t.count.toNat = front.length
      ∧ (t.Unmet h.collaborators → (t.leaves = true ↔ front.length + 1 = l.maxIterations.toNat)) := by
  obtain ⟨_, leads, _⟩ := run.leads c alone zero
  rw [turns] at leads
  have among : ∀ t' ∈ front ++ t :: rest, t'.control = d.control l
      ∧ ∃ e ∈ later, t' ∈ h.turns e := fun t' ht' =>
    Compiled.control_of_turnsOf (h := h) (turns ▸ ht')
  have lawful : ∀ t' ∈ front, t'.Lawful := by
    intro t' ht'
    obtain ⟨_, e, _, taken⟩ := among t' (List.mem_append_left _ ht')
    exact c.lawful_of_mem taken
  have observed : ∀ t' ∈ front, t'.control.maxIterations = l.maxIterations := by
    intro t' ht'
    rw [(among t' (List.mem_append_left _ ht')).1]
    rfl
  obtain ⟨count, below⟩ := leads.count_eq lawful observed (c.bound_pos own) rounds
  obtain ⟨control, e, _, taken⟩ := among t (by simp)
  have bound : t.control.maxIterations = l.maxIterations := by rw [control]; rfl
  have zero : (0 : UInt32).toNat = 0 := rfl
  -- the count is below the bound, so one more does not overflow
  have next : (t.count + 1).toNat = t.count.toNat + 1 := by
    have := UInt32.lt_iff_toNat_lt.mp below
    have := l.maxIterations.toNat_lt
    simp only [UInt32.toNat_add, UInt32.toNat_one]
    omega
  have least := UInt32.lt_iff_toNat_lt.mp below
  refine ⟨by omega, fun unmet => ⟨fun leaves => ?_, fun full => ?_⟩⟩
  · have reached := UInt32.le_iff_toNat_le.mp (Host.bound_le_of_unmet taken unmet leaves)
    rw [bound, next] at reached
    omega
  · by_contra stays
    have again := UInt32.lt_iff_toNat_lt.mp (c.lawful_of_mem taken (by simpa using stays))
    rw [bound, next] at again
    omega

namespace Host.Reaches

variable {d : Definition} {h : Host} (c : Compiled d h.table) {l : Loop} (closed : d.Sealed l)
  (own : l ∈ d.loops) (alone : d.CountsAlone l) {started : List Key} {past : List Delivery}
  {s : Session} (run : h.Reaches started past s) (correlates : s.Correlates) {e : Delivery}
  (member : e ∈ past) {k : Nat} {x : Step} (at? : d.steps[k]? = some x)
  (starts : e.message.name = Name.startCommand x.identifier)

include c run

/-- Requests stay on record. -/
theorem approvals_subset {e : Delivery} (member : e ∈ past) : e.before.approvals ⊆ s.approvals := by
  induction run with
  | initial => cases member
  | @start _ _ s _ id state run fresh ok ih =>
    obtain ⟨_, _, _, _, result, _⟩ := c.start_eq s id state
    rw [ok] at result
    cases result
    exact ih member
  | @deliver _ _ s m rest run queue ih =>
    have grows := (h.grows_deliver { s with queue := rest } m).approvals
    rcases List.mem_append.mp member with old | new
    · exact List.Subset.trans (ih old) grows
    · rw [List.mem_singleton.mp new]
      exact grows
  | decide run ok ih | timeOut run ok ih =>
    obtain ⟨_, _, result⟩ := map_eq_ok.mp ok
    cases result
    exact ih member

include member at? starts

/-- The start of a main-line step counts nothing. -/
theorem counter_start {i j : Instance}
    (before : Store.get? e.message.instanceId e.before.running = some i)
    (after : Store.get? e.message.instanceId (h.deliver e.before e.message).running = some j) :
    j.counters = i.counters := by
  obtain ⟨_, _, split⟩ := List.append_of_mem member
  obtain ⟨_, s₀, run₀, queue, _⟩ := run.before split
  obtain ⟨_, tok, _, _, here, message, _⟩ :=
    Follows.exists_move c (Placed.kept c) (run₀.follows c (Placed.kept c)) queue
  have there : (Spot.mk .main k x).In d := ⟨trivial, at?⟩
  obtain ⟨y, rfl, _⟩ := c.eq_start_of_name here there (by rw [message]; exact starts.symm)
  cases committed : h.committed? e with
  | none =>
    rw [(Host.agrees_of_committed? committed).running, before] at after
    cases after
    rfl
  | some result =>
    obtain ⟨k, es⟩ := result
    have same : h.committed? ⟨e.before, (Token.start y).message d e.message.instanceId⟩
        = some (k, es) := by
      rw [message]
      exact committed
    obtain ⟨_, i', found, inst, _⟩ := Host.applied_of_committed? c here same
    obtain rfl := Option.some.inj (before.symm.trans found)
    rw [(Host.get?_deliver committed _).1, if_pos rfl] at after
    split at after
    · cases after
    · cases after
      rw [← inst]
      exact Token.counters_applied h.collaborators i e.before.calls fun _ _ _ same => by cases same

include closed own alone correlates

/-- A step outside the body is started with the count at zero. -/
theorem counter_outside (outside : d.covers k l = false) {i : Instance}
    (stored : Store.get? e.message.instanceId e.before.running = some i) :
    i.counter (d.control l).counter = 0 := by
  obtain ⟨earlier, later, split⟩ := List.append_of_mem member
  obtain ⟨_, s₀, run₀, queue, same⟩ := run.before split
  have recorded : s₀.approvals ⊆ s.approvals := by
    have kept := run.approvals_subset c member
    rwa [same] at kept
  rw [same] at stored
  by_contra counted
  obtain ⟨tok, here, message, within⟩ :=
    (run₀.encloses c closed own alone (correlates.anti recorded) _ i stored counted).queued e.message
      (by rw [queue]; exact List.mem_cons_self) rfl
  have there : (Spot.mk .main k x).In d := ⟨trivial, at?⟩
  obtain ⟨y, rfl, site⟩ := c.eq_start_of_name here there (by rw [message]; exact starts.symm)
  obtain ⟨main, step⟩ := Compiled.eq_main_of_site site
  have base : y.base? = some x.identifier := by rw [Spot.base?, main, step]
  have inside := (c.wellFormed.inBody_iff_covers own at?).mp ((Spot.within_iff base).mp within)
  rw [outside] at inside
  cases inside

end Host.Reaches

/-- In a closed run, with a loop that is sealed and has its counter for itself, a main-line step outside
the body is started with the count at zero. So the next turns of the loop count from zero, and a loop
whose condition does not hold is left in the turn that its bound counts and in none before. -/
theorem Host.Reaches.reentry {d : Definition} {settings : Settings} {h : Host}
    (compiles : d.compile settings = .ok h.table) {l : Loop} (own : l ∈ d.loops)
    (alone : d.CountsAlone l) (closed : d.Sealed l) {started : List Key} {past : List Delivery}
    {s : Session} (run : h.Reaches started past s) (correlates : s.Correlates) {e : Delivery}
    (member : e ∈ past) {k : Nat} {x : Step} (at? : d.steps[k]? = some x)
    (outside : d.covers k l = false) (starts : e.message.name = Name.startCommand x.identifier) :
    (∀ i, Store.get? e.message.instanceId e.before.running = some i →
        i.counter (d.control l).counter = 0)
      ∧ ∀ later s', h.Continues e.message.instanceId (h.deliver e.before e.message) later s' →
        ∀ front t rest, h.turnsOf (d.control l) e.message.instanceId later = front ++ t :: rest →
          (∀ t ∈ front, t.leaves = false) → t.count.toNat = front.length
            ∧ (t.Unmet h.collaborators →
              (t.leaves = true ↔ front.length + 1 = l.maxIterations.toNat)) := by
  have c := Definition.compiled_of_compile compiles
  have zero : ∀ i, Store.get? e.message.instanceId e.before.running = some i →
      i.counter (d.control l).counter = 0 := fun i =>
    run.counter_outside c closed own alone correlates member at? starts outside
  refine ⟨zero, fun later s' continued front t rest turns rounds => ?_⟩
  refine continued.counts_turns c own alone (fun j after => ?_) turns rounds
  cases before : Store.get? e.message.instanceId e.before.running with
  | none =>
    rw [Host.get?_deliver_of_none before] at after
    cases after
  | some i =>
    rw [Instance.counter, run.counter_start c member at? starts before after]
    exact zero i before

/-- A rehearsal, repeated until it is good, and all over again until the audience has had enough. -/
def Definition.encore : Definition where
  name := "Encore"
  steps := [.ofName "Rehearse", .ofName "Perform"]
  stateType := none
  loops := [⟨"Evening", "good", 2, "Rehearse", "Rehearse", some "Perform", none⟩]
  branches := [⟨"ByAudience", "Perform", ⟨"audience", "String", .computed, []⟩, some "Rehearse", none,
    [⟨.literal "enough", "Enough", [], true⟩, ⟨.otherwise, "Other", [], false⟩]⟩]
  approvals := []
  forks := []
  handlers := []

/-- A rehearsal that is never good ends with its second turn, on the second evening too. -/
theorem reentry_encore : ∃ (h : Host) (past : List Delivery) (s : Session) (l : Loop) (e : Delivery)
    (x : Step) (i : Instance) (first second : Turn) (rest : List Turn),
    Definition.encore.compile .default = .ok h.table ∧ l ∈ Definition.encore.loops
      ∧ Definition.encore.CountsAlone l ∧ Definition.encore.Sealed l
      ∧ h.Reaches [.number 1] past s ∧ s.Correlates ∧ e ∈ past
      ∧ Definition.encore.steps[1]? = some x ∧ Definition.encore.covers 1 l = false
      ∧ e.message.name = Name.startCommand x.identifier
      ∧ Store.get? e.message.instanceId e.before.running = some i
      ∧ i.counter (Definition.encore.control l).counter = 0
      ∧ h.turnsOf (Definition.encore.control l) e.message.instanceId
          (h.deliverUpTo 11 [] (h.deliver e.before e.message)).1 = first :: second :: rest
      ∧ first.count = 0 ∧ first.leaves = false ∧ second.count = 1 ∧ second.leaves = true := by
  let l : Loop := ⟨"Evening", "good", 2, "Rehearse", "Rehearse", some "Perform", none⟩
  obtain ⟨t, past, s, compiles, run, computed⟩ := Definition.exists_first (d := .encore)
    Host.tireless (fun _ => rfl) 7
    (fun h past s => Delivery.passes past 6 fun _ e _ =>
      e.message.name = Name.startCommand "Perform" ∧ s.approvals = []
        ∧ (Store.get? e.message.instanceId e.before.running).isSome = true
        ∧ (h.turnsOf (Definition.encore.control l) e.message.instanceId
          (h.deliverUpTo 11 [] (h.deliver e.before e.message)).1).map Turn.leaves = [false, true])
    (by decide +kernel)
  obtain ⟨before, e, after, rfl, passes⟩ := Delivery.exists_split computed
  obtain ⟨starts, unasked, there, leaves⟩ := of_decide_eq_true passes
  obtain ⟨i, stored⟩ := Option.isSome_iff_exists.mp there
  obtain ⟨first, later, turns, round, leaves⟩ := List.map_eq_cons_iff.mp leaves
  obtain ⟨second, rest, rfl, left, _⟩ := List.map_eq_cons_iff.mp leaves
  have own : l ∈ Definition.encore.loops := List.mem_cons_self
  have alone : Definition.encore.CountsAlone l := fun l' hl' _ => List.mem_singleton.mp hl'
  have closed : Definition.encore.Sealed l := {
    continuation := by
      intro inner declared inside
      obtain rfl := List.mem_singleton.mp declared
      exact absurd inside (by decide)
    rejoin := by
      intro b declared inside
      obtain rfl := List.mem_singleton.mp declared
      exact absurd inside (by decide)
    join := nofun }
  have member : e ∈ before ++ e :: after := by simp
  have outside : Definition.encore.covers 1 l = false := by decide
  obtain ⟨zero, visit⟩ := run.reentry compiles own alone closed (.of_approvals unasked) member
    (x := .ofName "Perform") rfl outside starts
  have continued : (Host.tireless t).Continues e.message.instanceId
      ((Host.tireless t).deliver e.before e.message) _ _ := Host.Continues.refl.deliverUpTo 11
  obtain ⟨none, _⟩ := visit _ _ continued [] first _ turns nofun
  obtain ⟨one, bound⟩ := visit _ _ continued [first] second _ turns (by simpa using round)
  exact ⟨.tireless t, _, s, l, e, .ofName "Perform", i, first, second, rest, compiles, own, alone,
    closed, run, .of_approvals unasked, member, rfl, outside, starts, stored, zero i stored, turns,
    UInt32.toNat_inj.mp none, round, UInt32.toNat_inj.mp one, (bound fun _ _ => rfl).mpr rfl⟩

/-- An essay, revised until a reader accepts it; but when the deadline is near it is published as it is,
and read again if there is an echo. -/
def Definition.essay : Definition where
  name := "Essay"
  steps := [.ofName "Revise", .ofName "Read", .ofName "Publish"]
  stateType := none
  loops := [⟨"Revision", "accepted", 3, "Revise", "Read", some "Publish", none⟩]
  branches := [⟨"ByDeadline", "Revise", ⟨"deadline", "String", .computed, []⟩, some "Publish",
      some "Revision", [⟨.literal "far", "Far", [], true⟩, ⟨.otherwise, "Near", [], false⟩]⟩,
    ⟨"ByEcho", "Publish", ⟨"echo", "String", .computed, []⟩, some "Read", none,
      [⟨.literal "silence", "Silence", [], true⟩, ⟨.otherwise, "Other", [], false⟩]⟩]
  approvals := []
  forks := []
  handlers := []

/-- Where a branch rejoins outside the body, the count is left behind: the essay is published a second
time with one revision counted, and what is left to the next ones is less than their bound. -/
theorem not_reentry_essay : ∃ (h : Host) (past : List Delivery) (s : Session) (l : Loop) (e : Delivery)
    (x : Step) (i : Instance),
    Definition.essay.compile .default = .ok h.table ∧ l ∈ Definition.essay.loops
      ∧ (Definition.essay.loops.map fun l => (Definition.essay.control l).counter).Nodup
      ∧ h.Reaches [.number 1] past s ∧ s.Correlates ∧ e ∈ past
      ∧ Definition.essay.steps[2]? = some x ∧ Definition.essay.covers 2 l = false
      ∧ e.message.name = Name.startCommand x.identifier
      ∧ Store.get? e.message.instanceId e.before.running = some i
      ∧ i.counter (Definition.essay.control l).counter = 1 ∧ l.maxIterations = 3
      ∧ (h.turnsOf (Definition.essay.control l) e.message.instanceId
          (h.deliverUpTo 14 [] (h.deliver e.before e.message)).1).map (fun t => (t.count, t.leaves))
        = [(1, false), (2, true)] := by
  let l : Loop := ⟨"Revision", "accepted", 3, "Revise", "Read", some "Publish", none⟩
  obtain ⟨h, past, s, compiles, run, computed⟩ := Definition.exists_run (d := .essay)
    Host.tireless (fun _ => rfl) 13
    (fun h past s => Delivery.passes past 12 fun _ e _ =>
      e.message.name = Name.startCommand "Publish" ∧ s.approvals = []
        ∧ (Store.get? e.message.instanceId e.before.running).any
          (fun i => i.counter (Definition.essay.control l).counter = 1) = true
        ∧ (h.turnsOf (Definition.essay.control l) e.message.instanceId
            (h.deliverUpTo 14 [] (h.deliver e.before e.message)).1).map (fun t => (t.count, t.leaves))
          = [(1, false), (2, true)])
    (by decide +kernel)
  obtain ⟨before, e, after, rfl, passes⟩ := Delivery.exists_split computed
  obtain ⟨starts, unasked, there, turns⟩ := of_decide_eq_true passes
  obtain ⟨i, stored, counted⟩ := (Option.any_eq_true _ _).mp there
  exact ⟨h, _, s, l, e, .ofName "Publish", i, compiles, List.mem_cons_self, by decide, run,
    .of_approvals unasked, by simp, rfl, by decide, starts, stored, of_decide_eq_true counted, rfl,
    turns⟩

end Workflow
