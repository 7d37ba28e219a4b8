import Workflow.Proofs.Definition.Bodies
import Workflow.Proofs.Host.Handling
import Workflow.Proofs.Host.Loops

/-!
Ways out of the body of a loop.

The control of a loop starts its count over where it leaves the loop, and nothing else does. But the
rejoin of a branch, the join of a fork and the continuation of a loop inside may each name a step
outside the body, and whoever takes such a way leaves the count behind. `Definition.Sealed` says that a
loop has none of them. Then a rule that starts inside the body and leaves the count above zero queues
only what comes back into the body: `Compiled.confines_applied`.
-/

set_option autoImplicit false

namespace Workflow

/-- Nothing leads out of the body of a loop but its own control. -/
structure Definition.Sealed (d : Definition) (l : Loop) : Prop where
  continuation : ∀ inner ∈ d.loops, d.isAncestor l inner = true →
    ∀ x, inner.continuation = some x → d.InBody l x
  rejoin : ∀ b ∈ d.branches, d.InBody l b.previousStep → ∀ k ∈ b.cases, k.isTerminal = false →
    ∀ x, b.rejoinStep = some x → d.InBody l x
  join : ∀ f ∈ d.forks, d.InBody l f.previousStep → d.InBody l f.joinStep

/-! ## What comes back into the body -/

/-- The main-line step that a position is at or hangs on. A recovery hangs on none: it is for whatever
failed. -/
def Spot.base? (x : Spot) : Option String :=
  match x.line with
  | .main => some x.step.identifier
  | .path b _ => some b.previousStep
  | .fork f _ => some f.previousStep
  | .escalation a _ => some a.gate.precedingStep
  | .rejection a _ => some a.gate.precedingStep
  | .recovery _ => none

/-- The phase is one of a position that is in the body or hangs on a step there. -/
def Definition.PhaseInBody (d : Definition) (l : Loop) (phase : String) : Prop :=
  ∃ y : Spot, y.In d ∧ y.phase d = phase ∧ ∃ step, y.base? = some step ∧ d.InBody l step

/-- The position is in the body, hangs on a step there, or is of a recovery for such a position. -/
def Spot.Within (d : Definition) (l : Loop) (failed : String) (x : Spot) : Prop :=
  match x.base? with
  | some step => d.InBody l step
  | none => d.PhaseInBody l failed

/-- Control comes back into the body, once the token is delivered. Signals carry no control. -/
def Token.Within (d : Definition) (l : Loop) (failed : String) : Token → Prop
  | .start x => x.Within d l failed
  | .work x _ => x.Within d l failed
  | .done x _ _ => x.Within d l failed
  | .trigger _ context => d.PhaseInBody l context.failedStep
  | .pending a _ _ => d.InBody l a.gate.precedingStep
  | .decided _ _ _ _ => True
  | .timedOut _ _ _ => True

/-- The same, of a signal that answers the open request of an instance. -/
def Token.Returns (d : Definition) (l : Loop) (i : Instance) : Token → Prop
  | .decided a _ c _ => i.pendingApproval = some c → d.InBody l a.gate.precedingStep
  | .timedOut a _ c => i.pendingApproval = some c → d.InBody l a.gate.precedingStep
  | tok => tok.Within d l i.failedStep

/-- The message is one of a token within. -/
def Message.Within (d : Definition) (l : Loop) (failed : String) (m : Message) : Prop :=
  ∃ tok : Token, tok.In d ∧ tok.message d m.instanceId = m ∧ tok.Within d l failed

/-- As long as the loop has counted, the rule queues only what comes back into the body. -/
def Host.Confines (h : Host) (d : Definition) (l : Loop) (a : Applied) : Prop :=
  ∀ es, a.result = .ok es → a.inst.counter (d.control l).counter ≠ 0 →
    ∀ e ∈ es, ∀ s, ∀ m ∈ h.posts s e, m.Within d l a.inst.failedStep

section Within

variable {d : Definition} {l : Loop} {failed : String}

/-- A token that comes back into the body has a message that does. -/
theorem Token.message_within {tok : Token} (here : tok.In d) (within : tok.Within d l failed)
    (id : Key) : (tok.message d id).Within d l failed :=
  ⟨tok, here, by rw [Token.message_instanceId], within⟩

/-- A position on a line that is not a recovery depends on no failure. -/
theorem Spot.within_iff {x : Spot} {step : String} (base : x.base? = some step) :
    x.Within d l failed ↔ d.InBody l step := by
  rw [Spot.Within, base]

/-- Where something has failed, recoveries of it are within. -/
theorem Token.Within.again {tok : Token} {failed' : String} (within : tok.Within d l failed)
    (again : d.PhaseInBody l failed') : tok.Within d l failed' := by
  have spot : ∀ x : Spot, x.Within d l failed → x.Within d l failed' := by
    intro x within
    unfold Spot.Within at within ⊢
    split
    next step base => rwa [base] at within
    next => exact again
  cases tok with
  | start x | work x _ | done x _ _ => exact spot x within
  | _ => exact within

/-- The failure of a position within is one of the body's. -/
theorem Spot.Within.phaseInBody {x : Spot} (here : x.In d) (within : x.Within d l failed) {g : Handler}
    (takes : x.handler? d = some g) : d.PhaseInBody l (x.phase d) := by
  cases base : x.base? with
  | some step => exact ⟨x, here, rfl, step, base, (Spot.within_iff base).mp within⟩
  | none =>
    rw [Spot.handler?] at takes
    unfold Spot.base? at base
    cases line : x.line with
    | recovery g' =>
      rw [line] at takes
      cases takes
    | _ =>
      rw [line] at base
      cases base

end Within

/-! ## What effects queue -/

/-- The phase of a position tells the names of its messages. -/
theorem Compiled.stem_eq_of_phase {d : Definition} {t : Table} (c : Compiled d t) {x y : Spot}
    (hx : x.In d) (hy : y.In d) (phase : x.phase d = y.phase d) : x.stem d = y.stem d := by
  have same := c.site_eq_of_phase (hx.site_mem c.wellFormed) (hy.site_mem c.wellFormed)
    (by rw [Spot.site_phase, Spot.site_phase, phase])
  simpa using congrArg Site.stem same

namespace Compiled

variable {d : Definition} {h : Host} (c : Compiled d h.table) {l : Loop}

include c

/-- What sends a token queues its message. -/
theorem posts_token {tok : Token} (here : tok.In d) (id : Key) (s : Session) :
    h.posts s (.send (tok.message d id)) = [tok.message d id] := by
  have kind := c.kindOf?_message here id
  simp only [Host.posts, kind]
  cases tok <;> rfl

/-- What asks for an approval queues the note that it is pending. -/
theorem posts_request {a g : Approval} (attached : a ∈ d.approvals) (link : g ∈ a.chain) (id : Key)
    (s : Session) : ∃ correlation, h.posts s (.send ⟨Name.approvalRequested g.gate.name, id,
      .approvalRequested g.gate.name g.gate.approverType⟩)
        = [(Token.pending a g correlation).message d id] := by
  have kind : h.table.kindOf? (Name.approvalRequested g.gate.name) = some .approvalRequested :=
    c.declares_gate attached link
      (m := ⟨Name.approvalRequested g.gate.name, .approvalRequested, g.gate.name⟩)
      (by simp [Entry.messages])
  refine ⟨h.correlator s.approvals id, ?_⟩
  simp only [Host.posts, kind]
  rfl

/-- A refusal is published and queues nothing. -/
theorem posts_refusal {x : Spot} (here : x.In d) (guarded : x.step.isGuarded = true) (id : Key)
    (body : Body) (s : Session) :
    h.posts s (.send ⟨Name.validationFailedEvent (x.stem d), id, body⟩) = [] := by
  obtain ⟨kind, _⟩ := c.dispatch_refusal s id here guarded body
  simp only [Host.posts, kind]

/-! ## Rules -/

/-- The tokens of a rule are queued. -/
theorem confines_tokens {toks : List Token} {j : Instance} {id : Key} {calls : List Call}
    (here : ∀ tok ∈ toks, tok.In d)
    (within : j.counter (d.control l).counter ≠ 0 → ∀ tok ∈ toks, tok.Within d l j.failedStep) :
    h.Confines d l ⟨j, calls, .ok (toks.map fun tok => .send (tok.message d id))⟩ := by
  intro es ok counted e he s m hm
  cases ok
  obtain ⟨tok, among, rfl⟩ := List.mem_map.mp he
  rw [c.posts_token (here tok among), List.mem_singleton] at hm
  subst hm
  exact Token.message_within (here tok among) (within counted tok among) id

/-- A rule that sends one token confines where the token comes back. -/
theorem confines_token {tok : Token} {j : Instance} {id : Key} {calls : List Call} (here : tok.In d)
    (within : j.counter (d.control l).counter ≠ 0 → tok.Within d l j.failedStep) :
    h.Confines d l ⟨j, calls, .ok [.send (tok.message d id)]⟩ := by
  have belongs : ∀ tok' ∈ [tok], tok'.In d := by simpa using here
  exact c.confines_tokens belongs fun counted => by simpa using within counted

omit c in
/-- So does a rule that sends nothing. -/
theorem confines_nothing {j : Instance} {calls : List Call} : h.Confines d l ⟨j, calls, .ok []⟩ := by
  intro es ok _ e he
  cases ok
  cases he

omit c in
theorem confines_error {j : Instance} {calls : List Call} {f : Fault} :
    h.Confines d l ⟨j, calls, .error f⟩ := by
  intro es ok
  cases ok

/-- Starting a position of the body stays within the body. -/
theorem confines_starting {i : Instance} {calls : List Call} {y : Spot} (here : y.In d)
    (within : i.counter (d.control l).counter ≠ 0 → y.Within d l i.failedStep) :
    h.Confines d l (i.starting calls (y.stem d)) := by
  have starts : (Token.start y).In d := here
  exact c.confines_token starts within

theorem confines_startingMain {i : Instance} {calls : List Call} {x : String} (known : x ∈ d.stepNames)
    (inside : i.counter (d.control l).counter ≠ 0 → d.InBody l x) :
    h.Confines d l (i.starting calls x) := by
  obtain ⟨k, y, at?, rfl⟩ := Definition.exists_step_of_mem_stepNames known
  exact c.confines_starting (y := ⟨.main, k, y⟩) ⟨trivial, at?⟩ inside

/-- A gate behind a step of the body hangs on that step. -/
theorem confines_requested {a g : Approval} (attached : a ∈ d.approvals) (link : g ∈ a.chain)
    {i : Instance} {calls : List Call}
    (inside : i.counter (d.control l).counter ≠ 0 → d.InBody l a.gate.precedingStep) :
    h.Confines d l (g.gate.requested i calls) := by
  intro es ok counted e he s m hm
  cases ok
  obtain rfl := List.mem_singleton.mp he
  obtain ⟨correlation, queued⟩ := c.posts_request attached link i.id s
  rw [queued, List.mem_singleton] at hm
  subst hm
  have here : (Token.pending a g correlation).In d := ⟨attached, link⟩
  exact Token.message_within here (inside counted) i.id

/-- A join within the body may be released. -/
theorem confines_report {f : Fork} (declared : f ∈ d.forks) (p : Nat) {i j : Instance}
    {calls : List Call} (inside : j.counter (d.control l).counter ≠ 0 → d.InBody l f.joinStep) :
    h.Confines d l ⟨j, calls, .ok [f.report p i]⟩ := by
  intro es ok counted e he s m hm
  cases ok
  obtain rfl := List.mem_singleton.mp he
  simp only [Fork.report, Host.posts] at hm
  split at hm
  · rw [List.mem_singleton] at hm
    subst hm
    obtain ⟨k, y, at?, name⟩ :=
      Definition.exists_step_of_mem_stepNames (c.wellFormed.fork_join f declared)
    have here : (Token.start ⟨.main, k, y⟩).In d := ⟨trivial, at?⟩
    have within : (Token.start ⟨.main, k, y⟩).Within d l j.failedStep := by
      have inside := inside counted
      rw [← name] at inside
      exact inside
    rw [← name]
    exact Token.message_within here within i.id
  · cases hm

variable (closed : d.Sealed l) (own : l ∈ d.loops)

include closed

/-- A sealed loop has no branch that rejoins outside its body. -/
theorem confines_rejoined {b : Branch} (hb : b ∈ d.branches) {k : Case} (hk : k ∈ b.cases)
    {i : Instance} {calls : List Call}
    (inside : i.counter (d.control l).counter ≠ 0 → d.InBody l b.previousStep) :
    h.Confines d l (b.rejoined k i calls) := by
  unfold Branch.rejoined
  split
  next step going rejoins =>
    exact c.confines_startingMain (c.wellFormed.branch_rejoin b hb step rejoins) fun counted =>
      closed.rejoin b hb (inside counted) k hk going step rejoins
  next => exact confines_nothing

/-- A case is taken within the body. -/
theorem confines_chosen {b : Branch} (hb : b ∈ d.branches) {i : Instance} {calls : List Call}
    (inside : i.counter (d.control l).counter ≠ 0 → d.InBody l b.previousStep) :
    h.Confines d l (b.chosen i calls) := by
  unfold Branch.chosen
  dsimp only
  split
  next => exact confines_error
  next k chosen =>
    have member := Branch.mem_cases_of_select? chosen
    split
    next first rest steps =>
      exact c.confines_starting (y := ⟨.path b k, 0, first⟩)
        ⟨⟨hb, member⟩, by simp [Line.steps, steps]⟩ inside
    next => exact c.confines_rejoined closed hb member inside

omit closed in
/-- The paths of a fork behind a step of the body hang on that step. -/
theorem confines_started {f : Fork} (declared : f ∈ d.forks) {i : Instance} {calls : List Call}
    (inside : i.counter (d.control l).counter ≠ 0 → d.InBody l f.previousStep) :
    h.Confines d l (f.started i calls) := by
  rw [Fork.started_eq d]
  refine c.confines_tokens (fun tok among => (Fork.starts_in declared among).1)
    fun counted tok among => ?_
  obtain ⟨p, _, head⟩ := List.mem_filterMap.mp among
  obtain ⟨first, _, rfl⟩ := Option.map_eq_some_iff.mp head
  exact inside counted

/-- A loop that is left leads on from its body, or to the loops around it. -/
theorem confines_loopLeft {l' : Loop} (here : l' ∈ d.loops) {i : Instance} {calls : List Call}
    {outward : Applied}
    (inside : i.counter (d.control l).counter ≠ 0 → d.isAncestor l l' = true)
    (outer : h.Confines d l outward) : h.Confines d l (match l'.continuation with
      | some step => i.starting calls step
      | none => outward) := by
  split
  next step leads =>
    exact c.confines_startingMain (c.wellFormed.loop_continuation l' here step leads) fun counted =>
      closed.continuation l' here (inside counted) step leads
  next => exact outer

/-- Of stacked loops, those inside stay in the body, the loop itself starts its count over or its body,
and those around it find the count at zero. -/
theorem confines_loopsEnded (alone : d.CountsAlone l) (cx : Collaborators) {loops : List Loop}
    (declared : ∀ l' ∈ loops, l' ∈ d.loops)
    (stacked : loops.Pairwise fun inner outer => d.isAncestor outer inner = true)
    {i : Instance} {calls : List Call} (inside : i.counter (d.control l).counter ≠ 0 →
      l ∈ loops ∨ ∀ l' ∈ loops, d.isAncestor l l' = true) :
    h.Confines d l (d.loopsEnded cx loops i calls) := by
  induction loops generalizing i calls with
  | nil => exact confines_nothing
  | cons l' outer ih =>
    obtain ⟨around, stacked⟩ := List.pairwise_cons.mp stacked
    have here := declared l' List.mem_cons_self
    have counts : ∀ n, (i.counting (d.control l').counter n).counter (d.control l).counter
        = if l' = l then n else i.counter (d.control l).counter := by
      intro n
      rw [Instance.counter_counting]
      by_cases same : l' = l
      · rw [if_pos same, if_pos (by rw [same])]
      · rw [if_neg same, if_neg fun shared => same (alone l' here shared)]
    -- a loop that has counted and is not the first lies around the first
    have first : i.counter (d.control l).counter ≠ 0 → l' ≠ l →
        d.isAncestor l l' = true ∧ (l ∈ outer ∨ ∀ o ∈ outer, d.isAncestor l o = true) := by
      intro counted apart
      rcases inside counted with among | all
      · have later := (List.mem_cons.mp among).resolve_left (Ne.symm apart)
        exact ⟨around l later, .inl later⟩
      · exact ⟨all l' List.mem_cons_self, .inr fun o ho => all o (List.mem_cons_of_mem _ ho)⟩
    -- what is left counts on only if it is not the loop itself
    have counting : (i.counting (d.control l').counter 0).counter (d.control l).counter ≠ 0 →
        d.isAncestor l l' = true ∧ (l ∈ outer ∨ ∀ o ∈ outer, d.isAncestor l o = true) := by
      rw [counts]
      split
      next => exact fun counted => absurd rfl counted
      next apart => exact fun counted => first counted apart
    have within := fun counted => (counting counted).1
    have outward : ∀ calls,
        h.Confines d l (d.loopsEnded cx outer (i.counting (d.control l').counter 0) calls) :=
      fun _ => ih (fun o ho => declared o (List.mem_cons_of_mem _ ho)) stacked fun counted =>
        (counting counted).2
    simp only [Definition.loopsEnded]
    split
    · exact c.confines_loopLeft closed here within (outward calls)
    · split
      · exact c.confines_loopLeft closed here within (outward _)
      · refine c.confines_startingMain (c.wellFormed.loop_first l' here) ?_
        change (i.counting (d.control l').counter _).counter _ ≠ 0 → _
        rw [counts]
        split
        next same => exact fun _ => same ▸ c.wellFormed.inBody_firstStep here
        next apart =>
          exact fun counted => c.wellFormed.inBody_of_isAncestor here (first counted apart).1

include own

omit closed in
/-- An approval leads to the step after the one it hangs on, which is not the last of the body. -/
theorem confines_approved {a : Approval} (attached : a ∈ d.approvals) (g : Approval) {i : Instance}
    {calls : List Call}
    (inside : i.counter (d.control l).counter ≠ 0 → d.InBody l a.gate.precedingStep) :
    h.Confines d l (d.lineEnded (.escalation a g) i calls) := by
  simp only [Definition.lineEnded]
  split
  next y next? =>
    refine c.confines_startingMain (Definition.WellFormed.mem_stepNames_of_successor? next?)
      fun counted => c.wellFormed.inBody_successor? own next? (inside counted) fun last => ?_
    exact absurd (c.wellFormed.attached_once (last ▸ Definition.attached_approval attached)
      (Definition.attached_loop own)) (by decide)
  next => exact confines_nothing

/-- The end of a line that hangs on a step of the body comes back into the body. -/
theorem confines_lineEnded {x : Spot} (here : x.In d) (off : x.line ≠ .main) {i : Instance}
    {calls : List Call} (within : i.counter (d.control l).counter ≠ 0 → x.Within d l i.failedStep) :
    h.Confines d l (d.lineEnded x.line i calls) := by
  obtain ⟨line, k, x⟩ := x
  have belongs : line.In d := here.1
  cases line with
  | main => exact absurd rfl off
  | path b k => exact c.confines_rejoined closed belongs.1 belongs.2 within
  | fork f p => exact c.confines_report belongs p fun counted => closed.join f belongs (within counted)
  | escalation a g => exact c.confines_approved own belongs.1 g within
  | rejection a g => exact confines_nothing
  | recovery g =>
    simp only [Definition.lineEnded]
    split
    · exact confines_nothing
    · split
      next stem found =>
        obtain ⟨y, here, phase, _, rfl⟩ := Definition.exists_spot_of_resumption? found
        by_cases counted : i.counter (d.control l).counter ≠ 0
        · obtain ⟨y', here', phase', step, base, inside⟩ := within counted
          have same : y'.stem d = y.stem d := c.stem_eq_of_phase here' here (phase'.trans phase.symm)
          rw [← same]
          exact c.confines_starting here' fun _ => (Spot.within_iff base).mpr inside
        · exact c.confines_starting here fun again => absurd again counted
      next => exact confines_error

variable (alone : d.CountsAlone l)

include alone

/-- So does what follows a step, except where the loop is left: then its count is zero. -/
theorem confines_succeeded (cx : Collaborators) {x : Spot} (here : x.In d) {i : Instance}
    {calls : List Call} (within : i.counter (d.control l).counter ≠ 0 → x.Within d l i.failedStep) :
    h.Confines d l (d.succeeded cx x.line x.index x.step i calls) := by
  obtain ⟨line, k, x⟩ := x
  by_cases main : line = .main
  · subst main
    have at? : d.steps[k]? = some x := here.2
    have known : x.identifier ∈ d.stepNames := List.mem_map_of_mem (List.mem_of_getElem? at?)
    have after := c.wellFormed.succeeded_main cx k x i calls
    generalize d.succeeded cx .main k x i calls = r at after ⊢
    cases after with
    | loops =>
      exact c.confines_loopsEnded closed alone cx
        (fun _ => Definition.mem_loops_of_mem_loopsEndingAt)
        (c.wellFormed.pairwise_loopsEndingAt x.identifier)
        fun counted => c.wellFormed.mem_or_inside own known (within counted)
    | branch b hb after => exact c.confines_chosen closed hb fun counted => after ▸ within counted
    | approval a attached after =>
      exact c.confines_requested attached a.mem_chain_self fun counted => after ▸ within counted
    | fork f declared after => exact c.confines_started declared fun counted => after ▸ within counted
    | next last free y next? =>
      refine c.confines_starting (y := ⟨.main, k + 1, y⟩) ⟨trivial, next?⟩ fun counted =>
        c.wellFormed.inBody_next own at? next? (within counted) fun ends => ?_
      have among := Definition.mem_loopsEndingAt_iff.mpr ⟨own, ends.symm⟩
      rw [last] at among
      cases among
    | complete => exact confines_nothing
  · dsimp only
    rw [d.succeeded_beside cx main]
    split
    next y next? =>
      refine c.confines_starting (y := ⟨line, k + 1, y⟩) ⟨here.1, next?⟩ fun counted => ?_
      have within := within counted
      cases line <;> first | exact within | exact absurd rfl main
    next => exact c.confines_lineEnded closed own (x := ⟨line, k, x⟩) here main within

omit alone own in
/-- A failure goes to a recovery, which comes back where the failed step is, or to the join of its
fork. -/
theorem confines_failed (failure : StepFailure) {x : Spot} (here : x.In d) {i : Instance}
    {calls : List Call} (within : i.counter (d.control l).counter ≠ 0 → x.Within d l i.failedStep) :
    h.Confines d l (d.failed x.line x.step failure i calls) := by
  cases takes : x.handler? d with
  | some g =>
    have triggered : (Token.trigger g (.capture (x.phase d) failure)).In d := Spot.handler_mem takes
    intro es ok counted e he s m hm
    have inst : (d.failed x.line x.step failure i calls).inst = { i with phase := Name.failed } := by
      rw [Spot.handler?] at takes
      simp only [Definition.failed, takes]
    rw [inst] at counted ⊢
    have effects : e ∈ x.line.cancellation
        ∨ e = .send ((Token.trigger g (.capture (x.phase d) failure)).message d i.id) := by
      rw [Spot.handler?] at takes
      simp only [Definition.failed, takes, Except.ok.injEq] at ok
      subst ok
      rcases List.mem_append.mp he with cancels | sends
      · exact .inl (by cases line : x.line <;> rw [line] at cancels <;> exact cancels)
      · exact .inr (List.mem_singleton.mp sends)
    rcases effects with cancels | rfl
    · rcases cancellation_cases x.line with none | ⟨f, p, _, _, cancels'⟩
      · rw [none] at cancels
        cases cancels
      · rw [cancels', List.mem_singleton] at cancels
        subst cancels
        cases hm
    · rw [c.posts_token triggered, List.mem_singleton] at hm
      subst hm
      exact Token.message_within triggered ((within counted).phaseInBody here takes) i.id
  | none =>
    rw [Spot.handler?] at takes
    simp only [Definition.failed, takes]
    cases line : x.line with
    | fork f p =>
      have declared := Spot.fork_mem here line
      have base : x.base? = some f.previousStep := by simp [Spot.base?, line]
      dsimp only
      split
      next failFast =>
        intro es ok _ e he s m hm
        simp only [Except.ok.injEq] at ok
        subst ok
        rw [List.mem_singleton] at he
        subst he
        cases hm
      next =>
        exact c.confines_report declared p fun counted =>
          closed.join f declared ((Spot.within_iff base).mp (within counted))
    | _ => exact confines_error

omit closed alone own in
theorem confines_refused {a g : Approval} (attached : a ∈ d.approvals) (link : g ∈ a.chain)
    {i : Instance} {calls : List Call}
    (inside : i.counter (d.control l).counter ≠ 0 → d.InBody l a.gate.precedingStep) :
    h.Confines d l (g.gate.refused i calls) := by
  unfold Gate.refused
  split
  next first rest steps =>
    exact c.confines_starting (y := ⟨.rejection a g, 0, first⟩)
      ⟨⟨attached, link⟩, by simp [Line.steps, steps]⟩ inside
  next => exact confines_nothing

omit closed alone own in
theorem confines_escalated {a g : Approval} (attached : a ∈ d.approvals) (link : g ∈ a.chain)
    {i : Instance} {calls : List Call}
    (inside : i.counter (d.control l).counter ≠ 0 → d.InBody l a.gate.precedingStep) :
    h.Confines d l (g.escalated i calls) := by
  cases g with
  | failing g => exact confines_nothing
  | running g steps =>
    cases steps with
    | nil => exact confines_nothing
    | cons first rest =>
      exact c.confines_starting (y := ⟨.escalation a (.running g (first :: rest)), 0, first⟩)
        ⟨⟨attached, link⟩, rfl⟩ inside
  | asking g next => exact c.confines_requested attached (Approval.next_mem_chain link) inside

omit closed alone own in
/-- Work reports back to where it was started. -/
theorem confines_begun {x : Spot} (here : x.In d) {i : Instance} {calls : List Call}
    (within : i.counter (d.control l).counter ≠ 0 → x.Within d l i.failedStep) :
    h.Confines d l (x.started d h.collaborators i calls) := by
  have working : ∀ calls, h.Confines d l ⟨{ i with phase := x.phase d }, calls,
      .ok [.send ((Token.work x i.state).message d i.id)]⟩ := by
    intro calls
    have works : (Token.work x i.state).In d := here
    exact c.confines_token works within
  unfold Spot.started
  split
  next => exact working calls
  next g guard =>
    have guarded : x.step.isGuarded = true := by simp [Step.isGuarded, guard]
    dsimp only
    split
    · exact working _
    · intro es ok _ e he s m hm
      cases ok
      obtain rfl := List.mem_singleton.mp he
      rw [c.posts_refusal here guarded] at hm
      cases hm

/-- What a token does to an instance that has counted stays in the body, if the token does. -/
theorem confines_applied {tok : Token} (here : tok.In d) (i : Instance) (calls : List Call)
    (returns : i.counter (d.control l).counter ≠ 0 → tok.Returns d l i) :
    h.Confines d l (tok.applied d h.collaborators i calls) := by
  cases tok with
  | start x => exact c.confines_begun here returns
  | work x state => exact confines_nothing
  | done x update failure =>
    simp only [Token.applied, Definition.completed]
    cases failure with
    | some failure => exact c.confines_failed closed failure here returns
    | none => exact c.confines_succeeded closed own alone _ here returns
  | trigger g context =>
    simp only [Token.applied]
    split
    next first rest steps =>
      exact c.confines_starting (i := { i with failureContext := some context })
        (y := ⟨.recovery g, 0, first⟩) ⟨here, by simp [Line.steps, steps]⟩ returns
    next => exact confines_nothing
  | pending a g correlation => exact confines_nothing
  | decided a g correlation decision =>
    simp only [Token.applied]
    split
    next asked =>
      have inside := fun counted => returns counted asked
      cases decision with
      | approved => exact c.confines_approved own here.1 g inside
      | rejected => exact c.confines_refused here.1 here.2 inside
      | deferred => exact confines_nothing
    next => exact confines_nothing
  | timedOut a g correlation =>
    simp only [Token.applied]
    split
    next asked => exact c.confines_escalated here.1 here.2 fun counted => returns counted asked
    next => exact confines_nothing

end Compiled

end Workflow
