import Workflow.Proofs.Definition.Bodies
import Workflow.Proofs.Definition.Reordering
import Workflow.Proofs.Host.Token
import Workflow.Proofs.Table.Requests

/-!
Approvals that escalate.

When nobody answers, an approval may ask for another one, and that one for another again, to any depth.
What a link runs when it is refused or not answered is its own. Where control goes once it is given is not:
that is the step after the one the outermost gate follows, and the steps that the gates inside say they
follow play no part. `Table.AtLink` is what a table does at one link; `escalation_returns` says that it does
so at every link, that the links are taken one after another, and that each is in the table once.

Failures in the steps that a link runs are not spoken of; they go where all failures go.
-/

set_option autoImplicit false

namespace Workflow

/-! ## What is said of a table -/

/-- What a table does with a message; nothing where it has no transition for it. -/
def Table.answer? (t : Table) (cx : Collaborators) (calls : List Call) (i : Instance) (m : Message) :
    Option Applied :=
  (t.transitionFor? m.name).map fun tr => tr.apply cx calls i m

/-- What becomes of an instance along messages, and everything that is sent on the way; nothing where a
message is without a transition or is a fault. -/
def Table.replay (t : Table) (cx : Collaborators) :
    List Message → List Call → Instance → Option (Instance × List Call × List Effect)
  | [], calls, i => some (i, calls, [])
  | m :: rest, calls, i =>
    match t.answer? cx calls i m with
    | some ⟨i, calls, .ok effects⟩ =>
      (t.replay cx rest calls i).map fun (i, calls, more) => (i, calls, effects ++ more)
    | _ => none

/-- After a step of a chain: on to the next one, and from the last one to where the chain leads. -/
def Instance.following (i : Instance) (calls : List Call) (phase : String → String)
    (next : Option Step) (ended : Applied) : Applied :=
  match next with
  | some y => i.starting calls (phase y.identifier)
  | none => ended

/-- On from a position of the main line, and from the last one to the end of the process. -/
def Definition.onwardFrom (d : Definition) (k : Nat) (i : Instance) (calls : List Call) : Applied :=
  i.following calls id d.steps[k + 1]? (i.finishing calls Name.completed)

/-- The request is settled by a decision. -/
def Instance.decided (i : Instance) (decision : Decision) : Instance :=
  { i with lastDecision := some decision, pendingApproval := none }

/-- An instance that waits at a gate, its request not yet acknowledged. -/
def Gate.parked (g : Gate) (i : Instance) : Instance :=
  { i with phase := Name.awaitPhase g.name, pendingApproval := none }

/-- The request for an instance. -/
def Gate.requestFor (g : Gate) (id : Key) : Effect :=
  .send ⟨Name.approvalRequested g.name, id, .approvalRequested g.name g.approverType⟩

/-- The messages an instance consumes at a gate. -/
def Gate.signals (g : Gate) : List String :=
  [Name.approvalPending g.name, Name.approvalDecided g.name, Name.approvalTimedOut g.name]

/-- A request is acknowledged, and nobody answers it. -/
def Approval.unanswered (keys : Approval → Key) (id : Key) (g : Approval) : List Message :=
  [⟨Name.approvalPending g.gate.name, id, .approvalPending (keys g)⟩,
    ⟨Name.approvalTimedOut g.gate.name, id, .approvalTimedOut (keys g)⟩]

/-- What a table does at a link of an approval that hangs on a position of the main line. -/
structure Table.AtLink (t : Table) (d : Definition) (k : Nat) (g : Approval) : Prop where
  acknowledged : ∀ cx calls i id correlation,
    t.answer? cx calls i ⟨Name.approvalPending g.gate.name, id, .approvalPending correlation⟩
      = some ⟨{ i with pendingApproval := some correlation }, calls, .ok []⟩
  approved : ∀ cx calls i id correlation, i.pendingApproval = some correlation →
    t.answer? cx calls i
        ⟨Name.approvalDecided g.gate.name, id, .approvalDecided correlation .approved⟩
      = some (d.onwardFrom k (i.decided .approved) calls)
  /-- The first of the steps for a refusal, and the failure of the process where there is none. -/
  rejected : ∀ cx calls i id correlation, i.pendingApproval = some correlation →
    t.answer? cx calls i
        ⟨Name.approvalDecided g.gate.name, id, .approvalDecided correlation .rejected⟩
      = some ((i.decided .rejected).following calls (Name.rejectionPhase g.gate.name)
          g.gate.rejectionSteps.head? ((i.decided .rejected).finishing calls Name.failed))
  /-- The first of the steps for a timeout, or the request of the next link, or failure. -/
  timedOut : ∀ cx calls i id correlation, i.pendingApproval = some correlation →
    t.answer? cx calls i
        ⟨Name.approvalTimedOut g.gate.name, id, .approvalTimedOut correlation⟩
      = some (match g.next? with
        | some next => ⟨next.gate.parked i, calls, .ok [next.gate.requestFor i.id]⟩
        | none =>
          let cleared := { i with pendingApproval := none }
          cleared.following calls (Name.escalationPhase g.gate.name) g.escalationSteps.head?
            (cleared.finishing calls Name.failed))
  /-- The steps for a timeout end where an approval leads. -/
  escalation : ∀ j x, g.escalationSteps[j]? = some x → ∀ cx calls i id update,
    let merged : Instance := { i with state := cx.reduce i.state update }
    t.answer? cx calls i ⟨Name.completedEvent (Name.escalationPhase g.gate.name x.identifier), id,
        .completed update none⟩
      = some (merged.following calls (Name.escalationPhase g.gate.name) g.escalationSteps[j + 1]?
          (d.onwardFrom k merged calls))
  /-- The steps for a refusal end the process. -/
  rejection : ∀ j x, g.gate.rejectionSteps[j]? = some x → ∀ cx calls i id update,
    let merged : Instance := { i with state := cx.reduce i.state update }
    t.answer? cx calls i ⟨Name.completedEvent (Name.rejectionPhase g.gate.name x.identifier), id,
        .completed update none⟩
      = some (merged.following calls (Name.rejectionPhase g.gate.name) g.gate.rejectionSteps[j + 1]?
          (merged.finishing calls Name.completed))
  /-- A link with steps for a timeout asks nobody else. -/
  exclusive : g.next? = none ∨ g.escalationSteps = []

/-- A gate is in the table once, and asked for in one place. -/
structure Table.HoldsOnce (t : Table) (g : Gate) : Prop where
  requests : t.requests.count (Name.approvalRequested g.name) = 1
  phase : t.phases.count (Name.awaitPhase g.name) = 1
  messages : ∀ name ∈ Name.approvalRequested g.name :: g.signals,
    (t.messages.map MessageEntry.name).count name = 1
  transitions : ∀ name ∈ g.signals, (t.transitions.map Transition.trigger).count name = 1

/-- What a table does with an approval that hangs on a position of the main line. -/
structure Table.Escalates (t : Table) (d : Definition) (k : Nat) (a : Approval) : Prop where
  requested : ∀ cx calls i id update,
    t.answer? cx calls i ⟨Name.completedEvent a.gate.precedingStep, id, .completed update none⟩
      = some (a.gate.requested { i with state := cx.reduce i.state update } calls)
  atLink : ∀ g ∈ a.chain, t.AtLink d k g
  nested : ∀ n g, a.chain[n]? = some g → a.chain[n + 1]? = g.next?
  /-- While nobody answers, the links are requested one after another, each of them once. -/
  walked : ∀ keys cx calls i id n g, a.chain[n + 1]? = some g →
    t.replay cx ((a.chain.take (n + 1)).flatMap (Approval.unanswered keys id)) calls i
      = some (g.gate.parked i, calls, (a.chain.tail.take (n + 1)).map (·.gate.requestFor i.id))
  distinct : (d.approvals.flatMap Approval.gateNames).Nodup
  once : ∀ g ∈ a.chain, t.HoldsOnce g.gate

/-! ## Links -/

namespace Approval

theorem chain_eq_cons (a : Approval) : a.chain = a :: a.chain.tail := by
  cases a <;> rfl

/-- Links follow each other as they are nested. -/
theorem getElem?_chain_succ (a : Approval) {n : Nat} {g : Approval} (at? : a.chain[n]? = some g) :
    a.chain[n + 1]? = g.next? := by
  induction a generalizing n with
  | failing _ | running _ _ =>
    cases n with
    | zero =>
      cases at?
      rfl
    | succ n => cases at?
  | asking gate next ih =>
    cases n with
    | zero =>
      cases at?
      rw [chain, List.getElem?_cons_succ, chain_eq_cons]
      rfl
    | succ n => exact ih at?

theorem next?_eq_none_or (a : Approval) : a.next? = none ∨ a.escalationSteps = [] := by
  cases a with
  | asking gate next => exact .inr rfl
  | _ => exact .inl rfl

end Approval

theorem Table.replay_cons {t : Table} {cx : Collaborators} {m : Message} {rest : List Message}
    {calls calls' : List Call} {i i' : Instance} {effects : List Effect}
    (answered : t.answer? cx calls i m = some ⟨i', calls', .ok effects⟩) :
    t.replay cx (m :: rest) calls i
      = (t.replay cx rest calls' i').map fun (i, calls, more) => (i, calls, effects ++ more) := by
  simp only [replay, answered]

section Walk

variable {t : Table} {d : Definition} {k : Nat} (keys : Approval → Key) (cx : Collaborators)
  (calls : List Call) (i : Instance) (id : Key)

/-- A request that nobody answers becomes the request of the next link. -/
theorem Table.AtLink.replay_unanswered {g next : Approval} (link : t.AtLink d k g)
    (next? : g.next? = some next) (rest : List Message) :
    t.replay cx (g.unanswered keys id ++ rest) calls i
      = (t.replay cx rest calls (next.gate.parked i)).map fun (i', calls, more) =>
        (i', calls, next.gate.requestFor i.id :: more) := by
  have waits := link.acknowledged cx calls i id (keys g)
  have asks := link.timedOut cx calls { i with pendingApproval := some (keys g) } id (keys g) rfl
  rw [next?] at asks
  simp only [Approval.unanswered, List.cons_append, List.nil_append]
  rw [Table.replay_cons waits, Table.replay_cons asks, Option.map_map]
  rfl

/-- While nobody answers, an approval asks for its links in turn. -/
theorem Approval.replay_unanswered {a : Approval} (links : ∀ g ∈ a.chain, t.AtLink d k g) {n : Nat}
    {g : Approval} (at? : a.chain[n + 1]? = some g) :
    t.replay cx ((a.chain.take (n + 1)).flatMap (unanswered keys id)) calls i
      = some (g.gate.parked i, calls, (a.chain.tail.take (n + 1)).map (·.gate.requestFor i.id)) := by
  induction a generalizing n i with
  | failing _ | running _ _ => cases at?
  | asking gate next ih =>
    have here := links _ (mem_chain_self _)
    have tail : (asking gate next).chain.tail = next :: next.chain.tail := next.chain_eq_cons
    rw [tail, List.take_succ_cons, List.map_cons, chain, List.take_succ_cons, List.flatMap_cons,
      here.replay_unanswered keys cx calls i id rfl]
    cases n with
    | zero =>
      have only : next = g := by
        rw [chain, List.getElem?_cons_succ, chain_eq_cons] at at?
        exact Option.some.inj at?
      subst only
      rfl
    | succ n =>
      rw [ih (next.gate.parked i) (fun g member => links g (List.mem_cons_of_mem _ member)) at?]
      rfl

end Walk

/-! ## What compilation gives -/

namespace Compiled

variable {d : Definition} {t : Table} (c : Compiled d t)

include c

/-- A table does with the message of a token what the token is for. -/
theorem answer?_message (tok : Token) (here : tok.In d) (consumed : tok.kind ≠ .executeWorker)
    (cx : Collaborators) (calls : List Call) (i : Instance) (id : Key) :
    t.answer? cx calls i (tok.message d id) = some (tok.applied d cx i calls) := by
  obtain ⟨tr, found, applied⟩ := c.exists_transition here consumed id
  rw [Table.answer?, found, Option.map_some, applied]

variable {a : Approval} {k : Nat} {x : Step}

theorem holdsOnce (distinct : (d.approvals.flatMap Approval.gateNames).Nodup)
    (attached : a ∈ d.approvals) {g : Approval} (link : g ∈ a.chain) : t.HoldsOnce g.gate := by
  have planned := c.wellFormed.mem_plan_iff.mpr (.gate attached link)
  refine ⟨?_, ?_, fun name member => ?_, fun name member => ?_⟩
  · rw [c.requests_perm.count_eq]
    refine List.count_eq_one_of_mem (Approval.requests_nodup distinct) ?_
    exact List.mem_flatMap.mpr ⟨a, attached, List.mem_map_of_mem (List.mem_map_of_mem link)⟩
  · rw [c.phases_eq]
    refine List.count_eq_one_of_mem c.phases_distinct (List.mem_cons_of_mem _ ?_)
    exact List.mem_append_left _ (List.mem_flatMap.mpr ⟨_, planned, List.mem_singleton_self _⟩)
  · rw [c.messages_eq]
    refine List.count_eq_one_of_mem c.messages_distinct ?_
    have declared : name ∈ (Entry.approval g (d.approved a)).messages.map MessageEntry.name := by
      simpa [Entry.messages, Gate.signals] using member
    obtain ⟨m, hm, rfl⟩ := List.mem_map.mp declared
    exact List.mem_map_of_mem (Definition.mem_messages_of_plan planned hm)
  · refine List.count_eq_one_of_mem c.triggers_distinct ?_
    have triggers : (g.transitions (d.approved a)).map Transition.trigger = g.gate.signals := rfl
    rw [← triggers] at member
    obtain ⟨tr, listed, rfl⟩ := List.mem_map.mp member
    exact List.mem_map_of_mem (c.mem_transitions_iff.mpr ⟨_, planned, _, rfl, listed⟩)

variable (at? : d.steps[k]? = some x) (after : a.gate.precedingStep = x.identifier)

include at? after

/-- The end of an escalation and an approval lead on from the step the outermost gate follows. -/
theorem lineEnded_escalation (g : Approval) (i : Instance) (calls : List Call) :
    d.lineEnded (.escalation a g) i calls = d.onwardFrom k i calls := by
  simp only [Definition.lineEnded, after, c.wellFormed.successor?_eq at?, Definition.onwardFrom,
    Instance.following]
  rfl

theorem atLink (attached : a ∈ d.approvals) {g : Approval} (link : g ∈ a.chain) : t.AtLink d k g where
  acknowledged cx calls i id correlation :=
    c.answer?_message (.pending a g correlation) ⟨attached, link⟩ (by simp [Token.kind]) cx calls i id
  approved cx calls i id correlation waiting := by
    refine (c.answer?_message (.decided a g correlation .approved) ⟨attached, link⟩
      (by simp [Token.kind]) cx calls i id).trans ?_
    simp only [Token.applied, waiting, ↓reduceIte, Approval.settled,
      c.lineEnded_escalation at? after]
    rfl
  rejected cx calls i id correlation waiting := by
    refine (c.answer?_message (.decided a g correlation .rejected) ⟨attached, link⟩
      (by simp [Token.kind]) cx calls i id).trans ?_
    simp only [Token.applied, waiting, ↓reduceIte, Approval.settled, Gate.refused]
    cases g.gate.rejectionSteps <;> rfl
  timedOut cx calls i id correlation waiting := by
    refine (c.answer?_message (.timedOut a g correlation) ⟨attached, link⟩
      (by simp [Token.kind]) cx calls i id).trans ?_
    simp only [Token.applied, waiting, ↓reduceIte]
    cases g with
    | failing gate => rfl
    | running gate steps => cases steps <;> rfl
    | asking gate next => rfl
  escalation j x step cx calls i id update := by
    refine (c.answer?_message (.done ⟨.escalation a g, j, x⟩ update none)
      ⟨⟨attached, link⟩, step⟩ (by simp [Token.kind]) cx calls i id).trans ?_
    simp only [Token.applied, Definition.completed, Definition.succeeded,
      c.lineEnded_escalation at? after]
    rfl
  rejection j x step cx calls i id update :=
    c.answer?_message (.done ⟨.rejection a g, j, x⟩ update none)
      ⟨⟨attached, link⟩, step⟩ (by simp [Token.kind]) cx calls i id
  exclusive := g.next?_eq_none_or

end Compiled

/-- However deep an approval escalates, it returns to one place. -/
theorem escalation_returns {d : Definition} {s : Settings} {t : Table} (h : d.compile s = .ok t)
    {a : Approval} (attached : a ∈ d.approvals) {k : Nat} {x : Step} (at? : d.steps[k]? = some x)
    (after : a.gate.precedingStep = x.identifier) : t.Escalates d k a := by
  have c := Definition.compiled_of_compile h
  have distinct := Definition.gateNames_nodup_of_defect?_eq_none (Definition.defect?_of_compile h)
  have links := fun g (link : g ∈ a.chain) => c.atLink at? after attached link
  exact {
    requested := fun cx calls i id update => by
      have applied := c.answer?_message (.done ⟨.main, k, x⟩ update none) ⟨trivial, at?⟩
        (by simp [Token.kind]) cx calls i id
      rw [Token.applied, Definition.completed, c.wellFormed.succeeded_approval attached after.symm]
        at applied
      exact after ▸ applied
    atLink := links
    nested := fun n g => a.getElem?_chain_succ
    walked := fun keys cx calls i id n g => Approval.replay_unanswered keys cx calls i id links
    distinct
    once := fun g => c.holdsOnce distinct attached }

/-! ## One process -/

/-- A grant: a panel, then the dean, then the board, of which the last two say that they follow other
steps. -/
def Definition.grant : Definition where
  name := "Grant"
  steps := [.ofName "Apply", .ofName "Check", .ofName "Pay"]
  stateType := none
  loops := []
  branches := []
  approvals := [.asking ⟨"Panel", "panel", "Check", [.ofName "Revise"]⟩
    (.asking ⟨"Dean", "dean", "Pay", []⟩
      (.running ⟨"Board", "board", "Apply", [.ofName "Regret"]⟩ [.ofName "Remind", .ofName "Settle"]))]
  forks := []
  handlers := []

/-- The board is asked when neither the panel nor the dean answers, and pays where the panel would. -/
theorem escalation_returns_grant : ∃ t, Definition.grant.compile .default = .ok t
    ∧ let cx : Collaborators := ⟨fun _ update => update, fun _ _ _ => true⟩
      let i := Instance.fresh t (.number 7) .null
      t.replay cx [⟨"PanelApprovalPending", .number 7, .approvalPending (.number 3)⟩,
          ⟨"PanelApprovalTimedOut", .number 7, .approvalTimedOut (.number 3)⟩,
          ⟨"DeanApprovalPending", .number 7, .approvalPending (.number 3)⟩,
          ⟨"DeanApprovalTimedOut", .number 7, .approvalTimedOut (.number 3)⟩] [] i
        = some ({ i with phase := "AwaitApproval_Board" }, [],
          [.send ⟨"DeanApprovalRequested", .number 7, .approvalRequested "Dean" "dean"⟩,
            .send ⟨"BoardApprovalRequested", .number 7, .approvalRequested "Board" "board"⟩])
      ∧ t.answer? cx [] { i with pendingApproval := some (.number 3) }
          ⟨"BoardApprovalDecided", .number 7, .approvalDecided (.number 3) .approved⟩
        = some ⟨{ i with lastDecision := some .approved }, [],
          .ok [.send ⟨"StartPayCommand", .number 7, .empty⟩]⟩ := by
  obtain ⟨t, ht, -⟩ := Definition.grant.exists_table .default (fun _ => true) (by decide +kernel)
  have escalates := escalation_returns ht (List.mem_singleton_self _) (k := 1) rfl rfl
  let cx : Collaborators := ⟨fun _ update => update, fun _ _ _ => true⟩
  let i := Instance.fresh t (.number 7) .null
  refine ⟨t, ht, escalates.walked (fun _ => .number 3) cx [] i (.number 7) 1 _ rfl, ?_⟩
  exact (escalates.atLink _ (List.mem_of_getElem? (i := 2) rfl)).approved cx []
    { i with pendingApproval := some (.number 3) } (.number 7) (.number 3) rfl

end Workflow
