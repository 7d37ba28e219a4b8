import Workflow.Proofs.Machine.Completion
import Workflow.Proofs.Table.Closed

/-!
Where a table asks for an approval.

A request is made at the end of the step before an approval, or when a gate of one is not answered in time,
and nowhere else: `Compiled.requests_perm` says that the transitions of a table ask for every gate of the
definition once. The gates of one approval are asked for by the entries that its step brings into the plan,
in the order they are nested.
-/

set_option autoImplicit false

namespace Workflow

/-! ## The requests of an action -/

/-- The events by which a continuation may ask for an approval. -/
def Continuation.requests : Continuation → List String
  | .requestApproval q => [q.event]
  | .loop _ exit => exit.requests
  | _ => []

/-- The events by which an action may. -/
def Action.requests (a : Action) : List String :=
  a.continuations.flatMap Continuation.requests

/-- The events by which a transition may. -/
def Transition.requests (tr : Transition) : List String :=
  tr.body.flatMap Action.requests

/-- The events by which a table may ask for an approval, each as often as it is there. -/
def Table.requests (t : Table) : List String :=
  (t.start :: t.transitions).flatMap Transition.requests

/-- The events that ask for the gates of an approval. -/
def Approval.requests (a : Approval) : List String :=
  a.gateNames.map Name.approvalRequested

namespace Definition

variable {d : Definition}

theorem requests_loopControl (d : Definition) (loops : List Loop) : (d.loopControl loops).requests = [] := by
  induction loops with
  | nil => rfl
  | cons l outer ih =>
    rw [loopControl, Continuation.requests]
    cases l.continuation with
    | some step => rfl
    | none => exact ih

theorem requests_pathEnd (e : PathEnd) : e.continuation.requests = [] := by
  unfold PathEnd.continuation
  split
  · rfl
  · split <;> rfl

theorem requests_entryOf (b : Branch) (c : Case) : (b.entryOf c).requests = [] := by
  unfold Branch.entryOf
  split
  · rfl
  · exact requests_pathEnd ⟨b, c⟩

theorem requests_route (b : Branch) : Action.requests (.route b.toRoute) = [] := by
  refine List.flatMap_eq_nil_iff.mpr fun k member => ?_
  rcases List.mem_append.mp member with arm | fallback
  · obtain ⟨_, listed, rfl⟩ := List.mem_map.mp arm
    obtain ⟨l, _, rfl⟩ := List.mem_map.mp listed
    exact requests_entryOf b l.2
  · obtain ⟨c, _, rfl⟩ := Option.map_eq_some_iff.mp (Option.mem_toList.mp fallback)
    exact requests_entryOf b c

theorem requests_approved (a : Approval) : (d.approved a).requests = [] := by
  unfold approved
  split <;> rfl

theorem requests_timedOut (g : Approval) :
    g.timedOut.requests = g.next?.toList.map (Name.approvalRequested ·.gate.name) := by
  cases g with
  | failing gate => rfl
  | running gate steps => cases steps <;> rfl
  | asking gate next => rfl

theorem requests_ending (line : Line) : (line.ending d).requests = [] := by
  cases line with
  | main | fork _ _ | rejection _ _ => rfl
  | path b c => simp [Action.requests, Line.ending, Action.continuations, requests_pathEnd]
  | escalation a g => simp [Action.requests, Line.ending, Action.continuations, requests_approved]
  | recovery h =>
    simp only [Line.ending, chainEnd]
    split <;> rfl

/-! ## The requests of an entry -/

/-- What the transitions of an entry may ask for. -/
def requestsAt (d : Definition) (e : Entry) : List String :=
  (d.transitionsAt e).flatMap Transition.requests

/-- A site asks for what may follow it. -/
theorem requestsAt_step (s : Site) : d.requestsAt (.step s) = (d.next s).requests := by
  have start : s.startTransition.requests = [] := by
    simp only [Site.startTransition, Transition.of, Transition.requests, Site.guardActions]
    cases s.step.guard <;> rfl
  have route : Action.requests (.routeFailure s.failureRoute) = [] := rfl
  have update : Action.requests .applyUpdate = [] := rfl
  have completed : (d.completion s).requests = (d.next s).requests := by
    simp [completion, Transition.of, Transition.requests, route, update]
  simp [requestsAt, transitionsAt, entryTransitions, Except.toOption, start, completed]

theorem requestsAt_gate (a g : Approval) : d.requestsAt (.approval g (d.approved a))
    = g.next?.toList.map (Name.approvalRequested ·.gate.name) := by
  have rejected : g.gate.rejected.requests = [] := by
    unfold Gate.rejected
    split <;> rfl
  simp [requestsAt, transitionsAt, entryTransitions, Except.toOption, Approval.transitions,
    Transition.of, Transition.requests, Action.requests, Action.continuations, requests_approved, rejected,
    requests_timedOut]

theorem requestsAt_handler (h : Handler) : d.requestsAt (.handler h) = [] := by
  simp only [requestsAt, transitionsAt, entryTransitions, Handler.trigger]
  cases h.steps <;> rfl

end Definition

/-! ## The requests of a step's entries -/

/-- The gates of an approval, by the request of the outermost one and what the others are asked for. -/
theorem Approval.requests_eq (a : Approval) : a.requests = Name.approvalRequested a.gate.name
    :: a.chain.flatMap fun g => g.next?.toList.map (Name.approvalRequested ·.gate.name) := by
  induction a with
  | failing _ | running _ _ => rfl
  | asking gate next ih =>
    have names : (asking gate next).requests = Name.approvalRequested gate.name :: next.requests := rfl
    rw [names, ih]
    rfl

/-- Gates of different names are asked for by different events. -/
theorem Approval.requests_nodup {approvals : List Approval}
    (distinct : (approvals.flatMap gateNames).Nodup) : (approvals.flatMap requests).Nodup := by
  have names : approvals.flatMap requests = (approvals.flatMap gateNames).map Name.approvalRequested := by
    rw [List.map_flatMap]
    rfl
  rw [names]
  exact distinct.map fun _ _ => (String.append_left_inj _).mp

namespace Compiled

variable {d : Definition} {t : Table} (c : Compiled d t)

include c

/-- Off the main line nothing is asked for. -/
theorem requestsAt_sites (sites : List Site) (off : ∀ s ∈ sites, ∃ line : Line, line.In d ∧ line ≠ .main
      ∧ ∃ k x, (line.steps d)[k]? = some x ∧ s = line.siteAt d k x) :
    (sites.map Entry.step).flatMap d.requestsAt = [] := by
  rw [List.flatMap_map, List.flatMap_eq_nil_iff]
  intro s member
  obtain ⟨line, belongs, off, k, x, at?, rfl⟩ := off s member
  rw [Definition.requestsAt_step, c.next_siteAt line belongs off at?]
  cases line.next d k with
  | some stem => rfl
  | none => exact Definition.requests_ending line

/-- On the main line it is the approval after the step. -/
theorem requestsAt_main (k : Nat) (x : Step) :
    d.requestsAt (.step (Line.main.siteAt d k x))
      = (d.approvalAfter? x.identifier).toList.map (Name.approvalRequested ·.gate.name) := by
  rw [Definition.requestsAt_step, Definition.next_main]
  cases found : d.approvalAfter? x.identifier with
  | some a =>
    obtain ⟨declared, after⟩ := c.wellFormed.approvalAfter?_eq_some_iff.mp found
    have attached : (x.identifier, "approval") ∈ d.attachments :=
      after ▸ Definition.attached_approval declared
    have loops := c.wellFormed.loopsEnding_eq_nil attached (by decide)
    have branch := c.wellFormed.find?_branch_eq_none attached (by decide)
    rw [← c.wellFormed.loopsEndingAt_eq] at loops
    rw [← c.wellFormed.branchAfter?_eq] at branch
    simp only [loops, branch, ne_eq, not_true_eq_false, ↓reduceIte]
    rfl
  | none =>
    split
    · simp [Action.requests, Action.continuations, Definition.requests_loopControl]
    · cases d.branchAfter? x.identifier with
      | some b => exact Definition.requests_route b
      | none =>
        cases d.forkAfter? x.identifier with
        | some f => rfl
        | none => cases Line.main.next d k <;> rfl

theorem requests_gateEntries {a g : Approval} (attached : a ∈ d.approvals) (link : g ∈ a.chain) :
    (d.gateEntries (d.approved a) g).flatMap d.requestsAt
      = g.next?.toList.map (Name.approvalRequested ·.gate.name) := by
  have escalation := c.requestsAt_sites (d.escalationSites g (d.approved a)) fun s member =>
    ⟨.escalation a g, ⟨attached, link⟩, by simp, Definition.mem_escalationSites_iff.mp member⟩
  have rejection := c.requestsAt_sites (d.rejectionSites g) fun s member =>
    ⟨.rejection a g, ⟨attached, link⟩, by simp, (Definition.mem_rejectionSites_iff a).mp member⟩
  rw [Definition.gateEntries, List.flatMap_cons, List.flatMap_append, escalation, rejection,
    Definition.requestsAt_gate, List.append_nil, List.append_nil]

/-- What a step brings into the plan asks for the gates of its approval, each of them once. -/
theorem requests_siteEntries {k : Nat} {x : Step} :
    (d.siteEntries (Line.main.siteAt d k x)).flatMap d.requestsAt
      = (d.approvalAfter? x.identifier).toList.flatMap Approval.requests := by
  have branch : (((d.branchAfter? x.identifier).map fun b =>
      (d.branchSites b).map Entry.step).getD []).flatMap d.requestsAt = [] := by
    cases found : d.branchAfter? x.identifier with
    | none => rfl
    | some b =>
      refine c.requestsAt_sites _ fun s member => ?_
      obtain ⟨path, listed, there⟩ := Definition.mem_branchSites_iff.mp member
      exact ⟨.path b path, ⟨(c.wellFormed.branchAfter?_eq_some_iff.mp found).1, listed⟩, by simp, there⟩
  have fork : (((d.forkAfter? x.identifier).map fun f =>
      (d.forkSites f).map Entry.step).getD []).flatMap d.requestsAt = [] := by
    cases found : d.forkAfter? x.identifier with
    | none => rfl
    | some f =>
      refine c.requestsAt_sites _ fun s member => ?_
      obtain ⟨p, there⟩ := Definition.mem_forkSites_iff.mp member
      exact ⟨.fork f p, (c.wellFormed.forkAfter?_eq_some_iff.mp found).1, by simp, there⟩
  have sections : d.siteEntries (Line.main.siteAt d k x) = .step (Line.main.siteAt d k x)
      :: (((d.branchAfter? x.identifier).map fun b => (d.branchSites b).map Entry.step).getD []
        ++ ((d.forkAfter? x.identifier).map fun f => (d.forkSites f).map Entry.step).getD []
        ++ ((d.approvalAfter? x.identifier).map fun a =>
          a.chain.flatMap (d.gateEntries (d.approved a))).getD []) := rfl
  rw [sections, List.flatMap_cons, List.flatMap_append, List.flatMap_append, branch, fork,
    c.requestsAt_main, List.nil_append, List.nil_append]
  cases found : d.approvalAfter? x.identifier with
  | none => rfl
  | some a =>
    have attached := (c.wellFormed.approvalAfter?_eq_some_iff.mp found).1
    have gates : (a.chain.flatMap (d.gateEntries (d.approved a))).flatMap d.requestsAt
        = a.chain.flatMap fun g => g.next?.toList.map (Name.approvalRequested ·.gate.name) := by
      rw [List.flatMap_assoc]
      exact List.flatMap_congr fun g link => c.requests_gateEntries attached link
    simp only [Option.map_some, Option.getD_some, Option.toList_some, List.map_cons, List.map_nil,
      List.flatMap_cons, List.flatMap_nil, List.append_nil, List.singleton_append, gates,
      a.requests_eq]

end Compiled

namespace Definition

variable {d : Definition}

/-- The approvals that hang on the steps of the main line are all there are. -/
theorem WellFormed.approvalAfter?_perm (hw : d.WellFormed) :
    (d.stepNames.filterMap d.approvalAfter?).Perm d.approvals := by
  refine (List.perm_ext_iff_of_nodup ?_ (List.Nodup.of_map _ hw.approvals_distinct)).mpr fun a => ?_
  · refine hw.steps_distinct.filterMap fun x y a first second => ?_
    have first := (hw.approvalAfter?_eq_some_iff.mp first).2
    exact first.symm.trans (hw.approvalAfter?_eq_some_iff.mp second).2
  · simp only [List.mem_filterMap, hw.approvalAfter?_eq_some_iff]
    constructor
    · rintro ⟨x, _, attached, _⟩
      exact attached
    · exact fun attached => ⟨_, hw.approval_preceding a attached, attached, rfl⟩

end Definition

/-- A table asks for every gate of its definition, and for each in one place. -/
theorem Compiled.requests_perm {d : Definition} {t : Table} (c : Compiled d t) :
    t.requests.Perm (d.approvals.flatMap Approval.requests) := by
  have start : t.start.requests = [] := by
    obtain ⟨_, _, start⟩ := c.exists_start
    rw [start]
    rfl
  have handlers : (d.handlers.flatMap Definition.handlerEntries).flatMap d.requestsAt = [] := by
    rw [List.flatMap_assoc, List.flatMap_eq_nil_iff]
    intro h declared
    rw [Definition.handlerEntries, List.flatMap_cons, Definition.requestsAt_handler, List.nil_append]
    exact c.requestsAt_sites _ fun s member =>
      ⟨.recovery h, declared, by simp, Definition.mem_recoverySites_iff.mp member⟩
  have approvals : d.mainLine.map Site.approval = d.stepNames.map d.approvalAfter? := by
    refine List.ext_getElem (by simp [Definition.mainLine, Definition.stepNames]) fun k _ _ => ?_
    simp [Definition.mainLine, Definition.stepNames, Site.link]
  have steps : d.mainLine.flatMap (fun s => (d.siteEntries s).flatMap d.requestsAt)
      = (d.stepNames.map d.approvalAfter?).flatMap fun found => found.toList.flatMap Approval.requests := by
    rw [← approvals, List.flatMap_map]
    refine List.flatMap_congr fun s member => ?_
    obtain ⟨k, x, _, rfl⟩ := Definition.mem_mainLine_iff.mp member
    exact c.requests_siteEntries
  have along : t.requests = (d.stepNames.filterMap d.approvalAfter?).flatMap Approval.requests := by
    rw [Table.requests, List.flatMap_cons, start, List.nil_append,
      Definition.transitions_eq_flatMap c.transitions_ok, List.flatMap_assoc]
    change d.plan.flatMap d.requestsAt = _
    rw [Definition.plan, List.flatMap_append, handlers, List.append_nil, List.flatMap_assoc, steps,
      List.flatMap_map, List.filterMap_eq_flatMap_toList, List.flatMap_assoc]
  rw [along]
  exact c.wellFormed.approvalAfter?_perm.flatMap_right _

end Workflow
