import Workflow.Proofs.Host.Open

/-!
What a delivery queues, and how it ends.

`Host.Handles` lists all that a delivery can do, with the session it leaves and the messages it queues,
for any table. Two readings of it follow. The message that is delivered is put in one place and what is
queued comes after what waits (`Host.settles`). And a message that is neither dropped nor refused ends in
one way: work is done, a fault is raised, nobody claims it, or a transition is committed; unless it is
the last, the instances and the bookkeeping of forks and requests stay as they were
(`Host.existsUnique_ends`).
-/

set_option autoImplicit false

namespace Workflow

/-- The name of a work command is built from the step it gives back. -/
theorem Name.eq_workerCommand_of_workerStem? {command stem : String}
    (found : Name.workerStem? command = some stem) : command = Name.workerCommand stem := by
  unfold Name.workerStem? at found
  dsimp only at found
  split at found
  next lead =>
    split at found
    next tail =>
      obtain ⟨rest, chars⟩ := List.isPrefixOf_iff_prefix.mp lead
      rw [← chars, List.drop_left] at tail found
      obtain ⟨middle, rfl⟩ := List.isSuffixOf_iff_suffix.mp tail
      rw [List.length_append, Nat.add_sub_cancel, List.take_left] at found
      cases found
      apply String.toList_injective
      simp [Name.workerCommand, ← chars]
    · cases found
  · cases found

/-! ## What is queued -/

/-- Whether the report of a path is the one that releases the join. -/
def Session.releases (s : Session) (fork : String) (path total : Nat) (m : Message) : Bool :=
  let state := (Store.get? (m.instanceId, fork) s.joins).getD .empty
  let reported := if path ∈ state.reported then state.reported else path :: state.reported
  total ≤ reported.length ∧ state.released = false

namespace Host

/-- The messages that an effect queues: a message of the transition itself, the acknowledgement of a
request, or the message of a join. -/
def posts (h : Host) (s : Session) : Effect → List Message
  | .send m =>
    match h.table.kindOf? m.name with
    | some .approvalRequested =>
      match m.body with
      | .approvalRequested approval _ =>
        [⟨Name.approvalPending approval, m.instanceId,
          .approvalPending (h.correlator s.approvals m.instanceId)⟩]
      | _ => []
    | some .validationFailed => []
    | _ => [m]
  | .join fork path total m => if s.releases fork path total m then [m] else []
  | .cancelFork _ => []

/-- The messages that effects queue, one after another. -/
def postsAll (h : Host) (cause : Message) : Session → List Effect → List Message
  | _, [] => []
  | s, e :: rest => h.posts s e ++ h.postsAll cause (h.effect cause s e) rest

/-- The messages that a transition queues on an instance. -/
def postsOf (h : Host) (s : Session) (m : Message) (i : Instance) (t : Transition) : List Message :=
  let applied := t.apply h.collaborators s.calls i m
  match applied.result with
  | .ok es =>
    let s := h.resetForks { s with calls := applied.calls } m
    h.postsAll m { s with running := Store.insert m.instanceId applied.inst s.running } es
  | .error _ => []

/-- The completion that work queues. -/
def completion? (h : Host) (s : Session) (m : Message) : Option Message :=
  match m.body with
  | .work workType state => (Name.workerStem? m.name).map fun stem =>
    ⟨Name.completedEvent stem, m.instanceId,
      match (h.executor.run s.calls workType state).1 with
      | .ok update => .completed update none
      | .error failure => .completed .null (some failure)⟩
  | _ => none

/-- The messages that a delivery queues. -/
def posted (h : Host) (s : Session) (m : Message) : List Message :=
  if h.isCancelled s m then []
  else
    match h.table.kindOf? m.name with
    | none => []
    | some kind =>
      let s := { s with delivered := s.delivered ++ [m] }
      if kind = .executeWorker then (h.completion? s m).toList
      else
        match Store.get? m.instanceId s.running, h.table.transitionFor? m.name with
        | some i, some t => h.postsOf s m i t
        | _, _ => []

/-- The start command that a start logs, and the messages it queues. -/
def begun (h : Host) (s : Session) (id : Key) (state : Value) : List Message × List Message :=
  let m : Message := ⟨Name.startCommand h.table.process, id, .start state⟩
  match h.table.begin h.collaborators s.calls m with
  | (.ok (i, es), calls) =>
    ([m], h.postsAll m { s with
      calls, running := Store.insert id i s.running, delivered := s.delivered ++ [m] } es)
  | (.error _, _) => ([], [])

end Host

/-! ## How a delivery ends -/

namespace Host

/-- A delivery that is neither dropped nor refused. -/
def delivers (h : Host) (e : Delivery) : Bool :=
  !h.isCancelled e.before e.message && (h.table.kindOf? e.message.name).isSome

/-- A delivery that is refused, since the name of the message is not declared. -/
def refuses (h : Host) (e : Delivery) : Bool :=
  !h.isCancelled e.before e.message && (h.table.kindOf? e.message.name).isNone

/-- A delivery that commits nothing: it queues messages and adds to the logs of faults and of messages
not found, and changes no instance and no bookkeeping. -/
structure Leaves (h : Host) (e : Delivery) (queued : List Message) (faults : List FaultRecord)
    (letters : List DeadLetter) : Prop where
  idle : h.committed? e = none
  queue : (h.deliver e.before e.message).queue = e.before.queue ++ queued
  faults : (h.deliver e.before e.message).faults = e.before.faults ++ faults
  deadLetters : (h.deliver e.before e.message).deadLetters = e.before.deadLetters ++ letters
  running : (h.deliver e.before e.message).running = e.before.running
  finished : (h.deliver e.before e.message).finished = e.before.finished
  joins : (h.deliver e.before e.message).joins = e.before.joins
  cancelled : (h.deliver e.before e.message).cancelled = e.before.cancelled
  approvals : (h.deliver e.before e.message).approvals = e.before.approvals
  events : (h.deliver e.before e.message).events = e.before.events

end Host

/-- How a delivery ends. -/
inductive Ending where
  | worked (completion : Message)
  | faulted (fault : Fault)
  | unclaimed
  | committed (inst : Instance) (effects : List Effect)
  deriving DecidableEq, Repr

/-- What each end means: work is done and its completion is queued; a fault is raised; there is no
instance, which is recorded if messages of the kind have a fallback; or a transition is committed. -/
def Host.Ends (h : Host) (e : Delivery) : Ending → Prop
  | .worked completion =>
    (∃ stem update failure, e.message.name = Name.workerCommand stem
      ∧ completion = ⟨Name.completedEvent stem, e.message.instanceId, .completed update failure⟩)
      ∧ h.Leaves e [completion] [] []
  | .faulted fault =>
    h.Leaves e [] [⟨e.message.instanceId, e.message.name, fault⟩] []
  | .unclaimed =>
    ∃ kind, h.table.kindOf? e.message.name = some kind
      ∧ Store.get? e.message.instanceId e.before.running = none
      ∧ h.Leaves e [] [] (if (h.table.fallbackFor? kind).isSome then
        [⟨kind, e.message.name, e.message.instanceId⟩] else [])
  | .committed j es =>
    h.committed? e = some (j, es)
      ∧ (h.deliver e.before e.message).inst? e.message.instanceId = some j
      ∧ (h.deliver e.before e.message).faults = e.before.faults
      ∧ (h.deliver e.before e.message).deadLetters = e.before.deadLetters

/-! ## One operation -/

/-- From one session to another messages were queued, and none was delivered. -/
structure Session.Posts (s s' : Session) (more : List Message) : Prop where
  conserved : (s'.queue ++ s'.dropped).Perm (s.queue ++ s.dropped ++ more)
  order : s'.queue.Sublist (s.queue ++ more)
  delivered : s'.delivered = s.delivered

namespace Session.Posts

variable {s s' s'' : Session} {more later : List Message}

theorem of_eq (queue : s'.queue = s.queue ++ more) (dropped : s'.dropped = s.dropped)
    (delivered : s'.delivered = s.delivered) : s.Posts s' more where
  conserved := by
    rw [queue, dropped, List.append_assoc, List.append_assoc]
    exact List.perm_append_comm.append_left _
  order := by rw [queue]
  delivered := delivered

theorem trans (first : s.Posts s' more) (second : s'.Posts s'' later) :
    s.Posts s'' (more ++ later) where
  conserved := by
    refine second.conserved.trans ?_
    rw [← List.append_assoc]
    exact first.conserved.append_right later
  order := by
    refine second.order.trans ?_
    rw [← List.append_assoc]
    exact first.order.append_right later
  delivered := second.delivered.trans first.delivered

end Session.Posts

namespace Host

variable {h : Host}

/-- What waits on cancelled paths is dropped, and nothing else is. -/
theorem posts_sweep (s : Session) : s.Posts (h.sweep s) [] where
  conserved := by
    have parts := List.filter_append_perm (h.isCancelled s) s.queue
    rw [List.append_nil]
    refine List.Perm.trans ?_ (parts.append_right s.dropped)
    rw [List.append_assoc]
    exact (List.perm_append_comm.append_left _).trans (List.perm_append_comm_assoc _ _ _)
  order := by
    rw [List.append_nil]
    exact List.filter_sublist
  delivered := rfl

theorem posts_effect (cause : Message) (s : Session) (e : Effect) :
    s.Posts (h.effect cause s e) (h.posts s e) := by
  cases e with
  | send m =>
    rw [effect, dispatch]
    split
    next asked =>
      split
      next approval approverType body =>
        exact .of_eq (by simp [posts, asked, body, Session.recordRequest, Session.send,
          Session.publish]) rfl rfl
      next other => exact .of_eq (by simp [posts, asked, Session.publish]) rfl rfl
    next refused => exact .of_eq (by simp [posts, refused, Session.publish]) rfl rfl
    next other further => exact .of_eq (by simp [posts, Session.send]) rfl rfl
  | join fork path total m =>
    simp only [effect, posts, Session.join, Session.releases, decide_eq_true_eq]
    split <;> split <;> exact .of_eq (by simp [Session.send]) rfl rfl
  | cancelFork fork =>
    simp only [effect, posts, cancelFork_eq]
    split
    · exact .of_eq (by simp) rfl rfl
    next path _ =>
      have swept := posts_sweep (h := h)
        { s with cancelled := Store.insert (cause.instanceId, fork) path s.cancelled }
      exact ⟨swept.conserved, swept.order, rfl⟩

theorem posts_effects (cause : Message) (s : Session) (es : List Effect) :
    s.Posts (h.effects cause s es) (h.postsAll cause s es) := by
  induction es generalizing s with
  | nil => exact .of_eq (by simp [effects, postsAll]) rfl rfl
  | cons e rest ih => exact (posts_effect cause s e).trans (ih _)

/-- No effect records a fault, or a message not found. -/
theorem effects_logs (cause : Message) (s : Session) (es : List Effect) :
    (h.effects cause s es).faults = s.faults
      ∧ (h.effects cause s es).deadLetters = s.deadLetters := by
  have one : ∀ (s : Session) (e : Effect), (h.effect cause s e).faults = s.faults
      ∧ (h.effect cause s e).deadLetters = s.deadLetters := by
    intro s e
    cases e with
    | send m =>
      rw [effect, dispatch]
      split
      · split <;> exact ⟨rfl, rfl⟩
      · exact ⟨rfl, rfl⟩
      · exact ⟨rfl, rfl⟩
    | join fork path total m =>
      simp only [effect, Session.join]
      split <;> split <;> exact ⟨rfl, rfl⟩
    | cancelFork fork =>
      simp only [effect, cancelFork_eq]
      split <;> exact ⟨rfl, rfl⟩
  induction es generalizing s with
  | nil => exact ⟨rfl, rfl⟩
  | cons e rest ih =>
    obtain ⟨faults, letters⟩ := ih (h.effect cause s e)
    exact ⟨faults.trans (one s e).1, letters.trans (one s e).2⟩

/-- All that a delivery can do: the session after it, and the messages it queues. -/
inductive Handles (h : Host) (s : Session) (m : Message) : Session → List Message → Prop
  | drop (cancelled : h.isCancelled s m = true) :
      Handles h s m { s with dropped := s.dropped ++ [m] } []
  | refuse (calm : h.isCancelled s m = false) (unknown : h.table.kindOf? m.name = none) :
      Handles h s m (s.fault m (.unexpectedMessage m.name)) []
  | work (calm : h.isCancelled s m = false) (kind : h.table.kindOf? m.name = some .executeWorker)
      {stem : String} {update : Value} {failure : Option StepFailure} {calls : List Call}
      (name : m.name = Name.workerCommand stem) :
      Handles h s m
        (({ s with delivered := s.delivered ++ [m], calls }).send
          ⟨Name.completedEvent stem, m.instanceId, .completed update failure⟩)
        [⟨Name.completedEvent stem, m.instanceId, .completed update failure⟩]
  | fault (calm : h.isCancelled s m = false) {kind : MessageKind}
      (declared : h.table.kindOf? m.name = some kind) (idle : h.committed? ⟨s, m⟩ = none)
      {calls : List Call} (f : Fault) :
      Handles h s m (({ s with delivered := s.delivered ++ [m], calls }).fault m f) []
  | absent (calm : h.isCancelled s m = false) {kind : MessageKind}
      (declared : h.table.kindOf? m.name = some kind) (consumed : kind ≠ .executeWorker)
      (none : Store.get? m.instanceId s.running = none) :
      Handles h s m (h.notFound { s with delivered := s.delivered ++ [m] } kind m) []
  | commit (calm : h.isCancelled s m = false) {kind : MessageKind}
      (declared : h.table.kindOf? m.name = some kind) {j : Instance} {es : List Effect}
      (committed : h.committed? ⟨s, m⟩ = some (j, es)) {calls : List Call} {s' : Session}
      (reset : s' = h.resetForks { s with delivered := s.delivered ++ [m], calls } m) :
      Handles h s m (h.commit { s with delivered := s.delivered ++ [m], calls } m j es)
        (h.postsAll m { s' with running := Store.insert m.instanceId j s'.running } es)

/-- Work that has a completion queues it. -/
theorem work_of_completion? {s : Session} {m c : Message} (completes : h.completion? s m = some c) :
    ∃ stem update failure calls, m.name = Name.workerCommand stem
      ∧ c = ⟨Name.completedEvent stem, m.instanceId, .completed update failure⟩
      ∧ h.work s m = ({ s with calls }).send c := by
  unfold completion? at completes
  split at completes
  next workType state body =>
    obtain ⟨stem, found, rfl⟩ := Option.map_eq_some_iff.mp completes
    have name := Name.eq_workerCommand_of_workerStem? found
    unfold work
    simp only [body, found]
    cases (h.executor.run s.calls workType state).1 with
    | ok update => exact ⟨stem, update, none, _, name, rfl, rfl⟩
    | error failure => exact ⟨stem, .null, some failure, _, name, rfl, rfl⟩
  · cases completes

/-- Work that has none raises a fault. -/
theorem work_of_completion?_eq_none {s : Session} {m : Message} (none : h.completion? s m = none) :
    ∃ f, h.work s m = s.fault m f := by
  unfold completion? at none
  unfold work
  split
  next workType state body =>
    simp only [body, Option.map_eq_none_iff] at none
    simp only [none]
    exact ⟨_, rfl⟩
  · exact ⟨_, rfl⟩

theorem deliver_handles (s : Session) (m : Message) :
    h.Handles s m (h.deliver s m) (h.posted s m) := by
  cases calm : h.isCancelled s m with
  | true =>
    simp only [deliver, posted, calm, ↓reduceIte]
    exact .drop calm
  | false =>
    cases declared : h.table.kindOf? m.name with
    | none =>
      simp only [deliver, posted, calm, declared, Bool.false_eq_true, ↓reduceIte]
      exact .refuse calm declared
    | some kind =>
      simp only [deliver, posted, calm, declared, Bool.false_eq_true, ↓reduceIte]
      by_cases works : kind = .executeWorker
      · subst works
        simp only [↓reduceIte]
        cases completes : h.completion? { s with delivered := s.delivered ++ [m] } m with
        | some c =>
          obtain ⟨_, _, _, _, name, rfl, result⟩ := work_of_completion? completes
          rw [result]
          exact .work calm declared name
        | none =>
          obtain ⟨f, result⟩ := work_of_completion?_eq_none completes
          rw [result]
          refine .fault calm declared ?_ f
          unfold committed?
          rw [if_pos (.inr (.inr declared))]
      · simp only [works, ↓reduceIte]
        have free : ¬ (h.isCancelled s m = true ∨ h.table.kindOf? m.name = none
            ∨ h.table.kindOf? m.name = some .executeWorker) := by
          simp [calm, declared, works]
        cases stored : Store.get? m.instanceId s.running with
        | none => exact .absent calm declared works stored
        | some i =>
          cases found : h.table.transitionFor? m.name with
          | none =>
            refine .fault calm declared ?_ _
            simp only [committed?, if_neg free, stored, found, Option.bind_some, Option.bind_none]
          | some t =>
            have result : h.committed? ⟨s, m⟩
                = (t.apply h.collaborators s.calls i m).committed? := by
              simp only [committed?, if_neg free, stored, found, Option.bind_some]
            simp only [transact, postsOf]
            cases ok : (t.apply h.collaborators s.calls i m).result with
            | error f =>
              exact .fault calm declared (result.trans (Applied.committed?_eq_none.mpr ⟨f, ok⟩)) _
            | ok es =>
              exact .commit calm declared
                (result.trans (Applied.committed?_eq_some.mpr ⟨rfl, ok⟩)) rfl

/-- What effects queue, one of them queues. -/
theorem exists_of_mem_postsAll {cause m : Message} {s : Session} {es : List Effect}
    (queued : m ∈ h.postsAll cause s es) : ∃ e ∈ es, ∃ s', m ∈ h.posts s' e := by
  induction es generalizing s with
  | nil => cases queued
  | cons e rest ih =>
    rcases List.mem_append.mp queued with first | later
    · exact ⟨e, List.mem_cons_self, s, first⟩
    · obtain ⟨e', he', found⟩ := ih later
      exact ⟨e', List.mem_cons_of_mem _ he', found⟩

/-- A commit queues what its effects do. -/
theorem posted_of_committed? {s : Session} {m : Message} {j : Instance} {es : List Effect}
    (committed : h.committed? ⟨s, m⟩ = some (j, es)) :
    ∃ s', h.posted s m = h.postsAll m s' es := by
  have handles := h.deliver_handles s m
  generalize h.deliver s m = s', h.posted s m = more at handles
  have busy : ∀ {P : Prop}, h.committed? ⟨s, m⟩ = none → P := fun idle => by
    rw [idle] at committed
    cases committed
  cases handles with
  | drop cancelled => exact busy (by rw [committed?, if_pos (.inl cancelled)])
  | refuse calm unknown => exact busy (by rw [committed?, if_pos (.inr (.inl unknown))])
  | work calm kind => exact busy (by rw [committed?, if_pos (.inr (.inr kind))])
  | fault calm declared idle => exact busy idle
  | absent calm declared consumed none => exact busy (by simp [committed?, none])
  | commit calm declared committed' =>
    cases committed.symm.trans committed'
    exact ⟨_, rfl⟩

theorem posts_commit (s : Session) (m : Message) (j : Instance) (es : List Effect) :
    s.Posts (h.commit s m j es) (h.postsAll m { h.resetForks s m with
      running := Store.insert m.instanceId j (h.resetForks s m).running } es) := by
  obtain ⟨running, finished, result⟩ := h.commit_cases s m j es
  have posts := posts_effects (h := h) m { h.resetForks s m with
    running := Store.insert m.instanceId j (h.resetForks s m).running } es
  rw [result]
  rw [resetForks_eq] at posts ⊢
  exact ⟨posts.conserved, posts.order, posts.delivered⟩

theorem commit_logs (s : Session) (m : Message) (j : Instance) (es : List Effect) :
    (h.commit s m j es).faults = s.faults ∧ (h.commit s m j es).deadLetters = s.deadLetters := by
  obtain ⟨running, finished, result⟩ := h.commit_cases s m j es
  have logs := effects_logs (h := h) m { h.resetForks s m with
    running := Store.insert m.instanceId j (h.resetForks s m).running } es
  rw [result]
  rw [resetForks_eq] at logs ⊢
  exact logs

end Host

/-- The faults recorded of messages whose names a table does not declare. -/
def Session.undeclared (s : Session) (t : Table) : List FaultRecord :=
  s.faults.filter fun f => (t.kindOf? f.message).isNone

/-- A delivery takes one message out of the queue and puts it where it belongs. -/
structure Host.Settles (h : Host) (e : Delivery) (s' : Session) (more : List Message) : Prop where
  accounted : (s'.queue ++ s'.dropped ++ s'.delivered
      ++ if h.refuses e then [e.message] else []).Perm
    (e.before.queue ++ e.before.dropped ++ e.before.delivered ++ e.message :: more)
  order : s'.queue.Sublist (e.before.queue ++ more)
  delivered : s'.delivered = e.before.delivered ++ if h.delivers e then [e.message] else []
  undeclared : s'.undeclared h.table = e.before.undeclared h.table
    ++ if h.refuses e then
      [⟨e.message.instanceId, e.message.name, .unexpectedMessage e.message.name⟩] else []

namespace Host.Settles

variable {h : Host} {s s' : Session} {m : Message} {more : List Message}

/-- Whatever a delivered message leads to, it is logged, and what it queues comes after. -/
theorem of_posts {kind : MessageKind} (calm : h.isCancelled s m = false)
    (declared : h.table.kindOf? m.name = some kind) (calls : List Call)
    (posts : ({ s with delivered := s.delivered ++ [m], calls }).Posts s' more)
    (undeclared : s'.undeclared h.table = s.undeclared h.table) : h.Settles ⟨s, m⟩ s' more where
  accounted := by
    have kept := posts.conserved.append_right s'.delivered
    rw [List.perm_iff_count] at kept ⊢
    intro a
    have counts := kept a
    simp only [posts.delivered, refuses, declared, Option.isNone_some, Bool.and_false,
      Bool.false_eq_true, ↓reduceIte, List.count_append, List.count_cons, List.count_nil]
      at counts ⊢
    omega
  order := posts.order
  delivered := by simp [posts.delivered, delivers, calm, declared]
  undeclared := by simp [undeclared, refuses, declared]

end Host.Settles

theorem Host.settles (h : Host) (s : Session) (m : Message) :
    h.Settles ⟨s, m⟩ (h.deliver s m) (h.posted s m) := by
  have handles := h.deliver_handles s m
  generalize h.deliver s m = s', h.posted s m = more at handles
  cases handles with
  | drop cancelled =>
    refine ⟨?_, by simp, by simp [delivers, cancelled], by simp [refuses, cancelled,
      Session.undeclared]⟩
    rw [List.perm_iff_count]
    intro a
    simp only [refuses, cancelled, Bool.not_true, Bool.false_and, Bool.false_eq_true, ↓reduceIte,
      List.count_append, List.count_cons, List.count_nil]
    omega
  | refuse calm unknown =>
    refine ⟨?_, by simp [Session.fault], by simp [delivers, unknown, Session.fault], by simp [refuses,
      calm, unknown, Session.undeclared, Session.fault]⟩
    simp only [refuses, calm, unknown, Bool.not_false, Option.isNone_none, Bool.and_self, ↓reduceIte]
    exact List.Perm.refl _
  | work calm kind name => exact .of_posts calm kind _ (.of_eq rfl rfl rfl) rfl
  | @fault calm kind declared idle calls f =>
    refine .of_posts calm declared calls (.of_eq (List.append_nil _).symm rfl rfl) ?_
    simp [Session.undeclared, Session.fault, declared]
  | absent calm declared consumed none =>
    unfold notFound
    split <;>
      exact .of_posts calm declared s.calls (.of_eq (List.append_nil _).symm rfl rfl) rfl
  | @commit calm kind declared j es committed calls s' reset =>
    subst reset
    refine .of_posts calm declared calls (posts_commit _ m j es) ?_
    simp only [Session.undeclared, (commit_logs _ m j es).1]

/-! ## One end for each delivery -/

namespace Host

variable {h : Host} {e : Delivery}

theorem Leaves.of_eq {queued : List Message} {faults : List FaultRecord} {letters : List DeadLetter}
    (idle : h.committed? e = none) (calls : List Call)
    (result : h.deliver e.before e.message = { e.before with
      queue := e.before.queue ++ queued
      delivered := e.before.delivered ++ [e.message]
      faults := e.before.faults ++ faults
      deadLetters := e.before.deadLetters ++ letters
      calls }) : h.Leaves e queued faults letters := by
  constructor <;> simp only [result, idle]

/-- What a delivery leaves tells what it was. -/
theorem Leaves.agree {queued queued' : List Message} {faults faults' : List FaultRecord}
    {letters letters' : List DeadLetter} (leaves : h.Leaves e queued faults letters)
    (leaves' : h.Leaves e queued' faults' letters') : queued = queued' ∧ faults = faults' :=
  ⟨List.append_cancel_left (leaves.queue.symm.trans leaves'.queue),
    List.append_cancel_left (leaves.faults.symm.trans leaves'.faults)⟩

theorem exists_ends (delivers : h.delivers e = true) : ∃ ending, h.Ends e ending := by
  obtain ⟨s, m⟩ := e
  have handles := h.deliver_handles s m
  generalize result : h.deliver s m = s', h.posted s m = more at handles
  cases handles with
  | drop cancelled => simp [Host.delivers, cancelled] at delivers
  | refuse calm unknown => simp [Host.delivers, unknown] at delivers
  | @work calm kind stem update failure calls name =>
    have idle : h.committed? ⟨s, m⟩ = none := by
      unfold committed?
      rw [if_pos (.inr (.inr kind))]
    exact ⟨.worked _, ⟨stem, update, failure, name, rfl⟩,
      .of_eq idle calls (by simp [result, Session.send])⟩
  | @fault calm kind declared idle calls f =>
    exact ⟨.faulted f, .of_eq idle calls (by simp [result, Session.fault])⟩
  | @absent calm kind declared consumed none =>
    have idle : h.committed? ⟨s, m⟩ = .none := by
      simp [committed?, none]
    refine ⟨.unclaimed, kind, declared, none, .of_eq idle s.calls ?_⟩
    rw [result, notFound]
    split <;> simp_all
  | @commit calm kind declared j es committed calls s' reset =>
    refine ⟨.committed j es, committed, inst?_deliver committed, ?_⟩
    rw [result]
    exact commit_logs { s with delivered := s.delivered ++ [m], calls } m j es

/-- A delivered message ends in one way. -/
theorem existsUnique_ends (delivers : h.delivers e = true) : ∃! ending, h.Ends e ending := by
  obtain ⟨ending, ends⟩ := exists_ends delivers
  refine ⟨ending, ends, fun other ends' => ?_⟩
  -- an end other than a commit is told by the queue and the faults
  have idle : ∀ ending, h.Ends e ending → (∃ j es, ending = .committed j es)
      ∨ ∃ queued faults letters, h.Leaves e queued faults letters
        ∧ ((∃ c, ending = .worked c ∧ queued = [c] ∧ faults = [])
          ∨ (∃ f, ending = .faulted f ∧ queued = []
            ∧ faults = [⟨e.message.instanceId, e.message.name, f⟩])
          ∨ (ending = .unclaimed ∧ queued = [] ∧ faults = [])) := by
    intro ending ends
    cases ending with
    | worked c => exact .inr ⟨_, _, _, ends.2, .inl ⟨c, rfl, rfl, rfl⟩⟩
    | faulted f => exact .inr ⟨_, _, _, ends, .inr (.inl ⟨f, rfl, rfl, rfl⟩)⟩
    | unclaimed =>
      obtain ⟨_, _, _, leaves⟩ := ends
      exact .inr ⟨_, _, _, leaves, .inr (.inr ⟨rfl, rfl, rfl⟩)⟩
    | committed j es => exact .inl ⟨j, es, rfl⟩
  rcases idle ending ends with ⟨j, es, rfl⟩ | ⟨queued, faults, letters, leaves, which⟩ <;>
    rcases idle other ends' with ⟨j', es', rfl⟩ | ⟨queued', faults', letters', leaves', which'⟩
  · have same := ends.1.symm.trans ends'.1
    cases same
    rfl
  · have none := leaves'.idle.symm.trans ends.1
    cases none
  · have none := leaves.idle.symm.trans ends'.1
    cases none
  · obtain ⟨rfl, rfl⟩ := leaves.agree leaves'
    rcases which with ⟨c, rfl, rfl, rfl⟩ | ⟨f, rfl, rfl, rfl⟩ | ⟨rfl, rfl, rfl⟩ <;>
      simp_all

end Host

end Workflow
