import Workflow.Proofs.Host.Run

/-!
Guarded work: a host executes the work of a guarded position only on states that the guard accepts.

The start of a position asks the guard once, and queues the work with the state that was asked about.
The work is done later, when other paths may have changed the state of the instance, so what is accepted
is the state that the queued work carries and not the state of the instance at that time. `Accepted` is
the invariant: all work that waits was accepted. Only a start queues work, and a start that is refused
queues nothing; so the same holds after repeats of a loop and after recoveries, which go through the
start again.
-/

set_option autoImplicit false

namespace Workflow

/-! ## Executed work -/

/-- What the delivery of a message hands to the executor: a type of work, and the state to do it on. -/
def Host.handed? (h : Host) (s : Session) (m : Message) : Option (String × Value) :=
  if h.isCancelled s m ∨ h.table.kindOf? m.name ≠ some .executeWorker
    ∨ Name.workerStem? m.name = none then none
  else
    match m.body with
    | .work workType state => some (workType, state)
    | _ => none

namespace Host

variable {h : Host} {s : Session} {m : Message}

/-- What is handed to the executor is run once, and the answer is queued. -/
theorem deliver_of_handed {workType : String} {state : Value}
    (handed : h.handed? s m = some (workType, state)) :
    ∃ stem update failure, h.deliver s m = ({ s with
      delivered := s.delivered ++ [m]
      calls := (h.executor.run s.calls workType state).2 }).send
        ⟨Name.completedEvent stem, m.instanceId, .completed update failure⟩ := by
  unfold handed? at handed
  split at handed
  · cases handed
  next free =>
    simp only [not_or, Bool.not_eq_true, not_not] at free
    obtain ⟨calm, kind, named⟩ := free
    obtain ⟨stem, stem_eq⟩ := Option.ne_none_iff_exists'.mp named
    split at handed
    next body =>
      obtain ⟨rfl, rfl⟩ := Prod.mk.inj (Option.some.inj handed)
      simp only [deliver, calm, kind, work, body, stem_eq, Bool.false_eq_true, ↓reduceIte]
      cases (h.executor.run s.calls _ _).1 with
      | ok update => exact ⟨stem, update, none, rfl⟩
      | error failure => exact ⟨stem, .null, some failure, rfl⟩
    · cases handed

end Host

/-! ## Accepted work -/

section Accepted

variable {d : Definition} {h : Host} {id : Key}

/-- Work is queued by the start of its position, with the state of the instance. -/
theorem Move.work_queued {s s' : Session} {toks left : List Token} {tok : Token}
    (move : Move d h id s toks tok s' left) {x : Spot} {state : Value}
    (waits : .work x state ∈ left) :
    .work x state ∈ toks
      ∨ ∃ i, tok = .start x ∧ Store.get? id s.running = some i ∧ state = i.state
        ∧ s'.queue = s.queue ++ [(Token.work x i.state).message d id] := by
  have settled : ∀ {s s' : Session} {left : List Token} {i : Instance},
      Settles d id s toks i s' left → .work x state ∈ left → .work x state ∈ toks := by
    intro s s' left i settles waits
    cases settles <;> simpa using waits
  cases move with
  | begin x' i stored delivered calls =>
    rcases List.mem_append.mp waits with old | new
    · exact .inl old
    · cases List.mem_singleton.mp new
      exact .inr ⟨i, rfl, stored, rfl, rfl⟩
  | settle x' update failure plain i i' stored alike joins cancelled fewer delivered calls s' left
      settles => exact .inl (settled settles waits)
  | answer tok signal i i' stored asked key cleared delivered calls s' left settles =>
    exact .inl (settled settles waits)
  | cascade x' update failure f declared main i j stored alike going =>
    rcases List.mem_append.mp waits with old | new
    · exact .inl old
    · obtain ⟨p, _, head⟩ := List.mem_filterMap.mp new
      obtain ⟨first, _, start⟩ := Option.map_eq_some_iff.mp head
      cases start
  | cancel | abort =>
    simp only [List.mem_append, List.mem_filter, List.mem_singleton, reduceCtorEq, or_false] at waits
    exact .inl waits.1
  | _ => exact .inl (by simpa using waits)

/-- A guard lets its step run on a state. -/
def Host.Accepts (h : Host) (g : Guard) (state : Value) : Prop :=
  h.collaborators.conditions [] g.conditionId state = true

/-- All the work that waits is on states that its guard accepts. -/
def Accepted (h : Host) (toks : List Token) : Prop :=
  ∀ x state, .work x state ∈ toks → ∀ g, x.step.guard = some g → h.Accepts g state

variable (c : Compiled d h.table) (pure : h.collaborators.conditions.IsPure)

include c pure

/-- A start whose guard refuses queues nothing. -/
theorem Compiled.queue_deliver_refused {x : Spot} (here : x.In d) {s : Session} {i : Instance}
    (stored : Store.get? id s.running = some i) (key : i.id = id) (going : i.isFinished = false)
    {g : Guard} (guard : x.step.guard = some g) (refused : ¬ h.Accepts g i.state) :
    (h.deliver s ((Token.start x).message d id)).queue = s.queue := by
  cases calm : h.isCancelled s ((Token.start x).message d id) with
  | true => simp only [Host.deliver, calm, ↓reduceIte]
  | false =>
    have refused : h.collaborators.conditions s.calls g.conditionId i.state = false := by
      rw [pure]
      exact Bool.not_eq_true _ ▸ refused
    rw [c.deliver_refused here calm stored key going guard refused]

theorem Accepted.kept (id : Key) : Kept d h id fun _ _ toks => Accepted h toks where
  start here main running finished joins cancelled events faults approvals := by
    intro x state waits
    simp at waits
  move {past s s' toks left tok} tracked here holds move after result := by
    intro x state waits g guard
    rcases move.work_queued waits with old | ⟨i, rfl, stored, rfl, queued⟩
    · exact holds x state (List.mem_cons_of_mem _ old) g guard
    · obtain ⟨key, going⟩ := tracked.fits i stored
      by_contra refused
      have same := c.queue_deliver_refused pure here stored key going guard refused
      rw [result, queued] at same
      simp at same
  signal {past s toks tok} signal holds := by
    intro x state waits
    rcases List.mem_append.mp waits with old | new
    · exact holds x state old
    · cases List.mem_singleton.mp new
      simp [Token.kind] at signal
  queue queue holds := holds
  beside grown others holds := holds

end Accepted

/-- The delivery of work hands it to the executor. -/
theorem Compiled.handed?_work {d : Definition} {h : Host} (c : Compiled d h.table) {e : Delivery}
    (calm : h.isCancelled e.before e.message = false) {x : Spot}
    {state : Value} (here : (Token.work x state).In d)
    (message : (Token.work x state).message d e.message.instanceId = e.message) :
    h.handed? e.before e.message = some (x.step.workType, state) := by
  have kind : h.table.kindOf? ((Token.work x state).message d e.message.instanceId).name
      = some .executeWorker := c.kindOf?_message here _
  have named : Name.workerStem? ((Token.work x state).message d e.message.instanceId).name
      = some (x.stem d) := Name.workerStem?_workerCommand _
  rw [message] at kind named
  unfold Host.handed?
  rw [if_neg (by simp [calm, kind, named]), ← message]
  rfl

/-- In a closed run, the work of a guarded site is done only on states that its guard accepts: each
delivery of it runs the executor once, and the condition holds of the state it is run on. A start of the
site for a running instance whose state is refused queues nothing, and publishes that it was refused and
nothing else. -/
theorem Host.Reaches.work_accepted {d : Definition} {settings : Settings} {h : Host}
    (compiles : d.compile settings = .ok h.table) (pure : h.collaborators.conditions.IsPure)
    {started : List Key} {past : List Delivery} {s : Session} (run : h.Reaches started past s)
    {x : Site} (site : x ∈ d.sites) {g : Guard} (guard : x.step.guard = some g) :
    (∀ e ∈ past, e.message.name = x.workerCommand →
        ∃ state, h.handed? e.before e.message = some (x.step.workType, state)
          ∧ (h.deliver e.before e.message).calls
            = (h.executor.run e.before.calls x.step.workType state).2
          ∧ ∀ calls, h.collaborators.conditions calls g.conditionId state = true)
      ∧ ∀ e ∈ past, e.message.name = x.startCommand → ∀ i,
        Store.get? e.message.instanceId e.before.running = some i →
        (∀ calls, h.collaborators.conditions calls g.conditionId i.state = false) →
          (h.deliver e.before e.message).queue = e.before.queue
            ∧ (h.deliver e.before e.message).events = e.before.events
              ++ [⟨x.validationFailedEvent, e.message.instanceId,
                .validationFailed x.phase g.message⟩] := by
  have c := Definition.compiled_of_compile compiles
  obtain ⟨line, belongs, k, y, at?, rfl⟩ := c.wellFormed.mem_sites_iff.mp site
  generalize spot : Spot.mk line k y = z
  have there : z.In d := by rw [← spot]; exact ⟨belongs, at?⟩
  have here : line.siteAt d k y = z.site d := by rw [← spot]; rfl
  rw [here] at guard ⊢
  rw [Spot.site_step] at guard ⊢
  constructor
  · intro e delivered name
    obtain ⟨earlier, later, split⟩ := List.append_of_mem delivered
    obtain ⟨tok, toks, left, here, message, _, accepted, _⟩ :=
      run.exists_move c (Accepted.kept c pure) split rfl
    rw [← message, Site.workerCommand, Spot.site_stem] at name
    obtain ⟨x, state, rfl, same⟩ := c.eq_work_of_name here there name.symm
    have step : z.step = x.step := by simpa using congrArg Site.step same
    rw [step] at guard ⊢
    have handed := c.handed?_work (run.isCancelled_eq_false c delivered) here message
    obtain ⟨_, _, _, result⟩ := Host.deliver_of_handed handed
    refine ⟨state, handed, by rw [result]; rfl, fun calls => ?_⟩
    rw [pure]
    exact accepted x state List.mem_cons_self g guard
  · intro e delivered name i stored refused
    obtain ⟨earlier, later, split⟩ := List.append_of_mem delivered
    obtain ⟨tok, toks, left, here, message, tracked, _, _⟩ :=
      run.exists_move c (Accepted.kept c pure) split rfl
    rw [← message, Site.startCommand, Spot.site_stem] at name
    obtain ⟨x, rfl, same⟩ := c.eq_start_of_name here there name.symm
    have step : z.step = x.step := by simpa using congrArg Site.step same
    have phase : z.phase d = x.phase d := by simpa using congrArg Site.phase same
    have stem : z.stem d = x.stem d := by simpa using congrArg Site.stem same
    obtain ⟨key, going⟩ := tracked.fits i (by rw [Session.get?_running_only, stored])
    have result := c.deliver_refused here
      (by rw [message]; exact run.isCancelled_eq_false c delivered) stored key going (step ▸ guard)
      (refused _)
    rw [message] at result
    rw [result, Site.validationFailedEvent, Spot.site_stem, Spot.site_phase, phase, stem]
    exact ⟨rfl, rfl⟩

/-- A step that is for unopened parcels. -/
def Step.careful (name : String) : Step :=
  { Step.ofName name with guard := some ⟨"intact", "it was opened"⟩ }

/-- A parcel is weighed, labelled, sealed and stamped while its papers are inspected. -/
def Fork.handling : Fork :=
  ⟨"Pack", [[.ofName "Weigh", .ofName "Label", .careful "Seal", .careful "Stamp"],
    [.ofName "Inspect"]], false, "Ship"⟩

/-- A shipment. -/
def Definition.shipment : Definition where
  name := "Shipment"
  steps := [.ofName "Pack", .ofName "Ship"]
  stateType := none
  loops := []
  branches := []
  approvals := []
  forks := [.handling]
  handlers := [.retry]

/-- A host whose inspection fails at first, and where the parcel is opened before it is tried again. -/
def Host.opening (t : Table) : Host :=
  { Host.faltering t ["Inspect"] with
    collaborators := ⟨fun state update => if update = .null then state else update,
      fun _ _ state => state = .null⟩
    executor := fun calls workType _ =>
      if workType = "Inspect" ∧ .execute workType false ∉ calls then .error ⟨"down", "Io", none⟩
      else if workType = "Wait" then .ok (.bool true)
      else .ok .null }

/-- The parcel is opened between the start of its sealing and the work. It is sealed all the same, as it
was at the start; but it is not stamped. -/
theorem work_accepted_shipment : ∃ (h : Host) (past : List Delivery) (s : Session) (x x' : Site)
    (g : Guard) (e e' : Delivery) (i i' : Instance),
    Definition.shipment.compile .default = .ok h.table ∧ h.collaborators.conditions.IsPure
      ∧ h.Reaches [.number 1] past s ∧ x ∈ Definition.shipment.sites ∧ x.step.guard = some g
      ∧ x' ∈ Definition.shipment.sites ∧ x'.step.guard = some g ∧ e ∈ past ∧ e' ∈ past
      ∧ e.message.name = x.workerCommand
      ∧ Store.get? e.message.instanceId e.before.running = some i
      ∧ h.collaborators.conditions [] g.conditionId i.state = false
      ∧ (∃ state, h.handed? e.before e.message = some ("Seal", state)
        ∧ (h.deliver e.before e.message).calls = (h.executor.run e.before.calls "Seal" state).2
        ∧ ∀ calls, h.collaborators.conditions calls g.conditionId state = true)
      ∧ e'.message.name = x'.startCommand
      ∧ Store.get? e'.message.instanceId e'.before.running = some i'
      ∧ h.collaborators.conditions [] g.conditionId i'.state = false
      ∧ (h.deliver e'.before e'.message).queue = e'.before.queue
      ∧ (h.deliver e'.before e'.message).events = e'.before.events
        ++ [⟨"StampValidationFailed", e'.message.instanceId, .validationFailed "Stamp" g.message⟩] := by
  let sealing : Spot := ⟨.fork .handling 0, 2, .careful "Seal"⟩
  let stamping : Spot := ⟨.fork .handling 0, 3, .careful "Stamp"⟩
  obtain ⟨t, past, s, compiles, run, computed⟩ := Definition.exists_first (d := .shipment)
    Host.opening (fun _ => rfl) 22
    (fun _ past _ => Delivery.passes past 17 (fun _ e _ =>
        e.message.name = Name.workerCommand "Seal"
          ∧ (Store.get? e.message.instanceId e.before.running).any (·.state = .bool true))
      && Delivery.passes past 21 (fun _ e _ => e.message.name = Name.startCommand "Stamp"
        ∧ (Store.get? e.message.instanceId e.before.running).any (·.state = .bool true)))
    (by decide +kernel)
  obtain ⟨works, starts⟩ := Bool.and_eq_true_iff.mp computed
  obtain ⟨before, e, after, split, works⟩ := Delivery.exists_split works
  obtain ⟨before', e', after', split', starts⟩ := Delivery.exists_split starts
  obtain ⟨work, there⟩ := of_decide_eq_true works
  obtain ⟨start, there'⟩ := of_decide_eq_true starts
  obtain ⟨i, stored, opened⟩ := (Option.any_eq_true _ _).mp there
  obtain ⟨i', stored', opened'⟩ := (Option.any_eq_true _ _).mp there'
  have pure : (Host.opening t).collaborators.conditions.IsPure := fun _ _ _ => rfl
  have refuses : ∀ calls (i : Instance), decide (i.state = .bool true) = true →
      (Host.opening t).collaborators.conditions calls "intact" i.state = false := by
    intro calls i opened
    have state : i.state = .bool true := of_decide_eq_true opened
    simp [Host.opening, state]
  have hw := (Definition.compiled_of_compile compiles).wellFormed
  have site : sealing.site .shipment ∈ Definition.shipment.sites :=
    Spot.In.site_mem ⟨List.mem_singleton_self _, rfl⟩ hw
  have site' : stamping.site .shipment ∈ Definition.shipment.sites :=
    Spot.In.site_mem ⟨List.mem_singleton_self _, rfl⟩ hw
  have delivered : e ∈ past := by simp [split]
  have delivered' : e' ∈ past := by simp [split']
  obtain ⟨accepts, _⟩ := run.work_accepted (h := .opening t) compiles pure site rfl
  obtain ⟨_, refused⟩ := run.work_accepted (h := .opening t) compiles pure site' rfl
  obtain ⟨queue, events⟩ := refused e' delivered' start i' stored' fun calls =>
    refuses calls i' opened'
  exact ⟨.opening t, past, s, _, _, ⟨"intact", "it was opened"⟩, e, e', i, i', compiles, pure, run,
    site, rfl, site', rfl, delivered, delivered', work, stored, refuses [] i opened,
    accepts e delivered work, start, stored', refuses [] i' opened', queue, events⟩

end Workflow
