import Workflow.Proofs.Host.Outcome

/-!
Deliveries of tokens: what a host does with each, as one equation per case. The transition table is
not mentioned any more; what a token does to its instance is its rule.
-/

set_option autoImplicit false

namespace Workflow

/-- The name of a work command gives the step back. -/
theorem Name.workerStem?_workerCommand (stem : String) :
    Name.workerStem? (Name.workerCommand stem) = some stem := by
  have chars : (Name.workerCommand stem).toList
      = Name.workerLead.toList ++ (stem.toList ++ Name.workerTail.toList) := by
    simp [Name.workerCommand, String.toList_append]
  have lead : Name.workerLead.toList.isPrefixOf (Name.workerCommand stem).toList = true := by
    rw [chars, List.isPrefixOf_iff_prefix]
    exact List.prefix_append _ _
  have rest : (Name.workerCommand stem).toList.drop Name.workerLead.toList.length
      = stem.toList ++ Name.workerTail.toList := by
    rw [chars, List.drop_left]
  have tail : Name.workerTail.toList.isSuffixOf (stem.toList ++ Name.workerTail.toList) = true := by
    rw [List.isSuffixOf_iff_suffix]
    exact List.suffix_append _ _
  simp only [Name.workerStem?, lead, rest, tail, ↓reduceIte, List.length_append,
    Nat.add_sub_cancel, List.take_left, String.ofList_toList]

namespace Store

variable {κ α : Type} [DecidableEq κ]

/-- The store has lost entries of another one and changed none. -/
def Fewer (fewer store : Store κ α) : Prop :=
  ∀ key, get? key fewer = none ∨ get? key fewer = get? key store

theorem Fewer.refl (store : Store κ α) : Fewer store store := fun _ => .inr rfl

theorem Fewer.of_erase {fewer store : Store κ α} {key : κ} (h : Fewer fewer (erase key store)) :
    Fewer fewer store := by
  intro other
  rcases h other with none | same
  · exact .inl none
  · by_cases hit : key = other
    · exact .inl (by rw [same, get?_erase, if_pos hit])
    · exact .inr (by rw [same, get?_erase, if_neg hit])

theorem Fewer.erased {fewer store : Store κ α} {key : κ} (h : Fewer fewer (erase key store)) :
    get? key fewer = none := by
  rcases h key with none | same
  · exact none
  · rw [same, get?_erase, if_pos rfl]

end Store

namespace Compiled

variable {d : Definition} {h : Host} (c : Compiled d h.table) {id : Key} {s : Session} {tok : Token}

include c

/-! ## Cancelled paths -/

/-- A token waits on a cancelled path when its fork was cancelled by another one. -/
theorem isCancelled_message (here : tok.In d) :
    h.isCancelled s (tok.message d id)
      = ((tok.spot?.bind (·.line.lane?)).any fun lane =>
        (Store.get? (id, Name.forkId lane.1.previousStep) s.cancelled).any (· ≠ lane.2)) := by
  rw [Host.isCancelled, c.pathOf?_message here, Token.message_instanceId]
  cases tok.spot?.bind (·.line.lane?) with
  | none => rfl
  | some lane => rfl

theorem isCancelled_eq_false (here : tok.In d) (off : tok.spot?.bind (·.line.lane?) = none) :
    h.isCancelled s (tok.message d id) = false := by
  rw [c.isCancelled_message here, off]
  rfl

/-! ## One delivery -/

/-- Work is done, whatever has become of the instance. -/
theorem deliver_work {x : Spot} {state : Value} (here : (Token.work x state).In d)
    (calm : h.isCancelled s ((Token.work x state).message d id) = false) :
    ∃ update failure calls, h.deliver s ((Token.work x state).message d id)
      = ({ s with
          delivered := s.delivered ++ [(Token.work x state).message d id]
          calls }).send ((Token.done x update failure).message d id) := by
  have kind : h.table.kindOf? ((Token.work x state).message d id).name = some .executeWorker :=
    c.kindOf?_message here id
  have stem : Name.workerStem? ((Token.work x state).message d id).name = some (x.stem d) :=
    Name.workerStem?_workerCommand _
  have body : ((Token.work x state).message d id).body = .work x.step.workType state := rfl
  simp only [Host.deliver, calm, kind, Host.work, stem, body, Bool.false_eq_true,
    ↓reduceIte]
  cases (h.executor.run s.calls x.step.workType state).1 with
  | ok update => exact ⟨update, none, _, rfl⟩
  | error failure => exact ⟨.null, some failure, _, rfl⟩

/-- A token whose instance is not there is a dead letter. -/
theorem deliver_absent (here : tok.In d) (consumed : tok.kind ≠ .executeWorker)
    (calm : h.isCancelled s (tok.message d id) = false) (gone : Store.get? id s.running = none) :
    ∃ letters, h.deliver s (tok.message d id)
      = { s with delivered := s.delivered ++ [tok.message d id], deadLetters := letters } := by
  have kind := c.kindOf?_message here id
  simp only [Host.deliver, calm, kind, consumed, Token.message_instanceId, gone, Bool.false_eq_true,
    ↓reduceIte, Host.notFound]
  split
  · exact ⟨_, rfl⟩
  · exact ⟨s.deadLetters, rfl⟩

/-- A token whose instance is there does what it is for. -/
theorem deliver_commit (here : tok.In d) (consumed : tok.kind ≠ .executeWorker)
    (calm : h.isCancelled s (tok.message d id) = false) {i j : Instance}
    (running : Store.get? id s.running = some i) {calls : List Call} {es : List Effect}
    (applied : tok.applied d h.collaborators i s.calls = ⟨j, calls, .ok es⟩) :
    h.deliver s (tok.message d id)
      = h.commit { s with delivered := s.delivered ++ [tok.message d id], calls }
          (tok.message d id) j es := by
  have kind := c.kindOf?_message here id
  obtain ⟨tr, found, applies⟩ := c.exists_transition here consumed id
  simp only [Host.deliver, calm, kind, consumed, Token.message_instanceId, running, found,
    Host.transact, applies, applied, Bool.false_eq_true, ↓reduceIte]

/-- A fault leaves the instance as it was. -/
theorem deliver_fault (here : tok.In d) (consumed : tok.kind ≠ .executeWorker)
    (calm : h.isCancelled s (tok.message d id) = false) {i j : Instance}
    (running : Store.get? id s.running = some i) {calls : List Call} {f : Fault}
    (applied : tok.applied d h.collaborators i s.calls = ⟨j, calls, .error f⟩) :
    h.deliver s (tok.message d id)
      = ({ s with delivered := s.delivered ++ [tok.message d id], calls }).fault
          (tok.message d id) f := by
  have kind := c.kindOf?_message here id
  obtain ⟨tr, found, applies⟩ := c.exists_transition here consumed id
  simp only [Host.deliver, calm, kind, consumed, Token.message_instanceId, running, found,
    Host.transact, applies, applied, Bool.false_eq_true, ↓reduceIte]

/-! ## Effects -/

/-- The tokens of a transition are queued. -/
theorem dispatch_token (here : tok.In d) :
    h.dispatch s (tok.message d id) = s.send (tok.message d id) := by
  have kind := c.kindOf?_message here id
  simp only [Host.dispatch, kind]
  cases tok <;> rfl

theorem effects_tokens (cause : Message) {toks : List Token} (here : ∀ tok ∈ toks, tok.In d) :
    h.effects cause s (toks.map fun tok => .send (tok.message d id))
      = { s with queue := s.queue ++ toks.map (Token.message d id) } := by
  induction toks generalizing s with
  | nil => simp [Host.effects]
  | cons tok rest ih =>
    have first : h.dispatch s (tok.message d id) = s.send (tok.message d id) :=
      c.dispatch_token (here tok List.mem_cons_self)
    have others := ih (s := s.send (tok.message d id)) fun tok' h' =>
      here tok' (List.mem_cons_of_mem _ h')
    simp only [Host.effects, List.map_cons, List.foldl_cons, Host.effect, first] at others ⊢
    rw [others]
    simp [Session.send]

/-- A request is recorded under a new correlation id, acknowledged and published. -/
theorem dispatch_request (s : Session) (id : Key) {a g : Approval} (attached : a ∈ d.approvals)
    (link : g ∈ a.chain) :
    ∃ correlation, h.dispatch s ⟨Name.approvalRequested g.gate.name, id,
        .approvalRequested g.gate.name g.gate.approverType⟩
      = { s with
          queue := s.queue ++ [(Token.pending a g correlation).message d id]
          approvals := s.approvals ++ [⟨id, g.gate.name, g.gate.approverType, correlation⟩]
          events := s.events ++ [⟨Name.approvalRequested g.gate.name, id,
            .approvalRequested g.gate.name g.gate.approverType⟩] } := by
  have kind : h.table.kindOf? (Name.approvalRequested g.gate.name) = some .approvalRequested :=
    c.declares_gate attached link
      (m := ⟨Name.approvalRequested g.gate.name, .approvalRequested, g.gate.name⟩)
      (by simp [Entry.messages])
  refine ⟨h.correlator s.approvals id, ?_⟩
  simp only [Host.dispatch, kind]
  rfl

/-- The event of a refusal is published. -/
theorem dispatch_refusal (s : Session) (id : Key) {x : Spot} (here : x.In d)
    (guarded : x.step.isGuarded = true) (body : Body) :
    h.table.kindOf? (Name.validationFailedEvent (x.stem d)) = some .validationFailed
      ∧ h.dispatch s ⟨Name.validationFailedEvent (x.stem d), id, body⟩
        = s.publish ⟨Name.validationFailedEvent (x.stem d), id, body⟩ := by
  have kind := c.declares_validationFailed (here.site_mem c.wellFormed)
    (by simpa [Spot.site] using guarded)
  simp only [Site.validationFailedEvent, Spot.site_stem, Table.Declares] at kind
  refine ⟨kind, ?_⟩
  simp only [Host.dispatch, kind]

/-! ## Forks that start over -/

/-- A message that has a name of a position's is of that kind, and for a position of the same site. -/
theorem exists_spot_of_name (here : tok.In d) {z : Spot} (there : z.In d) {m : MessageEntry}
    (listed : m ∈ (z.site d).messages) (name : m.name = (tok.message d id).name) :
    tok.kind = m.kind ∧ ∃ x, tok.spot? = some x ∧ z.site d = x.site d := by
  have site := there.site_mem c.wellFormed
  have own := c.kindOf?_message here id
  rw [← name, c.kindOf?_eq (Definition.mem_messages_of_plan
    (Definition.mem_sites_iff_mem_plan.mp site) listed)] at own
  exact ⟨(Option.some.inj own).symm, c.site_eq_of_name here site listed name⟩

/-- A message that is named like the completion of a position completes a position of the same
site. -/
theorem eq_done_of_name (here : tok.In d) {z : Spot} (there : z.In d)
    (name : Name.completedEvent (z.stem d) = (tok.message d id).name) :
    ∃ x update failure, tok = .done x update failure ∧ z.site d = x.site d := by
  obtain ⟨kind, x, hx, same⟩ := c.exists_spot_of_name here there
    (m := ⟨Name.completedEvent (z.stem d), .stepCompleted, (z.site d).phase⟩)
    (by simp [Site.messages, Site.completedEvent]) name
  cases tok with
  | done x' update failure =>
    cases hx
    exact ⟨x, update, failure, rfl, same⟩
  | _ => cases kind

/-- The same, of its start. -/
theorem eq_start_of_name (here : tok.In d) {z : Spot} (there : z.In d)
    (name : Name.startCommand (z.stem d) = (tok.message d id).name) :
    ∃ x, tok = .start x ∧ z.site d = x.site d := by
  obtain ⟨kind, x, hx, same⟩ := c.exists_spot_of_name here there
    (m := ⟨Name.startCommand (z.stem d), .startStep, (z.site d).phase⟩)
    (by simp [Site.messages, Site.startCommand]) name
  cases tok with
  | start x' =>
    cases hx
    exact ⟨x, rfl, same⟩
  | _ => cases kind

/-- The same, of its work. -/
theorem eq_work_of_name (here : tok.In d) {z : Spot} (there : z.In d)
    (name : Name.workerCommand (z.stem d) = (tok.message d id).name) :
    ∃ x state, tok = .work x state ∧ z.site d = x.site d := by
  obtain ⟨kind, x, hx, same⟩ := c.exists_spot_of_name here there
    (m := ⟨Name.workerCommand (z.stem d), .executeWorker, (z.site d).phase⟩)
    (by simp [Site.messages, Site.workerCommand]) name
  cases tok with
  | work x' state =>
    cases hx
    exact ⟨x, state, rfl, same⟩
  | _ => cases kind

omit c in
/-- A site of the main line is that of one step, at a position of the main line. -/
theorem eq_main_of_site {x : Spot} {k : Nat} {y : Step}
    (same : (Spot.mk .main k y).site d = x.site d) : x.line = .main ∧ x.step = y := by
  have origin : Origin.mainLine = (x.line.site d x.step).origin := by
    simpa [Spot.site, Line.site] using congrArg Site.origin same
  have step : y = x.step := by simpa using congrArg Site.step same
  refine ⟨?_, step.symm⟩
  cases line : x.line <;> rw [line] at origin <;> cases origin

/-- Only the completion of the step before a fork starts the fork over. -/
theorem eq_done_of_trigger (here : tok.In d) {f : Fork} (hf : f ∈ d.forks)
    (name : Name.completedEvent f.previousStep = (tok.message d id).name) :
    ∃ x update failure, tok = .done x update failure ∧ x.line = .main
      ∧ x.step.identifier = f.previousStep := by
  obtain ⟨k, y, hy, prev⟩ := Definition.exists_step_of_mem_stepNames (c.wellFormed.fork_previous f hf)
  have there : (Spot.mk .main k y).In d := ⟨trivial, hy⟩
  rw [← prev] at name
  obtain ⟨x, update, failure, rfl, same⟩ := c.eq_done_of_name here there name
  obtain ⟨main, step⟩ := eq_main_of_site same
  exact ⟨x, update, failure, rfl, main, by rw [step, prev]⟩

omit c in
/-- Resetting touches the bookkeeping of forks only, and leaves none for the forks it is for. -/
theorem resetForks_cases (h : Host) (s : Session) (m : Message) :
    ∃ joins cancelled, h.resetForks s m = { s with joins, cancelled }
      ∧ Store.Fewer cancelled s.cancelled
      ∧ ∀ f ∈ h.table.forks, f.trigger = m.name →
        Store.get? (m.instanceId, f.id) joins = none
          ∧ Store.get? (m.instanceId, f.id) cancelled = none := by
  unfold Host.resetForks
  have all : ∀ (forks : List ForkLayout) (s : Session), ∃ joins cancelled,
      forks.foldl (fun s f =>
        if f.trigger = m.name then
          { s with
            joins := Store.erase (m.instanceId, f.id) s.joins
            cancelled := Store.erase (m.instanceId, f.id) s.cancelled }
        else s) s = { s with joins, cancelled }
      ∧ Store.Fewer joins s.joins ∧ Store.Fewer cancelled s.cancelled
      ∧ ∀ f ∈ forks, f.trigger = m.name → Store.get? (m.instanceId, f.id) joins = none
        ∧ Store.get? (m.instanceId, f.id) cancelled = none := by
    intro forks
    induction forks with
    | nil => exact fun s => ⟨s.joins, s.cancelled, rfl, .refl _, .refl _, by simp⟩
    | cons f rest ih =>
      intro s
      by_cases hit : f.trigger = m.name
      · obtain ⟨joins, cancelled, done, fewerJ, fewerC, gone⟩ := ih { s with
          joins := Store.erase (m.instanceId, f.id) s.joins
          cancelled := Store.erase (m.instanceId, f.id) s.cancelled }
        refine ⟨joins, cancelled, ?_, fewerJ.of_erase, fewerC.of_erase, ?_⟩
        · simp only [List.foldl_cons, hit, ↓reduceIte, done]
        · intro f' hf' hit'
          rcases List.mem_cons.mp hf' with rfl | hf'
          · exact ⟨fewerJ.erased, fewerC.erased⟩
          · exact gone f' hf' hit'
      · obtain ⟨joins, cancelled, done, fewerJ, fewerC, gone⟩ := ih s
        refine ⟨joins, cancelled, ?_, fewerJ, fewerC, ?_⟩
        · simp only [List.foldl_cons, hit, ↓reduceIte, done]
        · intro f' hf' hit'
          rcases List.mem_cons.mp hf' with rfl | hf'
          · exact absurd hit' hit
          · exact gone f' hf' hit'
  obtain ⟨joins, cancelled, done, _, fewer, gone⟩ := all h.table.forks s
  exact ⟨joins, cancelled, done, fewer, gone⟩

omit c in
theorem resetForks_of_ne {m : Message} (off : ∀ f ∈ h.table.forks, f.trigger ≠ m.name) :
    h.resetForks s m = s := by
  unfold Host.resetForks
  generalize h.table.forks = forks at off
  induction forks with
  | nil => rfl
  | cons f rest ih =>
    rw [List.foldl_cons, if_neg (off f List.mem_cons_self)]
    exact ih fun f' hf' => off f' (List.mem_cons_of_mem _ hf')

/-- Most tokens start no fork over. -/
theorem resetForks_message (here : tok.In d)
    (off : ∀ x update failure, tok = .done x update failure → x.line ≠ .main) :
    h.resetForks s (tok.message d id) = s := by
  apply resetForks_of_ne
  rw [c.forks_eq]
  intro layout hlayout name
  obtain ⟨f, hf, rfl⟩ := List.mem_map.mp hlayout
  obtain ⟨x, update, failure, rfl, main, _⟩ := c.eq_done_of_trigger here hf name
  exact off x update failure rfl main

end Compiled

end Workflow
