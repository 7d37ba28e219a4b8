import Workflow.Proofs.Host.Move

/-!
What every run keeps up, whatever becomes of its instances.

`Tracked` says that a session that holds one instance can be read in terms of the definition: its
queue is a list of tokens, none of them waits on a cancelled path, its instance is stored under its
own key and goes on, and its approval requests are requests of gates. So its next delivery is a move,
and `Tracked.move` says that a move leads to such a session again.
-/

set_option autoImplicit false

namespace Workflow

/-- The session holds one instance, and `toks` wait for it. -/
structure Tracked (d : Definition) (h : Host) (id : Key) (s : Session) (toks : List Token) : Prop where
  queue : s.queue = toks.map (Token.message d id)
  here : ∀ tok ∈ toks, tok.In d
  calm : ∀ tok ∈ toks, h.isCancelled s (tok.message d id) = false
  fits : ∀ i, Store.get? id s.running = some i → i.id = id ∧ i.isFinished = false
  /-- Only fail-fast forks are ever cancelled. -/
  slow : ∀ f ∈ d.forks, f.failFast = false →
    Store.get? (id, Name.forkId f.previousStep) s.cancelled = none
  gates : ∀ r ∈ s.approvals, r.instanceId = id →
    ∃ a ∈ d.approvals, ∃ g ∈ a.chain, r.approval = g.gate.name

theorem Host.isCancelled_of_fewer {h : Host} {s s' : Session} {m : Message}
    (fewer : Store.Fewer s'.cancelled s.cancelled) (calm : h.isCancelled s m = false) :
    h.isCancelled s' m = false := by
  unfold Host.isCancelled at calm ⊢
  split
  next fork path found =>
    rw [found] at calm
    rcases fewer (m.instanceId, fork.id) with none | same
    · rw [none]
      rfl
    · rw [same]
      exact calm
  next => rfl

/-! ## Positions -/

/-- Failures on a path go to the handler of the whole process. -/
theorem Spot.scope_of_lane {d : Definition} {x : Spot} {g : Handler} (takes : x.handler? d = some g)
    {f : Fork} {p : Nat} (line : x.line = .fork f p) : g.scope = .workflow := by
  rw [Spot.handler?, line] at takes
  simpa using List.find?_some takes

theorem Definition.WellFormed.eq_of_scope {d : Definition} (hw : d.WellFormed) {g g' : Handler}
    (hg : g ∈ d.handlers) (hg' : g' ∈ d.handlers) (scope : g.scope = g'.scope) : g = g' :=
  List.inj_on_of_nodup_map hw.handler_scopes hg hg' scope

theorem Spot.line_of_lane? {x : Spot} {lane : Fork × Nat} (onLane : x.line.lane? = some lane) :
    x.line = .fork lane.1 lane.2 := by
  cases line : x.line <;> rw [line] at onLane <;> cases onLane
  rfl

/-- The handler of a path, if it starts steps again, is for processes whose forks are not
fail-fast. -/
theorem Definition.WellFormed.lane_slow {d : Definition} (hw : d.WellFormed) {y : Spot}
    (here : y.In d) {g : Handler} (takes : y.handler? d = some g) (terminal : g.isTerminal = false)
    {lane : Fork × Nat} (onLane : y.line.lane? = some lane) :
    lane.1.failFast = false ∧ lane.1 ∈ d.forks := by
  have line := Spot.line_of_lane? onLane
  have belongs := Spot.fork_mem here line
  exact ⟨hw.handler_ends g (Spot.handler_mem takes) (Spot.scope_of_lane takes line) terminal lane.1
    belongs, belongs⟩

/-- So the failures of a fork that cancels its paths end the process. -/
theorem Definition.WellFormed.isTerminal_of_failFast {d : Definition} (hw : d.WellFormed) {f : Fork}
    (declared : f ∈ d.forks) (failFast : f.failFast = true) {x : Spot} {g : Handler}
    (takes : x.handler? d = some g) {p : Nat} (line : x.line = .fork f p) : g.isTerminal = true := by
  by_contra going
  have slow := hw.handler_ends g (Spot.handler_mem takes) (Spot.scope_of_lane takes line)
    (by simpa using going) f declared
  rw [failFast] at slow
  cases slow

namespace Tracked

variable {d : Definition} {h : Host} {id : Key} {s s' : Session} {toks sent : List Token}

/-- Tokens are queued, and no fork is cancelled. -/
theorem step (tracked : Tracked d h id s toks)
    (queue : s'.queue = s.queue ++ sent.map (Token.message d id)) (here : ∀ tok ∈ sent, tok.In d)
    (fewer : Store.Fewer s'.cancelled s.cancelled)
    (calm : ∀ tok ∈ sent, h.isCancelled s' (tok.message d id) = false)
    (fits : ∀ i, Store.get? id s'.running = some i → i.id = id ∧ i.isFinished = false)
    (gates : ∀ r ∈ s'.approvals, r ∈ s.approvals ∨ r.instanceId ≠ id
      ∨ ∃ a ∈ d.approvals, ∃ g ∈ a.chain, r.approval = g.gate.name) :
    Tracked d h id s' (toks ++ sent) where
  queue := by rw [queue, tracked.queue, List.map_append]
  here tok htok := (List.mem_append.mp htok).elim (tracked.here tok) (here tok)
  calm tok htok := (List.mem_append.mp htok).elim
    (fun old => Host.isCancelled_of_fewer fewer (tracked.calm tok old)) (calm tok)
  fits := fits
  slow f hf slow := by
    rcases fewer (id, Name.forkId f.previousStep) with none | same
    · exact none
    · rw [same, tracked.slow f hf slow]
  gates r hr own := (gates r hr).elim (fun old => tracked.gates r old own)
    fun fresh => fresh.elim (absurd own) fun gate => gate

/-- Nothing is queued. -/
theorem still (tracked : Tracked d h id s toks) (queue : s'.queue = s.queue)
    (fewer : Store.Fewer s'.cancelled s.cancelled)
    (fits : ∀ i, Store.get? id s'.running = some i → i.id = id ∧ i.isFinished = false)
    (gates : ∀ r ∈ s'.approvals, r ∈ s.approvals ∨ r.instanceId ≠ id) :
    Tracked d h id s' toks := by
  have same : Tracked d h id s' (toks ++ []) :=
    tracked.step (by simpa using queue) (by simp) fewer (by simp) fits
      fun r hr => (gates r hr).imp_right .inl
  rwa [List.append_nil] at same

theorem fits_insert {running : Store Key Instance} {j : Instance} (key : j.id = id)
    (going : j.isFinished = false) (i : Instance)
    (stored : Store.get? id (Store.insert id j running) = some i) :
    i.id = id ∧ i.isFinished = false := by
  rw [Store.get?_insert_self] at stored
  cases stored
  exact ⟨key, going⟩

theorem fits_erase {running : Store Key Instance} (i : Instance)
    (stored : Store.get? id (Store.erase id running) = some i) : i.id = id ∧ i.isFinished = false := by
  rw [Store.get?_erase, if_pos rfl] at stored
  cases stored

/-- A token that is on no path can always wait. -/
theorem send (c : Compiled d h.table) (tracked : Tracked d h id s toks) {tok : Token}
    (queue : s'.queue = s.queue ++ [tok.message d id]) (here : tok.In d)
    (fewer : Store.Fewer s'.cancelled s.cancelled)
    (free : ∀ lane, tok.spot?.bind (·.line.lane?) = some lane →
      h.isCancelled s' (tok.message d id) = false)
    (fits : ∀ i, Store.get? id s'.running = some i → i.id = id ∧ i.isFinished = false)
    (gates : ∀ r ∈ s'.approvals, r ∈ s.approvals ∨ r.instanceId ≠ id
      ∨ ∃ a ∈ d.approvals, ∃ g ∈ a.chain, r.approval = g.gate.name) :
    Tracked d h id s' (toks ++ [tok]) := by
  refine tracked.step queue (by simpa using here) fewer ?_ fits gates
  intro tok' only
  rw [List.mem_singleton.mp only]
  cases lane : tok.spot?.bind (·.line.lane?) with
  | none => exact c.isCancelled_eq_false here lane
  | some lane' => exact free lane' lane

theorem settle (c : Compiled d h.table) (tracked : Tracked d h id s toks) {i : Instance}
    (key : i.id = id) {left : List Token} (settles : Settles d id s toks i s' left) :
    Tracked d h id s' left := by
  cases settles with
  | start y here plain alike going =>
    refine tracked.send c rfl here (.refl _) ?_ (fits_insert (alike.id.trans key) going)
      fun r hr => .inl hr
    intro lane onLane
    rw [Token.spot?, Option.bind_some, plain.lane?_eq] at onLane
    cases onLane
  | finish finished => exact tracked.still rfl (.refl _) fits_erase fun r hr => .inl hr
  | request a g attached link alike phase going correlation m =>
    refine tracked.send c rfl ⟨attached, link⟩ (.refl _) ?_
      (fits_insert (alike.id.trans key) going) ?_
    · intro lane onLane
      cases onLane
    · intro r hr
      rcases List.mem_append.mp hr with old | new
      · exact .inl old
      · rw [List.mem_singleton.mp new]
        exact .inr (.inr ⟨a, attached, g, link, rfl⟩)

/-- What a cancellation leaves can wait. -/
theorem sweep (tracked : Tracked d h id s toks) {f : Fork} (hf : f ∈ d.forks)
    (hw : d.WellFormed) (failFast : f.failFast = true) {p : Nat}
    (queue : s'.queue = s.queue.filter fun m => !h.isCancelled s' m)
    (cancelled : s'.cancelled = Store.insert (id, Name.forkId f.previousStep) p s.cancelled)
    (approvals : s'.approvals = s.approvals)
    (fits : ∀ i, Store.get? id s'.running = some i → i.id = id ∧ i.isFinished = false) :
    Tracked d h id s' (toks.filter fun tok => !h.isCancelled s' (tok.message d id)) where
  queue := by
    rw [queue, tracked.queue, List.filter_map]
    rfl
  here tok htok := tracked.here tok (List.mem_filter.mp htok).1
  calm tok htok := by simpa using (List.mem_filter.mp htok).2
  fits := fits
  slow f' hf' slow := by
    rw [cancelled, Store.get?_insert_of_ne, tracked.slow f' hf' slow]
    intro same
    have one : f = f' := List.inj_on_of_nodup_map hw.forks_distinct hf hf'
      ((String.append_right_inj _).mp (Prod.mk.inj same).2)
    rw [← one, failFast] at slow
    cases slow
  gates := by
    rw [approvals]
    exact tracked.gates

/-- A move leads to such a session again. -/
theorem move (c : Compiled d h.table) (tracked : Tracked d h id s toks) {tok : Token}
    (here : tok.In d) (calm : h.isCancelled s (tok.message d id) = false) {left : List Token}
    (move : Move d h id s toks tok s' left) : Tracked d h id s' left := by
  have key : ∀ {i j : Instance}, Store.get? id s.running = some i → i.Alike j → j.id = id :=
    fun stored alike => alike.id.trans (tracked.fits _ stored).1
  -- a token where the delivered one was can wait if that one could
  have along : ∀ {x : Spot} {tok' : Token}, tok.spot? = some x → tok'.In d →
      (∃ y : Spot, tok'.spot? = some y ∧ y.line = x.line) →
        h.isCancelled s (tok'.message d id) = false := by
    intro x tok' atX here' ⟨y, atY, same⟩
    rw [c.isCancelled_message here, atX, Option.bind_some] at calm
    rw [c.isCancelled_message here', atY, Option.bind_some, same]
    exact calm
  cases move with
  | work x state update failure delivered calls =>
    have here' : (Token.done x update failure).In d := here
    exact tracked.send c rfl here' (.refl _) (fun _ _ => along rfl here' ⟨x, rfl, rfl⟩) tracked.fits
      fun r hr => .inl hr
  | lost tok consumed gone delivered deadLetters =>
    exact tracked.still rfl (.refl _) tracked.fits fun r hr => .inl hr
  | begin x i stored delivered calls =>
    have here' : (Token.work x i.state).In d := here
    exact tracked.send c rfl here' (.refl _) (fun _ _ => along rfl here' ⟨x, rfl, rfl⟩)
      (fits_insert (tracked.fits i stored).1 (tracked.fits i stored).2) fun r hr => .inl hr
  | refuse x i stored m kind own delivered calls =>
    exact tracked.still rfl (.refl _) (fits_insert (tracked.fits i stored).1 (tracked.fits i stored).2)
      fun r hr => .inl hr
  | settle x update failure plain i i' stored alike joins cancelled fewer delivered calls s' left
      settles =>
    have reset : Tracked d h id { s with joins, cancelled, delivered, calls } toks :=
      tracked.still rfl fewer tracked.fits fun r hr => .inl hr
    exact reset.settle c (key stored alike) settles
  | cascade x update failure f declared main i j stored alike going joins cancelled fewer unjoined
      uncancelled delivered calls =>
    refine tracked.step rfl (fun tok' htok' => (Fork.starts_in declared htok').1) fewer ?_
      (fits_insert (key stored alike) going) fun r hr => .inl hr
    intro tok' htok'
    obtain ⟨here', p, onPath⟩ := Fork.starts_in declared htok'
    rw [c.isCancelled_message here', onPath, Option.any_some, uncancelled]
    rfl
  | onward x y update failure here' same after off i j stored alike going delivered calls =>
    exact tracked.send c rfl here' (.refl _) (fun _ _ => along rfl here' ⟨y, rfl, same⟩)
      (fits_insert (key stored alike) going) fun r hr => .inl hr
  | report x update failure f p line i j stored alike going short delivered calls =>
    exact tracked.still rfl (.refl _) (fits_insert (key stored alike) going) fun r hr => .inl hr
  | release x update failure f p line y here' main i j stored alike going all delivered calls =>
    refine tracked.send c rfl here' (.refl _) ?_ (fits_insert (key stored alike) going)
      fun r hr => .inl hr
    intro lane onLane
    simp only [Token.spot?, Option.bind_some, main] at onLane
    cases onLane
  | close x update failure g line terminal i j stored finished delivered calls =>
    exact tracked.still rfl (.refl _) fits_erase fun r hr => .inl hr
  | resume x y update failure g line last terminal here' i j stored failed takes alike going delivered
      calls =>
    refine tracked.send c rfl here' (.refl _) ?_ (fits_insert (key stored alike) going)
      fun r hr => .inl hr
    -- a handler that starts paths again leaves no fork to be cancelled
    intro lane onLane
    have sent : (Token.start y).In d := here'
    obtain ⟨slow, belongs⟩ := c.wellFormed.lane_slow here' takes terminal onLane
    rw [c.isCancelled_message sent, onLane, Option.any_some]
    simp only [tracked.slow lane.1 belongs slow]
    rfl
  | trigger x update failure g takes slow context failed i j stored alike going joins cancelled fewer
      kept delivered calls =>
    have here' : (Token.trigger g context).In d := Spot.handler_mem takes
    refine tracked.send c rfl here' fewer ?_ (fits_insert (key stored alike) going)
      fun r hr => .inl hr
    intro lane onLane
    cases onLane
  | cancel x update failure f p line failFast g takes context failed i j stored alike going delivered
      calls =>
    have here' : (Token.trigger g context).In d := Spot.handler_mem takes
    have swept : Tracked d h id (h.sweep { s with
        running := Store.insert id j s.running
        cancelled := Store.insert (id, Name.forkId f.previousStep) p s.cancelled
        delivered, calls }) _ :=
      tracked.sweep (Spot.fork_mem here line) c.wellFormed failFast rfl rfl rfl
        (fits_insert (key stored alike) going)
    refine swept.send c rfl here' (.refl _) ?_ (fits_insert (key stored alike) going)
      fun r hr => .inl hr
    intro lane onLane
    cases onLane
  | abort x update failure f p line failFast i j stored finished delivered calls =>
    exact tracked.sweep (Spot.fork_mem here line) c.wellFormed failFast rfl rfl rfl fits_erase
  | fault x update failure off i stored record own kind delivered calls =>
    exact tracked.still rfl (.refl _) tracked.fits fun r hr => .inl hr
  | capture g context first rest steps i stored delivered calls =>
    have here' : (Token.start ⟨.recovery g, 0, first⟩).In d := ⟨here, by simp [Line.steps, steps]⟩
    refine tracked.send c rfl here' (.refl _) ?_
      (fits_insert (tracked.fits i stored).1 (tracked.fits i stored).2) fun r hr => .inl hr
    intro lane onLane
    cases onLane
  | acknowledge a g correlation i stored delivered calls =>
    exact tracked.still rfl (.refl _) (fits_insert (tracked.fits i stored).1 (tracked.fits i stored).2)
      fun r hr => .inl hr
  | ignore tok signal i j stored alike phase going delivered calls =>
    exact tracked.still rfl (.refl _) (fits_insert (key stored alike) going) fun r hr => .inl hr
  | answer tok signal i i' stored asked key' cleared delivered calls s' left settles =>
    have logged : Tracked d h id { s with delivered, calls } toks :=
      tracked.still rfl (.refl _) tracked.fits fun r hr => .inl hr
    exact logged.settle c (key'.trans (tracked.fits i stored).1) settles

end Tracked

end Workflow
