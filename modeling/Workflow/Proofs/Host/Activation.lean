import Workflow.Proofs.Host.Join
import Workflow.Proofs.Host.Placement

/-!
Activations of forks that wait for all their paths.

An activation is a completion of the step before a fork that carries no failure; its round are the
deliveries to the instance from there to the next completion of that step. Where no handler takes the
failures of paths, every path ends in one report, whether its last step succeeds or one of its steps
fails. `Underway` is the invariant of a round until its join is released: a path that has not reported
still has its token, unless a step on it refused to start, and the state is the one that the round
began with and the updates of the paths so far.
-/

set_option autoImplicit false

namespace Workflow

/-! ## Rounds -/

/-- The update that a message brings from a step on a path of a fork. -/
def Fork.update? (f : Fork) (m : Message) : Option Value :=
  match m.body with
  | .completed update _ =>
    if m.name ∈ f.paths.flatten.map (fun x => Name.completedEvent x.identifier) then some update
    else none
  | _ => none

namespace Host

/-- The deliveries to an instance up to the next completion of the step before a fork. -/
def round (h : Host) (f : Fork) (id : Key) (after : List Delivery) : List Delivery :=
  (after.filter (·.message.instanceId = id)).takeWhile fun e => !h.triggers f e

/-- A state, and the updates from the paths of a fork merged into it as they are delivered. -/
def merged (h : Host) (f : Fork) (es : List Delivery) (state : Value) : Value :=
  (es.filterMap fun e => f.update? e.message).foldl h.collaborators.reduce state

/-- A delivery in which a step on a path of a fork refuses to start. -/
def Refuses (h : Host) (f : Fork) (e : Delivery) : Prop :=
  e.message.name ∈ f.paths.flatten.map (fun x => Name.startCommand x.identifier)
    ∧ (Store.get? e.message.instanceId (h.deliver e.before e.message).running).map Instance.phase
      = some Name.validationFailed

theorem merged_append_of_none {h : Host} {f : Fork} {e : Delivery} (none : f.update? e.message = none)
    (es : List Delivery) (state : Value) : h.merged f (es ++ [e]) state = h.merged f es state := by
  simp [merged, none]

theorem merged_append_of_some {h : Host} {f : Fork} {e : Delivery} {update : Value}
    (some : f.update? e.message = some update) (es : List Delivery) (state : Value) :
    h.merged f (es ++ [e]) state = h.collaborators.reduce (h.merged f es state) update := by
  simp [merged, some]

end Host

/-- Only completions bring updates. -/
theorem Fork.update?_of_kind {d : Definition} {f : Fork} {tok : Token} (off : tok.kind ≠ .stepCompleted)
    (id : Key) : f.update? (tok.message d id) = none := by
  cases tok with
  | done => exact absurd rfl off
  | _ => rfl

theorem Spot.mem_paths {d : Definition} {x : Spot} (here : x.In d) {f : Fork} {p : Nat}
    (line : x.line = .fork f p) : x.step ∈ f.paths.flatten := by
  have inside := here.2
  rw [line, Line.steps, List.getD_eq_getElem?_getD] at inside
  cases path : f.paths[p]? with
  | none =>
    rw [path] at inside
    cases inside
  | some steps =>
    rw [path] at inside
    exact List.mem_flatten.mpr ⟨steps, List.mem_of_getElem? path, List.mem_of_getElem? inside⟩

theorem Spot.stem_of_lane {d : Definition} {x : Spot} {f : Fork} {p : Nat}
    (line : x.line = .fork f p) : x.stem d = x.step.identifier := by
  simp [Spot.stem, line, Line.stem, Line.phase]

/-- A completion on a path brings its update. -/
theorem Fork.update?_done {d : Definition} {x : Spot} (here : x.In d) {f : Fork} {p : Nat}
    (line : x.line = .fork f p) (update : Value) (failure : Option StepFailure) (id : Key) :
    f.update? ((Token.done x update failure).message d id) = some update := by
  have listed : Name.completedEvent (x.stem d)
      ∈ f.paths.flatten.map (fun x => Name.completedEvent x.identifier) := by
    rw [Spot.stem_of_lane line]
    exact List.mem_map_of_mem (Spot.mem_paths here line)
  exact if_pos listed

/-! ## What an instance sees of a delivery -/

namespace Host

variable {d : Definition} {h : Host} {f : Fork} {id : Key} {e : Delivery}

theorem committed?_only (own : e.message.instanceId = id) :
    h.committed? (e.only id) = h.committed? e := by
  subst own
  have calm : h.isCancelled (e.before.only e.message.instanceId) e.message
      = h.isCancelled e.before e.message := isCancelled_only rfl
  simp only [committed?, Delivery.only, calm, Session.get?_running_only]
  rfl

theorem triggers_only (own : e.message.instanceId = id) :
    h.triggers f (e.only id) = h.triggers f e := by
  rw [triggers, committed?_only own, triggers]
  rfl

theorem joinOf_only (s : Session) : (s.only id).joinOf id f = s.joinOf id f := by
  rw [Session.joinOf, Session.get?_joins_only, Session.joinOf]

/-- What becomes of the instance. -/
theorem get?_deliver_only (home : AtHome e.before) (own : e.message.instanceId = id) :
    Store.get? id (h.deliver (e.only id).before (e.only id).message).running
      = Store.get? id (h.deliver e.before e.message).running := by
  have seen : h.deliver (e.only id).before (e.only id).message
      = (h.deliver e.before e.message).only id := (only_deliver_self home own).symm
  rw [seen, Session.get?_running_only]

theorem refuses_only (home : AtHome e.before) (own : e.message.instanceId = id) :
    h.Refuses f (e.only id) ↔ h.Refuses f e := by
  have seen := get?_deliver_only (h := h) home own
  subst own
  unfold Refuses
  rw [show (e.only e.message.instanceId).message.instanceId = e.message.instanceId from rfl, seen]
  rfl

theorem releases_only (c : Compiled d h.table) (declared : f ∈ d.forks) (home : AtHome e.before)
    (own : e.message.instanceId = id) : h.Releases f (e.only id) ↔ h.Releases f e := by
  have home' : (e.only id).AtHome := by
    intro i stored
    subst own
    exact home _ i (by rwa [Delivery.only, Session.get?_running_only] at stored)
  have reports : h.reports? f (e.only id) = h.reports? f e := by
    rw [reports?, committed?_only own, reports?]
  have join : (e.only id).before.joinOf (e.only id).message.instanceId f
      = e.before.joinOf e.message.instanceId f := by
    subst own
    exact joinOf_only e.before
  rw [c.releases_iff home' declared, c.releases_iff (fun i stored => home _ i stored) declared,
    reports, join]

end Host

/-! ## The start of a round -/

namespace Fork

variable {d : Definition} {f : Fork}

/-- There is a start for each path. -/
theorem exists_mem_starts (hw : d.WellFormed) (declared : f ∈ d.forks) {q : Nat}
    (inside : q < f.paths.length) :
    ∃ first, (f.paths.getD q []).head? = some first
      ∧ Token.start ⟨.fork f q, 0, first⟩ ∈ f.starts := by
  have steps : f.paths.getD q [] ≠ [] := by
    intro empty
    apply hw.fork_path_ne f declared
    rw [← empty, List.getD_eq_getElem?_getD, List.getElem?_eq_getElem inside, Option.getD_some]
    exact List.getElem_mem inside
  obtain ⟨first, rest, path⟩ := List.exists_cons_of_ne_nil steps
  have head : (f.paths.getD q []).head? = some first := by rw [path, List.head?_cons]
  exact ⟨first, head, List.mem_filterMap.mpr ⟨q, List.mem_range.mpr inside, by rw [head]; rfl⟩⟩

theorem length_starts (hw : d.WellFormed) (declared : f ∈ d.forks) :
    f.starts.length = f.paths.length := by
  rw [starts, List.filterMap_length_eq_length.mpr, List.length_range]
  intro q hq
  obtain ⟨first, head, _⟩ := exists_mem_starts hw declared (List.mem_range.mp hq)
  rw [head]
  rfl

theorem weight_starts_pos (hw : d.WellFormed) (declared : f ∈ d.forks) (slot : String)
    (toks : List Token) {q : Nat} (inside : q < f.paths.length) :
    0 < f.weight d slot (toks ++ f.starts) q := by
  obtain ⟨first, _, member⟩ := exists_mem_starts hw declared inside
  refine List.countP_pos_iff.mpr ⟨_, List.mem_append_right _ member, ?_⟩
  exact decide_eq_true (Token.path?_of_lane rfl rfl)

end Fork

namespace Compiled

variable {d : Definition} {h : Host} (c : Compiled d h.table) {id : Key} {s s' : Session}
  {toks left : List Token} {f : Fork} {x : Spot} {update : Value} {i : Instance}

include c

/-- The success of the step before a fork queues the starts of its paths. -/
theorem queue_activation (here : x.In d) (main : x.line = .main) (declared : f ∈ d.forks)
    (before : x.step.identifier = f.previousStep)
    (calm : h.isCancelled s ((Token.done x update none).message d id) = false)
    (stored : Store.get? id s.running = some i) (key : i.id = id) (going : i.isFinished = false) :
    (h.deliver s ((Token.done x update none).message d id)).queue
      = s.queue ++ f.starts.map (Token.message d id) := by
  have there : (Token.done x update none).In d := here
  have going : ({ i with state := h.collaborators.reduce i.state update }).isFinished = false := going
  have applied : (Token.done x update none).applied d h.collaborators i s.calls
      = ⟨{ i with state := h.collaborators.reduce i.state update }, s.calls,
        .ok (f.starts.map fun tok => .send (tok.message d id))⟩ := by
    show d.completed h.collaborators x.line x.index x.step update none i s.calls = _
    simp only [Definition.completed, main, c.wellFormed.succeeded_fork declared before,
      Fork.started_eq d, key]
  rw [c.deliver_commit there (by simp [Token.kind]) calm stored applied]
  obtain ⟨joins, cancelled, reset, _⟩ := resetForks_cases h
    { s with delivered := s.delivered ++ [(Token.done x update none).message d id] }
    ((Token.done x update none).message d id)
  rw [c.commit_tokens (Token.message_instanceId ..) reset going
    fun tok htok => (Fork.starts_in declared htok).1]

/-- So it starts the fork, and no other move is its delivery. -/
theorem cascade_of_activation (tracked : Tracked d h id s toks) (here : x.In d)
    (main : x.line = .main) (declared : f ∈ d.forks) (before : x.step.identifier = f.previousStep)
    (calm : h.isCancelled s ((Token.done x update none).message d id) = false)
    (stored : Store.get? id s.running = some i)
    (move : Move d h id s toks (.done x update none) s' left)
    (result : h.deliver s ((Token.done x update none).message d id) = s') :
    left = toks ++ f.starts ∧ s'.joinOf id f = .empty
      ∧ ∃ j, Store.get? id s'.running = some j ∧ i.Alike j := by
  obtain ⟨key, going⟩ := tracked.fits i stored
  have paths := c.wellFormed.fork_paths f declared
  -- a fork has two paths at least, so more is queued than any other move does
  have grown : s'.queue.length = s.queue.length + f.paths.length := by
    rw [← result, c.queue_activation here main declared before calm stored key going,
      List.length_append, List.length_map, Fork.length_starts c.wellFormed declared]
  have only : ∀ {j : Instance}, Store.get? id s.running = some j → j = i := fun there =>
    Option.some.inj (there.symm.trans stored)
  cases move with
  | lost tok consumed gone =>
    rw [gone] at stored
    cases stored
  | settle x update failure plain i i' there alike joins cancelled fewer delivered calls s' left
      settles =>
    cases settles <;> simp only [List.length_append, List.length_singleton] at grown <;> omega
  | cascade x update failure f' declared' main' i' j there alike going joins cancelled fewer unjoined
      uncancelled delivered calls after =>
    cases only there
    have same : f' = f := List.inj_on_of_nodup_map c.wellFormed.forks_distinct declared' declared
      (after.trans before)
    subst same
    refine ⟨rfl, ?_, j, Store.get?_insert_self .., alike⟩
    rw [Session.joinOf, unjoined, Option.getD_none]
  | onward x y update failure here' same after off =>
    rw [main] at off
    exact absurd trivial off
  | report x update failure f' p line | release x update failure f' p line
  | cancel x update failure f' p line | abort x update failure f' p line
  | close x update failure g line | resume x y update failure g line =>
    rw [main] at line
    cases line
  | trigger x update failure g takes slow context failed i j there =>
    simp only [List.length_append, List.length_singleton] at grown
    omega
  | fault x update failure off i there =>
    simp only at grown
    omega
  | ignore tok signal => simp [Token.kind] at signal
  | answer tok signal => simp [Token.kind] at signal

end Compiled

/-! ## A round under way -/

/-- A round whose join is not released: `es` has been delivered in it, and `start` was the state before.
A path that has not reported still has its token, unless a refusal took it. -/
structure Underway (d : Definition) (h : Host) (f : Fork) (id : Key) (start : Value)
    (es : List Delivery) (s : Session) (toks : List Token) (i : Instance) : Prop where
  stored : Store.get? id s.running = some i
  unasked : i.pendingApproval = none
  forked : Forked d f i.failedStep (s.joinOf id f) toks
  sound : f.Sound d i.failedStep (s.joinOf id f).reported toks
  short : (s.joinOf id f).reported.length < f.paths.length
  owed : (∃ t ∈ es, h.Refuses f t) ∨ ∀ q, q < f.paths.length →
    q ∈ (s.joinOf id f).reported ∨ 0 < f.weight d i.failedStep toks q
  state : i.state = h.merged f es start

namespace Underway

variable {d : Definition} {h : Host} {f : Fork} {id : Key} {start : Value} {es : List Delivery}
  {s s' : Session} {toks left : List Token} {tok tok' : Token} {i j : Instance} {t : Delivery}

/-- The paths start. -/
theorem starts (hw : d.WellFormed) (declared : f ∈ d.forks)
    (nothing : toks.filter Token.isControl = []) (stored : Store.get? id s.running = some i)
    (unasked : i.pendingApproval = none) (unjoined : s.joinOf id f = .empty) :
    Underway d h f id i.state [] s (toks ++ f.starts) i where
  stored := stored
  unasked := unasked
  forked := by
    rw [unjoined]
    exact .starts declared nothing _
  sound := by
    rw [unjoined]
    exact Fork.sound_append_starts d f _ nothing
  short := by
    have paths := hw.fork_paths f declared
    rw [unjoined]
    show 0 < f.paths.length
    omega
  owed := .inr fun q inside => .inr (Fork.weight_starts_pos hw declared _ toks inside)
  state := rfl

/-- The tokens of a round come and go, each in place of one on its path. -/
theorem carry (holds : Underway d h f id start es s toks i)
    (stored : Store.get? id s'.running = some j) (alike : i.Alike j)
    (joins : s'.joinOf id f = s.joinOf id f)
    (forked : Forked d f i.failedStep (s.joinOf id f) left)
    (same : ∀ q, f.weight d i.failedStep left q = f.weight d i.failedStep toks q)
    (state : j.state = h.merged f (es ++ [t]) start) :
    Underway d h f id start (es ++ [t]) s' left j where
  stored := stored
  unasked := alike.pendingApproval.trans holds.unasked
  forked := by
    rw [alike.failedStep, joins]
    exact forked
  sound := by
    rw [alike.failedStep, joins]
    exact holds.sound.congr same
  short := by
    rw [joins]
    exact holds.short
  owed := by
    rw [alike.failedStep, joins]
    refine holds.owed.imp (fun ⟨e, he, refuses⟩ => ⟨e, List.mem_append_left _ he, refuses⟩) ?_
    intro owed q inside
    rw [same]
    exact owed q inside
  state := state

/-- Tokens that carry no control do not count. -/
theorem of_control (holds : Underway d h f id start es s toks i)
    (control : left.filter Token.isControl = toks.filter Token.isControl) :
    Underway d h f id start es s left i := by
  have same : ∀ q, f.weight d i.failedStep left q = f.weight d i.failedStep toks q :=
    Fork.weight_of_control control
  exact { holds with
    forked := holds.forked.of_control control
    sound := holds.sound.congr same
    owed := holds.owed.imp_right fun owed q inside => by
      rw [same]
      exact owed q inside }

/-- A step refuses to start. -/
theorem refuse (holds : Underway d h f id start es s (tok :: toks) i)
    (stored : Store.get? id s'.running = some j) (alike : i.Alike j)
    (joins : s'.joinOf id f = s.joinOf id f) (refuses : h.Refuses f t)
    (state : j.state = h.merged f (es ++ [t]) start) :
    Underway d h f id start (es ++ [t]) s' toks j where
  stored := stored
  unasked := alike.pendingApproval.trans holds.unasked
  forked := by
    rw [alike.failedStep, joins]
    exact holds.forked.tail
  sound := by
    rw [alike.failedStep, joins]
    exact holds.sound.tail
  short := by
    rw [joins]
    exact holds.short
  owed := .inl ⟨t, by simp, refuses⟩
  state := state

/-- A path reports before others. -/
theorem report {p : Nat} (holds : Underway d h f id start es s (tok :: toks) i)
    (stored : Store.get? id s'.running = some j) (alike : i.Alike j)
    (path : tok.path? d f i.failedStep = some p) (inside : p < f.paths.length)
    (joined : s'.joinOf id f = ⟨(s.joinOf id f).add p, false⟩)
    (short : ((s.joinOf id f).add p).length < f.paths.length)
    (state : j.state = h.merged f (es ++ [t]) start) :
    Underway d h f id start (es ++ [t]) s' toks j where
  stored := stored
  unasked := alike.pendingApproval.trans holds.unasked
  forked := by
    rw [alike.failedStep, joined]
    exact holds.forked.report inside
  sound := by
    rw [alike.failedStep, joined]
    exact holds.sound.report path
  short := by
    rw [joined]
    exact short
  owed := by
    rw [alike.failedStep, joined]
    refine holds.owed.imp (fun ⟨e, he, refuses⟩ => ⟨e, List.mem_append_left _ he, refuses⟩) ?_
    intro owed q inside
    rcases owed q inside with known | waiting
    · exact .inl (Fork.mem_add.mpr (.inr known))
    · rw [Fork.weight_cons] at waiting
      by_cases own : tok.path? d f i.failedStep = some q
      · rw [path] at own
        cases own
        exact .inl (Fork.mem_add.mpr (.inl rfl))
      · rw [if_neg own] at waiting
        exact .inr waiting
  state := state

/-- Every move keeps a round under way or releases its join. -/
theorem move (unhandled : ∀ g ∈ d.handlers, g.scope ≠ .workflow) (slow : f.failFast = false)
    (here : tok.In d) (holds : Underway d h f id start es s (tok :: toks) i)
    (move : Move d h id s toks tok s' left) (result : h.deliver s (tok.message d id) = s') :
    (∃ j, Underway d h f id start (es ++ [⟨s, tok.message d id⟩]) s' left j)
      ∨ (s'.joinOf id f).released = true ∧ ∃ j, Store.get? id s'.running = some j
        ∧ j.state = h.merged f (es ++ [⟨s, tok.message d id⟩]) start := by
  have only : ∀ {j : Instance}, Store.get? id s.running = some j → j = i := fun there =>
    Option.some.inj (there.symm.trans holds.stored)
  have own := fun control => holds.forked.along tok List.mem_cons_self control
  -- no handler takes failures on paths, so every token is at a step of one
  have free : ∀ {g : Handler}, tok.isControl = true → g ∈ d.handlers → tok.handler? ≠ some g :=
    fun control declared handler => unhandled _ declared ((own control).handler _ handler).1
  have lane : ∀ {x : Spot}, tok.spot? = some x → ∃ p, p < f.paths.length ∧ x.line = .fork f p := by
    intro x atX
    obtain ⟨p, inside, path⟩ := (own (Token.isControl_of_spot? atX)).path
    refine ⟨p, inside, Token.line_of_path? atX path fun g line => ?_⟩
    exact free (Token.isControl_of_spot? atX) (Spot.recovery_mem (Token.spot_in here atX) line)
      (Token.handler?_of_recovery atX line)
  have waits : ∀ {j : Instance}, tok.kind ≠ .stepCompleted → j.state = i.state →
      j.state = h.merged f (es ++ [⟨s, tok.message d id⟩]) start := by
    intro j off same
    rw [Host.merged_append_of_none (Fork.update?_of_kind off id), same, holds.state]
  have merges : ∀ {x : Spot} {update : Value} {failure : Option StepFailure} {j : Instance}
      {calls : List Call} {effects : List Effect} {p : Nat}, tok = .done x update failure →
      x.line = .fork f p → (Token.done x update failure).applied d h.collaborators i s.calls
        = ⟨j, calls, .ok effects⟩ → j.state = h.merged f (es ++ [⟨s, tok.message d id⟩]) start := by
    intro x update failure j calls effects p same line applied
    subst same
    have state := Definition.completed_state d h.collaborators x.line x.index x.step update failure i
      s.calls
    have inst : (d.completed h.collaborators x.line x.index x.step update failure i s.calls).inst = j :=
      congrArg Applied.inst applied
    rw [Host.merged_append_of_some (Fork.update?_done here line update failure id), ← holds.state,
      ← inst, state]
  cases move with
  | work x state update failure =>
    exact .inl ⟨i, holds.carry holds.stored (.refl i) rfl
      (holds.forked.replace ⟨(own rfl).path, (own rfl).handler⟩) (fun q => Fork.weight_replace rfl)
      (waits (by simp [Token.kind]) rfl)⟩
  | lost tok consumed gone =>
    have stored := holds.stored
    rw [gone] at stored
    cases stored
  | begin x j there =>
    cases only there
    exact .inl ⟨_, holds.carry (Store.get?_insert_self ..) ⟨rfl, rfl, rfl⟩ rfl
      (holds.forked.replace ⟨(own rfl).path, (own rfl).handler⟩) (fun q => Fork.weight_replace rfl)
      (waits (by simp [Token.kind]) rfl)⟩
  | refuse x j there =>
    cases only there
    obtain ⟨p, _, line⟩ := lane rfl
    have refuses : h.Refuses f ⟨s, (Token.start x).message d id⟩ := by
      constructor
      · show Name.startCommand (x.stem d) ∈ _
        rw [Spot.stem_of_lane line]
        exact List.mem_map_of_mem (Spot.mem_paths here line)
      · rw [result]
        show (Store.get? id (Store.insert id _ s.running)).map Instance.phase = _
        rw [Store.get?_insert_self]
        rfl
    exact .inl ⟨_, holds.refuse (Store.get?_insert_self ..) ⟨rfl, rfl, rfl⟩ rfl refuses
      (waits (by simp [Token.kind]) rfl)⟩
  | settle x update failure plain =>
    obtain ⟨p, _, line⟩ := lane rfl
    rw [line] at plain
    exact plain.elim
  | cascade x update failure f' declared main =>
    obtain ⟨p, _, line⟩ := lane rfl
    rw [main] at line
    cases line
  | onward x y update failure here' same after off i' j there alike going delivered calls applied =>
    cases only there
    obtain ⟨p, inside, line⟩ := lane rfl
    have path : (Token.start y).path? d f i.failedStep
        = (Token.done x update failure).path? d f i.failedStep := by
      rw [Token.path?_of_lane rfl (same.trans line), Token.path?_of_lane rfl line]
    exact .inl ⟨j, holds.carry (Store.get?_insert_self ..) alike rfl
      (holds.forked.replace (.of_lane rfl (same.trans line) inside))
      (fun q => Fork.weight_replace path) (merges rfl line applied)⟩
  | report x update failure f' p' line' i' j there alike going short delivered calls applied =>
    cases only there
    obtain ⟨p, inside, line⟩ := lane rfl
    cases line'.symm.trans line
    have unreleased := holds.forked.unreleased
    refine .inl ⟨j, holds.report (Store.get?_insert_self ..) alike (Token.path?_of_lane rfl line)
      inside ?_ ?_ (merges rfl line applied)⟩
    · rw [Session.joinOf, Store.get?_insert_self, Option.getD_some, unreleased]
    · by_contra full
      exact short ⟨by omega, unreleased⟩
  | release x update failure f' p' line' y here' main i' j there alike going all delivered calls
      applied =>
    cases only there
    obtain ⟨p, _, line⟩ := lane rfl
    cases line'.symm.trans line
    refine .inr ⟨?_, j, Store.get?_insert_self .., merges rfl line applied⟩
    rw [Session.joinOf, Store.get?_insert_self]
    rfl
  | close x update failure g line' =>
    obtain ⟨p, _, line⟩ := lane rfl
    cases line'.symm.trans line
  | resume x y update failure g line' =>
    obtain ⟨p, _, line⟩ := lane rfl
    cases line'.symm.trans line
  | trigger x update failure g takes =>
    obtain ⟨p, _, line⟩ := lane rfl
    exact absurd (Spot.scope_of_lane takes line) (unhandled g (Spot.handler_mem takes))
  | cancel x update failure f' p' line' failFast =>
    obtain ⟨p, _, line⟩ := lane rfl
    cases line'.symm.trans line
    rw [slow] at failFast
    cases failFast
  | abort x update failure f' p' line' failFast =>
    obtain ⟨p, _, line⟩ := lane rfl
    cases line'.symm.trans line
    rw [slow] at failFast
    cases failFast
  | fault x update failure off =>
    obtain ⟨p, _, line⟩ := lane rfl
    rw [line] at off
    cases off
  | capture g context => exact absurd rfl (free rfl here)
  | acknowledge a g correlation =>
    obtain ⟨p, _, path⟩ := (own rfl).path
    cases path
  | ignore tok signal i' j there alike phase going delivered calls state =>
    cases only there
    have control : toks.filter Token.isControl = (tok :: toks).filter Token.isControl := by
      rw [List.filter_cons_of_neg (by simp [Token.isControl_of_signal signal])]
    have completed : tok.kind ≠ .stepCompleted := by
      rcases signal with kind | kind <;> simp [kind]
    exact .inl ⟨j, (holds.of_control control).carry (Store.get?_insert_self ..) alike rfl
      (holds.forked.of_control control) (fun q => rfl) (waits completed state)⟩
  | answer tok signal i' j there asked =>
    cases only there
    exact absurd holds.unasked asked

/-- With no token left, a step has refused to start: else every path would have reported. -/
theorem exists_refusal (holds : Underway d h f id start es s [] i) : ∃ t ∈ es, h.Refuses f t := by
  rcases holds.owed with refused | owed
  · exact refused
  · have every : List.range f.paths.length ⊆ (s.joinOf id f).reported := by
      intro q hq
      rcases owed q (List.mem_range.mp hq) with known | waiting
      · exact known
      · cases waiting
    have full := (List.nodup_range.subperm every).length_le
    rw [List.length_range] at full
    exact absurd holds.short (by omega)

/-- A round depends on the instance and the joins alone. -/
theorem of_session (holds : Underway d h f id start es s toks i) (running : s'.running = s.running)
    (joins : s'.joins = s.joins) : Underway d h f id start es s' toks i := by
  have join : s'.joinOf id f = s.joinOf id f := by rw [Session.joinOf, joins, Session.joinOf]
  exact ⟨running ▸ holds.stored, holds.unasked, join ▸ holds.forked, join ▸ holds.sound,
    join ▸ holds.short, join ▸ holds.owed, holds.state⟩

end Underway

end Workflow
