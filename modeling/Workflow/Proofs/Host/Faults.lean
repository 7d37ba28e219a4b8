import Workflow.Proofs.Host.Placement
import Workflow.Proofs.Host.Resumption

/-!
The faults of closed runs.

A host refuses a message it does not know, one with the wrong payload, and the end of a recovery that
finds no step to start again. In a closed run none of these happens: what is queued are tokens of the
definition, and a recovery is always for a failure that its handler takes. For the latter an invariant
is needed, since an instance holds one failure and a capture replaces it: `Guided` says that every
recovery under way could start the step again whose failure the instance holds. It survives a capture
because recoveries that are under way at the same time belong to one handler.

What is left are the faults that come from outside: a step fails and nobody takes the failure, or the
state fits no case of a branch.
-/

set_option autoImplicit false

namespace Workflow

/-- The faults that collaborators cause. -/
def Fault.IsOutside : Fault → Prop
  | .stepFailed _ _ => True
  | .unmatchedBranch _ _ => True
  | .invalidState _ => False
  | .unexpectedMessage _ => False

/-- The handler takes the failures of a step with this phase. -/
def Handler.Takes (d : Definition) (g : Handler) (phase : String) : Prop :=
  ∃ y : Spot, y.In d ∧ y.phase d = phase ∧ y.handler? d = some g

/-- If the token is for a recovery, its end finds a step to start again. -/
def Token.Resumable (d : Definition) (slot : String) : Token → Prop
  | .trigger g context => g.Takes d context.failedStep
  | tok => ∀ g, tok.isRecovering g = true → g.Takes d slot

namespace Token

variable {d : Definition} {slot : String} {tok tok' : Token} {x y : Spot}

theorem resumable_of_line (atX : tok.spot? = some x) (off : ∀ g, x.line ≠ .recovery g) :
    tok.Resumable d slot := by
  cases tok <;> cases atX <;>
  · intro g recovering
    rw [isRecovering_of_line rfl (off g)] at recovering
    cases recovering

theorem resumable_of_not_control (off : tok.isControl = false) (slot : String) :
    tok.Resumable d slot := by
  cases tok with
  | decided a g correlation decision | timedOut a g correlation => intro g' recovering; cases recovering
  | _ => cases off

/-- The next token of a line is as resumable as the one before. -/
theorem Resumable.onward (resumable : tok.Resumable d slot) (atX : tok.spot? = some x)
    (atY : tok'.spot? = some y) (same : y.line = x.line) : tok'.Resumable d slot := by
  have known : ∀ g, x.line = .recovery g → g.Takes d slot := by
    intro g line
    cases tok <;> cases atX <;> exact resumable g (isRecovering_iff.mpr ⟨x, rfl, line⟩)
  cases tok' <;> cases atY <;>
  · intro g recovering
    obtain ⟨z, atZ, line⟩ := isRecovering_iff.mp recovering
    cases atZ
    exact known g (same ▸ line)

end Token

/-- The faults so far came from outside, and no recovery under way will cause another one. -/
structure Guided (d : Definition) (id : Key) (s : Session) (toks : List Token) : Prop where
  placed : Placed d id s toks
  resumable : ∀ i, Store.get? id s.running = some i → ∀ tok ∈ toks, tok.Resumable d i.failedStep
  faults : ∀ r ∈ s.faults, r.fault.IsOutside

namespace Guided

variable {d : Definition} {h : Host} {id : Key} {s s' : Session} {toks left : List Token} {tok : Token}

/-! ## Recoveries that can go on -/

/-- Tokens wait for an instance that was put in. -/
theorem resumable_insert {running : Store Key Instance} {j : Instance}
    (fit : ∀ tok ∈ toks, tok.Resumable d j.failedStep) (i : Instance)
    (stored : Store.get? id (Store.insert id j running) = some i) :
    ∀ tok ∈ toks, tok.Resumable d i.failedStep := by
  rw [Store.get?_insert_self] at stored
  cases stored
  exact fit

/-- Tokens wait for no instance. -/
theorem resumable_erase {running : Store Key Instance} (i : Instance)
    (stored : Store.get? id (Store.erase id running) = some i) :
    ∀ tok ∈ toks, tok.Resumable d i.failedStep := by
  rw [Store.get?_erase, if_pos rfl] at stored
  cases stored

theorem resumable_append {slot : String} (fit : ∀ tok ∈ toks, tok.Resumable d slot)
    (last : tok.Resumable d slot) : ∀ tok' ∈ toks ++ [tok], tok'.Resumable d slot := by
  intro tok' htok
  rcases List.mem_append.mp htok with old | new
  · exact fit tok' old
  · rwa [List.mem_singleton.mp new]

/-- A plain line leads to no recovery. -/
theorem resumable_settle {i : Instance} (fit : ∀ tok ∈ toks, tok.Resumable d i.failedStep)
    (settles : Settles d id s toks i s' left) (j : Instance)
    (stored : Store.get? id s'.running = some j) : ∀ tok ∈ left, tok.Resumable d j.failedStep := by
  cases settles with
  | start y here plain alike going =>
    refine resumable_insert (resumable_append ?_ ?_) j stored
    · rwa [alike.failedStep]
    · exact Token.resumable_of_line rfl fun g => plain.ne_recovery g
  | finish finished => exact resumable_erase j stored
  | request a g attached link alike phase going correlation m =>
    refine resumable_insert (resumable_append ?_ ?_) j stored
    · rwa [alike.failedStep]
    · intro g' recovering
      cases recovering

/-- A capture leaves recoveries of the one handler whose failure it is. -/
theorem resumable_capture {g : Handler} {context : FailureContext} {i : Instance}
    (hw : d.WellFormed) (here : ∀ tok ∈ toks, tok.In d) (declared : g ∈ d.handlers)
    (placed : Placed d id s (.trigger g context :: toks))
    (stored : Store.get? id s.running = some i)
    (fit : ∀ tok ∈ toks, tok.Resumable d i.failedStep) (takes : g.Takes d context.failedStep) :
    ∀ tok ∈ toks, tok.Resumable d context.failedStep := by
  intro tok htok
  cases placed with
  | gone gone =>
    rw [gone] at stored
    cases stored
  | idle control =>
    rw [List.filter_cons_of_pos rfl] at control
    cases control
  | alone tok' control =>
    rw [List.filter_cons_of_pos rfl] at control
    have off := List.filter_eq_nil_iff.mp (List.cons.inj control).2 tok htok
    exact Token.resumable_of_not_control (by simpa using off) _
  | @forked i' f there unasked forked accounted =>
    obtain ⟨scope, _⟩ := (forked.along _ List.mem_cons_self rfl).handler g rfl
    have one : ∀ g', tok.isRecovering g' = true → g' = g := fun g' recovering =>
      forked.tail.eq_of_isRecovering hw here declared scope htok recovering
    cases tok with
    | trigger g' context' => exact fit _ htok
    | _ => exact fun g' recovering => one g' recovering ▸ takes

/-- A move keeps every recovery resumable. -/
theorem resumable_move (c : Compiled d h.table) (tracked : Tracked d h id s toks) (here : tok.In d)
    (holds : Guided d id s (tok :: toks)) (move : Move d h id s toks tok s' left) (i : Instance)
    (stored : Store.get? id s'.running = some i) : ∀ tok ∈ left, tok.Resumable d i.failedStep := by
  have first : ∀ {j : Instance}, Store.get? id s.running = some j →
      tok.Resumable d j.failedStep := fun there => holds.resumable _ there tok List.mem_cons_self
  have rest : ∀ {j k : Instance}, Store.get? id s.running = some j → j.Alike k →
      ∀ tok ∈ toks, tok.Resumable d k.failedStep := by
    intro j k there alike tok htok
    rw [alike.failedStep]
    exact holds.resumable j there tok (List.mem_cons_of_mem _ htok)
  cases move with
  | work x state update failure =>
    exact resumable_append (rest stored (.refl i)) ((first stored).onward rfl rfl rfl)
  | lost tok consumed gone =>
    rw [gone] at stored
    cases stored
  | begin x j there =>
    refine resumable_insert ?_ i stored
    exact resumable_append (rest there ⟨rfl, rfl, rfl⟩) ((first there).onward rfl rfl rfl)
  | refuse x j there =>
    refine resumable_insert ?_ i stored
    exact rest there ⟨rfl, rfl, rfl⟩
  | settle x update failure plain j i' there alike joins cancelled fewer delivered calls s' left
      settles => exact resumable_settle (rest there alike) settles i stored
  | cascade x update failure f declared main i' j there alike =>
    refine resumable_insert ?_ i stored
    intro tok' htok
    rcases List.mem_append.mp htok with old | new
    · exact rest there alike tok' old
    · obtain ⟨p, x', atX, line⟩ := Fork.exists_spot_of_mem_starts new
      exact Token.resumable_of_line atX fun g => by simp [line]
  | onward x y update failure here' same after off i' j there alike =>
    refine resumable_insert (resumable_append (rest there alike) ?_) i stored
    rw [alike.failedStep]
    exact (first there).onward rfl rfl same
  | report x update failure f p line i' j there alike =>
    exact resumable_insert (rest there alike) i stored
  | release x update failure f p line y here' main i' j there alike =>
    exact resumable_insert (resumable_append (rest there alike)
      (Token.resumable_of_line rfl fun g => by simp [main])) i stored
  | close x update failure g line => exact resumable_erase i stored
  | resume x y update failure g line last terminal here' i' j there failed takes alike =>
    refine resumable_insert (resumable_append (rest there alike)
      (Token.resumable_of_line rfl ?_)) i stored
    intro g' line'
    rw [Spot.handler?, line'] at takes
    cases takes
  | trigger x update failure g takes slow context failed i' j there alike =>
    have taken : (Token.trigger g context).Resumable d j.failedStep := ⟨x, here, failed.symm, takes⟩
    exact resumable_insert (resumable_append (rest there alike) taken) i stored
  | cancel x update failure f p line failFast g takes context failed i' j there alike =>
    have taken : (Token.trigger g context).Resumable d j.failedStep := ⟨x, here, failed.symm, takes⟩
    refine resumable_insert (resumable_append ?_ taken) i stored
    exact fun tok' htok => rest there alike tok' (List.mem_filter.mp htok).1
  | abort x update failure f p line => exact resumable_erase i stored
  | fault x update failure off j there => exact rest stored (.refl i)
  | capture g context steps others listed j there =>
    have takes : g.Takes d context.failedStep := first there
    refine resumable_insert (resumable_append ?_ ?_) i stored
    · exact resumable_capture c.wellFormed tracked.here here holds.placed there
        (rest there (.refl j)) takes
    · intro g' recovering
      obtain ⟨x, atX, line⟩ := Token.isRecovering_iff.mp recovering
      cases atX
      cases line
      exact takes
  | acknowledge a g correlation j there =>
    have same := rest there (.refl j)
    exact resumable_insert (j := { j with pendingApproval := some correlation }) same i stored
  | ignore tok signal i' j there alike => exact resumable_insert (rest there alike) i stored
  | answer tok signal j i' there asked key cleared delivered calls s' left settles =>
    -- whoever waits for an answer has nothing under way
    refine resumable_settle ?_ settles i stored
    have nothing : toks.filter Token.isControl = [] := by
      have off := Token.isControl_of_signal signal
      cases holds.placed with
      | gone gone =>
        rw [gone] at there
        cases there
      | idle control => rwa [List.filter_cons_of_neg (by simp [off])] at control
      | alone _ _ there' unasked | forked there' unasked =>
        cases there.symm.trans there'
        exact absurd unasked asked
    intro tok' htok
    exact Token.resumable_of_not_control (by simpa using List.filter_eq_nil_iff.mp nothing tok' htok) _

/-! ## Faults -/

/-- A move adds faults from outside only. -/
theorem faults_move (holds : Guided d id s (tok :: toks)) (move : Move d h id s toks tok s' left) :
    ∀ r ∈ s'.faults, r.fault.IsOutside := by
  have settled : ∀ {s s' : Session} {left : List Token} {i : Instance},
      Settles d id s toks i s' left → s'.faults = s.faults := by
    intro s s' left i settles
    cases settles <;> rfl
  cases move with
  | settle x update failure plain i i' stored alike joins cancelled fewer delivered calls s' left
      settles =>
    rw [settled settles]
    exact holds.faults
  | answer tok signal i i' stored asked key cleared delivered calls s' left settles =>
    rw [settled settles]
    exact holds.faults
  | fault x update failure off i stored record own kind =>
    intro r recorded
    rcases List.mem_append.mp recorded with old | new
    · exact holds.faults r old
    · rw [List.mem_singleton.mp new]
      rcases kind with ⟨step, e, same⟩ | ⟨branch, value, same⟩ | ⟨g, line, terminal, none⟩
      · rw [same]
        trivial
      · rw [same]
        trivial
      · -- the end of the recovery would have found the step
        obtain ⟨y, here, phase, takes⟩ := holds.resumable i stored _ List.mem_cons_self g
          (Token.isRecovering_iff.mpr ⟨x, rfl, line⟩)
        exact absurd takes (none y here phase)
  | _ => exact holds.faults

/-- Every closed run is guided. -/
theorem kept (c : Compiled d h.table) (id : Key) :
    Kept d h id fun _ s toks => Guided d id s toks where
  start here main running finished joins cancelled events faults approvals := {
    placed := .start main running
    resumable := by
      intro i stored tok only
      rw [List.mem_singleton.mp only]
      exact Token.resumable_of_line rfl fun g => by simp [main]
    faults := by simp [faults] }
  move tracked here holds move after result := {
    placed := holds.placed.move c tracked here move
    resumable := holds.resumable_move c tracked here move
    faults := holds.faults_move move }
  signal signal holds := {
    placed := holds.placed.of_signal signal
    resumable := fun i stored => resumable_append (holds.resumable i stored)
      (Token.resumable_of_not_control (Token.isControl_of_signal signal) _)
    faults := holds.faults }
  queue queue holds := ⟨holds.placed.of_session rfl rfl, holds.resumable, holds.faults⟩
  beside grown others holds := ⟨holds.placed.of_session rfl rfl, holds.resumable, holds.faults⟩

end Guided

/-- A host never trips over its own messages: in a closed run every start succeeds, and every fault
recorded is the failure of a step that nobody takes or a state that fits no case of a branch. -/
theorem Host.Reaches.fault_isOutside {d : Definition} {settings : Settings} {h : Host}
    (compiles : d.compile settings = .ok h.table) {started : List Key} {past : List Delivery}
    {s : Session} (run : h.Reaches started past s) :
    (∀ r ∈ s.faults, (∃ step failure, r.fault = .stepFailed step failure)
        ∨ ∃ branch value, r.fault = .unmatchedBranch branch value)
      ∧ ∀ id state, (h.start s id state).1 = .ok () := by
  have c := Definition.compiled_of_compile compiles
  constructor
  · intro r recorded
    have own : r ∈ (s.only r.instanceId).faults := Session.mem_faults_only.mpr ⟨recorded, rfl⟩
    have outside : r.fault.IsOutside := by
      cases run.follows c (Guided.kept c) r.instanceId with
      | started toks member tracked holds => exact holds.faults r own
      | absent none empty =>
        rw [empty] at own
        cases own
    cases fault : r.fault with
    | stepFailed step failure => exact .inl ⟨step, failure, rfl⟩
    | unmatchedBranch branch value => exact .inr ⟨branch, value, rfl⟩
    | invalidState reason | unexpectedMessage name =>
      rw [fault] at outside
      exact outside.elim
  · intro id state
    obtain ⟨_, _, _, _, result, _⟩ := c.start_eq s id state
    rw [result]

/-- A release whose signing fails, and then the recovery of it: the only fault is the failure of the
recovery. -/
theorem fault_isOutside_release : ∃ (h : Host) (past : List Delivery) (s : Session),
    Definition.release.compile .default = .ok h.table ∧ h.Reaches [.number 1] past s
      ∧ s.faults.map FaultRecord.fault
        = [.stepFailed "FailureHandler_retry_Wait" ⟨"down", "Io", none⟩]
      ∧ ∀ r ∈ s.faults, (∃ step failure, r.fault = .stepFailed step failure)
        ∨ ∃ branch value, r.fault = .unmatchedBranch branch value := by
  obtain ⟨h, past, s, compiles, run, faults⟩ := Definition.exists_run (d := .release)
    (Host.faltering · ["Sign", "Wait"]) (fun _ => rfl) 40
    (fun _ _ s => s.faults.map FaultRecord.fault
      = [.stepFailed "FailureHandler_retry_Wait" ⟨"down", "Io", none⟩]) (by decide +kernel)
  exact ⟨h, past, s, compiles, run, of_decide_eq_true faults, (run.fault_isOutside compiles).1⟩

end Workflow
