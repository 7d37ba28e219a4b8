import Workflow.Proofs.Host.Placement

/-!
The fate of an instance whose fork is cancelled.

In a closed run the failure that cancels a fork takes all control with it. Either the instance fails
at once, or what is left of control is with a handler that fails the process at its end: the definition
allows no other handler where a fork is fail-fast. `Fated` says so of every run. A cancelled instance
is `Doomed`, and no move leads out of that; a refusal or a fault on the way leaves it where it is.
-/

set_option autoImplicit false

namespace Workflow

/-- Nothing is left of an instance but the way to its failure. -/
structure Doomed (id : Key) (s : Session) (toks : List Token) : Prop where
  unasked : ∀ i, Store.get? id s.running = some i → i.pendingApproval = none
  closing : ∀ i, Store.get? id s.running = some i → ∀ tok ∈ toks, tok.isControl = true →
    ∃ g, tok.handler? = some g ∧ g.isTerminal = true
  failed : ∀ j, Store.get? id s.finished = some j → j.phase = Name.failed

namespace Doomed

variable {d : Definition} {h : Host} {id : Key} {s s' : Session} {toks left : List Token}
  {tok tok' : Token} {i j : Instance}

/-- The instance has failed. -/
theorem gone (gone : Store.get? id s.running = none)
    (failed : ∀ j, Store.get? id s.finished = some j → j.phase = Name.failed) : Doomed id s toks where
  unasked i stored := by
    rw [gone] at stored
    cases stored
  closing i stored := by
    rw [gone] at stored
    cases stored
  failed := failed

/-- Control goes to one token, of a handler that fails the process. -/
theorem next (holds : Doomed id s (tok :: toks)) (there : Store.get? id s.running = some i)
    (stored : Store.get? id s'.running = some j) (same : j.pendingApproval = i.pendingApproval)
    (finished : s'.finished = s.finished) {g : Handler} (handler : tok'.handler? = some g)
    (terminal : g.isTerminal = true) : Doomed id s' (toks ++ [tok']) where
  unasked k stored' := by
    cases stored.symm.trans stored'
    exact same.trans (holds.unasked i there)
  closing k _ tok'' htok control := by
    rcases List.mem_append.mp htok with old | new
    · exact holds.closing i there tok'' (List.mem_cons_of_mem _ old) control
    · rw [List.mem_singleton.mp new]
      exact ⟨g, handler, terminal⟩
  failed j done := holds.failed j (finished ▸ done)

/-- A token is gone. -/
theorem vanish (holds : Doomed id s (tok :: toks)) (there : Store.get? id s.running = some i)
    (stored : Store.get? id s'.running = some j) (same : j.pendingApproval = i.pendingApproval)
    (finished : s'.finished = s.finished) : Doomed id s' toks where
  unasked k stored' := by
    cases stored.symm.trans stored'
    exact same.trans (holds.unasked i there)
  closing k _ tok'' htok control :=
    holds.closing i there tok'' (List.mem_cons_of_mem _ htok) control
  failed j done := holds.failed j (finished ▸ done)

/-- What is doomed stays so. -/
theorem move (holds : Doomed id s (tok :: toks)) (move : Move d h id s toks tok s' left) :
    Doomed id s' left := by
  -- a completion is one of a terminal recovery
  have recovering : ∀ {x : Spot} {k : Instance}, Store.get? id s.running = some k →
      tok.spot? = some x → ∃ g, x.line = .recovery g ∧ g.isTerminal = true := by
    intro x k there atX
    obtain ⟨g, handler, terminal⟩ := holds.closing k there tok List.mem_cons_self
      (Token.isControl_of_spot? atX)
    exact ⟨g, Token.line_of_handler? atX handler, terminal⟩
  cases move with
  | work x state update failure =>
    cases there : Store.get? id s.running with
    | none => exact gone there holds.failed
    | some i =>
      obtain ⟨g, line, terminal⟩ := recovering there rfl
      exact holds.next there there rfl rfl (Token.handler?_of_recovery rfl line) terminal
  | lost tok consumed gone' => exact gone gone' holds.failed
  | begin x i there =>
    obtain ⟨g, line, terminal⟩ := recovering there rfl
    exact holds.next there (Store.get?_insert_self ..) rfl rfl
      (Token.handler?_of_recovery rfl line) terminal
  | refuse x i there =>
    exact holds.vanish there (Store.get?_insert_self ..) rfl rfl
  | settle x update failure plain i i' there =>
    obtain ⟨g, line, _⟩ := recovering there rfl
    exact absurd line (plain.ne_recovery g)
  | cascade x update failure f declared main i j there =>
    obtain ⟨g, line, _⟩ := recovering there rfl
    rw [main] at line
    cases line
  | onward x y update failure here same after off i j there alike =>
    obtain ⟨g, line, terminal⟩ := recovering there rfl
    exact holds.next there (Store.get?_insert_self ..) alike.pendingApproval rfl
      (Token.handler?_of_recovery rfl (same.trans line)) terminal
  | report x update failure f p lane i j there =>
    obtain ⟨g, line, _⟩ := recovering there rfl
    rw [lane] at line
    cases line
  | release x update failure f p lane y here main i j there =>
    obtain ⟨g, line, _⟩ := recovering there rfl
    rw [lane] at line
    cases line
  | close x update failure g line terminal i j there finished delivered calls phase =>
    refine gone (by simp [Store.get?_erase]) ?_
    intro k stored
    cases (Store.get?_insert_self ..).symm.trans stored
    exact phase
  | resume x y update failure g line last going here i j there =>
    obtain ⟨g', line', terminal⟩ := recovering there rfl
    rw [line'] at line
    cases line
    rw [terminal] at going
    cases going
  | trigger x update failure g takes slow context failed i j there =>
    obtain ⟨g', line, _⟩ := recovering there rfl
    rw [Spot.handler?, line] at takes
    cases takes
  | cancel x update failure f p lane failFast g takes context failed i j there =>
    obtain ⟨g, line, _⟩ := recovering there rfl
    rw [lane] at line
    cases line
  | abort x update failure f p lane failFast i j there =>
    obtain ⟨g, line, _⟩ := recovering there rfl
    rw [lane] at line
    cases line
  | fault x update failure off i there => exact holds.vanish there there rfl rfl
  | capture g context first rest steps i there =>
    obtain ⟨g', handler, terminal⟩ := holds.closing i there _ List.mem_cons_self rfl
    cases handler
    exact holds.next there (Store.get?_insert_self ..) rfl rfl (Token.handler?_of_recovery rfl rfl)
      terminal
  | acknowledge a g correlation i there =>
    obtain ⟨g', handler, _⟩ := holds.closing i there _ List.mem_cons_self rfl
    cases handler
  | ignore tok signal i j there alike =>
    exact holds.vanish there (Store.get?_insert_self ..) alike.pendingApproval rfl
  | answer tok signal i i' there asked => exact absurd (holds.unasked i there) asked

end Doomed

/-- An instance whose fate is sealed once one of its forks is cancelled. -/
structure Fated (d : Definition) (id : Key) (s : Session) (toks : List Token) : Prop where
  placed : Placed d id s toks
  apart : ∀ i, Store.get? id s.running = some i → Store.get? id s.finished = none
  fate : (∀ key, Store.get? key s.cancelled = none) ∨ Doomed id s toks

namespace Fated

variable {d : Definition} {h : Host} {id : Key} {s s' : Session} {toks left : List Token} {tok : Token}

/-- Going on by a plain line or a decision finishes an instance or leaves it running. -/
theorem apart_settle {i j : Instance} (there : Store.get? id s.finished = none)
    (settles : Settles d id s toks i s' left) (stored : Store.get? id s'.running = some j) :
    Store.get? id s'.finished = none := by
  cases settles with
  | finish => simp [Store.get?_erase] at stored
  | start | request => exact there

/-- An instance is running or finished, and not both. -/
theorem apart_move (holds : Fated d id s (tok :: toks)) (move : Move d h id s toks tok s' left)
    (j : Instance) (stored : Store.get? id s'.running = some j) :
    Store.get? id s'.finished = none := by
  cases there : Store.get? id s.running with
  | none =>
    rw [(move.of_gone there).1] at stored
    cases stored
  | some i =>
    have none := holds.apart i there
    cases move with
    | settle x update failure plain i i' there alike joins cancelled fewer delivered calls s' left
        settles =>
      exact apart_settle (s := { s with joins, cancelled, delivered, calls }) none settles stored
    | answer tok signal i i' there asked key cleared delivered calls s' left settles =>
      exact apart_settle (s := { s with delivered, calls }) none settles stored
    | close => simp [Store.get?_erase] at stored
    | abort => simp [Host.sweep, Store.get?_erase] at stored
    | _ => exact none

/-- A cancellation dooms its instance, and nothing else enters one. -/
theorem fate_move (c : Compiled d h.table) (tracked : Tracked d h id s toks) (here : tok.In d)
    (holds : Fated d id s (tok :: toks)) (move : Move d h id s toks tok s' left) :
    (∀ key, Store.get? key s'.cancelled = none) ∨ Doomed id s' left := by
  rcases holds.fate with free | doomed
  · have less : ∀ {cancelled : Store (Key × String) Nat}, Store.Fewer cancelled s.cancelled →
        ∀ key, Store.get? key cancelled = none := by
      intro cancelled fewer key
      rcases fewer key with none | same
      · exact none
      · exact same.trans (free key)
    cases move with
    | settle x update failure plain i i' there alike joins cancelled fewer delivered calls s' left
        settles => cases settles <;> exact .inl (less fewer)
    | answer tok signal i i' there asked key cleared delivered calls s' left settles =>
      cases settles <;> exact .inl free
    | cascade x update failure f declared main i j there alike going joins cancelled fewer =>
      exact .inl (less fewer)
    | trigger x update failure g takes slow context failed i j there alike going joins cancelled
        fewer => exact .inl (less fewer)
    | cancel x update failure f p line failFast g takes context failed i j there alike =>
      right
      obtain ⟨unasked, forked, accounted⟩ := holds.placed.of_lane there rfl line
      refine ⟨?_, ?_, ?_⟩
      · intro k stored
        cases (Store.get?_insert_self ..).symm.trans stored
        exact alike.pendingApproval.trans unasked
      · intro k _ tok' htok control
        rcases List.mem_append.mp htok with old | new
        · have swept := List.filter_eq_nil_iff.mp (forked.swept c tracked.here
            (Token.path?_of_lane rfl line) (accounted.sound_of_failFast failFast) failFast) tok' old
          exact absurd control swept
        · rw [List.mem_singleton.mp new]
          exact ⟨g, rfl, c.wellFormed.isTerminal_of_failFast forked.declared failFast takes line⟩
      · intro k stored
        have none := holds.apart i there
        cases none.symm.trans stored
    | abort x update failure f p line failFast i j there finished delivered calls phase =>
      right
      refine .gone (by simp [Host.sweep, Store.get?_erase]) ?_
      intro k stored
      cases (Store.get?_insert_self ..).symm.trans stored
      exact phase
    | _ => exact .inl free
  · exact .inr (doomed.move move)

/-- Every closed run seals the fate of what it cancels. -/
theorem kept (c : Compiled d h.table) (id : Key) :
    Kept d h id fun _ s toks => Fated d id s toks where
  start here main running finished joins cancelled events faults approvals := {
    placed := .start main running
    apart := by
      intro i _
      rw [finished]
      rfl
    fate := .inl fun key => by rw [cancelled]; rfl }
  move tracked here holds move after result := {
    placed := holds.placed.move c tracked here move
    apart := holds.apart_move move
    fate := holds.fate_move c tracked here move }
  signal signal holds := {
    placed := holds.placed.of_signal signal
    apart := holds.apart
    fate := holds.fate.imp_right fun doomed => { doomed with
      closing := by
        intro i stored tok htok control
        rcases List.mem_append.mp htok with old | new
        · exact doomed.closing i stored tok old control
        · rw [List.mem_singleton.mp new, Token.isControl_of_signal signal] at control
          cases control } }
  queue queue holds := ⟨holds.placed.of_session rfl rfl, holds.apart,
    holds.fate.imp_right fun doomed => ⟨doomed.unasked, doomed.closing, doomed.failed⟩⟩
  beside grown others holds := ⟨holds.placed.of_session rfl rfl, holds.apart,
    holds.fate.imp_right fun doomed => ⟨doomed.unasked, doomed.closing, doomed.failed⟩⟩

end Fated

end Workflow
