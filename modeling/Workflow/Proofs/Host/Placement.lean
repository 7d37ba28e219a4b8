import Workflow.Proofs.Host.Forked

/-!
Where control is.

In a closed run an instance is gone, control is with one token, with none, or on the paths of one
fork. `Placed` says so of every run, whatever its collaborators answer: a fault or a refusal takes a
token away and puts none in its place. On a fork a path has one token at most, unless a recovery has
forgotten the failure of a path; then that path is lost, and the fork never joins.
-/

set_option autoImplicit false

namespace Workflow

/-! ## Accounts of paths -/

/-- No path has more than one token, or one of the paths is lost. -/
def Fork.Accounted (d : Definition) (f : Fork) (slot : String) (reported : List Nat)
    (toks : List Token) : Prop :=
  f.Sound d slot reported toks ∨ ∃ q, f.Lost d slot reported toks q

namespace Fork

variable {d : Definition} {f : Fork} {slot : String} {state : JoinState} {toks : List Token}
  {tok tok' : Token} {p : Nat}

namespace Accounted

theorem congr (accounted : f.Accounted d slot state.reported toks) {toks' : List Token}
    (same : ∀ p, f.weight d slot toks' p = f.weight d slot toks p) :
    f.Accounted d slot state.reported toks' := by
  rcases accounted with sound | ⟨q, lost⟩
  · exact .inl (sound.congr same)
  · exact .inr ⟨q, lost.congr same⟩

/-- A token is gone. -/
theorem tail (accounted : f.Accounted d slot state.reported (tok :: toks)) :
    f.Accounted d slot state.reported toks := by
  rcases accounted with sound | ⟨q, lost⟩
  · exact .inl sound.tail
  · exact .inr ⟨q, lost.tail⟩

/-- A path reports. -/
theorem report (accounted : f.Accounted d slot state.reported (tok :: toks))
    (path : tok.path? d f slot = some p) : f.Accounted d slot (state.add p) toks := by
  rcases accounted with sound | ⟨q, lost⟩
  · exact .inl (sound.report path)
  · exact .inr ⟨q, lost.report path⟩

/-- The failure of a path is captured. -/
theorem capture {g : Handler} {context : FailureContext} {y : Step}
    (accounted : f.Accounted d slot state.reported (.trigger g context :: toks))
    (path : f.pathOf? d context.failedStep = some p)
    (along : ∀ tok ∈ toks, tok.isControl = true → tok.Along d f slot)
    (only : ∀ tok ∈ toks, ∀ g', tok.isRecovering g' = true → g' = g) :
    f.Accounted d context.failedStep state.reported (toks ++ [.start ⟨.recovery g, 0, y⟩]) := by
  rcases accounted with sound | ⟨q, lost⟩
  · rcases sound.capture (y := y) path along only with ⟨sound', _⟩ | ⟨q, lost, _⟩
    · exact .inl sound'
    · exact .inr ⟨q, lost⟩
  · exact .inr ⟨q, lost.capture path⟩

theorem starts (d : Definition) (f : Fork) (nothing : toks.filter Token.isControl = [])
    (slot : String) : f.Accounted d slot JoinState.empty.reported (toks ++ f.starts) :=
  .inl (Fork.sound_append_starts d f slot nothing)

/-- A fork that cancels its paths loses none. -/
theorem sound_of_failFast (accounted : f.Accounted d slot state.reported toks)
    (failFast : f.failFast = true) : f.Sound d slot state.reported toks := by
  rcases accounted with sound | ⟨q, lost⟩
  · exact sound
  · rw [lost.slow] at failFast
    cases failFast

end Accounted

end Fork

namespace Forked

variable {d : Definition} {f : Fork} {slot : String} {state : JoinState} {toks : List Token}
  {tok : Token} {p : Nat}

/-- The path that completes a fork is the last one: no token is left beside it. -/
theorem nothing_of_full (forked : Forked d f slot state (tok :: toks))
    (accounted : f.Accounted d slot state.reported (tok :: toks))
    (path : tok.path? d f slot = some p) (inside : p < f.paths.length)
    (full : f.paths.length ≤ (state.add p).length) : toks.filter Token.isControl = [] := by
  have every : ∀ q, q < f.paths.length → q ∈ state.add p := fun q hq =>
    Fork.mem_add_of_full forked.distinct forked.bounded inside full hq
  rcases accounted.report path with sound | ⟨q, lost⟩
  · exact forked.nothing_of_every sound every
  · exact absurd (every q lost.inside) lost.unreported

end Forked

/-! ## Places -/

/-- Where control is, in the course of a closed run. -/
inductive Placed (d : Definition) (id : Key) (s : Session) (toks : List Token) : Prop
  | gone (gone : Store.get? id s.running = none)
  /-- With one token. -/
  | alone {i : Instance} (tok : Token) (control : toks.filter Token.isControl = [tok])
      (stored : Store.get? id s.running = some i) (unasked : i.pendingApproval = none)
      (level : tok.Level d i.failedStep)
  /-- With none: an answer is waited for, or nothing will happen any more. -/
  | idle {i : Instance} (control : toks.filter Token.isControl = [])
      (stored : Store.get? id s.running = some i)
  /-- On the paths of a fork. -/
  | forked {i : Instance} {f : Fork} (stored : Store.get? id s.running = some i)
      (unasked : i.pendingApproval = none)
      (forked : Forked d f i.failedStep (s.joinOf id f) toks)
      (accounted : f.Accounted d i.failedStep (s.joinOf id f).reported toks)

namespace Placed

variable {d : Definition} {h : Host} {id : Key} {s s' : Session} {toks left : List Token} {tok : Token}

/-! ## One token -/

/-- Control goes to one token. -/
theorem single {i j : Instance} (nothing : toks.filter Token.isControl = [])
    (control : tok.isControl = true) (stored : Store.get? id s.running = some j)
    (unasked : i.pendingApproval = none) (alike : i.Alike j) (level : tok.Level d i.failedStep) :
    Placed d id s (toks ++ [tok]) := by
  refine .alone tok ?_ stored (alike.pendingApproval.trans unasked) (alike.failedStep ▸ level)
  rw [List.filter_append, nothing, List.filter_cons_of_pos control]
  rfl

/-- Going on by a plain line or a decision. -/
theorem settle (nothing : toks.filter Token.isControl = []) {i : Instance}
    (unasked : i.pendingApproval = none) (settles : Settles d id s toks i s' left) :
    Placed d id s' left := by
  cases settles with
  | start y here plain alike going =>
    exact single nothing rfl (Store.get?_insert_self ..) unasked alike (Spot.level_of_isPlain plain)
  | finish finished => exact .gone (by simp [Store.get?_erase])
  | request a g attached link alike phase going correlation m =>
    exact single nothing rfl (Store.get?_insert_self ..) unasked alike trivial

/-- The move of a token that carries control alone. -/
theorem carry (c : Compiled d h.table) (here : tok.In d) (control : tok.isControl = true)
    (nothing : toks.filter Token.isControl = []) {i : Instance}
    (stored : Store.get? id s.running = some i) (unasked : i.pendingApproval = none)
    (level : tok.Level d i.failedStep) (move : Move d h id s toks tok s' left) :
    Placed d id s' left := by
  have only : ∀ {j : Instance}, Store.get? id s.running = some j → j = i := fun there =>
    Option.some.inj (there.symm.trans stored)
  cases move with
  | work x state update failure => exact single nothing rfl stored unasked (.refl i) level
  | lost tok consumed gone => exact .gone gone
  | begin x j there =>
    cases only there
    exact single nothing rfl (Store.get?_insert_self ..) unasked ⟨rfl, rfl, rfl⟩ level
  | refuse x j there => exact .idle nothing (Store.get?_insert_self ..)
  | settle x update failure plain j i' there alike joins cancelled fewer delivered calls s' left
      settles =>
    cases only there
    exact settle (s := { s with joins, cancelled, delivered, calls }) nothing
      (alike.pendingApproval.trans unasked) settles
  | cascade x update failure f declared main i' j there alike going joins cancelled fewer unjoined =>
    cases only there
    refine .forked (f := f) (Store.get?_insert_self ..) (alike.pendingApproval.trans unasked) ?_ ?_
    · simp only [Session.joinOf, unjoined, Option.getD_none]
      exact .starts declared nothing _
    · simp only [Session.joinOf, unjoined, Option.getD_none]
      exact .starts d f nothing _
  | onward x y update failure here' same after off i' j there alike =>
    cases only there
    refine single nothing rfl (Store.get?_insert_self ..) unasked alike ?_
    simpa only [Token.Level, Spot.Level, same] using level
  | report x update failure f p line => exact absurd line level.not_fork
  | release x update failure f p line => exact absurd line level.not_fork
  | close x update failure g line => exact .gone (by simp [Store.get?_erase])
  | resume x y update failure g line last terminal here' i' j there failed takes alike =>
    cases only there
    exact single nothing rfl (Store.get?_insert_self ..) unasked alike (Spot.level_of_isPlain
      (c.isPlain_of_returns here' takes (level.returns line) terminal failed))
  | trigger x update failure g takes slow context failed i' j there alike =>
    cases only there
    have plain : x.line.IsPlain := by
      cases line : x.line with
      | fork f p => exact absurd line level.not_fork
      | recovery g' =>
        rw [Spot.handler?, line] at takes
        cases takes
      | _ => trivial
    exact single nothing rfl (Store.get?_insert_self ..) unasked alike
      (.inr ⟨x, here, plain, failed.symm⟩)
  | cancel x update failure f p line => exact absurd line level.not_fork
  | abort x update failure f p line => exact absurd line level.not_fork
  | fault x update failure off j there => exact .idle nothing there
  | capture g context first rest steps j there =>
    cases only there
    exact single (i := { i with failureContext := some context }) nothing rfl
      (Store.get?_insert_self ..) unasked (.refl _) level
  | acknowledge a g correlation j there => exact .idle nothing (Store.get?_insert_self ..)
  | ignore tok signal =>
    rw [Token.isControl_of_signal signal] at control
    cases control
  | answer tok signal =>
    rw [Token.isControl_of_signal signal] at control
    cases control

/-! ## A fork under way -/

section Path

variable {i j : Instance} {f : Fork} {p : Nat} (unasked : i.pendingApproval = none)
  (forked : Forked d f i.failedStep (s.joinOf id f) (tok :: toks))
  (accounted : f.Accounted d i.failedStep (s.joinOf id f).reported (tok :: toks))

include unasked forked accounted

/-- One token goes and another one comes, on the same path. -/
theorem path_next {tok' : Token} (stored : Store.get? id s'.running = some j) (alike : i.Alike j)
    (joins : s'.joinOf id f = s.joinOf id f) (along : tok'.Along d f i.failedStep)
    (path : tok'.path? d f i.failedStep = tok.path? d f i.failedStep) :
    Placed d id s' (toks ++ [tok']) := by
  refine .forked (f := f) stored (alike.pendingApproval.trans unasked) ?_ ?_
  · rw [alike.failedStep, joins]
    exact forked.replace along
  · rw [alike.failedStep, joins]
    exact accounted.congr fun p => Fork.weight_replace path

/-- The token is gone. -/
theorem path_vanish (stored : Store.get? id s'.running = some j) (alike : i.Alike j)
    (joins : s'.joinOf id f = s.joinOf id f) : Placed d id s' toks := by
  refine .forked (f := f) stored (alike.pendingApproval.trans unasked) ?_ ?_
  · rw [alike.failedStep, joins]
    exact forked.tail
  · rw [alike.failedStep, joins]
    exact accounted.tail

/-- A path reaches its join before others. -/
theorem path_report (stored : Store.get? id s'.running = some j) (alike : i.Alike j)
    (joined : s'.joinOf id f = ⟨(s.joinOf id f).add p, false⟩)
    (path : tok.path? d f i.failedStep = some p) (inside : p < f.paths.length) :
    Placed d id s' toks := by
  refine .forked (f := f) stored (alike.pendingApproval.trans unasked) ?_ ?_
  · rw [alike.failedStep, joined]
    exact forked.report inside
  · rw [alike.failedStep, joined]
    exact accounted.report path

/-- A handler captures the failure of a path. -/
theorem path_capture {g : Handler} {context : FailureContext} {first : Step} (hw : d.WellFormed)
    (others : ∀ tok ∈ toks, tok.In d) (token : tok = .trigger g context) (here : tok.In d)
    (stored : Store.get? id s'.running = some { i with failureContext := some context })
    (joins : s'.joinOf id f = s.joinOf id f) :
    Placed d id s' (toks ++ [.start ⟨.recovery g, 0, first⟩]) := by
  subst token
  have own := forked.along _ List.mem_cons_self rfl
  obtain ⟨p, _, path⟩ := own.path
  obtain ⟨scope, _⟩ := own.handler g rfl
  have along := fun tok htok => forked.along tok (List.mem_cons_of_mem _ htok)
  refine .forked (f := f) stored unasked ?_ ?_
  · rw [joins]
    exact forked.capture path
  · rw [joins]
    exact accounted.capture path along fun tok htok g' recovering =>
      forked.tail.eq_of_isRecovering hw others here scope htok recovering

end Path

/-- The move of a token on a path of a fork. -/
theorem along (c : Compiled d h.table) (tracked : Tracked d h id s toks) (here : tok.In d)
    (control : tok.isControl = true) {i : Instance} {f : Fork}
    (stored : Store.get? id s.running = some i) (unasked : i.pendingApproval = none)
    (forked : Forked d f i.failedStep (s.joinOf id f) (tok :: toks))
    (accounted : f.Accounted d i.failedStep (s.joinOf id f).reported (tok :: toks))
    (move : Move d h id s toks tok s' left) : Placed d id s' left := by
  have only : ∀ {j : Instance}, Store.get? id s.running = some j → j = i := fun there =>
    Option.some.inj (there.symm.trans stored)
  have own := forked.along tok List.mem_cons_self control
  obtain ⟨p, inside, path⟩ := own.path
  cases move with
  | work x state update failure =>
    exact path_next unasked forked accounted stored (.refl i) rfl ⟨own.path, own.handler⟩ rfl
  | lost tok consumed gone => exact .gone gone
  | begin x j there =>
    cases only there
    exact path_next unasked forked accounted (Store.get?_insert_self ..) ⟨rfl, rfl, rfl⟩ rfl
      ⟨own.path, own.handler⟩ rfl
  | refuse x j there =>
    cases only there
    exact path_vanish unasked forked accounted (Store.get?_insert_self ..) ⟨rfl, rfl, rfl⟩ rfl
  | settle x update failure plain =>
    rw [Token.path?_of_spot? rfl, plain.path?_eq] at path
    cases path
  | cascade x update failure f' declared main =>
    rw [Token.path?_of_spot? rfl, Spot.path?, main] at path
    cases path
  | onward x y update failure here' same after off i' j there alike =>
    cases only there
    have path' : (Token.start y).path? d f i.failedStep
        = (Token.done x update failure).path? d f i.failedStep := by
      rw [Token.path?_of_spot? rfl, Token.path?_of_spot? rfl, Spot.path?, Spot.path?, same]
    have handler : (Token.start y).handler? = (Token.done x update failure).handler? := by
      simp [Token.handler?, Token.spot?, same]
    exact path_next unasked forked accounted (Store.get?_insert_self ..) alike rfl
      ⟨path' ▸ own.path, handler ▸ own.handler⟩ path'
  | report x update failure f' p' line i' j there alike =>
    cases only there
    obtain ⟨rfl, rfl⟩ := Token.lane_eq rfl line path
    refine path_report unasked forked accounted (Store.get?_insert_self ..) alike ?_ path inside
    rw [Session.joinOf, Store.get?_insert_self, Option.getD_some, forked.unreleased]
  | release x update failure f' p' line y here' main i' j there alike going all =>
    cases only there
    obtain ⟨rfl, rfl⟩ := Token.lane_eq rfl line path
    have plain : y.line.IsPlain := by
      rw [main]
      trivial
    exact single (forked.nothing_of_full accounted path inside all) rfl (Store.get?_insert_self ..)
      unasked alike (Spot.level_of_isPlain plain)
  | close x update failure g line => exact .gone (by simp [Store.get?_erase])
  | resume x y update failure g line last terminal here' i' j there failed takes alike =>
    cases only there
    -- the failed step is on the path
    have onPath : f.pathOf? d i.failedStep = some p := by
      rw [← path, Token.path?_of_isRecovering (Token.isRecovering_iff.mpr ⟨x, rfl, line⟩)]
    have lane : y.line = .fork f p := c.line_of_pathOf? forked.declared here' (failed ▸ onPath)
    have path' : (Token.start y).path? d f i.failedStep = some p := Token.path?_of_lane rfl lane
    exact path_next unasked forked accounted (Store.get?_insert_self ..) alike rfl
      (.of_lane rfl lane inside) (path'.trans path.symm)
  | trigger x update failure g takes slow context failed i' j there alike going joins cancelled fewer
      kept =>
    cases only there
    have lane : x.line = .fork f p := Token.line_of_path? rfl path (by
      intro g' line
      rw [Spot.handler?, line] at takes
      cases takes)
    have path' : (Token.trigger g context).path? d f i.failedStep = some p := by
      rw [← c.pathOf?_phase here lane, ← failed]
      rfl
    have lazy : f.failFast = false := by
      by_contra fast
      rw [lane, Line.cancellation, if_pos (by simpa using fast)] at slow
      cases slow
    refine path_next unasked forked accounted (Store.get?_insert_self ..) alike ?_
      ⟨⟨p, inside, path'⟩, ?_⟩ (path'.trans path.symm)
    · simp only [Session.joinOf, kept (by rw [lane]; exact fun plain => plain)]
    · intro g' handler
      cases handler
      exact ⟨Spot.scope_of_lane takes lane, lazy⟩
  | cancel x update failure f' p' line failFast g takes context failed i' j there alike =>
    cases only there
    obtain ⟨rfl, rfl⟩ := Token.lane_eq rfl line path
    exact single
      (forked.swept c tracked.here path (accounted.sound_of_failFast failFast) failFast) rfl
      (Store.get?_insert_self ..) unasked alike
      (.inl (c.wellFormed.isTerminal_of_failFast forked.declared failFast takes line))
  | abort x update failure f' p' line => exact .gone (by simp [Host.sweep, Store.get?_erase])
  | fault x update failure off j there =>
    exact path_vanish unasked forked accounted stored (.refl i) rfl
  | capture g context first rest steps j there =>
    cases only there
    exact path_capture unasked forked accounted c.wellFormed tracked.here rfl here
      (Store.get?_insert_self ..) rfl
  | acknowledge a g correlation j there => cases path
  | ignore tok signal =>
    rw [Token.isControl_of_signal signal] at control
    cases control
  | answer tok signal =>
    rw [Token.isControl_of_signal signal] at control
    cases control

/-- A token is on a path of the fork that is under way. -/
theorem of_lane (holds : Placed d id s (tok :: toks)) {i : Instance}
    (stored : Store.get? id s.running = some i) {x : Spot} (atX : tok.spot? = some x) {f : Fork}
    {p : Nat} (line : x.line = .fork f p) :
    i.pendingApproval = none ∧ Forked d f i.failedStep (s.joinOf id f) (tok :: toks)
      ∧ f.Accounted d i.failedStep (s.joinOf id f).reported (tok :: toks) := by
  have control : tok.isControl = true := Token.isControl_of_spot? atX
  cases holds with
  | gone none =>
    rw [none] at stored
    cases stored
  | @alone i' tok' one there unasked level =>
    rw [List.filter_cons_of_pos control] at one
    obtain ⟨rfl, _⟩ := List.cons.inj one
    have level : x.Level d i'.failedStep := by
      cases tok <;> cases atX <;> exact level
    exact absurd line level.not_fork
  | idle nothing =>
    rw [List.filter_cons_of_pos control] at nothing
    cases nothing
  | forked there unasked forked accounted =>
    cases there.symm.trans stored
    obtain ⟨q, _, path⟩ := (forked.along tok List.mem_cons_self control).path
    obtain ⟨rfl, rfl⟩ := Token.lane_eq atX line path
    exact ⟨unasked, forked, accounted⟩

/-- While the main line completes a step, nothing else carries control and no answer is waited for. -/
theorem of_main (holds : Placed d id s (tok :: toks)) {i : Instance}
    (stored : Store.get? id s.running = some i) {x : Spot} (atX : tok.spot? = some x)
    (main : x.line = .main) :
    toks.filter Token.isControl = [] ∧ i.pendingApproval = none := by
  have control : tok.isControl = true := Token.isControl_of_spot? atX
  cases holds with
  | gone none =>
    rw [none] at stored
    cases stored
  | alone tok' one there unasked =>
    cases there.symm.trans stored
    rw [List.filter_cons_of_pos control] at one
    exact ⟨(List.cons.inj one).2, unasked⟩
  | idle nothing =>
    rw [List.filter_cons_of_pos control] at nothing
    cases nothing
  | forked there unasked forked =>
    obtain ⟨p, _, path⟩ := (forked.along tok List.mem_cons_self control).path
    rw [Token.path?_of_spot? atX, Spot.path?, main] at path
    cases path

/-! ## Runs -/

/-- The move of a signal. -/
theorem listen (off : tok.isControl = false) (holds : Placed d id s toks)
    (move : Move d h id s toks tok s' left) : Placed d id s' left := by
  rcases move.of_signal off with ⟨none, rfl, delivered, deadLetters, rfl⟩
    | ⟨i, j, delivered, calls, stored, alike, phase, rfl, rfl⟩
    | ⟨i, i', delivered, calls, stored, asked, cleared, settles⟩
  · exact .gone none
  · cases holds with
    | gone none =>
      rw [none] at stored
      cases stored
    | alone tok' control there unasked level =>
      cases there.symm.trans stored
      exact .alone tok' control (Store.get?_insert_self ..) (alike.pendingApproval.trans unasked)
        (alike.failedStep ▸ level)
    | idle control there => exact .idle control (Store.get?_insert_self ..)
    | forked there unasked forked accounted =>
      cases there.symm.trans stored
      exact .forked (Store.get?_insert_self ..) (alike.pendingApproval.trans unasked)
        (alike.failedStep ▸ forked) (alike.failedStep ▸ accounted)
  · cases holds with
    | gone none =>
      rw [none] at stored
      cases stored
    | idle control there => exact settle (s := { s with delivered, calls }) control cleared settles
    | alone _ _ there unasked | forked there unasked =>
      cases there.symm.trans stored
      exact absurd unasked asked

/-- Only tokens that carry control count. -/
theorem of_control (holds : Placed d id s toks) {toks' : List Token}
    (control : toks'.filter Token.isControl = toks.filter Token.isControl) : Placed d id s toks' := by
  cases holds with
  | gone none => exact .gone none
  | alone tok' one stored unasked level => exact .alone tok' (control.trans one) stored unasked level
  | idle nothing stored => exact .idle (control.trans nothing) stored
  | forked stored unasked forked accounted =>
    exact .forked stored unasked (forked.of_control control)
      (accounted.congr (Fork.weight_of_control control))

theorem of_signal (holds : Placed d id s toks)
    (signal : tok.kind = .approvalDecided ∨ tok.kind = .approvalTimedOut) :
    Placed d id s (toks ++ [tok]) :=
  holds.of_control (Token.control_append signal)

/-- A place depends on the instance and the joins alone. -/
theorem of_session (holds : Placed d id s toks) (running : s'.running = s.running)
    (joins : s'.joins = s.joins) : Placed d id s' toks := by
  have join : ∀ f, s'.joinOf id f = s.joinOf id f := fun f => by
    rw [Session.joinOf, joins, Session.joinOf]
  cases holds with
  | gone none => exact .gone (running ▸ none)
  | alone tok' one stored unasked level => exact .alone tok' one (running ▸ stored) unasked level
  | idle nothing stored => exact .idle nothing (running ▸ stored)
  | forked stored unasked forked accounted =>
    exact .forked (running ▸ stored) unasked (join _ ▸ forked) (join _ ▸ accounted)

/-- A move, wherever control is. -/
theorem move (c : Compiled d h.table) (tracked : Tracked d h id s toks) (here : tok.In d)
    (holds : Placed d id s (tok :: toks)) (move : Move d h id s toks tok s' left) :
    Placed d id s' left := by
  by_cases control : tok.isControl = true
  · cases holds with
    | gone none => exact .gone (move.of_gone none).1
    | alone tok' one stored unasked level =>
      rw [List.filter_cons_of_pos control] at one
      obtain ⟨rfl, nothing⟩ := List.cons.inj one
      exact carry c here control nothing stored unasked level move
    | idle nothing =>
      rw [List.filter_cons_of_pos control] at nothing
      cases nothing
    | forked stored unasked forked accounted =>
      exact along c tracked here control stored unasked forked accounted move
  · have off : tok.isControl = false := by simpa using control
    exact listen off (holds.of_control (List.filter_cons_of_neg (by simp [off])).symm) move

/-- An instance starts on the main line. -/
theorem start {x : Spot} (main : x.line = .main) {t : Table} {state : Value}
    (running : Store.get? id s.running = some (.fresh t id state)) : Placed d id s [.start x] := by
  have plain : x.line.IsPlain := by
    rw [main]
    trivial
  exact .alone (.start x) rfl running rfl (Spot.level_of_isPlain plain)

theorem kept (c : Compiled d h.table) (id : Key) : Kept d h id fun _ s toks => Placed d id s toks where
  start _ main running _ _ _ _ _ _ := .start main running
  move tracked here holds move _ _ := holds.move c tracked here move
  signal signal holds := holds.of_signal signal
  queue _ holds := holds.of_session rfl rfl
  beside _ _ holds := holds.of_session rfl rfl

end Placed

end Workflow
