import Workflow.Proofs.Host.Forked
import Workflow.Proofs.Host.Recovery

/-!
When a recovery starts the failed step again.

An instance holds one captured failure. While control is in one place that is enough: each failure that
a handler captures is started again at the end of its recovery. On a fork two paths may fail into the
same handler. If the second failure is captured while the recovery of the first is under way, the first
one is forgotten: both recoveries start the second step again, the path of the first never reports, and
its join is never released. `captures_perm_restarts_iff` says that this is the only way to go wrong.
-/

set_option autoImplicit false

namespace Workflow

open RecoveryEvent

/-- Nothing was captured while a recovery was under way, and everything captured was started again. -/
def RecoveryEvent.Balanced (events : List RecoveryEvent) : Prop :=
  Apart events ∧ (captures events).Perm (restarts events)

/-! ## Accounts of a fork -/

/-- How captures and restarts stand while a fork is under way: either every recovery is owed the
failure that the instance holds, or a path is lost. It is lost to the handler, or to another one that
takes the failures of forks. -/
inductive Account (d : Definition) (g : Handler) (f : Fork) (slot : String) (state : JoinState)
    (toks : List Token) (events : List RecoveryEvent) : Prop
  | sound (sound : f.Sound d slot state.reported toks) (apart : Apart events)
      (owes : (captures events).Perm
        (restarts events ++ List.replicate (toks.countP (Token.isRecovering g)) slot))
  | leaking (q : Nat) (lost : f.Lost d slot state.reported toks q) (scope : g.scope = .workflow)
      (broken : ¬ Apart events)
      (short : (captures events).countP (fun step => f.pathOf? d step = some q)
        = (restarts events).countP (fun step => f.pathOf? d step = some q) + 1)
  | stuck (q : Nat) (lost : f.Lost d slot state.reported toks q) (other : g.scope ≠ .workflow)
      (balanced : Balanced events)

namespace Account

variable {d : Definition} {g : Handler} {f : Fork} {slot : String} {state : JoinState}
  {toks : List Token} {tok tok' : Token} {events : List RecoveryEvent} {p : Nat}

theorem countP_append (toks : List Token) (tok : Token) :
    (toks ++ [tok]).countP (Token.isRecovering g) = (tok :: toks).countP (Token.isRecovering g) := by
  simp [List.countP_append, List.countP_cons]

/-- An account is about the paths and recoveries of tokens only. -/
theorem congr (account : Account d g f slot state toks events) {toks' : List Token}
    (weight : ∀ p, f.weight d slot toks' p = f.weight d slot toks p)
    (count : toks'.countP (Token.isRecovering g) = toks.countP (Token.isRecovering g)) :
    Account d g f slot state toks' events := by
  cases account with
  | sound sound apart owes => exact .sound (sound.congr weight) apart (count ▸ owes)
  | leaking q lost scope broken short => exact .leaking q (lost.congr weight) scope broken short
  | stuck q lost other balanced => exact .stuck q (lost.congr weight) other balanced

/-- A token takes the place of another one. -/
theorem replace (account : Account d g f slot state (tok :: toks) events)
    (path : tok'.path? d f slot = tok.path? d f slot)
    (same : tok'.isRecovering g = tok.isRecovering g) :
    Account d g f slot state (toks ++ [tok']) events := by
  refine account.congr (fun p => Fork.weight_replace path) ?_
  rw [countP_append, List.countP_cons, List.countP_cons, same]

/-- Only tokens that carry control count. -/
theorem of_control (account : Account d g f slot state toks events) {toks' : List Token}
    (control : toks'.filter Token.isControl = toks.filter Token.isControl) :
    Account d g f slot state toks' events := by
  have counts : ∀ toks : List Token, (toks.filter Token.isControl).countP (Token.isRecovering g)
      = toks.countP (Token.isRecovering g) := by
    intro toks
    rw [List.countP_filter]
    apply List.countP_congr
    intro tok _
    rw [Bool.and_eq_true_iff, and_iff_left_of_imp]
    intro recovering
    obtain ⟨x, atX, _⟩ := Token.isRecovering_iff.mp recovering
    exact Token.isControl_of_spot? atX
  refine account.congr (Fork.weight_of_control control) ?_
  rw [← counts, control, counts]

/-- A path reports. -/
theorem report (account : Account d g f slot state (tok :: toks) events)
    (path : tok.path? d f slot = some p) (off : tok.isRecovering g = false) :
    Account d g f slot ⟨state.add p, false⟩ toks events := by
  cases account with
  | sound sound apart owes =>
    rw [List.countP_cons_of_neg (by simp [off])] at owes
    exact .sound (sound.report path) apart owes
  | leaking q lost scope broken short => exact .leaking q (lost.report path) scope broken short
  | stuck q lost other balanced => exact .stuck q (lost.report path) other balanced

/-- The handler starts the step again that the instance holds. -/
theorem restart (account : Account d g f slot state (tok :: toks) events) (scope : g.scope = .workflow)
    (recovering : tok.isRecovering g = true) (path : tok'.path? d f slot = tok.path? d f slot)
    (off : tok'.isRecovering g = false) (onPath : f.pathOf? d slot = some p) :
    Account d g f slot state (toks ++ [tok']) (events ++ [.restarted slot]) := by
  have weight : ∀ p, f.weight d slot (toks ++ [tok']) p = f.weight d slot (tok :: toks) p :=
    fun p => Fork.weight_replace path
  cases account with
  | sound sound apart owes =>
    refine .sound (sound.congr weight) (apart_append_iff.mpr ⟨apart, by simp⟩) ?_
    rw [countP_append, List.countP_cons_of_neg (by simp [off])]
    rw [List.countP_cons_of_pos recovering, List.replicate_succ] at owes
    simpa using owes
  | leaking q lost scope broken short =>
    -- the path that is started again has a token, the lost one has none
    have apart : p ≠ q := lost.ne (by rw [Token.path?_of_isRecovering recovering, onPath])
    refine .leaking q (lost.congr weight) scope (fun all => broken all.of_append) ?_
    simpa [List.countP_append, List.countP_cons, onPath, apart] using short
  | stuck q lost other balanced => exact absurd scope other

/-- The handler captures a failure. -/
theorem capture {context : FailureContext} {y : Step}
    (account : Account d g f slot state (.trigger g context :: toks) events)
    (path : f.pathOf? d context.failedStep = some p) (scope : g.scope = .workflow)
    (along : ∀ tok ∈ toks, tok.isControl = true → tok.Along d f slot)
    (only : ∀ tok ∈ toks, ∀ g', tok.isRecovering g' = true → g' = g) :
    Account d g f context.failedStep state (toks ++ [.start ⟨.recovery g, 0, y⟩])
      (events ++ [.captured context.failedStep]) := by
  have started : (Token.start ⟨.recovery g, 0, y⟩).isRecovering g = true := by
    simp [Token.isRecovering, Token.spot?]
  cases account with
  | sound sound apart owes =>
    rw [List.countP_cons_of_neg (by simp [Token.isRecovering, Token.spot?])] at owes
    rcases sound.capture (y := y) path along only with ⟨sound', idle⟩ | ⟨q, lost, onQ, other, one⟩
    · rw [idle, List.replicate_zero, List.append_nil] at owes
      refine .sound sound' (apart_append_iff.mpr ⟨apart, fun _ _ => owes.length_eq⟩) ?_
      rw [countP_append, List.countP_cons_of_pos started, idle]
      simpa using owes.append_right [context.failedStep]
    · rw [one] at owes
      have ahead := owes.length_eq
      refine .leaking q lost scope (fun all => ?_) ?_
      · have even := (apart_append_iff.mp all).2 _ rfl
        simp at ahead
        omega
      · have counts := owes.countP_eq fun step => f.pathOf? d step = some q
        simpa [List.countP_append, List.countP_cons, path, onQ, other] using counts
  | leaking q lost _ broken short =>
    have other : p ≠ q := lost.ne path
    refine .leaking q (lost.capture path) scope (fun all => broken all.of_append) ?_
    simpa [List.countP_append, List.countP_cons, path, other] using short
  | stuck q lost other balanced => exact absurd scope other

/-- Another handler captures a failure. -/
theorem capture_other {g' : Handler} {context : FailureContext} {y : Step}
    (account : Account d g f slot state (.trigger g' context :: toks) events)
    (path : f.pathOf? d context.failedStep = some p) (ne : g' ≠ g) (other : g.scope ≠ .workflow)
    (along : ∀ tok ∈ toks, tok.isControl = true → tok.Along d f slot)
    (only : ∀ tok ∈ toks, ∀ g'', tok.isRecovering g'' = true → g'' = g') :
    Account d g f context.failedStep state (toks ++ [.start ⟨.recovery g', 0, y⟩]) events := by
  have idle : toks.countP (Token.isRecovering g) = 0 := by
    rw [List.countP_eq_zero]
    intro tok htok recovering
    exact ne (only tok htok g recovering).symm
  have started : (Token.start ⟨.recovery g', 0, y⟩).isRecovering g = false := by
    simp [Token.isRecovering, Token.spot?, ne]
  cases account with
  | sound sound apart owes =>
    rw [List.countP_cons_of_neg (by simp [Token.isRecovering, Token.spot?]), idle,
      List.replicate_zero, List.append_nil] at owes
    rcases sound.capture (y := y) path along only with ⟨sound', _⟩ | ⟨q, lost, _⟩
    · refine .sound sound' apart ?_
      rw [countP_append, List.countP_cons_of_neg (by simp [started]), idle]
      simpa using owes
    · exact .stuck q lost other ⟨apart, owes⟩
  | leaking q lost scope broken short => exact absurd scope other
  | stuck q lost other balanced => exact .stuck q (lost.capture path) other balanced

/-- Once no token is left, the account says whether everything captured was started again. -/
theorem perm_iff (account : Account d g f slot state [] events) :
    (captures events).Perm (restarts events) ↔ Apart events := by
  cases account with
  | sound sound apart owes => exact iff_of_true (by simpa using owes) apart
  | leaking q lost scope broken short =>
    refine iff_of_false (fun perm => ?_) broken
    have counts := perm.countP_eq fun step => f.pathOf? d step = some q
    omega
  | stuck q lost other balanced => exact iff_of_true balanced.2 balanced.1

/-- A fork that has just begun. -/
theorem starts (d : Definition) (f : Fork) (nothing : toks.filter Token.isControl = []) (slot : String)
    (balanced : Balanced events) : Account d g f slot .empty (toks ++ f.starts) events := by
  have idle : (toks ++ f.starts).countP (Token.isRecovering g) = 0 := by
    rw [List.countP_eq_zero]
    intro tok htok recovering
    obtain ⟨x, atX, line⟩ := Token.isRecovering_iff.mp recovering
    rcases List.mem_append.mp htok with old | new
    · exact List.filter_eq_nil_iff.mp nothing tok old (Token.isControl_of_spot? atX)
    · obtain ⟨p, x', atX', line'⟩ := Fork.exists_spot_of_mem_starts new
      rw [atX] at atX'
      cases atX'
      rw [line] at line'
      cases line'
  refine .sound (Fork.sound_append_starts d f slot nothing) balanced.1 ?_
  rw [idle]
  simpa using balanced.2

end Account

namespace Forked

variable {d : Definition} {g : Handler} {f : Fork} {slot : String} {state : JoinState}
  {toks : List Token} {tok : Token} {events : List RecoveryEvent} {p : Nat}

/-- A handler that does not take the failures of the fork has no recovery under way. -/
theorem idle (forked : Forked d f slot state toks) (off : g.scope ≠ .workflow ∨ f.failFast = true) :
    toks.countP (Token.isRecovering g) = 0 := by
  rw [List.countP_eq_zero]
  intro tok htok recovering
  obtain ⟨x, atX, line⟩ := Token.isRecovering_iff.mp recovering
  obtain ⟨scope, slow⟩ := (forked.along tok htok (Token.isControl_of_spot? atX)).handler g
    (Token.handler?_of_recovery atX line)
  rcases off with other | failFast
  · exact other scope
  · rw [slow] at failFast
    cases failFast

/-- Its captures and restarts do not change. -/
theorem balanced (forked : Forked d f slot state toks) (account : Account d g f slot state toks events)
    (off : g.scope ≠ .workflow ∨ f.failFast = true) : Balanced events := by
  cases account with
  | sound sound apart owes =>
    rw [forked.idle off] at owes
    exact ⟨apart, by simpa using owes⟩
  | leaking q lost scope =>
    rcases off with other | failFast
    · exact absurd scope other
    · rw [lost.slow] at failFast
      cases failFast
  | stuck q lost other balanced => exact balanced

/-- A path that completes a fork is the last one: no token is left beside it. -/
theorem release (forked : Forked d f slot state (tok :: toks)) (path : tok.path? d f slot = some p)
    (account : Account d g f slot state (tok :: toks) events) (off : tok.isRecovering g = false)
    (inside : p < f.paths.length) (full : f.paths.length ≤ (state.add p).length) :
    toks.filter Token.isControl = [] ∧ Balanced events := by
  have every : ∀ q, q < f.paths.length → q ∈ state.add p := fun q hq =>
    Fork.mem_add_of_full forked.distinct forked.bounded inside full hq
  cases account.report path off with
  | sound sound apart owes =>
    have nothing : toks.filter Token.isControl = [] := forked.nothing_of_every sound every
    have idle : toks.countP (Token.isRecovering g) = 0 := by
      rw [List.countP_eq_zero]
      intro tok' htok' recovering
      obtain ⟨x, atX, _⟩ := Token.isRecovering_iff.mp recovering
      exact List.filter_eq_nil_iff.mp nothing tok' htok' (Token.isControl_of_spot? atX)
    rw [idle] at owes
    exact ⟨nothing, apart, by simpa using owes⟩
  | leaking q lost => exact absurd (every q lost.inside) lost.unreported
  | stuck q lost => exact absurd (every q lost.inside) lost.unreported

/-- A fork that cancels its paths loses none. -/
theorem sound_of_failFast (account : Account d g f slot state toks events)
    (failFast : f.failFast = true) : f.Sound d slot state.reported toks := by
  cases account with
  | sound sound => exact sound
  | leaking q lost | stuck q lost =>
    rw [lost.slow] at failFast
    cases failFast

end Forked

/-! ## The invariant -/

/-- The instance has met with a fault or was refused a step. -/
def Host.Stopped (h : Host) (id : Key) (s : Session) : Prop :=
  (∃ f ∈ s.faults, f.instanceId = id)
    ∨ ∃ m ∈ s.events, m.instanceId = id ∧ h.table.kindOf? m.name = some .validationFailed

/-- The failure that a recovery is owed. -/
def Token.owed (g : Handler) (slot : String) (tok : Token) : List String :=
  if tok.isRecovering g then [slot] else []

/-- How captures and restarts stand in the course of a run. -/
inductive Recovering (d : Definition) (h : Host) (g : Handler) (id : Key)
    (events : List RecoveryEvent) (s : Session) (toks : List Token) : Prop
  | stopped (stopped : h.Stopped id s)
  | gone (gone : Store.get? id s.running = none) (balanced : Balanced events)
  /-- Control is in one place. -/
  | level {i : Instance} (tok : Token) (control : toks.filter Token.isControl = [tok])
      (stored : Store.get? id s.running = some i) (unasked : i.pendingApproval = none)
      (level : tok.Level d i.failedStep) (apart : Apart events)
      (owes : (captures events).Perm (restarts events ++ tok.owed g i.failedStep))
  | waiting {i : Instance} (control : toks.filter Token.isControl = [])
      (stored : Store.get? id s.running = some i) (balanced : Balanced events)
  | forked {i : Instance} {f : Fork} (stored : Store.get? id s.running = some i)
      (unasked : i.pendingApproval = none)
      (forked : Forked d f i.failedStep (s.joinOf id f) toks)
      (account : Account d g f i.failedStep (s.joinOf id f) toks events)

/-- Faults and refusals are not forgotten. -/
theorem Move.stopped {d : Definition} {h : Host} {id : Key} {s s' : Session} {toks left : List Token}
    {tok : Token} (move : Move d h id s toks tok s' left) (stopped : h.Stopped id s) :
    h.Stopped id s' := by
  have logs : s.faults ⊆ s'.faults ∧ s.events ⊆ s'.events := by
    have settled : ∀ {s s' : Session} {left : List Token} {i : Instance},
        Settles d id s toks i s' left → s.faults ⊆ s'.faults ∧ s.events ⊆ s'.events := by
      intro s s' left i settles
      cases settles <;> simp
    cases move with
    | settle x update failure plain i i' stored alike joins cancelled fewer delivered calls s' left
        settles =>
      obtain ⟨faults, events⟩ := settled settles
      exact ⟨faults, events⟩
    | answer tok signal i i' stored asked key cleared delivered calls s' left settles =>
      obtain ⟨faults, events⟩ := settled settles
      exact ⟨faults, events⟩
    | _ => simp [Host.sweep, Session.send]
  rcases stopped with ⟨f, recorded, own⟩ | ⟨m, published, own, kind⟩
  · exact .inl ⟨f, logs.1 recorded, own⟩
  · exact .inr ⟨m, logs.2 published, own, kind⟩

theorem Token.owed_of_line {g : Handler} {slot : String} {tok : Token} {x : Spot}
    (atX : tok.spot? = some x) (off : x.line ≠ .recovery g) : tok.owed g slot = [] := by
  simp [owed, isRecovering, atX, off]

theorem Token.owed_of_spot? {g : Handler} {slot : String} {tok : Token} (off : tok.spot? = none) :
    tok.owed g slot = [] := by
  simp [owed, isRecovering, off]

theorem Token.owed_congr {g : Handler} {slot : String} {tok tok' : Token} {x y : Spot}
    (atX : tok.spot? = some x) (atY : tok'.spot? = some y) (same : y.line = x.line) :
    tok'.owed g slot = tok.owed g slot := by
  simp [owed, isRecovering, atX, atY, same]

theorem Token.owed_of_recovery {g : Handler} {slot : String} {tok : Token} {x : Spot}
    (atX : tok.spot? = some x) (line : x.line = .recovery g) : tok.owed g slot = [slot] := by
  simp [owed, isRecovering, atX, line]

namespace Recovering

variable {d : Definition} {h : Host} {g : Handler} {id : Key} {events : List RecoveryEvent}
  {s s' : Session} {toks left : List Token} {tok : Token}

/-! ## Control in one place -/

/-- Control goes to one token. -/
theorem alone {i : Instance} (nothing : toks.filter Token.isControl = [])
    (control : tok.isControl = true) (stored : Store.get? id s.running = some i)
    (unasked : i.pendingApproval = none) (level : tok.Level d i.failedStep) (apart : Apart events)
    (owes : (captures events).Perm (restarts events ++ tok.owed g i.failedStep)) :
    Recovering d h g id events s (toks ++ [tok]) := by
  refine .level tok ?_ stored unasked level apart owes
  rw [List.filter_append, nothing, List.filter_cons_of_pos control]
  rfl

/-- It is owed nothing, since nothing is open. -/
theorem alone_of_balanced {i : Instance} (nothing : toks.filter Token.isControl = [])
    (control : tok.isControl = true) (stored : Store.get? id s.running = some i)
    (unasked : i.pendingApproval = none) (level : tok.Level d i.failedStep)
    (balanced : Balanced events) (unowed : tok.owed g i.failedStep = []) :
    Recovering d h g id events s (toks ++ [tok]) := by
  refine alone nothing control stored unasked level balanced.1 ?_
  rw [unowed, List.append_nil]
  exact balanced.2

/-- Going on by a plain line or a decision. -/
theorem settle (nothing : toks.filter Token.isControl = []) (balanced : Balanced events)
    {i : Instance} (unasked : i.pendingApproval = none) (settles : Settles d id s toks i s' left) :
    Recovering d h g id events s' left := by
  cases settles with
  | start y here plain alike going =>
    exact alone_of_balanced nothing rfl (Store.get?_insert_self ..)
      (alike.pendingApproval.trans unasked) (Spot.level_of_isPlain plain) balanced
      (Token.owed_of_line rfl (plain.ne_recovery g))
  | finish finished => exact .gone (by simp [Store.get?_erase]) balanced
  | request a g' attached link alike phase going correlation m =>
    exact alone_of_balanced nothing rfl (Store.get?_insert_self ..)
      (alike.pendingApproval.trans unasked) trivial balanced (Token.owed_of_spot? rfl)

section Alone

variable {i j : Instance} (c : Compiled d h.table) (declared : g ∈ d.handlers)
  (nothing : toks.filter Token.isControl = []) (unasked : i.pendingApproval = none)
  (level : tok.Level d i.failedStep) (apart : Apart events)
  (owes : (captures events).Perm (restarts events ++ tok.owed g i.failedStep))

include nothing unasked apart owes

/-- One token goes and another one comes, with the same failure held. -/
theorem alone_next {tok' : Token} (control : tok'.isControl = true)
    (stored : Store.get? id s'.running = some j) (alike : i.Alike j)
    (level : tok'.Level d i.failedStep)
    (owed : tok'.owed g i.failedStep = tok.owed g i.failedStep) :
    Recovering d h g id events s' (toks ++ [tok']) := by
  refine alone nothing control stored (alike.pendingApproval.trans unasked)
    (alike.failedStep ▸ level) apart ?_
  rw [alike.failedStep, owed]
  exact owes

include c declared level

/-- The end of a recovery that is not terminal. -/
theorem alone_resume {x y : Spot} {update : Value} {failure : Option StepFailure} {g' : Handler}
    (token : tok = .done x update failure) (here : tok.In d) (line : x.line = .recovery g')
    (last : x.index + 1 = g'.steps.length) (terminal : g'.isTerminal = false) (there : y.In d)
    (failed : y.phase d = i.failedStep) (takes : y.handler? d = some g')
    (stored : Store.get? id s'.running = some j) (alike : i.Alike j)
    (tracked : Tracked d h id s toks) (after : Tracked d h id s' (toks ++ [.start y]))
    (result : h.deliver s (tok.message d id) = s') :
    Recovering d h g id (events ++ h.recoveryEvents d g ⟨s, tok.message d id⟩) s'
      (toks ++ [.start y]) := by
  subst token
  have plain : y.line.IsPlain := c.isPlain_of_returns there takes (level.returns line) terminal failed
  have unowed : (Token.start y).owed g i.failedStep = [] :=
    Token.owed_of_line rfl (plain.ne_recovery g)
  by_cases same : g' = g
  · subst same
    rw [Token.owed_of_recovery rfl line] at owes
    rw [c.recoveryEvents_resume here line last there tracked after result, failed]
    refine alone_of_balanced nothing rfl stored (alike.pendingApproval.trans unasked)
      (Spot.level_of_isPlain plain) ⟨apart_append_iff.mpr ⟨apart, by simp⟩, ?_⟩
      (alike.failedStep ▸ unowed)
    simpa using owes
  · have off : x.line ≠ .recovery g := by
      rw [line]
      exact fun eq => same (Line.recovery.inj eq)
    rw [c.recoveryEvents_elsewhere here declared off, List.append_nil]
    exact alone_next nothing unasked apart owes rfl stored alike (Spot.level_of_isPlain plain)
      (unowed.trans (Token.owed_of_line rfl off).symm)

/-- A handler captures a failure. -/
theorem alone_capture {g' : Handler} {context : FailureContext} {first : Step}
    (token : tok = .trigger g' context) (here : tok.In d)
    (stored : Store.get? id s'.running = some { i with failureContext := some context })
    (result : h.deliver s (tok.message d id) = s') :
    Recovering d h g id (events ++ h.recoveryEvents d g ⟨s, tok.message d id⟩) s'
      (toks ++ [.start ⟨.recovery g', 0, first⟩]) := by
  subst token
  rw [Token.owed_of_spot? rfl, List.append_nil] at owes
  by_cases same : g' = g
  · subst same
    rw [c.recoveryEvents_capture declared stored rfl result]
    refine alone nothing rfl stored unasked level
      (apart_append_iff.mpr ⟨apart, fun _ _ => owes.length_eq⟩) ?_
    rw [Token.owed_of_recovery rfl rfl]
    simpa [Instance.failedStep] using owes.append_right [context.failedStep]
  · rw [c.recoveryEvents_other here declared (by simpa using same) (by simp), List.append_nil]
    exact alone_of_balanced nothing rfl stored unasked level ⟨apart, owes⟩
      (Token.owed_of_line rfl (by simpa using same))

end Alone

/-- The move of a token that carries control alone. -/
theorem carry (c : Compiled d h.table) (declared : g ∈ d.handlers) (resumes : g.isTerminal = false)
    (tracked : Tracked d h id s toks) (here : tok.In d) (control : tok.isControl = true)
    (nothing : toks.filter Token.isControl = []) {i : Instance}
    (stored : Store.get? id s.running = some i) (unasked : i.pendingApproval = none)
    (level : tok.Level d i.failedStep) (apart : Apart events)
    (owes : (captures events).Perm (restarts events ++ tok.owed g i.failedStep))
    (move : Move d h id s toks tok s' left) (after : Tracked d h id s' left)
    (result : h.deliver s (tok.message d id) = s') :
    Recovering d h g id (events ++ h.recoveryEvents d g ⟨s, tok.message d id⟩) s' left := by
  have only : ∀ {j : Instance}, Store.get? id s.running = some j → j = i := fun there =>
    Option.some.inj (there.symm.trans stored)
  cases move with
  | work x state update failure delivered calls =>
    rw [c.recoveryEvents_other here declared (by simp) (by simp), List.append_nil]
    exact alone_next nothing unasked apart owes rfl stored (.refl i) level rfl
  | lost tok consumed gone delivered deadLetters =>
    rw [gone] at stored
    cases stored
  | begin x j there delivered calls =>
    cases only there
    rw [c.recoveryEvents_other here declared (by simp) (by simp), List.append_nil]
    exact alone_next nothing unasked apart owes rfl (Store.get?_insert_self ..) ⟨rfl, rfl, rfl⟩ level
      rfl
  | refuse x j there m kind own delivered calls =>
    exact .stopped (.inr ⟨m, List.mem_append_right _ (List.mem_singleton_self m), own, kind⟩)
  | settle x update failure plain j i' there alike joins cancelled fewer delivered calls s' left
      settles =>
    cases only there
    rw [c.recoveryEvents_elsewhere here declared (plain.ne_recovery g), List.append_nil]
    rw [Token.owed_of_line rfl (plain.ne_recovery g), List.append_nil] at owes
    exact settle (s := { s with joins, cancelled, delivered, calls }) nothing ⟨apart, owes⟩
      (alike.pendingApproval.trans unasked) settles
  | cascade x update failure f declared' main i' j there alike going joins cancelled fewer unjoined
      uncancelled delivered calls =>
    cases only there
    have off : x.line ≠ .recovery g := by simp [main]
    rw [c.recoveryEvents_elsewhere here declared off, List.append_nil]
    rw [Token.owed_of_line rfl off, List.append_nil] at owes
    have fresh : ∀ running, Session.joinOf { s with
        running
        queue := s.queue ++ f.starts.map (Token.message d id)
        joins, cancelled, delivered, calls } id f = .empty := by
      intro running
      simp [Session.joinOf, unjoined]
    refine .forked (f := f) (Store.get?_insert_self ..) (alike.pendingApproval.trans unasked) ?_ ?_
    · rw [fresh]
      exact .starts declared' nothing _
    · rw [fresh]
      exact .starts d f nothing _ ⟨apart, owes⟩
  | onward x y update failure here' same after' off i' j there alike going delivered calls =>
    cases only there
    rw [c.recoveryEvents_onward here declared here' same after', List.append_nil]
    refine alone_next nothing unasked apart owes rfl (Store.get?_insert_self ..) alike ?_
      (Token.owed_congr rfl rfl same)
    simpa only [Token.Level, Spot.Level, same] using level
  | report x update failure f p line => exact absurd line level.not_fork
  | release x update failure f p line => exact absurd line level.not_fork
  | close x update failure g' line terminal i' j there finished delivered calls =>
    have off : x.line ≠ .recovery g := by
      rw [line]
      rintro same
      cases same
      rw [resumes] at terminal
      cases terminal
    rw [c.recoveryEvents_elsewhere here declared off, List.append_nil]
    rw [Token.owed_of_line rfl off, List.append_nil] at owes
    exact .gone (by simp [Store.get?_erase]) ⟨apart, owes⟩
  | resume x y update failure g' line last terminal here' i' j there failed takes alike going delivered
      calls =>
    cases only there
    exact alone_resume c declared nothing unasked level apart owes rfl here line last terminal here'
      failed takes (Store.get?_insert_self ..) alike tracked after result
  | trigger x update failure g' takes slow context failed i' j there alike going joins cancelled fewer
      kept delivered calls =>
    cases only there
    have plain : x.line.IsPlain := by
      cases line : x.line with
      | fork f p => exact absurd line level.not_fork
      | recovery g'' =>
        rw [Spot.handler?, line] at takes
        cases takes
      | _ => trivial
    rw [c.recoveryEvents_elsewhere here declared (plain.ne_recovery g), List.append_nil]
    refine alone_next nothing unasked apart owes rfl (Store.get?_insert_self ..) alike
      (.inr ⟨x, here, plain, failed.symm⟩) ?_
    exact (Token.owed_of_spot? rfl).trans (Token.owed_of_line rfl (plain.ne_recovery g)).symm
  | cancel x update failure f p line => exact absurd line level.not_fork
  | abort x update failure f p line => exact absurd line level.not_fork
  | fault x update failure off j there record own kind delivered calls =>
    exact .stopped (.inl ⟨record, List.mem_append_right _ (List.mem_singleton_self record), own⟩)
  | capture g' context first rest steps j there delivered calls =>
    cases only there
    exact alone_capture c declared nothing unasked level apart owes rfl here
      (Store.get?_insert_self ..) result
  | acknowledge a g' correlation j there delivered calls =>
    rw [c.recoveryEvents_other here declared (by simp) (by simp), List.append_nil]
    rw [Token.owed_of_spot? rfl, List.append_nil] at owes
    exact .waiting nothing (Store.get?_insert_self ..) ⟨apart, owes⟩
  | ignore tok signal =>
    rw [Token.isControl_of_signal signal] at control
    cases control
  | answer tok signal =>
    rw [Token.isControl_of_signal signal] at control
    cases control

/-! ## A fork under way -/

section Path

variable {i j : Instance} {f : Fork} {p : Nat} (c : Compiled d h.table) (declared : g ∈ d.handlers)
  (unasked : i.pendingApproval = none)
  (forked : Forked d f i.failedStep (s.joinOf id f) (tok :: toks))
  (account : Account d g f i.failedStep (s.joinOf id f) (tok :: toks) events)

include unasked forked account

/-- One token goes and another one comes, on the same path. -/
theorem path_next {tok' : Token} (stored : Store.get? id s'.running = some j) (alike : i.Alike j)
    (joins : s'.joinOf id f = s.joinOf id f) (along : tok'.Along d f i.failedStep)
    (path : tok'.path? d f i.failedStep = tok.path? d f i.failedStep)
    (same : tok'.isRecovering g = tok.isRecovering g) :
    Recovering d h g id events s' (toks ++ [tok']) := by
  refine .forked (f := f) stored (alike.pendingApproval.trans unasked) ?_ ?_
  · rw [alike.failedStep, joins]
    exact forked.replace along
  · rw [alike.failedStep, joins]
    exact account.replace path same

/-- A path reaches its join before others. -/
theorem path_report (stored : Store.get? id s'.running = some j) (alike : i.Alike j)
    (joined : s'.joinOf id f = ⟨(s.joinOf id f).add p, false⟩)
    (path : tok.path? d f i.failedStep = some p) (inside : p < f.paths.length)
    (off : tok.isRecovering g = false) : Recovering d h g id events s' toks := by
  refine .forked (f := f) stored (alike.pendingApproval.trans unasked) ?_ ?_
  · rw [alike.failedStep, joined]
    exact forked.report inside
  · rw [alike.failedStep, joined]
    exact account.report path off

/-- Or after them. -/
theorem path_release {y : Spot} (main : y.line = .main) (stored : Store.get? id s'.running = some j)
    (alike : i.Alike j) (path : tok.path? d f i.failedStep = some p) (inside : p < f.paths.length)
    (off : tok.isRecovering g = false) (all : f.paths.length ≤ ((s.joinOf id f).add p).length) :
    Recovering d h g id events s' (toks ++ [.start y]) := by
  have plain : y.line.IsPlain := by
    rw [main]
    trivial
  obtain ⟨nothing, balanced⟩ := forked.release path account off inside all
  exact alone_of_balanced nothing rfl stored (alike.pendingApproval.trans unasked)
    (Spot.level_of_isPlain plain) balanced (Token.owed_of_line rfl (plain.ne_recovery g))

include c declared

/-- The end of a recovery that is not terminal. -/
theorem path_resume {x y : Spot} {update : Value} {failure : Option StepFailure} {g' : Handler}
    (token : tok = .done x update failure) (here : tok.In d) (line : x.line = .recovery g')
    (last : x.index + 1 = g'.steps.length) (there : y.In d) (failed : y.phase d = i.failedStep)
    (stored : Store.get? id s'.running = some j) (alike : i.Alike j)
    (joins : s'.joinOf id f = s.joinOf id f) (path : tok.path? d f i.failedStep = some p)
    (inside : p < f.paths.length) (tracked : Tracked d h id s toks)
    (after : Tracked d h id s' (toks ++ [.start y]))
    (result : h.deliver s (tok.message d id) = s') :
    Recovering d h g id (events ++ h.recoveryEvents d g ⟨s, tok.message d id⟩) s'
      (toks ++ [.start y]) := by
  subst token
  have recovering : (Token.done x update failure).isRecovering g' = true :=
    Token.isRecovering_iff.mpr ⟨x, rfl, line⟩
  -- the failed step is on the path
  have onPath : f.pathOf? d i.failedStep = some p := by
    rw [← path, Token.path?_of_isRecovering recovering]
  have lane : y.line = .fork f p := c.line_of_pathOf? forked.declared there (failed ▸ onPath)
  have path' : (Token.start y).path? d f i.failedStep = some p := Token.path?_of_lane rfl lane
  have along : (Token.start y).Along d f i.failedStep := .of_lane rfl lane inside
  have off : (Token.start y).isRecovering g = false := Token.isRecovering_of_line rfl (by simp [lane])
  by_cases same : g' = g
  · subst same
    obtain ⟨scope, _⟩ := (forked.along _ List.mem_cons_self rfl).handler g'
      (Token.handler?_of_recovery rfl line)
    rw [c.recoveryEvents_resume here line last there tracked after result, failed]
    refine .forked (f := f) stored (alike.pendingApproval.trans unasked) ?_ ?_
    · rw [alike.failedStep, joins]
      exact forked.replace along
    · rw [alike.failedStep, joins]
      exact account.restart scope recovering (path'.trans path.symm) off onPath
  · have elsewhere : x.line ≠ .recovery g := by
      rw [line]
      exact fun eq => same (Line.recovery.inj eq)
    rw [c.recoveryEvents_elsewhere here declared elsewhere, List.append_nil]
    exact path_next unasked forked account stored alike joins along (path'.trans path.symm)
      (off.trans (Token.isRecovering_of_line rfl elsewhere).symm)

/-- A handler captures the failure of a path. -/
theorem path_capture {g' : Handler} {context : FailureContext} {first : Step}
    (token : tok = .trigger g' context) (here : tok.In d)
    (stored : Store.get? id s'.running = some { i with failureContext := some context })
    (joins : s'.joinOf id f = s.joinOf id f) (tracked : Tracked d h id s toks)
    (result : h.deliver s (tok.message d id) = s') :
    Recovering d h g id (events ++ h.recoveryEvents d g ⟨s, tok.message d id⟩) s'
      (toks ++ [.start ⟨.recovery g', 0, first⟩]) := by
  subst token
  have own := forked.along _ List.mem_cons_self rfl
  obtain ⟨p, _, path⟩ := own.path
  obtain ⟨scope, _⟩ := own.handler g' rfl
  have along := fun tok htok => forked.along tok (List.mem_cons_of_mem _ htok)
  have one : ∀ tok ∈ toks, ∀ g'', tok.isRecovering g'' = true → g'' = g' := fun tok htok g'' =>
    forked.tail.eq_of_isRecovering c.wellFormed tracked.here here scope htok
  by_cases same : g' = g
  · subst same
    rw [c.recoveryEvents_capture declared stored rfl result]
    refine .forked (f := f) stored unasked ?_ ?_
    · rw [joins]
      exact forked.capture path
    · rw [joins]
      exact account.capture path scope along one
  · have other : g.scope ≠ .workflow := fun scope' =>
      same (c.wellFormed.eq_of_scope here declared (scope.trans scope'.symm))
    rw [c.recoveryEvents_other here declared (by simpa using same) (by simp), List.append_nil]
    refine .forked (f := f) stored unasked ?_ ?_
    · rw [joins]
      exact forked.capture path
    · rw [joins]
      exact account.capture_other path same other along one

end Path

/-- The move of a token on a path of a fork. -/
theorem along (c : Compiled d h.table) (declared : g ∈ d.handlers) (resumes : g.isTerminal = false)
    (tracked : Tracked d h id s toks) (here : tok.In d) (control : tok.isControl = true)
    {i : Instance} {f : Fork} (stored : Store.get? id s.running = some i)
    (unasked : i.pendingApproval = none)
    (forked : Forked d f i.failedStep (s.joinOf id f) (tok :: toks))
    (account : Account d g f i.failedStep (s.joinOf id f) (tok :: toks) events)
    (move : Move d h id s toks tok s' left) (after : Tracked d h id s' left)
    (result : h.deliver s (tok.message d id) = s') :
    Recovering d h g id (events ++ h.recoveryEvents d g ⟨s, tok.message d id⟩) s' left := by
  have only : ∀ {j : Instance}, Store.get? id s.running = some j → j = i := fun there =>
    Option.some.inj (there.symm.trans stored)
  have own := forked.along tok List.mem_cons_self control
  obtain ⟨p, inside, path⟩ := own.path
  cases move with
  | work x state update failure delivered calls =>
    rw [c.recoveryEvents_other here declared (by simp) (by simp), List.append_nil]
    exact path_next unasked forked account stored (.refl i) rfl ⟨own.path, own.handler⟩ rfl rfl
  | lost tok consumed gone delivered deadLetters =>
    rw [gone] at stored
    cases stored
  | begin x j there delivered calls =>
    cases only there
    rw [c.recoveryEvents_other here declared (by simp) (by simp), List.append_nil]
    exact path_next unasked forked account (Store.get?_insert_self ..) ⟨rfl, rfl, rfl⟩ rfl
      ⟨own.path, own.handler⟩ rfl rfl
  | refuse x j there m kind addressed delivered calls =>
    exact .stopped (.inr ⟨m, List.mem_append_right _ (List.mem_singleton_self m), addressed, kind⟩)
  | settle x update failure plain =>
    rw [Token.path?_of_spot? rfl, plain.path?_eq] at path
    cases path
  | cascade x update failure f' declared' main =>
    rw [Token.path?_of_spot? rfl, Spot.path?, main] at path
    cases path
  | onward x y update failure here' same after' off i' j there alike going delivered calls =>
    cases only there
    have path' : (Token.start y).path? d f i.failedStep
        = (Token.done x update failure).path? d f i.failedStep := by
      rw [Token.path?_of_spot? rfl, Token.path?_of_spot? rfl, Spot.path?, Spot.path?, same]
    have handler : (Token.start y).handler? = (Token.done x update failure).handler? := by
      simp [Token.handler?, Token.spot?, same]
    rw [c.recoveryEvents_onward here declared here' same after', List.append_nil]
    exact path_next unasked forked account (Store.get?_insert_self ..) alike rfl
      ⟨path' ▸ own.path, handler ▸ own.handler⟩ path' (by simp [Token.isRecovering, Token.spot?, same])
  | report x update failure f' p' line i' j there alike going short delivered calls =>
    cases only there
    obtain ⟨rfl, rfl⟩ := Token.lane_eq rfl line path
    have off : x.line ≠ .recovery g := by simp [line]
    rw [c.recoveryEvents_elsewhere here declared off, List.append_nil]
    refine path_report unasked forked account (Store.get?_insert_self ..) alike ?_ path inside
      (Token.isRecovering_of_line rfl off)
    rw [Session.joinOf, Store.get?_insert_self, Option.getD_some, forked.unreleased]
  | release x update failure f' p' line y here' main i' j there alike going all delivered calls =>
    cases only there
    obtain ⟨rfl, rfl⟩ := Token.lane_eq rfl line path
    have off : x.line ≠ .recovery g := by simp [line]
    rw [c.recoveryEvents_elsewhere here declared off, List.append_nil]
    exact path_release unasked forked account main (Store.get?_insert_self ..) alike path inside
      (Token.isRecovering_of_line rfl off) all
  | close x update failure g' line terminal i' j there finished delivered calls =>
    obtain ⟨scope, _⟩ := own.handler g' (Token.handler?_of_recovery rfl line)
    have other : g.scope ≠ .workflow := by
      intro same
      rw [c.wellFormed.eq_of_scope declared (Spot.recovery_mem here line) (same.trans scope.symm),
        terminal] at resumes
      cases resumes
    have off : x.line ≠ .recovery g := by
      rw [line]
      rintro same
      cases same
      exact other scope
    rw [c.recoveryEvents_elsewhere here declared off, List.append_nil]
    exact .gone (by simp [Store.get?_erase]) (forked.balanced account (.inl other))
  | resume x y update failure g' line last terminal here' i' j there failed takes alike going delivered
      calls =>
    cases only there
    exact path_resume c declared unasked forked account rfl here line last here' failed
      (Store.get?_insert_self ..) alike rfl path inside tracked after result
  | trigger x update failure g' takes slow context failed i' j there alike going joins cancelled fewer
      kept delivered calls =>
    cases only there
    have lane : x.line = .fork f p := Token.line_of_path? rfl path (by
      intro g'' line
      rw [Spot.handler?, line] at takes
      cases takes)
    have off : x.line ≠ .recovery g := by simp [lane]
    have path' : (Token.trigger g' context).path? d f i.failedStep = some p := by
      rw [← c.pathOf?_phase here lane, ← failed]
      rfl
    have lazy : f.failFast = false := by
      by_contra fast
      rw [lane, Line.cancellation, if_pos (by simpa using fast)] at slow
      cases slow
    rw [c.recoveryEvents_elsewhere here declared off, List.append_nil]
    refine path_next unasked forked account (Store.get?_insert_self ..) alike ?_
      ⟨⟨p, inside, path'⟩, ?_⟩ (path'.trans path.symm) (Token.isRecovering_of_line rfl off).symm
    · simp only [Session.joinOf, kept (by rw [lane]; exact fun plain => plain)]
    · intro g'' handler
      cases handler
      exact ⟨Spot.scope_of_lane takes lane, lazy⟩
  | cancel x update failure f' p' line failFast g' takes context failed i' j there alike going
      delivered calls =>
    cases only there
    obtain ⟨rfl, rfl⟩ := Token.lane_eq rfl line path
    rw [c.recoveryEvents_elsewhere here declared (by simp [line]), List.append_nil]
    have ends := c.wellFormed.isTerminal_of_failFast forked.declared failFast takes line
    exact alone_of_balanced
      (forked.swept c tracked.here path (Forked.sound_of_failFast account failFast) failFast) rfl
      (Store.get?_insert_self ..) (alike.pendingApproval.trans unasked) (.inl ends)
      (forked.balanced account (.inr failFast)) (Token.owed_of_spot? rfl)
  | abort x update failure f' p' line failFast i' j there finished delivered calls =>
    obtain ⟨rfl, rfl⟩ := Token.lane_eq rfl line path
    rw [c.recoveryEvents_elsewhere here declared (by simp [line]), List.append_nil]
    exact .gone (by simp [Host.sweep, Store.get?_erase]) (forked.balanced account (.inr failFast))
  | fault x update failure off j there record addressed kind delivered calls =>
    exact .stopped (.inl ⟨record, List.mem_append_right _ (List.mem_singleton_self record), addressed⟩)
  | capture g' context first rest steps j there delivered calls =>
    cases only there
    exact path_capture c declared unasked forked account rfl here (Store.get?_insert_self ..) rfl
      tracked result
  | acknowledge a g' correlation j there delivered calls => cases path
  | ignore tok signal =>
    rw [Token.isControl_of_signal signal] at control
    cases control
  | answer tok signal =>
    rw [Token.isControl_of_signal signal] at control
    cases control

/-! ## Runs -/

/-- The move of a signal. -/
theorem listen (c : Compiled d h.table) (declared : g ∈ d.handlers) (here : tok.In d)
    (off : tok.isControl = false) (holds : Recovering d h g id events s toks)
    (move : Move d h id s toks tok s' left) :
    Recovering d h g id (events ++ h.recoveryEvents d g ⟨s, tok.message d id⟩) s' left := by
  have quiet : h.recoveryEvents d g ⟨s, tok.message d id⟩ = [] := by
    refine c.recoveryEvents_other here declared ?_ ?_
    · rintro context rfl
      cases off
    · rintro x update failure rfl
      cases off
  rw [quiet, List.append_nil]
  by_cases stops : h.Stopped id s
  · exact .stopped (move.stopped stops)
  rcases move.of_signal off with ⟨none, rfl, delivered, deadLetters, rfl⟩
    | ⟨i, j, delivered, calls, stored, alike, phase, rfl, rfl⟩
    | ⟨i, i', delivered, calls, stored, asked, cleared, settles⟩
  · cases holds with
    | stopped stopped => exact absurd stopped stops
    | gone _ balanced => exact .gone none balanced
    | level tok' control there | waiting control there | forked there =>
      rw [none] at there
      cases there
  · cases holds with
    | stopped stopped => exact absurd stopped stops
    | gone none balanced =>
      rw [none] at stored
      cases stored
    | level tok' control there unasked level apart owes =>
      cases there.symm.trans stored
      exact .level tok' control (Store.get?_insert_self ..) (alike.pendingApproval.trans unasked)
        (alike.failedStep ▸ level) apart (alike.failedStep ▸ owes)
    | waiting control there balanced => exact .waiting control (Store.get?_insert_self ..) balanced
    | forked there unasked forked account =>
      cases there.symm.trans stored
      exact .forked (Store.get?_insert_self ..) (alike.pendingApproval.trans unasked)
        (alike.failedStep ▸ forked) (alike.failedStep ▸ account)
  · cases holds with
    | stopped stopped => exact absurd stopped stops
    | gone none balanced =>
      rw [none] at stored
      cases stored
    | waiting control there balanced =>
      exact settle (s := { s with delivered, calls }) control balanced cleared settles
    | level _ _ there unasked | forked there unasked =>
      cases there.symm.trans stored
      exact absurd unasked asked

/-- Only tokens that carry control count. -/
theorem of_control (holds : Recovering d h g id events s toks) {toks' : List Token}
    (control : toks'.filter Token.isControl = toks.filter Token.isControl) :
    Recovering d h g id events s toks' := by
  cases holds with
  | stopped stopped => exact .stopped stopped
  | gone none balanced => exact .gone none balanced
  | level tok' one stored unasked level apart owes =>
    exact .level tok' (control.trans one) stored unasked level apart owes
  | waiting nothing stored balanced => exact .waiting (control.trans nothing) stored balanced
  | forked stored unasked forked account =>
    exact .forked stored unasked (forked.of_control control) (account.of_control control)

/-- A move, wherever control is. -/
theorem move (c : Compiled d h.table) (declared : g ∈ d.handlers) (resumes : g.isTerminal = false)
    (tracked : Tracked d h id s toks) (here : tok.In d)
    (holds : Recovering d h g id events s (tok :: toks)) (move : Move d h id s toks tok s' left)
    (after : Tracked d h id s' left) (result : h.deliver s (tok.message d id) = s') :
    Recovering d h g id (events ++ h.recoveryEvents d g ⟨s, tok.message d id⟩) s' left := by
  by_cases control : tok.isControl = true
  · cases holds with
    | stopped stopped => exact .stopped (move.stopped stopped)
    | gone none balanced =>
      obtain ⟨none', lost | ⟨x, state, rfl⟩⟩ := move.of_gone none
      · rw [lost] at after
        rw [Compiled.recoveryEvents_lost tracked after none' result, List.append_nil]
        exact .gone none' balanced
      · rw [c.recoveryEvents_other here declared (by simp) (by simp), List.append_nil]
        exact .gone none' balanced
    | level tok' one stored unasked level apart owes =>
      rw [List.filter_cons_of_pos control] at one
      obtain ⟨rfl, nothing⟩ := List.cons.inj one
      exact carry c declared resumes tracked here control nothing stored unasked level apart owes move
        after result
    | waiting nothing =>
      rw [List.filter_cons_of_pos control] at nothing
      cases nothing
    | forked stored unasked forked account =>
      exact along c declared resumes tracked here control stored unasked forked account move after
        result
  · have off : tok.isControl = false := by simpa using control
    exact listen c declared here off
      (holds.of_control (List.filter_cons_of_neg (by simp [off])).symm) move

/-- Every run keeps captures and restarts in this state. -/
theorem kept (c : Compiled d h.table) (declared : g ∈ d.handlers) (resumes : g.isTerminal = false)
    (id : Key) :
    Kept d h id fun past s toks =>
      Recovering d h g id (past.flatMap (h.recoveryEvents d g)) s toks where
  start {s state x} here main running finished joins cancelled events faults approvals := by
    have plain : x.line.IsPlain := by
      rw [main]
      trivial
    refine .level (.start x) rfl running rfl (Spot.level_of_isPlain plain) apart_nil ?_
    rw [Token.owed_of_line rfl (plain.ne_recovery g)]
    exact List.Perm.refl _
  move tracked here holds move after result := by
    rw [List.flatMap_append, List.flatMap_singleton]
    exact Recovering.move c declared resumes tracked here holds move after result
  signal signal holds := holds.of_control (Token.control_append signal)
  queue queue holds := by
    cases holds with
    | stopped stopped => exact .stopped stopped
    | gone none balanced => exact .gone none balanced
    | level tok one stored unasked level apart owes =>
      exact .level tok one stored unasked level apart owes
    | waiting nothing stored balanced => exact .waiting nothing stored balanced
    | forked stored unasked forked account => exact .forked stored unasked forked account
  beside grown others holds := by
    cases holds with
    | stopped stopped => exact .stopped stopped
    | gone none balanced => exact .gone none balanced
    | level tok one stored unasked level apart owes =>
      exact .level tok one stored unasked level apart owes
    | waiting nothing stored balanced => exact .waiting nothing stored balanced
    | forked stored unasked forked account => exact .forked stored unasked forked account

end Recovering

/-- In a run that has come to rest without faults and refusals, a handler has started again exactly the
steps whose failures it captured if and only if it never captured one while a recovery of its own was
under way. -/
theorem captures_perm_restarts_iff {d : Definition} {settings : Settings} {h : Host}
    (compiles : d.compile settings = .ok h.table) {started : List Key} {past : List Delivery}
    {s : Session} (run : h.Reaches started past s) (rest : s.queue = []) {id : Key}
    (faultless : ∀ f ∈ s.faults, f.instanceId ≠ id)
    (admitted : ∀ m ∈ s.events, m.instanceId = id → h.table.kindOf? m.name ≠ some .validationFailed)
    {g : Handler} (declared : g ∈ d.handlers) (resumes : g.isTerminal = false) :
    (captures (h.recovery d g id past)).Perm (restarts (h.recovery d g id past))
      ↔ Apart (h.recovery d g id past) := by
  have c := Definition.compiled_of_compile compiles
  rw [Host.recovery_eq (run.atHome c) id]
  cases run.follows c (Recovering.kept c declared resumes) id with
  | absent _ _ _ own =>
    rw [own]
    exact iff_of_true (List.Perm.refl _) apart_nil
  | started toks _ tracked holds =>
    have none : toks = [] := by
      have queue := tracked.queue
      rw [Session.only, rest] at queue
      simpa using queue.symm
    subst none
    cases holds with
    | stopped stopped =>
      rcases stopped with ⟨f, recorded, own⟩ | ⟨m, published, own, kind⟩
      · exact absurd own (faultless f (Session.mem_faults_only.mp recorded).1)
      · exact absurd kind (admitted m (Session.mem_events_only.mp published).1 own)
    | gone _ balanced => exact iff_of_true balanced.2 balanced.1
    | level tok one => cases one
    | waiting _ _ balanced => exact iff_of_true balanced.2 balanced.1
    | forked _ _ _ account => exact account.perm_iff

/-! ## A release -/

/-- What a release does for its handler when the work of some steps fails once, if it comes to rest
without faults and refusals. -/
def Definition.releaseEvents? (steps : List String) : Option (List RecoveryEvent) :=
  match Definition.release.compile .default with
  | .ok t =>
    let h := Host.faltering t steps
    let reached := h.deliverUpTo 40 [] (h.start .initial (.number 1) .null).2
    if reached.2.queue = [] ∧ reached.2.faults = [] ∧ reached.2.events = [] then
      some (h.recovery .release .retry (.number 1) reached.1)
    else none
  | .error _ => none

theorem Definition.exists_run_of_releaseEvents? {steps : List String} {events : List RecoveryEvent}
    (computed : Definition.releaseEvents? steps = some events) :
    ∃ (h : Host) (past : List Delivery) (s : Session),
      Definition.release.compile .default = .ok h.table ∧ h.Reaches [.number 1] past s
        ∧ s.queue = [] ∧ s.faults = [] ∧ s.events = []
        ∧ h.recovery .release .retry (.number 1) past = events := by
  unfold releaseEvents? at computed
  cases compiles : Definition.release.compile .default with
  | error e =>
    rw [compiles] at computed
    cases computed
  | ok t =>
    simp only [compiles, Option.ite_none_right_eq_some, Option.some.injEq] at computed
    obtain ⟨⟨queue, faults, events⟩, same⟩ := computed
    exact ⟨.faltering t steps, _, _, rfl,
      (Definition.compiled_of_compile compiles).reaches_first (h := .faltering t steps) (.number 1)
        .null 40, queue, faults, events, same⟩

/-- When both paths fail, the failure of the first is forgotten and the second is started twice. -/
theorem not_captures_perm_restarts_release : ∃ (h : Host) (past : List Delivery) (s : Session),
    Definition.release.compile .default = .ok h.table ∧ h.Reaches [.number 1] past s
      ∧ s.queue = [] ∧ s.faults = [] ∧ s.events = []
      ∧ Handler.retry ∈ Definition.release.handlers ∧ Handler.retry.isTerminal = false
      ∧ captures (h.recovery .release .retry (.number 1) past) = ["Sign", "Scan"]
      ∧ restarts (h.recovery .release .retry (.number 1) past) = ["Scan", "Scan"]
      ∧ ¬ (captures (h.recovery .release .retry (.number 1) past)).Perm
        (restarts (h.recovery .release .retry (.number 1) past)) := by
  have computed : Definition.releaseEvents? ["Sign", "Scan"]
      = some [.captured "Sign", .captured "Scan", .restarted "Scan", .restarted "Scan"] := by
    decide +kernel
  obtain ⟨h, past, s, compiles, run, queue, faults, events, same⟩ :=
    Definition.exists_run_of_releaseEvents? computed
  refine ⟨h, past, s, compiles, run, queue, faults, events, List.mem_singleton_self _, rfl, ?_⟩
  rw [same]
  decide

/-- When one path fails, it is started again. -/
theorem captures_perm_restarts_release : ∃ (h : Host) (past : List Delivery) (s : Session),
    Definition.release.compile .default = .ok h.table ∧ h.Reaches [.number 1] past s
      ∧ captures (h.recovery .release .retry (.number 1) past) = ["Sign"]
      ∧ (captures (h.recovery .release .retry (.number 1) past)).Perm
        (restarts (h.recovery .release .retry (.number 1) past))
      ∧ Apart (h.recovery .release .retry (.number 1) past) := by
  have computed : Definition.releaseEvents? ["Sign"]
      = some [.captured "Sign", .restarted "Sign"] := by
    decide +kernel
  obtain ⟨h, past, s, compiles, run, queue, faults, events, same⟩ :=
    Definition.exists_run_of_releaseEvents? computed
  have perm : (captures (h.recovery .release .retry (.number 1) past)).Perm
      (restarts (h.recovery .release .retry (.number 1) past)) := by
    rw [same]
    exact List.Perm.refl _
  exact ⟨h, past, s, compiles, run, by rw [same]; rfl, perm,
    (captures_perm_restarts_iff compiles run queue (by simp [faults]) (by simp [events])
      (List.mem_singleton_self _) rfl).mp perm⟩

end Workflow
