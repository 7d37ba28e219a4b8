import Workflow.Proofs.Host.Run

/-!
Forks under way.

While a fork is under way, every token that carries control is on one of its paths: at a step of the
path, in the trigger that its failure sent, or in the recovery of the failure that the instance holds.
`Token.path?` says which one, and `Fork.weight` counts the tokens of a path. As long as recoveries do
not get in each other's way a path has one token at most, and none once it has reported to the join.
-/

set_option autoImplicit false

namespace Workflow

/-! ## Paths of phases -/

/-- The path of a fork that a phase is on. -/
def Fork.pathOf? (d : Definition) (f : Fork) (phase : String) : Option Nat :=
  (List.range f.paths.length).find? fun p =>
    (f.paths.getD p []).any fun x => (Line.fork f p).phase d x = phase

theorem Fork.lt_of_pathOf? {d : Definition} {f : Fork} {phase : String} {p : Nat}
    (found : f.pathOf? d phase = some p) : p < f.paths.length :=
  List.mem_range.mp (List.mem_of_find?_eq_some found)

/-- A step of a fork is on one of its paths. -/
theorem Spot.path_lt {d : Definition} {x : Spot} (here : x.In d) {f : Fork} {p : Nat}
    (line : x.line = .fork f p) : p < f.paths.length := by
  have inside := here.2
  rw [line, Line.steps] at inside
  by_contra outside
  have beyond : f.paths[p]? = none := List.getElem?_eq_none (by omega)
  rw [List.getD_eq_getElem?_getD, beyond] at inside
  cases inside

namespace Compiled

variable {d : Definition} {t : Table} (c : Compiled d t) {f : Fork} {p : Nat}

include c

/-- Positions with one phase are on one path of one fork, or on none. -/
theorem line_eq_of_phase {x y : Spot} (hx : x.In d) (hy : y.In d) (phase : y.phase d = x.phase d)
    (line : x.line = .fork f p) : y.line = .fork f p := by
  have declared := Spot.fork_mem hx line
  have same : x.site d = y.site d := c.site_eq_of_phase (hx.site_mem c.wellFormed)
    (hy.site_mem c.wellFormed) (by rw [Spot.site_phase, Spot.site_phase, phase])
  rw [Spot.site, line] at same
  exact c.lane?_eq_of_site hy declared same

/-- A position whose phase is on a path is on the path. -/
theorem line_of_pathOf? (declared : f ∈ d.forks) {y : Spot} (hy : y.In d)
    (found : f.pathOf? d (y.phase d) = some p) : y.line = .fork f p := by
  have fits := List.find?_some found
  obtain ⟨z, hz, phase⟩ := List.any_eq_true.mp fits
  obtain ⟨k, hk⟩ := List.mem_iff_getElem?.mp hz
  have there : (Spot.mk (.fork f p) k z).In d := ⟨declared, hk⟩
  exact c.line_eq_of_phase there hy (of_decide_eq_true phase).symm rfl

/-- The path of a phase is that of the step with the phase. -/
theorem pathOf?_phase {x : Spot} (here : x.In d) (line : x.line = .fork f p) :
    f.pathOf? d (x.phase d) = some p := by
  have declared := Spot.fork_mem here line
  cases found : f.pathOf? d (x.phase d) with
  | some q =>
    have other := c.line_of_pathOf? declared here found
    rw [line] at other
    cases other
    rfl
  | none =>
    have missed := List.find?_eq_none.mp found p (List.mem_range.mpr (Spot.path_lt here line))
    have inside := here.2
    rw [line, Line.steps] at inside
    refine absurd (List.any_eq_true.mpr ⟨x.step, List.mem_of_getElem? inside, ?_⟩) missed
    simp [Spot.phase, line]

end Compiled

/-! ## Tokens on paths -/

/-- The path a position is on, while the instance holds a failure of the step `slot`. -/
def Spot.path? (d : Definition) (f : Fork) (slot : String) (x : Spot) : Option Nat :=
  match x.line with
  | .fork f' p => if f' = f then some p else none
  | .recovery _ => f.pathOf? d slot
  | _ => none

/-- Off forks and recoveries, no path is taken. -/
theorem Line.IsPlain.path?_eq {d : Definition} {f : Fork} {slot : String} {x : Spot}
    (plain : x.line.IsPlain) : x.path? d f slot = none := by
  unfold Spot.path?
  cases line : x.line <;> rw [line] at plain <;> first | rfl | exact plain.elim

/-- The path a token is on, while the instance holds a failure of the step `slot`. -/
def Token.path? (d : Definition) (f : Fork) (slot : String) : Token → Option Nat
  | .start x => x.path? d f slot
  | .work x _ => x.path? d f slot
  | .done x _ _ => x.path? d f slot
  | .trigger _ context => f.pathOf? d context.failedStep
  | _ => none

/-- The handler whose trigger or recovery a token is. -/
def Token.handler? : Token → Option Handler
  | .trigger g _ => some g
  | tok => tok.spot?.bind fun x => match x.line with
    | .recovery g => some g
    | _ => none

/-- Whether a token is in the recovery of a handler. -/
def Token.isRecovering (g : Handler) (tok : Token) : Bool :=
  tok.spot?.any fun x => x.line = .recovery g

/-- A token that may carry control while a fork is under way. -/
structure Token.Along (d : Definition) (f : Fork) (slot : String) (tok : Token) : Prop where
  path : ∃ p, p < f.paths.length ∧ tok.path? d f slot = some p
  handler : ∀ g, tok.handler? = some g → g.scope = .workflow ∧ f.failFast = false

/-- How many tokens are on a path. -/
def Fork.weight (d : Definition) (f : Fork) (slot : String) (toks : List Token) (p : Nat) : Nat :=
  toks.countP fun tok => tok.path? d f slot = some p

/-- A fork under way: where its tokens are, and which of its paths have reported. -/
structure Forked (d : Definition) (f : Fork) (slot : String) (state : JoinState) (toks : List Token) :
    Prop where
  declared : f ∈ d.forks
  along : ∀ tok ∈ toks, tok.isControl = true → tok.Along d f slot
  unreleased : state.released = false
  distinct : state.reported.Nodup
  bounded : ∀ p ∈ state.reported, p < f.paths.length

namespace Token

variable {d : Definition} {f : Fork} {slot : String} {tok : Token} {g : Handler} {x : Spot}

/-- A token is on the path of the position it is at. -/
theorem path?_of_spot? (atX : tok.spot? = some x) : tok.path? d f slot = x.path? d f slot := by
  cases tok <;> cases atX <;> rfl

/-- In a recovery, the handler of a token is that of the recovery. -/
theorem handler?_of_recovery (atX : tok.spot? = some x) (line : x.line = .recovery g) :
    tok.handler? = some g := by
  cases tok <;> cases atX <;> simp [handler?, spot?, line]

theorem line_of_handler? (atX : tok.spot? = some x) (handler : tok.handler? = some g) :
    x.line = .recovery g := by
  cases line : x.line with
  | recovery g' =>
    rw [handler?_of_recovery atX line] at handler
    cases handler
    rfl
  | _ => cases tok <;> cases atX <;> simp [handler?, spot?, line] at handler

/-- A token recovers for a handler where it is in a recovery of the handler. -/
theorem isRecovering_iff :
    tok.isRecovering g = true ↔ ∃ x, tok.spot? = some x ∧ x.line = .recovery g := by
  simp [isRecovering, Option.any_eq_true]

theorem isControl_of_spot? (atX : tok.spot? = some x) : tok.isControl = true := by
  cases tok <;> cases atX <;> rfl

/-- A recovery is on the path of the failure that the instance holds. -/
theorem path?_of_isRecovering (recovering : tok.isRecovering g = true) (slot : String) :
    tok.path? d f slot = f.pathOf? d slot := by
  obtain ⟨x, atX, line⟩ := isRecovering_iff.mp recovering
  rw [path?_of_spot? atX, Spot.path?, line]

/-- All else is where it is, whatever the instance holds. -/
theorem path?_of_not_recovering (off : ∀ g, tok.isRecovering g = false) (slot slot' : String) :
    tok.path? d f slot' = tok.path? d f slot := by
  cases atX : tok.spot? with
  | none => cases tok <;> first | rfl | cases atX
  | some x =>
    rw [path?_of_spot? atX, path?_of_spot? atX, Spot.path?, Spot.path?]
    cases line : x.line with
    | recovery g =>
      have := isRecovering_iff.mpr ⟨x, atX, line⟩
      rw [off g] at this
      cases this
    | _ => rfl

/-- On a path of a fork there is no handler to recover for. -/
theorem handler?_of_lane (atX : tok.spot? = some x) {p : Nat} (line : x.line = .fork f p) :
    tok.handler? = none := by
  cases tok <;> cases atX <;> simp [handler?, spot?, line]

/-- A token on a path of a fork is on no path of another fork. -/
theorem lane_eq (atX : tok.spot? = some x) {f' : Fork} {p p' : Nat} (line : x.line = .fork f' p')
    (path : tok.path? d f slot = some p) : f' = f ∧ p' = p := by
  rw [path?_of_spot? atX, Spot.path?, line] at path
  simpa using path

/-- Outside of recoveries, a token on a path is at a step of the path. -/
theorem line_of_path? (atX : tok.spot? = some x) {p : Nat} (path : tok.path? d f slot = some p)
    (off : ∀ g, x.line ≠ .recovery g) : x.line = .fork f p := by
  rw [path?_of_spot? atX, Spot.path?] at path
  cases line : x.line with
  | fork f' p' =>
    rw [line] at path
    obtain ⟨rfl, rfl⟩ : f' = f ∧ p' = p := by simpa using path
    rfl
  | recovery g => exact absurd line (off g)
  | _ =>
    rw [line] at path
    cases path

/-- What is on a path carries control. -/
theorem isControl_of_path? {p : Nat} (onPath : tok.path? d f slot = some p) :
    tok.isControl = true := by
  cases tok <;> first | rfl | cases onPath

/-- A token of the definition is at a position of the definition. -/
theorem spot_in (here : tok.In d) (atX : tok.spot? = some x) : x.In d := by
  cases tok <;> cases atX <;> exact here

/-- A token at a step of a path is on the path, whatever failure the instance holds. -/
theorem path?_of_lane (atX : tok.spot? = some x) {p : Nat} (line : x.line = .fork f p) :
    tok.path? d f slot = some p := by
  rw [path?_of_spot? atX, Spot.path?, line]
  exact if_pos rfl

theorem Along.of_lane (atX : tok.spot? = some x) {p : Nat} (line : x.line = .fork f p)
    (inside : p < f.paths.length) : tok.Along d f slot where
  path := ⟨p, inside, path?_of_lane atX line⟩
  handler g handler := by
    rw [handler?_of_lane atX line] at handler
    cases handler

/-- Outside of recoveries nothing recovers. -/
theorem isRecovering_of_line (atX : tok.spot? = some x) (off : x.line ≠ .recovery g) :
    tok.isRecovering g = false := by
  simp [isRecovering, atX, off]

end Token

/-! ## Weights -/

namespace Fork

variable {d : Definition} {f : Fork} {slot slot' : String} {toks : List Token} {tok tok' : Token}
  {p : Nat}

/-- One token more counts on its own path. -/
theorem weight_cons (d : Definition) (f : Fork) (slot : String) (tok : Token) (toks : List Token)
    (p : Nat) : f.weight d slot (tok :: toks) p
      = f.weight d slot toks p + if tok.path? d f slot = some p then 1 else 0 := by
  simp [weight, List.countP_cons]

/-- It does not matter where a token stands in the queue. -/
theorem weight_append (d : Definition) (f : Fork) (slot : String) (toks : List Token) (tok : Token)
    (p : Nat) : f.weight d slot (toks ++ [tok]) p = f.weight d slot (tok :: toks) p := by
  simp [weight, List.countP_append, List.countP_cons]

/-- A token takes the place of another one on its path. -/
theorem weight_replace (same : tok'.path? d f slot = tok.path? d f slot) :
    f.weight d slot (toks ++ [tok']) p = f.weight d slot (tok :: toks) p := by
  rw [weight_append, weight_cons, weight_cons, same]

/-- Only tokens that carry control have weight. -/
theorem weight_filter (toks : List Token) :
    f.weight d slot (toks.filter Token.isControl) p = f.weight d slot toks p := by
  rw [weight, weight, List.countP_filter]
  apply List.countP_congr
  intro tok _
  rw [Bool.and_eq_true_iff, and_iff_left_of_imp]
  exact fun onPath => Token.isControl_of_path? (of_decide_eq_true onPath)

/-- Only tokens that carry control count. -/
theorem weight_of_control {toks' : List Token}
    (control : toks'.filter Token.isControl = toks.filter Token.isControl) (p : Nat) :
    f.weight d slot toks' p = f.weight d slot toks p := by
  rw [← weight_filter, control, weight_filter]

/-- Where nothing recovers, the failure that the instance holds does not matter. -/
theorem weight_of_not_recovering (off : ∀ tok ∈ toks, ∀ g, tok.isRecovering g = false) :
    f.weight d slot' toks p = f.weight d slot toks p := by
  apply List.countP_congr
  intro tok htok
  rw [Token.path?_of_not_recovering (off tok htok) slot slot']

/-- No path has more than one token, and none once it has reported. -/
structure Sound (d : Definition) (f : Fork) (slot : String) (reported : List Nat)
    (toks : List Token) : Prop where
  one : ∀ p, f.weight d slot toks p ≤ 1
  settled : ∀ p ∈ reported, f.weight d slot toks p = 0

/-- A path that has not reported and never will. -/
structure Lost (d : Definition) (f : Fork) (slot : String) (reported : List Nat) (toks : List Token)
    (q : Nat) : Prop where
  slow : f.failFast = false
  inside : q < f.paths.length
  unreported : q ∉ reported
  empty : f.weight d slot toks q = 0

variable {state : JoinState} {q : Nat}

/-- What holds of a fork by the weights of its paths holds where the weights are the same. -/
theorem Sound.congr (sound : Sound d f slot state.reported toks) {toks' : List Token}
    (same : ∀ p, f.weight d slot' toks' p = f.weight d slot toks p) :
    Sound d f slot' state.reported toks' where
  one p := same p ▸ sound.one p
  settled p hp := (same p).trans (sound.settled p hp)

theorem Lost.congr (lost : Lost d f slot state.reported toks q) {toks' : List Token}
    (same : ∀ p, f.weight d slot' toks' p = f.weight d slot toks p) :
    Lost d f slot' state.reported toks' q :=
  { lost with empty := (same q).trans lost.empty }

/-- A path that is lost has no token. -/
theorem Lost.ne (lost : Lost d f slot state.reported (tok :: toks) q)
    (path : tok.path? d f slot = some p) : p ≠ q := by
  rintro rfl
  have empty := lost.empty
  rw [weight_cons, if_pos path] at empty
  omega

/-! ## Reports -/

/-- One report more is in, and none is lost. -/
theorem mem_add {r : Nat} : r ∈ state.add p ↔ r = p ∨ r ∈ state.reported := by
  unfold JoinState.add
  split
  next known =>
    constructor
    · exact .inr
    · rintro (rfl | old)
      · exact known
      · exact old
  next => exact List.mem_cons

/-- A path that has reported before is not listed twice. -/
theorem nodup_add (distinct : state.reported.Nodup) : (state.add p).Nodup := by
  unfold JoinState.add
  split
  next => exact distinct
  next fresh => exact List.nodup_cons.mpr ⟨fresh, distinct⟩

/-- When as many paths have reported as there are, all have. -/
theorem mem_add_of_full (distinct : state.reported.Nodup)
    (bounded : ∀ r ∈ state.reported, r < f.paths.length) (inside : p < f.paths.length)
    (full : f.paths.length ≤ (state.add p).length) (hq : q < f.paths.length) : q ∈ state.add p := by
  have within : state.add p ⊆ List.range f.paths.length := by
    intro r hr
    rw [List.mem_range]
    rcases mem_add.mp hr with rfl | old
    · exact inside
    · exact bounded r old
  have all := ((nodup_add distinct).subperm within).perm_of_length_le (by simpa using full)
  exact all.mem_iff.mpr (List.mem_range.mpr hq)

/-- Tokens may vanish. -/
theorem Sound.tail (sound : Sound d f slot state.reported (tok :: toks)) :
    Sound d f slot state.reported toks where
  one r := by
    have one := sound.one r
    rw [weight_cons] at one
    omega
  settled r known := by
    have none := sound.settled r known
    rw [weight_cons] at none
    omega

theorem Lost.tail (lost : Lost d f slot state.reported (tok :: toks) q) :
    Lost d f slot state.reported toks q := by
  have empty := lost.empty
  rw [weight_cons] at empty
  exact { lost with empty := by omega }

/-- A token may vanish with a report of its path: the path has none left. -/
theorem Sound.report (sound : Sound d f slot state.reported (tok :: toks))
    (path : tok.path? d f slot = some p) : Sound d f slot (state.add p) toks where
  one r := by
    have one := sound.one r
    rw [weight_cons] at one
    omega
  settled r hr := by
    rcases mem_add.mp hr with rfl | old
    · have one := sound.one r
      rw [weight_cons, if_pos path] at one
      omega
    · have none := sound.settled r old
      rw [weight_cons] at none
      omega

/-- A report is of a path that had a token, so not of the one that is lost. -/
theorem Lost.report (lost : Lost d f slot state.reported (tok :: toks) q)
    (path : tok.path? d f slot = some p) : Lost d f slot (state.add p) toks q where
  slow := lost.slow
  inside := lost.inside
  unreported known := by
    rcases mem_add.mp known with same | old
    · exact lost.ne path same.symm
    · exact lost.unreported old
  empty := by
    have empty := lost.empty
    rw [weight_cons] at empty
    omega

/-! ## Captures -/

section Capture

variable {g : Handler} {context : FailureContext} {y : Step}

/-- The recovery that a trigger starts. -/
private theorem path?_started (slot : String) :
    (Token.start ⟨.recovery g, 0, y⟩).path? d f slot = f.pathOf? d slot :=
  Token.path?_of_isRecovering (g := g) (by simp [Token.isRecovering, Token.spot?]) slot

/-- A captured failure is of a path that had a token, so the one that is lost stays lost. -/
theorem Lost.capture (lost : Lost d f slot state.reported (.trigger g context :: toks) q)
    (path : f.pathOf? d context.failedStep = some p) :
    Lost d f context.failedStep state.reported (toks ++ [.start ⟨.recovery g, 0, y⟩]) q := by
  have other : p ≠ q := lost.ne path
  have empty := lost.empty
  rw [weight_cons, weight, Nat.add_eq_zero_iff, List.countP_eq_zero] at empty
  refine { lost with empty := ?_ }
  rw [weight_append, weight_cons, path?_started, path, if_neg (by simpa using other), Nat.add_zero,
    weight, List.countP_eq_zero]
  intro tok htok
  -- what is recovering has changed its path, to the one of the new failure
  by_cases off : ∀ g, tok.isRecovering g = false
  · rw [Token.path?_of_not_recovering off slot]
    exact empty.1 tok htok
  · push Not at off
    obtain ⟨g', recovering⟩ := off
    rw [Token.path?_of_isRecovering (by simpa using recovering), path]
    simpa using other

/-- A capture keeps the paths sound, unless a recovery is under way. Then the path of that recovery is
lost, since the failure it was for is forgotten. -/
theorem Sound.capture (sound : Sound d f slot state.reported (.trigger g context :: toks))
    (path : f.pathOf? d context.failedStep = some p)
    (along : ∀ tok ∈ toks, tok.isControl = true → tok.Along d f slot)
    (only : ∀ tok ∈ toks, ∀ g', tok.isRecovering g' = true → g' = g) :
    (Sound d f context.failedStep state.reported (toks ++ [.start ⟨.recovery g, 0, y⟩])
        ∧ toks.countP (Token.isRecovering g) = 0)
      ∨ ∃ q, Lost d f context.failedStep state.reported (toks ++ [.start ⟨.recovery g, 0, y⟩]) q
        ∧ f.pathOf? d slot = some q ∧ p ≠ q ∧ toks.countP (Token.isRecovering g) = 1 := by
  have trigger : (Token.trigger g context).path? d f slot = some p := path
  rcases Nat.eq_zero_or_pos (toks.countP (Token.isRecovering g)) with idle | busy
  · refine .inl ⟨sound.congr fun r => ?_, idle⟩
    rw [weight_append, weight_cons, weight_cons, path?_started, path, trigger]
    congr 1
    apply weight_of_not_recovering
    intro tok htok g'
    by_contra recovering
    have recovering : tok.isRecovering g' = true := by simpa using recovering
    have off := List.countP_eq_zero.mp idle tok htok
    rw [only tok htok g' recovering] at recovering
    exact off recovering
  · obtain ⟨tok, htok, recovering⟩ := List.countP_pos_iff.mp busy
    obtain ⟨x, atX, line⟩ := Token.isRecovering_iff.mp recovering
    have here := along tok htok (Token.isControl_of_spot? atX)
    obtain ⟨q, inside, onQ⟩ := here.path
    have slotQ : f.pathOf? d slot = some q := by
      rw [← onQ, Token.path?_of_isRecovering recovering]
    -- the recoveries are all on the path of the slot, and there is room for one
    have split := List.countP_eq_countP_filter_add toks
      (fun tok => decide (tok.path? d f slot = some q)) (Token.isRecovering g)
    have recoveries : (toks.filter (Token.isRecovering g)).countP
        (fun tok => decide (tok.path? d f slot = some q)) = toks.countP (Token.isRecovering g) := by
      rw [List.countP_eq_length_filter (p := Token.isRecovering g), List.countP_eq_length]
      intro tok htok
      rw [Token.path?_of_isRecovering (List.mem_filter.mp htok).2, slotQ]
      simp
    have one := sound.one q
    rw [weight_cons, weight, split, recoveries, trigger] at one
    have other : p ≠ q := by
      rintro rfl
      rw [if_pos rfl] at one
      omega
    rw [if_neg (by simpa using other)] at one
    have rest : (toks.filter fun tok => !tok.isRecovering g).countP
        (fun tok => decide (tok.path? d f slot = some q)) = 0 := by omega
    refine .inr ⟨q, ⟨(here.handler g (Token.handler?_of_recovery atX line)).2, inside, ?_, ?_⟩, slotQ,
      other, by omega⟩
    · intro known
      have none := sound.settled q known
      rw [weight_cons, weight, split, recoveries] at none
      omega
    · rw [weight_append, weight_cons, path?_started, path, if_neg (by simpa using other),
        Nat.add_zero, weight, List.countP_eq_zero]
      intro tok htok
      by_cases recovering : tok.isRecovering g = true
      · rw [Token.path?_of_isRecovering recovering, path]
        simpa using other
      · have off : ∀ g', tok.isRecovering g' = false := by
          intro g'
          by_contra recovering'
          have recovering' : tok.isRecovering g' = true := by simpa using recovering'
          exact recovering (only tok htok g' recovering' ▸ recovering')
        rw [Token.path?_of_not_recovering off slot]
        exact List.countP_eq_zero.mp rest tok (List.mem_filter.mpr ⟨htok, by simpa using recovering⟩)

end Capture

/-! ## Starts -/

/-- A fork starts steps of its paths. -/
theorem exists_spot_of_mem_starts (htok : tok ∈ f.starts) :
    ∃ p x, tok.spot? = some x ∧ x.line = .fork f p := by
  obtain ⟨p, _, head⟩ := List.mem_filterMap.mp htok
  obtain ⟨first, _, rfl⟩ := Option.map_eq_some_iff.mp head
  exact ⟨p, ⟨.fork f p, 0, first⟩, rfl, rfl⟩

/-- The starts of a fork are one for each path. -/
theorem sound_starts (d : Definition) (f : Fork) (slot : String) : Sound d f slot [] f.starts where
  one p := by
    have distinct := List.nodup_iff_count_le_one.mp (List.nodup_range (n := f.paths.length)) p
    refine Nat.le_trans ?_ distinct
    rw [weight, starts, List.countP_filterMap, List.count]
    apply List.countP_mono_left
    intro r _ starts
    cases first : (f.paths.getD r []).head? with
    | none =>
      rw [first] at starts
      cases starts
    | some y =>
      have onR : (Token.start ⟨.fork f r, 0, y⟩).path? d f slot = some r :=
        Token.path?_of_lane rfl rfl
      rw [first] at starts
      simpa [onR] using starts
  settled p hp := by cases hp

/-- They stay so beside tokens that carry no control. -/
theorem sound_append_starts (d : Definition) (f : Fork) (slot : String)
    (nothing : toks.filter Token.isControl = []) : Sound d f slot [] (toks ++ f.starts) := by
  have alone : Sound d f slot JoinState.empty.reported f.starts := sound_starts d f slot
  refine alone.congr (weight_of_control ?_)
  rw [List.filter_append, nothing, List.nil_append]

end Fork

/-! ## Forks under way -/

namespace Forked

variable {d : Definition} {f : Fork} {slot : String} {state : JoinState} {toks : List Token}
  {tok tok' : Token} {p : Nat}

/-- A fork is under way from its start, where nothing else carries control. -/
theorem starts (declared : f ∈ d.forks) (nothing : toks.filter Token.isControl = [])
    (slot : String) :
    Forked d f slot .empty (toks ++ f.starts) where
  declared := declared
  along tok htok control := by
    rcases List.mem_append.mp htok with old | new
    · exact absurd control (List.filter_eq_nil_iff.mp nothing tok old)
    · obtain ⟨here, _⟩ := Fork.starts_in declared new
      obtain ⟨p, x, atX, line⟩ := Fork.exists_spot_of_mem_starts new
      exact .of_lane atX line (Spot.path_lt (Token.spot_in here atX) line)
  unreleased := rfl
  distinct := List.nodup_nil
  bounded p hp := by cases hp

/-- A token may be replaced by one on a path. -/
theorem replace (forked : Forked d f slot state (tok :: toks)) (along : tok'.Along d f slot) :
    Forked d f slot state (toks ++ [tok']) :=
  { forked with
    along := by
      intro tok'' htok control
      rcases List.mem_append.mp htok with old | new
      · exact forked.along tok'' (List.mem_cons_of_mem _ old) control
      · rwa [List.mem_singleton.mp new] }

/-- A path may report, and its token vanishes. -/
theorem report (forked : Forked d f slot state (tok :: toks)) (inside : p < f.paths.length) :
    Forked d f slot ⟨state.add p, false⟩ toks where
  declared := forked.declared
  along tok htok := forked.along tok (List.mem_cons_of_mem _ htok)
  unreleased := rfl
  distinct := Fork.nodup_add forked.distinct
  bounded r hr := by
    rcases Fork.mem_add.mp hr with rfl | old
    · exact inside
    · exact forked.bounded r old

/-- A capture moves the recoveries to the path of the new failure. -/
theorem capture {g : Handler} {context : FailureContext} {y : Step}
    (forked : Forked d f slot state (.trigger g context :: toks))
    (path : f.pathOf? d context.failedStep = some p) :
    Forked d f context.failedStep state (toks ++ [.start ⟨.recovery g, 0, y⟩]) where
  declared := forked.declared
  along tok htok control := by
    have inside := Fork.lt_of_pathOf? path
    rcases List.mem_append.mp htok with old | new
    · have own := forked.along tok (List.mem_cons_of_mem _ old) control
      refine ⟨?_, own.handler⟩
      by_cases off : ∀ g, tok.isRecovering g = false
      · rw [Token.path?_of_not_recovering off slot]
        exact own.path
      · push Not at off
        obtain ⟨g', recovering⟩ := off
        exact ⟨p, inside, by rw [Token.path?_of_isRecovering (by simpa using recovering), path]⟩
    · have trigger := forked.along _ List.mem_cons_self rfl
      rw [List.mem_singleton.mp new]
      exact ⟨⟨p, inside, path⟩, trigger.handler⟩
  unreleased := forked.unreleased
  distinct := forked.distinct
  bounded := forked.bounded

theorem tail (forked : Forked d f slot state (tok :: toks)) : Forked d f slot state toks :=
  { forked with along := fun tok' htok => forked.along tok' (List.mem_cons_of_mem _ htok) }

/-- Only tokens that carry control count. -/
theorem of_control (forked : Forked d f slot state toks) {toks' : List Token}
    (control : toks'.filter Token.isControl = toks.filter Token.isControl) :
    Forked d f slot state toks' := by
  refine { forked with along := ?_ }
  intro tok htok carries
  have member : tok ∈ toks.filter Token.isControl := control ▸ List.mem_filter.mpr ⟨htok, carries⟩
  exact forked.along tok (List.mem_filter.mp member).1 carries

/-- The recoveries on a fork are all of one handler. -/
theorem eq_of_isRecovering (forked : Forked d f slot state toks) (hw : d.WellFormed)
    (here : ∀ tok ∈ toks, tok.In d) {g : Handler} (declared : g ∈ d.handlers)
    (scope : g.scope = .workflow) (htok : tok ∈ toks) {g' : Handler}
    (recovering : tok.isRecovering g' = true) : g' = g := by
  obtain ⟨x, atX, line⟩ := Token.isRecovering_iff.mp recovering
  obtain ⟨scope', _⟩ := (forked.along tok htok (Token.isControl_of_spot? atX)).handler g'
    (Token.handler?_of_recovery atX line)
  exact hw.eq_of_scope (Spot.recovery_mem (Token.spot_in (here tok htok) atX) line) declared
    (scope'.trans scope.symm)

/-- Once every path has reported, no token is left. -/
theorem nothing_of_every (forked : Forked d f slot state (tok :: toks))
    (sound : f.Sound d slot (state.add p) toks)
    (every : ∀ q, q < f.paths.length → q ∈ state.add p) : toks.filter Token.isControl = [] := by
  rw [List.filter_eq_nil_iff]
  intro tok' htok' control
  obtain ⟨q, hq, onQ⟩ := (forked.along tok' (List.mem_cons_of_mem _ htok') control).path
  have none := List.countP_eq_zero.mp (sound.settled q (every q hq)) tok' htok'
  exact none (by simpa using onQ)

/-- A cancellation drops all tokens beside the one that failed. -/
theorem swept {h : Host} (c : Compiled d h.table) {id : Key} {s : Session}
    (forked : Forked d f slot state (tok :: toks)) (here : ∀ tok ∈ toks, tok.In d)
    (path : tok.path? d f slot = some p) (sound : f.Sound d slot state.reported (tok :: toks))
    (failFast : f.failFast = true) :
    (toks.filter fun tok => !h.isCancelled { s with
      cancelled := Store.insert (id, Name.forkId f.previousStep) p s.cancelled }
        (tok.message d id)).filter Token.isControl = [] := by
  rw [List.filter_filter, List.filter_eq_nil_iff]
  intro tok' htok' kept
  obtain ⟨control, calm⟩ := Bool.and_eq_true_iff.mp kept
  have own := forked.along tok' (List.mem_cons_of_mem _ htok') control
  have off : ∀ g, tok'.handler? ≠ some g := by
    intro g handler
    rw [(own.handler g handler).2] at failFast
    cases failFast
  obtain ⟨q, _, onQ⟩ := own.path
  -- it is at a step of another path
  obtain ⟨x, atX⟩ : ∃ x, tok'.spot? = some x := by
    cases tok' <;> first | exact ⟨_, rfl⟩ | exact absurd rfl (off _) | cases onQ
  have line : x.line = .fork f q := Token.line_of_path? atX onQ fun g line =>
    off g (Token.handler?_of_recovery atX line)
  have apart : p ≠ q := by
    rintro rfl
    have one := sound.one p
    rw [Fork.weight_cons, if_pos path] at one
    have none : f.weight d slot toks p = 0 := by omega
    exact List.countP_eq_zero.mp none tok' htok' (by simpa using onQ)
  rw [c.isCancelled_message (here tok' htok'), atX, Option.bind_some, line, Line.lane?,
    Option.any_some, Store.get?_insert_self] at calm
  simp [apart] at calm

end Forked

/-! ## Control in one place -/

/-- Where the end of a recovery leads that is not on a fork. -/
def Handler.Returns (d : Definition) (slot : String) (g : Handler) : Prop :=
  g.isTerminal = true ∨ ∃ x : Spot, x.In d ∧ x.line.IsPlain ∧ x.phase d = slot

/-- A position that is on no fork, and does not lead there. -/
def Spot.Level (d : Definition) (slot : String) (x : Spot) : Prop :=
  match x.line with
  | .fork _ _ => False
  | .recovery g => g.Returns d slot
  | _ => True

/-- A token that may carry control alone. -/
def Token.Level (d : Definition) (slot : String) : Token → Prop
  | .start x => x.Level d slot
  | .work x _ => x.Level d slot
  | .done x _ _ => x.Level d slot
  | .trigger g context => g.Returns d context.failedStep
  | _ => True

theorem Spot.level_of_isPlain {d : Definition} {slot : String} {x : Spot} (plain : x.line.IsPlain) :
    x.Level d slot := by
  unfold Spot.Level
  cases line : x.line <;> rw [line] at plain <;> trivial

/-- Outside of forks, no position is on a path of one. -/
theorem Spot.Level.not_fork {d : Definition} {slot : String} {x : Spot} (level : x.Level d slot)
    {f : Fork} {p : Nat} : x.line ≠ .fork f p := by
  intro line
  rw [Spot.Level, line] at level
  exact level

theorem Spot.Level.returns {d : Definition} {slot : String} {x : Spot} (level : x.Level d slot)
    {g : Handler} (line : x.line = .recovery g) : g.Returns d slot := by
  rw [Spot.Level, line] at level
  exact level

theorem Line.IsPlain.ne_recovery {line : Line} (plain : line.IsPlain) (g : Handler) :
    line ≠ .recovery g := by
  rintro rfl
  exact plain

/-- A recovery that is on no fork starts no path of one. -/
theorem Compiled.isPlain_of_returns {d : Definition} {t : Table} (c : Compiled d t) {y : Spot}
    (here : y.In d) {g : Handler} (takes : y.handler? d = some g) {slot : String}
    (returns : g.Returns d slot) (terminal : g.isTerminal = false) (phase : y.phase d = slot) :
    y.line.IsPlain := by
  rcases returns with ends | ⟨x, hx, plain, same⟩
  · rw [terminal] at ends
    cases ends
  · cases line : y.line with
    | fork f p =>
      have other := c.line_eq_of_phase here hx (same.trans phase.symm) line
      rw [other] at plain
      exact plain
    | recovery g' =>
      rw [Spot.handler?, line] at takes
      cases takes
    | _ => trivial

end Workflow
