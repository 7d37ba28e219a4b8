import Workflow.Proofs.Host.Run

/-!
Processes without forks are sequential: control is in one place.

A message that starts, runs or completes a step, triggers a recovery or acknowledges a request carries
control. In every state a run reaches, a started instance has exactly one such message waiting, or it
has none and one of four things is the case: it is finished, it awaits a decision, it was refused a
step, or a fault stopped it. So nothing is lost on the way and no step runs beside another.
-/

set_option autoImplicit false

namespace Workflow

/-! ## Situations -/

/-- The messages that wait for an instance and carry control. -/
def Host.control (h : Host) (s : Session) (id : Key) : List Message :=
  s.queue.filter fun m => m.instanceId = id && (h.table.kindOf? m.name).any MessageKind.isControl

/-- Where an instance can be. -/
inductive Situation where
  | finished
  | underway
  | awaiting
  | refused
  | faulted
  deriving DecidableEq, Repr

/-- Whether an instance is there. -/
def Situation.Of (d : Definition) (h : Host) (s : Session) (id : Key) : Situation → Prop
  | .finished => Store.get? id s.running = none
      ∧ (∃ i, Store.get? id s.finished = some i ∧ i.isFinished = true) ∧ h.control s id = []
  | .underway => ∃ i, Store.get? id s.running = some i ∧ (h.control s id).length = 1
  | .awaiting => ∃ i, Store.get? id s.running = some i ∧ h.control s id = []
      ∧ ∃ a ∈ d.approvals, ∃ g ∈ a.chain, i.phase = Name.awaitPhase g.gate.name
        ∧ ∃ c, i.pendingApproval = some c ∧ s.latestRequest id g.gate.name = .ok c
  | .refused => ∃ i, Store.get? id s.running = some i ∧ h.control s id = []
      ∧ i.phase = Name.validationFailed
      ∧ ∃ m ∈ s.events, m.instanceId = id ∧ h.table.kindOf? m.name = some .validationFailed
  | .faulted => ∃ i, Store.get? id s.running = some i ∧ h.control s id = []
      ∧ ∃ f ∈ s.faults, f.instanceId = id

/-! ## The invariant -/

/-- The correlation id of the latest request of a gate. -/
def Session.latest? (s : Session) (id : Key) (approval : String) : Option Key :=
  (s.approvals.reverse.find? fun r => r.instanceId = id && r.approval = approval).map
    ApprovalRecord.correlation

theorem Session.latestRequest_eq_ok {s : Session} {id c : Key} {approval : String} {i : Instance}
    (stored : Store.get? id s.running = some i) (latest : s.latest? id approval = some c) :
    s.latestRequest id approval = .ok c := by
  obtain ⟨r, found, rfl⟩ := Option.map_eq_some_iff.mp latest
  simp [latestRequest, inst?, stored, found]

/-- What the token that carries control knows of its instance. -/
def Token.Suits (d : Definition) (s : Session) (id : Key) (i : Instance) : Token → Prop
  | .work x _ => x.In d ∧ i.phase = x.phase d
  | .done x _ _ => x.In d ∧ i.phase = x.phase d
  | .pending a g c => a ∈ d.approvals ∧ g ∈ a.chain ∧ i.phase = Name.awaitPhase g.gate.name
      ∧ s.latest? id g.gate.name = some c
  | _ => True

/-- Where control is, by the tokens that carry it. -/
inductive Sequential (d : Definition) (h : Host) (id : Key) (s : Session) : List Token → Prop
  | finished {i : Instance} (gone : Store.get? id s.running = none)
      (stored : Store.get? id s.finished = some i) (ended : i.isFinished = true) :
      Sequential d h id s []
  | underway {i : Instance} (tok : Token) (stored : Store.get? id s.running = some i)
      (unasked : i.pendingApproval = none) (faultless : s.faults = [])
      (suits : tok.Suits d s id i) : Sequential d h id s [tok]
  | awaiting {i : Instance} {a g : Approval} {c : Key} (stored : Store.get? id s.running = some i)
      (faultless : s.faults = []) (attached : a ∈ d.approvals) (link : g ∈ a.chain)
      (phase : i.phase = Name.awaitPhase g.gate.name) (asked : i.pendingApproval = some c)
      (latest : s.latest? id g.gate.name = some c) : Sequential d h id s []
  | refused {i : Instance} {m : Message} (stored : Store.get? id s.running = some i)
      (unasked : i.pendingApproval = none) (faultless : s.faults = [])
      (phase : i.phase = Name.validationFailed) (published : m ∈ s.events)
      (own : m.instanceId = id) (kind : h.table.kindOf? m.name = some .validationFailed) :
      Sequential d h id s []
  | faulted {i : Instance} {x : Spot} {f : FaultRecord} (stored : Store.get? id s.running = some i)
      (unasked : i.pendingApproval = none) (here : x.In d) (phase : i.phase = x.phase d)
      (recorded : f ∈ s.faults) (own : f.instanceId = id) : Sequential d h id s []

namespace Sequential

variable {d : Definition} {h : Host} {id : Key} {s s' : Session} {toks left : List Token} {tok : Token}

/-- Going on by a plain line or a decision keeps control in one place. -/
theorem settle (nothing : toks.filter Token.isControl = []) (faultless : s.faults = [])
    {i : Instance} (unasked : i.pendingApproval = none) (settles : Settles d id s toks i s' left) :
    Sequential d h id s' (left.filter Token.isControl) := by
  cases settles with
  | start y here plain alike going =>
    rw [List.filter_append, nothing]
    exact .underway (.start y) (Store.get?_insert_self ..) (alike.pendingApproval.trans unasked)
      faultless trivial
  | finish finished =>
    rw [nothing]
    exact .finished (by simp [Store.get?_erase]) (Store.get?_insert_self ..) finished
  | request a g attached link alike phase going correlation m =>
    rw [List.filter_append, nothing]
    refine .underway (.pending a g correlation) (Store.get?_insert_self ..)
      (alike.pendingApproval.trans unasked) faultless ⟨attached, link, phase, ?_⟩
    simp [Session.latest?]

/-- The move of the token that carries control. -/
theorem carry (unforked : d.forks = []) (nothing : toks.filter Token.isControl = [])
    (here : tok.In d) (control : tok.isControl = true) (standing : Sequential d h id s [tok])
    (move : Move d h id s toks tok s' left) :
    Sequential d h id s' (left.filter Token.isControl) := by
  have off : ∀ {x : Spot} {f : Fork} {p : Nat}, x.In d → x.line = .fork f p → False := by
    intro x f p here line
    have declared := Spot.fork_mem here line
    rw [unforked] at declared
    cases declared
  obtain ⟨i, stored, unasked, faultless, suits⟩ : ∃ i, Store.get? id s.running = some i
      ∧ i.pendingApproval = none ∧ s.faults = [] ∧ tok.Suits d s id i := by
    cases standing with
    | underway tok stored unasked faultless suits => exact ⟨_, stored, unasked, faultless, suits⟩
  have only : ∀ {j : Instance}, Store.get? id s.running = some j → j = i := fun there =>
    Option.some.inj (there.symm.trans stored)
  -- one token goes and another one comes
  have next : ∀ {s' : Session} {j : Instance} {tok' : Token}, Store.get? id s'.running = some j →
      j.pendingApproval = none → s'.faults = [] → tok'.Suits d s' id j → tok'.isControl = true →
        Sequential d h id s' ((toks ++ [tok']).filter Token.isControl) := by
    intro s' j tok' stored' unasked' faultless' suits' control'
    rw [List.filter_append, nothing, List.filter_cons_of_pos control']
    exact .underway tok' stored' unasked' faultless' suits'
  cases move with
  | work x state update failure delivered calls =>
    exact next stored unasked faultless suits rfl
  | lost tok consumed gone delivered deadLetters =>
    rw [gone] at stored
    cases stored
  | begin x j there delivered calls =>
    cases only there
    exact next (Store.get?_insert_self ..) unasked faultless ⟨here, rfl⟩ rfl
  | refuse x j there m kind own delivered calls =>
    cases only there
    rw [nothing]
    exact .refused (Store.get?_insert_self ..) unasked faultless rfl
      (List.mem_append_right _ (List.mem_singleton_self m)) own kind
  | settle x update failure plain j i' there alike joins cancelled fewer delivered calls s' left
      settles =>
    cases only there
    exact settle (s := { s with joins, cancelled, delivered, calls }) nothing faultless
      (alike.pendingApproval.trans unasked) settles
  | cascade x update failure f declared =>
    rw [unforked] at declared
    cases declared
  | onward x y update failure here' same after off i' j there alike going delivered calls =>
    cases only there
    exact next (Store.get?_insert_self ..) (alike.pendingApproval.trans unasked) faultless trivial rfl
  | report x update failure f p line => exact (off here line).elim
  | release x update failure f p line => exact (off here line).elim
  | close x update failure g line terminal i' j there finished delivered calls =>
    rw [nothing]
    exact .finished (by simp [Store.get?_erase]) (Store.get?_insert_self ..) finished
  | resume x y update failure g line last terminal here' i' j there failed takes alike going delivered
      calls =>
    cases only there
    exact next (Store.get?_insert_self ..) (alike.pendingApproval.trans unasked) faultless trivial rfl
  | trigger x update failure g takes slow context failed i' j there alike going joins cancelled fewer
      kept delivered calls =>
    cases only there
    exact next (Store.get?_insert_self ..) (alike.pendingApproval.trans unasked) faultless trivial rfl
  | cancel x update failure f p line => exact (off here line).elim
  | abort x update failure f p line => exact (off here line).elim
  | fault x update failure off j there record own kind delivered calls =>
    rw [nothing]
    exact .faulted stored unasked suits.1 suits.2
      (List.mem_append_right _ (List.mem_singleton_self record)) own
  | capture g context first rest steps j there delivered calls =>
    cases only there
    exact next (Store.get?_insert_self ..) unasked faultless trivial rfl
  | acknowledge a g correlation j there delivered calls =>
    cases only there
    obtain ⟨attached, link, phase, latest⟩ := suits
    rw [nothing]
    exact .awaiting (Store.get?_insert_self ..) faultless attached link phase rfl latest
  | ignore tok signal =>
    rw [Token.isControl_of_signal signal] at control
    cases control
  | answer tok signal =>
    rw [Token.isControl_of_signal signal] at control
    cases control

/-- Nothing that says where control is has changed. -/
theorem alike {cs : List Token} (standing : Sequential d h id s cs)
    (running : ∀ i, Store.get? id s.running = some i →
      ∃ j, Store.get? id s'.running = some j ∧ i.Alike j ∧ j.phase = i.phase)
    (gone : Store.get? id s.running = none → Store.get? id s'.running = none)
    (finished : s'.finished = s.finished) (faults : s'.faults = s.faults)
    (events : s'.events = s.events)
    (latest : ∀ approval, s'.latest? id approval = s.latest? id approval) :
    Sequential d h id s' cs := by
  cases standing with
  | finished none stored ended => exact .finished (gone none) (finished ▸ stored) ended
  | underway tok stored unasked faultless suits =>
    obtain ⟨j, stored', alike, phase⟩ := running _ stored
    refine .underway tok stored' (alike.pendingApproval.trans unasked) (faults.trans faultless) ?_
    cases tok <;> first | trivial | simpa only [Token.Suits, phase, latest] using suits
  | awaiting stored faultless attached link phase asked latest' =>
    obtain ⟨j, stored', alike, phase'⟩ := running _ stored
    exact .awaiting stored' (faults.trans faultless) attached link (phase'.trans phase)
      (alike.pendingApproval.trans asked) ((latest _).trans latest')
  | refused stored unasked faultless phase published own kind =>
    obtain ⟨j, stored', alike, phase'⟩ := running _ stored
    exact .refused stored' (alike.pendingApproval.trans unasked) (faults.trans faultless)
      (phase'.trans phase) (events ▸ published) own kind
  | faulted stored unasked here phase recorded own =>
    obtain ⟨j, stored', alike, phase'⟩ := running _ stored
    exact .faulted stored' (alike.pendingApproval.trans unasked) here (phase'.trans phase)
      (faults ▸ recorded) own

/-- The move of a signal. -/
theorem listen (control : tok.isControl = false)
    (standing : Sequential d h id s (toks.filter Token.isControl))
    (move : Move d h id s toks tok s' left) :
    Sequential d h id s' (left.filter Token.isControl) := by
  rcases move.of_signal control with ⟨gone, rfl, delivered, deadLetters, rfl⟩
    | ⟨i, j, delivered, calls, stored, alike, phase, rfl, rfl⟩
    | ⟨i, i', delivered, calls, stored, asked, cleared, settles⟩
  · exact standing.alike (fun i stored => ⟨i, stored, .refl i, rfl⟩) (fun none => none) rfl rfl rfl
      fun _ => rfl
  · refine standing.alike (fun i' there => ?_) (fun none => ?_) rfl rfl rfl fun _ => rfl
    · cases there.symm.trans stored
      exact ⟨j, Store.get?_insert_self .., alike, phase⟩
    · rw [stored] at none
      cases none
  · -- only an instance that awaits a decision has an open request
    generalize cs_eq : toks.filter Token.isControl = cs at standing
    cases standing with
    | finished none =>
      rw [none] at stored
      cases stored
    | awaiting there faultless =>
      exact settle (s := { s with delivered, calls }) cs_eq faultless cleared settles
    | underway tok there unasked | refused there unasked | faulted there unasked =>
      cases there.symm.trans stored
      exact absurd unasked asked

/-- Every run of a process without forks keeps control in one place. -/
theorem kept (unforked : d.forks = []) (id : Key) :
    Kept d h id fun _ s toks => Sequential d h id s (toks.filter Token.isControl) where
  start here main running finished joins cancelled events faults approvals :=
    .underway _ running rfl faults trivial
  move {past s s' toks left tok} tracked here holds move _ _ := by
    by_cases control : tok.isControl = true
    · rw [List.filter_cons_of_pos control] at holds
      have nothing : toks.filter Token.isControl = [] := by
        generalize toks.filter Token.isControl = rest at holds
        cases holds
        rfl
      rw [nothing] at holds
      exact carry unforked nothing here control holds move
    · rw [List.filter_cons_of_neg control] at holds
      exact listen (by simpa using control) holds move
  signal {past s toks tok} signal holds := by
    rw [Token.control_append signal]
    exact holds
  queue queue holds :=
    holds.alike (fun i stored => ⟨i, stored, .refl i, rfl⟩) (fun none => none) rfl rfl rfl
      fun _ => rfl
  beside {past s t toks more} grown others holds := by
    refine holds.alike (fun i stored => ⟨i, stored, .refl i, rfl⟩) (fun none => none) rfl rfl rfl ?_
    intro approval
    -- the requests of others are passed over
    have passed : more.reverse.find? (fun r => r.instanceId = id && r.approval = approval) = none := by
      rw [List.find?_eq_none]
      intro r hr
      simp [others r (List.mem_reverse.mp hr)]
    simp only [Session.latest?, Session.beside, grown, List.reverse_append, List.find?_append, passed,
      Option.none_or]

/-- The messages that carry control are those of the tokens that do. -/
theorem control_eq (c : Compiled d h.table) (tracked : Tracked d h id (s.only id) toks) :
    h.control s id = (toks.filter Token.isControl).map (Token.message d id) := by
  have own : h.control s id = (s.only id).queue.filter fun m =>
      (h.table.kindOf? m.name).any MessageKind.isControl := by
    simp only [Host.control, Session.only, List.filter_filter, Bool.and_comm]
  rw [own, tracked.queue, List.filter_map]
  congr 1
  apply List.filter_congr
  intro tok htok
  rw [Function.comp_apply, c.kindOf?_message (tracked.here tok htok)]
  rfl

end Sequential

namespace Compiled

variable {d : Definition} {t : Table} (c : Compiled d t)

include c

theorem phase_ne_validationFailed {x : Spot} (here : x.In d) : x.phase d ≠ Name.validationFailed :=
  (c.phase_ne_reserved (Definition.mem_sites_iff_mem_plan.mp (here.site_mem c.wellFormed))
    (by simp [Entry.phases])).2.2.2

theorem awaitPhase_ne_validationFailed {a g : Approval} (attached : a ∈ d.approvals)
    (link : g ∈ a.chain) : Name.awaitPhase g.gate.name ≠ Name.validationFailed :=
  (c.phase_ne_reserved (c.wellFormed.mem_plan_iff.mpr (.gate attached link))
    (by simp [Entry.phases])).2.2.2

theorem phase_ne_awaitPhase {x : Spot} (here : x.In d) {a g : Approval} (attached : a ∈ d.approvals)
    (link : g ∈ a.chain) : x.phase d ≠ Name.awaitPhase g.gate.name := by
  intro same
  have one := c.entry_eq_of_phase (Definition.mem_sites_iff_mem_plan.mp (here.site_mem c.wellFormed))
    (c.wellFormed.mem_plan_iff.mpr (.gate attached link)) (p := x.phase d) (by simp [Entry.phases])
    (by simp [Entry.phases, same])
  cases one

end Compiled

/-! ## Exactly one situation -/

/-- A running instance without control awaits a decision, was refused a step or was stopped. -/
theorem Situation.Of.halted {d : Definition} {h : Host} {s : Session} {id : Key} {i : Instance}
    {k : Situation} (there : k.Of d h s id) (stored : Store.get? id s.running = some i)
    (nothing : h.control s id = []) :
    (k = .awaiting ∧ ∃ a ∈ d.approvals, ∃ g ∈ a.chain, i.phase = Name.awaitPhase g.gate.name)
      ∨ (k = .refused ∧ i.phase = Name.validationFailed)
      ∨ (k = .faulted ∧ ∃ f ∈ s.faults, f.instanceId = id) := by
  cases k with
  | finished =>
    obtain ⟨gone, _⟩ := there
    rw [gone] at stored
    cases stored
  | underway =>
    obtain ⟨j, _, one⟩ := there
    rw [nothing] at one
    cases one
  | awaiting =>
    obtain ⟨j, stored', _, a, attached, g, link, phase, _⟩ := there
    cases stored'.symm.trans stored
    exact .inl ⟨rfl, a, attached, g, link, phase⟩
  | refused =>
    obtain ⟨j, stored', _, phase, _⟩ := there
    cases stored'.symm.trans stored
    exact .inr (.inl ⟨rfl, phase⟩)
  | faulted =>
    obtain ⟨j, _, _, recorded⟩ := there
    exact .inr (.inr ⟨rfl, recorded⟩)

/-- In every state that a run of a process without forks reaches, a started instance is in exactly one
situation. -/
theorem Host.Reaches.exists_unique_situation {d : Definition} {settings : Settings} {h : Host}
    (compiles : d.compile settings = .ok h.table) (unforked : d.forks = []) {started : List Key}
    {past : List Delivery} {s : Session} (run : h.Reaches started past s) {id : Key}
    (member : id ∈ started) : ∃! k : Situation, k.Of d h s id := by
  have c := Definition.compiled_of_compile compiles
  obtain ⟨toks, tracked, standing⟩ := run.kept c (Sequential.kept unforked) member
  have control := Sequential.control_eq c tracked
  generalize toks.filter Token.isControl = cs at standing control
  have unrecorded : (s.only id).faults = [] → ¬ ∃ f ∈ s.faults, f.instanceId = id := by
    rintro faultless ⟨f, recorded, own⟩
    have kept := Session.mem_faults_only.mpr ⟨recorded, own⟩
    rw [faultless] at kept
    cases kept
  cases standing with
  | finished gone stored ended =>
    rw [Session.get?_running_only] at gone
    rw [Session.get?_finished_only] at stored
    refine ⟨.finished, ⟨gone, ⟨_, stored, ended⟩, control⟩, ?_⟩
    intro k other
    cases k with
    | finished => rfl
    | _ =>
      obtain ⟨i, there, _⟩ := other
      rw [gone] at there
      cases there
  | underway tok stored unasked faultless suits =>
    rw [Session.get?_running_only] at stored
    refine ⟨.underway, ⟨_, stored, by rw [control]; rfl⟩, ?_⟩
    intro k other
    cases k with
    | underway => rfl
    | finished =>
      obtain ⟨gone, _⟩ := other
      rw [gone] at stored
      cases stored
    | _ =>
      obtain ⟨i, _, none, _⟩ := other
      rw [control] at none
      cases none
  | awaiting stored faultless attached link phase asked latest =>
    rw [Session.get?_running_only] at stored
    refine ⟨.awaiting, ⟨_, stored, control, _, attached, _, link, phase, _, asked,
      Session.latestRequest_eq_ok stored latest⟩, ?_⟩
    intro k other
    rcases other.halted stored control with ⟨rfl, _⟩ | ⟨rfl, phase'⟩ | ⟨rfl, recorded⟩
    · rfl
    · exact absurd (phase.symm.trans phase') (c.awaitPhase_ne_validationFailed attached link)
    · exact absurd recorded (unrecorded faultless)
  | refused stored unasked faultless phase published own kind =>
    rw [Session.get?_running_only] at stored
    refine ⟨.refused, ⟨_, stored, control, phase, _, (Session.mem_events_only.mp published).1, own,
      kind⟩, ?_⟩
    intro k other
    rcases other.halted stored control with ⟨rfl, a, attached, g, link, phase'⟩ | ⟨rfl, _⟩
      | ⟨rfl, recorded⟩
    · exact absurd (phase'.symm.trans phase) (c.awaitPhase_ne_validationFailed attached link)
    · rfl
    · exact absurd recorded (unrecorded faultless)
  | faulted stored unasked here phase recorded own =>
    rw [Session.get?_running_only] at stored
    refine ⟨.faulted, ⟨_, stored, control, _, (Session.mem_faults_only.mp recorded).1, own⟩, ?_⟩
    intro k other
    rcases other.halted stored control with ⟨rfl, a, attached, g, link, phase'⟩ | ⟨rfl, phase'⟩
      | ⟨rfl, _⟩
    · exact absurd (phase.symm.trans phase') (c.phase_ne_awaitPhase here attached link)
    · exact absurd (phase.symm.trans phase') (c.phase_ne_validationFailed here)
    · rfl

/-- A purchase, which the boss has to allow. -/
def Definition.purchase : Definition where
  name := "Purchase"
  steps := [.ofName "Ask", .ofName "Buy"]
  stateType := none
  loops := []
  branches := []
  approvals := [.failing ⟨"Boss", "boss", "Ask", []⟩]
  forks := []
  handlers := []

/-- A host whose work succeeds and changes nothing. -/
def Host.idle (t : Table) : Host where
  table := t
  collaborators := ⟨fun _ update => update, fun _ _ _ => true⟩
  executor := fun _ _ state => .ok state
  correlator := .counting
  deliveryLimit := Host.defaultDeliveryLimit

/-- Four deliveries after its start, a purchase awaits the decision of the boss. -/
theorem exists_unique_situation_purchase : ∃ (h : Host) (past : List Delivery) (s : Session),
    Definition.purchase.compile .default = .ok h.table ∧ h.Reaches [.number 1] past s
      ∧ past.length = 4 ∧ s.queue = [] ∧ ∃! k : Situation, k.Of .purchase h s (.number 1) := by
  have computed : (Definition.purchase.compile .default).toOption.any (fun t =>
      let reached := (Host.idle t).deliverUpTo 9 [] ((Host.idle t).start .initial (.number 1) .null).2
      reached.1.length = 4 && reached.2.queue = []) = true := by decide +kernel
  cases compiles : Definition.purchase.compile .default with
  | error e =>
    rw [compiles] at computed
    cases computed
  | ok t =>
    simp only [compiles, Except.toOption, Option.any_some, Bool.and_eq_true,
      decide_eq_true_eq] at computed
    have run := (Definition.compiled_of_compile compiles).reaches_first (h := .idle t) (.number 1)
      .null 9
    exact ⟨.idle t, _, _, rfl, run, computed.1, computed.2,
      run.exists_unique_situation compiles rfl (List.mem_singleton_self _)⟩

end Workflow
