import Workflow.Proofs.Definition.Bodies

/-!
Definitions up to the order of their attachments.

Loops, branches, approvals and forks are declared in lists, and what is asked of them is asked by a first
match, a last match, a count or a sort by depth. In a valid definition none of the answers depends on the
order of declaration: a parent that is named is the name of one loop, a step carries one attachment, and
the loops around a step differ in depth. So the order does not matter to the nesting of loops, and not
to validity either.
-/

set_option autoImplicit false

namespace Workflow

/-! ## Lists in another order -/

/-- A search that can find one element only does not depend on the order. -/
theorem find?_eq_of_perm {α : Type} {p : α → Bool} {l l' : List α} (perm : l'.Perm l)
    (once : ∀ a ∈ l, ∀ b ∈ l, p a = true → p b = true → a = b) : l'.find? p = l.find? p := by
  cases found : l.find? p with
  | none =>
    have nowhere := List.find?_eq_none.mp found
    exact List.find?_eq_none.mpr fun a ha => nowhere a (perm.mem_iff.mp ha)
  | some a =>
    have ha := List.mem_of_find?_eq_some found
    have holds := List.find?_some found
    cases found' : l'.find? p with
    | none => exact absurd holds (List.find?_eq_none.mp found' a (perm.mem_iff.mpr ha))
    | some b =>
      have hb := perm.mem_iff.mp (List.mem_of_find?_eq_some found')
      rw [once b hb a ha (List.find?_some found') holds]

/-- Where keys are distinct, the last element of a key is the same in every order. -/
theorem find?_reverse_key_eq_of_perm {α : Type} {key : α → String} {l l' : List α} (perm : l'.Perm l)
    (distinct : (l.map key).Nodup) (x : String) :
    l'.reverse.find? (key · = x) = l.reverse.find? (key · = x) := by
  have turned := (l'.reverse_perm.trans perm).trans l.reverse_perm.symm
  exact find?_eq_of_perm turned fun _ ha _ hb same same' =>
    List.inj_on_of_nodup_map distinct (List.mem_reverse.mp ha) (List.mem_reverse.mp hb)
      ((of_decide_eq_true same).trans (of_decide_eq_true same').symm)

/-- What is counted once is one thing. -/
theorem eq_of_countP_eq_one {α : Type} {p : α → Bool} {l : List α} (one : l.countP p = 1) {a b : α}
    (ha : a ∈ l) (hb : b ∈ l) (holds : p a = true) (holds' : p b = true) : a = b := by
  rw [List.countP_eq_length_filter, List.length_eq_one_iff] at one
  obtain ⟨c, only⟩ := one
  have all : ∀ x ∈ l, p x = true → x = c := fun x hx h =>
    List.mem_singleton.mp (only ▸ List.mem_filter.mpr ⟨hx, h⟩)
  exact (all a ha holds).trans (all b hb holds').symm

/-- Once duplicates are erased, nothing is repeated. -/
theorem nodup_eraseDups {α : Type} [DecidableEq α] : ∀ l : List α, l.eraseDups.Nodup
  | [] => by simp
  | a :: l => by
    rw [List.eraseDups_cons, List.nodup_cons]
    exact ⟨by simp, nodup_eraseDups _⟩
termination_by l => l.length
decreasing_by
  exact Nat.lt_succ_of_le (List.length_filter_le _ _)

/-- Erasing duplicates keeps the same members in any order. -/
theorem eraseDups_perm {α : Type} [DecidableEq α] {l l' : List α} (perm : l'.Perm l) :
    l'.eraseDups.Perm l.eraseDups :=
  (List.perm_ext_iff_of_nodup (nodup_eraseDups l') (nodup_eraseDups l)).mpr fun a => by
    rw [List.mem_eraseDups, List.mem_eraseDups, perm.mem_iff]

/-- Sorting by a measure does not depend on the order, where no two measures are the same. -/
theorem mergeSort_eq_of_perm {α : Type} {f f' : α → Nat} {l l' : List α} (perm : l'.Perm l)
    (same : ∀ a ∈ l, f' a = f a) (strict : ∀ a ∈ l, ∀ b ∈ l, f a = f b → a = b) :
    (l'.mergeSort fun a b => f' a ≤ f' b) = l.mergeSort fun a b => f a ≤ f b := by
  have inside : ∀ a ∈ l'.mergeSort fun a b => f' a ≤ f' b, a ∈ l := fun a ha =>
    perm.mem_iff.mp (List.mem_mergeSort.mp ha)
  have sorted := List.pairwise_mergeSort' (Order.Preimage f (· ≤ ·)) l
  have sorted' := List.pairwise_mergeSort' (Order.Preimage f' (· ≤ ·)) l'
  let below (a b : α) : Prop := f a ≤ f b
  refine @List.Perm.eq_of_pairwise _ below _ _ (fun a b ha hb up down => ?_)
    (sorted'.imp_of_mem fun {a b} ha hb (up : f' a ≤ f' b) => show f a ≤ f b from ?_) sorted
    (((List.mergeSort_perm l' _).trans perm).trans (List.mergeSort_perm l _).symm)
  · exact strict a (inside a ha) b (List.mem_mergeSort.mp hb) (Nat.le_antisymm up down)
  · rwa [← same a (inside a ha), ← same b (inside b hb)]

/-! ## Definitions in another order -/

namespace Definition

/-- Another definition that declares the same attachments, in any order. -/
structure Reordered (d d' : Definition) : Prop where
  name : d'.name = d.name
  steps : d'.steps = d.steps
  stateType : d'.stateType = d.stateType
  loops : d'.loops.Perm d.loops
  branches : d'.branches.Perm d.branches
  approvals : d'.approvals.Perm d.approvals
  forks : d'.forks.Perm d.forks
  handlers : d'.handlers = d.handlers

variable {d d' : Definition}

/-- A parent that is named is the name of one loop. -/
theorem countP_parent (valid : d.defect? = none) {l : Loop} (hl : l ∈ d.loops) {p : String}
    (hp : l.parent = some p) : d.loops.countP (·.name = p) = 1 := by
  simp only [defect?, loopsDefect?, Option.or_eq_none_iff, List.findSome?_eq_none_iff] at valid
  obtain ⟨_, _, _, ⟨each, _, _⟩, _⟩ := valid
  have part := each l hl
  simp only [loopDefect?, Option.or_eq_none_iff, parentDefect?, hp] at part
  obtain ⟨_, _, _, _, _, _, parent⟩ := part
  split at parent
  · cases parent
  next one => exact one
  · cases parent

/-! ### What is asked of a list -/

/-- The branches are fine if each of them is on its own, and their ids are different. -/
theorem branchesDefect?_eq_none_iff {ids : List String} {branches : List Branch} :
    d.branchesDefect? ids branches = none ↔ (∀ b ∈ branches, d.branchesDefect? [] [b] = none)
      ∧ (branches.map Branch.id).Nodup ∧ ∀ b ∈ branches, b.id ∉ ids := by
  induction branches generalizing ids with
  | nil => simp [branchesDefect?]
  | cons b rest ih =>
    rw [branchesDefect?]
    simp only [Option.or_eq_none_iff, demand_eq_none_iff, decide_eq_true_eq, ih,
      List.map_cons, List.nodup_cons, List.mem_cons, not_or, List.mem_map, not_exists, not_and]
    simp only [branchesDefect?, Option.or_eq_none_iff, demand_eq_none_iff, decide_eq_true_eq]
    grind

/-- A chain of gates is fine if each of them is on its own, and their names are different. -/
theorem chainDefect?_eq_none_iff {names : List String} {chain : List Approval} :
    chainDefect? names chain = none ↔ (∀ a ∈ chain, gateDefect? a = none)
      ∧ (chain.map (·.gate.name)).Nodup ∧ ∀ a ∈ chain, a.gate.name ∉ names := by
  induction chain generalizing names with
  | nil => simp [chainDefect?]
  | cons a rest ih =>
    simp only [chainDefect?, Option.or_eq_none_iff, demand_eq_none_iff, decide_eq_true_eq, ih,
      List.map_cons, List.nodup_cons, List.mem_cons, not_or, List.mem_map,
      not_exists, not_and]
    grind

/-- The approvals are fine if each of them is on its own, and the names of all gates are different. -/
theorem approvalsDefect?_eq_none_iff {names : List String} {approvals : List Approval} :
    d.approvalsDefect? names approvals = none
      ↔ (∀ a ∈ approvals, d.stepDefect? s!"Approval '{a.gate.name}'" a.gate.precedingStep = none
          ∧ ∀ g ∈ a.chain, gateDefect? g = none)
        ∧ (approvals.flatMap Approval.gateNames).Nodup
        ∧ ∀ name ∈ approvals.flatMap Approval.gateNames, name ∉ names := by
  induction approvals generalizing names with
  | nil => simp [approvalsDefect?]
  | cons a rest ih =>
    simp only [approvalsDefect?, Option.or_eq_none_iff, chainDefect?_eq_none_iff, ih,
      List.forall_mem_cons, List.flatMap_cons, List.nodup_append, List.mem_append, not_or]
    have gates : (a.chain.map (·.gate.name)) = a.gateNames := rfl
    have named : (∀ g ∈ a.chain, g.gate.name ∉ names) ↔ ∀ name ∈ a.gateNames, name ∉ names := by
      simp [Approval.gateNames]
    rw [gates, named]
    grind

/-- No two gates of what is let through have a name in common. -/
theorem gateNames_nodup_of_defect?_eq_none (valid : d.defect? = none) :
    (d.approvals.flatMap Approval.gateNames).Nodup := by
  simp only [defect?, Option.or_eq_none_iff] at valid
  obtain ⟨_, _, _, _, _, approvals, _⟩ := valid
  exact (approvalsDefect?_eq_none_iff.mp approvals).2.1

/-- A handler that resumes and a fork that cancels are not found together. -/
theorem resumeDefect?_eq_none_iff : d.resumeDefect? = none
    ↔ d.handlers.find? (fun h => h.scope = .workflow && !h.isTerminal) = none
      ∨ d.forks.find? (·.failFast) = none := by
  unfold resumeDefect?
  cases d.handlers.find? fun h => h.scope = .workflow && !h.isTerminal <;>
    cases d.forks.find? (·.failFast) <;> simp

namespace Reordered

variable (r : d.Reordered d')

include r

/-! ### The main line -/

/-- The main line is the same, and all that is asked about single steps. -/
theorem indexOf?_eq (x : String) : d'.indexOf? x = d.indexOf? x := by
  rw [indexOf?, r.steps, indexOf?]

theorem stepDefect?_eq (construct x : String) : d'.stepDefect? construct x = d.stepDefect? construct x := by
  rw [stepDefect?, r.indexOf?_eq, stepDefect?]

theorem optionalStepDefect?_eq (construct : String) (x : Option String) :
    d'.optionalStepDefect? construct x = d.optionalStepDefect? construct x := by
  cases x with
  | none => rfl
  | some x => exact r.stepDefect?_eq construct x

theorem loopRange?_eq (l : Loop) : d'.loopRange? l = d.loopRange? l := by
  rw [loopRange?, r.indexOf?_eq, r.indexOf?_eq, loopRange?]

theorem covers_eq (i : Nat) : d'.covers i = d.covers i := by
  funext l
  rw [covers, r.loopRange?_eq, covers]

/-! ### Nesting -/

section Nesting

variable (valid : d.defect? = none) {l : Loop} (hl : l ∈ d.loops)

include valid hl

/-- A parent is named without ambiguity, so it is found wherever it stands among the loops. -/
theorem parent?_eq : d'.parent? l = d.parent? l := by
  unfold parent?
  cases hp : l.parent with
  | none => rfl
  | some p =>
    exact find?_eq_of_perm r.loops fun _ ha _ hb =>
      eq_of_countP_eq_one (countP_parent valid hl hp) ha hb

/-- Hence the same loops are met on the way up. -/
theorem climb_eq (n : Nat) : d'.climb n l = d.climb n l := by
  induction n generalizing l with
  | zero => rfl
  | succ n ih =>
    rw [climb, climb, r.parent?_eq valid hl]
    cases hp : d.parent? l with
    | none => rfl
    | some p => exact congrArg (p :: ·) (ih (mem_loops_of_parent? hp))

theorem loopChain_eq : d'.loopChain l = d.loopChain l := by
  rw [loopChain, r.climb_eq valid hl, r.loops.length_eq, loopChain]

/-- A loop has the same nesting path. -/
theorem loopNames_eq : d'.loopNames l = d.loopNames l := by
  rw [loopNames, r.loopChain_eq valid hl, loopNames]

/-- A loop is at the same depth. -/
theorem loopDepth_eq : d'.loopDepth l = d.loopDepth l := by
  rw [loopDepth, r.loopChain_eq valid hl, loopDepth]

theorem climbsBack_eq : d'.climbsBack l = d.climbsBack l := by
  simp only [climbsBack, r.climb_eq valid hl, r.loops.length_eq]

/-- The same loops are around it. -/
theorem isAncestor_eq (a : Loop) : d'.isAncestor a l = d.isAncestor a l := by
  rw [isAncestor, r.climb_eq valid hl, r.loops.length_eq, isAncestor]

end Nesting

/-- The loops around a step are the same, in the same order. -/
theorem enclosingLoops_eq (valid : d.defect? = none) (x : String) :
    d'.enclosingLoops x = d.enclosingLoops x := by
  have hw := wellFormed_of_defect?_eq_none valid
  unfold enclosingLoops
  rw [r.indexOf?_eq]
  cases d.indexOf? x with
  | none => rfl
  | some i =>
    have around : ∀ l ∈ d.loops.filter (d.covers i), l ∈ d.loops
        ∧ d.bodyFirst l ≤ i ∧ i ≤ d.bodyLast l := fun l hl => by
      obtain ⟨declared, covered⟩ := List.mem_filter.mp hl
      exact ⟨declared, (hw.covers_iff declared).mp covered⟩
    have kept : (d'.loops.filter (d'.covers i)).Perm (d.loops.filter (d.covers i)) := by
      rw [r.covers_eq]
      exact r.loops.filter _
    refine mergeSort_eq_of_perm kept (fun l hl => r.loopDepth_eq valid (around l hl).1)
      fun a ha b hb depth => ?_
    -- of two loops around a step one is around the other, and so less deep
    obtain ⟨ha, fromA, toA⟩ := around a ha
    obtain ⟨hb, fromB, toB⟩ := around b hb
    exact hw.eq_of_meet ha hb ⟨fromA.trans toB, fromB.trans toA⟩ depth

/-! ### Loops -/

/-- What is asked of one loop by itself is answered alike. -/
theorem loopDefect?_eq (valid : d.defect? = none) {l : Loop} (hl : l ∈ d.loops) :
    d'.loopDefect? l = d.loopDefect? l := by
  have inside : d'.parentDefect? l = d.parentDefect? l := by
    unfold parentDefect?
    cases hp : l.parent with
    | none => rfl
    | some p =>
      dsimp only
      rw [r.loops.countP_eq, countP_parent valid hl hp, r.climbsBack_eq valid hl]
      simp only [containmentDefect?, r.loopRange?_eq, r.parent?_eq valid hl]
  simp only [loopDefect?, r.stepDefect?_eq, r.optionalStepDefect?_eq, r.loopRange?_eq, inside]

/-- So is what is asked of two loops. -/
theorem loopPairDefect?_eq (valid : d.defect? = none) {a b : Loop} (ha : a ∈ d.loops)
    (hb : b ∈ d.loops) : d'.loopPairDefect? a b = d.loopPairDefect? a b := by
  simp only [loopPairDefect?, r.isAncestor_eq valid ha, r.isAncestor_eq valid hb, r.loopRange?_eq]

omit r in
/-- What is wrong with two loops is wrong with them the other way round. -/
theorem loopPairDefect?_comm {a b : Loop} (fine : d.loopPairDefect? a b = none) :
    d.loopPairDefect? b a = none := by
  have turned : ∀ x y, rangesMeet x y = rangesMeet y x := by
    rintro (_ | ⟨a, b⟩) (_ | ⟨a', b'⟩) <;> simp [rangesMeet, and_comm]
  simp only [loopPairDefect?, Option.or_eq_none_iff, demand_eq_none_iff] at fine ⊢
  rw [turned, Bool.or_comm (d.isAncestor b a)]
  simpa only [ne_comm] using fine

/-- Loops that pass in one order do so in any: pairs are compared with the one or the other in front. -/
theorem loopsDefect?_eq_none (valid : d.defect? = none) : d'.loopsDefect? = none := by
  have search := valid
  simp only [defect?, loopsDefect?, Option.or_eq_none_iff, List.findSome?_eq_none_iff,
    loopPathDefect?, Option.map_eq_none_iff, Claim.clash?_eq_none_iff, List.map_map] at search ⊢
  obtain ⟨_, _, _, ⟨each, paths, pairs⟩, _⟩ := search
  have declared : ∀ l ∈ d'.loops, l ∈ d.loops := fun l => r.loops.mem_iff.mp
  refine ⟨fun l hl => ?_, ?_, ?_⟩
  · rw [r.loopDefect?_eq valid (declared l hl)]
    exact each l (declared l hl)
  · have same : d'.loops.map d'.loopNames = d'.loops.map d.loopNames :=
      List.map_congr_left fun l hl => r.loopNames_eq valid (declared l hl)
    have moved := (r.loops.map d.loopNames).nodup_iff.mpr paths
    exact same.symm ▸ moved
  · rw [loopPairsDefect?_eq_none_iff] at pairs ⊢
    refine (pairs.perm r.loops.symm loopPairDefect?_comm).imp_of_mem fun ha hb fine => ?_
    rw [r.loopPairDefect?_eq valid (declared _ ha) (declared _ hb)]
    exact fine

/-! ### The other attachments -/

/-- So do branches. -/
theorem branchesDefect?_eq_none (valid : d.defect? = none) : d'.branchesDefect? [] d'.branches = none := by
  have search := valid
  simp only [defect?, Option.or_eq_none_iff] at search
  obtain ⟨_, _, _, _, fine, _⟩ := search
  rw [branchesDefect?_eq_none_iff] at fine ⊢
  obtain ⟨each, ids, _⟩ := fine
  refine ⟨fun b hb => ?_, (r.branches.map Branch.id).nodup_iff.mpr ids, by simp⟩
  rw [← each b (r.branches.mem_iff.mp hb)]
  simp only [branchesDefect?, r.stepDefect?_eq, r.optionalStepDefect?_eq, loopScopeDefect?,
    r.enclosingLoops_eq valid]

/-- So do approvals. -/
theorem approvalsDefect?_eq_none (fine : d.approvalsDefect? [] d.approvals = none) :
    d'.approvalsDefect? [] d'.approvals = none := by
  rw [approvalsDefect?_eq_none_iff] at fine ⊢
  obtain ⟨each, names, _⟩ := fine
  refine ⟨fun a ha => ?_, (r.approvals.flatMap_right _).nodup_iff.mpr names, by simp⟩
  rw [r.stepDefect?_eq]
  exact each a (r.approvals.mem_iff.mp ha)

theorem forkDefect?_eq (f : Fork) : d'.forkDefect? f = d.forkDefect? f := by
  simp only [forkDefect?, r.stepDefect?_eq]

theorem handlersDefect?_eq (scopes : List Scope) (handlers : List Handler) :
    d'.handlersDefect? scopes handlers = d.handlersDefect? scopes handlers := by
  induction handlers generalizing scopes with
  | nil => rfl
  | cons h rest ih => simp only [handlersDefect?, r.optionalStepDefect?_eq, ih]

/-- It is the same forks that may cancel. -/
theorem resumeDefect?_eq_none (fine : d.resumeDefect? = none) : d'.resumeDefect? = none := by
  rw [resumeDefect?_eq_none_iff] at fine ⊢
  rw [r.handlers]
  refine fine.imp_right fun none => List.find?_eq_none.mpr fun f hf => ?_
  exact List.find?_eq_none.mp none f (r.forks.mem_iff.mp hf)

/-- Steps carry the same attachments. -/
theorem attachments_perm : d'.attachments.Perm d.attachments :=
  (((((eraseDups_perm (r.loops.map Loop.lastStep)).map _).append (r.branches.map _)).append
    (r.approvals.map _)).append (r.forks.map _))

/-- Validity does not depend on the order. -/
theorem defect?_eq_none (valid : d.defect? = none) : d'.defect? = none := by
  have loops := r.loopsDefect?_eq_none valid
  have branches := r.branchesDefect?_eq_none valid
  simp only [defect?, Option.or_eq_none_iff, List.findSome?_eq_none_iff] at valid ⊢
  obtain ⟨steps, name, line, _, _, approvals, forks, handlers, resume, conflict⟩ := valid
  refine ⟨r.steps ▸ steps, r.name ▸ name, r.steps ▸ line, loops, branches,
    r.approvalsDefect?_eq_none approvals, fun f hf => ?_, ?_, r.resumeDefect?_eq_none resume, ?_⟩
  · rw [r.forkDefect?_eq]
    exact forks f (r.forks.mem_iff.mp hf)
  · rw [r.handlersDefect?_eq, r.handlers]
    exact handlers
  · simp only [conflictDefect?, Option.map_eq_none_iff, Claim.clash?_eq_none_iff] at conflict ⊢
    exact (r.attachments_perm.map Prod.fst).nodup_iff.mpr conflict

end Reordered

end Definition

end Workflow
