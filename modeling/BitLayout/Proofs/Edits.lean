import BitLayout.Proofs.Instruction

/-! # Edits in place

An edit in place assigns the parts of a parameter or an instruction one after the
other, and what it has assigned stays when it fails. No edit fails behind an
assignment, so a refused edit changes nothing; and whatever edits were made, the state
is the one that is built from its visible parts alone.
-/

namespace BitLayout

/-- A computation that changes a state in place. What it has assigned before it fails
stays assigned. -/
abbrev InPlace (σ : Type) := EStateM EncodingError σ

def InPlace.outcome {σ : Type} (x : InPlace σ Unit) (s : σ) : σ × Except EncodingError Unit :=
  match x.run s with
  | .ok _ t => (t, .ok ())
  | .error cause t => (t, .error cause)

namespace Parameter

/-- An edit as assignments, the source before the layout that it spells. -/
def assign : Edit → InPlace Parameter Unit
  | .name name => do
    if name.isEmpty then throw .emptyName
    modify fun p => { p with name }
  | .source source => do
    let layout ← MonadExcept.ofExcept (layoutOf (← get).name source)
    modify fun p => { p with source }
    modify fun p => { p with layout }
  | .description description => modify fun p => { p with description }

theorem outcome_assign (p : Parameter) (e : Edit) : (assign e).outcome p = p.perform e := by
  cases e with
  | name name =>
    rw [perform, Parameter.edit, assign]
    split <;> rfl
  | source source =>
    -- the state that is read is `p`, so only the layout decides how the run goes on
    change InPlace.outcome (do
      let layout ← MonadExcept.ofExcept (layoutOf p.name source)
      modify fun p => { p with source }
      modify fun p => { p with layout }) p = _
    rw [perform, Parameter.edit]
    cases layoutOf p.name source <;> rfl
  | description description => rfl

theorem outcome_assign_of_error {p : Parameter} {e : Edit} {cause : EncodingError}
    (h : ((assign e).outcome p).2 = .error cause) : ((assign e).outcome p).1 = p := by
  rw [outcome_assign, perform] at h ⊢
  cases he : p.edit e with
  | error _ => rfl
  | ok q => simp [he] at h

end Parameter

namespace Instruction

def assign : Edit → InPlace Instruction Unit
  | .name name => do
    if name.isEmpty then throw .emptyName
    modify fun i => { i with name }
  | .description description => modify fun i => { i with description }
  | .architecture tag => do
    let architecture ← MonadExcept.ofExcept (Architecture.ofTag tag)
    modify fun i => { i with architecture }
  | .parameters parameters => do
    let parameters ← MonadExcept.ofExcept (distinct parameters)
    modify fun i => { i with parameters }
  | .push p => do
    if ((← get).parameter? p.name).isSome then throw (.repeatedParameter p.name)
    modify fun i => { i with parameters := i.parameters ++ [p] }

theorem outcome_assign (i : Instruction) (e : Edit) : (assign e).outcome i = i.perform e := by
  cases e with
  | name name =>
    rw [perform, Instruction.edit, assign]
    split <;> rfl
  | description description => rfl
  | architecture tag =>
    rw [perform, Instruction.edit, assign]
    cases Architecture.ofTag tag <;> rfl
  | parameters parameters =>
    rw [perform, Instruction.edit, assign]
    cases distinct parameters <;> rfl
  | push p =>
    change InPlace.outcome (do
      if (i.parameter? p.name).isSome then throw (.repeatedParameter p.name)
      modify fun i => { i with parameters := i.parameters ++ [p] }) i = _
    rw [perform, Instruction.edit]
    split <;> rfl

theorem outcome_assign_of_error {i : Instruction} {e : Edit} {cause : EncodingError}
    (h : ((assign e).outcome i).2 = .error cause) : ((assign e).outcome i).1 = i := by
  rw [outcome_assign, perform] at h ⊢
  cases he : i.edit e with
  | error _ => rfl
  | ok k => simp [he] at h

/-- Whatever edits an instruction has seen, it and its parameters are named, no two of them
alike, and each parameter carries the layout of its source. A refused edit, assignment by
assignment, leaves all parts as they were. The visible parts alone build the same
instruction again, and parameters with the same visible parts are equal. -/
theorem reachable_determined {i : Instruction} (h : i.Reachable) :
    (i.name ≠ "" ∧ (i.parameters.map (·.name)).Nodup ∧
      ∀ p ∈ i.parameters,
        p.name ≠ "" ∧ p.source ≠ "" ∧ Layout.ofSource p.source = .ok p.layout) ∧
    (∀ e, i.perform e = (assign e).outcome i ∧
      ∀ cause, ((assign e).outcome i).2 = .error cause → ((assign e).outcome i).1 = i) ∧
    ((i.parameters.mapM fun p => Parameter.make p.name p.source p.description) =
        .ok i.parameters ∧
      make i.name i.description i.parameters i.architecture.tag = .ok i) ∧
    ∀ p : Parameter, p.Reachable →
      (∀ e, p.perform e = (Parameter.assign e).outcome p ∧
        ∀ cause, ((Parameter.assign e).outcome p).2 = .error cause →
          ((Parameter.assign e).outcome p).1 = p) ∧
      ∀ q : Parameter, q.Reachable →
        (p = q ↔ p.name = q.name ∧ p.source = q.source ∧ p.description = q.description) := by
  have hv := h.valid
  refine ⟨⟨hv.name_ne, hv.nodup, fun p hp => ?_⟩, fun e => ?_, ?_, fun p hp => ?_⟩
  · exact Parameter.valid_iff.mp (hv.parameters p hp)
  · exact ⟨(outcome_assign i e).symm, fun _ => outcome_assign_of_error⟩
  · exact ⟨Parameter.mapM_make hv.parameters, hv.make_eq⟩
  · refine ⟨fun e => ?_, fun q hq => hp.valid.eq_iff hq.valid⟩
    exact ⟨(Parameter.outcome_assign p e).symm, fun _ => Parameter.outcome_assign_of_error⟩

/-- A parameter that has been moved to other bits and described. -/
def moved : Parameter := ⟨"rd", "4-7", some "target", [⟨0, .bits 4 7⟩]⟩

theorem reachable_moved : moved.Reachable := by
  let start : Parameter := ⟨"rd", "0-3", none, [⟨0, .bits 0 3⟩]⟩
  have hstart : start.Reachable :=
    .make (show Parameter.make "rd" "0-3" none = .ok start by decide +kernel)
  have hmoved : moved = (((start.perform (.source "4-7")).1.perform (.source "8-")).1.perform
      (.description (some "target"))).1 := by decide +kernel
  rw [hmoved]
  exact .perform _ (.perform _ (.perform _ hstart))

/-- A further parameter of the same name is refused. -/
theorem reachable_determined_sample :
    let i : Instruction := ⟨"add", none, [moved], .bits8⟩
    i.Reachable ∧ i.name ≠ "" ∧ moved.source ≠ "" ∧
      Layout.ofSource moved.source = .ok moved.layout ∧
      ((assign (.push moved)).outcome i).2 = .error (.repeatedParameter "rd") ∧
      ((assign (.push moved)).outcome i).1 = i ∧
      make i.name i.description i.parameters i.architecture.tag = .ok i := by
  intro i
  have hmake : make "add" none [moved] "8bit" = .ok i := by decide +kernel
  have hi : i.Reachable := .make (by simpa using reachable_moved) hmake
  obtain ⟨⟨hn, -, hp⟩, hedit, ⟨-, hbuild⟩, -⟩ := reachable_determined hi
  obtain ⟨-, hs, hl⟩ := hp moved List.mem_cons_self
  have hrefused : ((assign (.push moved)).outcome i).2 = .error (.repeatedParameter "rd") := by
    decide +kernel
  exact ⟨hi, hn, hs, hl, hrefused, (hedit (.push moved)).2 _ hrefused, hbuild⟩

end Instruction

end BitLayout
