import BitLayout.Proofs.StrictLoading

/-! # Sessions

A session keeps one set in place, from the empty set on, and asks one operation of it
after the other. The steps of a session say what stands in the set: the records of the
last loading that succeeded and, behind them, what was inserted since. An operation that
fails leaves no trace.
-/

namespace BitLayout

namespace OrderedMap

variable {α : Type} {m : OrderedMap α} {name : String} {a : α}

theorem get?_eq_some_iff (h : m.names.Nodup) : m.get? name = some a ↔ (name, a) ∈ m.entries := by
  rw [get?, List.lookup_eq_some_iff]
  constructor
  · rintro ⟨before, after, he, -⟩
    simp [he]
  · intro hm
    obtain ⟨before, after, he⟩ := List.append_of_mem hm
    refine ⟨before, after, he, fun e hb => ?_⟩
    simp only [names, he, List.map_append, List.map_cons, List.nodup_append] at h
    simpa using (h.2.2 _ (List.mem_map_of_mem hb) _ List.mem_cons_self).symm

end OrderedMap

namespace InstructionSet

open Schema (Record)

/-- A computation on a set in place. What it has changed before it fails stays changed. -/
abbrev Session := EStateM Schema.Error InstructionSet

def Session.outcome {α : Type} (x : Session α) (s : InstructionSet) :
    InstructionSet × Except Schema.Error α :=
  match x.run s with
  | .ok a t => (t, .ok a)
  | .error cause t => (t, .error cause)

def assign : Edit → Session Unit
  | .insert i => do
    if ((← get).get? i.name).isSome then throw (.duplicateInstruction i.name)
    modify fun s => s.set i.name i
  | .load mode text => do
    let t ← MonadExcept.ofExcept (ofText mode text)
    set t

inductive Operation where
  | edit (e : Edit)
  | find (name : String)
  | require (name : String)
  | check
  | write
deriving DecidableEq, Repr

inductive Reply where
  | done
  | found (instruction : Option Instruction)
  | text (text : String)
deriving DecidableEq, Repr

def Operation.run : Operation → Session Reply
  | .edit e => do
    assign e
    return .done
  | .find name => do return .found ((← get).get? name)
  | .require name => do
    let i ← MonadExcept.ofExcept ((← get).require name)
    return .found (some i)
  | .check => do
    MonadExcept.ofExcept (← get).checkStrict
    return .done
  | .write => do return .text (← get).toText

def Operation.Built : Operation → Prop
  | .edit e => e.Built
  | _ => True

structure Step where
  operation : Operation
  outcome : Except Schema.Error Reply
deriving DecidableEq

structure History where
  set : InstructionSet
  steps : List Step
deriving DecidableEq

def History.perform (h : History) (o : Operation) : History :=
  ⟨(o.run.outcome h.set).1, h.steps ++ [⟨o, (o.run.outcome h.set).2⟩]⟩

def History.of (operations : List Operation) : History :=
  operations.foldl perform ⟨OrderedMap.empty, []⟩

def Step.inserted? : Step → Option Instruction
  | ⟨.edit (.insert i), .ok _⟩ => some i
  | _ => none

def inserted (steps : List Step) : List Instruction := steps.filterMap Step.inserted?

def Step.Loads (t : Step) : Prop :=
  ∃ mode text reply, t = ⟨.edit (.load mode text), .ok reply⟩

/-- What a step does to a set: nothing, or it inserts an instruction of a new name, or it
replaces the set by a loaded one. -/
inductive Effect (s : InstructionSet) : Step → InstructionSet → Prop
  | none {t : Step} : t.inserted? = none → ¬ t.Loads → Effect s t s
  | insert {i : Instruction} : i.name ∉ s.names →
      Effect s ⟨.edit (.insert i), .ok .done⟩ (s.append i)
  | load {mode : Mode} {text : String} {t : InstructionSet} : ofText mode text = .ok t →
      Effect s ⟨.edit (.load mode text), .ok .done⟩ t

/-- What a row of steps brought into the empty set: the records of the last loading that
succeeded, and behind them what was inserted since. -/
inductive Arrived : List Step → List Instruction → Prop
  | inserts {steps : List Step} : (∀ t ∈ steps, ¬ t.Loads) → Arrived steps (inserted steps)
  | load {before after : List Step} {mode : Mode} {text : String} {reply : Reply}
      {records : List Record} {is : List Instruction} : recordsOfText text = .ok records →
      List.Forall₂ (fun r i => r.toInstruction = .ok i) records is →
      (∀ t ∈ after, ¬ t.Loads) →
      Arrived (before ++ ⟨.edit (.load mode text), .ok reply⟩ :: after) (is ++ inserted after)

def Session.result {α : Type} (x : Session α) (s : InstructionSet) :
    Except Schema.Error InstructionSet :=
  (x.outcome s).2.map fun _ => (x.outcome s).1

/-- The taking in of a record: it is converted, checked if the mode asks for it, and inserted. -/
def takeIn (mode : Mode) (r : Record) : Session Unit := do
  let i ← MonadExcept.ofExcept (r.toInstruction.mapError (.encoding r.name))
  if mode = .strict then MonadExcept.ofExcept (i.checkStrict.mapError (.encoding r.name))
  assign (.insert i)

variable {s t : InstructionSet} {i : Instruction} {name : String} {mode : Mode} {o : Operation}
  {e : Schema.Error} {steps : List Step} {is : List Instruction} {α β : Type}

theorem outcome_assign (s : InstructionSet) (e : Edit) : (assign e).outcome s = s.perform e := by
  cases e with
  | insert i =>
    -- the set that is read is `s`, so only its names decide how the run goes on
    change Session.outcome (do
      if (s.get? i.name).isSome then throw (.duplicateInstruction i.name)
      modify fun s => s.set i.name i) s = _
    rw [perform, InstructionSet.edit, insert]
    split <;> rfl
  | load mode text =>
    rw [perform, InstructionSet.edit, assign]
    cases ofText mode text <;> rfl

theorem Session.outcome_map (x : Session α) (f : α → β) :
    Session.outcome (do return f (← x)) s = ((x.outcome s).1, (x.outcome s).2.map f) := by
  simp only [outcome, EStateM.run_bind]
  cases x.run s <;> rfl

@[simp] theorem outcome_edit (s : InstructionSet) (e : Edit) :
    (Operation.edit e).run.outcome s =
      ((s.perform e).1, (s.perform e).2.map fun _ => Reply.done) := by
  rw [← outcome_assign]
  exact Session.outcome_map (assign e) fun _ => Reply.done

@[simp] theorem outcome_find (s : InstructionSet) (name : String) :
    (Operation.find name).run.outcome s = (s, .ok (.found (s.get? name))) := rfl

@[simp] theorem outcome_require (s : InstructionSet) (name : String) :
    (Operation.require name).run.outcome s =
      (s, (s.require name).map fun i => Reply.found (some i)) := by
  change Session.outcome (do
    let i ← MonadExcept.ofExcept (s.require name)
    return Reply.found (some i)) s = _
  cases s.require name <;> rfl

@[simp] theorem outcome_check (s : InstructionSet) :
    Operation.check.run.outcome s = (s, s.checkStrict.map fun _ => Reply.done) := by
  change Session.outcome (do
    MonadExcept.ofExcept s.checkStrict
    return Reply.done) s = _
  cases s.checkStrict <;> rfl

@[simp] theorem outcome_write (s : InstructionSet) :
    Operation.write.run.outcome s = (s, .ok (.text s.toText)) := rfl

theorem Effect.of_error (s : InstructionSet) (o : Operation) (cause : Schema.Error) :
    Effect s ⟨o, .error cause⟩ s := by
  refine .none ?_ ?_
  · rw [Step.inserted?]
    simp
  · rintro ⟨mode, text, reply, h⟩
    cases h

theorem Effect.of_reading {o : Operation} (h : ∀ e, o ≠ .edit e)
    (r : Except Schema.Error Reply) : Effect s ⟨o, r⟩ s := by
  refine .none ?_ ?_
  · cases o with
    | edit e => exact absurd rfl (h e)
    | _ => rfl
  · rintro ⟨mode, text, reply, ht⟩
    cases ht
    exact h _ rfl

theorem effect (s : InstructionSet) (o : Operation) :
    Effect s ⟨o, (o.run.outcome s).2⟩ (o.run.outcome s).1 := by
  cases o with
  | edit e =>
    rw [outcome_edit, InstructionSet.perform]
    cases h : s.edit e with
    | error cause => exact .of_error s _ cause
    | ok t =>
      cases e with
      | insert i =>
        have hn : i.name ∉ s.names := by
          intro hm
          rw [InstructionSet.edit, insert_of_mem hm] at h
          cases h
        rw [InstructionSet.edit, insert_of_not_mem hn] at h
        cases h
        exact .insert hn
      | load mode text => exact .load h
  | find name =>
    rw [outcome_find]
    exact .of_reading (by rintro e ⟨⟩) _
  | require name =>
    rw [outcome_require]
    exact .of_reading (by rintro e ⟨⟩) _
  | check =>
    rw [outcome_check]
    exact .of_reading (by rintro e ⟨⟩) _
  | write =>
    rw [outcome_write]
    exact .of_reading (by rintro e ⟨⟩) _

theorem outcome_of_error (h : (o.run.outcome s).2 = .error e) : (o.run.outcome s).1 = s := by
  have he := effect s o
  rw [h] at he
  generalize (o.run.outcome s).1 = t at he ⊢
  cases he
  rfl

theorem Valid.outcome (hs : s.Valid) (ho : o.Built) : (o.run.outcome s).1.Valid := by
  have he := effect s o
  generalize (o.run.outcome s).1 = t, hu : Step.mk o (o.run.outcome s).2 = u at he ⊢
  cases he with
  | none => exact hs
  | insert hn =>
    obtain rfl : o = .edit (.insert _) := congrArg Step.operation hu
    exact hs.append (Instruction.Reachable.valid ho) hn
  | load ht => exact valid_of_ofText ht

theorem insert_eq_error_iff :
    s.insert i = .error e ↔ i.name ∈ s.names ∧ e = .duplicateInstruction i.name := by
  by_cases h : i.name ∈ s.names
  · simp [insert_of_mem h, h, eq_comm]
  · simp [insert_of_not_mem h, h]

theorem outcome_insert_eq_error_iff : ((Operation.edit (.insert i)).run.outcome s).2 = .error e ↔
    i.name ∈ s.names ∧ e = .duplicateInstruction i.name := by
  rw [outcome_edit, Outcome.map_eq_error_iff, ← insert_eq_error_iff, perform, InstructionSet.edit]
  cases s.insert i <;> simp

theorem Valid.get?_eq_some_iff (hs : s.Valid) :
    s.get? name = some i ↔ i ∈ s.values ∧ i.name = name := by
  rw [OrderedMap.get?_eq_some_iff hs.nodup, ← hs.map_values]
  simp [eq_comm, and_comm]

theorem require_eq_ok_iff : s.require name = .ok i ↔ s.get? name = some i := by
  rw [require]
  cases s.get? name <;> simp

theorem Valid.require_eq_error_iff (hs : s.Valid) : s.require name = .error e ↔
    (∀ i ∈ s.values, i.name ≠ name) ∧ e = .unknownInstruction name := by
  rw [require]
  cases h : s.get? name with
  | none =>
    have fresh : ∀ i ∈ s.values, i.name ≠ name := by
      rintro i hi rfl
      rw [hs.get?_eq_some_iff.mpr ⟨hi, rfl⟩] at h
      cases h
    rw [and_iff_right fresh, Except.error.injEq]
    exact eq_comm
  | some i =>
    obtain ⟨hi, hn⟩ := hs.get?_eq_some_iff.mp h
    simp only [reduceCtorEq, false_iff, not_and]
    exact fun fresh => absurd hn (fresh i hi)

theorem inserted_concat (steps : List Step) (t : Step) :
    inserted (steps ++ [t]) = inserted steps ++ t.inserted?.toList := by
  rw [inserted, List.filterMap_append, inserted]
  cases h : t.inserted? <;> simp [h]

/-- A step that does not load anything adds at most the instruction that it inserts. -/
theorem Arrived.concat {t : Step} (h : Arrived steps is) (ht : ¬ t.Loads) :
    Arrived (steps ++ [t]) (is ++ t.inserted?.toList) := by
  have later {ts : List Step} (hts : ∀ u ∈ ts, ¬ u.Loads) : ∀ u ∈ ts ++ [t], ¬ u.Loads := by
    exact List.forall_mem_append.mpr ⟨hts, List.forall_mem_singleton.mpr ht⟩
  cases h with
  | inserts hn =>
    rw [← inserted_concat]
    exact .inserts (later hn)
  | load hr hf ha =>
    rw [List.append_assoc, List.append_assoc, ← inserted_concat]
    exact .load hr hf (later ha)

theorem Arrived.perform (h : Arrived steps s.values) (o : Operation) :
    Arrived (steps ++ [⟨o, (o.run.outcome s).2⟩]) (o.run.outcome s).1.values := by
  have he := effect s o
  generalize (o.run.outcome s).1 = t, Step.mk o (o.run.outcome s).2 = u at he ⊢
  cases he with
  | none hi hl => simpa [hi] using h.concat hl
  | @insert i =>
    have hl : ¬ (Step.mk (.edit (.insert i)) (.ok .done)).Loads := by
      rintro ⟨mode, text, reply, ht⟩
      cases ht
    have hv : (s.append i).values = s.values ++ [i] := by simp [append, OrderedMap.values]
    rw [hv]
    exact h.concat hl
  | @load mode text t ht =>
    obtain ⟨records, hr, ht⟩ := Outcome.bind_eq_ok_iff.mp ht
    have last : ∀ u ∈ ([] : List Step), ¬ u.Loads := by simp
    rw [← List.append_nil (OrderedMap.values t)]
    exact .load (Outcome.mapError_eq_ok_iff.mp hr) (forall₂_toInstruction ht) last

theorem Session.result_ofExcept_bind (x : Except Schema.Error α) (f : α → Session β) :
    Session.result (MonadExcept.ofExcept x >>= f) s = x >>= fun a => (f a).result s := by
  cases x <;> rfl

theorem Session.result_andThen (x : Session Unit) (f : Unit → Session β) :
    Session.result (x >>= f) s = x.result s >>= (f ()).result := by
  simp only [result, outcome, EStateM.run_bind]
  cases x.run s <;> rfl

theorem result_insert (s : InstructionSet) (i : Instruction) :
    (assign (.insert i)).result s = s.insert i := by
  rw [Session.result, outcome_assign, perform, InstructionSet.edit]
  cases s.insert i <;> rfl

theorem result_takeIn (s : InstructionSet) (r : Record) :
    (takeIn mode r).result s = add mode s r := by
  rw [takeIn, Session.result_ofExcept_bind, add, convert, Outcome.mapError_bind, bind_assoc]
  refine bind_congr fun i => ?_
  cases mode with
  | lenient => exact result_insert s i
  | strict =>
    rw [if_pos rfl, Session.result_ofExcept_bind, Outcome.mapError_bind, bind_assoc]
    exact bind_congr fun _ => result_insert s i

theorem result_forM_takeIn (records : List Record) (s : InstructionSet) :
    Session.result (records.forM (takeIn mode)) s = records.foldlM (add mode) s := by
  induction records generalizing s with
  | nil => rfl
  | cons r rest ih =>
    rw [List.forM_eq_forM, List.forM_cons, ← List.forM_eq_forM, List.foldlM_cons,
      Session.result_andThen, result_takeIn]
    exact bind_congr ih

/-- Loading two rows of records is loading the first and taking in each record of the
second. -/
theorem ofRecords_append (mode : Mode) (front back : List Record) :
    ofRecords mode (front ++ back) =
      ofRecords mode front >>= Session.result (back.forM (takeIn mode)) := by
  rw [ofRecords, List.foldlM_append]
  exact bind_congr fun t => (result_forM_takeIn back t).symm

namespace History

variable {operations : List Operation} {h : History}

theorem of_induction {motive : History → Prop} (start : motive ⟨OrderedMap.empty, []⟩)
    (step : ∀ h o, o.Built → motive h → motive (h.perform o))
    (built : ∀ o ∈ operations, o.Built) : motive (of operations) := by
  rw [of]
  generalize History.mk OrderedMap.empty [] = h at start ⊢
  induction operations generalizing h with
  | nil => exact start
  | cons o rest ih =>
    rw [List.forall_mem_cons] at built
    exact ih built.2 (h.perform o) (step h o built.1 start)

theorem valid_of (built : ∀ o ∈ operations, o.Built) : (of operations).set.Valid :=
  of_induction (motive := fun h => h.set.Valid) valid_empty
    (fun _ _ ho (hv : Valid _) => hv.outcome ho) built

theorem arrived_of (built : ∀ o ∈ operations, o.Built) :
    Arrived (of operations).steps (of operations).set.values :=
  of_induction (motive := fun h => Arrived h.steps h.set.values) (.inserts (by simp))
    (fun _ o _ ha => ha.perform o) built

theorem map_operation_steps (operations : List Operation) :
    (of operations).steps.map (·.operation) = operations := by
  suffices ∀ h : History, (operations.foldl perform h).steps.map (·.operation) =
      h.steps.map (·.operation) ++ operations from this _
  induction operations with
  | nil => simp
  | cons o rest ih => simp [ih, perform]

/-- Whatever is asked of a set, each of its instructions is accepted and stands under its own
name, no two have one name, and they stand in the order in which the last loading and the
inserts since brought them in. An insert fails when its name is taken, and only then. What
fails changes nothing. A name leads to the one instruction that has it, and to none when
there is none. Loading goes record by record. -/
theorem of_outcome (built : ∀ o ∈ operations, o.Built) :
    let s := (of operations).set
    ((∀ e ∈ s.entries, e.1 = e.2.name ∧ e.2.name ≠ "" ∧ e.2.Valid) ∧
      (s.values.map (·.name)).Nodup) ∧
    ((of operations).steps.map (·.operation) = operations ∧
      Arrived (of operations).steps s.values) ∧
    (∀ e, s.perform e = (assign e).outcome s) ∧
    (∀ i e, ((Operation.edit (.insert i)).run.outcome s).2 = .error e ↔
      i.name ∈ s.values.map (·.name) ∧ e = .duplicateInstruction i.name) ∧
    (∀ (o : Operation) e, (o.run.outcome s).2 = .error e → (o.run.outcome s).1 = s) ∧
    (∀ name i, s.get? name = some i ↔ i ∈ s.values ∧ i.name = name) ∧
    (∀ name i, s.require name = .ok i ↔ s.get? name = some i) ∧
    (∀ name e, s.require name = .error e ↔
      (∀ i ∈ s.values, i.name ≠ name) ∧ e = .unknownInstruction name) ∧
    ∀ mode front back, ofRecords mode (front ++ back) =
      ofRecords mode front >>= Session.result (back.forM (takeIn mode)) := by
  intro s
  have hv : s.Valid := valid_of built
  refine ⟨⟨fun e he => ?_, hv.map_names ▸ hv.nodup⟩,
    ⟨map_operation_steps operations, arrived_of built⟩, fun e => (outcome_assign s e).symm,
    fun i e => ?_, fun o e => outcome_of_error, fun name i => hv.get?_eq_some_iff,
    fun name i => require_eq_ok_iff, fun name e => hv.require_eq_error_iff, ofRecords_append⟩
  · obtain ⟨hn, hi⟩ := hv.entries e he
    exact ⟨hn, hi.name_ne, hi⟩
  · rw [outcome_insert_eq_error_iff, hv.map_names]

/-- A session with a loading that the strict check refuses and an insert of a taken name. -/
theorem of_outcome_sample :
    let text := "[[\"ld\",\"8bit\",null,[[\"rs\",\"2-9\"]]]]"
    let operations : List Operation := [.edit (.insert escaped), .edit (.load .strict text),
      .edit (.load .lenient text), .edit (.insert wide), .find "ld", .edit (.insert escaped)]
    let s := (of operations).set
    (∀ o ∈ operations, o.Built) ∧
      (of operations).steps.map (·.outcome) = [.ok .done,
        .error (.encoding "ld" (.bitOutside "rs" 9 8)), .ok .done,
        .error (.duplicateInstruction "ld"), .ok (.found (some wide)), .ok .done] ∧
      Arrived (of operations).steps [wide, escaped] ∧
      ((Operation.edit (.insert wide)).run.outcome s).1 = s ∧
      s.require "add" = .error (.unknownInstruction "add") := by
  intro text operations s
  have built : ∀ o ∈ operations, o.Built := by
    simp [operations, Operation.Built, Edit.Built, reachable_escaped, reachable_wide]
  have values : s.values = [wide, escaped] := by decide +kernel
  obtain ⟨-, ⟨-, arrived⟩, -, inserts, failures, -, -, missing, -⟩ := of_outcome built
  rw [values] at arrived inserts missing
  have taken := (inserts wide (.duplicateInstruction "ld")).mpr ⟨by decide, rfl⟩
  exact ⟨built, by decide +kernel, arrived, failures _ _ taken,
    (missing "add" _).mpr ⟨by decide, rfl⟩⟩

end History

end InstructionSet

end BitLayout
