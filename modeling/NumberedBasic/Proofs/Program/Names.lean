import NumberedBasic.Program.Run
import NumberedBasic.Proofs.Program.Effect

/-!
# Only named variables matter

What a run does depends on no variable but those that its program names, and it gives a value to no
other. Two programs that differ in the rest therefore take the same steps, with the same results and
the same faults.
-/

namespace NumberedBasic

theorem Bindings.AgreesOn.store {names : List String} {bindings other : Bindings}
    (h : AgreesOn names bindings other) (name : String) (value : Value) :
    AgreesOn names (bindings.store name value) (other.store name value) := by
  intro key hkey
  rw [fetch?_store, fetch?_store, h key hkey]

theorem Listing.names_subset {listing : Listing} {line : LineNumber} {statement : Statement}
    (h : listing.get? line = some statement) : statement.names ⊆ listing.names :=
  fun _ hname => List.mem_flatMap.mpr ⟨(line, statement), mem_of_get? h, hname⟩

theorem Statement.exists_assign_of_effect {statement : Statement} {bindings : Bindings}
    {name : String} {value : Value} {printed : Option Value}
    (h : statement.effect bindings = .passes (some (name, value)) printed) :
    ∃ e, statement = .assign name e := by
  cases statement with
  | assign key e =>
      rw [effect] at h
      split at h
      next =>
        cases h
        exact ⟨e, rfl⟩
      next => cases h
  | print e =>
      rw [effect] at h
      split at h <;> cases h
  | branch lhs comparator rhs target =>
      rw [effect] at h
      split at h
      next => cases h
      next =>
        split at h
        next => cases h
        next => split at h <;> cases h
  | remark _ | input _ | goto _ | finish => cases h

namespace Program

variable {program other : Program} {line : LineNumber} {name : String}

/-! ### Programs that are alike -/

/-- The same result, with programs that are alike afterwards. -/
structure ReplyAlike {α : Type} (reply twin : Reply α) : Prop where
  result : reply.1 = twin.1
  program : reply.2.Alike twin.2

theorem Alike.store (h : program.Alike other) (name : String) (value : Value) :
    (program.store name value).Alike (other.store name value) :=
  ⟨h.listing, h.pc, h.bindings.store name value⟩

theorem Alike.moved (h : program.Alike other) (pc : Option LineNumber) :
    Alike { program with pc } { other with pc } :=
  ⟨h.listing, rfl, h.bindings⟩

theorem Alike.rewind (h : program.Alike other) : program.rewind.Alike other.rewind := by
  have hfirst : program.listing.first? = other.listing.first? := congrArg Listing.first? h.listing
  exact ⟨h.listing, hfirst, h.bindings⟩

theorem replyAlike_advance (h : program.Alike other) (line : LineNumber) (printed : Option Value) :
    ReplyAlike (program.advance line printed) (other.advance line printed) := by
  have hlast : program.listing.last? = other.listing.last? := congrArg Listing.last? h.listing
  have hafter : program.listing.after? line = other.listing.after? line := by rw [h.listing]
  rw [advance, advance, hlast, hafter]
  split
  next => exact ⟨rfl, h.rewind⟩
  next => exact ⟨rfl, h.moved _⟩

theorem replyAlike_jump (h : program.Alike other) (target : LineNumber) :
    ReplyAlike (program.jump target) (other.jump target) := by
  have hresolve : program.listing.resolve target = other.listing.resolve target := by rw [h.listing]
  rw [jump, jump, hresolve]
  cases other.listing.resolve target with
  | ok line => exact ⟨rfl, h.moved _⟩
  | error fault => exact ⟨rfl, h⟩

theorem replyAlike_perform (h : program.Alike other) (line : LineNumber) (effect : Effect) :
    ReplyAlike (program.perform line effect) (other.perform line effect) := by
  cases effect with
  | passes assigned printed =>
      apply replyAlike_advance
      cases assigned with
      | none => exact h
      | some entry => exact h.store entry.1 entry.2
  | jumps target => exact replyAlike_jump h target
  | finishes => exact ⟨rfl, h.rewind⟩
  | awaits name => exact ⟨rfl, h⟩
  | fails fault => exact ⟨rfl, h⟩

theorem replyAlike_executeLine (h : program.Alike other) (line : LineNumber) (skip : Bool) :
    ReplyAlike (program.executeLine line skip) (other.executeLine line skip) := by
  cases skip with
  | true => exact replyAlike_advance h line none
  | false =>
      have hget : other.listing.get? line = program.listing.get? line := by rw [h.listing]
      unfold executeLine
      rw [hget]
      cases hstored : program.listing.get? line with
      | none => exact ⟨rfl, h⟩
      | some statement =>
          have hnames : Bindings.AgreesOn statement.names program.bindings other.bindings :=
            fun name hname => h.bindings name (Listing.names_subset hstored hname)
          have heffect := Statement.effect_congr hnames
          change ReplyAlike (program.carryOut line statement) (other.carryOut line statement)
          rw [carryOut_eq_perform, carryOut_eq_perform, heffect]
          exact replyAlike_perform h line _

theorem replyAlike_step (h : program.Alike other) (skip : Bool) :
    ReplyAlike (program.step skip) (other.step skip) := by
  rw [step, step, ← h.pc]
  cases program.pc with
  | none => exact ⟨rfl, h⟩
  | some line =>
      obtain ⟨hresult, hprogram⟩ := replyAlike_executeLine h line skip
      exact ⟨congrArg (Except.mapError _) hresult, hprogram⟩

theorem replyAlike_reply (h : program.Alike other) {call : Call} (hcall : call.isOfRun) :
    ReplyAlike (program.reply call) (other.reply call) := by
  cases call with
  | step skip =>
      obtain ⟨hresult, hprogram⟩ := replyAlike_step h skip
      exact ⟨congrArg (Except.map some) hresult, hprogram⟩
  | store name value => exact ⟨rfl, h.store name value⟩
  | insert _ _ | load _ | carryOutDirectly _ | rewind => cases hcall

theorem replyAlike_replies (h : program.Alike other) {calls : List Call}
    (hcalls : ∀ call ∈ calls, call.isOfRun) :
    (program.replies calls).1 = (other.replies calls).1 ∧
      (program.replies calls).2.Alike (other.replies calls).2 := by
  induction calls generalizing program other with
  | nil => exact ⟨rfl, h⟩
  | cons call rest ih =>
      obtain ⟨hcall, hrest⟩ := List.forall_mem_cons.mp hcalls
      obtain ⟨hresult, hprogram⟩ := replyAlike_reply h hcall
      obtain ⟨hresults, hafter⟩ := ih hprogram hrest
      rw [replies, replies]
      exact ⟨List.cons_eq_cons.mpr ⟨hresult, hresults⟩, hafter⟩

/-! ### Variables that change -/

theorem advance_bindings (program : Program) (line : LineNumber) (printed : Option Value) :
    (program.advance line printed).2.bindings = program.bindings := by
  unfold advance
  split <;> rfl

theorem jump_bindings (program : Program) (target : LineNumber) :
    (program.jump target).2.bindings = program.bindings := by
  unfold jump
  split <;> rfl

theorem eq_of_store_changes {key : String} {value : Value}
    (h : (program.store key value).bindings.fetch? name ≠ program.bindings.fetch? name) :
    name = key := by
  rw [store, Bindings.fetch?_store] at h
  split at h
  next heq => exact heq
  next => exact absurd rfl h

theorem exists_assign_of_carryOut {statement : Statement}
    (h : (program.carryOut line statement).2.bindings.fetch? name ≠ program.bindings.fetch? name) :
    ∃ e, statement = .assign name e := by
  rw [carryOut_eq_perform] at h
  cases heffect : statement.effect program.bindings with
  | passes assigned printed =>
      rw [heffect, perform, advance_bindings] at h
      cases assigned with
      | none => exact absurd rfl h
      | some entry =>
          obtain rfl := eq_of_store_changes h
          exact Statement.exists_assign_of_effect heffect
  | jumps target =>
      rw [heffect, perform, jump_bindings] at h
      exact absurd rfl h
  | finishes | awaits _ | fails _ =>
      rw [heffect] at h
      exact absurd rfl h

/-- A step gives a value to no variable but the one that its line assigns. -/
theorem assigns_of_step {skip : Bool}
    (h : (program.step skip).2.bindings.fetch? name ≠ program.bindings.fetch? name) :
    skip = false ∧ program.Assigns name := by
  cases hpc : program.pc with
  | none =>
      rw [step, hpc] at h
      exact absurd rfl h
  | some line =>
      rw [step, hpc] at h
      cases skip with
      | true =>
          refine absurd ?_ h
          change (program.advance line none).2.bindings.fetch? name = _
          rw [advance_bindings]
      | false =>
          simp only [executeLine, Bool.false_eq_true, if_false] at h
          cases hstored : program.listing.get? line with
          | none =>
              rw [hstored] at h
              exact absurd rfl h
          | some statement =>
              rw [hstored] at h
              obtain ⟨e, rfl⟩ := exists_assign_of_carryOut h
              exact ⟨rfl, line, e, hpc, hstored⟩

theorem Assigns.mem_names (h : program.Assigns name) : name ∈ program.listing.names := by
  obtain ⟨line, e, -, hstored⟩ := h
  exact Listing.names_subset hstored List.mem_cons_self

theorem mem_names_of_reply {call : Call} (hcall : call.isOfRun)
    (h : (program.reply call).2.bindings.fetch? name ≠ program.bindings.fetch? name) :
    name ∈ program.listing.names ∨ ∃ value, call = .store name value := by
  cases call with
  | step skip => exact .inl (assigns_of_step h).2.mem_names
  | store key value =>
      obtain rfl := eq_of_store_changes h
      exact .inr ⟨value, rfl⟩
  | insert _ _ | load _ | carryOutDirectly _ | rewind => cases hcall

theorem replies_listing {calls : List Call} (hcalls : ∀ call ∈ calls, call.isOfRun) :
    (program.replies calls).2.listing = program.listing := by
  induction calls generalizing program with
  | nil => rfl
  | cons call rest ih =>
      obtain ⟨hcall, hrest⟩ := List.forall_mem_cons.mp hcalls
      rw [replies]
      exact (ih hrest).trans (reply_listing hcall)

theorem mem_names_of_replies {calls : List Call} (hcalls : ∀ call ∈ calls, call.isOfRun)
    (h : (program.replies calls).2.bindings.fetch? name ≠ program.bindings.fetch? name) :
    name ∈ program.listing.names ∨ ∃ value, .store name value ∈ calls := by
  induction calls generalizing program with
  | nil => exact absurd rfl h
  | cons call rest ih =>
      obtain ⟨hcall, hrest⟩ := List.forall_mem_cons.mp hcalls
      by_cases hfirst :
          (program.reply call).2.bindings.fetch? name = program.bindings.fetch? name
      · rw [← hfirst] at h
        rcases ih hrest h with hname | ⟨value, hmem⟩
        · rw [reply_listing hcall] at hname
          exact .inl hname
        · exact .inr ⟨value, List.mem_cons_of_mem call hmem⟩
      · rcases mem_names_of_reply hcall hfirst with hname | ⟨value, rfl⟩
        · exact .inl hname
        · exact .inr ⟨value, List.mem_cons_self⟩

/-! ### Runs -/

/-- Whatever other variables there are, a run gives the same results and the same faults and keeps the
programs alike. Variables change only if the program names them or a call gives them a value, and what
a step changes is what its line assigns. -/
theorem run_confined_to_names (h : program.Alike other) {calls : List Call}
    (hcalls : ∀ call ∈ calls, call.isOfRun) :
    let after := (program.replies calls).2
    (program.replies calls).1 = (other.replies calls).1 ∧
      after.Alike (other.replies calls).2 ∧
      after.listing = program.listing ∧
      (∀ name, after.bindings.fetch? name ≠ program.bindings.fetch? name →
        name ∈ program.listing.names ∨ ∃ value, .store name value ∈ calls) ∧
      ∀ skip, (after.step skip).2.listing = after.listing ∧
        ∀ name, (after.step skip).2.bindings.fetch? name ≠ after.bindings.fetch? name →
          skip = false ∧ after.Assigns name := by
  intro after
  obtain ⟨hresults, hafter⟩ := replyAlike_replies h hcalls
  refine ⟨hresults, hafter, replies_listing hcalls, ?_, ?_⟩
  · intro name hname
    exact mem_names_of_replies hcalls hname
  · intro skip
    exact ⟨step_listing after skip, fun name hname => assigns_of_step hname⟩

/-- A loop that squares what it is told and ends in a division by zero, once after a program that used
`Z` and once after one that used `Q`. -/
theorem run_confined_to_names_leftovers :
    let lines : List Call := [.insert 10 (some (.input "A")),
      .insert 20 (some (.assign "B" (.compound .multiply (.var "A") (.var "A")))),
      .insert 30 (some (.branch (.var "B") .greater (.var "C") 10)),
      .insert 40 (some (.print (.compound .divide (.var "B")
        (.compound .subtract (.var "A") (.constant 3)))))]
    let program := (replies {} (lines ++ [.store "Z" 9, .store "C" 20])).2
    let other := (replies {} (lines.reverse ++ [.store "C" 20, .store "Q" (-1)])).2
    let calls : List Call := [.step false, .store "A" 5, .step true, .step false, .step false,
      .step false, .store "A" 3, .step true, .step false, .step false]
    program.Reachable ∧ other.Reachable ∧ program.bindings ≠ other.bindings ∧
      program.Alike other ∧ (∀ call ∈ calls, call.isOfRun) ∧
      (program.replies calls).1 = (other.replies calls).1 ∧
      (other.replies calls).2.pc = some 40 ∧
      (other.replies calls).2.bindings.fetch? "B" = some 9 ∧
      (program.replies calls).2.bindings.fetch? "Z" = some 9 ∧
      (other.replies calls).2.bindings.fetch? "Z" = none ∧
      Notice.ofStep ((other.replies calls).2.step false).1 =
        [.failed (Fault.divisionByZero.inLine (some 40))] := by
  intro lines program other calls
  have hprogram : program.Reachable := Reachable.initial.replies _
  have hother : other.Reachable := Reachable.initial.replies _
  have hdiffer : program.bindings ≠ other.bindings := by decide +kernel
  have hlisting : program.listing = other.listing := by decide +kernel
  have hpc : program.pc = other.pc := by decide +kernel
  have hvalues : ∀ name ∈ program.listing.names,
      program.bindings.fetch? name = other.bindings.fetch? name := by decide +kernel
  have hcalls : ∀ call ∈ calls, call.isOfRun := by decide
  have hrun := run_confined_to_names ⟨hlisting, hpc, hvalues⟩ hcalls
  have hafterPc : (other.replies calls).2.pc = some 40 := by decide +kernel
  have hsquare : (other.replies calls).2.bindings.fetch? "B" = some 9 := by decide +kernel
  have hleft : (program.replies calls).2.bindings.fetch? "Z" = some 9 := by decide +kernel
  have hnone : (other.replies calls).2.bindings.fetch? "Z" = none := by decide +kernel
  have hfails : Notice.ofStep ((other.replies calls).2.step false).1 =
      [.failed (Fault.divisionByZero.inLine (some 40))] := by decide +kernel
  exact ⟨hprogram, hother, hdiffer, ⟨hlisting, hpc, hvalues⟩, hcalls, hrun.1, hafterPc, hsquare, hleft,
    hnone, hfails⟩

end Program

end NumberedBasic
