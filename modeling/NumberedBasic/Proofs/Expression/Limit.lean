import NumberedBasic.Proofs.Expression.Stacks
import NumberedBasic.Proofs.Expression.Symbol

/-!
# The depth limit

Reading under a limit is reading without one, as long as the result stays within the limit. No operand
is ever deeper than one built from it, so a run that ends within the limit was within it all along; and
the depth that an operand carries is the depth of its tree. A run that is not within it ends with a
fault that no other run has.
-/

namespace NumberedBasic

namespace Expression

namespace Parser

variable {limit : Nat} {applies : Operator → Bool} {op : Operator} {e : Expression}
  {waiting : List Waiting} {operands : List Operand} {state after : Stacks}

def Bounded (limit : Nat) (operands : List Operand) : Prop :=
  ∀ operand ∈ operands, operand.depth ≤ limit

@[simp] theorem bounded_nil : Bounded limit [] := by simp [Bounded]

@[simp] theorem bounded_cons {operand : Operand} :
    Bounded limit (operand :: operands) ↔ operand.depth ≤ limit ∧ Bounded limit operands := by
  simp [Bounded]

/-! ### Limited and unlimited runs -/

theorem combine_some_iff {combined : List Operand} :
    (combine (some limit) op operands = .ok combined ∧ Bounded limit operands) ↔
      (combine none op operands = .ok combined ∧ Bounded limit combined) := by
  rw [combine_ok_iff, combine_ok_iff]
  constructor
  · rintro ⟨⟨lhs, rhs, rest, rfl, hexceeds, rfl⟩, hbounded⟩
    simp only [exceeds, decide_eq_false_iff_not, Nat.not_lt] at hexceeds
    simp only [bounded_cons] at hbounded ⊢
    exact ⟨⟨lhs, rhs, rest, rfl, rfl, rfl⟩, hexceeds, hbounded.2.2⟩
  · rintro ⟨⟨lhs, rhs, rest, rfl, -, rfl⟩, hbounded⟩
    simp only [bounded_cons] at hbounded ⊢
    refine ⟨⟨lhs, rhs, rest, rfl, ?_, rfl⟩, ?_, ?_, hbounded.2⟩
    · simpa [exceeds] using hbounded.1
    · omega
    · omega

theorem reduce_some_iff :
    (reduce (some limit) applies waiting operands = .ok after ∧ Bounded limit operands) ↔
      (reduce none applies waiting operands = .ok after ∧ Bounded limit after.operands) := by
  induction waiting generalizing operands with
  | nil =>
      simp only [reduce, Except.ok.injEq]
      constructor <;> rintro ⟨rfl, h⟩ <;> exact ⟨rfl, h⟩
  | cons top rest ih =>
      cases top with
      | opening =>
          simp only [reduce, Except.ok.injEq]
          constructor <;> rintro ⟨rfl, h⟩ <;> exact ⟨rfl, h⟩
      | operator op =>
          rcases Bool.eq_false_or_eq_true (applies op) with happlies | happlies
          · rw [reduce_ok_iff_of_applies happlies, reduce_ok_iff_of_applies happlies]
            constructor
            · rintro ⟨⟨combined, hcombine, hrest⟩, hbounded⟩
              obtain ⟨hnone, hcombined⟩ := combine_some_iff.mp ⟨hcombine, hbounded⟩
              obtain ⟨hrest, hafter⟩ := ih.mp ⟨hrest, hcombined⟩
              exact ⟨⟨combined, hnone, hrest⟩, hafter⟩
            · rintro ⟨⟨combined, hcombine, hrest⟩, hafter⟩
              obtain ⟨hrest, hcombined⟩ := ih.mpr ⟨hrest, hafter⟩
              obtain ⟨hsome, hbounded⟩ := combine_some_iff.mpr ⟨hcombine, hcombined⟩
              exact ⟨⟨combined, hsome, hrest⟩, hbounded⟩
          · have hstops : ∀ op', (Waiting.operator op :: rest).head? = some (.operator op') →
                applies op' = false := by simpa using happlies
            simp only [reduce_of_stops hstops, Except.ok.injEq]
            constructor <;> rintro ⟨rfl, h⟩ <;> exact ⟨rfl, h⟩

theorem push_some_iff (hlimit : 1 ≤ limit) {symbol : Symbol} :
    (push (some limit) state symbol = .ok after ∧ Bounded limit state.operands) ↔
      (push none state symbol = .ok after ∧ Bounded limit after.operands) := by
  cases symbol with
  | leaf e =>
      simp only [push, Except.ok.injEq]
      constructor
      · rintro ⟨rfl, h⟩
        exact ⟨rfl, bounded_cons.mpr ⟨hlimit, h⟩⟩
      · rintro ⟨rfl, h⟩
        exact ⟨rfl, (bounded_cons.mp h).2⟩
  | operator op =>
      rw [push_operator_ok_iff, push_operator_ok_iff]
      constructor
      · rintro ⟨⟨reduced, hreduce, rfl⟩, h⟩
        obtain ⟨hreduce, h⟩ := reduce_some_iff.mp ⟨hreduce, h⟩
        exact ⟨⟨reduced, hreduce, rfl⟩, h⟩
      · rintro ⟨⟨reduced, hreduce, rfl⟩, h⟩
        obtain ⟨hreduce, h⟩ := reduce_some_iff.mpr ⟨hreduce, h⟩
        exact ⟨⟨reduced, hreduce, rfl⟩, h⟩
  | opening =>
      simp only [push, Except.ok.injEq]
      constructor <;> rintro ⟨rfl, h⟩ <;> exact ⟨rfl, h⟩
  | closing =>
      rw [push_closing_ok_iff, push_closing_ok_iff]
      exact reduce_some_iff

theorem pushAll_some_iff (hlimit : 1 ≤ limit) {tokens : List Token} :
    (pushAll (some limit) state tokens = .ok after ∧ Bounded limit state.operands) ↔
      (pushAll none state tokens = .ok after ∧ Bounded limit after.operands) := by
  induction tokens generalizing state with
  | nil =>
      simp only [pushAll, Except.ok.injEq]
      constructor <;> rintro ⟨rfl, h⟩ <;> exact ⟨rfl, h⟩
  | cons token rest ih =>
      rw [pushAll_cons_ok_iff, pushAll_cons_ok_iff]
      constructor
      · rintro ⟨⟨symbol, pushed, hsymbol, hpush, hrest⟩, h⟩
        obtain ⟨hpush, hpushed⟩ := (push_some_iff hlimit).mp ⟨hpush, h⟩
        obtain ⟨hrest, hafter⟩ := ih.mp ⟨hrest, hpushed⟩
        exact ⟨⟨symbol, pushed, hsymbol, hpush, hrest⟩, hafter⟩
      · rintro ⟨⟨symbol, pushed, hsymbol, hpush, hrest⟩, hafter⟩
        obtain ⟨hrest, hpushed⟩ := ih.mpr ⟨hrest, hafter⟩
        obtain ⟨hpush, h⟩ := (push_some_iff hlimit).mpr ⟨hpush, hpushed⟩
        exact ⟨⟨symbol, pushed, hsymbol, hpush, hrest⟩, h⟩

/-! ### The depth an operand carries -/

/-- Every operand carries the depth of its tree. -/
def Measured (operands : List Operand) : Prop :=
  ∀ operand ∈ operands, operand.depth = operand.expression.depth

theorem measured_nil : Measured [] := by simp [Measured]

theorem Measured.combine {limit : Option Nat} {combined : List Operand} (h : Measured operands)
    (hcombine : Parser.combine limit op operands = .ok combined) : Measured combined := by
  obtain ⟨lhs, rhs, rest, rfl, -, rfl⟩ := combine_ok_iff.mp hcombine
  simp only [Measured, List.forall_mem_cons] at h ⊢
  obtain ⟨hrhs, hlhs, hrest⟩ := h
  exact ⟨by rw [Expression.depth, hlhs, hrhs], hrest⟩

theorem Measured.reduce {limit : Option Nat} (h : Measured operands)
    (hreduce : Parser.reduce limit applies waiting operands = .ok after) :
    Measured after.operands := by
  apply @invariant_of_reduce _ _ _ _ _ (Measured ·.operands) _ hreduce h
  intro op waiting before combined happly hbefore
  exact Measured.combine hbefore happly

theorem Measured.push {limit : Option Nat} {token : Token} {symbol : Symbol}
    (h : Measured state.operands) (hsymbol : Symbol.ofToken token = .ok symbol)
    (hpush : Parser.push limit state symbol = .ok after) : Measured after.operands := by
  rcases Symbol.ofToken_cases hsymbol with
    ⟨-, -, e, rfl, hdepth⟩ | ⟨op, -, rfl⟩ | ⟨-, rfl⟩ | ⟨-, rfl⟩
  · cases hpush
    exact List.forall_mem_cons.mpr ⟨hdepth.symm, h⟩
  · obtain ⟨reduced, hreduce, rfl⟩ := push_operator_ok_iff.mp hpush
    have hreduced : Measured reduced.operands := h.reduce hreduce
    exact hreduced
  · cases hpush
    exact h
  · have hreduced := h.reduce (push_closing_ok_iff.mp hpush)
    exact hreduced

theorem Measured.pushAll {limit : Option Nat} {tokens : List Token} (h : Measured state.operands)
    (hpush : Parser.pushAll limit state tokens = .ok after) : Measured after.operands := by
  apply @invariant_of_pushAll _ _ _ (fun _ state => Measured state.operands) [] tokens _ hpush h
  intro _ token symbol before pushed hsymbol hpushed hbefore
  exact Measured.push hbefore hsymbol hpushed

/-! ### The whole reading -/

theorem conclude_some_iff (h : Measured state.operands) :
    (conclude (some limit) state = .ok e ∧ Bounded limit state.operands) ↔
      (conclude none state = .ok e ∧ e.depth ≤ limit) := by
  have hdepth : ∀ depth, reduce none (fun _ => true) state.waiting state.operands =
      .ok ⟨[], [⟨e, depth⟩]⟩ → depth = e.depth := fun depth hreduce =>
    h.reduce hreduce ⟨e, depth⟩ List.mem_cons_self
  rw [conclude_ok_iff, conclude_ok_iff]
  constructor
  · rintro ⟨⟨depth, hreduce⟩, hbounded⟩
    obtain ⟨hreduce, hresult⟩ := reduce_some_iff.mp ⟨hreduce, hbounded⟩
    rw [← hdepth depth hreduce]
    exact ⟨⟨depth, hreduce⟩, (bounded_cons.mp hresult).1⟩
  · rintro ⟨⟨depth, hreduce⟩, hresult⟩
    rw [← hdepth depth hreduce] at hresult
    obtain ⟨hreduce, hbounded⟩ := reduce_some_iff.mpr
      ⟨hreduce, bounded_cons.mpr ⟨hresult, bounded_nil⟩⟩
    exact ⟨⟨depth, hreduce⟩, hbounded⟩

end Parser

/-- A limit refuses exactly the trees that are deeper, and changes no other. -/
theorem parseWithin_some_iff {limit : Nat} (hlimit : 1 ≤ limit) {tokens : List Token}
    {e : Expression} :
    parseWithin (some limit) tokens = .ok e ↔
      parseWithin none tokens = .ok e ∧ e.depth ≤ limit := by
  rw [Parser.parseWithin_ok_iff, Parser.parseWithin_ok_iff, and_assoc]
  refine and_congr_right fun _ => ⟨?_, ?_⟩
  · rintro ⟨state, hpush, hconclude⟩
    obtain ⟨hpush, hbounded⟩ := (Parser.pushAll_some_iff hlimit).mp ⟨hpush, Parser.bounded_nil⟩
    have hmeasured := Parser.Measured.pushAll Parser.measured_nil hpush
    obtain ⟨hconclude, hdepth⟩ := (Parser.conclude_some_iff hmeasured).mp ⟨hconclude, hbounded⟩
    exact ⟨⟨state, hpush, hconclude⟩, hdepth⟩
  · rintro ⟨⟨state, hpush, hconclude⟩, hdepth⟩
    have hmeasured := Parser.Measured.pushAll Parser.measured_nil hpush
    obtain ⟨hconclude, hbounded⟩ :=
      (Parser.conclude_some_iff hmeasured).mpr ⟨hconclude, hdepth⟩
    obtain ⟨hpush, -⟩ := (Parser.pushAll_some_iff hlimit).mpr ⟨hpush, hbounded⟩
    exact ⟨state, hpush, hconclude⟩

/-! ### The fault of the limit -/

/-- The result under a limit is the result without one, unless the limit was exceeded on the way. -/
def Curtails {α : Type} (limited full : Except Fault α) : Prop :=
  limited = full ∨ limited = .error .tooComplex

theorem Curtails.refl {α : Type} (result : Except Fault α) : Curtails result result := .inl rfl

namespace Parser

variable {applies : Operator → Bool} {op : Operator} {waiting : List Waiting}
  {operands : List Operand} {state : Stacks}

theorem curtails_combine (limit : Nat) :
    Curtails (combine (some limit) op operands) (combine none op operands) := by
  match operands with
  | [] | [_] => exact .refl _
  | rhs :: lhs :: rest =>
      simp only [combine]
      split
      · exact .inr rfl
      · exact .refl _

theorem curtails_reduce (limit : Nat) :
    Curtails (reduce (some limit) applies waiting operands)
      (reduce none applies waiting operands) := by
  induction waiting generalizing operands with
  | nil => exact .refl _
  | cons top rest ih =>
      cases top with
      | opening => exact .refl _
      | operator op =>
          rw [reduce, reduce]
          split
          · rcases curtails_combine limit with hcombine | hcombine
            · rw [hcombine]
              cases combine none op operands with
              | error fault => exact .refl _
              | ok combined => exact ih
            · rw [hcombine]
              exact .inr rfl
          · exact .refl _

theorem curtails_push (limit : Nat) (symbol : Symbol) :
    Curtails (push (some limit) state symbol) (push none state symbol) := by
  cases symbol with
  | leaf e => exact .refl _
  | opening => exact .refl _
  | operator _ | closing =>
      simp only [push]
      rcases curtails_reduce limit with hreduce | hreduce
      · rw [hreduce]
        exact .refl _
      · rw [hreduce]
        exact .inr rfl

theorem curtails_pushAll (limit : Nat) (tokens : List Token) :
    Curtails (pushAll (some limit) state tokens) (pushAll none state tokens) := by
  induction tokens generalizing state with
  | nil => exact .refl _
  | cons token rest ih =>
      rw [pushAll, pushAll]
      cases Symbol.ofToken token with
      | error fault => exact .refl _
      | ok symbol =>
          dsimp only
          rcases curtails_push limit symbol with hpush | hpush
          · rw [hpush]
            cases push none state symbol with
            | error fault => exact .refl _
            | ok pushed => exact ih
          · rw [hpush]
            exact .inr rfl

theorem curtails_conclude (limit : Nat) :
    Curtails (conclude (some limit) state) (conclude none state) := by
  rw [conclude, conclude]
  rcases curtails_reduce limit with hreduce | hreduce
  · rw [hreduce]
    exact .refl _
  · rw [hreduce]
    exact .inr rfl

end Parser

theorem curtails_parseWithin (limit : Nat) (tokens : List Token) :
    Curtails (parseWithin (some limit) tokens) (parseWithin none tokens) := by
  rw [parseWithin, parseWithin]
  split
  · exact .refl _
  · rcases Parser.curtails_pushAll limit (Parser.supplyZeros true tokens) with hpush | hpush
    · rw [hpush]
      cases Parser.pushAll none {} (Parser.supplyZeros true tokens) with
      | error fault => exact .refl _
      | ok state => exact Parser.curtails_conclude limit
    · rw [hpush]
      exact .inr rfl

/-- What is read under the limit is what is read without it as long as the tree is not too deep, and
the limit causes no refusal but its own. -/
theorem parse_eq_ok_iff_depth_le (tokens : List Token) :
    (∀ e, parse tokens = .ok e ↔ parseWithin none tokens = .ok e ∧ e.depth ≤ depthLimit) ∧
      (parse tokens = parseWithin none tokens ∨ parse tokens = .error .tooComplex) := by
  constructor
  · intro e
    exact parseWithin_some_iff (by decide)
  · exact curtails_parseWithin depthLimit tokens

end Expression

end NumberedBasic
