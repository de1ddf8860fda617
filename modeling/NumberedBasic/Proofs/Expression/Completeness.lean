import NumberedBasic.Proofs.Expression.Alternation
import NumberedBasic.Proofs.Expression.Limit

/-!
# Completeness

Every sentence is read as its own tree, or refused because a number is no value or because the tree is
too deep. While a part of a sentence is read, the stacks below it stay as they are; what is on top of
them afterwards comes down to the operand that the part stands for, as soon as the operators that bind
at least as tightly as the part are applied.
-/

namespace NumberedBasic

namespace Expression

/-! ### Forms and their readings -/

theorem Form.read?_compound {op : Operator} {lhs rhs : Form} {e : Expression} :
    (Form.compound op lhs rhs).read? = some e ↔
      ∃ left right, lhs.read? = some left ∧ rhs.read? = some right ∧
        e = .compound op left right := by
  simp only [Form.read?]
  cases lhs.read? <;> cases rhs.read? <;> simp [eq_comm]

theorem Form.depth_of_read? {form : Form} {e : Expression} (h : form.read? = some e) :
    e.depth = form.depth := by
  induction form generalizing e with
  | zero =>
      cases h
      rfl
  | leaf token =>
      unfold Form.read? at h
      split at h
      · cases h
        rfl
      · obtain ⟨value, -, rfl⟩ := Option.map_eq_some_iff.mp h
        rfl
  | compound op lhs rhs ihl ihr =>
      obtain ⟨left, right, hl, hr, rfl⟩ := Form.read?_compound.mp h
      rw [Expression.depth, Form.depth, ihl hl, ihr hr]

namespace Parser

variable {before between after : Stacks} {atStart : Bool} {e lhs rhs : Expression} {op : Operator}
  {level : Nat}

/-- The stacks with a finished operand on top. -/
def Stacks.add (state : Stacks) (e : Expression) : Stacks :=
  { state with operands := ⟨e, e.depth⟩ :: state.operands }

/-- The stacks with one more operator that waits. -/
def Stacks.wait (state : Stacks) (op : Operator) : Stacks :=
  { state with waiting := .operator op :: state.waiting }

/-- Reading `tokens` leads from one state to another, whatever comes after them. -/
def Reads (atStart : Bool) (tokens : List Token) (before after : Stacks) : Prop :=
  ∀ rest, pushAll none before (supplyZeros atStart (tokens ++ rest)) =
    pushAll none after (supplyZeros false rest)

/-- Nothing on top binds at least as tightly as `level`. -/
def Below (level : Nat) (waiting : List Waiting) : Prop :=
  ∀ op, waiting.head? = some (.operator op) → op.precedence < level

/-- As soon as all operators of at least `level` are applied, `after` is `before` with `e` on top. -/
def Yields (level : Nat) (before : Stacks) (e : Expression) (after : Stacks) : Prop :=
  ∀ applies : Operator → Bool, (∀ op, level ≤ op.precedence → applies op) →
    reduce none applies after.waiting after.operands =
      reduce none applies before.waiting (before.add e).operands

theorem Reads.trans {left right : List Token} (hleft : Reads atStart left before between)
    (hright : Reads false right between after) : Reads atStart (left ++ right) before after := by
  intro rest
  rw [List.append_assoc, hleft, hright]

theorem Yields.add (level : Nat) (before : Stacks) (e : Expression) :
    Yields level before e (before.add e) := fun _ _ => rfl

theorem Yields.mono {low high : Nat} (h : Yields high before e after) (hle : low ≤ high) :
    Yields low before e after :=
  fun applies happlies => h applies fun op hop => happlies op (Nat.le_trans hle hop)

/-- An operator that waits is applied to the operands on its two sides. -/
theorem Yields.join {high : Nat} (h : Yields high ((before.add lhs).wait op) rhs after)
    (hop : level ≤ op.precedence) (hle : level ≤ high) :
    Yields level before (compound op lhs rhs) after := by
  intro applies happlies
  have hafter := h.mono hle applies happlies
  rw [hafter]
  change reduce none applies (.operator op :: before.waiting) _ = _
  rw [reduce, if_pos (happlies op hop)]
  rfl

/-! ### One token -/

theorem Reads.leaf {token : Token} (hleaf : IsLeaf token)
    (hread : (Form.leaf token).read? = some e) (atStart : Bool) (before : Stacks) :
    Reads atStart [token] before (before.add e) := by
  intro rest
  have hsymbol := Symbol.ofToken_leaf hleaf hread
  have hdepth : e.depth = 1 := Form.depth_of_read? hread
  simp [supplyZeros, hleaf.isSign, hleaf.isOpening, pushAll, hsymbol, push, Stacks.add, hdepth]

theorem pushAll_opening (atStart : Bool) (before : Stacks) (rest : List Token) :
    pushAll none before (supplyZeros atStart (⟨"("⟩ :: rest)) =
      pushAll none { before with waiting := .opening :: before.waiting }
        (supplyZeros true rest) := by
  have hsign : isSign ⟨"("⟩ = false := rfl
  have hopening : Token.isOpening ⟨"("⟩ = true := rfl
  simp [supplyZeros, hsign, hopening, pushAll, Symbol.ofToken_opening, push]

theorem Reads.closing (hpush : push none between .closing = .ok after) :
    Reads false [⟨")"⟩] between after := by
  intro rest
  have hopening : Token.isOpening ⟨")"⟩ = false := rfl
  simp [supplyZeros, hopening, pushAll, Symbol.ofToken_closing, hpush]

theorem Reads.operator (hpush : push none between (.operator op) = .ok after) :
    Reads false [op.token] between after := by
  intro rest
  simp [supplyZeros, pushAll, Symbol.ofToken_operator, hpush]

theorem Reads.signed {first : Token} {tokens : List Token} (hop : op = .add ∨ op = .subtract)
    (hleaf : IsLeaf first)
    (h : Reads false (op.token :: first :: tokens) (before.add (constant 0)) after) :
    Reads true (op.token :: first :: tokens) before after := by
  intro rest
  have hsign : isSign op.token = true := by rcases hop with rfl | rfl <;> rfl
  have hzero : Symbol.ofToken ⟨"0"⟩ = .ok (.leaf (constant 0)) := rfl
  have hrest := h rest
  simp only [List.cons_append, supplyZeros, hsign, Bool.false_and, Bool.true_and,
    List.head?_cons, Option.any_some, isLeaf_eq_true_iff.mpr hleaf, if_true] at hrest ⊢
  rw [pushAll, hzero]
  exact hrest

theorem push_power (state : Stacks) :
    push none state (.operator .power) = .ok (state.wait .power) := by
  have hstops : ∀ op, state.waiting.head? = some (.operator op) →
      op.appliesBefore .power = false := fun _ _ => rfl
  exact push_operator_ok_iff.mpr ⟨_, reduce_of_stops hstops, rfl⟩

/-- A sum or product operator applies what binds at least as tightly, and nothing below. -/
theorem push_of_yields (hop : op ≠ .power) (hyields : Yields op.precedence before lhs between)
    (hbelow : Below op.precedence before.waiting) :
    push none between (.operator op) = .ok ((before.add lhs).wait op) := by
  have happlies : ∀ waiting : Operator, op.precedence ≤ waiting.precedence →
      waiting.appliesBefore op := by
    intro waiting hle
    simp [Operator.appliesBefore, hop, hle]
  have hstops : ∀ top, before.waiting.head? = some (.operator top) →
      top.appliesBefore op = false := by
    intro top htop
    have := hbelow top htop
    simp [Operator.appliesBefore, this]
  refine push_operator_ok_iff.mpr ⟨before.add lhs, ?_, rfl⟩
  rw [hyields _ happlies]
  exact reduce_of_stops hstops

/-! ### Sentences -/

theorem below_opening (level : Nat) (waiting : List Waiting) :
    Below level (.opening :: waiting) := by
  simp [Below]

theorem below_wait {state : Stacks} (h : op.precedence < level) :
    Below level (state.wait op).waiting := by
  intro top htop
  cases htop
  exact h

end Parser

open NumberedBasic.Expression.Parser (Reads Yields Below Stacks)

mutual

theorem IsAtom.reads {tokens : List Token} {form : Form} : IsAtom tokens form →
    ∀ e, form.read? = some e → ∀ (atStart : Bool) (before : Stacks),
      Reads atStart tokens before (before.add e)
  | .leaf hleaf, e, hread, atStart, before => Reads.leaf hleaf hread atStart before
  | .group hsum, e, hread, atStart, before => by
      obtain ⟨after, hreads, hyields⟩ := hsum.reads e hread
        { before with waiting := .opening :: before.waiting } (Parser.below_opening _ _)
      have hpush : Parser.push none after .closing = .ok (before.add e) :=
        Parser.push_closing_ok_iff.mpr (hyields (fun _ => true) fun _ _ => rfl)
      intro rest
      rw [List.cons_append, List.cons_append, Parser.pushAll_opening, List.append_assoc, hreads]
      exact Reads.closing hpush rest

theorem IsPower.reads {tokens : List Token} {form : Form} : IsPower tokens form →
    ∀ e, form.read? = some e → ∀ (atStart : Bool) (before : Stacks),
      ∃ after, Reads atStart tokens before after ∧ Yields 30 before e after
  | .atom hatom, e, hread, atStart, before =>
      ⟨before.add e, hatom.reads e hread atStart before, Yields.add 30 before e⟩
  | .join hleft hright, e, hread, atStart, before => by
      obtain ⟨left, right, hl, hr, rfl⟩ := Form.read?_compound.mp hread
      have hfirst := hleft.reads left hl atStart before
      have hsign := Reads.operator (Parser.push_power (before.add left))
      obtain ⟨after, hlast, hyields⟩ :=
        hright.reads right hr false ((before.add left).wait .power)
      exact ⟨after, hfirst.trans (hsign.trans hlast),
        hyields.join (Nat.le_refl 30) (Nat.le_refl 30)⟩

theorem IsTerm.reads {tokens : List Token} {form : Form} : IsTerm tokens form →
    ∀ e, form.read? = some e → ∀ (atStart : Bool) (before : Stacks), Below 20 before.waiting →
      ∃ after, Reads atStart tokens before after ∧ Yields 20 before e after
  | .power hpower, e, hread, atStart, before, _ => by
      obtain ⟨after, hreads, hyields⟩ := hpower.reads e hread atStart before
      exact ⟨after, hreads, hyields.mono (by decide)⟩
  | @IsTerm.join _ _ _ _ op hop hleft hright, e, hread, atStart, before, hbelow => by
      obtain ⟨left, right, hl, hr, rfl⟩ := Form.read?_compound.mp hread
      have hlevel : op.precedence = 20 ∧ op ≠ .power := by rcases hop with rfl | rfl <;> decide
      obtain ⟨between, hfirst, hbetween⟩ := hleft.reads left hl atStart before hbelow
      rw [← hlevel.1] at hbetween hbelow
      have hsign := Reads.operator (Parser.push_of_yields hlevel.2 hbetween hbelow)
      obtain ⟨after, hlast, hyields⟩ := hright.reads right hr false ((before.add left).wait op)
      exact ⟨after, hfirst.trans (hsign.trans hlast), hyields.join (by omega) (by decide)⟩

theorem IsSum.reads {tokens : List Token} {form : Form} : IsSum tokens form →
    ∀ e, form.read? = some e → ∀ before : Stacks, Below 10 before.waiting →
      ∃ after, Reads true tokens before after ∧ Yields 10 before e after
  | .term hterm, e, hread, before, hbelow => by
      obtain ⟨after, hreads, hyields⟩ := hterm.reads e hread true before
        fun op hop => Nat.lt_trans (hbelow op hop) (by decide)
      exact ⟨after, hreads, hyields.mono (by decide)⟩
  | @IsSum.signed _ _ _ op hop hleaf hterm, e, hread, before, hbelow => by
      obtain ⟨left, right, hl, hr, rfl⟩ := Form.read?_compound.mp hread
      cases hl
      have hlevel : op.precedence = 10 ∧ op ≠ .power := by rcases hop with rfl | rfl <;> decide
      rw [← hlevel.1] at hbelow
      have hsign := Reads.operator
        (Parser.push_of_yields hlevel.2 (Yields.add _ before (constant 0)) hbelow)
      obtain ⟨after, hlast, hyields⟩ := hterm.reads right hr false
        ((before.add (constant 0)).wait op) (Parser.below_wait (by omega))
      exact ⟨after, Reads.signed hop hleaf (hsign.trans hlast), hyields.join (by omega) (by decide)⟩
  | @IsSum.join _ _ _ _ op hop hleft hright, e, hread, before, hbelow => by
      obtain ⟨left, right, hl, hr, rfl⟩ := Form.read?_compound.mp hread
      have hlevel : op.precedence = 10 ∧ op ≠ .power := by rcases hop with rfl | rfl <;> decide
      obtain ⟨between, hfirst, hbetween⟩ := hleft.reads left hl before hbelow
      rw [← hlevel.1] at hbetween hbelow
      have hsign := Reads.operator (Parser.push_of_yields hlevel.2 hbetween hbelow)
      obtain ⟨after, hlast, hyields⟩ := hright.reads right hr false ((before.add left).wait op)
        (Parser.below_wait (by omega))
      exact ⟨after, hfirst.trans (hsign.trans hlast), hyields.join (by omega) (by decide)⟩

end

/-- Without a limit a sentence is read as its tree. -/
theorem IsSum.parseWithin_none {tokens : List Token} {form : Form} {e : Expression}
    (h : IsSum tokens form) (hread : form.read? = some e) : parseWithin none tokens = .ok e := by
  obtain ⟨after, hreads, hyields⟩ := h.reads e hread {} (by simp [Below])
  refine Parser.parseWithin_ok_iff.mpr
    ⟨(hasEmptyGroup_eq_false tokens).1 true h.alternates, after, ?_, ?_⟩
  · have hrest := hreads []
    rw [List.append_nil] at hrest
    rw [hrest]
    rfl
  · exact Parser.conclude_ok_iff.mpr ⟨e.depth, hyields (fun _ => true) fun _ _ => rfl⟩

/-! ### Numbers that are no values -/

mutual

theorem IsAtom.exists_read? {tokens : List Token} {form : Form} : IsAtom tokens form →
    (∀ token ∈ tokens, token.Fits) → ∃ e, form.read? = some e
  | @IsAtom.leaf token hleaf, hfits => by
      rcases Bool.eq_false_or_eq_true token.isName with hname | hname
      · exact ⟨_, if_pos hname⟩
      · have hnumber : token.isNumber := hleaf.resolve_right (by simp [hname])
        obtain ⟨value, hvalue⟩ :=
          Token.exists_value_of_fits hnumber (hfits token List.mem_cons_self)
        exact ⟨constant value, by simp [Form.read?, hname, hvalue, Except.toOption]⟩
  | .group hsum, hfits =>
      hsum.exists_read? fun token hmem => hfits token (by simp [hmem])

theorem IsPower.exists_read? {tokens : List Token} {form : Form} : IsPower tokens form →
    (∀ token ∈ tokens, token.Fits) → ∃ e, form.read? = some e
  | .atom hatom, hfits => hatom.exists_read? hfits
  | .join hleft hright, hfits => by
      obtain ⟨left, hl⟩ := hleft.exists_read? fun token hmem => hfits token (by simp [hmem])
      obtain ⟨right, hr⟩ := hright.exists_read? fun token hmem => hfits token (by simp [hmem])
      exact ⟨_, Form.read?_compound.mpr ⟨left, right, hl, hr, rfl⟩⟩

theorem IsTerm.exists_read? {tokens : List Token} {form : Form} : IsTerm tokens form →
    (∀ token ∈ tokens, token.Fits) → ∃ e, form.read? = some e
  | .power hpower, hfits => hpower.exists_read? hfits
  | .join _ hleft hright, hfits => by
      obtain ⟨left, hl⟩ := hleft.exists_read? fun token hmem => hfits token (by simp [hmem])
      obtain ⟨right, hr⟩ := hright.exists_read? fun token hmem => hfits token (by simp [hmem])
      exact ⟨_, Form.read?_compound.mpr ⟨left, right, hl, hr, rfl⟩⟩

theorem IsSum.exists_read? {tokens : List Token} {form : Form} : IsSum tokens form →
    (∀ token ∈ tokens, token.Fits) → ∃ e, form.read? = some e
  | .term hterm, hfits => hterm.exists_read? hfits
  | .signed _ _ hterm, hfits => by
      obtain ⟨right, hr⟩ := hterm.exists_read? fun token hmem =>
        hfits token (List.mem_cons_of_mem _ hmem)
      exact ⟨_, Form.read?_compound.mpr ⟨constant 0, right, rfl, hr, rfl⟩⟩
  | .join _ hleft hright, hfits => by
      obtain ⟨left, hl⟩ := hleft.exists_read? fun token hmem => hfits token (by simp [hmem])
      obtain ⟨right, hr⟩ := hright.exists_read? fun token hmem => hfits token (by simp [hmem])
      exact ⟨_, Form.read?_compound.mpr ⟨left, right, hl, hr, rfl⟩⟩

end

theorem fits_of_parseWithin {limit : Option Nat} {tokens : List Token} {e : Expression}
    (h : parseWithin limit tokens = .ok e) : ∀ token ∈ tokens, token.Fits := by
  intro token hmem
  obtain ⟨symbol, hsymbol⟩ := Parser.exists_symbol_of_parseWithin h token hmem
  exact Parser.Symbol.fits_of_ofToken hsymbol

theorem IsSum.parse_ok_iff {tokens : List Token} {form : Form} {e : Expression}
    (h : IsSum tokens form) :
    parse tokens = .ok e ↔ form.read? = some e ∧ form.depth ≤ depthLimit := by
  unfold parse
  rw [parseWithin_some_iff (by decide)]
  constructor
  · rintro ⟨hparse, hdepth⟩
    obtain ⟨tree, hread⟩ := h.exists_read? (fits_of_parseWithin hparse)
    obtain rfl : tree = e := by
      rw [h.parseWithin_none hread] at hparse
      exact Except.ok.inj hparse
    exact ⟨hread, Form.depth_of_read? hread ▸ hdepth⟩
  · rintro ⟨hread, hdepth⟩
    exact ⟨h.parseWithin_none hread, Form.depth_of_read? hread ▸ hdepth⟩

/-- A sentence is read as its tree if its numbers are values and the tree is not too deep, and refused
otherwise. -/
theorem parse_of_isSum {tokens : List Token} {form : Form} (h : IsSum tokens form) :
    ((∀ token ∈ tokens, token.Fits) ∧ form.depth ≤ depthLimit →
      ∃ e, form.read? = some e ∧ parse tokens = .ok e) ∧
    ((∃ token ∈ tokens, ¬ token.Fits) ∨ depthLimit < form.depth →
      ∃ fault, parse tokens = .error fault) := by
  constructor
  · rintro ⟨hfits, hdepth⟩
    obtain ⟨e, hread⟩ := h.exists_read? hfits
    exact ⟨e, hread, h.parse_ok_iff.mpr ⟨hread, hdepth⟩⟩
  · intro hrefused
    cases hparse : parse tokens with
    | error fault => exact ⟨fault, rfl⟩
    | ok e =>
        rcases hrefused with ⟨token, hmem, hfits⟩ | hdepth
        · exact absurd (fits_of_parseWithin hparse token hmem) hfits
        · have hle := (h.parse_ok_iff.mp hparse).2
          omega

theorem parse_of_isSum_signed_product :
    (∃ form, IsSum [⟨"-"⟩, ⟨"x"⟩, ⟨"*"⟩, ⟨"("⟩, ⟨"2"⟩, ⟨"-"⟩, ⟨"03"⟩, ⟨")"⟩, ⟨"**"⟩, ⟨"y"⟩] form) ∧
      ∃ e, parse [⟨"-"⟩, ⟨"x"⟩, ⟨"*"⟩, ⟨"("⟩, ⟨"2"⟩, ⟨"-"⟩, ⟨"03"⟩, ⟨")"⟩, ⟨"**"⟩, ⟨"y"⟩] = .ok e ∧
        e.text = "(0 - (x * ((2 - 3) ** y)))" := by
  have hgroup : IsSum [⟨"2"⟩, ⟨"-"⟩, ⟨"03"⟩] (.compound .subtract (.leaf ⟨"2"⟩) (.leaf ⟨"03"⟩)) :=
    .join (.inr rfl) (.term (.power (.atom (.leaf (.inl rfl))))) (.power (.atom (.leaf (.inl rfl))))
  have hx : IsAtom [⟨"x"⟩] (.leaf ⟨"x"⟩) := .leaf (.inr rfl)
  have hy : IsAtom [⟨"y"⟩] (.leaf ⟨"y"⟩) := .leaf (.inr rfl)
  have hterm := IsTerm.join (.inl rfl) (.power (.atom hx)) (.join (.group hgroup) (.atom hy))
  have hsum := IsSum.signed (.inr rfl) (.inr rfl) hterm
  obtain ⟨e, hread, hparse⟩ := (parse_of_isSum hsum).1 ⟨by decide, by decide⟩
  cases hread
  exact ⟨⟨_, hsum⟩, _, hparse, rfl⟩

end Expression

end NumberedBasic
