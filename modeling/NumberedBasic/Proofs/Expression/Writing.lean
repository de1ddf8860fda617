import NumberedBasic.Proofs.Expression.Leaves
import NumberedBasic.Proofs.Text.Numerals
import NumberedBasic.Proofs.Token.Units

/-!
# Reading what was written

The listing text of an expression is one atom: a leaf, or a group with a blank on either side of its
operator. Its tokens are therefore found one by one, and an atom is read as its own tree, unless that
is too deep.
-/

namespace NumberedBasic

namespace Token

/-! ### Characters of a name or a number -/

def isPlain (c : Char) : Bool := isLetter c || c.isDigit

theorem isDelimiter_eq_false_of_isPlain {c : Char} (h : isPlain c) : isDelimiter c = false := by
  rw [Bool.eq_false_iff]
  intro hc
  have hnone : delimiters.all (!isPlain ·) = true := by decide
  have hfalse := List.all_eq_true.mp hnone c (List.contains_iff_mem.mp hc)
  rw [h] at hfalse
  cases hfalse

theorem isPlain_of_isName {token : Token} (h : token.isName) :
    ∀ c ∈ token.text.toList, isPlain c := by
  unfold isName at h
  split at h
  next => cases h
  next first rest hchars =>
    rw [hchars]
    simp only [Bool.and_eq_true, List.all_eq_true, Bool.or_eq_true] at h
    refine List.forall_mem_cons.mpr ⟨by simp [isPlain, h.1], fun c hc => ?_⟩
    simpa [isPlain] using h.2 c hc

theorem isPlain_of_isNumber {token : Token} (h : token.isNumber) :
    ∀ c ∈ token.text.toList, isPlain c := by
  intro c hc
  simp [isPlain, Text.isDigit_of_mem h hc]

theorem isPlain_of_isLeaf {token : Token} (h : Expression.IsLeaf token) :
    ∀ c ∈ token.text.toList, isPlain c :=
  h.elim isPlain_of_isNumber isPlain_of_isName

theorem toList_ne_nil_of_isLeaf {token : Token} (h : Expression.IsLeaf token) :
    token.text.toList ≠ [] := by
  intro hnil
  rcases h with hnumber | hname
  · simp [isNumber, Text.isNumeral, hnil] at hnumber
  · simp [isName, hnil] at hname

theorem isUnit_of_isLeaf {token : Token} (h : Expression.IsLeaf token) :
    IsUnit token.text.toList := by
  refine .word ⟨toList_ne_nil_of_isLeaf h, fun c hc => ?_⟩
  simp [isDelimiter_eq_false_of_isPlain (isPlain_of_isLeaf h c hc)]

theorem isUnit_operator (op : Operator) : IsUnit op.token.text.toList := by
  cases op with
  | power => exact .power
  | add | subtract | multiply | divide => exact .delimiter (by decide) (by decide)

theorem isUnit_comparator (comparator : Comparator) : IsUnit comparator.token.text.toList := by
  cases comparator with
  | less | greater | equal => exact .delimiter (by decide) (by decide)

end Token

namespace Expression

variable {e : Expression}

/-! ### The sentence of a tree -/

theorem isLeaf_constant {value : Value} (h : Writable (constant value)) :
    IsLeaf ⟨toString value⟩ :=
  .inl (Token.isNumber_toString_value h)

theorem isLeaf_var {name : String} (h : Writable (var name)) : IsLeaf ⟨name⟩ := .inr h

theorem isSum_of_isAtom {left right : List Token} {lhs rhs : Form} (op : Operator)
    (hleft : IsAtom left lhs) (hright : IsAtom right rhs) :
    IsSum (left ++ op.token :: right) (.compound op lhs rhs) := by
  cases op with
  | add => exact .join (.inl rfl) (.term (.power (.atom hleft))) (.power (.atom hright))
  | subtract => exact .join (.inr rfl) (.term (.power (.atom hleft))) (.power (.atom hright))
  | multiply => exact .term (.join (.inl rfl) (.power (.atom hleft)) (.atom hright))
  | divide => exact .term (.join (.inr rfl) (.power (.atom hleft)) (.atom hright))
  | power => exact .term (.power (.join hleft (.atom hright)))

theorem Writable.isAtom (h : e.Writable) : IsAtom e.tokens e.form := by
  induction e with
  | constant value => exact .leaf (isLeaf_constant h)
  | var name => exact .leaf (isLeaf_var h)
  | compound op lhs rhs ihl ihr => exact .group (isSum_of_isAtom op (ihl h.1) (ihr h.2))

theorem Writable.read?_form (h : e.Writable) : e.form.read? = some e := by
  induction e with
  | constant value =>
      have hnumber := Token.isNumber_toString_value h
      have hname : Token.isName ⟨toString value⟩ = false := by
        rw [Bool.eq_false_iff]
        intro hname
        rw [Token.isNumber_eq_false_of_isName hname] at hnumber
        cases hnumber
      simp [form, Form.read?, hname, Token.value_toString h, Except.toOption]
  | var name =>
      have hname : Token.isName ⟨name⟩ = true := h
      simp [form, Form.read?, hname]
  | compound op lhs rhs ihl ihr =>
      exact Form.read?_compound.mpr ⟨lhs, rhs, ihl h.1, ihr h.2, rfl⟩

theorem Writable.scan_text (h : e.Writable) : Token.scan e.text = e.tokens := by
  induction e with
  | constant value => exact Token.scan_unit (Token.isUnit_of_isLeaf (isLeaf_constant h))
  | var name => exact Token.scan_unit (Token.isUnit_of_isLeaf (isLeaf_var h))
  | compound op lhs rhs ihl ihr =>
      have htext : (compound op lhs rhs).text =
          "(" ++ (lhs.text ++ " " ++ op.token.text ++ " " ++ rhs.text) ++ ")" := by
        simp only [text, Operator.token, String.append_assoc]
      rw [htext, Token.scan_group, Token.scan_spaced, Token.scan_spaced,
        Token.scan_unit (Token.isUnit_operator op), ihl h.1, ihr h.2, tokens, List.append_assoc,
        List.singleton_append]

theorem Writable.parse_scan_text (h : e.Writable) (hdepth : e.depth ≤ depthLimit) :
    parse (Token.scan e.text) = .ok e := by
  have hsum : IsSum e.tokens e.form := .term (.power (.atom h.isAtom))
  have hread := h.read?_form
  rw [h.scan_text]
  exact hsum.parse_ok_iff.mpr ⟨hread, Form.depth_of_read? hread ▸ hdepth⟩

/-- What was read is read again from its text. -/
theorem parse_scan_text_of_parse {tokens : List Token} (h : parse tokens = .ok e) :
    parse (Token.scan e.text) = .ok e := by
  have hdepth := ((parseWithin_some_iff (by decide)).mp h).2
  exact (writable_of_parseWithin h).parse_scan_text hdepth

/-- The trees that are ever read are those that could be written and are not too deep, and each of
them is read from its own text. -/
theorem parse_scan_text_iff (e : Expression) :
    (parse (Token.scan e.text) = .ok e ↔ e.Writable ∧ e.depth ≤ depthLimit) ∧
      ((∃ tokens, parse tokens = .ok e) ↔ e.Writable ∧ e.depth ≤ depthLimit) := by
  have hread : ∀ tokens, parse tokens = .ok e → e.Writable ∧ e.depth ≤ depthLimit := by
    intro tokens h
    exact ⟨writable_of_parseWithin h, ((parseWithin_some_iff (by decide)).mp h).2⟩
  refine ⟨⟨hread _, fun h => h.1.parse_scan_text h.2⟩, ?_, ?_⟩
  · rintro ⟨tokens, h⟩
    exact hread tokens h
  · rintro ⟨hwritable, hdepth⟩
    exact ⟨Token.scan e.text, hwritable.parse_scan_text hdepth⟩

/-! ### What is not in it -/

/-- A name in the text of a tree is a name in the tree. -/
theorem var_mem_leaves {token : Token} (h : e.Writable) (hname : token.isName)
    (hmem : token ∈ e.tokens) : var token.text ∈ e.leaves := by
  induction e with
  | constant value =>
      obtain rfl := List.mem_singleton.mp hmem
      have hnumber := Token.isNumber_toString_value h
      rw [Token.isNumber_eq_false_of_isName hname] at hnumber
      cases hnumber
  | var name =>
      obtain rfl := List.mem_singleton.mp hmem
      exact List.mem_singleton.mpr rfl
  | compound op lhs rhs ihl ihr =>
      have hop : token ≠ op.token := by
        rintro rfl
        exact not_isLeaf_operator op (.inr hname)
      have hopening : token ≠ ⟨"("⟩ := by
        rintro rfl
        exact absurd hname (by decide)
      have hclosing : token ≠ ⟨")"⟩ := by
        rintro rfl
        exact absurd hname (by decide)
      have hparts : token ∈ lhs.tokens ∨ token ∈ rhs.tokens := by
        simpa [tokens, hop, hopening, hclosing] using hmem
      rw [leaves, List.mem_append]
      exact hparts.imp (ihl h.1) (ihr h.2)

end Expression

end NumberedBasic
