import MathExpr.Expr.Base
import MathExpr.Proofs.Grammar.Beginnings
import MathExpr.Proofs.Printing.NormalForm
import MathExpr.Proofs.Scanning.Barriers

/-!
# Expressions with the same base

Whether two expressions have the same base is told by comparing texts in four ways, and any one of
them will do.  Of what was read from text, all four say one thing: the bases are printed alike.
A power is never the base of another one there unless it is in parentheses, and the text of a power
shows where its base ends.  Parentheses count, though: a sum and a power of it cannot be read so
that they have the same base, since the sum that is raised is one in parentheses.

* `Expr.baseText` — the text of what is raised in a power, and of any other expression.
* `Derives.eq_nil_of_append` — a phrase is no longer than it has to be.
* `Expr.Parsed.isOp_eq_of_print_eq` — equal texts are those of the same operator.
* `Expr.Parsed.chars_base_eq` — powers with one text have bases with one text.
* **`Expr.hasSameBase_equivalence`** — having the same base is an equivalence.
* **`Expr.hasSameBase_raised`** — what is raised in text, and its power.
-/

namespace MathExpr

/-! ## Where a phrase ends -/

/-- **A proper beginning of a phrase is continued.**  If a phrase begins another one of its
category, then it is the other one, or the next token is one that prolongs it. -/
lemma Derives.eq_nil_of_append {n : Category} {us vs : List Token} {e e' : Expr}
    (h : Derives n us e) (h' : Derives n (us ++ vs) e') (hends : n.Ends vs) : vs = [] := by
  have hspell : Token.spellOut (us ++ vs) = us ++ vs := by simpa using h'.settled []
  obtain ⟨rest, hrest, hyields⟩ := h.reads hspell hends
  -- the reader has one answer, and it takes the longer phrase to its end
  have hnil : [] = rest := (h'.yields_all hspell).2.symm.trans hyields.2
  rw [← hrest, ← hnil, Token.spellOut_nil]

namespace Expr

variable {a b c b' e x x' : Expr}

/-! ## What the text of a power shows -/

lemma isOp_normal (op : Operator) (inExponent : Bool) (e : Expr) :
    (e.normal inExponent).isOp op = e.isOp op := by
  cases e with
  | apply op' args marks =>
      obtain ⟨args', hnormal⟩ := normal_apply inExponent op' args marks
      rw [hnormal]
      rfl
  | _ => rfl

namespace Parsed

/-- Expressions that were read, and are printed alike, are of the same operator. -/
lemma isOp_eq_of_print_eq (ha : Parsed .relation a) (hb : Parsed .relation b)
    (h : a.print {} = b.print {}) (op : Operator) : a.isOp op = b.isOp op := by
  have hparse := ha.parse_print
  rw [h, hb.parse_print, Except.ok.injEq] at hparse
  rw [← isOp_normal op false a, ← hparse, isOp_normal]

/-- The base of a power is no power. -/
lemma isOp_pow_eq_false (h : Parsed .factorial b) : b.isOp .pow = false := by
  cases b with
  | apply op args marks =>
      cases op with
      | pow => exact absurd (show Binding.power < .factorial by decide) h.not_binding_lt
      | _ => rfl
  | _ => rfl

/-- An expression that was read is a power of a base, or no power. -/
lemma isOp_pow_eq_false_or {n : Category} {e : Expr} (h : Parsed n e) :
    e.isOp .pow = false ∨ ∃ b x, Parsed .factorial b ∧ e = pow b x := by
  induction h with
  | @power b x hb _ => exact .inr ⟨b, x, hb, rfl⟩
  | relation hop => exact .inl (by cases ‹Operator› <;> cases hop <;> rfl)
  | operand _ ih | base _ ih | exponent _ ih | factor _ ih | unsigned _ ih | signed _ ih
  | term _ ih | side _ ih => exact ih
  | _ => exact .inl rfl

/-- The base of a power needs no parentheses. -/
lemma chars_pow (h : Parsed .factorial b) (x : Expr) :
    (pow b x).chars {} = b.chars {} ++ '^' :: textIn {} x.leastAsExponent x := by
  have htight : ¬ b.binding < .factorial := h.not_binding_lt
  rw [Expr.chars_pow, textIn, bracket, if_neg htight]

/-- The tokens of a base are a phrase. -/
lemma derives_base (h : Parsed .factorial b) : ∃ e, Derives .factorial b.tokens e := by
  have htight : ¬ b.binding < .factorial := h.not_binding_lt
  have hderives := (h.wellFormed.rereads h.everywhere_bars).derivesIn .factorial
  rw [tokensIn, enclose, if_neg htight] at hderives
  exact ⟨_, hderives⟩

lemma ofChars_base (h : Parsed .factorial b) : Token.ofChars (b.chars {}) = .ok b.tokens :=
  h.wellFormed.scans.ofChars_eq

/-- The text of a base is not that of another base and of more behind a `^`. -/
lemma chars_ne_append_caret (hb : Parsed .factorial b) (hb' : Parsed .factorial b')
    (cs : List Char) : b'.chars {} ≠ b.chars {} ++ '^' :: cs := by
  intro heq
  have hcaret : Token.ofChars ('^' :: cs) = (Token.ofChars cs).map (.caret :: ·) := by
    rw [← List.singleton_append]
    exact Token.ofChars_sign (by decide) (by decide) (by decide) rfl
  have hscan := hb'.ofChars_base
  rw [heq, hb.wellFormed.scans _ (Token.Separates.cons (by decide) cs), hcaret] at hscan
  cases hcs : Token.ofChars cs with
  | error error =>
      rw [hcs] at hscan
      cases hscan
  | ok us =>
      rw [hcs] at hscan
      obtain ⟨e, hderives⟩ := hb.derives_base
      obtain ⟨e', hderives'⟩ := hb'.derives_base
      rw [← Except.ok.inj hscan] at hderives'
      -- no factorial goes on with a `^`
      have hnil := hderives.eq_nil_of_append hderives' (Category.ends_cons.mpr (by decide))
      cases hnil

/-- **Powers that are printed alike have bases that are.** -/
lemma chars_base_eq (hb : Parsed .factorial b) (hb' : Parsed .factorial b')
    (h : (pow b x).chars {} = (pow b' x').chars {}) : b.chars {} = b'.chars {} := by
  rw [hb.chars_pow, hb'.chars_pow] at h
  rcases List.append_eq_append_iff.mp h with ⟨cs, hcs, hrest⟩ | ⟨cs, hcs, hrest⟩
  · cases cs with
    | nil => rw [hcs, List.append_nil]
    | cons d ds =>
        obtain ⟨rfl, -⟩ := List.cons.inj hrest
        exact absurd hcs (hb.chars_ne_append_caret hb' ds)
  · cases cs with
    | nil => rw [hcs, List.append_nil]
    | cons d ds =>
        obtain ⟨rfl, -⟩ := List.cons.inj hrest
        exact absurd hcs (hb'.chars_ne_append_caret hb ds)

end Parsed

/-! ## Having the same base -/

/-- The text of what is raised in a power, and of any other expression itself. -/
def baseText (print : Printer) : Expr → String
  | .apply .pow (base :: _) _ => print base
  | e => print e

lemma base?_eq_none (h : a.isOp .pow = false) : a.base? = none := by
  unfold base?
  split
  · cases h
  · rfl

lemma baseText_eq_print (print : Printer) (h : a.isOp .pow = false) :
    a.baseText print = print a := by
  unfold baseText
  split
  · cases h
  · rfl

lemma base?_pow (b x : Expr) : (pow b x).base? = some b := rfl

lemma baseText_pow (print : Printer) (b x : Expr) : (pow b x).baseText print = print b := rfl

/-- The four ways to have the same base. -/
lemma hasSameBase_iff (print : Printer) (a b : Expr) : a.hasSameBase print b = true ↔
    print a = print b ∨ a.base?.map print = some (print b) ∨ b.base?.map print = some (print a) ∨
      a.base? ≠ none ∧ a.base?.map print = b.base?.map print := by
  simp [hasSameBase, or_assoc, Option.isSome_iff_ne_none]

namespace Parsed

/-- The text of a power is not that of an expression that is none. -/
lemma print_pow_ne (hpow : Parsed .relation (pow b x)) (ha : Parsed .relation a)
    (hop : a.isOp .pow = false) : (pow b x).print {} ≠ a.print {} := by
  intro hprint
  have := hpow.isOp_eq_of_print_eq ha hprint .pow
  rw [hop] at this
  cases this

/-- **The four ways are one.**  A power is not printed like an expression that is none, so of an
expression and a power only the second and the third way are left, and of two powers the fourth,
since if they are printed alike then so are their bases. -/
lemma hasSameBase_iff_baseText_eq (ha : Parsed .relation a) (hb : Parsed .relation b) :
    a.hasSameBase (print {}) b = true ↔ a.baseText (print {}) = b.baseText (print {}) := by
  rw [hasSameBase_iff]
  rcases ha.isOp_pow_eq_false_or with hna | ⟨base, x, hbase, rfl⟩
  · rcases hb.isOp_pow_eq_false_or with hnb | ⟨base', x', hbase', rfl⟩
    · rw [base?_eq_none hna, base?_eq_none hnb, baseText_eq_print _ hna, baseText_eq_print _ hnb]
      simp
    · have hne := (hb.print_pow_ne ha hna).symm
      rw [base?_eq_none hna, baseText_eq_print _ hna, base?_pow, baseText_pow]
      simp [hne, eq_comm]
  · rcases hb.isOp_pow_eq_false_or with hnb | ⟨base', x', hbase', rfl⟩
    · have hne := ha.print_pow_ne hb hnb
      rw [base?_eq_none hnb, baseText_eq_print _ hnb, base?_pow, baseText_pow]
      simp [hne]
    · have hne := hb.print_pow_ne (hbase.toRelation (by decide)) hbase.isOp_pow_eq_false
      have hne' := ha.print_pow_ne (hbase'.toRelation (by decide)) hbase'.isOp_pow_eq_false
      have hbases : (pow base x).print {} = (pow base' x').print {} →
          base.print {} = base'.print {} := fun hprint =>
        congrArg String.ofList (hbase.chars_base_eq hbase' (String.ofList_inj.mp hprint))
      rw [base?_pow, base?_pow, baseText_pow, baseText_pow]
      simpa [hne.symm, hne'.symm] using hbases

end Parsed

/-- The expressions that are read from some text. -/
abbrev FromText : Type :=
  { e : Expr // ∃ text, parse text = .ok e }

/-- **Having the same base is an equivalence** of the expressions that are read from text: the one
of having bases with one text. -/
theorem hasSameBase_equivalence :
    (Equivalence fun a b : FromText => a.1.hasSameBase (print {}) b.1 = true) ∧
      ∀ a b : FromText, a.1.hasSameBase (print {}) b.1 = true ↔
        a.1.baseText (print {}) = b.1.baseText (print {}) := by
  have hiff (a b : FromText) : a.1.hasSameBase (print {}) b.1 = true ↔
      a.1.baseText (print {}) = b.1.baseText (print {}) := by
    obtain ⟨_, ha⟩ := a.2
    obtain ⟨_, hb⟩ := b.2
    exact (parsed_of_parse ha).hasSameBase_iff_baseText_eq (parsed_of_parse hb)
  refine ⟨⟨fun a => (hiff a a).mpr rfl, fun h => ?_, fun hab hbc => ?_⟩, hiff⟩
  · exact (hiff _ _).mpr ((hiff _ _).mp h).symm
  · exact (hiff _ _).mpr (((hiff _ _).mp hab).trans ((hiff _ _).mp hbc))

/-- Two powers of `x` have the same base by their bases, and `(x)^2` has another one. -/
theorem hasSameBase_equivalence_square :
    parse "x^2" = .ok (pow (var "x") (number "2")) ∧
      parse "x^y" = .ok (pow (var "x") (var "y")) ∧
      parse "(x)^2" = .ok (pow (parens (var "x")) (number "2")) ∧
      (pow (var "x") (number "2")).hasSameBase (print {}) (pow (var "x") (var "y")) = true ∧
      ¬ (pow (var "x") (number "2")).hasSameBase (print {})
        (pow (parens (var "x")) (number "2")) = true := by
  have ha : parse "x^2" = .ok (pow (var "x") (number "2")) := by decide +kernel
  have hb : parse "x^y" = .ok (pow (var "x") (var "y")) := by decide +kernel
  have hc : parse "(x)^2" = .ok (pow (parens (var "x")) (number "2")) := by decide +kernel
  have hsame := hasSameBase_equivalence.2 ⟨_, _, ha⟩ ⟨_, _, hb⟩
  have hother := hasSameBase_equivalence.2 ⟨_, _, ha⟩ ⟨_, _, hc⟩
  have hbases : (var "x").print {} ≠ (parens (var "x")).print {} := by decide +kernel
  exact ⟨ha, hb, hc, hsame.mpr rfl, hother.not.mpr hbases⟩

/-! ## Powers and their bases -/

/-- A power has the same base as what is raised in it, for any printer. -/
lemma hasSameBase_pow (print : Printer) (b x : Expr) :
    (pow b x).hasSameBase print b = true ∧ b.hasSameBase print (pow b x) = true :=
  ⟨(hasSameBase_iff print _ _).mpr (.inr (.inl rfl)),
    (hasSameBase_iff print _ _).mpr (.inr (.inr (.inl rfl)))⟩

/-- No base is longer than the expression. -/
lemma Parsed.length_baseText_le (h : Parsed .relation a) :
    (a.baseText (print {})).length ≤ (a.print {}).length := by
  rcases h.isOp_pow_eq_false_or with hna | ⟨b, x, hb, rfl⟩
  · rw [baseText_eq_print _ hna]
  · rw [baseText_pow, print, print, hb.chars_pow]
    simp

lemma length_print_parens (style : Style) (e : Expr) :
    ((parens e).print style).length = (e.print style).length + 2 := by
  have hchars : (parens e).chars style = Style.parenthesize (e.chars style) := rfl
  rw [print, print, hchars, String.length_ofList, String.length_ofList, Style.parenthesize]
  simp

/-! ## Text in parentheses -/

/-- A text with a derivation for its tokens is read. -/
lemma parse_of_scans {text : String} {ts : List Token} (hscan : Token.Scans text.toList ts)
    (h : Derives .relation (Token.spellOut ts) a) : parse text = .ok a := by
  have hts : Token.ofText text = .ok ts := hscan.ofChars_eq
  rw [parse, hts]
  exact Reader.readExpr_eq_ok_iff.mpr h

/-- The tokens of a text in parentheses, and what they stand for. -/
lemma exists_tokens_parens {text : String} (h : parse text = .ok e) :
    ∃ ts, Token.Scans (Style.parenthesize text.toList) ts ∧
      Derives .operand (Token.spellOut ts) (parens e) := by
  obtain ⟨ts, hts, hderives⟩ := derives_of_parse h
  refine ⟨.leftParen :: ts ++ [.rightParen], (Token.scans_iff.mpr hts).parenthesize, ?_⟩
  have hspell : Token.spellOut (.leftParen :: ts ++ [.rightParen]) =
      .leftParen :: Token.spellOut ts ++ [.rightParen] := by
    rw [List.cons_append, Token.spellOut_cons (by simp), Token.spellOut_append ts (by simp)]
    rfl
  rw [hspell]
  exact .parens hderives

/-- What is read from a text in parentheses is the expression in parentheses. -/
lemma parse_parens {text : String} (h : parse text = .ok e) :
    parse ("(" ++ text ++ ")") = .ok (parens e) := by
  obtain ⟨ts, hscan, hderives⟩ := exists_tokens_parens h
  exact parse_of_scans (by simpa [Style.parenthesize] using hscan)
    (hderives.loosen (by decide) (by decide))

/-- What is read from the power of a text in parentheses is a power of the expression in
parentheses. -/
lemma parse_raised {text numeral : String} (h : parse text = .ok e)
    (hnumeral : Token.IsNumeral numeral.toList) :
    parse ("(" ++ text ++ ")^" ++ numeral) = .ok (pow (parens e) (number numeral)) := by
  obtain ⟨ts, hscan, hderives⟩ := exists_tokens_parens h
  have hexponent : Token.Scans numeral.toList [.number numeral] := by
    simpa using Token.Scans.numeral hnumeral
  have hpower := hscan.attach (c := '^') (by decide) (.sign rfl hexponent)
  refine parse_of_scans (by simpa [Style.parenthesize] using hpower) ?_
  rw [Token.spellOut_append ts (by simp)]
  exact (Derives.power hderives.toFactorial
    (.exponent (.base (.toFactorial (.number numeral))))).loosen (by decide) (by decide)

/-- **What is raised in text, and its power.**  To raise a sum, or any text, it is put into
parentheses, and these are part of the base.  So the power never has the same base as what was
raised, but the same as what is read from the text in parentheses.  Without them, as a power of the
expression and not of its text, it has the same base. -/
theorem hasSameBase_raised {text numeral : String} (h : parse text = .ok e)
    (hnumeral : Token.IsNumeral numeral.toList) :
    (parse ("(" ++ text ++ ")^" ++ numeral) = .ok (pow (parens e) (number numeral)) ∧
      (pow (parens e) (number numeral)).hasSameBase (print {}) e = false ∧
      e.hasSameBase (print {}) (pow (parens e) (number numeral)) = false) ∧
    (parse ("(" ++ text ++ ")") = .ok (parens e) ∧
      (pow (parens e) (number numeral)).hasSameBase (print {}) (parens e) = true ∧
      (parens e).hasSameBase (print {}) (pow (parens e) (number numeral)) = true) ∧
    (pow e (number numeral)).hasSameBase (print {}) e = true ∧
      e.hasSameBase (print {}) (pow e (number numeral)) = true := by
  have hraised := parse_raised h hnumeral
  have hq := parsed_of_parse hraised
  have he := parsed_of_parse h
  -- the base of the power is longer than the expression by its two parentheses
  have hne : (pow (parens e) (number numeral)).baseText (print {}) ≠ e.baseText (print {}) := by
    intro htext
    have hle := he.length_baseText_le
    rw [← htext, baseText_pow, length_print_parens] at hle
    omega
  refine ⟨⟨hraised, ?_, ?_⟩, ⟨parse_parens h, hasSameBase_pow _ _ _⟩, hasSameBase_pow _ _ _⟩
  · rw [← Bool.not_eq_true, hq.hasSameBase_iff_baseText_eq he]
    exact hne
  · rw [← Bool.not_eq_true, he.hasSameBase_iff_baseText_eq hq]
    exact hne.symm

/-- `(x + 1)^3` has the same base as `(x + 1)`, and not the same as `x + 1`. -/
theorem hasSameBase_raised_sum :
    parse "(x + 1)^3" = .ok (pow (parens (add [var "x", number "1"])) (number "3")) ∧
      (pow (parens (add [var "x", number "1"])) (number "3")).hasSameBase (print {})
        (add [var "x", number "1"]) = false ∧
      (pow (parens (add [var "x", number "1"])) (number "3")).hasSameBase (print {})
        (parens (add [var "x", number "1"])) = true := by
  have hsum : parse "x + 1" = .ok (add [var "x", number "1"]) := by decide +kernel
  have hthree : Token.IsNumeral "3".toList := by decide
  obtain ⟨⟨hparse, hsame, -⟩, ⟨-, hsame', -⟩, -⟩ := hasSameBase_raised hsum hthree
  exact ⟨hparse, hsame, hsame'⟩

end Expr

end MathExpr
