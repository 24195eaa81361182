import MathExpr.Proofs.Grammar.Beginnings
import MathExpr.Proofs.Printing.Counts
import MathExpr.Proofs.Printing.Juxtaposition
import MathExpr.Proofs.Printing.NormalForm

/-!
# Which expressions survive printing in other styles

Where a style leaves out spaces, tokens may run together.  Each style has its own places where this
goes wrong.  Without spaces between factors it is a letter in front of the name of a function, and a
numeral that ends with a point in front of another numeral.  Without spaces around signs it is a
factorial in front of an equality sign.  Everywhere else the text is read as what it was printed
from, and at these places never.

* `Expr.fusesFactors`, `Expr.fusesEquality` — the places.
* **`Expr.WellFormed.laid`** — printed text is its tokens, kept apart if there is no such place.
* `Expr.WellFormed.scans_print` — so these are scanned, and at such a place fewer.
* **`Expr.survives_style_iff`** — what is read from text survives printing in a style exactly if it
  has no such place.
* **`Expr.survives_juxtaposed_iff`**, **`Expr.survives_tight_iff`** — the two kinds of spaces, one
  by one.
-/

namespace MathExpr

open Token

namespace Expr

/-- Whether an expression has factors beside each other that run together. -/
def fusesFactors : Expr → Bool
  | .apply .mul factors marks => marks.juxtaposed && collideAny (factors.map (tokensIn .power))
  | _ => false

/-- Whether an expression is an equality with a factorial right in front of one of its signs. -/
def fusesEquality : Expr → Bool
  | .apply .eq sides _ =>
    sides.dropLast.any fun side => (tokensIn .sum side).getLast? = some .bang
  | _ => false

/-- No tokens of an expression's own notation run together in a style. -/
def KeptApart (style : Style) (e : Expr) : Prop :=
  ¬ (style.spacedFactors = false ∧ e.fusesFactors = true) ∧
    ¬ (style.spacedSigns = false ∧ e.fusesEquality = true)

instance (style : Style) : DecidablePred (KeptApart style) := fun e =>
  inferInstanceAs (Decidable (¬ (style.spacedFactors = false ∧ e.fusesFactors = true) ∧
    ¬ (style.spacedSigns = false ∧ e.fusesEquality = true)))

lemma keptApart_of_not_fuses {style : Style} {e : Expr} (hfactors : e.fusesFactors = false)
    (hequality : e.fusesEquality = false) : KeptApart style e := by
  simp [KeptApart, hfactors, hequality]

/-! ## Where factors begin -/

/-- A place begins with a parenthesis or as what is in it does. -/
lemma opensFactor_tokensIn {e : Expr} {least : Binding} (hleast : ¬ least < .power)
    (h : ¬ e.binding < .power → OpensFactor e.tokens) : OpensFactor (tokensIn least e) := by
  unfold tokensIn enclose
  split
  · exact .of_cons (by simp) (by simp)
  · next hnot => exact h fun hlt => hnot (Nat.lt_of_lt_of_le hlt (Nat.not_lt.mp hleast))

namespace WellFormed

variable {e : Expr}

lemma opensFactor_tokens (h : WellFormed e) (hbinding : ¬ e.binding < .power) :
    OpensFactor e.tokens := by
  induction h with
  | number | parens | abs => exact .of_cons (by simp) (by simp)
  | @letter c =>
      rw [tokens_var, String.toList_singleton]
      exact .letter c
  | @subscript c =>
      rw [tokens_subscript, String.toList_singleton]
      exact (OpensFactor.letter c).append (by simp) (by simp)
  | call =>
      rw [tokens_function, String.toList_ofList]
      exact .name (by simp)
  | root =>
      rw [tokens_root]
      exact .name (by decide)
  | power _ _ ih =>
      rw [tokens_pow]
      exact (opensFactor_tokensIn (by decide) ih).append (by simp) (by simp)
  | fact _ ih =>
      rw [tokens_fact, List.append_nil]
      exact (opensFactor_tokensIn (by decide) ih).append (by simp) (by simp)
  | sum => exact absurd (show Binding.sum < .power by decide) hbinding
  | product | quotient => exact absurd (show Binding.product < .power by decide) hbinding
  | juxtaposition => exact absurd (show Binding.juxtaposition < .power by decide) hbinding
  | neg | pos => exact absurd (show Binding.sign < .power by decide) hbinding
  | relation hop =>
      rw [binding_relate hop] at hbinding
      exact absurd (by decide) hbinding

end WellFormed

/-! ## The layout of expressions -/

section Places

variable {style : Style} {e : Expr} {p : Prop}

lemma laid_textIn (h : Laid style.spacedFactors (e.chars style) e.tokens p) (least : Binding) :
    Laid style.spacedFactors (textIn style least e) (tokensIn least e) p := by
  unfold textIn tokensIn bracket enclose
  split
  · exact h.parenthesize
  · exact h

/-- A sign between two operands. -/
lemma laid_sign {cs ds : List Char} {ts us : List Token} {t : Token} {q : Prop} (symbol : String)
    (hsymbol : t.spelling = symbol.toList) (ht : t.counts = false) (hparen : t ≠ .leftParen)
    (hrelation : ∀ symbol, t ≠ .relation symbol) (hts : ts ≠ []) (hus : us ≠ [])
    (h : Laid style.spacedFactors cs ts p) (h' : Laid style.spacedFactors ds us q) :
    Laid style.spacedFactors (cs ++ style.sign symbol ++ ds) (ts ++ t :: us) (p ∧ q) := by
  have hright := h'.cons (legible_of_sign ht hrelation) ht style.margin fun hnil => absurd hnil hus
  have := h.attachSign style.margin ht hparen hrelation hts hright
  rw [Style.sign_eq, ← hsymbol]
  simpa only [List.append_assoc] using this

/-- Under its sign a term is kept apart if it is without. -/
lemma everywhere_term_iff {l : TermSign × Expr} :
    (l.1.term l.2).Everywhere (KeptApart style) ↔ l.2.Everywhere (KeptApart style) := by
  refine ⟨everywhere_term, fun h => ?_⟩
  obtain ⟨sign, e⟩ := l
  cases sign with
  | plus => exact h
  | minus => exact everywhere_apply.mpr ⟨keptApart_of_not_fuses rfl rfl, by simpa using h⟩

/-- Only a factorial sign runs into a relation, and only into an equality sign. -/
lemma touches_relation {ts : List Token} {symbol : String} :
    Touches ts [.relation symbol] ↔ ts.getLast? = some .bang ∧ symbol = "=" := by
  constructor
  · rintro ⟨t, ht, u, hu, hmeets⟩
    obtain rfl : Token.relation symbol = u := by simpa using hu
    cases t <;> simp [meets] at hmeets
    exact ⟨ht, hmeets⟩
  · rintro ⟨ht, rfl⟩
    exact ⟨.bang, ht, .relation "=", rfl, rfl⟩

lemma keptApart_relate {op : Operator} {symbol : String} (hop : op.relationSymbol? = some symbol)
    (args : List Expr) : KeptApart style (relate op args) ↔
      ∀ a ∈ args.dropLast, ¬ (style.margin = 0 ∧ Touches (tokensIn .sum a) [.relation symbol]) := by
  have hfactors : (relate op args).fusesFactors = false := by
    cases op <;> cases hop <;> rfl
  have hequality : (relate op args).fusesEquality = true ↔
      ∃ a ∈ args.dropLast, (tokensIn .sum a).getLast? = some .bang ∧ symbol = "=" := by
    cases op <;> cases hop <;> simp [relate, fusesEquality]
  have hmargin : style.margin = 0 ↔ style.spacedSigns = false := by
    simp [Style.margin]
  simp only [KeptApart, hfactors, hequality, hmargin, touches_relation]
  constructor
  · rintro ⟨-, hside⟩ a ha ⟨hsigns, hlast⟩
    exact hside ⟨hsigns, a, ha, hlast⟩
  · rintro hsides
    refine ⟨by simp, ?_⟩
    rintro ⟨hsigns, a, ha, hlast⟩
    exact hsides a ha ⟨hsigns, hlast⟩

/-- Operators other than these two keep everything apart. -/
lemma everywhere_plain {op : Operator} {args : List Expr} {marks : Marks}
    (hfactors : (apply op args marks).fusesFactors = false)
    (hequality : (apply op args marks).fusesEquality = false) :
    (apply op args marks).Everywhere (KeptApart style) ↔
      ∀ a ∈ args, a.Everywhere (KeptApart style) :=
  everywhere_apply.trans (and_iff_right (keptApart_of_not_fuses hfactors hequality))

lemma laid_letter {spaced : Bool} {c : Char} (hc : Text.isAlphabetic c = true) :
    Laid spaced (String.singleton c).toList [.word (String.singleton c).toList] True := by
  rw [String.toList_singleton]
  have hlegible : (Token.word [c]).Legible := ⟨⟨by simp, by simpa using hc⟩, by simp⟩
  exact .single hlegible (by simp)

end Places

namespace WellFormed

variable {e : Expr} {style : Style}

/-- **Printed text is the tokens of its expression**, and they are kept apart unless the style lets
some of them run together. -/
theorem laid (h : WellFormed e) (style : Style) :
    Laid style.spacedFactors (e.chars style) e.tokens (e.Everywhere (KeptApart style)) := by
  induction h with
  | @number numeral h =>
      have hlegible : (Token.number numeral).Legible := ⟨h, by simp⟩
      exact (Laid.single hlegible (by simp)).congr
        (iff_of_true trivial (List.forall_mem_singleton.mpr (keptApart_of_not_fuses rfl rfl)))
  | @letter c hc =>
      rw [tokens_var, chars_var, List.append_nil]
      exact (laid_letter hc).congr
        (iff_of_true trivial (List.forall_mem_singleton.mpr (keptApart_of_not_fuses rfl rfl)))
  | @subscript c s hc hs ih =>
      have hsubscript := (laid_textIn ih .whole).consSign (t := .underscore) rfl (by simp)
      rw [tokens_subscript, chars_subscript]
      refine ((laid_letter hc).attachSign 0 rfl (by simp) (by simp) (by simp) hsubscript).congr ?_
      rw [everywhere_subscript, true_and, and_iff_right (keptApart_of_not_fuses rfl rfl)]
  | @parens body _ ih =>
      refine ih.parenthesize.congr ?_
      rw [everywhere_parens, and_iff_right (keptApart_of_not_fuses rfl rfl)]
  | @call c d letters args hword _ hargs ih =>
      have harguments := Laid.arguments args (fun a ha => laid_textIn (ih a ha) .relation)
        fun a ha => tokensIn_ne_nil (hargs a ha).tokens_ne_nil _
      rw [tokens_function, chars_function, List.append_nil, String.toList_ofList]
      refine (harguments.call hword).congr ?_
      rw [everywhere_function, and_iff_right (keptApart_of_not_fuses rfl rfl)]
  | @root args hargs ih =>
      have harguments := Laid.arguments args (fun a ha => laid_textIn (ih a ha) .relation)
        fun a ha => tokensIn_ne_nil (hargs a ha).tokens_ne_nil _
      rw [tokens_root, chars_root]
      exact (harguments.call (by decide)).congr (everywhere_plain rfl rfl).symm
  | @sum first links hne hfirst hlinks ih ihs =>
      have hterms := Laid.terms style.margin links (laid_textIn ih .product)
        (tokensIn_ne_nil hfirst.tokens_ne_nil _) (fun l hl => laid_textIn (ihs l hl) .product)
        fun l hl => tokensIn_ne_nil (hlinks l hl).tokens_ne_nil _
      rw [tokens_add, chars_add, termsTokens_links hlinks, termsChars_links style hlinks]
      refine hterms.congr ?_
      rw [add, everywhere_plain rfl rfl, List.forall_mem_cons, List.forall_mem_map]
      simp only [everywhere_term_iff]
  | @product args _ hargs ih =>
      have hfactors := Laid.separate (t := .times) style.margin style.margin
        (legible_of_sign rfl (by simp)) rfl (by simp) args
        (fun a ha => laid_textIn (ih a ha) .sign)
        fun a ha => tokensIn_ne_nil (hargs a ha).tokens_ne_nil _
      rw [tokens_mul, chars_mul, Style.sign_eq]
      refine hfactors.congr ?_
      rw [mul, everywhere_plain rfl rfl]
      exact and_iff_left fun a _ hclash => Laid.not_touches rfl (by simp) hclash.2
  | @juxtaposition args hlen hargs ih =>
      obtain ⟨a, args, rfl⟩ := List.exists_cons_of_length_pos (Nat.lt_of_lt_of_le Nat.two_pos hlen)
      have hfactors := Laid.juxtapose a args (fun b hb => laid_textIn (ih b hb) .power)
        fun b hb => opensFactor_tokensIn (by decide) (hargs b hb).opensFactor_tokens
      rw [tokens_juxtapose, chars_juxtapose]
      refine hfactors.congr ?_
      rw [juxtapose, everywhere_apply, and_comm]
      simp [KeptApart, fusesFactors, fusesEquality]
  | @quotient a b ha hb iha ihb =>
      have hdiv := laid_sign (t := .slash) "/" rfl rfl (by simp) (by simp)
        (tokensIn_ne_nil ha.tokens_ne_nil _) (tokensIn_ne_nil hb.tokens_ne_nil _)
        (laid_textIn iha .product) (laid_textIn ihb .sign)
      rw [tokens_div, chars_div]
      refine hdiv.congr ?_
      rw [div, everywhere_plain rfl rfl]
      simp
  | @power b x hb hx ihb ihx =>
      have hexponent := (laid_textIn ihx x.leastAsExponent).consSign (t := .caret) rfl (by simp)
      rw [tokens_pow, chars_pow]
      refine ((laid_textIn ihb .factorial).attachSign 0 rfl (by simp) (by simp)
        (tokensIn_ne_nil hb.tokens_ne_nil _) hexponent).congr ?_
      rw [pow, everywhere_plain rfl rfl]
      simp
  | @neg e he ih =>
      rw [tokens_neg, chars_neg, List.append_nil]
      refine ((laid_textIn ih .sign).consSign (t := .minus) rfl (by simp)).congr ?_
      rw [Expr.neg, everywhere_plain rfl rfl]
      simp
  | @pos e he ih =>
      rw [tokens_pos, chars_pos, List.append_nil]
      refine ((laid_textIn ih .sign).consSign (t := .plus) rfl (by simp)).congr ?_
      rw [Expr.pos, everywhere_plain rfl rfl]
      simp
  | @abs e he ih =>
      have hclose : Laid style.spacedFactors ['|'] [.bar] True :=
        Laid.nil.consSign (t := .bar) rfl (by simp)
      have hopen := (laid_textIn ih .relation).consSign (t := .bar) rfl (by simp)
      rw [tokens_abs, chars_abs, List.append_nil]
      refine (hopen.attachSign 0 rfl (by simp) (by simp) (by simp) hclose).congr ?_
      rw [Expr.abs, everywhere_plain rfl rfl]
      simp
  | @fact e he ih =>
      have hbang : Laid style.spacedFactors ['!'] [.bang] True :=
        .single (t := .bang) ⟨trivial, by simp⟩ (by simp)
      have htouches : ∀ ts, ¬ Touches ts [.bang] := by
        rintro ts ⟨t, -, u, hu, hmeets⟩
        obtain rfl : Token.bang = u := by simpa using hu
        cases t <;> cases hmeets
      rw [tokens_fact, chars_fact, List.append_nil]
      refine ((laid_textIn ih .factorial).glue 0 hbang (tokensIn_ne_nil he.tokens_ne_nil _)
        (by simp) (by simp)).congr ?_
      rw [Expr.fact, everywhere_plain rfl rfl]
      simp [htouches]
  | @relation op symbol args hop _ hargs ih =>
      have hsymbol : (Token.relation symbol).Legible := by
        refine ⟨trivial, ?_⟩
        cases op <;> cases hop <;> simp [relationSymbols]
      have hsides := Laid.separate style.margin style.margin hsymbol rfl (by simp) args
        (fun a ha => laid_textIn (ih a ha) .sum)
        fun a ha => tokensIn_ne_nil (hargs a ha).tokens_ne_nil _
      rw [tokens_relate hop, chars_relate style hop, Style.sign_eq]
      refine hsides.congr ?_
      rw [← keptApart_relate hop, relate, everywhere_apply, and_comm]

end WellFormed

end Expr

/-! ## Reading what was printed -/

/-- Behind a relation an operand has to begin. -/
lemma Progress.isChain_of_run : ∀ {ts : List Token} {p q : Progress}, p.run ts = some q →
    ts.IsChain fun t u => ∀ symbol symbol', t = .relation symbol → u ≠ .relation symbol'
  | [], _, _, _ => .nil
  | [_], _, _, _ => .singleton _
  | t :: u :: ts, p, q, h => by
      obtain ⟨p', ht, h⟩ := Option.bind_eq_some_iff.mp (run_cons.symm.trans h)
      obtain ⟨p'', hu, -⟩ := Option.bind_eq_some_iff.mp (run_cons.symm.trans h)
      refine List.isChain_cons_cons.mpr ⟨?_, isChain_of_run h⟩
      rintro symbol symbol' rfl rfl
      have hopening : p'.stage = .opening := by
        obtain ⟨s, groups⟩ := p
        cases s <;> cases ht <;> rfl
      obtain ⟨s, groups⟩ := p'
      cases hopening
      cases hu

namespace Derives

variable {ts : List Token} {e : Expr}

/-- In an expression no relation is right behind another one. -/
lemma isChain (h : Derives .relation ts e) :
    ts.IsChain fun t u => ∀ symbol symbol', t = .relation symbol → u ≠ .relation symbol' := by
  have hspell : Token.spellOut ts = ts := by simpa using h.settled []
  obtain ⟨q, hrun, -⟩ := Reader.exists_ok_iff.mp ⟨e, Reader.readExpr_eq_ok_iff.mpr (hspell ▸ h)⟩
  exact Progress.isChain_of_run (hspell ▸ hrun)

end Derives

namespace Expr

variable {text : String} {e u : Expr}

lemma parse_eq_ok_iff : parse text = .ok u ↔
    ∃ ts, (Token.ofText text).toOption = some ts ∧ Derives .relation (Token.spellOut ts) u := by
  unfold parse
  cases hts : Token.ofText text with
  | error error => simp [bind, Except.bind, Except.toOption]
  | ok ts =>
      have hread : ofTokens ts = .ok u ↔ Derives .relation (spellOut ts) u :=
        Reader.readExpr_eq_ok_iff
      simpa [Except.toOption, bind, Except.bind] using hread

/-- Printed text is scanned as the tokens of its expression where they are kept apart.  Elsewhere it
has fewer tokens that stand for anything, if it can be scanned. -/
lemma WellFormed.scans_print (h : WellFormed e) (hderives : Derives .relation e.tokens u)
    (style : Style) :
    (e.Everywhere (KeptApart style) ∧
      ∃ ts, (ofText (e.print style)).toOption = some ts ∧ spellOut ts = e.tokens) ∨
    ¬ e.Everywhere (KeptApart style) ∧
      ∀ ts, (ofText (e.print style)).toOption = some ts →
        (spellOut ts).countP counts < e.tokens.countP counts := by
  obtain ⟨ls, hls⟩ := h.laid style
  have htext : (ofText (e.print style)).toOption = Lexeme.scan ls := by
    have hrelations : (ls.map Lexeme.token).IsChain fun t u =>
        ∀ symbol symbol', t = .relation symbol → u ≠ .relation symbol' := by
      rw [hls.tokens_eq]
      exact hderives.isChain
    rw [ofText, print, String.toList_ofList, ← hls.text_eq]
    exact Lexeme.ofChars_text ⟨hls.legible', hrelations⟩
  have hwords : ∀ l ∈ ls, l.token ≠ .word [] := fun l hl hword => by
    have hlexical := (hls.legible' l hl).1
    rw [hword] at hlexical
    exact hlexical.1 rfl
  have hspell : spellOut (ls.map Lexeme.token) = ls.map Lexeme.token := by
    rw [hls.tokens_eq]
    simpa using hderives.settled []
  rw [htext, ← hls.apart_iff, ← hls.tokens_eq]
  rcases Lexeme.scan_spec hwords hspell with ⟨ts, hscan, hfinds⟩ | ⟨hscan, hapart⟩
  · simp only [hscan, Option.some.injEq, forall_eq', exists_eq_left']
    exact hfinds.tokens
  · exact .inr ⟨hapart, by simp [hscan]⟩

/-- What could be read is read in normal form from text in any style that keeps its tokens apart. -/
lemma Parsed.parse_print_style {style : Style} (h : Parsed .relation e)
    (hapart : e.Everywhere (KeptApart style)) : parse (e.print style) = .ok (e.normal false) := by
  have hderives := h.wellFormed.derives_tokens h.everywhere_bars
  have hstable : e.reread = e.normal false := h.stable
  rcases h.wellFormed.scans_print hderives style with ⟨-, ts, hts, hspell⟩ | ⟨hnot, -⟩
  · rw [← hstable]
    exact parse_eq_ok_iff.mpr ⟨ts, hts, hspell ▸ hderives⟩
  · exact absurd hapart hnot

/-- **What survives in another style.**  The text that an expression is printed as is read, and as
that expression up to parentheses, if and only if the style keeps its tokens apart everywhere. -/
theorem survives_style_iff (h : parse text = .ok e) (style : Style) :
    (∃ u, parse (e.print style) = .ok u ∧ u.bare = e.bare) ↔ e.Everywhere (KeptApart style) := by
  have hparsed := parsed_of_parse h
  by_cases hapart : e.Everywhere (KeptApart style)
  · exact iff_of_true ⟨_, hparsed.parse_print_style hapart, bare_normal false e⟩ hapart
  refine iff_of_false ?_ hapart
  rintro ⟨u, hu, hubare⟩
  obtain ⟨ts, hts, hu⟩ := parse_eq_ok_iff.mp hu
  have hderives := hparsed.wellFormed.derives_tokens hparsed.everywhere_bars
  have hstable : e.reread = e.normal false := hparsed.stable
  rcases hparsed.wellFormed.scans_print hderives style with ⟨hnot, -⟩ | ⟨-, hfewer⟩
  · exact absurd hnot hapart
  -- what was lost is missing in the tree
  have hcounts : u.counted = e.reread.counted := by
    rw [← counted_bare u, hubare, hstable, ← bare_normal false e, counted_bare]
  have hlt := hfewer ts hts
  rw [hu.countP_counts, hderives.countP_counts] at hlt
  omega

/-- **Leaving out spaces between factors** changes what a text means exactly if a letter is in front
of the name of a function, or a numeral that ends with a point in front of another numeral. -/
theorem survives_juxtaposed_iff (h : parse text = .ok e) :
    (∃ u, parse (e.print { spacedFactors := false }) = .ok u ∧ u.bare = e.bare) ↔
      e.Everywhere fun d => d.fusesFactors = false := by
  rw [survives_style_iff h]
  simp [Everywhere, KeptApart]

/-- Without its space `x sin(y)` calls a function of another name, and `2. 3` is one numeral. -/
theorem lost_in_juxtaposing :
    parse "x sin(y)" = .ok (juxtapose [var "x", function "sin" [var "y"]]) ∧
      (juxtapose [var "x", function "sin" [var "y"]]).print { spacedFactors := false } =
        "xsin(y)" ∧
      (¬ ∃ u, parse ((juxtapose [var "x", function "sin" [var "y"]]).print
        { spacedFactors := false }) = .ok u ∧
        u.bare = (juxtapose [var "x", function "sin" [var "y"]]).bare) ∧
      parse "2. 3" = .ok (juxtapose [number "2.", number "3"]) ∧
      (juxtapose [number "2.", number "3"]).print { spacedFactors := false } = "2.3" ∧
      ¬ ∃ u, parse ((juxtapose [number "2.", number "3"]).print
        { spacedFactors := false }) = .ok u ∧
        u.bare = (juxtapose [number "2.", number "3"]).bare := by
  have hcall : parse "x sin(y)" = .ok (juxtapose [var "x", function "sin" [var "y"]]) := by
    decide +kernel
  have hpoint : parse "2. 3" = .ok (juxtapose [number "2.", number "3"]) := by decide +kernel
  refine ⟨hcall, by decide, fun hu => ?_, hpoint, by decide, fun hu => ?_⟩
  · exact absurd ((survives_juxtaposed_iff hcall).mp hu) (by decide)
  · exact absurd ((survives_juxtaposed_iff hpoint).mp hu) (by decide)

/-- **Leaving out spaces around signs** changes what a text means exactly if a factorial is in front
of an equality sign. -/
theorem survives_tight_iff (h : parse text = .ok e) :
    (∃ u, parse (e.print { spacedSigns := false }) = .ok u ∧ u.bare = e.bare) ↔
      e.Everywhere fun d => d.fusesEquality = false := by
  rw [survives_style_iff h]
  simp [Everywhere, KeptApart]

/-- Without its spaces `x! = 2` is the inequality `x != 2`. -/
theorem lost_in_tightening :
    parse "x! = 2" = .ok (relate .eq [fact (var "x"), number "2"]) ∧
      (relate .eq [fact (var "x"), number "2"]).print { spacedSigns := false } = "x!=2" ∧
      ¬ ∃ u, parse ((relate .eq [fact (var "x"), number "2"]).print
        { spacedSigns := false }) = .ok u ∧
        u.bare = (relate .eq [fact (var "x"), number "2"]).bare := by
  have h : parse "x! = 2" = .ok (relate .eq [fact (var "x"), number "2"]) := by decide +kernel
  exact ⟨h, by decide, fun hu => absurd ((survives_tight_iff h).mp hu) (by decide)⟩

/-- Letters in front of a parenthesis, and digits in front of a point, are set apart in any
style. -/
example : (juxtapose [var "x", var "y", parens (var "z"), number "2", number ".5"]).print
    { spacedFactors := false, spacedSigns := false } = "x y(z)2 .5" := by
  decide

end Expr

end MathExpr
