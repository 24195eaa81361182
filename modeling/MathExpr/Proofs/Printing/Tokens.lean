import MathExpr.Expr.Printing
import MathExpr.Proofs.Printing.WellFormed

/-!
# The tokens of printed text

The text of a well-formed expression is scanned to exactly the tokens that its notation is made of.
The tokens follow the recursion of the printer, without its blanks.

* `Expr.enclose`, `Expr.tokens` — the tokens of an expression's printed form.
* `Style.juxtapose_eq_join` — factors set apart by spaces are printed like any other list.
* **`Expr.WellFormed.scans`** — the printed text has these tokens.
-/

namespace MathExpr

namespace Style

variable (style : Style)

/-- The number of blanks on either side of a sign. -/
def margin : ℕ :=
  if style.spacedSigns then 1 else 0

lemma sign_eq (symbol : String) : style.sign symbol =
    List.replicate style.margin ' ' ++ (symbol.toList ++ List.replicate style.margin ' ') := by
  rw [sign, margin]
  split <;> simp

end Style

namespace Expr

/-- The tokens of an expression with the binding `b` at a place that needs at least `least`. -/
def enclose (b least : Binding) (ts : List Token) : List Token :=
  if b < least then .leftParen :: ts ++ [.rightParen] else ts

mutual

/-- The tokens of an expression's printed form. -/
def tokens : Expr → List Token
  | .number numeral => [.number numeral]
  | .identifier name subscript => .word name.toList :: subscriptTokens subscript
  | .parens body => .leftParen :: body.tokens ++ [.rightParen]
  | .call name _ args _ =>
    .word name.toList :: .leftParen :: Token.separate .comma (tokensAt .relation args) ++
      [.rightParen]
  | .apply op args marks =>
    match op, args with
    | .add, [] => []
    | .add, term :: terms => enclose term.binding .product term.tokens ++ termsTokens terms
    | .mul, args =>
      if marks.juxtaposed then (tokensAt .power args).flatten
      else Token.separate .times (tokensAt .sign args)
    | .div, [numerator, denominator] =>
      enclose numerator.binding .product numerator.tokens ++
        .slash :: enclose denominator.binding .sign denominator.tokens
    | .pow, [base, exponent] =>
      enclose base.binding .factorial base.tokens ++
        .caret :: enclose exponent.binding exponent.leastAsExponent exponent.tokens
    | .neg, args => .minus :: (tokensAt .sign args).flatten
    | .pos, args => .plus :: (tokensAt .sign args).flatten
    | .fact, args => (tokensAt .factorial args).flatten ++ [.bang]
    | .abs, args => .bar :: (tokensAt .relation args).flatten ++ [.bar]
    | .nthRoot, args =>
      .word "nthRoot".toList :: .leftParen :: Token.separate .comma (tokensAt .relation args) ++
        [.rightParen]
    | relation, args =>
      Token.separate (.relation (relation.relationSymbol?.getD "")) (tokensAt .sum args)

/-- The tokens of a subscript with the sign in front of it. -/
def subscriptTokens : Option Expr → List Token
  | none => []
  | some e => .underscore :: enclose e.binding .whole e.tokens

/-- The tokens of each expression of a list, at a place that needs at least `least`. -/
def tokensAt (least : Binding) : List Expr → List (List Token)
  | [] => []
  | e :: es => enclose e.binding least e.tokens :: tokensAt least es

/-- The tokens of the terms after the first of a sum, each with the sign in front of it. -/
def termsTokens : List Expr → List Token
  | [] => []
  | .apply .neg args ⟨_, true⟩ :: terms =>
    .minus :: (tokensAt .product args).flatten ++ termsTokens terms
  | term :: terms => .plus :: enclose term.binding .product term.tokens ++ termsTokens terms

end

/-- The tokens of an expression at a place that needs at least `least`. -/
def tokensIn (least : Binding) (e : Expr) : List Token :=
  enclose e.binding least e.tokens

/-- The text of an expression at a place that needs at least `least`. -/
def charsIn (least : Binding) (e : Expr) : List Char :=
  bracket e.binding least (e.chars {})

/-- The text of an expression in a style at a place that needs at least `least`. -/
def textIn (style : Style) (least : Binding) (e : Expr) : List Char :=
  bracket e.binding least (e.chars style)

lemma textIn_default : textIn {} = charsIn := rfl

lemma tokensAt_eq_map (least : Binding) (es : List Expr) :
    tokensAt least es = es.map (tokensIn least) := by
  induction es with
  | nil => rfl
  | cons e es ih => rw [tokensAt, ih, List.map_cons, tokensIn]

lemma charsAt_eq_map (style : Style) (least : Binding) (es : List Expr) :
    charsAt style least es = es.map fun e => bracket e.binding least (e.chars style) := by
  induction es with
  | nil => rfl
  | cons e es ih => rw [charsAt, ih, List.map_cons]

lemma charsAt_eq_textIn (style : Style) (least : Binding) (es : List Expr) :
    charsAt style least es = es.map (textIn style least) :=
  charsAt_eq_map style least es

/-! One equation for each kind of expression, for its tokens and for its text. -/

section Equations

variable (style : Style)

lemma tokens_var (name : String) : (var name).tokens = [.word name.toList] := rfl

lemma chars_var (name : String) : (var name).chars style = name.toList ++ [] := rfl

lemma tokens_subscript (name : String) (s : Expr) :
    (identifier name (some s)).tokens = .word name.toList :: .underscore :: tokensIn .whole s := rfl

lemma chars_subscript (name : String) (s : Expr) :
    (identifier name (some s)).chars style = name.toList ++ '_' :: textIn style .whole s := rfl

lemma tokens_function (name : String) (args : List Expr) :
    (function name args).tokens = .word name.toList :: .leftParen ::
      Token.separate .comma (args.map (tokensIn .relation)) ++ [.rightParen] := by
  rw [← tokensAt_eq_map]
  rfl

lemma chars_function (name : String) (args : List Expr) :
    (function name args).chars style =
      name.toList ++ [] ++ Style.arguments (args.map (textIn style .relation)) := by
  rw [← charsAt_eq_textIn]
  rfl

lemma tokens_root (args : List Expr) :
    (apply .nthRoot args {}).tokens = .word "nthRoot".toList :: .leftParen ::
      Token.separate .comma (args.map (tokensIn .relation)) ++ [.rightParen] := by
  rw [← tokensAt_eq_map]
  rfl

lemma chars_root (args : List Expr) :
    (apply .nthRoot args {}).chars style =
      "nthRoot".toList ++ Style.arguments (args.map (textIn style .relation)) := by
  rw [← charsAt_eq_textIn]
  rfl

lemma tokens_add (first : Expr) (terms : List Expr) :
    (add (first :: terms)).tokens = tokensIn .product first ++ termsTokens terms := rfl

lemma chars_add (first : Expr) (terms : List Expr) :
    (add (first :: terms)).chars style =
      textIn style .product first ++ termsChars style terms := rfl

lemma tokens_mul (args : List Expr) :
    (mul args).tokens = Token.separate .times (args.map (tokensIn .sign)) := by
  rw [← tokensAt_eq_map]
  rfl

lemma chars_mul (args : List Expr) :
    (mul args).chars style = Style.join (style.sign "*") (args.map (textIn style .sign)) := by
  rw [← charsAt_eq_textIn]
  rfl

lemma tokens_juxtapose (args : List Expr) :
    (juxtapose args).tokens = args.flatMap (tokensIn .power) := by
  rw [List.flatMap_def, ← tokensAt_eq_map]
  rfl

lemma chars_juxtapose (args : List Expr) :
    (juxtapose args).chars style = style.juxtapose (args.map (textIn style .power)) := by
  rw [← charsAt_eq_textIn]
  rfl

lemma tokens_div (a b : Expr) :
    (div a b).tokens = tokensIn .product a ++ .slash :: tokensIn .sign b := rfl

lemma chars_div (a b : Expr) :
    (div a b).chars style = textIn style .product a ++ style.sign "/" ++ textIn style .sign b := rfl

lemma tokens_pow (b x : Expr) :
    (pow b x).tokens = tokensIn .factorial b ++ .caret :: tokensIn x.leastAsExponent x := rfl

lemma chars_pow (b x : Expr) :
    (pow b x).chars style =
      textIn style .factorial b ++ '^' :: textIn style x.leastAsExponent x := rfl

lemma tokens_neg (e : Expr) (marks : Marks) :
    (neg e marks).tokens = .minus :: (tokensIn .sign e ++ []) := rfl

lemma chars_neg (e : Expr) (marks : Marks) :
    (neg e marks).chars style = '-' :: textIn style .sign e := rfl

lemma tokens_pos (e : Expr) : (pos e).tokens = .plus :: (tokensIn .sign e ++ []) := rfl

lemma chars_pos (e : Expr) : (pos e).chars style = '+' :: textIn style .sign e := rfl

lemma tokens_abs (e : Expr) : (abs e).tokens = .bar :: (tokensIn .relation e ++ []) ++ [.bar] := rfl

lemma chars_abs (e : Expr) : (abs e).chars style = '|' :: textIn style .relation e ++ ['|'] := rfl

lemma tokens_fact (e : Expr) : (fact e).tokens = tokensIn .factorial e ++ [] ++ [.bang] := rfl

lemma chars_fact (e : Expr) : (fact e).chars style = textIn style .factorial e ++ ['!'] := rfl

lemma tokens_relate {op : Operator} {symbol : String} (hop : op.relationSymbol? = some symbol)
    (args : List Expr) :
    (relate op args).tokens = Token.separate (.relation symbol) (args.map (tokensIn .sum)) := by
  cases op <;> cases hop <;> simp [relate, tokens, tokensAt_eq_map, Operator.relationSymbol?]

lemma chars_relate {op : Operator} {symbol : String} (hop : op.relationSymbol? = some symbol)
    (args : List Expr) :
    (relate op args).chars style =
      Style.join (style.sign symbol) (args.map (textIn style .sum)) := by
  have hchars : (relate op args).chars style =
      Style.join (style.sign symbol) (charsAt style .sum args) := by
    cases op <;> cases hop <;> rfl
  rw [hchars, charsAt_eq_textIn]

lemma termsTokens_links : ∀ {links : List (TermSign × Expr)}, (∀ l ∈ links, WellFormed l.2) →
    termsTokens (links.map fun l => l.1.term l.2) =
      links.flatMap fun l => l.1.token :: tokensIn .product l.2
  | [], _ => rfl
  | (.minus, e) :: links, h => by
      have ih := termsTokens_links (List.forall_mem_cons.mp h).2
      simp only [List.map_cons, List.flatMap_cons, ← ih]
      simp [TermSign.term, TermSign.token, Expr.neg, termsTokens, tokensAt_eq_map]
  | (.plus, e) :: links, h => by
      obtain ⟨he, hlinks⟩ := List.forall_mem_cons.mp h
      have ih := termsTokens_links hlinks
      simp only [List.map_cons, List.flatMap_cons, ← ih]
      rw [TermSign.term, termsTokens]
      · rfl
      · intro args j
        exact he.ne_subtracted args j

lemma termsChars_links : ∀ {links : List (TermSign × Expr)}, (∀ l ∈ links, WellFormed l.2) →
    termsChars style (links.map fun l => l.1.term l.2) =
      links.flatMap fun l => List.replicate style.margin ' ' ++
        (l.1.token.spelling ++ (List.replicate style.margin ' ' ++ textIn style .product l.2))
  | [], _ => rfl
  | (.minus, e) :: links, h => by
      have ih := termsChars_links (List.forall_mem_cons.mp h).2
      simp only [List.map_cons, List.flatMap_cons, ← ih]
      simp [TermSign.term, TermSign.token, Token.spelling, Expr.neg, termsChars, charsAt_eq_textIn,
        Style.sign_eq]
  | (.plus, e) :: links, h => by
      obtain ⟨he, hlinks⟩ := List.forall_mem_cons.mp h
      have ih := termsChars_links hlinks
      simp only [List.map_cons, List.flatMap_cons, ← ih]
      rw [TermSign.term, termsChars]
      · simp [TermSign.token, Token.spelling, textIn, Style.sign_eq]
      · intro args j
        exact he.ne_subtracted args j

end Equations

end Expr

/-! ## Scanning what was printed -/

open Token

/-- A blank is no letter. -/
lemma Style.splitLetters_blank (written : List Char) :
    splitLetters (' ' :: written) = ' ' :: written := by
  cases written with
  | nil => rfl
  | cons d written => simp [splitLetters, show Text.isAlphabetic ' ' = false by decide]

/-- Factors set apart by spaces are printed like any other list, unless the first is empty. -/
lemma Style.juxtapose_eq_join {text : List Char} (hne : text ≠ []) (texts : List (List Char)) :
    Style.juxtapose {} (text :: texts) = Style.join [' '] (text :: texts) := by
  -- every further factor is written behind a space, which no letter or digit meets
  have hplace : ∀ (texts : List (List Char)) (written : List Char), written ≠ [] →
      (texts.foldl (Style.placeFactor {}) written).reverse =
        written.reverse ++ texts.flatMap (' ' :: ·) := by
    intro texts
    induction texts with
    | nil => simp
    | cons factor texts ih =>
        intro written hwritten
        have hfactor : Style.placeFactor {} written factor = factor.reverse ++ ' ' :: written := by
          simp [Style.placeFactor, hwritten, Style.splitLetters_blank]
        rw [List.foldl_cons, hfactor, ih _ (by simp)]
        simp
  have hjoin : ∀ (texts : List (List Char)) (text : List Char),
      Style.join [' '] (text :: texts) = text ++ texts.flatMap (' ' :: ·) := by
    intro texts
    induction texts with
    | nil => simp [Style.join]
    | cons factor texts ih => simp [Style.join, ih]
  have hfirst : Style.placeFactor {} [] text = text.reverse := rfl
  rw [hjoin, Style.juxtapose, List.foldl_cons, hfirst, hplace texts _ (by simpa using hne),
    List.reverse_reverse]

namespace Token.Scans

variable {cs ds : List Char} {ts us : List Token} {c : Char}

/-- Two pieces of text, the second of which begins with a separate character. -/
lemma attach (h : Scans cs ts) (hc : Separates [c]) (h' : Scans (c :: ds) us) :
    Scans (cs ++ c :: ds) (ts ++ us) :=
  h.append h' (by simp) (hc.cons ds)

/-- Pieces of text with a separator between any two of them. -/
lemma join {α : Type} {f : α → List Char} {g : α → List Token} (c : Char) (sep : List Char)
    (ts : List Token) (hsep : Separates (c :: sep))
    (hscan : ∀ {ds us}, Scans ds us → Scans (c :: sep ++ ds) (ts ++ us)) :
    ∀ (as : List α) (a : α), (∀ b ∈ a :: as, Scans (f b) (g b)) →
      Scans (Style.join (c :: sep) ((a :: as).map f)) (g a ++ as.flatMap fun b => ts ++ g b)
  | [], a, h => by simpa [Style.join] using h
  | b :: as, a, h => by
      obtain ⟨ha, has⟩ := List.forall_mem_cons.mp h
      have htail := hscan (join c sep ts hsep hscan as b has)
      have := ha.attach hsep htail
      simpa [Style.join] using this

lemma separate {α : Type} {f : α → List Char} {g : α → List Token} {t : Token} (c : Char)
    (sep : List Char) (hsep : Separates (c :: sep))
    (hscan : ∀ {ds us}, Scans ds us → Scans (c :: sep ++ ds) (t :: us)) (as : List α)
    (h : ∀ a ∈ as, Scans (f a) (g a)) :
    Scans (Style.join (c :: sep) (as.map f)) (Token.separate t (as.map g)) := by
  cases as with
  | nil => exact nil
  | cons a as =>
      have := join c sep [t] hsep hscan as a h
      simpa [Token.separate, List.flatMap_map] using this

/-- Texts in parentheses. -/
lemma parenthesize (h : Scans cs ts) :
    Scans (Style.parenthesize cs) (.leftParen :: ts ++ [.rightParen]) :=
  sign rfl (h.attach (by decide) (sign rfl nil))

lemma arguments {α : Type} {f : α → List Char} {g : α → List Token} (as : List α)
    (h : ∀ a ∈ as, Scans (f a) (g a)) : Scans (Style.arguments (as.map f))
      (.leftParen :: Token.separate .comma (as.map g) ++ [.rightParen]) := by
  exact parenthesize (separate ',' [' '] (by decide) (fun h => sign rfl (blank h)) as h)

end Token.Scans

namespace Expr

lemma scans_charsIn {e : Expr} (h : Scans (e.chars {}) e.tokens) (least : Binding) :
    Scans (charsIn least e) (tokensIn least e) := by
  unfold charsIn tokensIn bracket enclose
  split
  · exact h.parenthesize
  · exact h

/-- A sum is scanned term by term. -/
lemma scans_terms : ∀ (links : List (TermSign × Expr)) {cs : List Char} {ts : List Token},
    Scans cs ts → (∀ l ∈ links, Scans (charsIn .product l.2) (tokensIn .product l.2)) →
    Scans (cs ++ links.flatMap fun l => ' ' :: l.1.token.spelling ++ ' ' :: charsIn .product l.2)
      (ts ++ links.flatMap fun l => l.1.token :: tokensIn .product l.2)
  | [], cs, ts, h, _ => by simpa using h
  | (sign, e) :: links, cs, ts, h, hlinks => by
      obtain ⟨he, hlinks⟩ := List.forall_mem_cons.mp hlinks
      have hterm := scans_terms links he hlinks
      have hsign : ∃ c, sign.token.spelling = [c] ∧ ofChar? c = some sign.token := by
        cases sign <;> exact ⟨_, rfl, rfl⟩
      obtain ⟨c, hspelling, hc⟩ := hsign
      have := h.attach (by decide) (.blank (.sign hc (.blank hterm)))
      simpa [hspelling] using this

/-- No place is empty. -/
lemma tokensIn_ne_nil {e : Expr} (h : e.tokens ≠ []) (least : Binding) : tokensIn least e ≠ [] := by
  unfold tokensIn enclose
  split
  · simp
  · exact h

namespace WellFormed

variable {e : Expr}

lemma tokens_ne_nil (h : WellFormed e) : e.tokens ≠ [] := by
  induction h with
  | sum hne _ _ ih _ =>
      rw [tokens_add, Ne, List.append_eq_nil_iff]
      intro hnil
      exact tokensIn_ne_nil ih _ hnil.1
  | @product args hlen _ ih =>
      match args, hlen with
      | a :: _, _ =>
          rw [tokens_mul, List.map_cons, Token.separate, Ne, List.append_eq_nil_iff]
          intro hnil
          exact tokensIn_ne_nil (ih a (by simp)) _ hnil.1
  | @juxtaposition args hlen _ ih =>
      match args, hlen with
      | a :: _, _ =>
          rw [tokens_juxtapose, List.flatMap_cons, Ne, List.append_eq_nil_iff]
          intro hnil
          exact tokensIn_ne_nil (ih a (by simp)) _ hnil.1
  | @relation _ _ args hop hlen _ ih =>
      match args, hlen with
      | a :: _, _ =>
          rw [tokens_relate hop, List.map_cons, Token.separate, Ne, List.append_eq_nil_iff]
          intro hnil
          exact tokensIn_ne_nil (ih a (by simp)) _ hnil.1
  | quotient | power | fact => simp [tokens_div, tokens_pow, tokens_fact]
  | number | letter | subscript | parens | call | root | neg | pos | abs =>
      exact List.cons_ne_nil _ _

/-- **Printed text is scanned to the tokens of its expression.** -/
theorem scans (h : WellFormed e) : Scans (e.chars {}) e.tokens := by
  induction h with
  | number h =>
      have := Scans.numeral h
      rwa [String.ofList_toList] at this
  | @letter c hc =>
      have := Scans.word (show IsWord [c] from ⟨by simp, by simpa using hc⟩)
      simpa [tokens_var, chars_var] using this
  | @subscript c s hc _ ih =>
      have hword := Scans.word (show IsWord [c] from ⟨by simp, by simpa using hc⟩)
      have := hword.attach (c := '_') (by decide) (.sign rfl (scans_charsIn ih .whole))
      simpa [tokens_subscript, chars_subscript, textIn_default] using this
  | parens _ ih => exact ih.parenthesize
  | call hword _ _ ih =>
      have hargs := Scans.arguments _ fun a ha => scans_charsIn (ih a ha) .relation
      have := (Scans.word hword).append hargs (by simp [Style.arguments, Style.parenthesize])
        (Separates.cons (by decide) _)
      simpa [tokens_function, chars_function, textIn_default] using this
  | root _ ih =>
      have hargs := Scans.arguments _ fun a ha => scans_charsIn (ih a ha) .relation
      have hword : IsWord "nthRoot".toList := by decide
      have := (Scans.word hword).append hargs (by simp [Style.arguments, Style.parenthesize])
        (Separates.cons (by decide) _)
      simpa [tokens_root, chars_root, textIn_default] using this
  | sum _ _ hlinks ih ihs =>
      rw [tokens_add, chars_add, termsTokens_links hlinks, termsChars_links {} hlinks]
      exact scans_terms _ (scans_charsIn ih .product) fun l hl => scans_charsIn (ihs l hl) .product
  | product _ _ ih =>
      rw [tokens_mul, chars_mul]
      exact Scans.separate ' ' ['*', ' '] (by decide)
        (fun h => .blank (.sign rfl (.blank h))) _ fun a ha => scans_charsIn (ih a ha) .sign
  | @juxtaposition args hlen hargs ih =>
      match args, hlen with
      | a :: args, _ =>
          have hscans : ∀ b ∈ a :: args, Scans (charsIn .power b) (tokensIn .power b) :=
            fun b hb => scans_charsIn (ih b hb) .power
          have hne : charsIn .power a ≠ [] :=
            (hscans a (by simp)).ne_nil (tokensIn_ne_nil (hargs a (by simp)).tokens_ne_nil _)
          rw [tokens_juxtapose, chars_juxtapose, textIn_default, List.map_cons,
            Style.juxtapose_eq_join hne]
          have := Scans.join ' ' [] [] (by decide) Scans.blank args a hscans
          simpa using this
  | quotient _ _ iha ihb =>
      rw [tokens_div, chars_div, List.append_assoc]
      exact (scans_charsIn iha .product).attach (by decide)
        (.blank (.sign rfl (.blank (scans_charsIn ihb .sign))))
  | power _ _ ihb ihx =>
      rw [tokens_pow, chars_pow]
      exact (scans_charsIn ihb .factorial).attach (by decide) (.sign rfl (scans_charsIn ihx _))
  | neg _ ih =>
      rw [tokens_neg, chars_neg, List.append_nil]
      exact .sign rfl (scans_charsIn ih .sign)
  | pos _ ih =>
      rw [tokens_pos, chars_pos, List.append_nil]
      exact .sign rfl (scans_charsIn ih .sign)
  | abs _ ih =>
      rw [tokens_abs, chars_abs, List.append_nil]
      exact .sign rfl ((scans_charsIn ih .relation).attach (by decide) (.sign rfl .nil))
  | fact _ ih =>
      rw [tokens_fact, chars_fact, List.append_nil]
      exact (scans_charsIn ih .factorial).attach (by decide) .bang
  | @relation op symbol args hop _ _ ih =>
      rw [tokens_relate hop, chars_relate {} hop]
      refine Scans.separate ' ' (symbol.toList ++ [' ']) ?_ (fun h => ?_) _ fun a ha =>
        scans_charsIn (ih a ha) .sum
      · exact Separates.cons (by decide) _
      · rw [List.cons_append, List.append_assoc]
        exact .blank (.relation hop h)

end WellFormed

end Expr

end MathExpr
