import Mathlib.Data.List.Basic
import MathExpr.Expr.Equality
import MathExpr.Proofs.Grammar.Completeness
import MathExpr.Proofs.Printing.Lexemes

/-!
# The leaves of what is read

Reading turns signs and groups into the shape of a tree, and keeps everything else: the characters
of numerals and the letters of a text are those at the leaves of its tree, in the same order.

* `Expr.leaves` — the characters at the leaves of a tree, from left to right.
* `Token.content` — the characters that a token has in common with a leaf.
* **`Derives.leaves_eq`** — a phrase and its tree agree on them, rule by rule of the grammar.
* `Token.filter_isContentChar` — so do a text and its tokens.
* **`Expr.leaves_of_parse`** — and therefore a text and the expression it is read as.
-/

namespace MathExpr

/-! ## Leaves -/

/-- The letters that an operator is written with. -/
def Operator.letters : Operator → List Char
  | .nthRoot => ['n', 't', 'h', 'R', 'o', 'o', 't']
  | _ => []

namespace Expr

mutual

/-- The characters at the leaves of an expression, from left to right. -/
def leaves : Expr → List Char
  | .number numeral => numeral.toList
  | .identifier name subscript => name.toList ++ subscriptLeaves subscript
  | .apply op args _ => op.letters ++ listLeaves args
  | .call name subscript args _ => name.toList ++ subscriptLeaves subscript ++ listLeaves args
  | .parens body => body.leaves

/-- The characters at the leaves of a subscript. -/
def subscriptLeaves : Option Expr → List Char
  | none => []
  | some e => e.leaves

/-- The characters at the leaves of each expression of a list. -/
def listLeaves : List Expr → List Char
  | [] => []
  | e :: es => e.leaves ++ listLeaves es

end

lemma listLeaves_eq_flatMap (es : List Expr) : listLeaves es = es.flatMap leaves := by
  induction es with
  | nil => rfl
  | cons e es ih => rw [listLeaves, ih, List.flatMap_cons]

@[simp] lemma leaves_number (numeral : String) : (number numeral).leaves = numeral.toList := rfl

@[simp] lemma leaves_var (name : String) : (var name).leaves = name.toList :=
  List.append_nil _

@[simp] lemma leaves_subscripted (name : String) (s : Expr) :
    (identifier name (some s)).leaves = name.toList ++ s.leaves := rfl

@[simp] lemma leaves_parens (body : Expr) : (parens body).leaves = body.leaves := rfl

/-- Parentheses at the root have no leaves of their own. -/
@[simp] lemma leaves_unparenthesized (e : Expr) : e.unparenthesized.leaves = e.leaves := by
  cases e <;> rfl

@[simp] lemma leaves_apply (op : Operator) (args : List Expr) (marks : Marks) :
    (apply op args marks).leaves = op.letters ++ args.flatMap leaves := by
  rw [leaves, listLeaves_eq_flatMap]

/-- A call has its name in front of its arguments, and so has a root. -/
lemma leaves_callOf (name : String) (args : List Expr) :
    (Phrase.callOf name args).leaves = name.toList ++ args.flatMap leaves := by
  unfold Phrase.callOf
  split
  · next hname =>
    rw [leaves_apply, hname]
    rfl
  · rw [function, leaves, listLeaves_eq_flatMap, subscriptLeaves, List.append_nil]

/-- An operator without letters leaves its operands as they are, be there one or many of them. -/
lemma leaves_gather {op : Operator} (hop : op.letters = []) (marks : Marks) (es : List Expr) :
    (gather (apply op · marks) es).leaves = es.flatMap leaves := by
  match es with
  | [e] => simp
  | [] | _ :: _ :: _ =>
      rw [gather, leaves_apply, hop, List.nil_append]
      simp

lemma leaves_iterate_fact (e : Expr) : ∀ k : ℕ, (fact^[k] e).leaves = e.leaves
  | 0 => rfl
  | k + 1 => by
      rw [Function.iterate_succ_apply', fact, leaves_apply, List.flatMap_cons,
        leaves_iterate_fact e k]
      exact List.append_nil _

lemma leaves_term (sign : TermSign) (e : Expr) : (sign.term e).leaves = e.leaves := by
  cases sign <;> simp [TermSign.term, neg, Operator.letters]

end Expr

open MathExpr.Expr

/-- A factor that is added, or divided by, comes after all the others. -/
lemma FactorSign.leaves_extend (factors : List Expr) (sign : FactorSign) (e : Expr) :
    (sign.extend factors e).flatMap leaves = factors.flatMap leaves ++ e.leaves := by
  cases sign with
  | times => simp [extend]
  | slash =>
      have hmul : (gather mul factors).leaves = factors.flatMap leaves := leaves_gather rfl _ _
      simp [extend, div, Operator.letters, hmul]

namespace RelationChain

lemma leaves_relation (symbol : String) (sides : List Expr) :
    (relation symbol sides).leaves = sides.flatMap leaves := by
  have hletters : (Operator.ofRelationSymbol symbol).letters = [] := by
    unfold Operator.ofRelationSymbol
    repeat' split
    all_goals rfl
  rw [relation, relate, leaves_apply, hletters, List.nil_append]

/-- A further side comes after all the others, whether its symbol chains or not. -/
lemma leaves_extend (chain : RelationChain) (symbol : String) (e : Expr) :
    (chain.extend symbol e).toExpr.leaves = chain.toExpr.leaves ++ e.leaves := by
  cases chain with
  | single side => simp [extend, toExpr, leaves_relation]
  | linked previous sides =>
      rw [extend]
      split <;> simp [toExpr, leaves_relation]

end RelationChain

/-! ## Tokens and leaves -/

/-- The characters that a token has in common with a leaf. -/
def Token.content : Token → List Char
  | .number numeral => numeral.toList
  | .word letters => letters
  | _ => []

open Token

@[simp] lemma TermSign.content_token (sign : TermSign) : sign.token.content = [] := by
  cases sign <;> rfl

@[simp] lemma FactorSign.content_token (sign : FactorSign) : sign.token.content = [] := by
  cases sign <;> rfl

/-- The letters of a word stay when it is taken apart. -/
lemma Token.content_spellOut : ∀ ts : List Token,
    (spellOut ts).flatMap content = ts.flatMap content
  | [] => rfl
  | t :: ts => by
      have ih := content_spellOut ts
      by_cases ht : ∃ letters, t = .word letters
      · obtain ⟨letters, rfl⟩ := ht
        rw [spellOut_word]
        split <;> simp [ih, content, List.flatMap_map]
      · rw [spellOut_cons fun letters hl => ht ⟨letters, hl⟩, List.flatMap_cons, ih,
          List.flatMap_cons]

namespace Derives

variable {n : Category} {ts : List Token} {e : Expr}

/-- Parts agree with their trees side by side if each of them does. -/
lemma content_flatMap {α : Type} {f : α → List Token} {g : α → Expr} : ∀ {as : List α},
    (∀ a ∈ as, (g a).leaves = (f a).flatMap content) →
    (as.flatMap f).flatMap content = as.flatMap fun a => (g a).leaves
  | [], _ => rfl
  | a :: as, h => by
      obtain ⟨ha, h⟩ := List.forall_mem_cons.mp h
      rw [List.flatMap_cons, List.flatMap_append, ← ha, content_flatMap h, List.flatMap_cons]

/-- Parts of a chain follow what they are linked to. -/
lemma foldl_leaves {σ α : Type} (sign : σ → Token) (value : α → List Char)
    {extend : α → σ → Expr → α} (hsign : ∀ s, (sign s).content = [])
    (hextend : ∀ a s e, value (extend a s e) = value a ++ e.leaves) :
    ∀ (links : List (σ × Part)) (a : α),
      (∀ l ∈ links, l.2.expr.leaves = l.2.tokens.flatMap content) →
      value (links.foldl (fun a l => extend a l.1 l.2.expr) a) =
        value a ++ (linked sign links).flatMap content
  | [], a, _ => by simp
  | (s, p) :: links, a, h => by
      obtain ⟨hp, h⟩ := List.forall_mem_cons.mp h
      rw [List.foldl_cons, foldl_leaves sign value hsign hextend links _ h, hextend, linked_cons,
        hp]
      simp [hsign]

/-- **A phrase and its tree have the same numerals and letters, in the same order.** -/
theorem leaves_eq (h : Derives n ts e) : e.leaves = ts.flatMap content := by
  induction h with
  | number | letter => simp [content]
  | subscript c _ ih => simp [content, ih]
  | call c d letters args _ ih =>
      have hargs : (separate .comma (args.map Part.tokens)).flatMap content =
          args.flatMap fun arg => arg.expr.leaves := by
        cases args with
        | nil => rfl
        | cons arg args =>
            obtain ⟨harg, hothers⟩ := List.forall_mem_cons.mp ih
            have hlist : (args.flatMap fun arg => .comma :: arg.tokens).flatMap content =
                args.flatMap fun arg => arg.expr.leaves :=
              content_flatMap fun arg ha => (hothers arg ha).trans (List.nil_append _).symm
            rw [List.map_cons, separate, List.flatMap_append, ← harg, List.flatMap_map, hlist,
              List.flatMap_cons]
      rw [leaves_callOf, List.flatMap_append, List.flatMap_cons, List.flatMap_cons, hargs]
      simp [content, List.flatMap_map]
  | parens _ ih => simp [content, ih]
  | bars _ ih => simp [content, Expr.abs, Operator.letters, ih]
  | factorial k _ ih => simp [leaves_iterate_fact, content, ih]
  | base _ ih | exponent _ ih | unsigned _ ih => exact ih
  | power _ _ ihb ihx => simp [content, Expr.pow, Operator.letters, ihb, ihx]
  | negExponent _ ih | neg _ ih => simp [content, Expr.neg, Operator.letters, ih]
  | posExponent _ ih | pos _ ih => simp [content, Expr.pos, Operator.letters, ih]
  | @juxtaposition ts e others _ _ _ ih ihs =>
      have hgather : ∀ es, (gather juxtapose es).leaves = es.flatMap leaves := leaves_gather rfl _
      rw [hgather, List.flatMap_append, content_flatMap ihs, List.flatMap_cons, ih]
      simp [List.flatMap_map]
  | product links _ _ ih ihs =>
      have hgather : ∀ es, (gather mul es).leaves = es.flatMap leaves := leaves_gather rfl _
      have hlinks := foldl_leaves FactorSign.token (List.flatMap leaves)
        FactorSign.content_token FactorSign.leaves_extend links
      rw [hgather, hlinks _ ihs, List.flatMap_append, ← ih]
      simp
  | sum links _ _ ih ihs =>
      have hgather : ∀ es, (gather add es).leaves = es.flatMap leaves := leaves_gather rfl _
      have hlinks : (links.flatMap fun l => l.1.token :: l.2.tokens).flatMap content =
          links.flatMap fun l => l.2.expr.leaves := by
        refine content_flatMap fun l hl => ?_
        rw [List.flatMap_cons, TermSign.content_token, List.nil_append, ihs l hl]
      rw [hgather, List.flatMap_append, ← ih, linked, hlinks]
      simp [List.flatMap_map, leaves_term]
  | relation links _ _ ih ihs =>
      have hlinks := foldl_leaves Token.relation (fun chain => (RelationChain.toExpr chain).leaves)
        (fun _ => rfl) RelationChain.leaves_extend links
      rw [hlinks _ ihs, List.flatMap_append, ← ih, RelationChain.toExpr_single]

end Derives

/-! ## Texts and leaves -/

namespace Token

open Text

variable {c : Char} {cs rest : List Char} {t : Token}

/-- The characters of a text that stand in a leaf: ASCII digits, points and letters. -/
def isContentChar (c : Char) : Bool :=
  c.isDigit || c == '.' || isAlphabetic c

lemma isContentChar_of_isWhiteSpace (h : isWhiteSpace c = true) : isContentChar c = false := by
  rw [← Bool.not_eq_true]
  intro hc
  rcases Bool.or_eq_true_iff.mp hc with hc | hc
  · simp [isWhiteSpace_of_isNumeralChar hc] at h
  · simp [isWhiteSpace_of_isAlphabetic hc] at h

/-- No sign has a character that stands in a leaf. -/
lemma filter_of_ofSign (h : ofSign c cs = .ok (t, rest)) :
    t.content = [] ∧ (c :: cs).filter isContentChar = rest.filter isContentChar := by
  have hsign : ∀ {c : Char} {t : Token}, ofChar? c = some t →
      t.content = [] ∧ isContentChar c = false := by
    intro c t h
    unfold ofChar? at h
    split at h <;> cases h <;> exact ⟨rfl, by decide⟩
  unfold ofSign at h
  split at h
  case h_8 =>
    split at h
    · next hc =>
      cases h
      exact ⟨(hsign hc).1, List.filter_cons_of_neg (by simp [hsign hc])⟩
    · cases h
  all_goals
    cases h
    exact ⟨rfl, rfl⟩

/-- A run of characters that stand in a leaf is split off whole. -/
lemma filter_run {p : Char → Bool} (hp : ∀ c, p c = true → isContentChar c = true)
    (cs : List Char) : cs.filter isContentChar =
      cs.takeWhile p ++ (cs.dropWhile p).filter isContentChar := by
  have hrun : (cs.takeWhile p).filter isContentChar = cs.takeWhile p :=
    List.filter_eq_self.mpr fun c hc => hp c (List.all_eq_true.mp List.all_takeWhile c hc)
  rw [← hrun, ← List.filter_append, List.takeWhile_append_dropWhile]

lemma filter_of_first (h : first c cs = .ok (t, rest)) :
    (c :: cs).filter isContentChar = t.content ++ rest.filter isContentChar := by
  unfold first at h
  split at h
  · split at h
    · cases h
    · cases h
      rw [content, String.toList_ofList]
      exact filter_run (fun c hc => Bool.or_eq_true_iff.mpr (.inl hc)) _
  · split at h
    · cases h
      exact filter_run (fun c hc => Bool.or_eq_true_iff.mpr (.inr hc)) _
    · obtain ⟨hcontent, hfilter⟩ := filter_of_ofSign h
      rw [hcontent, hfilter, List.nil_append]

/-- A text and its tokens have the same numerals and letters, in the same order. -/
theorem filter_isContentChar (cs : List Char) {ts : List Token} (h : ofChars cs = .ok ts) :
    cs.filter isContentChar = ts.flatMap content := by
  refine ofChars_induction (motive := fun cs ts => cs.filter isContentChar = ts.flatMap content)
    rfl (fun hblank ih => ?_) (fun hfirst ih => ?_) cs h
  · rw [List.filter_cons_of_neg (by simp [isContentChar_of_isWhiteSpace hblank]), ih]
  · rw [filter_of_first hfirst, ih, List.flatMap_cons]

end Token

namespace Expr

variable {text : String} {e : Expr}

/-- **Nothing is lost, doubled or moved.**  The leaves of the expression that a text is read as
spell, from left to right, the ASCII digits, points and letters of the text. -/
theorem leaves_of_parse (h : parse text = .ok e) :
    e.leaves = text.toList.filter fun c => c.isDigit || c == '.' || Text.isAlphabetic c := by
  obtain ⟨ts, hts, hderives⟩ := derives_of_parse h
  rw [hderives.leaves_eq, content_spellOut]
  exact (filter_isContentChar _ hts).symm

/-- A word that is taken apart, a subscript, a quotient, a subtraction and a root. -/
theorem leaves_of_difference :
    parse "xy_1 / 2.5 - nthRoot(z, 3)" = .ok
      (sub (div (juxtapose [var "x", identifier "y" (some (number "1"))]) (number "2.5"))
        (root (var "z") (some (number "3")))) ∧
    (sub (div (juxtapose [var "x", identifier "y" (some (number "1"))]) (number "2.5"))
      (root (var "z") (some (number "3")))).leaves = "xy12.5nthRootz3".toList := by
  have h : parse "xy_1 / 2.5 - nthRoot(z, 3)" = .ok
      (sub (div (juxtapose [var "x", identifier "y" (some (number "1"))]) (number "2.5"))
        (root (var "z") (some (number "3")))) := by decide +kernel
  refine ⟨h, ?_⟩
  rw [leaves_of_parse h]
  decide

end Expr

end MathExpr
