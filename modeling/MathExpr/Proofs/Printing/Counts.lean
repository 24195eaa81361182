import MathExpr.Proofs.Grammar.Completeness
import MathExpr.Proofs.Printing.Exponents
import MathExpr.Proofs.Printing.Fusion

/-!
# Tokens and nodes

Numerals, words and factorial signs stand for nodes of a tree, one for each, while signs and groups
may come and go.  So where such tokens are lost, the tree has fewer nodes.

* `Expr.counted` — the number of nodes that have a token which counts.
* `Expr.counted_bare` — parentheses are not among them.
* **`Derives.countP_counts`** — a phrase has as many tokens that count as its tree has nodes.
-/

namespace MathExpr

open Token

/-! ## What counts in a tree -/

namespace Expr

/-- Whether a node has a token that counts. -/
def countWeight : Expr → ℕ
  | .number _ | .identifier _ _ | .call _ _ _ _ => 1
  | .apply .fact _ _ | .apply .nthRoot _ _ => 1
  | .apply _ _ _ | .parens _ => 0

/-- The number of nodes with a token that counts. -/
def counted (e : Expr) : ℕ :=
  total countWeight e

/-- Parentheses do not count. -/
lemma counted_bare (e : Expr) : e.bare.counted = e.counted := by
  refine total_bare countWeight (fun _ => rfl) (fun d hd => ?_) e
  cases d with
  | parens body => exact absurd rfl (hd body)
  | apply op args marks =>
      rw [bare_apply]
      cases op <;> rfl
  | number | identifier | call => rfl

lemma counted_unparenthesized (e : Expr) : e.unparenthesized.counted = e.counted := by
  rw [← counted_bare, bare_unparenthesized, counted_bare]

/-- Most operators have no token that counts. -/
lemma counted_apply {op : Operator} (hfact : op ≠ .fact) (hroot : op ≠ .nthRoot)
    (args : List Expr) (marks : Marks) :
    (apply op args marks).counted = (args.map counted).sum := by
  have hweight : countWeight (apply op args marks) = 0 := by
    cases op <;> first | rfl | contradiction
  exact (total_apply _ _ _ _).trans (by rw [hweight, Nat.zero_add]; rfl)

lemma counted_unary {op : Operator} (hfact : op ≠ .fact) (hroot : op ≠ .nthRoot) (e : Expr)
    (marks : Marks) : (apply op [e] marks).counted = e.counted :=
  (counted_apply hfact hroot _ _).trans (by simp)

lemma counted_gather {op : Operator} (hfact : op ≠ .fact) (hroot : op ≠ .nthRoot) (marks : Marks)
    (es : List Expr) :
    (gather (apply op · marks) es).counted = (es.map counted).sum := by
  match es with
  | [e] => simp
  | [] | _ :: _ :: _ => exact counted_apply hfact hroot _ marks

lemma counted_callOf (name : String) (args : List Expr) :
    (Phrase.callOf name args).counted = 1 + (args.map counted).sum := by
  unfold Phrase.callOf
  split
  · exact total_apply _ _ _ _
  · exact (total_call _ _ _ _ _).trans (by simp; rfl)

lemma counted_fact (e : Expr) : (fact e).counted = e.counted + 1 := by
  have h : (fact e).counted = 1 + ([e].map counted).sum := total_apply _ _ _ _
  rw [h]
  simp [Nat.add_comm]

lemma counted_iterate_fact (e : Expr) : ∀ n : ℕ, (Expr.fact^[n] e).counted = e.counted + n
  | 0 => rfl
  | n + 1 => by
      rw [Function.iterate_succ_apply', counted_fact, counted_iterate_fact e n, Nat.add_assoc]

lemma counted_term (sign : TermSign) (e : Expr) : (sign.term e).counted = e.counted := by
  cases sign with
  | plus => rfl
  | minus => exact counted_unary (by simp) (by simp) e _

end Expr

open MathExpr.Expr

namespace FactorSign

/-- One more factor, whatever its sign does with those before it. -/
lemma sum_counted_extend (sign : FactorSign) (factors : List Expr) (e : Expr) :
    ((sign.extend factors e).map counted).sum = (factors.map counted).sum + e.counted := by
  cases sign with
  | times => simp [extend]
  | slash =>
      have hdiv : (div (gather mul factors) e).counted =
          (gather mul factors).counted + e.counted :=
        (counted_apply (by simp) (by simp) _ _).trans (by simp)
      have hmul : (gather mul factors).counted = (factors.map counted).sum :=
        counted_gather (by simp) (by simp) _ _
      simp [extend, hdiv, hmul]

end FactorSign

namespace RelationChain

lemma counted_relation (symbol : String) (sides : List Expr) :
    (relation symbol sides).counted = (sides.map counted).sum := by
  refine counted_apply ?_ ?_ _ _
  all_goals
    unfold Operator.ofRelationSymbol
    split_ifs <;> simp

/-- One more side, whether its symbol chains or not. -/
lemma counted_extend (chain : RelationChain) (symbol : String) (e : Expr) :
    (chain.extend symbol e).toExpr.counted = chain.toExpr.counted + e.counted := by
  cases chain with
  | single side => simp [extend, toExpr, counted_relation]
  | linked previous sides =>
      rw [extend]
      split <;> simp [toExpr, counted_relation]

end RelationChain

namespace Derives

variable {n : Category} {us : List Token} {e : Expr}

/-- Links of a chain count after what they are linked to. -/
lemma countP_linked {σ α : Type} (sign : σ → Token) (value : α → ℕ) {extend : α → σ → Expr → α}
    (hsign : ∀ s, (sign s).counts = false)
    (hextend : ∀ a s e, value (extend a s e) = value a + e.counted) :
    ∀ (links : List (σ × Part)) (a : α),
      (∀ l ∈ links, l.2.tokens.countP counts = l.2.expr.counted) →
      value (links.foldl (fun a l => extend a l.1 l.2.expr) a) =
        value a + (linked sign links).countP counts
  | [], a, _ => by simp
  | (s, p) :: links, a, h => by
      obtain ⟨hp, h⟩ := List.forall_mem_cons.mp h
      rw [List.foldl_cons, countP_linked sign value hsign hextend links _ h, hextend, linked_cons,
        List.countP_append, List.countP_cons, hsign, hp]
      simp
      omega

lemma countP_flatMap {α : Type} {f : α → List Token} {g : α → Expr} : ∀ (as : List α),
    (∀ a ∈ as, (f a).countP counts = (g a).counted) →
    (as.flatMap f).countP counts = (as.map fun a => (g a).counted).sum
  | [], _ => rfl
  | a :: as, h => by
      obtain ⟨ha, h⟩ := List.forall_mem_cons.mp h
      rw [List.flatMap_cons, List.countP_append, ha, countP_flatMap as h, List.map_cons,
        List.sum_cons]

/-- **Tokens that count are nodes of the tree.** -/
theorem countP_counts (h : Derives n us e) : us.countP counts = e.counted := by
  induction h with
  | number | letter => rfl
  | @subscript c ts s _ ih =>
      have hs : (identifier (String.singleton c) (some s)).counted = 1 + s.counted :=
        total_identifier _ _ _
      rw [hs, List.countP_cons_of_pos rfl, List.countP_cons_of_neg (by simp [counts]), ih]
      omega
  | call c d letters args _ ih =>
      have hargs : (separate .comma (args.map Part.tokens)).countP counts =
          ((args.map Part.expr).map counted).sum := by
        cases args with
        | nil => rfl
        | cons arg args =>
            obtain ⟨harg, hothers⟩ := List.forall_mem_cons.mp ih
            have hlist := countP_flatMap (f := fun p => .comma :: p.tokens) args fun p hp => by
              rw [List.countP_cons_of_neg (by simp [counts]), hothers p hp]
            rw [List.map_cons, separate, List.countP_append, harg, List.flatMap_map, hlist]
            simp [Function.comp_def]
      rw [counted_callOf, List.countP_append, List.countP_cons_of_pos rfl,
        List.countP_cons_of_neg (by simp [counts]), hargs]
      simp [counts, Nat.add_comm]
  | @parens ts e _ ih =>
      have he : (Expr.parens e).counted = e.counted := by
        rw [← counted_bare, bare_parens, counted_bare]
      rw [he, ← ih]
      simp [counts]
  | bars _ ih =>
      rw [Expr.abs, counted_unary (by simp) (by simp), ← ih]
      simp [counts]
  | factorial m _ ih =>
      rw [counted_iterate_fact, List.countP_append, ih]
      simp [counts, List.countP_replicate]
  | base _ ih | exponent _ ih | unsigned _ ih => exact ih
  | power _ _ ihb ihx =>
      have hpow : ∀ b x : Expr, (pow b x).counted = b.counted + x.counted := fun b x =>
        (counted_apply (by simp) (by simp) _ _).trans (by simp)
      rw [hpow, ← ihb, ← ihx]
      simp [counts]
  | negExponent _ ih =>
      rw [Expr.neg, counted_unary (by simp) (by simp), ← ih]
      exact List.countP_cons_of_neg (by simp [counts])
  | posExponent _ ih =>
      rw [Expr.pos, counted_unary (by simp) (by simp), ← ih]
      exact List.countP_cons_of_neg (by simp [counts])
  | neg _ ih =>
      rw [Expr.neg, counted_unary (by simp) (by simp), counted_unparenthesized, ← ih]
      exact List.countP_cons_of_neg (by simp [counts])
  | pos _ ih =>
      rw [Expr.pos, counted_unary (by simp) (by simp), counted_unparenthesized, ← ih]
      exact List.countP_cons_of_neg (by simp [counts])
  | juxtaposition others _ _ _ ih ihs =>
      have hgather : ∀ es, (gather juxtapose es).counted = (es.map counted).sum :=
        counted_gather (by simp) (by simp) _
      rw [hgather, List.countP_append, ih, countP_flatMap others ihs]
      simp [Function.comp_def]
  | product links _ _ ih ihs =>
      have hgather : ∀ es, (gather mul es).counted = (es.map counted).sum :=
        counted_gather (by simp) (by simp) _
      have hlinks := countP_linked FactorSign.token (fun factors => (factors.map counted).sum)
        (fun s => by cases s <;> rfl)
        (fun factors s e => FactorSign.sum_counted_extend s factors e) links
      rw [hgather, hlinks _ ihs, List.countP_append, ih]
      simp
  | sum links _ _ ih ihs =>
      have hgather : ∀ es, (gather add es).counted = (es.map counted).sum :=
        counted_gather (by simp) (by simp) _
      have hlinks := countP_flatMap (f := fun l => l.1.token :: l.2.tokens) links fun l hl => by
        rw [List.countP_cons_of_neg (by cases l.1 <;> simp [TermSign.token, counts]), ihs l hl]
      rw [hgather, List.countP_append, ih, linked, hlinks]
      simp [Function.comp_def, counted_term]
  | relation links _ _ ih ihs =>
      have hlinks := countP_linked Token.relation
        (fun chain => (RelationChain.toExpr chain).counted) (fun _ => rfl)
        RelationChain.counted_extend links
      rw [hlinks _ ihs, List.countP_append, ih, RelationChain.toExpr_single]

end Derives

end MathExpr
