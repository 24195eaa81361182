import Mathlib.Data.List.Induction
import MathExpr.Proofs.LikeTerms.Summands
import MathExpr.Proofs.Printing.Rereading

/-!
# What decompositions hold

Any expressions may be collected into a decomposition, one after the other and with any printers,
also expressions that no text is read as.  Whatever they are, everything in the decomposition is of
a kind, and nothing but coefficients is ever made up.

* `Expr.IsCoefficient` — the shapes of coefficients.
* `Expr.isCoefficient_of_coefficient?` — terms have no other coefficients.
* `Piece.ComesFrom`, `Expr.comesFrom_of_mem_pieces` — the pieces of an expression, each of its kind.
* `Decomposition.ComesFrom` — the invariant: what may be in a decomposition of some expressions.
* `Decomposition.ComesFrom.collect` — collecting one more expression keeps it.
* **`Decomposition.comesFrom_collectEach`** — so it holds after any run.
-/

namespace MathExpr

namespace Expr

/-! ## Coefficients -/

/-- Numbers, fractions of numbers, and products of several of them that are written with
multiplication signs, under any number of negations. -/
inductive IsCoefficient : Expr → Prop
  | constant {e : Expr} : e.isConstant = true → IsCoefficient e
  | product {es : List Expr} : 2 ≤ es.length → (∀ e ∈ es, e.isConstant = true) →
      IsCoefficient (.mul es)
  | neg {e : Expr} (marks : Marks) : IsCoefficient e → IsCoefficient (.neg e marks)

lemma isCoefficient_constantProduct : ∀ {es : List Expr}, (∀ e ∈ es, e.isConstant = true) →
    IsCoefficient (constantProduct es)
  | [], _ => .constant rfl
  | [c], h => .constant (h c (List.mem_singleton_self c))
  | _ :: _ :: _, h => .product (by simp) h

/-- The coefficient of any expression that has one is of such a shape. -/
theorem isCoefficient_of_coefficient? {e c : Expr} (h : e.coefficient? = some c) :
    IsCoefficient c := by
  fun_induction coefficient? e generalizing c with
  | case1 | case2 | case3 =>
      cases h
      exact .constant rfl
  | case4 factors marks =>
      cases h
      exact isCoefficient_constantProduct fun e he => List.of_mem_filter he
  | case5 e es marks hnumber =>
      cases h
      have hconstant : (apply .neg (e :: es) marks).isConstant = true :=
        Bool.or_eq_true_iff.mpr (.inl hnumber)
      exact .constant hconstant
  | case6 e es marks hnumber ih =>
      obtain ⟨c', hc', rfl⟩ := Option.map_eq_some_iff.mp h
      exact .neg _ (ih hc')
  | case7 => cases h

end Expr

/-! ## Pieces -/

namespace Piece

/-- The pieces that an expression may have.  Constants and expressions in parentheses are taken from
it; coefficients may be made up. -/
def ComesFrom (e : Expr) : Piece → Prop
  | .constant c => c.isConstant = true ∧ c ∈ e.subterms
  | .like _ coefficient => coefficient.IsCoefficient
  | .other o => o.isParens = true ∧ o ∈ e.subterms
  | .descent _ => True

lemma ComesFrom.mono {piece : Piece} {e e' : Expr} (h : piece.ComesFrom e)
    (hsub : ∀ d ∈ e.subterms, d ∈ e'.subterms) : piece.ComesFrom e' := by
  cases piece with
  | constant c => exact ⟨h.1, hsub c h.2⟩
  | like key coefficient => exact h
  | other o => exact ⟨h.1, hsub o h.2⟩
  | descent name => trivial

end Piece

namespace Expr

variable {print : Printer} {e : Expr} {piece : Piece}

/-- What an expression is as a whole: a constant, or a term with a coefficient. -/
lemma eq_of_piece? (h : e.piece? print = some piece) :
    piece = .constant e ∧ e.isConstant = true ∨
      ∃ key c, piece = .like key c ∧ e.isTerm = true ∧ e.coefficient? = some c := by
  unfold piece? at h
  split at h
  · next hconstant => exact .inl ⟨(Option.some.inj h).symm, hconstant⟩
  · split at h
    · next hterm =>
      obtain ⟨key, -, h⟩ := Option.bind_eq_some_iff.mp h
      obtain ⟨c, hc, h⟩ := Option.bind_eq_some_iff.mp h
      exact .inr ⟨key, c, (Option.some.inj h).symm, (Bool.and_eq_true_iff.mp hterm).1, hc⟩
    · cases h

lemma comesFrom_of_piece? (h : e.piece? print = some piece) : piece.ComesFrom e := by
  rcases eq_of_piece? h with ⟨rfl, hconstant⟩ | ⟨key, c, rfl, -, hc⟩
  · exact ⟨hconstant, mem_subterms_self e⟩
  · exact isCoefficient_of_coefficient? hc

/-- An identifier is a term. -/
lemma pieces_identifier (print : Printer) (name : String) (s : Option Expr) :
    ∃ key, (identifier name s).pieces print = [.like key (ofInt 1)] := by
  obtain ⟨key, hkey⟩ := exists_key? print (e := identifier name s) (List.cons_ne_nil _ _)
  exact ⟨key, pieces_of_like rfl rfl rfl hkey rfl⟩

/-- An application is one piece, or has those of its operands. -/
lemma mem_pieces_apply {op : Operator} {args : List Expr} {marks : Marks}
    (h : piece ∈ (apply op args marks).pieces print) :
    (apply op args marks).piece? print = some piece ∨ piece = .descent op.name ∨
      ∃ a ∈ args, piece ∈ a.pieces print := by
  rw [pieces] at h
  split at h
  · next p hp => exact .inl (List.mem_singleton.mp h ▸ hp)
  · split at h
    · rw [allPieces_eq_flatMap] at h
      exact .inr (.inr (List.mem_flatMap.mp h))
    · rw [allPieces_eq_flatMap, List.mem_cons] at h
      exact .inr (h.imp id List.mem_flatMap.mp)

lemma mem_pieces_call {name : String} {s : Option Expr} {args : List Expr} {marks : Marks}
    (h : piece ∈ (call name s args marks).pieces print) :
    (call name s args marks).piece? print = some piece ∨ piece = .descent name ∨
      ∃ a ∈ args, piece ∈ a.pieces print := by
  rw [pieces] at h
  split at h
  · next p hp => exact .inl (List.mem_singleton.mp h ▸ hp)
  · rw [allPieces_eq_flatMap, List.mem_cons] at h
    exact .inr (h.imp id List.mem_flatMap.mp)

/-- **The pieces of an expression** are of their kinds. -/
theorem comesFrom_of_mem_pieces (print : Printer) (e : Expr) :
    ∀ piece ∈ e.pieces print, piece.ComesFrom e := by
  induction e using Expr.induction with
  | number numeral =>
      intro piece hpiece
      cases List.mem_singleton.mp hpiece
      exact ⟨rfl, List.mem_singleton_self _⟩
  | identifier name s =>
      intro piece hpiece
      obtain ⟨key, hpieces⟩ := pieces_identifier print name s
      rw [hpieces] at hpiece
      cases List.mem_singleton.mp hpiece
      exact .constant rfl
  | parens body =>
      intro piece hpiece
      cases List.mem_singleton.mp hpiece
      exact ⟨rfl, mem_subterms_self _⟩
  | apply op args marks ih =>
      intro piece hpiece
      rcases mem_pieces_apply hpiece with hwhole | rfl | ⟨a, ha, hpiece⟩
      · exact comesFrom_of_piece? hwhole
      · trivial
      · exact (ih a ha piece hpiece).mono fun d hd => .tail _ (mem_listSubterms ha hd)
  | call name s args marks _ ih =>
      intro piece hpiece
      rcases mem_pieces_call hpiece with hwhole | rfl | ⟨a, ha, hpiece⟩
      · exact comesFrom_of_piece? hwhole
      · trivial
      · exact (ih a ha piece hpiece).mono fun d hd =>
          .tail _ (List.mem_append_right _ (mem_listSubterms ha hd))

end Expr

/-! ## Decompositions -/

/-- What holds of the coefficients of each group holds after one more of them was put into a group
of its own, or to the end of its group. -/
lemma CoefficientGroups.forall_insert {p : List Expr → Prop} {coefficient : Expr} (key : String)
    (hnew : p [coefficient]) (hold : ∀ coefficients, p coefficients →
      p (coefficients ++ [coefficient])) : ∀ {entries : List (String × List Expr)},
    (∀ entry ∈ entries, p entry.2) → ∀ entry ∈ insert key coefficient entries, p entry.2
  | [], _ => List.forall_mem_singleton.mpr hnew
  | entry :: entries, h => by
      obtain ⟨hentry, hentries⟩ := List.forall_mem_cons.mp h
      rw [insert]
      split
      · exact List.forall_mem_cons.mpr ⟨hnew, h⟩
      · split
        · exact List.forall_mem_cons.mpr ⟨hold _ hentry, hentries⟩
        · exact List.forall_mem_cons.mpr ⟨hentry, forall_insert key hnew hold hentries⟩

namespace Decomposition

/-- What may be in a decomposition of the expressions `es`: constants and expressions in parentheses
from inside of them, and coefficients in groups that are not empty. -/
structure ComesFrom (es : List Expr) (d : Decomposition) : Prop where
  constants : ∀ c ∈ d.constants, c.isConstant = true ∧ ∃ e ∈ es, c ∈ e.subterms
  others : ∀ o ∈ d.others, o.isParens = true ∧ ∃ e ∈ es, o ∈ e.subterms
  groups : ∀ entry ∈ d.groups.entries,
    entry.2 ≠ [] ∧ ∀ coefficient ∈ entry.2, coefficient.IsCoefficient

namespace ComesFrom

variable {es es' : List Expr} {d : Decomposition} {e : Expr} {piece : Piece}

lemma empty (es : List Expr) : ComesFrom es {} where
  constants _ h := absurd h List.not_mem_nil
  others _ h := absurd h List.not_mem_nil
  groups _ h := absurd h List.not_mem_nil

lemma mono (h : d.ComesFrom es) (hsub : ∀ e ∈ es, e ∈ es') : d.ComesFrom es' where
  constants c hc := (h.constants c hc).imp id fun ⟨e, he, hce⟩ => ⟨e, hsub e he, hce⟩
  others o ho := (h.others o ho).imp id fun ⟨e, he, hoe⟩ => ⟨e, hsub e he, hoe⟩
  groups := h.groups

/-- Filing a piece of one of the expressions keeps the invariant. -/
lemma add (h : d.ComesFrom es) (he : e ∈ es) (hpiece : piece.ComesFrom e) :
    (d.add piece).ComesFrom es := by
  cases piece with
  | constant c =>
      refine ⟨List.forall_mem_append.mpr ⟨h.constants, ?_⟩, h.others, h.groups⟩
      exact List.forall_mem_singleton.mpr ⟨hpiece.1, e, he, hpiece.2⟩
  | like key coefficient =>
      have hone : ∀ c ∈ [coefficient], c.IsCoefficient := List.forall_mem_singleton.mpr hpiece
      have hgroups := CoefficientGroups.forall_insert
        (p := fun cs => cs ≠ [] ∧ ∀ c ∈ cs, c.IsCoefficient) key ⟨by simp, hone⟩
        (fun cs hcs => ⟨by simp, List.forall_mem_append.mpr ⟨hcs.2, hone⟩⟩) h.groups
      exact ⟨h.constants, h.others, hgroups⟩
  | other o =>
      refine ⟨h.constants, List.forall_mem_append.mpr ⟨h.others, ?_⟩, h.groups⟩
      exact List.forall_mem_singleton.mpr ⟨hpiece.1, e, he, hpiece.2⟩
  | descent name => exact h

lemma foldl_add {pieces : List Piece} (h : d.ComesFrom es) (he : e ∈ es)
    (hpieces : ∀ piece ∈ pieces, piece.ComesFrom e) :
    (pieces.foldl Decomposition.add d).ComesFrom es := by
  induction pieces generalizing d with
  | nil => exact h
  | cons piece pieces ih =>
      obtain ⟨hpiece, hpieces⟩ := List.forall_mem_cons.mp hpieces
      exact ih (h.add he hpiece) hpieces

/-- Collecting one more expression keeps the invariant. -/
theorem collect (h : d.ComesFrom es) (print : Printer) (e : Expr) :
    (d.collect print e).ComesFrom (es ++ [e]) :=
  foldl_add (h.mono fun _ he => List.mem_append_left _ he) (List.mem_append_right _ (.head _))
    (e.comesFrom_of_mem_pieces print)

end ComesFrom

/-- Collects expressions one after the other, each with a printer of its own. -/
def collectEach (steps : List (Printer × Expr)) : Decomposition :=
  steps.foldl (fun d step => d.collect step.1 step.2) {}

/-- **What decompositions hold.**  After any run, its constants are constants, everything else that
is no coefficient is in parentheses, and both are from inside of collected expressions; no group is
empty, and all coefficients are constants or explicit products of them, perhaps negated. -/
theorem comesFrom_collectEach (steps : List (Printer × Expr)) :
    (collectEach steps).ComesFrom (steps.map Prod.snd) := by
  induction steps using List.reverseRecOn with
  | nil => exact .empty []
  | append_singleton steps step ih =>
      rw [collectEach, List.foldl_append, ← collectEach, List.map_append]
      exact ih.collect step.1 step.2

end Decomposition

end MathExpr
