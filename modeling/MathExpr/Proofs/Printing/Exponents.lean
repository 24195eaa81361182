import Mathlib.Algebra.Ring.Nat
import MathExpr.Expr.Equality
import MathExpr.Proofs.Printing.Parentheses

/-!
# What leaves an exponent

A sign at the beginning of an exponent keeps the first of the factors it was printed over, and the
others leave the exponent.  To see that the expression that is read cannot be the same but for
parentheses, the nodes in exponents are counted, once for each exponent that they are in: the count
does not rise for any reason, and falls if something leaves.

* `Expr.total` — a weight of nodes, summed up over an expression.
* `Expr.size`, `Expr.load` — the nodes of an expression, and those in its exponents.
* `Expr.load_bare` — parentheses are not counted.
* `Sheds` — factors have no more of either than the expression they are read from.
* **`Expr.WellFormed.lightens`** — so it is for printed text.
* **`Expr.WellFormed.bare_reread_ne`** — what is read differs if something leaves an exponent.
-/

namespace MathExpr.Expr

/-! ## Counting nodes -/

/-- The sum of a weight over an expression and all expressions inside of it. -/
def total (w : Expr → ℕ) (e : Expr) : ℕ :=
  (e.subterms.map w).sum

section Total

variable (w : Expr → ℕ)

lemma sum_listSubterms (es : List Expr) :
    ((listSubterms es).map w).sum = (es.map (total w)).sum := by
  induction es with
  | nil => rfl
  | cons e es ih =>
      rw [listSubterms_cons, List.map_append, List.sum_append, ih, List.map_cons, List.sum_cons,
        total]

lemma total_apply (op : Operator) (args : List Expr) (marks : Marks) :
    total w (apply op args marks) = w (apply op args marks) + (args.map (total w)).sum := by
  rw [total, subterms_apply, List.map_cons, List.sum_cons, sum_listSubterms]

lemma total_call (name : String) (s : Option Expr) (args : List Expr) (marks : Marks) :
    total w (call name s args marks) =
      w (call name s args marks) + ((s.toList.map (total w)).sum + (args.map (total w)).sum) := by
  rw [total, subterms_call, List.map_cons, List.sum_cons, List.map_append, List.sum_append,
    sum_listSubterms]
  cases s <;> simp [total]

lemma total_identifier (name : String) (s : Option Expr) :
    total w (identifier name s) = w (identifier name s) + (s.toList.map (total w)).sum := by
  cases s <;> simp [total, subterms_identifier]

lemma total_parens (body : Expr) : total w (parens body) = w (parens body) + total w body := by
  rw [total, subterms_parens, List.map_cons, List.sum_cons, total]

/-- A weight that parentheses do not have, and do not change, has the same sum without them. -/
lemma total_bare (hparens : ∀ body, w (parens body) = 0)
    (hbare : ∀ d, (∀ body, d ≠ parens body) → w d.bare = w d) (e : Expr) :
    total w e.bare = total w e := by
  have hlist : ∀ es : List Expr, (∀ e ∈ es, total w e.bare = total w e) →
      ((es.map bare).map (total w)).sum = (es.map (total w)).sum := by
    intro es h
    rw [List.map_map]
    exact congrArg List.sum (List.map_congr_left h)
  induction e using Expr.induction with
  | number n => rfl
  | identifier x s ih =>
      have hroot := hbare (identifier x s) (by simp)
      have hs := hlist s.toList (by simpa using ih)
      rw [total_identifier, ← hroot, ← hs]
      cases s <;> simp [bare, bareSubscript, total_identifier]
  | apply op args marks ih =>
      have hroot := hbare (apply op args marks) (by simp)
      rw [bare_apply] at hroot
      rw [bare_apply, total_apply, total_apply, hroot, hlist args ih]
  | call f s args marks ihs ih =>
      have hroot := hbare (call f s args marks) (by simp)
      have hs := hlist s.toList (by simpa using ihs)
      rw [total_call, ← hroot, ← hs, ← hlist args ih]
      cases s <;> simp [bare, bareSubscript, bareList_eq_map, total_call]
  | parens body ih => rw [bare_parens, total_parens, hparens, Nat.zero_add, ih]

end Total

/-- Parentheses do not count as nodes, and neither do products without signs, since factors of a
factor become factors themselves. -/
def nodeWeight : Expr → ℕ
  | .parens _ => 0
  | .apply .mul _ marks => if marks.juxtaposed then 0 else 1
  | _ => 1

/-- The number of nodes of an expression. -/
def size (e : Expr) : ℕ :=
  total nodeWeight e

/-- The number of nodes in the exponent at the root of an expression. -/
def exponentWeight : Expr → ℕ
  | .apply .pow [_, x] _ => x.size
  | _ => 0

/-- The number of nodes in exponents, each as often as there are exponents around it. -/
def load (e : Expr) : ℕ :=
  total exponentWeight e

lemma size_bare (e : Expr) : e.bare.size = e.size := by
  refine total_bare nodeWeight (fun _ => rfl) (fun d hd => ?_) e
  cases d with
  | parens body => exact absurd rfl (hd body)
  | apply op args marks =>
      rw [bare_apply]
      cases op <;> rfl
  | number | identifier | call => rfl

lemma load_bare (e : Expr) : e.bare.load = e.load := by
  refine total_bare exponentWeight (fun _ => rfl) (fun d hd => ?_) e
  cases d with
  | parens body => exact absurd rfl (hd body)
  | apply op args marks =>
      rw [bare_apply]
      cases op
      case pow =>
        match args with
        | [_, x] => exact size_bare x
        | [] | [_] | _ :: _ :: _ :: _ => rfl
      all_goals rfl
  | number | identifier | call => rfl

/-! ## What is read sheds nodes -/

/-- Something in an expression leaves an exponent. -/
def LosesFactor (e : Expr) : Prop :=
  e.Somewhere signsFactors

/-- Factors that are read from the text of `e`: they have no more nodes, no more of them are in
exponents, and fewer if something leaves an exponent. -/
structure Sheds (e : Expr) (factors : List Expr) : Prop where
  size_le : (factors.map size).sum ≤ e.size
  load_le : (factors.map load).sum ≤ e.load
  load_lt : e.LosesFactor → (factors.map load).sum < e.load

section Weights

variable {op : Operator} {args : List Expr} {marks : Marks} {e : Expr} {factors : List Expr}

lemma size_joined (factors : List Expr) : (joined factors).size = (factors.map size).sum := by
  unfold joined
  match factors with
  | [e] => simp
  | [] | _ :: _ :: _ => exact (total_apply _ _ _ _).trans (Nat.zero_add _)

lemma load_joined (factors : List Expr) : (joined factors).load = (factors.map load).sum := by
  unfold joined
  match factors with
  | [e] => simp
  | [] | _ :: _ :: _ => exact (total_apply _ _ _ _).trans (Nat.zero_add _)

lemma size_parens (e : Expr) : (parens e).size = e.size :=
  (total_parens _ _).trans (Nat.zero_add _)

lemma load_parens (e : Expr) : (parens e).load = e.load :=
  (total_parens _ _).trans (Nat.zero_add _)

lemma Sheds.refl (h : ¬ e.LosesFactor) : Sheds e [e] :=
  ⟨by simp, by simp, fun hloses => absurd hloses h⟩

lemma Sheds.joined (h : Sheds e factors) : Sheds e [joined factors] where
  size_le := by simpa [size_joined] using h.size_le
  load_le := by simpa [load_joined] using h.load_le
  load_lt := by simpa [load_joined] using h.load_lt

lemma Sheds.parens {a : Expr} (h : Sheds e [a]) : Sheds e [parens a] where
  size_le := by simpa [size_parens] using h.size_le
  load_le := by simpa [load_parens] using h.load_le
  load_lt := by simpa [load_parens] using h.load_lt

lemma Sheds.of_parens {a : Expr} (h : Sheds e [a]) : Sheds (Expr.parens e) [Expr.parens a] := by
  refine ⟨?_, ?_, fun hloses => ?_⟩
  · simpa [size_parens] using h.size_le
  · simpa [load_parens] using h.load_le
  · rcases somewhere_parens.mp hloses with hroot | hloses
    · cases hroot
    · simpa [load_parens] using h.load_lt hloses

lemma Sheds.unparenthesized {a : Expr} (h : Sheds e [a]) : Sheds e [a.unparenthesized] := by
  have hsize : a.unparenthesized.size = a.size := by
    rw [← size_bare, bare_unparenthesized, size_bare]
  have hload : a.unparenthesized.load = a.load := by
    rw [← load_bare, bare_unparenthesized, load_bare]
  exact ⟨by simpa [hsize] using h.size_le, by simpa [hload] using h.load_le,
    by simpa [hload] using h.load_lt⟩

end Weights

section Lists

variable {α : Type} {f : α → Expr}

/-- Factors that are read from the texts of several expressions. -/
lemma sheds_list {g : α → List Expr} : ∀ (as : List α), (∀ a ∈ as, Sheds (f a) (g a)) →
    ((as.flatMap g).map size).sum ≤ ((as.map f).map size).sum ∧
    ((as.flatMap g).map load).sum ≤ ((as.map f).map load).sum ∧
    ((∃ a ∈ as, (f a).LosesFactor) →
      ((as.flatMap g).map load).sum < ((as.map f).map load).sum)
  | [], _ => ⟨Nat.le_refl _, Nat.le_refl _, by simp⟩
  | a :: as, h => by
      obtain ⟨ha, has⟩ := List.forall_mem_cons.mp h
      obtain ⟨hsize, hload, hlt⟩ := sheds_list as has
      simp only [List.flatMap_cons, List.map_append, List.sum_append, List.map_cons, List.sum_cons,
        List.mem_cons, exists_eq_or_imp]
      refine ⟨Nat.add_le_add ha.size_le hsize, Nat.add_le_add ha.load_le hload, ?_⟩
      rintro (hfactor | hfactor)
      · exact Nat.add_lt_add_of_lt_of_le (ha.load_lt hfactor) hload
      · exact Nat.add_lt_add_of_le_of_lt ha.load_le (hlt hfactor)

/-- An operator other than a power over operands that are read. -/
lemma sheds_apply {g : α → Expr} {op : Operator} (hop : op ≠ .pow) (marks : Marks) (as : List α)
    (h : ∀ a ∈ as, Sheds (f a) [g a]) :
    Sheds (apply op (as.map f) marks) [apply op (as.map g) marks] := by
  obtain ⟨hsize, hload, hlt⟩ := sheds_list (g := fun a => [g a]) as h
  rw [← List.map_eq_flatMap] at hsize hload hlt
  have hnode : nodeWeight (apply op (as.map g) marks) = nodeWeight (apply op (as.map f) marks) := by
    cases op <;> rfl
  have hexponent : ∀ args, exponentWeight (apply op args marks) = 0 := by
    intro args
    cases op <;> first | rfl | exact absurd rfl hop
  have hroot : (apply op (as.map f) marks).signsFactors = false := by
    cases op <;> first | rfl | exact absurd rfl hop
  refine ⟨?_, ?_, fun hloses => ?_⟩
  · rw [List.map_singleton, List.sum_singleton, size, size, total_apply, total_apply, hnode]
    exact Nat.add_le_add_left hsize _
  · rw [List.map_singleton, List.sum_singleton, load, load, total_apply, total_apply, hexponent,
      hexponent]
    exact Nat.add_le_add_left hload _
  · rw [List.map_singleton, List.sum_singleton, load, load, total_apply, total_apply, hexponent,
      hexponent]
    refine Nat.add_lt_add_left (hlt ?_) _
    rcases somewhere_apply.mp hloses with hsplits | hloses
    · rw [hroot] at hsplits
      cases hsplits
    · obtain ⟨_, ha, hloses⟩ := hloses
      obtain ⟨a, hmem, rfl⟩ := List.mem_map.mp ha
      exact ⟨a, hmem, hloses⟩

lemma Sheds.unary {a a' : Expr} {op : Operator} (h : Sheds a [a']) (hop : op ≠ .pow)
    (marks : Marks) : Sheds (apply op [a] marks) [apply op [a'] marks] :=
  sheds_apply (f := Prod.fst) (g := Prod.snd) hop marks [(a, a')] (List.forall_mem_singleton.mpr h)

lemma Sheds.term {a a' : Expr} (h : Sheds a [a']) (sign : TermSign) :
    Sheds (sign.term a) [sign.term a'] := by
  cases sign with
  | plus => exact h
  | minus => exact h.unary (by decide) _

lemma sheds_function {g : α → Expr} (name : String) (as : List α)
    (h : ∀ a ∈ as, Sheds (f a) [g a]) :
    Sheds (function name (as.map f)) [function name (as.map g)] := by
  obtain ⟨hsize, hload, hlt⟩ := sheds_list (g := fun a => [g a]) as h
  rw [← List.map_eq_flatMap] at hsize hload hlt
  refine ⟨?_, ?_, fun hloses => ?_⟩
  · rw [List.map_singleton, List.sum_singleton, size, size, function, function, total_call,
      total_call]
    exact Nat.add_le_add_left (Nat.add_le_add_left hsize _) _
  · rw [List.map_singleton, List.sum_singleton, load, load, function, function, total_call,
      total_call]
    exact Nat.add_le_add_left (Nat.add_le_add_left hload _) _
  · rw [List.map_singleton, List.sum_singleton, load, load, function, function, total_call,
      total_call]
    refine Nat.add_lt_add_left (Nat.add_lt_add_left (hlt ?_) _) _
    rcases somewhere_function.mp hloses with hroot | hloses
    · cases hroot
    · obtain ⟨_, ha, hloses⟩ := hloses
      obtain ⟨a, hmem, rfl⟩ := List.mem_map.mp ha
      exact ⟨a, hmem, hloses⟩

lemma sheds_subscript {name : String} {s s' : Expr} (h : Sheds s [s']) :
    Sheds (identifier name (some s)) [identifier name (some s')] := by
  obtain ⟨hsize, hload, hlt⟩ := h
  refine ⟨?_, ?_, fun hloses => ?_⟩
  · simpa [size, total_identifier, nodeWeight] using hsize
  · simpa [load, total_identifier, exponentWeight] using hload
  · rcases somewhere_subscript.mp hloses with hroot | hloses
    · cases hroot
    · simpa [load, total_identifier, exponentWeight] using hlt hloses

end Lists

section Powers

variable {b b' x x' : Expr} {factors : List Expr}

lemma size_pow (b x : Expr) : (pow b x).size = 1 + (b.size + x.size) :=
  total_apply _ _ _ _

lemma load_pow (b x : Expr) : (pow b x).load = x.size + (b.load + x.load) :=
  total_apply _ _ _ _

lemma losesFactor_pow :
    (pow b x).LosesFactor ↔ (pow b x).signsFactors = true ∨ b.LosesFactor ∨ x.LosesFactor := by
  rw [LosesFactor, pow, somewhere_apply]
  simp [LosesFactor]

/-- Factors that there are, and that have nodes. -/
def Solid (factors : List Expr) : Prop :=
  factors ≠ [] ∧ ∀ f ∈ factors, 0 < f.size

/-- A power keeps the first factor of its exponent.  If there are others they are no longer in an
exponent, and their nodes are counted once less. -/
lemma sheds_pow (hb : Sheds b [b']) (hx : Sheds x factors) (hsolid : Solid factors)
    (hsplits : (pow b x).signsFactors = true → 2 ≤ factors.length) :
    Sheds (pow b x) (onFirst (pow b') factors) := by
  obtain ⟨hne, hpos⟩ := hsolid
  match factors, hne with
  | x' :: others, _ =>
      obtain ⟨hbsize, hbload, hblt⟩ := hb
      obtain ⟨hxsize, hxload, hxlt⟩ := hx
      simp only [List.map_cons, List.map_nil, List.sum_cons, List.sum_nil] at hbsize hbload hblt
      simp only [List.map_cons, List.sum_cons] at hxsize hxload hxlt
      refine ⟨?_, ?_, fun hloses => ?_⟩
      · rw [onFirst, List.map_cons, List.sum_cons, size_pow, size_pow]
        omega
      · rw [onFirst, List.map_cons, List.sum_cons, load_pow, load_pow]
        omega
      · rw [onFirst, List.map_cons, List.sum_cons, load_pow, load_pow]
        rcases losesFactor_pow.mp hloses with hroot | hb | hx
        -- something leaves the exponent of this power: its nodes are counted once less
        · have hsecond := hsplits hroot
          cases others with
          | nil => exact absurd hsecond (by simp)
          | cons g others =>
              have hg := hpos g (by simp)
              simp only [List.map_cons, List.sum_cons] at hxsize hxload ⊢
              omega
        · have := hblt hb
          omega
        · have := hxlt hx
          omega

end Powers

/-! ## Printed text -/

namespace Solid

variable {factors : List Expr} {e : Expr}

lemma singleton (h : 0 < e.size) : Solid [e] :=
  ⟨by simp, List.forall_mem_singleton.mpr h⟩

lemma size_joined_pos (h : Solid factors) : 0 < (joined factors).size := by
  obtain ⟨hne, hpos⟩ := h
  rw [size_joined]
  match factors, hne with
  | e :: es, _ =>
      have := hpos e (by simp)
      rw [List.map_cons, List.sum_cons]
      omega

lemma onFirst {f : Expr → Expr} (hf : ∀ e, 0 < (f e).size) (h : Solid factors) :
    Solid (onFirst f factors) := by
  obtain ⟨hne, hpos⟩ := h
  match factors, hne with
  | e :: es, _ => exact ⟨by simp [Expr.onFirst],
      List.forall_mem_cons.mpr ⟨hf e, (List.forall_mem_cons.mp hpos).2⟩⟩

lemma flatMap {es : List Expr} {g : Expr → List Expr} (hne : es ≠ []) (h : ∀ e ∈ es, Solid (g e)) :
    Solid (es.flatMap g) := by
  refine ⟨?_, fun f hf => ?_⟩
  · match es, hne with
    | e :: es, _ =>
        rw [List.flatMap_cons, Ne, List.append_eq_nil_iff]
        intro hnil
        exact (h e (by simp)).1 hnil.1
  · obtain ⟨e, he, hf⟩ := List.mem_flatMap.mp hf
    exact (h e he).2 f hf

/-- Several expressions have several factors. -/
lemma two_le_flatMap {es : List Expr} {g : Expr → List Expr} (hlen : 2 ≤ es.length)
    (h : ∀ e ∈ es, Solid (g e)) : 2 ≤ (es.flatMap g).length := by
  match es, hlen with
  | a :: b :: es, _ =>
      have ha := List.length_pos_iff.mpr (h a (by simp)).1
      have hb := List.length_pos_iff.mpr (h b (by simp)).1
      rw [List.flatMap_cons, List.flatMap_cons, List.length_append, List.length_append]
      omega

end Solid

lemma length_onFirst (f : Expr → Expr) (factors : List Expr) :
    (onFirst f factors).length = factors.length := by
  cases factors <;> rfl

/-- A sign over the first of several factors. -/
lemma sheds_onFirst {op : Operator} {e : Expr} {factors : List Expr} (hpow : op ≠ .pow)
    (hmul : op ≠ .mul) (h : Sheds e factors) (hsolid : Solid factors) :
    Sheds (apply op [e] {}) (onFirst (fun a => apply op [a] {}) factors) := by
  obtain ⟨hsize, hload, hlt⟩ := h
  have hsize' : ∀ a, (apply op [a] {}).size = 1 + a.size := by
    intro a
    rw [size, total_apply]
    cases op <;> first | exact absurd rfl hmul | simp [nodeWeight, size]
  have hload' : ∀ a, (apply op [a] {}).load = a.load := by
    intro a
    rw [load, total_apply]
    cases op <;> first | exact absurd rfl hpow | simp [exponentWeight, load]
  match factors, hsolid.1 with
  | g :: others, _ =>
      simp only [List.map_cons, List.sum_cons] at hsize hload hlt
      refine ⟨?_, ?_, fun hloses => ?_⟩
      · rw [onFirst, List.map_cons, List.sum_cons, hsize', hsize']
        omega
      · rw [onFirst, List.map_cons, List.sum_cons, hload', hload']
        omega
      · rw [onFirst, List.map_cons, List.sum_cons, hload', hload']
        refine hlt ?_
        rcases somewhere_apply.mp hloses with hroot | ⟨a, ha, hloses⟩
        · cases op <;> first | exact absurd rfl hpow | cases hroot
        · rwa [List.mem_singleton.mp ha] at hloses

lemma size_apply_pos {op : Operator} (hop : op ≠ .mul) (args : List Expr) (marks : Marks) :
    0 < (apply op args marks).size := by
  have hnode : nodeWeight (apply op args marks) = 1 := by
    cases op <;> first | rfl | exact absurd rfl hop
  rw [size, total_apply, hnode]
  omega

/-- All that is needed of the factors of an expression, in an exponent and anywhere else. -/
structure Lightens (e : Expr) : Prop where
  sheds : ∀ inExponent, Sheds e (e.factors inExponent)
  solid : ∀ inExponent, Solid (e.factors inExponent)
  splits : e.unsigned.binding = .juxtaposition → 2 ≤ (e.factors true).length

namespace Lightens

variable {e : Expr}

/-- What is read as one factor at any place. -/
lemma of_single {e' : Expr} (hunsigned : e.unsigned.binding ≠ .juxtaposition)
    (hfactors : ∀ inExponent, e.factors inExponent = [e']) (h : Sheds e [e'])
    (hpos : 0 < e'.size) : Lightens e where
  sheds inExponent := by rwa [hfactors]
  solid inExponent := by
    rw [hfactors]
    exact .singleton hpos
  splits hbinding := absurd hbinding hunsigned

lemma rereadIn (h : Lightens e) (least : Binding) : Sheds e [rereadIn least e] := by
  unfold Expr.rereadIn factorsIn placed
  split
  · exact (h.sheds false).joined.parens
  · exact (h.sheds false).joined

lemma factorsIn (h : Lightens e) (least : Binding) :
    Sheds e (factorsIn least e) ∧ Solid (factorsIn least e) := by
  unfold Expr.factorsIn placed
  split
  · refine ⟨(h.sheds false).joined.parens, .singleton ?_⟩
    rw [size_parens]
    exact (h.solid false).size_joined_pos
  · exact ⟨h.sheds false, h.solid false⟩

lemma factorsInExponent (h : Lightens e) (least : Binding) :
    Sheds e (factorsInExponent least e) ∧ Solid (factorsInExponent least e) := by
  unfold Expr.factorsInExponent placed
  split
  · refine ⟨(h.sheds false).joined.parens, .singleton ?_⟩
    rw [size_parens]
    exact (h.solid false).size_joined_pos
  · exact ⟨h.sheds true, h.solid true⟩

end Lightens

/-- Factors side by side, each of which may turn out to be several. -/
lemma sheds_juxtapose {args : List Expr} {g : Expr → List Expr} (h : ∀ a ∈ args, Sheds a (g a)) :
    Sheds (juxtapose args) (args.flatMap g) := by
  obtain ⟨hsize, hload, hlt⟩ := sheds_list (f := id) args h
  rw [List.map_id] at hsize hload hlt
  have hsize' : (juxtapose args).size = (args.map size).sum :=
    (total_apply _ _ _ _).trans (Nat.zero_add _)
  have hload' : (juxtapose args).load = (args.map load).sum :=
    (total_apply _ _ _ _).trans (Nat.zero_add _)
  refine ⟨hsize'.symm ▸ hsize, hload'.symm ▸ hload, fun hloses => hload'.symm ▸ hlt ?_⟩
  rcases somewhere_apply.mp hloses with hroot | hloses
  · cases hroot
  · exact hloses

lemma not_lt_leastAsExponent {x : Expr} (h : x.binding = .sign) :
    ¬ x.binding < x.leastAsExponent := by
  rw [h]
  unfold leastAsExponent
  split
  · decide
  · decide
  · next hneg hpos =>
    exfalso
    cases x with
    | apply op args marks =>
        cases op
        case neg => exact hneg args marks rfl
        case pos => exact hpos args marks rfl
        case mul =>
          obtain ⟨juxtaposed, _⟩ := marks
          cases juxtaposed <;> cases h
        all_goals cases h
    | _ => cases h

/-- What has factors side by side under its signs needs no parentheses under a further one. -/
lemma not_lt_sign_of_unsigned {e : Expr} (h : e.unsigned.binding = .juxtaposition) :
    ¬ e.binding < .sign := by
  unfold unsigned at h
  split at h
  · exact Nat.lt_irrefl 3
  · exact Nat.lt_irrefl 3
  · rw [h]
    decide

/-- A sign, in an exponent and anywhere else. -/
lemma Lightens.of_sign {op : Operator} {e : Expr} (hpow : op ≠ .pow) (hmul : op ≠ .mul)
    (hunsigned : (apply op [e] {}).unsigned = e.unsigned)
    (hfactors : (apply op [e] {}).factors false =
      [apply op [(Expr.rereadIn .sign e).unparenthesized] {}])
    (hexponent : (apply op [e] {}).factors true =
      onFirst (fun a => apply op [a] {}) (Expr.factorsInExponent .sign e))
    (h : Lightens e) : Lightens (apply op [e] {}) := by
  have hx := h.factorsInExponent .sign
  refine ⟨fun i => ?_, fun i => ?_, fun hbinding => ?_⟩
  · cases i with
    | false =>
        rw [hfactors]
        exact (h.rereadIn .sign).unparenthesized.unary hpow {}
    | true =>
        rw [hexponent]
        exact sheds_onFirst hpow hmul hx.1 hx.2
  · cases i with
    | false =>
        rw [hfactors]
        exact .singleton (size_apply_pos hmul _ _)
    | true =>
        rw [hexponent]
        exact hx.2.onFirst fun _ => size_apply_pos hmul _ _
  · rw [hunsigned] at hbinding
    have hlen := h.splits hbinding
    rw [hexponent, Expr.factorsInExponent, placed, if_neg (not_lt_sign_of_unsigned hbinding),
      length_onFirst]
    exact hlen

namespace WellFormed

variable {e : Expr}

/-- **Reading sheds nodes.** -/
theorem lightens (h : WellFormed e) : Lightens e := by
  induction h with
  | @number numeral =>
      refine .of_single (by rintro ⟨⟩) (fun _ => rfl) (.refl ?_) Nat.one_pos
      rintro ⟨d, hd, hroot⟩
      rw [List.mem_singleton.mp hd] at hroot
      cases hroot
  | letter =>
      refine .of_single (by rintro ⟨⟩) (fun i => factors_var i _) (.refl ?_) Nat.one_pos
      rintro ⟨d, hd, hroot⟩
      rw [List.mem_singleton.mp hd] at hroot
      cases hroot
  | @subscript c s _ _ ih =>
      refine .of_single (by rintro ⟨⟩) (fun i => factors_subscript i _ s)
        (sheds_subscript (ih.rereadIn .whole)) ?_
      rw [size, total_identifier]
      exact Nat.add_pos_left Nat.one_pos _
  | @parens body _ ih =>
      refine .of_single (by rintro ⟨⟩) (fun i => factors_parens i body)
        (ih.sheds false).joined.of_parens ?_
      rw [size_parens]
      exact (ih.solid false).size_joined_pos
  | @call c d letters args _ _ _ ih =>
      have hsheds := sheds_function (f := id) (String.ofList (c :: d :: letters)) args fun a ha =>
        (ih a ha).rereadIn .relation
      rw [List.map_id] at hsheds
      refine .of_single (by rintro ⟨⟩) (fun i => factors_function i _ args) hsheds ?_
      rw [function, size, total_call]
      exact Nat.add_pos_left Nat.one_pos _
  | @root args _ ih =>
      have hroot : Operator.nthRoot ≠ .pow := by decide
      have hsheds := sheds_apply (f := id) hroot {} args fun a ha => (ih a ha).rereadIn .relation
      rw [List.map_id] at hsheds
      exact .of_single (by rintro ⟨⟩) (fun i => factors_root i args) hsheds
        (size_apply_pos (by decide) _ _)
  | @sum first links _ _ hlinks ih ihs =>
      have hterms : ∀ l ∈ (TermSign.plus, first) :: links,
          Sheds (l.1.term l.2) [l.1.term (rereadIn .product l.2)] :=
        List.forall_mem_cons.mpr ⟨ih.rereadIn .product, fun l hl =>
          ((ihs l hl).rereadIn .product).term l.1⟩
      have hadd : Operator.add ≠ .pow := by decide
      have hsheds := sheds_apply hadd {} _ hterms
      have hfactors : ∀ i, (add (first :: links.map fun l => l.1.term l.2)).factors i = _ :=
        fun i => factors_add i first _
      rw [rereadTerms_links hlinks] at hfactors
      exact .of_single (by rintro ⟨⟩) hfactors hsheds (size_apply_pos (by decide) _ _)
  | @product args _ _ ih =>
      have hmul : Operator.mul ≠ .pow := by decide
      have hsheds := sheds_apply (f := id) hmul {} args fun a ha => (ih a ha).rereadIn .sign
      rw [List.map_id] at hsheds
      refine .of_single (by rintro ⟨⟩) (fun i => factors_mul i args) hsheds ?_
      rw [mul, size, total_apply]
      exact Nat.add_pos_left Nat.one_pos _
  | @juxtaposition args hlen _ ih =>
      have hargs := fun a ha => (ih a ha).factorsIn .power
      refine ⟨fun i => ?_, fun i => ?_, fun _ => ?_⟩
      · rw [factors_juxtapose]
        exact sheds_juxtapose fun a ha => (hargs a ha).1
      · rw [factors_juxtapose]
        exact .flatMap (List.ne_nil_of_length_pos (by omega)) fun a ha => (hargs a ha).2
      · rw [factors_juxtapose]
        exact Solid.two_le_flatMap hlen fun a ha => (hargs a ha).2
  | @quotient a b _ _ iha ihb =>
      have hdiv : Operator.div ≠ .pow := by decide
      have hsheds := sheds_apply (f := Prod.fst) (g := Prod.snd) hdiv {}
        [(a, rereadIn .product a), (b, rereadIn .sign b)]
        (by simpa using ⟨iha.rereadIn .product, ihb.rereadIn .sign⟩)
      exact .of_single (by rintro ⟨⟩) (fun i => factors_div i a b) hsheds
        (size_apply_pos (by decide) _ _)
  | @power b x _ _ ihb ihx =>
      have hx := ihx.factorsInExponent x.leastAsExponent
      have hsplits : (pow b x).signsFactors = true →
          2 ≤ (factorsInExponent x.leastAsExponent x).length := by
        intro hroot
        simp only [pow, signsFactors, Bool.and_eq_true, decide_eq_true_eq] at hroot
        rw [factorsInExponent, placed, if_neg (not_lt_leastAsExponent hroot.1)]
        exact ihx.splits hroot.2
      refine ⟨fun i => ?_, fun i => ?_, by rintro ⟨⟩⟩
      · rw [factors_pow]
        exact sheds_pow (ihb.rereadIn .factorial) hx.1 hx.2 hsplits
      · rw [factors_pow]
        exact hx.2.onFirst fun _ => size_apply_pos (by decide) _ _
  | @neg e _ ih =>
      exact ih.of_sign (by decide) (by decide) rfl (factors_neg e) (factors_neg_exponent e)
  | @pos e _ ih =>
      exact ih.of_sign (by decide) (by decide) rfl (factors_pos e) (factors_pos_exponent e)
  | @abs e _ ih =>
      exact .of_single (by rintro ⟨⟩) (fun i => factors_abs i e)
        ((ih.rereadIn .relation).unary (by decide) {}) (size_apply_pos (by decide) _ _)
  | @fact e _ ih =>
      exact .of_single (by rintro ⟨⟩) (fun i => factors_fact i e)
        ((ih.rereadIn .factorial).unary (by decide) {}) (size_apply_pos (by decide) _ _)
  | @relation op symbol args hop _ _ ih =>
      have hpow : op ≠ .pow := by
        rintro rfl
        cases hop
      have hmul : op ≠ .mul := by
        rintro rfl
        cases hop
      have hsheds := sheds_apply (f := id) hpow {} args fun a ha =>
        (ih a ha).rereadIn .sum
      rw [List.map_id] at hsheds
      refine .of_single ?_ (fun i => factors_relate i hop args) hsheds (size_apply_pos hmul _ _)
      cases op <;> cases hop <;> rintro ⟨⟩

/-- **What leaves an exponent makes a difference**, even if parentheses are not counted. -/
theorem bare_reread_ne (h : WellFormed e) (hloses : e.LosesFactor) : e.reread.bare ≠ e.bare := by
  intro heq
  have hlt := (h.lightens.sheds false).load_lt hloses
  rw [← load_joined, ← load_bare e, ← heq, load_bare] at hlt
  exact Nat.lt_irrefl _ hlt

end WellFormed

end MathExpr.Expr
