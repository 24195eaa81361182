import Mathlib.Data.List.Nodup
import MathExpr.Proofs.LikeTerms.Summands

/-!
# The order of factors

Like terms are found by sorting their factors by the names of their variables.  A name does not
include a subscript, so factors such as `x_1` and `x_2` are of the same name and stay in the order
in which they were written.  Between factors of different names the written order does not matter.

* `CoefficientGroups.keys` — the keys of all groups.
* `Expr.filter_sortVariables` — sorting keeps the factors of each name in order.
* **`Expr.sortVariables_eq_iff`** — what is left of the written order after sorting.
* `Expr.keys_product_of_nodup` — factors of different names may be written in any order.
* **`Expr.keys_product_iff`** — the same factors have the same key in two orders exactly if those of
  each name are in the same order.
-/

namespace MathExpr

/-- The keys of the groups, in ascending order. -/
def CoefficientGroups.keys (groups : CoefficientGroups) : List String :=
  groups.entries.map Prod.fst

namespace Expr

/-! ## Sorting by names -/

section NameLE

variable {a b c : Option String}

lemma nameLE_trans (hab : nameLE a b = true) (hbc : nameLE b c = true) : nameLE a c = true := by
  match a, b, c, hab, hbc with
  | none, _, _, _, _ => rfl
  | some _, some _, some _, hab, hbc =>
      simp only [nameLE, decide_eq_true_eq] at hab hbc ⊢
      exact String.le_trans hab hbc

lemma nameLE_total (a b : Option String) : (nameLE a b || nameLE b a) = true := by
  match a, b with
  | none, _ => rfl
  | some _, none => rfl
  | some a, some b => simpa [nameLE] using String.le_total a b

lemma nameLE_refl (a : Option String) : nameLE a a = true := by
  simpa using nameLE_total a a

lemma nameLE_antisymm (hab : nameLE a b = true) (hba : nameLE b a = true) : a = b := by
  match a, b, hab, hba with
  | none, none, _, _ => rfl
  | some _, some _, hab, hba =>
      simp only [nameLE, decide_eq_true_eq] at hab hba
      rw [String.le_antisymm hab hba]

end NameLE

/-- Whether a factor may stand in front of another one after sorting. -/
def namedBefore (a b : Expr) : Bool :=
  nameLE a.variableName? b.variableName?

lemma namedBefore_trans (a b c : Expr) (hab : namedBefore a b = true)
    (hbc : namedBefore b c = true) : namedBefore a c = true :=
  nameLE_trans hab hbc

lemma namedBefore_total (a b : Expr) : (namedBefore a b || namedBefore b a) = true :=
  nameLE_total _ _

/-- Whether a factor has a variable of the name, or none. -/
def hasName (name : Option String) (e : Expr) : Bool :=
  e.variableName? = name

variable {factors factors' : List Expr}

lemma sortVariables_perm (factors : List Expr) : (sortVariables factors).Perm factors :=
  List.mergeSort_perm _ _

lemma mem_sortVariables {e : Expr} : e ∈ sortVariables factors ↔ e ∈ factors :=
  (sortVariables_perm factors).mem_iff

lemma pairwise_sortVariables (factors : List Expr) :
    (sortVariables factors).Pairwise fun a b => namedBefore a b = true :=
  List.pairwise_mergeSort namedBefore_trans namedBefore_total factors

/-- Factors of one name stay in order. -/
lemma filter_sortVariables (name : Option String) (factors : List Expr) :
    (sortVariables factors).filter (hasName name) = factors.filter (hasName name) := by
  have hname : ∀ e ∈ factors.filter (hasName name), e.variableName? = name := fun e he => by
    simpa [hasName] using List.of_mem_filter he
  have hsorted : (factors.filter (hasName name)).Pairwise fun a b => namedBefore a b = true := by
    refine List.pairwise_of_forall_mem_list fun a ha b hb => ?_
    rw [namedBefore, hname a ha, hname b hb]
    exact nameLE_refl name
  have hsublist : (factors.filter (hasName name)).Sublist (sortVariables factors) :=
    List.sublist_mergeSort namedBefore_trans namedBefore_total hsorted List.filter_sublist
  have hkept := hsublist.filter (hasName name)
  simp only [List.filter_filter, Bool.and_self] at hkept
  exact (hkept.eq_of_length ((sortVariables_perm factors).filter _).length_eq.symm).symm

/-- Lists in the order of names are equal if they have the same factors of each name. -/
lemma eq_of_filter_eq : ∀ {factors factors' : List Expr},
    factors.Pairwise (fun a b => namedBefore a b = true) →
    factors'.Pairwise (fun a b => namedBefore a b = true) → factors.Perm factors' →
    (∀ name, factors.filter (hasName name) = factors'.filter (hasName name)) → factors = factors'
  | [], _, _, _, hperm, _ => hperm.nil_eq
  | a :: factors, [], _, _, hperm, _ => absurd hperm.length_eq (by simp)
  | a :: factors, b :: factors', h, h', hperm, hfilter => by
      obtain ⟨ha, hsorted⟩ := List.pairwise_cons.mp h
      obtain ⟨hb, hsorted'⟩ := List.pairwise_cons.mp h'
      have hab : namedBefore a b = true := by
        rcases List.mem_cons.mp (hperm.mem_iff.mpr (List.mem_cons_self ..)) with rfl | hmem
        · exact nameLE_refl _
        · exact ha b hmem
      have hba : namedBefore b a = true := by
        rcases List.mem_cons.mp (hperm.mem_iff.mp (List.mem_cons_self ..)) with rfl | hmem
        · exact nameLE_refl _
        · exact hb a hmem
      have hname : b.variableName? = a.variableName? := nameLE_antisymm hba hab
      -- of the first name, the first factors are the first of all
      obtain rfl : a = b := by
        have hfirst := hfilter a.variableName?
        rw [List.filter_cons_of_pos (by simp [hasName]),
          List.filter_cons_of_pos (by simp [hasName, hname])] at hfirst
        exact (List.cons.inj hfirst).1
      refine congrArg (a :: ·) (eq_of_filter_eq hsorted hsorted' hperm.cons_inv fun name => ?_)
      have hrest := hfilter name
      rw [List.filter_cons, List.filter_cons] at hrest
      split at hrest
      · exact (List.cons.inj hrest).2
      · exact hrest

/-- **What is left of the written order** after sorting is the order of the factors of each name. -/
theorem sortVariables_eq_iff (hperm : factors.Perm factors') :
    sortVariables factors = sortVariables factors' ↔
      ∀ name, factors.filter (hasName name) = factors'.filter (hasName name) := by
  constructor
  · intro h name
    rw [← filter_sortVariables, h, filter_sortVariables]
  · intro h
    refine eq_of_filter_eq (pairwise_sortVariables _) (pairwise_sortVariables _) ?_ fun name => ?_
    · exact (sortVariables_perm factors).trans (hperm.trans (sortVariables_perm factors').symm)
    · rw [filter_sortVariables, filter_sortVariables, h name]

/-! ## Keys -/

/-- A printer can tell any two expressions apart. -/
lemma eq_of_print_eq {e e' : Expr} (h : ∀ print : Printer, print e = print e') : e = e' := by
  by_contra hne
  have := h fun d => if d = e then "this" else "other"
  rw [if_pos rfl, if_neg (Ne.symm hne)] at this
  exact absurd this (by decide)

/-- So factors have the same key for all printers only if they are the same. -/
lemma eq_of_likeKey?_eq {juxtaposed : Bool} (hlength : factors.length = factors'.length)
    (h : ∀ print, likeKey? print juxtaposed factors = likeKey? print juxtaposed factors') :
    factors = factors' := by
  match factors, factors', hlength with
  | [], [], _ => rfl
  | [a], [b], _ => rw [eq_of_print_eq fun print => Option.some.inj (h print)]
  | a :: b :: factors, a' :: b' :: factors', _ =>
      have := eq_of_print_eq fun print => Option.some.inj (h print)
      exact (Expr.apply.inj this).2.1

lemma isTerm_of_isConstant {e : Expr} (h : e.isConstant = true) : e.isTerm = true := by
  rcases Bool.or_eq_true_iff.mp h with hnumber | hfraction
  · exact isTerm_of_isNumber hnumber
  · obtain ⟨args, marks, rfl, hargs⟩ := exists_of_isConstantFraction hfraction
    exact List.all_eq_true.mpr hargs

section Products

variable {args args' : List Expr}

/-- A product with a variable factor is one term, and its key is all that is left of its factors. -/
lemma keys_decompose_product (print : Printer) (marks : Marks)
    (hfactors : ∀ a ∈ args, a.isConstant = true ∨ a.isVariableFactor = true)
    (hvar : ∃ a ∈ args, a.isVariableFactor = true) :
    some ((apply .mul args marks).decompose print).groups.keys =
      (likeKey? print marks.juxtaposed (sortVariables (args.filter isVariableFactor))).map
        ([·]) := by
  obtain ⟨a, ha, hvar⟩ := hvar
  have hne : (apply .mul args marks).variableFactors ≠ [] :=
    List.ne_nil_of_mem (List.mem_filter.mpr ⟨ha, hvar⟩)
  obtain ⟨key, hkey⟩ := exists_key? print hne
  have hterm : (apply .mul args marks).isTerm = true := isTerm_product_iff.mpr fun b hb =>
    (hfactors b hb).elim isTerm_of_isConstant isTerm_of_isVariableFactor
  have hpieces := pieces_of_like rfl hterm rfl hkey rfl
  have hkey' : likeKey? print marks.juxtaposed (sortVariables (args.filter isVariableFactor)) =
      some key := hkey
  rw [hkey', decompose, Decomposition.collect, hpieces]
  rfl

/-- Whether an expression is a factor of a variable of the name. -/
def isFactorOf (name : String) (e : Expr) : Bool :=
  e.isVariableFactor && e.variableName? = some name

lemma filter_isFactorOf (name : String) (es : List Expr) :
    es.filter (isFactorOf name) = (es.filter isVariableFactor).filter (hasName (some name)) := by
  rw [List.filter_filter]
  refine List.filter_congr fun e _ => ?_
  rw [isFactorOf, hasName, Bool.and_comm]

/-- Every variable factor has a name. -/
lemma filter_hasName_none (es : List Expr) :
    (es.filter isVariableFactor).filter (hasName none) = [] := by
  rw [List.filter_eq_nil_iff]
  intro e he
  rcases exists_of_isVariableFactor (List.of_mem_filter he) with
    ⟨name, s, rfl⟩ | ⟨name, s, x, marks, rfl⟩
  all_goals simp [hasName, variableName?]

/-- Sorting leaves nothing of the order of factors but that of the factors of each name. -/
lemma sortVariables_factors_eq_iff (hperm : args.Perm args') :
    sortVariables (args.filter isVariableFactor) = sortVariables (args'.filter isVariableFactor) ↔
      ∀ name, args.filter (isFactorOf name) = args'.filter (isFactorOf name) := by
  rw [sortVariables_eq_iff (hperm.filter _)]
  simp only [filter_isFactorOf]
  refine ⟨fun h name => h (some name), fun h name => ?_⟩
  cases name with
  | none => rw [filter_hasName_none, filter_hasName_none]
  | some name => exact h name

variable {marks marks' : Marks}

/-- Sorted factors are all that the keys of products depend on. -/
lemma keys_product_eq_iff (print : Printer) (hperm : args.Perm args')
    (hmarks : marks.juxtaposed = marks'.juxtaposed)
    (hfactors : ∀ a ∈ args, a.isConstant = true ∨ a.isVariableFactor = true)
    (hvar : ∃ a ∈ args, a.isVariableFactor = true) :
    ((apply .mul args marks).decompose print).groups.keys =
        ((apply .mul args' marks').decompose print).groups.keys ↔
      likeKey? print marks.juxtaposed (sortVariables (args.filter isVariableFactor)) =
        likeKey? print marks.juxtaposed (sortVariables (args'.filter isVariableFactor)) := by
  have hfactors' : ∀ a ∈ args', a.isConstant = true ∨ a.isVariableFactor = true := fun a ha =>
    hfactors a (hperm.mem_iff.mpr ha)
  have hvar' : ∃ a ∈ args', a.isVariableFactor = true := by
    obtain ⟨a, ha, hvar⟩ := hvar
    exact ⟨a, hperm.mem_iff.mp ha, hvar⟩
  have hsingleton : Function.Injective (fun key : String => [key]) := fun _ _ =>
    List.singleton_inj.mp
  rw [← Option.some_inj, keys_decompose_product print marks hfactors hvar,
    keys_decompose_product print marks' hfactors' hvar', ← hmarks,
    (Option.map_injective hsingleton).eq_iff]

/-- Factors of different names may be written in any order. -/
theorem keys_product_of_nodup (print : Printer) (hperm : args.Perm args')
    (hmarks : marks.juxtaposed = marks'.juxtaposed)
    (hfactors : ∀ a ∈ args, a.isConstant = true ∨ a.isVariableFactor = true)
    (hvar : ∃ a ∈ args, a.isVariableFactor = true)
    (hnames : ((args.filter isVariableFactor).map variableName?).Nodup) :
    ((apply .mul args marks).decompose print).groups.keys =
      ((apply .mul args' marks').decompose print).groups.keys := by
  have hsorted := sortVariables_perm (args.filter isVariableFactor)
  have hsorted' := sortVariables_perm (args'.filter isVariableFactor)
  have hvars := hperm.filter isVariableFactor
  have hequal : sortVariables (args.filter isVariableFactor) =
      sortVariables (args'.filter isVariableFactor) := by
    refine List.Perm.eq_of_pairwise (fun a b ha hb hab hba => ?_) (pairwise_sortVariables _)
      (pairwise_sortVariables _) (hsorted.trans (hvars.trans hsorted'.symm))
    exact List.inj_on_of_nodup_map hnames (hsorted.mem_iff.mp ha)
      (hvars.mem_iff.mpr (hsorted'.mem_iff.mp hb)) (nameLE_antisymm hab hba)
  rw [keys_product_eq_iff print hperm hmarks hfactors hvar, hequal]

/-- **The order of factors matters for factors of one name only.**  Products of the same factors are
grouped under the same key by all printers if and only if the factors of each name are in the same
order. -/
theorem keys_product_iff (hperm : args.Perm args') (hmarks : marks.juxtaposed = marks'.juxtaposed)
    (hfactors : ∀ a ∈ args, a.isConstant = true ∨ a.isVariableFactor = true)
    (hvar : ∃ a ∈ args, a.isVariableFactor = true) :
    (∀ print : Printer, ((apply .mul args marks).decompose print).groups.keys =
      ((apply .mul args' marks').decompose print).groups.keys) ↔
    ∀ name, args.filter (isFactorOf name) = args'.filter (isFactorOf name) := by
  rw [← sortVariables_factors_eq_iff hperm]
  simp only [keys_product_eq_iff _ hperm hmarks hfactors hvar]
  refine ⟨fun h => eq_of_likeKey?_eq ?_ h, fun h print => by rw [h]⟩
  have hsorted := (sortVariables_perm (args.filter isVariableFactor)).length_eq
  have hsorted' := (sortVariables_perm (args'.filter isVariableFactor)).length_eq
  rw [hsorted, hsorted', (hperm.filter _).length_eq]

/-- Factors of one name in different orders: `x_1 x_2` and `x_2 x_1`. -/
theorem keys_subscripted :
    [identifier "x" (some (number "1")), identifier "x" (some (number "2"))].Perm
        [identifier "x" (some (number "2")), identifier "x" (some (number "1"))] ∧
      identifier "x" (some (number "1")) ≠ identifier "x" (some (number "2")) ∧
      ¬ ∀ print : Printer,
        ((juxtapose [identifier "x" (some (number "1")),
          identifier "x" (some (number "2"))]).decompose print).groups.keys =
        ((juxtapose [identifier "x" (some (number "2")),
          identifier "x" (some (number "1"))]).decompose print).groups.keys := by
  have hperm : [identifier "x" (some (number "1")), identifier "x" (some (number "2"))].Perm
      [identifier "x" (some (number "2")), identifier "x" (some (number "1"))] := .swap _ _ _
  refine ⟨hperm, by decide, fun hkeys => ?_⟩
  have hsame :=
    (keys_product_iff hperm rfl (by decide) ⟨_, List.mem_cons_self .., rfl⟩).mp hkeys "x"
  exact absurd hsame (by decide)

end Products

end Expr

end MathExpr
