import MathExpr.Proofs.LikeTerms.Contents
import MathExpr.Proofs.LikeTerms.FactorOrder

/-!
# What decomposing an expression looks at

Decomposing an expression looks at its operands and at theirs, but never into parentheses or into a
subscript.  What is enclosed in these shows only where it is printed, in a key, and where an
expression in parentheses is kept as it is.

* `Expr.exposed` — an expression and its operands, down to parentheses, identifiers and numbers.
* `Expr.mapEnclosed` — changes what is enclosed in parentheses and subscripts, and nothing else.
* `Expr.isTerm_mapEnclosed`, `Expr.key?_mapEnclosed`, … — what such a change leaves as it was.
* `Expr.SingleSigned` — every minus sign has one operand.  Otherwise a constant could have others
  that are not looked at.
* **`Expr.decompose_mapEnclosed`** — the change shows in keys and in expressions in parentheses.
* `Expr.decompose_congr` — keys are all that a printer is asked for.
* **`Expr.others_eq_exposed`** — exposed expressions in parentheses are kept, and nothing else is
  among those that are neither constants nor terms.
-/

namespace MathExpr

namespace Expr

/-! ## Exposed expressions -/

mutual

/-- An expression, its operands, the operands of these, and so on.  Parentheses and subscripts are
not entered. -/
def exposed : Expr → List Expr
  | .number numeral => [.number numeral]
  | .identifier name subscript => [.identifier name subscript]
  | .parens body => [.parens body]
  | .call name subscript args marks => .call name subscript args marks :: exposedList args
  | .apply op args marks => .apply op args marks :: exposedList args

/-- What the expressions of a list expose. -/
def exposedList : List Expr → List Expr
  | [] => []
  | e :: es => e.exposed ++ exposedList es

end

lemma exposedList_eq_flatMap (es : List Expr) : exposedList es = es.flatMap exposed := by
  induction es with
  | nil => rfl
  | cons e es ih => rw [exposedList, ih, List.flatMap_cons]

lemma mem_exposed_self (e : Expr) : e ∈ e.exposed := by
  cases e <;> exact List.mem_cons_self ..

lemma mem_exposed_of_mem_operands {e a d : Expr} (ha : a ∈ e.operands) (hd : d ∈ a.exposed) :
    d ∈ e.exposed := by
  cases e with
  | apply op args marks | call name s args marks =>
      rw [exposed, exposedList_eq_flatMap]
      exact .tail _ (List.mem_flatMap.mpr ⟨a, ha, hd⟩)
  | _ => cases ha

/-- What something exposed exposes is exposed. -/
lemma mem_exposed_trans {e d c : Expr} (hd : d ∈ e.exposed) (hc : c ∈ d.exposed) :
    c ∈ e.exposed := by
  induction e using Expr.induction with
  | number | identifier | parens => exact List.mem_singleton.mp hd ▸ hc
  | apply op args marks ih | call name s args marks _ ih =>
      have hd' := hd
      rw [exposed, exposedList_eq_flatMap] at hd'
      rcases List.mem_cons.mp hd' with rfl | hd'
      · exact hc
      · obtain ⟨a, ha, hd'⟩ := List.mem_flatMap.mp hd'
        exact mem_exposed_of_mem_operands ha (ih a ha hd')

lemma mem_exposed_of_mem_variableFactors {e v d : Expr} (hv : v ∈ e.variableFactors)
    (hd : d ∈ v.exposed) : d ∈ e.exposed := by
  fun_induction variableFactors e with
  | case1 => exact mem_exposed_of_mem_operands (List.mem_of_mem_filter hv) hd
  | case2 _ _ _ ih => exact mem_exposed_of_mem_operands (List.mem_cons_self ..) (ih hv)
  | case3 => exact List.mem_singleton.mp hv ▸ hd
  | case4 => cases hv

/-! ## Changing what is enclosed -/

mutual

/-- An expression with everything that its parentheses and subscripts enclose changed by `f`. -/
def mapEnclosed (f : Expr → Expr) : Expr → Expr
  | .number numeral => .number numeral
  | .identifier name subscript => .identifier name (subscript.map f)
  | .parens body => .parens (f body)
  | .call name subscript args marks => .call name (subscript.map f) (mapEnclosedList f args) marks
  | .apply op args marks => .apply op (mapEnclosedList f args) marks

/-- The expressions of a list with everything that they enclose changed by `f`. -/
def mapEnclosedList (f : Expr → Expr) : List Expr → List Expr
  | [] => []
  | e :: es => e.mapEnclosed f :: mapEnclosedList f es

end

variable {f : Expr → Expr}

lemma mapEnclosedList_eq_map (f : Expr → Expr) (es : List Expr) :
    mapEnclosedList f es = es.map (mapEnclosed f) := by
  induction es with
  | nil => rfl
  | cons e es ih => rw [mapEnclosedList, ih, List.map_cons]

lemma mapEnclosed_apply (op : Operator) (args : List Expr) (marks : Marks) :
    (apply op args marks).mapEnclosed f = apply op (args.map (mapEnclosed f)) marks := by
  rw [mapEnclosed, mapEnclosedList_eq_map]

lemma mapEnclosed_call (name : String) (s : Option Expr) (args : List Expr) (marks : Marks) :
    (call name s args marks).mapEnclosed f =
      call name (s.map f) (args.map (mapEnclosed f)) marks := by
  rw [mapEnclosed, mapEnclosedList_eq_map]

/-! The tests of the root, and those that look through negations. -/

section Shape

@[simp] lemma binding_mapEnclosed (e : Expr) : (e.mapEnclosed f).binding = e.binding := by
  cases e <;> rfl

lemma operands_mapEnclosed (e : Expr) :
    (e.mapEnclosed f).operands = e.operands.map (mapEnclosed f) := by
  cases e with
  | apply op args marks => rw [mapEnclosed_apply]; rfl
  | call name s args marks => rw [mapEnclosed_call]; rfl
  | _ => rfl

@[simp] lemma leastAsExponent_mapEnclosed (e : Expr) :
    (e.mapEnclosed f).leastAsExponent = e.leastAsExponent := by
  cases e with
  | apply op => cases op <;> rfl
  | _ => rfl

@[simp] lemma isIdentifier_mapEnclosed (e : Expr) :
    (e.mapEnclosed f).isIdentifier = e.isIdentifier := by
  cases e <;> rfl

@[simp] lemma numeral?_mapEnclosed : ∀ e : Expr, (e.mapEnclosed f).numeral? = e.numeral?
  | .number _ | .identifier _ _ | .parens _ | .call _ _ _ _ => rfl
  | .apply op [] _ => by cases op <;> rfl
  | .apply op (e :: _) _ => by
      cases op with
      | neg => exact numeral?_mapEnclosed e
      | _ => rfl

@[simp] lemma isNumber_mapEnclosed (e : Expr) : (e.mapEnclosed f).isNumber = e.isNumber :=
  congrArg Option.isSome (numeral?_mapEnclosed e)

lemma all_isNumber_map (es : List Expr) :
    (es.map (mapEnclosed f)).all isNumber = es.all isNumber := by
  simp [List.all_map, Function.comp_def]

@[simp] lemma isFraction_mapEnclosed : ∀ e : Expr, (e.mapEnclosed f).isFraction = e.isFraction
  | .number _ | .identifier _ _ | .parens _ | .call _ _ _ _ => rfl
  | .apply op [] _ => by cases op <;> rfl
  | .apply op (e :: _) _ => by
      cases op with
      | neg => exact isFraction_mapEnclosed e
      | _ => rfl

@[simp] lemma isConstant_mapEnclosed (e : Expr) : (e.mapEnclosed f).isConstant = e.isConstant := by
  rw [isConstant, isConstant, isConstantFraction, isConstantFraction, operands_mapEnclosed,
    all_isNumber_map, isNumber_mapEnclosed, isFraction_mapEnclosed]

@[simp] lemma isJuxtaposed_mapEnclosed : ∀ e : Expr,
    (e.mapEnclosed f).isJuxtaposed = e.isJuxtaposed
  | .number _ | .identifier _ _ | .parens _ | .call _ _ _ _ => rfl
  | .apply op [] _ => by cases op <;> rfl
  | .apply op (e :: _) _ => by
      cases op with
      | neg => exact isJuxtaposed_mapEnclosed e
      | _ => rfl

@[simp] lemma hasConstantBase_mapEnclosed : ∀ e : Expr,
    (e.mapEnclosed f).hasConstantBase = e.hasConstantBase
  | .number _ | .identifier _ _ | .parens _ | .call _ _ _ _ => rfl
  | .apply op [] _ => by cases op <;> rfl
  | .apply op (e :: _) _ => by
      cases op with
      | pow => exact isNumber_mapEnclosed e
      | _ => rfl

@[simp] lemma variableName?_mapEnclosed : ∀ e : Expr,
    (e.mapEnclosed f).variableName? = e.variableName?
  | .number _ | .identifier _ _ | .parens _ | .call _ _ _ _ => rfl
  | .apply op [] _ => by cases op <;> rfl
  | .apply op (e :: _) _ => by
      cases op with
      | pow => exact variableName?_mapEnclosed e
      | _ => rfl

end Shape

/-! The classes of terms. -/

section Classes

@[simp] lemma isVariableFactor_mapEnclosed : ∀ e : Expr,
    (e.mapEnclosed f).isVariableFactor = e.isVariableFactor
  | .number _ | .identifier _ _ | .parens _ | .call _ _ _ _ => rfl
  | .apply op [] _ | .apply op [_] _ | .apply op (_ :: _ :: _ :: _) _ => by cases op <;> rfl
  | .apply op [b, x] marks => by
      cases op with
      | pow =>
          have hfactor (b x : Expr) : (apply .pow [b, x] marks).isVariableFactor =
            (b.isIdentifier && (x.isNumber || x.isVariableFactor)) := rfl
          rw [mapEnclosed_apply, List.map_cons, List.map_cons, List.map_nil, hfactor, hfactor,
            isIdentifier_mapEnclosed, isNumber_mapEnclosed, isVariableFactor_mapEnclosed x]
      | _ => rfl

mutual

@[simp] lemma isTerm_mapEnclosed : ∀ e : Expr, (e.mapEnclosed f).isTerm = e.isTerm
  | .number _ | .identifier _ _ | .parens _ | .call _ _ _ _ => rfl
  | .apply .div args _ => by
      rw [mapEnclosed_apply, isTerm, isTerm, all_isNumber_map]
  | .apply .pow [] _ | .apply .pow [_] _ | .apply .pow (_ :: _ :: _ :: _) _ => rfl
  | .apply .pow [b, x] _ => by
      rw [mapEnclosed_apply, List.map_cons, List.map_cons, List.map_nil, isTerm, isTerm,
        isIdentifier_mapEnclosed, isPolynomial_mapEnclosed b, isTerm_mapEnclosed x]
  | .apply .neg [] _ => rfl
  | .apply .neg (e :: _) _ => isTerm_mapEnclosed e
  | .apply .mul args _ => allTerms_mapEnclosedList args
  | .apply .add _ _ | .apply .pos _ _ | .apply .abs _ _ | .apply .fact _ _ => rfl
  | .apply .nthRoot _ _ | .apply .eq _ _ | .apply .ne _ _ | .apply .lt _ _ | .apply .le _ _ => rfl
  | .apply .gt _ _ | .apply .ge _ _ => rfl

@[simp] lemma isPolynomial_mapEnclosed : ∀ e : Expr, (e.mapEnclosed f).isPolynomial = e.isPolynomial
  | .number _ | .identifier _ _ | .parens _ | .call _ _ _ _ => rfl
  | .apply .add args _ => allTerms_mapEnclosedList args
  | .apply .mul _ _ | .apply .div _ _ | .apply .pow _ _ | .apply .neg _ _ | .apply .pos _ _ => rfl
  | .apply .abs _ _ | .apply .fact _ _ | .apply .nthRoot _ _ | .apply .eq _ _ => rfl
  | .apply .ne _ _ | .apply .lt _ _ | .apply .le _ _ | .apply .gt _ _ | .apply .ge _ _ => rfl

lemma allTerms_mapEnclosedList : ∀ es : List Expr,
    allTerms (mapEnclosedList f es) = allTerms es
  | [] => rfl
  | e :: es => by
      rw [mapEnclosedList, allTerms, allTerms, isTerm_mapEnclosed e, allTerms_mapEnclosedList es]

end

end Classes

/-! The parts of terms. -/

section Parts

lemma filter_map_mapEnclosed {p : Expr → Bool} (hp : ∀ e, p (e.mapEnclosed f) = p e)
    (es : List Expr) : (es.map (mapEnclosed f)).filter p = (es.filter p).map (mapEnclosed f) := by
  rw [List.filter_map]
  exact congrArg (List.map (mapEnclosed f)) (List.filter_congr fun e _ => hp e)

lemma variableFactors_mapEnclosed : ∀ e : Expr,
    (e.mapEnclosed f).variableFactors = e.variableFactors.map (mapEnclosed f)
  | .number _ | .identifier _ _ | .parens _ | .call _ _ _ _ | .apply .neg [] _ => rfl
  | .apply .mul factors marks => by
      rw [mapEnclosed_apply]
      exact filter_map_mapEnclosed isVariableFactor_mapEnclosed factors
  | .apply .neg (e :: _) _ => variableFactors_mapEnclosed e
  | .apply .pow args marks => by
      have hfactors (args : List Expr) : (apply .pow args marks).variableFactors =
        if (apply .pow args marks).isVariableFactor then [apply .pow args marks] else [] := rfl
      rw [hfactors, apply_ite (List.map (mapEnclosed f)), List.map_singleton, List.map_nil,
        ← isVariableFactor_mapEnclosed (f := f), mapEnclosed_apply, hfactors]
  | .apply .add _ _ | .apply .div _ _ | .apply .pos _ _ | .apply .abs _ _ | .apply .fact _ _ => rfl
  | .apply .nthRoot _ _ | .apply .eq _ _ | .apply .ne _ _ | .apply .lt _ _ | .apply .le _ _ => rfl
  | .apply .gt _ _ | .apply .ge _ _ => rfl

lemma sortVariables_map_mapEnclosed (factors : List Expr) :
    sortVariables (factors.map (mapEnclosed f)) = (sortVariables factors).map (mapEnclosed f) := by
  refine (List.map_mergeSort fun a _ b _ => ?_).symm
  rw [variableName?_mapEnclosed, variableName?_mapEnclosed]

lemma likeKey?_map_mapEnclosed (print : Printer) (juxtaposed : Bool) : ∀ factors : List Expr,
    likeKey? print juxtaposed (factors.map (mapEnclosed f)) =
      likeKey? (fun d => print (d.mapEnclosed f)) juxtaposed factors
  | [] | [_] => rfl
  | v :: w :: factors => by
      have hkey (print : Printer) (v w : Expr) (factors : List Expr) :
        likeKey? print juxtaposed (v :: w :: factors) =
          some (print (apply .mul (v :: w :: factors) { juxtaposed })) := rfl
      rw [List.map_cons, List.map_cons, hkey, hkey, mapEnclosed_apply, List.map_cons, List.map_cons]

/-- A key shows what is enclosed in the variable factors, as it is printed. -/
lemma key?_mapEnclosed (print : Printer) (e : Expr) :
    (e.mapEnclosed f).key? print = e.key? fun d => print (d.mapEnclosed f) := by
  rw [key?, key?, variableFactors_mapEnclosed, sortVariables_map_mapEnclosed,
    likeKey?_map_mapEnclosed, isJuxtaposed_mapEnclosed]

end Parts

/-! ## Constants and coefficients -/

/-- Every minus sign in an expression stands over a single operand. -/
def SingleSigned (e : Expr) : Prop :=
  e.Everywhere fun d => d.isOp .neg = true → d.operands.length = 1

namespace SingleSigned

variable {e a : Expr}

lemma operand (h : e.SingleSigned) (ha : a ∈ e.operands) : a.SingleSigned := by
  cases e with
  | apply op args marks => exact fun d hd => h d (.tail _ (mem_listSubterms ha hd))
  | call name s args marks =>
      exact fun d hd => h d (.tail _ (List.mem_append_right _ (mem_listSubterms ha hd)))
  | _ => cases ha

lemma of_mem_exposed (h : e.SingleSigned) (ha : a ∈ e.exposed) : a.SingleSigned := by
  induction e using Expr.induction with
  | number | identifier | parens => exact List.mem_singleton.mp ha ▸ h
  | apply op args marks ih | call name s args marks _ ih =>
      rw [exposed, exposedList_eq_flatMap] at ha
      rcases List.mem_cons.mp ha with rfl | ha
      · exact h
      · obtain ⟨b, hb, ha⟩ := List.mem_flatMap.mp ha
        exact ih b hb (h.operand hb) ha

lemma eq_nil {es : List Expr} {marks : Marks} (h : (apply .neg (e :: es) marks).SingleSigned) :
    es = [] := by
  have hlength := h _ (mem_subterms_self _) rfl
  exact List.eq_nil_of_length_eq_zero (Nat.succ.inj hlength)

lemma of_neg {es : List Expr} {marks : Marks} (h : (apply .neg (e :: es) marks).SingleSigned) :
    e.SingleSigned :=
  h.operand (List.mem_cons_self ..)

/-- Nothing is enclosed in a number. -/
lemma mapEnclosed_of_isNumber (h : e.SingleSigned) (hnumber : e.isNumber = true) :
    e.mapEnclosed f = e := by
  unfold isNumber at hnumber
  fun_induction numeral? e with
  | case1 => rfl
  | case2 e es marks ih =>
      obtain rfl := h.eq_nil
      rw [mapEnclosed_apply, List.map_singleton, ih h.of_neg hnumber]
  | case3 => cases hnumber

/-- Nothing is enclosed in a constant. -/
lemma mapEnclosed_of_isConstant (h : e.SingleSigned) (hconstant : e.isConstant = true) :
    e.mapEnclosed f = e := by
  rcases Bool.or_eq_true_iff.mp hconstant with hnumber | hfraction
  · exact h.mapEnclosed_of_isNumber hnumber
  · obtain ⟨args, marks, rfl, hargs⟩ := exists_of_isConstantFraction hfraction
    have hmap : args.map (mapEnclosed f) = args.map id := List.map_congr_left fun a ha =>
      (h.operand ha).mapEnclosed_of_isNumber (hargs a ha)
    rw [mapEnclosed_apply, hmap, List.map_id]

/-- So constant factors stay as they are, -/
lemma filter_isConstant_map {factors : List Expr} (h : ∀ e ∈ factors, e.SingleSigned) :
    (factors.map (mapEnclosed f)).filter isConstant = factors.filter isConstant := by
  have hmap : (factors.filter isConstant).map (mapEnclosed f) =
      (factors.filter isConstant).map id := by
    refine List.map_congr_left fun e he => ?_
    exact (h e (List.mem_of_mem_filter he)).mapEnclosed_of_isConstant (List.of_mem_filter he)
  rw [filter_map_mapEnclosed isConstant_mapEnclosed, hmap, List.map_id]

/-- and with them coefficients. -/
lemma coefficient?_mapEnclosed : ∀ {e : Expr}, e.SingleSigned →
    (e.mapEnclosed f).coefficient? = e.coefficient?
  | .number _, _ | .identifier _ _, _ | .parens _, _ | .call _ _ _ _, _ => rfl
  | .apply .mul factors marks, h => by
      have hfactors : ∀ e ∈ factors, e.SingleSigned := fun e he => h.operand he
      rw [mapEnclosed_apply, coefficient?, coefficient?, filter_isConstant_map hfactors]
  | .apply .neg [] _, _ => rfl
  | .apply .neg (e :: es) marks, h => by
      by_cases hnumber : e.isNumber = true
      · rw [h.mapEnclosed_of_isNumber hnumber]
      · have hnumber' : ¬ (e.mapEnclosed f).isNumber = true := by
          rwa [isNumber_mapEnclosed]
        rw [mapEnclosed_apply, List.map_cons, coefficient?, coefficient?, if_neg hnumber,
          if_neg hnumber', coefficient?_mapEnclosed h.of_neg]
  | .apply .pow _ _, _ | .apply .add _ _, _ | .apply .div _ _, _ | .apply .pos _ _, _ => rfl
  | .apply .abs _ _, _ | .apply .fact _ _, _ | .apply .nthRoot _ _, _ | .apply .eq _ _, _ => rfl
  | .apply .ne _ _, _ | .apply .lt _ _, _ | .apply .le _ _, _ | .apply .gt _ _, _ => rfl
  | .apply .ge _ _, _ => rfl

/-- Parentheses are in no term, and in no constant. -/
lemma piece?_mapEnclosed (print : Printer) (h : e.SingleSigned) :
    (e.mapEnclosed f).piece? print = e.piece? fun d => print (d.mapEnclosed f) := by
  unfold piece?
  rw [isConstant_mapEnclosed, isTerm_mapEnclosed, hasConstantBase_mapEnclosed, key?_mapEnclosed,
    h.coefficient?_mapEnclosed]
  refine ite_congr rfl (fun hconstant => ?_) fun _ => rfl
  rw [h.mapEnclosed_of_isConstant hconstant]

end SingleSigned

end Expr

/-! ## Pieces and decompositions -/

/-- A piece with an expression that is neither a constant nor a term changed by `f`. -/
def Piece.mapOther (f : Expr → Expr) : Piece → Piece
  | .other e => .other (f e)
  | piece => piece

/-- A decomposition with those expressions changed by `f`. -/
def Decomposition.mapOthers (f : Expr → Expr) (d : Decomposition) : Decomposition :=
  { d with others := d.others.map f }

lemma Decomposition.mapOthers_congr {f g : Expr → Expr} {d : Decomposition}
    (h : ∀ e ∈ d.others, f e = g e) : d.mapOthers f = d.mapOthers g := by
  rw [mapOthers, mapOthers, List.map_congr_left h]

lemma Decomposition.mapOthers_eq_self_iff {f : Expr → Expr} {d : Decomposition} :
    d.mapOthers f = d ↔ ∀ e ∈ d.others, f e = e := by
  constructor
  · intro h e he
    have hothers : d.others.map f = d.others.map id := by
      rw [List.map_id]
      exact congrArg Decomposition.others h
    exact List.map_inj_left.mp hothers e he
  · intro h
    have hid : d.mapOthers f = d.mapOthers id := mapOthers_congr h
    rw [hid, mapOthers, List.map_id]

lemma Decomposition.foldl_add_mapOther (f : Expr → Expr) (pieces : List Piece)
    (d : Decomposition) : (pieces.map (Piece.mapOther f)).foldl add (d.mapOthers f) =
      (pieces.foldl add d).mapOthers f := by
  induction pieces generalizing d with
  | nil => rfl
  | cons piece pieces ih =>
      have hadd : (d.mapOthers f).add (piece.mapOther f) = (d.add piece).mapOthers f := by
        cases piece with
        | other e => simp [Piece.mapOther, add, mapOthers]
        | _ => rfl
      rw [List.map_cons, List.foldl_cons, hadd, ih, List.foldl_cons]

namespace Expr

variable {f : Expr → Expr} {e : Expr}

/-- What is a piece as a whole is a term. -/
lemma isTerm_of_piece? {print : Printer} {piece : Piece} (h : e.piece? print = some piece) :
    e.isTerm = true ∧ piece.other? = none := by
  rcases eq_of_piece? h with ⟨rfl, hconstant⟩ | ⟨key, c, rfl, hterm, -⟩
  · exact ⟨isTerm_of_isConstant hconstant, rfl⟩
  · exact ⟨hterm, rfl⟩

lemma mapOther_of_piece? {print : Printer} {piece : Piece} (h : e.piece? print = some piece) :
    piece.mapOther f = piece := by
  obtain ⟨-, hother⟩ := isTerm_of_piece? h
  cases piece with
  | other => cases hother
  | _ => rfl

lemma allPieces_mapEnclosed {print : Printer} {args : List Expr}
    (h : ∀ a ∈ args, (a.mapEnclosed f).pieces print =
      (a.pieces fun d => print (d.mapEnclosed f)).map (Piece.mapOther (mapEnclosed f))) :
    allPieces print (args.map (mapEnclosed f)) =
      (allPieces (fun d => print (d.mapEnclosed f)) args).map
        (Piece.mapOther (mapEnclosed f)) := by
  rw [allPieces_eq_flatMap, allPieces_eq_flatMap, List.flatMap_map, List.map_flatMap]
  exact List.flatMap_congr h

/-- **A change of what is enclosed** shows in keys and in expressions in parentheses only. -/
theorem pieces_mapEnclosed (print : Printer) (h : e.SingleSigned) :
    (e.mapEnclosed f).pieces print =
      (e.pieces fun d => print (d.mapEnclosed f)).map (Piece.mapOther (mapEnclosed f)) := by
  induction e using Expr.induction with
  | number | parens => rfl
  | identifier name s =>
      have hpieces (print : Printer) (s : Option Expr) : (identifier name s).pieces print =
        [((identifier name s).piece? print).getD (.other (identifier name s))] := rfl
      have hpiece := h.piece?_mapEnclosed (f := f) print
      rw [mapEnclosed] at hpiece ⊢
      rw [hpieces, hpieces, hpiece]
      cases hwhole : (identifier name s).piece? fun d => print (d.mapEnclosed f) with
      | some piece => exact congrArg ([·]) (mapOther_of_piece? hwhole).symm
      | none => rfl
  | apply op args marks ih =>
      have hargs := allPieces_mapEnclosed fun a ha => ih a ha (h.operand ha)
      have hpiece := h.piece?_mapEnclosed (f := f) print
      have hpolynomial := isPolynomial_mapEnclosed (f := f) (apply op args marks)
      rw [mapEnclosed_apply] at hpiece hpolynomial ⊢
      rw [pieces, pieces, hpiece, hpolynomial, hargs]
      cases hwhole : (apply op args marks).piece? fun d => print (d.mapEnclosed f) with
      | some piece => exact congrArg ([·]) (mapOther_of_piece? hwhole).symm
      | none => cases (apply op args marks).isPolynomial <;> rfl
  | call name s args marks _ ih =>
      have hargs := allPieces_mapEnclosed fun a ha => ih a ha (h.operand ha)
      have hpiece := h.piece?_mapEnclosed (f := f) print
      rw [mapEnclosed_call] at hpiece ⊢
      rw [pieces, pieces, hpiece, hargs]
      cases hwhole : (call name s args marks).piece? fun d => print (d.mapEnclosed f) with
      | some piece => exact congrArg ([·]) (mapOther_of_piece? hwhole).symm
      | none => rfl

/-- So the decomposition is the same, but for the keys and the expressions in parentheses. -/
theorem decompose_mapEnclosed (print : Printer) (h : e.SingleSigned) :
    (e.mapEnclosed f).decompose print =
      (e.decompose fun d => print (d.mapEnclosed f)).mapOthers (mapEnclosed f) := by
  rw [decompose, Decomposition.collect, pieces_mapEnclosed print h]
  exact Decomposition.foldl_add_mapOther _ _ {}

/-! ## What a printer is asked for -/

lemma piece?_congr {print print' : Printer} (h : e.key? print = e.key? print') :
    e.piece? print = e.piece? print' := by
  rw [piece?, piece?, h]

/-- Printers that agree on keys find the same pieces. -/
lemma pieces_congr {print print' : Printer}
    (h : ∀ d ∈ e.exposed, d.key? print = d.key? print') : e.pieces print = e.pieces print' := by
  have hpiece := piece?_congr (h e (mem_exposed_self e))
  induction e using Expr.induction with
  | number | parens => rfl
  | identifier name s =>
      exact congrArg (fun piece? => [piece?.getD (.other (identifier name s))]) hpiece
  | apply op args marks ih | call name s args marks _ ih =>
      have hargs : allPieces print args = allPieces print' args := by
        rw [allPieces_eq_flatMap, allPieces_eq_flatMap]
        refine List.flatMap_congr fun a ha => ?_
        have hkeys : ∀ d ∈ a.exposed, d.key? print = d.key? print' := fun d hd =>
          h d (mem_exposed_of_mem_operands ha hd)
        exact ih a ha hkeys (piece?_congr (hkeys a (mem_exposed_self a)))
      rw [pieces, pieces, hpiece, hargs]

/-- So they make the same decomposition. -/
lemma decompose_congr {print print' : Printer}
    (h : ∀ d ∈ e.exposed, d.key? print = d.key? print') :
    e.decompose print = e.decompose print' := by
  rw [decompose, decompose, Decomposition.collect, Decomposition.collect, pieces_congr h]

/-! ## Exposed parentheses -/

/-- Whether some exposed expression is in parentheses. -/
def exposesParens (e : Expr) : Bool :=
  e.exposed.any isParens

lemma any_exposedList (es : List Expr) :
    (exposedList es).any isParens = es.any exposesParens := by
  rw [exposedList_eq_flatMap, List.any_flatMap]
  rfl

lemma exposesParens_apply (op : Operator) (args : List Expr) (marks : Marks) :
    (apply op args marks).exposesParens = args.any exposesParens := by
  rw [exposesParens, exposed, List.any_cons, any_exposedList]
  rfl

lemma exposesParens_call (name : String) (s : Option Expr) (args : List Expr) (marks : Marks) :
    (call name s args marks).exposesParens = args.any exposesParens := by
  rw [exposesParens, exposed, List.any_cons, any_exposedList]
  rfl

/-- Terms and polynomials are made of terms and polynomials. -/
lemma isTerm_of_mem_operands (h : e.SingleSigned)
    (hterm : e.isTerm = true ∨ e.isPolynomial = true) :
    ∀ a ∈ e.operands, a.isTerm = true ∨ a.isPolynomial = true := by
  cases e with
  | apply op args marks =>
      have hall (hargs : allTerms args = true) :
          ∀ a ∈ args, a.isTerm = true ∨ a.isPolynomial = true := fun a ha =>
        .inl (List.all_eq_true.mp (allTerms_eq_all args ▸ hargs) a ha)
      rcases hterm with hterm | hpolynomial
      · unfold isTerm at hterm
        split at hterm
        · next heq => cases heq
        · next heq => cases heq
        · next heq =>
          cases heq
          exact fun a ha => .inl (isTerm_of_isNumber (List.all_eq_true.mp hterm a ha))
        · next b x marks heq =>
          cases heq
          obtain ⟨hbase, hx⟩ := Bool.and_eq_true_iff.mp hterm
          refine List.forall_mem_cons.mpr ⟨?_, List.forall_mem_singleton.mpr (.inl hx)⟩
          rcases Bool.or_eq_true_iff.mp hbase with hidentifier | hpolynomial
          · cases b with
            | identifier => exact .inl rfl
            | _ => cases hidentifier
          · exact .inr hpolynomial
        · next heq =>
          cases heq
          obtain rfl := h.eq_nil
          exact List.forall_mem_singleton.mpr (.inl hterm)
        · next heq =>
          cases heq
          exact hall hterm
        · cases hterm
      · unfold isPolynomial at hpolynomial
        split at hpolynomial
        · next heq =>
          cases heq
          exact hall hpolynomial
        · cases hpolynomial
  | _ => exact fun a ha => by rcases hterm with hterm | hterm <;> cases hterm <;> cases ha

lemma exposesParens_of_isTerm (h : e.SingleSigned)
    (hterm : e.isTerm = true ∨ e.isPolynomial = true) : e.exposesParens = false := by
  induction e using Expr.induction with
  | number | identifier => rfl
  | parens | call => rcases hterm with hterm | hterm <;> cases hterm
  | apply op args marks ih =>
      rw [exposesParens_apply, List.any_eq_false]
      intro a ha
      have hoperand := ih a ha (h.operand ha) (isTerm_of_mem_operands h hterm a ha)
      exact Bool.eq_false_iff.mp hoperand

lemma filterMap_other?_allPieces {print : Printer} {args : List Expr}
    (h : ∀ a ∈ args, (a.pieces print).filterMap Piece.other? = a.exposed.filter isParens) :
    (allPieces print args).filterMap Piece.other? = (exposedList args).filter isParens := by
  rw [allPieces_eq_flatMap, exposedList_eq_flatMap, List.filterMap_flatMap, List.filter_flatMap]
  exact List.flatMap_congr h

/-- As a whole an expression is a term, which exposes no parentheses. -/
lemma filterMap_other?_of_piece? {print : Printer} {piece : Piece} (h : e.SingleSigned)
    (hpiece : e.piece? print = some piece) :
    [piece].filterMap Piece.other? = e.exposed.filter isParens := by
  obtain ⟨hterm, hother⟩ := isTerm_of_piece? hpiece
  have hnone := exposesParens_of_isTerm h (.inl hterm)
  rw [exposesParens, List.any_eq_false] at hnone
  rw [List.filterMap_cons_none hother, List.filter_eq_nil_iff.mpr hnone, List.filterMap_nil]

lemma filterMap_other?_pieces (print : Printer) (h : e.SingleSigned) :
    (e.pieces print).filterMap Piece.other? = e.exposed.filter isParens := by
  induction e using Expr.induction with
  | number | parens => rfl
  | identifier name s =>
      obtain ⟨key, hpieces⟩ := pieces_identifier print name s
      rw [hpieces]
      rfl
  | apply op args marks ih =>
      have hargs := filterMap_other?_allPieces fun a ha => ih a ha (h.operand ha)
      rw [pieces]
      split
      · next piece hpiece => exact filterMap_other?_of_piece? h hpiece
      · split
        · exact hargs
        · exact hargs
  | call name s args marks _ ih =>
      have hargs := filterMap_other?_allPieces fun a ha => ih a ha (h.operand ha)
      rw [pieces]
      split
      · next piece hpiece => exact filterMap_other?_of_piece? h hpiece
      · exact hargs

/-- **What is neither a constant nor a term** are the exposed expressions in parentheses. -/
theorem others_eq_exposed (print : Printer) (h : e.SingleSigned) :
    (e.decompose print).others = e.exposed.filter isParens := by
  rw [decompose, Decomposition.others_collect, filterMap_other?_pieces print h]
  rfl

lemma others_eq_nil_iff {print : Printer} (h : e.SingleSigned) :
    (e.decompose print).others = [] ↔ e.exposesParens = false := by
  rw [others_eq_exposed print h, List.filter_eq_nil_iff, exposesParens, List.any_eq_false]

end Expr

end MathExpr
