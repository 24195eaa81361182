import Mathlib.Data.List.Sort
import MathExpr.Proofs.LikeTerms.FactorOrder

/-!
# Collecting one expression after another

A decomposition is filled step by step, possibly with the parts of many expressions.  What one
expression brings in does not depend on what is there already, and it goes behind it.  Hence the
order in which expressions are collected shows in the order of the parts, and in nothing else.

* `CoefficientGroups.get_add` — what one more coefficient changes.
* `CoefficientGroups.eq_of_get` — groups are known by their keys and the coefficients under each.
* `Decomposition.Extends` — a decomposition is another one with further parts behind its own.
* `Decomposition.Rearranges` — two decompositions have the same keys, and the same parts in some
  order.
* `Decomposition.extends_collect` — one expression puts its own parts behind the others.
* `Decomposition.rearranges_collectAll` — another order of expressions is another order of parts.
* **`Decomposition.collect_appends`** — both of these laws, and that the first one says it all.
-/

namespace MathExpr

/-! ## Groups -/

namespace CoefficientGroups

variable {groups groups' : CoefficientGroups} {key k : String} {coefficient : Expr}

/-- A key below all keys of a list has no entry there. -/
lemma find_eq_nil_of_lt {entries : List (String × List Expr)}
    (h : ∀ entry ∈ entries, key < entry.1) : find key entries = [] := by
  induction entries with
  | nil => rfl
  | cons entry entries ih =>
      have hne : entry.1 ≠ key := fun heq => String.lt_irrefl _ (heq ▸ h entry (.head _))
      rw [find, if_neg hne]
      exact ih fun entry hmem => h entry (.tail _ hmem)

lemma find_insert (key : String) (coefficient : Expr) {entries : List (String × List Expr)}
    (h : entries.Pairwise fun a b => a.1 < b.1) (k : String) :
    find k (insert key coefficient entries) =
      find k entries ++ if key = k then [coefficient] else [] := by
  induction entries with
  | nil => simp [insert, find]
  | cons entry entries ih =>
      obtain ⟨hentry, hrest⟩ := List.pairwise_cons.mp h
      simp only [insert]
      split
      · next hlt =>
        by_cases hk : key = k
        · subst hk
          have hnil : find key (entry :: entries) = [] := find_eq_nil_of_lt fun e hmem => by
            rcases List.mem_cons.mp hmem with rfl | hmem
            · exact hlt
            · exact String.lt_trans hlt (hentry e hmem)
          rw [hnil, find]
          simp
        · simp [find, hk]
      · split
        · next heq => by_cases hk : entry.1 = k <;> simp [find, heq, hk]
        · next hne =>
          by_cases hk : entry.1 = k
          · have hkey : key ≠ k := fun heq => hne (heq.trans hk.symm)
            simp [find, hk, hkey]
          · simpa [find, hk] using ih hrest

/-- Adding a coefficient puts it at the end of the group of its key and leaves the others alone. -/
lemma get_add (groups : CoefficientGroups) (key : String) (coefficient : Expr) (k : String) :
    (groups.add key coefficient).get k =
      groups.get k ++ if key = k then [coefficient] else [] :=
  find_insert key coefficient groups.ascending k

lemma keys_ascending (groups : CoefficientGroups) : groups.keys.Pairwise (· < ·) :=
  List.pairwise_map.mpr groups.ascending

/-- Inserting brings in its key and loses none. -/
lemma mem_keys_insert : ∀ {entries : List (String × List Expr)},
    k ∈ (insert key coefficient entries).map Prod.fst ↔ k ∈ entries.map Prod.fst ∨ key = k
  | [] => by simp [insert, eq_comm]
  | entry :: entries => by
      rw [insert]
      split
      · simp only [List.map_cons, List.mem_cons, eq_comm, or_comm]
      · split
        · next heq =>
          subst heq
          simp only [List.map_cons, List.mem_cons, eq_comm, or_comm, or_self_left]
        · rw [List.map_cons, List.mem_cons, mem_keys_insert, List.map_cons, List.mem_cons,
            or_assoc]

lemma mem_keys_add : k ∈ (groups.add key coefficient).keys ↔ k ∈ groups.keys ∨ key = k :=
  mem_keys_insert

/-- Keys stand in ascending order, so they are the same if they have the same elements. -/
lemma keys_eq (h : ∀ key, key ∈ groups.keys ↔ key ∈ groups'.keys) : groups.keys = groups'.keys :=
  groups.keys_ascending.eq_of_mem_iff groups'.keys_ascending h

/-- The entries are the keys with the coefficients that are found under them. -/
lemma map_find : ∀ {entries : List (String × List Expr)},
    entries.Pairwise (fun a b => a.1 < b.1) →
    (entries.map Prod.fst).map (fun key => (key, find key entries)) = entries
  | [], _ => rfl
  | entry :: entries, h => by
      obtain ⟨hentry, hentries⟩ := List.pairwise_cons.mp h
      have hrest : ∀ key ∈ entries.map Prod.fst,
          (key, find key (entry :: entries)) = (key, find key entries) := by
        intro key hkey
        obtain ⟨other, hother, rfl⟩ := List.mem_map.mp hkey
        have hne : entry.1 ≠ other.1 := fun heq =>
          String.lt_irrefl _ (heq ▸ hentry other hother)
        rw [find, if_neg hne]
      rw [List.map_cons, List.map_cons, List.map_congr_left hrest, map_find hentries, find,
        if_pos rfl]

/-- Groups are known by their keys and the coefficients under each. -/
lemma eq_of_get (hkeys : ∀ key, key ∈ groups.keys ↔ key ∈ groups'.keys)
    (hget : ∀ key, groups.get key = groups'.get key) : groups = groups' := by
  have hentries : groups.entries = groups'.entries := by
    rw [← map_find groups.ascending, ← map_find groups'.ascending]
    have hkeys' : groups.entries.map Prod.fst = groups'.entries.map Prod.fst := keys_eq hkeys
    rw [hkeys']
    exact List.map_congr_left fun key _ => congrArg (Prod.mk key) (hget key)
  cases groups
  cases groups'
  cases hentries
  rfl

end CoefficientGroups

/-! ## What a piece brings in -/

namespace Piece

/-- The expression of a constant. -/
def constant? : Piece → Option Expr
  | .constant e => some e
  | _ => none

/-- The key of a term. -/
def key? : Piece → Option String
  | .like key _ => some key
  | _ => none

/-- The coefficient of a term that is filed under the key. -/
def coefficient? (key : String) : Piece → Option Expr
  | .like k coefficient => if k = key then some coefficient else none
  | _ => none

end Piece

namespace Decomposition

variable {print : Printer} {d d' d'' fresh : Decomposition} {e : Expr} {es es' : List Expr}

lemma constants_add (d : Decomposition) (piece : Piece) :
    (d.add piece).constants = d.constants ++ piece.constant?.toList := by
  cases piece with
  | constant e => rfl
  | _ => exact (List.append_nil _).symm

lemma get_add (key : String) (d : Decomposition) (piece : Piece) :
    (d.add piece).groups.get key = d.groups.get key ++ (piece.coefficient? key).toList := by
  cases piece with
  | like k coefficient =>
      rw [add, CoefficientGroups.get_add, Piece.coefficient?]
      split <;> rfl
  | _ => exact (List.append_nil _).symm

lemma mem_keys_add {key : String} {piece : Piece} :
    key ∈ (d.add piece).groups.keys ↔ key ∈ d.groups.keys ∨ piece.key? = some key := by
  cases piece with
  | like k coefficient =>
      rw [add, CoefficientGroups.mem_keys_add, Piece.key?, Option.some_inj]
  | _ => exact (or_iff_left (by simp [Piece.key?])).symm

lemma mem_keys_foldl_add {key : String} {pieces : List Piece} :
    key ∈ (pieces.foldl add d).groups.keys ↔
      key ∈ d.groups.keys ∨ ∃ piece ∈ pieces, piece.key? = some key := by
  induction pieces generalizing d with
  | nil => simp
  | cons piece pieces ih =>
      rw [List.foldl_cons, ih, mem_keys_add, List.exists_mem_cons_iff, or_assoc]

/-! ## One expression -/

/-- The decomposition `d'` is `d` with the parts of `fresh` behind its own.  A key that is missing
has no coefficients. -/
structure Extends (d' d fresh : Decomposition) : Prop where
  keys : ∀ key, key ∈ d'.groups.keys ↔ key ∈ d.groups.keys ∨ key ∈ fresh.groups.keys
  coefficients : ∀ key, d'.groups.get key = d.groups.get key ++ fresh.groups.get key
  constants : d'.constants = d.constants ++ fresh.constants
  others : d'.others = d.others ++ fresh.others

/-- Nothing about a decomposition is left open by what it extends, and by what. -/
lemma Extends.unique (h : d'.Extends d fresh) (h' : d''.Extends d fresh) : d' = d'' := by
  have hgroups : d'.groups = d''.groups :=
    CoefficientGroups.eq_of_get (fun key => (h.keys key).trans (h'.keys key).symm)
      fun key => (h.coefficients key).trans (h'.coefficients key).symm
  have hconstants : d'.constants = d''.constants := h.constants.trans h'.constants.symm
  have hothers : d'.others = d''.others := h.others.trans h'.others.symm
  cases d'
  cases d''
  cases hgroups
  cases hconstants
  cases hothers
  rfl

/-- A list to whose end every piece adds something is extended by what an expression brings in on
its own. -/
lemma view_collect {α : Type} (view : Decomposition → List α) {yield : Piece → List α}
    (hadd : ∀ d piece, view (d.add piece) = view d ++ yield piece) (hempty : view {} = [])
    (d : Decomposition) (e : Expr) :
    view (d.collect print e) = view d ++ view (e.decompose print) := by
  rw [Expr.decompose, collect, collect, view_foldl_add hadd, view_foldl_add hadd, hempty,
    List.nil_append]

/-- **What an expression brings in** goes behind what is there, whatever that is. -/
theorem extends_collect (d : Decomposition) (print : Printer) (e : Expr) :
    (d.collect print e).Extends d (e.decompose print) where
  keys key := by
    have hfresh : key ∈ (e.decompose print).groups.keys ↔
        ∃ piece ∈ e.pieces print, piece.key? = some key :=
      mem_keys_foldl_add.trans (or_iff_right List.not_mem_nil)
    rw [collect, mem_keys_foldl_add, hfresh]
  coefficients key := view_collect (fun d => d.groups.get key) (get_add key) rfl d e
  constants := view_collect constants constants_add rfl d e
  others := view_collect others others_add rfl d e

/-! ## Many expressions -/

/-- Collects expressions one after the other. -/
def collectAll (d : Decomposition) (print : Printer) (es : List Expr) : Decomposition :=
  es.foldl (fun d e => d.collect print e) d

/-- Two decompositions have the same keys, and the same parts in some order. -/
structure Rearranges (d d' : Decomposition) : Prop where
  keys : d.groups.keys = d'.groups.keys
  coefficients : ∀ key, (d.groups.get key).Perm (d'.groups.get key)
  constants : d.constants.Perm d'.constants
  others : d.others.Perm d'.others

/-- What every expression extends, all of them extend in their order. -/
lemma view_collectAll {α : Type} {view : Decomposition → List α}
    (hcollect : ∀ d e, view (d.collect print e) = view d ++ view (e.decompose print))
    (d : Decomposition) (es : List Expr) :
    view (d.collectAll print es) = view d ++ es.flatMap fun e => view (e.decompose print) := by
  induction es generalizing d with
  | nil => exact (List.append_nil _).symm
  | cons e es ih =>
      rw [collectAll, List.foldl_cons, ← collectAll, ih, hcollect, List.append_assoc,
        List.flatMap_cons]

lemma mem_keys_collectAll {key : String} :
    key ∈ (d.collectAll print es).groups.keys ↔
      key ∈ d.groups.keys ∨ ∃ e ∈ es, key ∈ (e.decompose print).groups.keys := by
  induction es generalizing d with
  | nil => simp [collectAll]
  | cons e es ih =>
      rw [collectAll, List.foldl_cons, ← collectAll, ih, (extends_collect d print e).keys,
        List.exists_mem_cons_iff, or_assoc]

/-- So its parts are rearranged if the expressions are. -/
lemma perm_view_collectAll {α : Type} (view : Decomposition → List α)
    (hcollect : ∀ d e, view (d.collect print e) = view d ++ view (e.decompose print))
    (d : Decomposition) (hperm : es.Perm es') :
    (view (d.collectAll print es)).Perm (view (d.collectAll print es')) := by
  rw [view_collectAll hcollect, view_collectAll hcollect]
  exact (hperm.flatMap_right _).append_left _

/-- **Another order of expressions** is another order of parts. -/
theorem rearranges_collectAll (d : Decomposition) (print : Printer) (hperm : es.Perm es') :
    (d.collectAll print es).Rearranges (d.collectAll print es') where
  keys := CoefficientGroups.keys_eq fun key => by
    simp only [mem_keys_collectAll, hperm.mem_iff]
  coefficients key := by
    have hcollect := fun d e => (extends_collect d print e).coefficients key
    exact perm_view_collectAll (fun d => d.groups.get key) hcollect d hperm
  constants := perm_view_collectAll _ (fun d e => (extends_collect d print e).constants) d hperm
  others := perm_view_collectAll _ (fun d e => (extends_collect d print e).others) d hperm

/-- **Collecting appends.**  Collecting an expression puts the parts that it has on its own behind
those that are there, and does nothing else.  Hence expressions may be collected in any order, if
the order of the parts does not matter. -/
theorem collect_appends (print : Printer) :
    (∀ (d d' : Decomposition) (e : Expr),
      d' = d.collect print e ↔ d'.Extends d (e.decompose print)) ∧
    ∀ (d : Decomposition) (es es' : List Expr), es.Perm es' →
      (d.collectAll print es).Rearranges (d.collectAll print es') := by
  refine ⟨fun d d' e => ⟨?_, fun h => h.unique (extends_collect d print e)⟩, ?_⟩
  · rintro rfl
    exact extends_collect d print e
  · intro d es es' hperm
    exact rearranges_collectAll d print hperm

/-- The terms `2 x` and `y` and the constant `3`, collected in two orders. -/
theorem rearranges_three :
    [Expr.juxtapose [.number "2", .var "x"], .var "y", .number "3"].Perm
        [.number "3", .juxtapose [.number "2", .var "x"], .var "y"] ∧
      (collectAll {} (fun e => e.print {})
        [.juxtapose [.number "2", .var "x"], .var "y", .number "3"]).Rearranges
        (collectAll {} (fun e => e.print {})
          [.number "3", .juxtapose [.number "2", .var "x"], .var "y"]) := by
  have hperm : [Expr.juxtapose [.number "2", .var "x"], .var "y", .number "3"].Perm
      [.number "3", .juxtapose [.number "2", .var "x"], .var "y"] :=
    ((List.Perm.swap _ _ []).cons _).trans (List.Perm.swap _ _ _)
  exact ⟨hperm, (collect_appends fun e => e.print {}).2 {} _ _ hperm⟩

end Decomposition

end MathExpr
