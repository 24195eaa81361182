import MathExpr.Expr.Basic

/-!
# Groups of coefficients

Coefficients are grouped under texts.  The groups stand in the order of their keys, each key once,
so groups with the same content are equal.

* `CoefficientGroups`, `CoefficientGroups.add` — the groups, and one more coefficient under a key.
* `CoefficientGroups.get` — the coefficients under a key.
-/

namespace MathExpr

/-- Lists of coefficients under keys, which ascend. -/
structure CoefficientGroups where
  entries : List (String × List Expr)
  ascending : entries.Pairwise fun a b => a.1 < b.1

namespace CoefficientGroups

/-- No groups. -/
def empty : CoefficientGroups :=
  ⟨[], .nil⟩

/-- Puts a coefficient at the end of the group of its key, or into a new group at its place. -/
def insert (key : String) (coefficient : Expr) :
    List (String × List Expr) → List (String × List Expr)
  | [] => [(key, [coefficient])]
  | (k, coefficients) :: entries =>
    if key < k then (key, [coefficient]) :: (k, coefficients) :: entries
    else if key = k then (k, coefficients ++ [coefficient]) :: entries
    else (k, coefficients) :: insert key coefficient entries

/-- Inserting brings in no key but its own. -/
theorem key_of_mem_insert {key : String} {coefficient : Expr} {entries : List (String × List Expr)}
    {entry : String × List Expr} (h : entry ∈ insert key coefficient entries) :
    entry.1 = key ∨ ∃ old ∈ entries, old.1 = entry.1 := by
  induction entries with
  | nil => simp_all [insert]
  | cons old entries ih => grind [insert]

theorem lt_of_not_lt_of_ne {a b : String} (hlt : ¬ a < b) (hne : a ≠ b) : b < a :=
  String.not_le.1 fun hle => hne (String.le_antisymm hle (String.not_lt.1 hlt))

/-- Inserting keeps the keys in order. -/
theorem insert_ascending (key : String) (coefficient : Expr)
    {entries : List (String × List Expr)} (h : entries.Pairwise fun a b => a.1 < b.1) :
    (insert key coefficient entries).Pairwise fun a b => a.1 < b.1 := by
  induction entries with
  | nil => exact List.pairwise_singleton _ _
  | cons old entries ih =>
    obtain ⟨hold, hrest⟩ := List.pairwise_cons.1 h
    simp only [insert]
    split
    · next hlt =>
      refine List.pairwise_cons.2 ⟨fun entry hmem => ?_, h⟩
      rcases List.mem_cons.1 hmem with rfl | hmem
      · exact hlt
      · exact String.lt_trans hlt (hold entry hmem)
    · next hlt =>
      split
      · exact List.pairwise_cons.2 ⟨hold, hrest⟩
      · next hne =>
        refine List.pairwise_cons.2 ⟨fun entry hmem => ?_, ih hrest⟩
        rcases key_of_mem_insert hmem with hkey | ⟨entry', hmem', hkey⟩
        · exact hkey ▸ lt_of_not_lt_of_ne hlt hne
        · exact hkey ▸ hold entry' hmem'

/-- The groups with one more coefficient, at the end of the group of its key. -/
def add (groups : CoefficientGroups) (key : String) (coefficient : Expr) : CoefficientGroups :=
  ⟨insert key coefficient groups.entries, insert_ascending key coefficient groups.ascending⟩

/-- The coefficients of the first entry with a key.  Without one there are none. -/
def find (key : String) : List (String × List Expr) → List Expr
  | [] => []
  | (k, coefficients) :: entries => if k = key then coefficients else find key entries

/-- The coefficients under a key. -/
def get (groups : CoefficientGroups) (key : String) : List Expr :=
  find key groups.entries

end CoefficientGroups

end MathExpr
