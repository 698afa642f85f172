/-
Module: AsconSuite.Base.Ledger
Layer: Base (library)
Purpose: Append-only ledgers of numbered entries under accounts. In an ascending ledger the numbers of each
  account increase strictly; such a ledger has no entry twice, and it stays ascending when every new entry
  is above those of its account.
Imports: Mathlib's lemmas on Pairwise and on sorted lists
Trusted boundary: none
Main exports: Ascending, Below, ascending_append, ascending_nodup, Below.append, sublist_of_subset
-/
import Mathlib.Data.List.Pairwise
import Mathlib.Data.List.Sort
import Mathlib.Order.Defs.PartialOrder

namespace Ledger

variable {ε κ ν : Type*} [Preorder ν] (account : ε → κ) (number : ε → ν)

/-- In each account every number is greater than those before it. -/
def Ascending (entries : List ε) : Prop :=
  entries.Pairwise fun early late => account early = account late → number early < number late

/-- Every number of the account is below the bound. -/
def Below (entries : List ε) (k : κ) (bound : ν) : Prop :=
  ∀ entry ∈ entries, account entry = k → number entry < bound

variable {account number} {entries : List ε}

theorem ascending_nil : Ascending account number ([] : List ε) := List.Pairwise.nil

theorem below_nil (k : κ) (bound : ν) : Below account number ([] : List ε) k bound :=
  fun _ member => absurd member List.not_mem_nil

/-- A ledger grows by entries above those of their account. -/
theorem ascending_append (ascending : Ascending account number entries) {entry : ε}
    (above : Below account number entries (account entry) (number entry)) :
    Ascending account number (entries ++ [entry]) := by
  refine List.pairwise_append.2 ⟨ascending, List.pairwise_singleton _ _, ?_⟩
  intro early member late last same
  rw [List.mem_singleton.1 last] at same ⊢
  exact above early member same

/-- An ascending ledger has no entry twice. -/
theorem ascending_nodup (ascending : Ascending account number entries) : entries.Nodup := by
  refine List.Pairwise.imp ?_ ascending
  intro early late increasing same
  rw [same] at increasing
  exact lt_irrefl _ (increasing rfl)

theorem Below.mono {k : κ} {bound bound' : ν} (below : Below account number entries k bound)
    (le : bound ≤ bound') : Below account number entries k bound' :=
  fun entry member same => lt_of_lt_of_le (below entry member same) le

/-- A bound on the old entries and on the new one. -/
theorem Below.append {k : κ} {bound : ν} (below : Below account number entries k bound) {entry : ε}
    (last : account entry = k → number entry < bound) :
    Below account number (entries ++ [entry]) k bound := by
  intro other member same
  rcases List.mem_append.1 member with old | new
  · exact below other old same
  · rw [List.mem_singleton.1 new] at same ⊢
    exact last same

/-- An account without entries is below every bound. -/
theorem below_of_forall_ne {k : κ} {bound : ν} (none : ∀ entry ∈ entries, account entry ≠ k) :
    Below account number entries k bound :=
  fun entry member same => absurd same (none entry member)

/-- The part of an ascending ledger that belongs to one account. -/
theorem Ascending.filter [DecidableEq κ] (ascending : Ascending account number entries) (k : κ) :
    (entries.filter (account · = k)).Pairwise fun early late => number early < number late := by
  refine List.Pairwise.imp_of_mem ?_ (ascending.sublist List.filter_sublist)
  intro early late earlyMember lateMember increasing
  have own := of_decide_eq_true (List.mem_filter.1 earlyMember).2
  exact increasing (own.trans (of_decide_eq_true (List.mem_filter.1 lateMember).2).symm)

/-- When one ascending ledger has only entries of another one, they come in the same order in each account. -/
theorem Ascending.sublist_of_subset [DecidableEq κ] {others : List ε} (ascending : Ascending account number entries)
    (ascending' : Ascending account number others) {k : κ}
    (subset : ∀ entry ∈ entries, account entry = k → entry ∈ others) :
    (entries.filter (account · = k)).Sublist (others.filter (account · = k)) := by
  have distinct : (entries.filter (account · = k)).Nodup :=
    (ascending_nodup ascending).filter _
  have inOthers : (entries.filter (account · = k)) ⊆ others.filter (account · = k) := by
    intro entry member
    obtain ⟨listed, own⟩ := List.mem_filter.1 member
    exact List.mem_filter.2 ⟨subset entry listed (of_decide_eq_true own), own⟩
  have antisymmetric : Std.Antisymm fun early late : ε => number early < number late :=
    ⟨fun early late less greater => absurd greater (lt_asymm less)⟩
  exact List.sublist_of_subperm_of_pairwise (List.subperm_of_subset distinct inOthers)
    (ascending.filter k) (ascending'.filter k)

end Ledger
