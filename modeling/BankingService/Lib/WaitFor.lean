/-
  File:      BankingService/Lib/WaitFor.lean
  Subject:   WAIT-FOR GRAPHS AND ORDERED ACQUISITION.

  Parties hold resources and may wait for one. If there is a strict order on the resources such that
  every waiting party waits for something above all it holds, then nobody waits for itself, not even
  through others (`acyclic_of_ordered`), and among finitely many parties someone waits for nobody
  (`exists_free`).
-/
import Mathlib.Data.Fintype.Card
import Mathlib.Logic.Relation
import Mathlib.Order.WellFounded

namespace BankingService.Lib

open Relation

variable {ι ρ : Type}

/-- Party `i` waits for party `j`: it wants something `j` holds. -/
def WaitsFor (wants : ι → Option ρ) (holds : ι → ρ → Prop) (i j : ι) : Prop :=
  ∃ x, wants i = some x ∧ holds j x

section Ordered

variable {lt : ρ → ρ → Prop} {wants : ι → Option ρ} {holds : ι → ρ → Prop}

/-- A chain of waits climbs: its last party holds something at or above what the first one wants. -/
theorem climbs (trans : ∀ a b c, lt a b → lt b c → lt a c)
    (ordered : ∀ i x y, wants i = some x → holds i y → lt y x) {i j : ι}
    (h : TransGen (WaitsFor wants holds) i j) :
    ∃ x z, wants i = some x ∧ holds j z ∧ (x = z ∨ lt x z) := by
  induction h with
  | single h =>
      obtain ⟨x, hx, hj⟩ := h
      exact ⟨x, x, hx, hj, .inl rfl⟩
  | tail _ h ih =>
      obtain ⟨x, z, hx, hz, hxz⟩ := ih
      obtain ⟨y, hy, hk⟩ := h
      have hzy : lt z y := ordered _ y z hy hz
      refine ⟨x, y, hx, hk, .inr ?_⟩
      rcases hxz with rfl | hxz
      · exact hzy
      · exact trans x z y hxz hzy

/-- **Ordered acquisition has no cycle.** -/
theorem acyclic_of_ordered (irrefl : ∀ a, ¬lt a a)
    (trans : ∀ a b c, lt a b → lt b c → lt a c)
    (ordered : ∀ i x y, wants i = some x → holds i y → lt y x) (i : ι) :
    ¬TransGen (WaitsFor wants holds) i i := by
  intro h
  obtain ⟨x, z, hx, hz, hxz⟩ := climbs trans ordered h
  have hzx : lt z x := ordered i x z hx hz
  rcases hxz with rfl | hxz
  · exact irrefl x hzx
  · exact irrefl x (trans x z x hxz hzx)

end Ordered

/-- **Somebody waits for nobody**: in a finite, non-empty set of parties that wait only for each
    other, without a cycle. -/
theorem exists_free {W : ι → ι → Prop} (acyclic : ∀ i, ¬TransGen W i i) {A : Set ι}
    (hfin : A.Finite) (hne : A.Nonempty) (hclosed : ∀ i ∈ A, ∀ j, W i j → j ∈ A) :
    ∃ i ∈ A, ∀ j, ¬W i j := by
  have : Finite A := hfin
  have : Nonempty A := hne.to_subtype
  let R : A → A → Prop := fun x y => TransGen W y.1 x.1
  have : IsTrans A R := ⟨fun _ _ _ h h' => h'.trans h⟩
  have : Std.Irrefl R := ⟨fun x => acyclic x.1⟩
  have hwf : WellFounded R := Finite.wellFounded_of_trans_of_irrefl R
  obtain ⟨m, _, hm⟩ := hwf.has_min Set.univ Set.univ_nonempty
  refine ⟨m.1, m.2, fun j hj => ?_⟩
  exact hm ⟨j, hclosed m.1 m.2 j hj⟩ trivial (.single hj)

end BankingService.Lib
