import Mathlib.Logic.Relation
import Mathlib.Order.WellFounded
import Mathlib.Data.Fintype.Pigeonhole
import Mathlib.Data.Set.Finite.Basic

set_option autoImplicit false

/-! # Acyclic relations

A relation is *acyclic* when no element is related to itself along a chain of one or more steps.
The lemmas follow a relation that grows edge by edge: an edge from `x` to `y` closes a cycle
exactly if `x` is already reachable from `y` (`acyclic_addEdge_iff`), and edges out of an element
that nothing leads to close none (`Acyclic.of_source`). Where only finitely many elements have a
step out of them, acyclic means that there is no infinite chain (`acyclic_iff_wellFounded`).
-/

namespace Acyclicity

open Relation

variable {α : Type*} {R R' : α → α → Prop}

/-- No element is reached from itself. -/
def Acyclic (R : α → α → Prop) : Prop := ∀ a, ¬ TransGen R a a

theorem Acyclic.mono (h : Acyclic R) (hsub : ∀ a b, R' a b → R a b) : Acyclic R' :=
  fun a hcycle => h a (TransGen.mono hsub a a hcycle)

/-! ## One edge more -/

/-- The relation with one more edge. -/
def addEdge (R : α → α → Prop) (x y : α) : α → α → Prop := fun a b => R a b ∨ (a = x ∧ b = y)

/-- A chain along the new edge comes to its source and goes on from its target. -/
theorem transGen_addEdge {x y a b : α} (h : TransGen (addEdge R x y) a b) :
    TransGen R a b ∨ (ReflTransGen R a x ∧ ReflTransGen R y b) := by
  induction h with
  | single hab =>
      rcases hab with hab | ⟨rfl, rfl⟩
      · exact Or.inl (.single hab)
      · exact Or.inr ⟨.refl, .refl⟩
  | @tail b c _ hbc ih =>
      rcases hbc with hbc | ⟨rfl, rfl⟩
      · rcases ih with ih | ⟨hax, hyb⟩
        · exact Or.inl (ih.tail hbc)
        · exact Or.inr ⟨hax, hyb.tail hbc⟩
      · rcases ih with ih | ⟨hax, -⟩
        · exact Or.inr ⟨ih.to_reflTransGen, .refl⟩
        · exact Or.inr ⟨hax, .refl⟩

/-- **A new edge** closes a cycle exactly if its source is reachable from its target. -/
theorem acyclic_addEdge_iff {x y : α} :
    Acyclic (addEdge R x y) ↔ Acyclic R ∧ ¬ ReflTransGen R y x := by
  constructor
  · intro h
    refine ⟨h.mono fun a b hab => Or.inl hab, fun hyx => h x ?_⟩
    have hlift : ReflTransGen (addEdge R x y) y x :=
      ReflTransGen.mono (fun a b hab => Or.inl hab) y x hyx
    exact TransGen.head' (Or.inr ⟨rfl, rfl⟩) hlift
  · rintro ⟨hR, hyx⟩ a hcycle
    rcases transGen_addEdge hcycle with hcycle | ⟨hax, hya⟩
    · exact hR a hcycle
    · exact hyx (hya.trans hax)

/-! ## A new source -/

/-- Nothing leads to `x`, so no cycle goes through it. -/
theorem Acyclic.of_source {x : α} (h : Acyclic R) (hsub : ∀ a b, R' a b → a ≠ x → R a b)
    (hsource : ∀ a, ¬ R' a x) : Acyclic R' := by
  intro a hcycle
  have hne : ∀ b c, TransGen R' b c → c ≠ x := by
    intro b c hbc heq
    subst heq
    cases hbc with
    | single h => exact hsource _ h
    | tail _ h => exact hsource _ h
  have hchain : ∀ b c, TransGen R' b c → b ≠ x → TransGen R b c := by
    intro b c hbc
    induction hbc with
    | single h => exact fun hb => .single (hsub _ _ h hb)
    | tail hbc h ih => exact fun hb => (ih hb).tail (hsub _ _ h (hne _ _ hbc))
  exact h a (hchain a a hcycle (hne a a hcycle))

/-! ## Infinite chains -/

theorem Acyclic.of_wellFounded (h : WellFounded fun b a => R a b) : Acyclic R := by
  intro a hcycle
  have hwf : WellFounded (TransGen fun b a => R a b) := h.transGen
  exact hwf.irrefl.irrefl a (transGen_swap.mp hcycle)

/-- **No infinite chain**: where finitely many elements have a step out of them, the relation is
acyclic exactly if it can be followed to an end from everywhere. -/
theorem acyclic_iff_wellFounded {s : Set α} (hs : s.Finite) (hsource : ∀ a b, R a b → a ∈ s) :
    Acyclic R ↔ WellFounded fun b a => R a b := by
  refine ⟨fun h => ?_, Acyclic.of_wellFounded⟩
  rw [wellFounded_iff_isEmpty_descending_chain]
  refine ⟨fun ⟨f, hf⟩ => ?_⟩
  -- two elements of the chain are the same one
  have hmem : ∀ n, f n ∈ s := fun n => hsource _ _ (hf n)
  have : Finite s := hs
  obtain ⟨i, j, hne, heq⟩ :=
    Finite.exists_ne_map_eq_of_infinite fun n : ℕ => (⟨f n, hmem n⟩ : s)
  have hchain : ∀ m n, m < n → TransGen R (f m) (f n) := by
    intro m n hmn
    induction hmn with
    | refl => exact .single (hf m)
    | step _ ih => exact ih.tail (hf _)
  have hij : f i = f j := congrArg Subtype.val heq
  rcases Nat.lt_or_gt_of_ne hne with hlt | hgt
  · have hcycle := hchain i j hlt
    rw [← hij] at hcycle
    exact h _ hcycle
  · have hcycle := hchain j i hgt
    rw [hij] at hcycle
    exact h _ hcycle

end Acyclicity
