import Mathlib

/-!
# Chains of a relation

What a thing reaches over a relation, and when every chain from it ends.

* `acc_of_acyclic` — **finitely many things without a cycle**: every chain ends;
* `acyclic_of_acc` — where every chain ends there is no cycle.
-/

namespace CLib

open Relation

variable {α : Type} {r : α → α → Prop} {a : α}

/-- No thing that `a` reaches reaches itself. -/
def Acyclic (r : α → α → Prop) (a : α) : Prop := ∀ b, ReflTransGen r a b → ¬ TransGen r b b

theorem Acyclic.of_reach {b : α} (h : Acyclic r a) (hb : ReflTransGen r a b) : Acyclic r b :=
  fun _ hc => h _ (hb.trans hc)

/-- **Finitely many things without a cycle.** -/
theorem acc_of_acyclic (hfin : {b | ReflTransGen r a b}.Finite) (h : Acyclic r a) :
    Acc (fun y x => r x y) a := by
  let Reached := {b // ReflTransGen r a b}
  have : Finite Reached := hfin
  let later : Reached → Reached → Prop := fun y x => TransGen r x.1 y.1
  have : IsTrans Reached later := ⟨fun _ _ _ hxy hyz => TransGen.trans hyz hxy⟩
  have : Std.Irrefl later := ⟨fun x => h x.1 x.2⟩
  have hwf : WellFounded later := Finite.wellFounded_of_trans_of_irrefl later
  have hall : ∀ x : Reached, Acc (fun y x => r x y) x.1 := by
    intro x
    induction x using hwf.induction with
    | _ x ih =>
      constructor
      intro y hy
      exact ih ⟨y, x.2.tail hy⟩ (TransGen.single hy)
  exact hall ⟨a, ReflTransGen.refl⟩

theorem not_transGen_of_acc (h : Acc (fun y x => r x y) a) : ¬ TransGen r a a := by
  induction h with
  | intro a _ ih =>
    intro hcycle
    obtain ⟨b, hab, hba⟩ := TransGen.head'_iff.mp hcycle
    exact ih b hab (TransGen.tail' hba hab)

theorem Acc.of_reach {b : α} (h : Acc (fun y x => r x y) a) (hb : ReflTransGen r a b) :
    Acc (fun y x => r x y) b := by
  induction hb with
  | refl => exact h
  | tail _ hstep ih => exact ih.inv hstep

/-- Where every chain ends there is no cycle. -/
theorem acyclic_of_acc (h : Acc (fun y x => r x y) a) : Acyclic r a :=
  fun _ hb => not_transGen_of_acc (Acc.of_reach h hb)

end CLib
