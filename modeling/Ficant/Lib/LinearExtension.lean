import Mathlib.Data.Fintype.Card
import Mathlib.Data.List.Lex
import Mathlib.Data.List.Perm.Subperm
import Mathlib.Data.Set.Finite.Basic
import Mathlib.Logic.Relation
import Mathlib.Order.WellFounded

namespace Lib

/-!
# Linear extensions of a finite relation

An order of finitely many elements that puts everything after what must come before it, and the
order that always takes the smallest element whose turn can come.

* `Extends r order` — every element of the order comes after all that lead to it;
* `Acyclic r` — nothing leads back to itself; `Extends.acyclic` and `exists_source` are the two
  halves of "an order exists if and only if there is no cycle";
* `Greedy r nodes order` — each element of the order is the smallest that could stand there;
  `Greedy.le` says that no other extension comes before it lexicographically.
-/

variable {α : Type*} {r : α → α → Prop}

/-- Every element of the order comes after all that lead to it. -/
def Extends (r : α → α → Prop) (order : List α) : Prop :=
  ∀ before a after, order = before ++ a :: after → ∀ b, r b a → b ∈ before

/-- Nothing leads back to itself. -/
def Acyclic (r : α → α → Prop) : Prop := ∀ a, ¬Relation.TransGen r a a

/-! ### Orders and cycles -/

/-- Along the relation the place in the order grows. -/
theorem Extends.idxOf_lt [DecidableEq α] {order : List α} (h : Extends r order) {a b : α}
    (hab : Relation.TransGen r b a) (ha : a ∈ order) : b ∈ order ∧ order.idxOf b < order.idxOf a := by
  -- one edge into an element of the order starts strictly before it
  have hstep : ∀ {a b}, r b a → a ∈ order → b ∈ order ∧ order.idxOf b < order.idxOf a := by
    intro a b hba ha
    obtain ⟨before, after, horder, hfresh⟩ := List.eq_append_cons_of_mem ha
    have hb := h before a after horder b hba
    rw [horder]
    refine ⟨List.mem_append_left _ hb, ?_⟩
    rw [List.idxOf_append_of_mem hb, List.idxOf_append_of_notMem hfresh, List.idxOf_cons_self,
      Nat.add_zero]
    exact List.idxOf_lt_length_of_mem hb
  induction hab with
  | single hba => exact hstep hba ha
  | tail _ hca ih =>
    obtain ⟨hc, hlt⟩ := hstep hca ha
    obtain ⟨hb, hlt'⟩ := ih hc
    exact ⟨hb, lt_trans hlt' hlt⟩

/-- A relation that some order extends has no cycle. -/
theorem Extends.acyclic {order : List α} (h : Extends r order) (hmem : ∀ a b, r b a → a ∈ order) :
    Acyclic r := by
  classical
  intro a hcycle
  -- a cycle ends with an edge into its start, which the order therefore holds
  obtain ⟨b, -, hba⟩ := Relation.TransGen.tail'_iff.mp hcycle
  exact lt_irrefl _ (h.idxOf_lt hcycle (hmem a b hba)).2

/-- Among finitely many elements of an acyclic relation there is one that none of them leads to. -/
theorem exists_source (hr : Acyclic r) {l : List α} (hl : l ≠ []) : ∃ a ∈ l, ∀ b ∈ l, ¬r b a := by
  let below : {a // a ∈ l} → {a // a ∈ l} → Prop := fun b a => Relation.TransGen r b.1 a.1
  have hfinite : Finite {a // a ∈ l} := List.finite_toSet l
  have htrans : IsTrans _ below := ⟨fun _ _ _ => Relation.TransGen.trans⟩
  have hirrefl : Std.Irrefl below := ⟨fun a => hr a.1⟩
  have hwf : WellFounded below := Finite.wellFounded_of_trans_of_irrefl below
  obtain ⟨first, hfirst⟩ := List.exists_mem_of_ne_nil l hl
  obtain ⟨a, -, hmin⟩ := hwf.has_min Set.univ ⟨⟨first, hfirst⟩, trivial⟩
  exact ⟨a.1, a.2, fun b hb hba => hmin ⟨b, hb⟩ trivial (.single hba)⟩

/-! ### The least order -/

section Least

variable [LinearOrder α]

/-- Each element of the order is the smallest of those whose turn has come. -/
def Greedy (r : α → α → Prop) (nodes order : List α) : Prop :=
  ∀ before a after, order = before ++ a :: after →
    ∀ b ∈ nodes, b ∉ before → (∀ c, r c b → c ∈ before) → a ≤ b

theorem Greedy.snoc {nodes order : List α} {a : α} (h : Greedy r nodes order)
    (ha : ∀ b ∈ nodes, b ∉ order → (∀ c, r c b → c ∈ order) → a ≤ b) :
    Greedy r nodes (order ++ [a]) := by
  intro before b after heq
  rcases List.eq_nil_or_concat after with rfl | ⟨front, last, rfl⟩
  · obtain ⟨rfl, hb⟩ := List.append_inj' heq rfl
    obtain rfl := List.singleton_inj.mp hb
    exact ha
  · rw [List.concat_eq_append, ← List.cons_append, ← List.append_assoc] at heq
    obtain ⟨rfl, -⟩ := List.append_inj' heq rfl
    exact h before b front rfl

/-- **The greedy order is the least.** Where another extension first differs, it has an element whose
    turn had come, and the greedy order took the smallest of these. -/
theorem Greedy.le {nodes order other : List α} (h : Greedy r nodes order)
    (hother : other.Perm nodes) (hnodup : nodes.Nodup) (hlength : order.length = nodes.length)
    (hextends : Extends r other) : order = other ∨ List.Lex (· < ·) order other := by
  suffices hrest : ∀ rest rest' before, order = before ++ rest → other = before ++ rest' →
      rest = rest' ∨ List.Lex (· < ·) rest rest' from hrest order other [] rfl rfl
  intro rest
  induction rest with
  | nil =>
    intro rest' _ _ _
    cases rest' with
    | nil => exact .inl rfl
    | cons b rest' => exact .inr .nil
  | cons a rest ih =>
    intro rest' before horder hother'
    cases rest' with
    | nil =>
      -- the two orders are equally long
      have hlen := hother.length_eq
      rw [hother', ← hlength, horder] at hlen
      simp at hlen
    | cons b rest' =>
      have hb : b ∈ nodes := hother.mem_iff.mp (hother' ▸ by simp)
      have hfresh : b ∉ before := by
        have hapart := hother.nodup_iff.mpr hnodup
        rw [hother'] at hapart
        exact fun hmem => (List.nodup_append.mp hapart).2.2 b hmem b List.mem_cons_self rfl
      have hle : a ≤ b := h before a rest horder b hb hfresh (hextends before b rest' hother')
      rcases eq_or_lt_of_le hle with rfl | hlt
      · have hrest := ih rest' (before ++ [a])
          (by rw [horder, List.append_assoc, List.singleton_append])
          (by rw [hother', List.append_assoc, List.singleton_append])
        rcases hrest with rfl | hlex
        · exact .inl rfl
        · exact .inr (.cons hlex)
      · exact .inr (.rel hlt)

end Least

end Lib
