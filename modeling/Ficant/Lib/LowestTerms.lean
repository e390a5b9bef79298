import Mathlib

namespace Lib

/-!
# Cancelling a fraction of products

The factors above and below a fraction line are cancelled in pairs, each pair by its greatest
common divisor, before anything is multiplied.

* `cancelAll` — one factor above against every factor below;
* `crossCancel` — every factor above against every factor below;
* `crossCancel_spec` — one pass keeps the value of the fraction and reaches lowest terms;
* `crossCancel_num_den` — so the products are the numerator and the denominator.
-/

variable (gcd : ℕ → ℕ → ℕ)

/-- Cancels one factor above the line against each factor below it, in turn. -/
def cancelAll (n : ℕ) : List ℕ → ℕ × List ℕ
  | [] => (n, [])
  | d :: ds =>
    let divisor := gcd n d
    let rest := cancelAll (n / divisor) ds
    (rest.1, d / divisor :: rest.2)

/-- Cancels every factor above the line. -/
def crossCancel : List ℕ → List ℕ → List ℕ × List ℕ
  | [], ds => ([], ds)
  | n :: ns, ds =>
    let first := cancelAll gcd n ds
    let rest := crossCancel ns first.2
    (first.1 :: rest.1, rest.2)

/-- What one pass over the factors below the line does to `n`. -/
structure Cancelled (n : ℕ) (ds : List ℕ) (n' : ℕ) (ds' : List ℕ) : Prop where
  value : n * ds'.prod = n' * ds.prod
  above : n' ∣ n
  below : ∀ d ∈ ds', ∃ e ∈ ds, d ∣ e
  coprime : ∀ d ∈ ds', Nat.Coprime n' d

section
variable {gcd : ℕ → ℕ → ℕ} (hgcd : ∀ n d, 0 < n → gcd n d = Nat.gcd n d)
include hgcd

/-- **One factor.** It ends up without a common divisor with any factor below the line. -/
theorem cancelAll_spec {n : ℕ} (hn : 0 < n) (ds : List ℕ) :
    Cancelled n ds (cancelAll gcd n ds).1 (cancelAll gcd n ds).2 := by
  induction ds generalizing n with
  | nil =>
    exact ⟨rfl, dvd_rfl, fun d hd => absurd hd List.not_mem_nil,
      fun d hd => absurd hd List.not_mem_nil⟩
  | cons d ds ih =>
    have hpos : 0 < Nat.gcd n d := Nat.gcd_pos_of_pos_left d hn
    set g := Nat.gcd n d with hg
    have hng : n = g * (n / g) := (Nat.mul_div_cancel' (Nat.gcd_dvd_left n d)).symm
    have hdg : d = g * (d / g) := (Nat.mul_div_cancel' (Nat.gcd_dvd_right n d)).symm
    have hquot : 0 < n / g := Nat.div_pos (Nat.le_of_dvd hn (Nat.gcd_dvd_left n d)) hpos
    obtain ⟨hvalue, habove, hbelow, hcoprime⟩ := ih hquot
    have hstep : cancelAll gcd n (d :: ds)
        = ((cancelAll gcd (n / g) ds).1, d / g :: (cancelAll gcd (n / g) ds).2) := by
      rw [cancelAll, hgcd n d hn]
    rw [hstep]
    set rest := cancelAll gcd (n / g) ds
    refine ⟨?_, ?_, ?_, ?_⟩
    · -- the divisor goes out of `n` and of `d` alike
      rw [List.prod_cons, List.prod_cons]
      calc n * (d / g * rest.2.prod)
          = g * (n / g) * (d / g * rest.2.prod) := by rw [← hng]
        _ = g * (d / g) * (n / g * rest.2.prod) := by ring
        _ = rest.1 * (g * (d / g) * ds.prod) := by rw [hvalue]; ring
        _ = rest.1 * (d * ds.prod) := by rw [← hdg]
    · exact habove.trans (Nat.div_dvd_of_dvd (Nat.gcd_dvd_left n d))
    · intro e he
      rcases List.mem_cons.mp he with rfl | he
      · exact ⟨d, List.mem_cons_self, Nat.div_dvd_of_dvd (Nat.gcd_dvd_right n d)⟩
      · obtain ⟨f, hf, hef⟩ := hbelow e he
        exact ⟨f, List.mem_cons_of_mem _ hf, hef⟩
    · intro e he
      rcases List.mem_cons.mp he with rfl | he
      · -- what is left of `n` divides `n / g`, which has nothing in common with `d / g`
        exact Nat.Coprime.coprime_dvd_left habove (Nat.coprime_div_gcd_div_gcd hpos)
      · exact hcoprime e he

/-- **Lowest terms.** One pass keeps the value and leaves no common divisor. -/
theorem crossCancel_spec {ns : List ℕ} (hns : ∀ n ∈ ns, 0 < n) (ds : List ℕ) :
    ns.prod * (crossCancel gcd ns ds).2.prod = (crossCancel gcd ns ds).1.prod * ds.prod ∧
    (∀ d ∈ (crossCancel gcd ns ds).2, ∃ e ∈ ds, d ∣ e) ∧
    (∀ n ∈ (crossCancel gcd ns ds).1, ∃ m ∈ ns, n ∣ m) ∧
    ∀ n ∈ (crossCancel gcd ns ds).1, ∀ d ∈ (crossCancel gcd ns ds).2, Nat.Coprime n d := by
  induction ns generalizing ds with
  | nil =>
    exact ⟨rfl, fun d hd => ⟨d, hd, dvd_rfl⟩, fun n hn => absurd hn List.not_mem_nil,
      fun n hn => absurd hn List.not_mem_nil⟩
  | cons n ns ih =>
    rw [List.forall_mem_cons] at hns
    obtain ⟨hvalue, habove, hbelow, hcoprime⟩ := cancelAll_spec hgcd hns.1 ds
    set first := cancelAll gcd n ds
    obtain ⟨hvalue', hbelow', habove', hcoprime'⟩ := ih hns.2 first.2
    have hstep : crossCancel gcd (n :: ns) ds
        = (first.1 :: (crossCancel gcd ns first.2).1, (crossCancel gcd ns first.2).2) := rfl
    rw [hstep]
    set rest := crossCancel gcd ns first.2
    refine ⟨?_, ?_, ?_, ?_⟩
    · rw [List.prod_cons, List.prod_cons]
      calc n * ns.prod * rest.2.prod = n * (ns.prod * rest.2.prod) := by ring
        _ = rest.1.prod * (n * first.2.prod) := by rw [hvalue']; ring
        _ = first.1 * rest.1.prod * ds.prod := by rw [hvalue]; ring
    · intro d hd
      obtain ⟨e, he, hde⟩ := hbelow' d hd
      obtain ⟨f, hf, hef⟩ := hbelow e he
      exact ⟨f, hf, hde.trans hef⟩
    · intro m hm
      rcases List.mem_cons.mp hm with rfl | hm
      · exact ⟨n, List.mem_cons_self, habove⟩
      · obtain ⟨k, hk, hmk⟩ := habove' m hm
        exact ⟨k, List.mem_cons_of_mem _ hk, hmk⟩
    · intro m hm d hd
      rcases List.mem_cons.mp hm with rfl | hm
      · -- the factors below the line only get smaller
        obtain ⟨e, he, hde⟩ := hbelow' d hd
        exact Nat.Coprime.coprime_dvd_right hde (hcoprime e he)
      · exact hcoprime' m hm d hd

/-- The products after one pass are the numerator and the denominator of the fraction. -/
theorem crossCancel_num_den {ns ds : List ℕ} (hns : ∀ n ∈ ns, 0 < n) (hds : ∀ d ∈ ds, 0 < d) :
    ((ns.prod : ℚ) / ds.prod).num = (crossCancel gcd ns ds).1.prod ∧
    ((ns.prod : ℚ) / ds.prod).den = (crossCancel gcd ns ds).2.prod := by
  obtain ⟨hvalue, hbelow, -, hcoprime⟩ := crossCancel_spec hgcd hns ds
  set out := crossCancel gcd ns ds
  have hpos : 0 < out.2.prod := by
    apply List.prod_pos
    intro d hd
    obtain ⟨e, he, hde⟩ := hbelow d hd
    exact Nat.pos_of_dvd_of_pos hde (hds e he)
  have hbase : 0 < ds.prod := List.prod_pos hds
  have hprod : Nat.Coprime out.1.prod out.2.prod := by
    rw [Nat.coprime_list_prod_left_iff]
    intro n hn
    rw [Nat.coprime_list_prod_right_iff]
    exact hcoprime n hn
  -- from here on the products are two whole numbers above and below the line
  generalize out.1.prod = above at hprod hvalue ⊢
  generalize out.2.prod = below at hpos hprod hvalue ⊢
  generalize ns.prod = n at hvalue ⊢
  generalize ds.prod = d at hbase hvalue ⊢
  have heq : (n : ℚ) / d = ((above : ℤ) : ℚ) / ((below : ℤ) : ℚ) := by
    have hbaseq : (d : ℚ) ≠ 0 := by exact_mod_cast hbase.ne'
    have hposq : ((below : ℤ) : ℚ) ≠ 0 := by exact_mod_cast hpos.ne'
    rw [div_eq_div_iff hbaseq hposq]
    exact_mod_cast hvalue
  have hposz : (0 : ℤ) < below := by exact_mod_cast hpos
  have hprodz : Nat.Coprime (above : ℤ).natAbs (below : ℤ).natAbs := hprod
  rw [heq]
  refine ⟨Rat.num_div_eq_of_coprime hposz hprodz, ?_⟩
  have hden := Rat.den_div_eq_of_coprime hposz hprodz
  omega

end

end Lib
