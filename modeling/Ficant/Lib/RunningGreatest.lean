import Ficant.Lib.Except
import Mathlib.Data.List.Sort
import Mathlib.Logic.Function.Basic

namespace Lib

/-!
# The greatest item of each key, found in one pass

A pass over a list that keeps the greatest item of each key and fails when an item is equal to the one
that is kept.

* `keepGreatest`, `runGreatest` — one turn and the pass;
* `runGreatest_ok` — what is kept after a pass, `runGreatest_error` why a pass fails;
* `GreatestShared`, `RanksDistinct` — properties of a list that do not depend on its order;
* `runGreatest_perm_iff` — when the outcome does not depend on the order: a tie below the greatest
  item is seen or not, as the items come;
* `bestIndex` — the search for the index of a least item.
-/

variable {α κ ρ ε : Type} [DecidableEq κ] [LinearOrder ρ]

section Pass

variable (key : α → κ) (rank : α → ρ) (tie : ε)

/-- A greater item takes the place of the one that is kept for its key; an equal one fails. -/
def keepGreatest (kept : κ → Option α) (a : α) : Except ε (κ → Option α) :=
  match kept (key a) with
  | none => .ok (Function.update kept (key a) (some a))
  | some current =>
    match compare (rank a) (rank current) with
    | .gt => .ok (Function.update kept (key a) (some a))
    | .eq => .error tie
    | .lt => .ok kept

/-- The pass over a list. -/
def runGreatest (l : List α) : Except ε (κ → Option α) :=
  l.foldlM (keepGreatest key rank tie) fun _ => none

/-- The items of a list with the key and the rank of an item. -/
def sharing (l : List α) (a : α) : List α := l.filter fun b => key b = key a ∧ rank b = rank a

/-- No item of the same key is greater. -/
def IsGreatestOf (l : List α) (a : α) : Prop := a ∈ l ∧ ∀ b ∈ l, key b = key a → rank b ≤ rank a

/-- The only item with the greatest rank of its key. -/
def UniqueGreatest (l : List α) (a : α) : Prop :=
  IsGreatestOf key rank l a ∧ (sharing key rank l a).length = 1

/-- The greatest rank of some key is shared. -/
def GreatestShared (l : List α) : Prop :=
  ∃ a, IsGreatestOf key rank l a ∧ 2 ≤ (sharing key rank l a).length

/-- No two items of a key have the same rank. -/
def RanksDistinct (l : List α) : Prop := l.Pairwise fun a b => key a = key b → rank a ≠ rank b

end Pass

variable {key : α → κ} {rank : α → ρ} {tie : ε} {l l' : List α}

/-! ### What is kept -/

/-- An element of another key or rank shares nothing. -/
theorem sharing_concat_of_ne {done : List α} {a b : α} (h : ¬(key b = key a ∧ rank b = rank a)) :
    sharing key rank (done ++ [b]) a = sharing key rank done a := by
  unfold sharing
  rw [List.filter_append, List.filter_singleton, decide_eq_false h, cond_false, List.append_nil]

/-- A new item that no earlier one of its key reaches. -/
theorem uniqueGreatest_concat {done : List α} {a : α}
    (h : ∀ b ∈ done, key b = key a → rank b < rank a) : UniqueGreatest key rank (done ++ [a]) a := by
  refine ⟨⟨by simp, ?_⟩, ?_⟩
  · intro b hb hkey
    rcases List.mem_append.mp hb with hb | hb
    · exact (h b hb hkey).le
    · rw [List.mem_singleton.mp hb]
  · have hnone : done.filter (fun b => decide (key b = key a ∧ rank b = rank a)) = [] := by
      rw [List.filter_eq_nil_iff]
      intro b hb hboth
      have hboth := of_decide_eq_true hboth
      exact absurd hboth.2 (h b hb hboth.1).ne
    unfold sharing
    rw [List.filter_append, hnone, List.nil_append, List.filter_singleton,
      decide_eq_true ⟨rfl, rfl⟩]
    rfl

/-- An item stays the only greatest one when another key or a smaller rank is added. -/
theorem UniqueGreatest.concat {done : List α} {a b : α} (h : UniqueGreatest key rank done a)
    (hb : key b = key a → rank b < rank a) : UniqueGreatest key rank (done ++ [b]) a := by
  obtain ⟨⟨hmem, hle⟩, hone⟩ := h
  refine ⟨⟨List.mem_append_left _ hmem, ?_⟩, ?_⟩
  · intro c hc hkey
    rcases List.mem_append.mp hc with hc | hc
    · exact hle c hc hkey
    · obtain rfl := List.mem_singleton.mp hc
      exact (hb hkey).le
  · rw [sharing_concat_of_ne fun hboth => (hb hboth.1).ne hboth.2, hone]

/-- **What is kept after a pass**: the only greatest item of each key that occurs. -/
theorem runGreatest_ok {kept : κ → Option α} (h : runGreatest key rank tie l = .ok kept) :
    (∀ k a, kept k = some a → key a = k ∧ UniqueGreatest key rank l a) ∧
      ∀ k, kept k = none → ∀ a ∈ l, key a ≠ k := by
  refine foldlM_induction (motive := fun done kept =>
    (∀ k a, kept k = some a → key a = k ∧ UniqueGreatest key rank done a) ∧
      ∀ k, kept k = none → ∀ a ∈ done, key a ≠ k) ⟨by simp, by simp⟩ ?_ h
  rintro done a kept kept' ⟨hsome, hnone⟩ hstep
  -- the new item is kept
  have hreplaced : (∀ b ∈ done, key b = key a → rank b < rank a) →
      kept' = Function.update kept (key a) (some a) →
      (∀ k b, kept' k = some b → key b = k ∧ UniqueGreatest key rank (done ++ [a]) b) ∧
        ∀ k, kept' k = none → ∀ b ∈ done ++ [a], key b ≠ k := by
    rintro hgreater rfl
    refine ⟨fun k b hb => ?_, fun k hk b hb => ?_⟩
    · by_cases hkey : k = key a
      · subst hkey
        rw [Function.update_self, Option.some.injEq] at hb
        subst hb
        exact ⟨rfl, uniqueGreatest_concat hgreater⟩
      · rw [Function.update_of_ne hkey] at hb
        obtain ⟨rfl, hunique⟩ := hsome k b hb
        exact ⟨rfl, hunique.concat fun hsame => absurd hsame.symm hkey⟩
    · by_cases hkey : k = key a
      · subst hkey
        rw [Function.update_self] at hk
        cases hk
      · rw [Function.update_of_ne hkey] at hk
        rcases List.mem_append.mp hb with hb | hb
        · exact hnone k hk b hb
        · rw [List.mem_singleton.mp hb]
          exact Ne.symm hkey
  unfold keepGreatest at hstep
  rcases hcurrent : kept (key a) with - | current
  · rw [hcurrent] at hstep
    obtain rfl := Except.ok.inj hstep
    exact hreplaced (fun b hb hkey => absurd hkey (hnone (key a) hcurrent b hb)) rfl
  · rw [hcurrent] at hstep
    obtain ⟨hkey, hunique⟩ := hsome (key a) current hcurrent
    simp only at hstep
    split at hstep
    · rename_i hgt
      obtain rfl := Except.ok.inj hstep
      refine hreplaced (fun b hb hsame => ?_) rfl
      exact lt_of_le_of_lt (hunique.1.2 b hb (hsame.trans hkey.symm)) (compare_gt_iff_gt.mp hgt)
    · cases hstep
    · rename_i hlt
      obtain rfl := Except.ok.inj hstep
      refine ⟨fun k b hb => ?_, fun k hk b hb => ?_⟩
      · obtain ⟨rfl, hkept⟩ := hsome k b hb
        refine ⟨rfl, hkept.concat fun hsame => ?_⟩
        rw [← hsame, hcurrent] at hb
        obtain rfl := Option.some.inj hb
        exact compare_lt_iff_lt.mp hlt
      · rcases List.mem_append.mp hb with hb | hb
        · exact hnone k hk b hb
        · obtain rfl := List.mem_singleton.mp hb
          rintro rfl
          rw [hcurrent] at hk
          cases hk

/-- **Why a pass fails**: an item is equal to the greatest one before it. -/
theorem runGreatest_error {error : ε} (h : runGreatest key rank tie l = .error error) :
    error = tie ∧ ∃ done a rest current, l = done ++ a :: rest ∧ current ∈ done ∧
      key current = key a ∧ rank current = rank a ∧ ∀ b ∈ done, key b = key a → rank b ≤ rank a := by
  -- The fold fails at the first element that shares the greatest rank so far.
  obtain ⟨done, a, rest, kept, hl, hdone, hstep⟩ := foldlM_error h
  obtain ⟨hsome, -⟩ := runGreatest_ok hdone
  unfold keepGreatest at hstep
  rcases hcurrent : kept (key a) with - | current
  · rw [hcurrent] at hstep
    cases hstep
  · rw [hcurrent] at hstep
    obtain ⟨hkey, ⟨hmem, hle⟩, -⟩ := hsome (key a) current hcurrent
    simp only at hstep
    split at hstep
    · cases hstep
    · rename_i heq
      have hrank : rank a = rank current := compare_eq_iff_eq.mp heq
      refine ⟨(Except.error.inj hstep).symm, done, a, rest, current, hl, hmem, hkey, hrank.symm, ?_⟩
      intro b hb hsame
      rw [hrank]
      exact hle b hb (hsame.trans hkey.symm)
    · cases hstep

/-! ### The order of the items -/

omit [DecidableEq κ] in
/-- The greatest element does not depend on the order. -/
theorem IsGreatestOf.perm (h : l.Perm l') {a : α} (ha : IsGreatestOf key rank l a) :
    IsGreatestOf key rank l' a :=
  ⟨h.mem_iff.mp ha.1, fun b hb => ha.2 b (h.mem_iff.mpr hb)⟩

/-- How many elements share a rank does not depend on the order. -/
theorem sharing_perm (h : l.Perm l') (a : α) :
    (sharing key rank l a).length = (sharing key rank l' a).length :=
  (h.filter _).length_eq

/-- That a greatest rank is shared does not depend on the order. -/
theorem GreatestShared.perm (h : l.Perm l') (hl : GreatestShared key rank l) :
    GreatestShared key rank l' := by
  obtain ⟨a, ha, hshared⟩ := hl
  refine ⟨a, ha.perm h, ?_⟩
  rw [← sharing_perm h]
  exact hshared

omit [DecidableEq κ] [LinearOrder ρ] in
/-- That the ranks are distinct does not depend on the order. -/
theorem RanksDistinct.perm (h : l.Perm l') (hl : RanksDistinct key rank l) :
    RanksDistinct key rank l' := by
  refine (h.pairwise_iff fun hab hkey hrank => ?_).mp hl
  exact hab hkey.symm hrank.symm

/-- Distinct ranks never fail. -/
theorem exists_ok_of_distinct (tie : ε) (hl : RanksDistinct key rank l) :
    ∃ kept, runGreatest key rank tie l = .ok kept := by
  rcases h : runGreatest key rank tie l with error | kept
  · obtain ⟨-, done, a, rest, current, rfl, hmem, hkey, hrank, -⟩ := runGreatest_error h
    exact absurd hrank ((List.pairwise_append.mp hl).2.2 current hmem a (.head _) hkey)
  · exact ⟨kept, rfl⟩

/-- A shared greatest rank always fails. -/
theorem runGreatest_of_shared (tie : ε) (hl : GreatestShared key rank l) :
    runGreatest key rank tie l = .error tie := by
  rcases h : runGreatest key rank tie l with error | kept
  · rw [(runGreatest_error h).1]
  · exfalso
    obtain ⟨a, ⟨hmem, hle⟩, hshared⟩ := hl
    obtain ⟨hsome, hnone⟩ := runGreatest_ok h
    rcases hkept : kept (key a) with - | b
    · exact hnone (key a) hkept a hmem rfl
    · obtain ⟨hkey, ⟨hb, hble⟩, hone⟩ := hsome (key a) b hkept
      have hrank : rank b = rank a := le_antisymm (hle b hb hkey) (hble a hmem hkey.symm)
      have hsame : sharing key rank l b = sharing key rank l a := by
        unfold sharing
        rw [hkey, hrank]
      rw [hsame] at hone
      omega

/-- An element that shares its rank with no other is alone of its key and rank. -/
theorem eq_of_mem_sharing {a b : α} (h : (sharing key rank l a).length = 1) (ha : a ∈ l) (hb : b ∈ l)
    (hkey : key b = key a) (hrank : rank b = rank a) : b = a := by
  obtain ⟨c, hc⟩ := List.length_eq_one_iff.mp h
  have hmem : ∀ d ∈ l, key d = key a → rank d = rank a → d = c := by
    intro d hd hdkey hdrank
    have hshared : d ∈ sharing key rank l a := List.mem_filter.mpr ⟨hd, by simp [hdkey, hdrank]⟩
    rw [hc] at hshared
    exact List.mem_singleton.mp hshared
  rw [hmem a ha rfl rfl, hmem b hb hkey hrank]

/-- Two passes over the same items keep the same. -/
theorem runGreatest_determined (hperm : l.Perm l') {kept kept' : κ → Option α}
    (h : runGreatest key rank tie l = .ok kept) (h' : runGreatest key rank tie l' = .ok kept') :
    kept = kept' := by
  obtain ⟨hsome, hnone⟩ := runGreatest_ok h
  obtain ⟨hsome', hnone'⟩ := runGreatest_ok h'
  funext k
  rcases hk : kept k with - | a
  · rcases hk' : kept' k with - | b
    · rfl
    · obtain ⟨hkey, ⟨hmem, -⟩, -⟩ := hsome' k b hk'
      exact absurd hkey (hnone k hk b (hperm.mem_iff.mpr hmem))
  · obtain ⟨hkey, ⟨hmem, hle⟩, hone⟩ := hsome k a hk
    rcases hk' : kept' k with - | b
    · exact absurd hkey (hnone' k hk' a (hperm.mem_iff.mp hmem))
    · obtain ⟨hkey', ⟨hmem', hle'⟩, -⟩ := hsome' k b hk'
      have hb : b ∈ l := hperm.mem_iff.mpr hmem'
      have hsameKey : key b = key a := hkey'.trans hkey.symm
      have hrank : rank b = rank a :=
        le_antisymm (hle b hb hsameKey) (hle' a (hperm.mem_iff.mp hmem) hsameKey.symm)
      rw [eq_of_mem_sharing hone hmem hb hsameKey hrank]

/-- Two items that are not related can be put first. -/
theorem exists_perm_of_not_pairwise {R : α → α → Prop} (h : ¬l.Pairwise R) :
    ∃ a b rest, l.Perm (a :: b :: rest) ∧ ¬R a b := by
  induction l with
  | nil => exact absurd List.Pairwise.nil h
  | cons a rest ih =>
    by_cases hrest : rest.Pairwise R
    · have hfirst : ∃ b ∈ rest, ¬R a b := by
        by_contra hnone
        refine h (List.pairwise_cons.mpr ⟨fun b hb => ?_, hrest⟩)
        by_contra hab
        exact hnone ⟨b, hb, hab⟩
      obtain ⟨b, hb, hab⟩ := hfirst
      obtain ⟨before, after, rfl⟩ := List.append_of_mem hb
      exact ⟨a, b, before ++ after, List.Perm.cons a List.perm_middle, hab⟩
    · obtain ⟨x, y, others, hperm, hxy⟩ := ih hrest
      refine ⟨x, y, a :: others, (hperm.cons a).trans ?_, hxy⟩
      exact (List.Perm.swap x a _).trans ((List.Perm.swap y a _).cons x)

/-- In descending order only a shared greatest rank fails. -/
theorem exists_ok_of_descending (tie : ε) (hsorted : l.Pairwise fun a b => rank b ≤ rank a)
    (hl : ¬GreatestShared key rank l) : ∃ kept, runGreatest key rank tie l = .ok kept := by
  rcases h : runGreatest key rank tie l with error | kept
  · obtain ⟨-, done, a, rest, current, rfl, hmem, hkey, hrank, hle⟩ := runGreatest_error h
    refine absurd ⟨a, ⟨by simp, fun b hb hsame => ?_⟩, ?_⟩ hl
    · rcases List.mem_append.mp hb with hb | hb
      · exact hle b hb hsame
      · rcases List.mem_cons.mp hb with rfl | hb
        · exact le_rfl
        · exact (List.pairwise_cons.mp (List.pairwise_append.mp hsorted).2.1).1 b hb
    · -- the item and the one before it
      have hcurrent : current ∈ done.filter fun b => key b = key a ∧ rank b = rank a :=
        List.mem_filter.mpr ⟨hmem, by simp [hkey, hrank]⟩
      have hpos := List.length_pos_of_mem hcurrent
      unfold sharing
      rw [List.filter_append, List.length_append, List.filter_cons, if_pos (by simp),
        List.length_cons]
      omega
  · exact ⟨kept, rfl⟩

variable (tie) in
/-- **The outcome does not depend on the order**, and a pass fails for a shared greatest rank only,
    exactly when a greatest rank is shared or all ranks of each key are distinct. -/
theorem runGreatest_perm_iff :
    ((∀ l', l.Perm l' → runGreatest key rank tie l' = runGreatest key rank tie l) ∧
        ∀ error, runGreatest key rank tie l = .error error → GreatestShared key rank l) ↔
      GreatestShared key rank l ∨ RanksDistinct key rank l := by
  constructor
  · rintro ⟨horder, -⟩
    by_contra hneither
    rw [not_or] at hneither
    obtain ⟨hshared, hdistinct⟩ := hneither
    -- a tie that comes first is seen
    obtain ⟨a, b, rest, hperm, hab⟩ := exists_perm_of_not_pairwise hdistinct
    rw [Classical.not_imp, not_not] at hab
    have hfirst : runGreatest key rank tie (a :: b :: rest) = .error tie := by
      unfold runGreatest
      rw [List.foldlM_cons, keepGreatest, ok_bind, List.foldlM_cons, keepGreatest]
      rw [hab.1, Function.update_self]
      simp only
      rw [compare_eq_iff_eq.mpr hab.2.symm]
      rfl
    -- and one that comes after the greatest item is not
    let descending := l.insertionSort fun a b => rank b ≤ rank a
    have hdescending : descending.Perm l := List.perm_insertionSort _ l
    have hsorted : descending.Pairwise fun a b => rank b ≤ rank a := by
      have : Std.Total fun a b : α => rank b ≤ rank a := ⟨fun a b => le_total _ _⟩
      have : IsTrans α fun a b => rank b ≤ rank a := ⟨fun _ _ _ h₁ h₂ => le_trans h₂ h₁⟩
      exact List.pairwise_insertionSort _ l
    obtain ⟨kept, hkept⟩ := exists_ok_of_descending tie hsorted
      fun h => hshared (h.perm hdescending)
    have hclash := (horder _ hdescending.symm).trans (horder _ hperm).symm
    rw [hkept, hfirst] at hclash
    cases hclash
  · rintro (hshared | hdistinct)
    · refine ⟨fun l' hperm => ?_, fun _ _ => hshared⟩
      rw [runGreatest_of_shared tie hshared, runGreatest_of_shared tie (hshared.perm hperm)]
    · obtain ⟨kept, hkept⟩ := exists_ok_of_distinct tie hdistinct
      refine ⟨fun l' hperm => ?_, fun error herror => ?_⟩
      · obtain ⟨kept', hkept'⟩ := exists_ok_of_distinct tie (hdistinct.perm hperm)
        rw [hkept, hkept', runGreatest_determined hperm hkept hkept']
      · rw [hkept] at herror
        cases herror

/-! ### The index of a least item -/

/-- One turn of a search: the index of a better item takes the place of the best one so far. -/
def keepBetter (better : α → α → Bool) (l : List α) (best index : ℕ) : ℕ :=
  match l[index]?, l[best]? with
  | some candidate, some incumbent => if better candidate incumbent then index else best
  | _, _ => best

/-- The search through a list from its first item. -/
def bestIndex (better : α → α → Bool) (l : List α) : ℕ :=
  (List.range' 1 (l.length - 1)).foldl (keepBetter better l) 0

/-- **The index found is of a least item**, when being better is being less by a key. -/
theorem bestIndex_spec {better : α → α → Bool} {value : α → ρ}
    (hbetter : ∀ a b, better a b = true ↔ value a < value b) (hl : l ≠ []) :
    ∃ h : bestIndex better l < l.length, ∀ a ∈ l, value l[bestIndex better l] ≤ value a := by
  have hpos := List.length_pos_of_ne_nil hl
  -- after the first indices, the best one is least among them
  have hsearch : ∀ n, n < l.length →
      ∃ h : (List.range' 1 n).foldl (keepBetter better l) 0 < l.length, ∀ i (hi : i < l.length),
        i ≤ n → value l[(List.range' 1 n).foldl (keepBetter better l) 0] ≤ value l[i] := by
    intro n
    induction n with
    | zero =>
      intro _
      refine ⟨hpos, fun i hi hle => ?_⟩
      obtain rfl := Nat.le_zero.mp hle
      exact le_rfl
    | succ n ih =>
      intro hn
      obtain ⟨hbest, hleast⟩ := ih (Nat.lt_of_succ_lt hn)
      rw [List.range'_1_concat, List.foldl_concat]
      generalize (List.range' 1 n).foldl (keepBetter better l) 0 = best at hbest hleast
      have hstep : keepBetter better l best (1 + n) =
          if better l[1 + n] l[best] then 1 + n else best := by
        unfold keepBetter
        rw [List.getElem?_eq_getElem (by omega), List.getElem?_eq_getElem hbest]
      simp only [hstep]
      by_cases hless : better l[1 + n] l[best] = true
      · simp only [hless, if_true]
        refine ⟨by omega, fun i hi hle => ?_⟩
        rcases Nat.lt_or_ge n i with hlast | hearlier
        · obtain rfl : i = 1 + n := by omega
          exact le_rfl
        · exact ((hbetter _ _).mp hless).le.trans (hleast i hi hearlier)
      · simp only [hless]
        refine ⟨hbest, fun i hi hle => ?_⟩
        rcases Nat.lt_or_ge n i with hlast | hearlier
        · obtain rfl : i = 1 + n := by omega
          exact not_lt.mp fun hlt => hless ((hbetter _ _).mpr hlt)
        · exact hleast i hi hearlier
  obtain ⟨hbest, hleast⟩ := hsearch (l.length - 1) (by omega)
  refine ⟨hbest, fun a ha => ?_⟩
  obtain ⟨i, hi, rfl⟩ := List.getElem_of_mem ha
  exact hleast i hi (by omega)

end Lib
