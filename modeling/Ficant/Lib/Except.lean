import Mathlib

namespace Lib

/-!
# Successful computations

What it means for a computation in `Except` to succeed: a sequence succeeds when each part does.
-/

variable {ε δ : Type*} {α β : Type}

/-- **A success of two steps** is a success of each. -/
theorem bind_eq_ok {x : Except ε α} {f : α → Except ε β} {b : β} :
    (x >>= f) = .ok b ↔ ∃ a, x = .ok a ∧ f a = .ok b := by
  cases x with
  | error e => simp [Bind.bind, Except.bind]
  | ok a => simp [Bind.bind, Except.bind]

@[simp] theorem ok_bind {a : α} {f : α → Except ε β} : (Except.ok a >>= f) = f a := rfl

theorem bind_of_eq_ok {x : Except ε α} {a : α} (h : x = .ok a) (f : α → Except ε β) :
    (x >>= f) = f a := by
  rw [h, ok_bind]

/-- The early return of an error. -/
def rejectIf (bad : Prop) [Decidable bad] (error : ε) : Except ε Unit :=
  if bad then .error error else .ok ()

/-- A check passes exactly when it finds nothing wrong. -/
theorem rejectIf_eq_ok {bad : Prop} [Decidable bad] {error : ε} {u : Unit} :
    rejectIf bad error = .ok u ↔ ¬ bad := by
  unfold rejectIf
  split
  · rename_i hbad
    exact iff_of_false (fun h => nomatch h) (not_not.mpr hbad)
  · rename_i hgood
    exact iff_of_true rfl hgood

theorem rejectIf_of_not {bad : Prop} [Decidable bad] {error : ε} (h : ¬ bad) :
    rejectIf bad error = .ok () := if_neg h

/-- A computation in two steps fails in the first or in the second. -/
theorem bind_eq_error {x : Except ε α} {f : α → Except ε β} {e : ε} :
    (x >>= f) = .error e ↔ x = .error e ∨ ∃ a, x = .ok a ∧ f a = .error e := by
  cases x with
  | error e' => simp [Bind.bind, Except.bind]
  | ok a => simp [Bind.bind, Except.bind]

/-- A check fails with its own error. -/
theorem rejectIf_error {bad : Prop} [Decidable bad] {error error' : ε}
    (h : rejectIf bad error = .error error') : error' = error := by
  unfold rejectIf at h
  split at h
  · exact (Except.error.inj h).symm
  · cases h

/-- Every failure is given the same error. -/
theorem mapError_const_error {x : Except ε α} {e e' : δ}
    (h : (x.mapError fun _ => e) = .error e') : e' = e := by
  cases x with
  | error _ => exact (Except.error.inj h).symm
  | ok a => cases h

/-- Another error changes no success. -/
theorem mapError_eq_ok {x : Except ε α} {f : ε → δ} {a : α} :
    x.mapError f = .ok a ↔ x = .ok a := by
  cases x <;> simp [Except.mapError]

/-- What a computation that may panic answers: a panic, and each of its errors, becomes an error. -/
def answered (panicked : δ) (f : ε → δ) : Option (Except ε α) → Except δ α
  | none => .error panicked
  | some x => x.mapError f

/-- A success is an answer, and no panic. -/
theorem answered_eq_ok {panicked : δ} {f : ε → δ} {x : Option (Except ε α)} {a : α} :
    answered panicked f x = .ok a ↔ x = some (.ok a) := by
  cases x with
  | none => simp [answered]
  | some x => rw [answered, mapError_eq_ok, Option.some.injEq]

/-- An error that no answer has is a panic. -/
theorem answered_eq_error {panicked : δ} {f : ε → δ} {x : Option (Except ε α)} {e : δ}
    (hf : ∀ e', f e' ≠ e) : answered panicked f x = .error e ↔ x = none ∧ panicked = e := by
  cases x with
  | none => simp [answered]
  | some x =>
    cases x with
    | error e' => simp [answered, Except.mapError, hf e']
    | ok a => simp [answered, Except.mapError]

/-- What is made of a success. -/
theorem map_eq_ok {x : Except ε α} {f : α → β} {b : β} :
    (f <$> x) = .ok b ↔ ∃ a, x = .ok a ∧ f a = b := by
  cases x <;> simp [Functor.map, Except.map]

/-- Different values stay different. -/
theorem map_injective {f : α → β} (hf : Function.Injective f) :
    Function.Injective (Except.map f : Except ε α → Except ε β) := by
  rintro (e | a) (e' | a') h
  · exact congrArg Except.error (Except.error.inj h)
  · cases h
  · cases h
  · exact congrArg Except.ok (hf (Except.ok.inj h))

/-- A list of computations succeeds when each of them does. -/
theorem mapM_eq_ok {ε : Type} {f : α → Except ε β} {l : List α} {out : List β} :
    l.mapM f = .ok out ↔ List.Forall₂ (fun a b => f a = .ok b) l out := by
  induction l generalizing out with
  | nil =>
    rw [List.mapM_nil, List.forall₂_nil_left_iff]
    exact ⟨fun h => (Except.ok.inj h).symm, fun h => h ▸ rfl⟩
  | cons a l ih =>
    rw [List.mapM_cons, bind_eq_ok, List.forall₂_cons_left_iff]
    constructor
    · rintro ⟨b, hb, h⟩
      obtain ⟨bs, hbs, h⟩ := bind_eq_ok.mp h
      exact ⟨b, bs, hb, ih.mp hbs, (Except.ok.inj h).symm⟩
    · rintro ⟨b, bs, hb, hbs, rfl⟩
      exact ⟨b, hb, bind_eq_ok.mpr ⟨bs, ih.mpr hbs, rfl⟩⟩

/-- Where every element succeeds, so does the list. -/
theorem exists_mapM_ok {ε : Type} {f : α → Except ε β} {P : α → β → Prop} {l : List α}
    (h : ∀ a ∈ l, ∃ b, f a = .ok b ∧ P a b) : ∃ out, l.mapM f = .ok out ∧ List.Forall₂ P l out := by
  induction l with
  | nil => exact ⟨[], rfl, .nil⟩
  | cons a l ih =>
    obtain ⟨b, hb, hP⟩ := h a List.mem_cons_self
    obtain ⟨out, hout, hall⟩ := ih fun a ha => h a (List.mem_cons_of_mem _ ha)
    exact ⟨b :: out, mapM_eq_ok.mpr (.cons hb (mapM_eq_ok.mp hout)), .cons hP hall⟩

/-- A list of checks passes when each of them does. -/
theorem forM_eq_ok {ε : Type} {f : α → Except ε Unit} {l : List α} :
    l.forM f = .ok () ↔ ∀ a ∈ l, f a = .ok () := by
  induction l with
  | nil => simp [List.forM, pure, Except.pure]
  | cons a l ih =>
    show (f a >>= fun _ => l.forM f) = .ok () ↔ _
    rw [bind_eq_ok, List.forall_mem_cons, ← ih]
    constructor
    · rintro ⟨⟨⟩, ha, hl⟩
      exact ⟨ha, hl⟩
    · rintro ⟨ha, hl⟩
      exact ⟨(), ha, hl⟩

/-- A loop that collects a new key for each element of a list, and checks the element. -/
theorem foldlM_collect {κ ε : Type} {f : List κ → α → Except ε (List κ)} {key : α → κ}
    {P : α → Prop}
    (hf : ∀ seen seen' a, f seen a = .ok seen' → seen' = key a :: seen ∧ key a ∉ seen ∧ P a)
    {l : List α} {seen seen' : List κ} (h : l.foldlM f seen = .ok seen') :
    seen' = (l.map key).reverse ++ seen ∧ (seen.Nodup → seen'.Nodup) ∧ ∀ a ∈ l, P a := by
  induction l generalizing seen with
  | nil =>
    obtain rfl := Except.ok.inj h
    simp
  | cons a l ih =>
    obtain ⟨next, hnext, h⟩ := bind_eq_ok.mp h
    obtain ⟨rfl, hnew, hP⟩ := hf seen next a hnext
    obtain ⟨rfl, hnodup, hall⟩ := ih h
    refine ⟨by simp, fun hseen => hnodup (List.nodup_cons.mpr ⟨hnew, hseen⟩), ?_⟩
    intro b hb
    rcases List.mem_cons.mp hb with rfl | hb
    · exact hP
    · exact hall b hb

/-- The same loop succeeds when every element passes its check and no key comes twice. -/
theorem foldlM_collect_ok {κ ε : Type} {f : List κ → α → Except ε (List κ)} {key : α → κ}
    {P : α → Prop} (seen : List κ) (hf : ∀ seen a, key a ∉ seen → P a → f seen a = .ok (key a :: seen))
    {l : List α} (hall : ∀ a ∈ l, P a)
    (hnodup : ((l.map key).reverse ++ seen).Nodup) :
    l.foldlM f seen = .ok ((l.map key).reverse ++ seen) := by
  induction l generalizing seen with
  | nil => rfl
  | cons a l ih =>
    rw [List.map_cons, List.reverse_cons, List.append_assoc, List.singleton_append] at hnodup ⊢
    have hnew : key a ∉ seen := (List.nodup_cons.mp (List.nodup_append.mp hnodup).2.1).1
    rw [List.foldlM_cons, hf seen a hnew (hall a List.mem_cons_self)]
    exact ih _ (fun b hb => hall b (List.mem_cons_of_mem _ hb)) hnodup

/-- What holds at the start of a loop and is kept by each pass holds at its end. -/
theorem foldlM_induction {ε σ : Type} {f : σ → α → Except ε σ} {motive : List α → σ → Prop} {s : σ}
    (h0 : motive [] s)
    (hstep : ∀ done a s s', motive done s → f s a = .ok s' → motive (done ++ [a]) s') {l : List α}
    {s' : σ} (h : l.foldlM f s = .ok s') : motive l s' := by
  suffices hrest : ∀ rest done s, motive done s → rest.foldlM f s = .ok s' →
      motive (done ++ rest) s' from hrest l [] s h0 h
  intro rest
  induction rest with
  | nil =>
    intro done s hs h
    obtain rfl := Except.ok.inj h
    rwa [List.append_nil]
  | cons a rest ih =>
    intro done s hs h
    obtain ⟨next, hnext, h⟩ := bind_eq_ok.mp h
    have hdone := ih (done ++ [a]) next (hstep done a s next hs hnext) h
    rwa [List.append_assoc] at hdone

/-- **A loop that keeps what it has accepted.** Where a pass succeeds exactly when its element is
    accepted and has a new key, the loop succeeds when every element is accepted and no key comes
    twice, and then it has kept all of them. -/
theorem foldlM_keep_iff {κ ε σ : Type} {f : σ → α → Except ε σ} {kept : List α → σ} {key : α → κ}
    {P : α → Prop}
    (hstep : ∀ done a s, f (kept done) a = .ok s ↔
      P a ∧ key a ∉ done.map key ∧ s = kept (done ++ [a])) {l : List α} {s : σ} :
    l.foldlM f (kept []) = .ok s ↔ (∀ a ∈ l, P a) ∧ (l.map key).Nodup ∧ s = kept l := by
  -- By induction from the end: the elements before are kept and their keys are distinct.
  induction l using List.reverseRecOn generalizing s with
  | nil =>
    constructor
    · intro h
      obtain rfl := Except.ok.inj h
      exact ⟨fun a ha => absurd ha List.not_mem_nil, List.nodup_nil, rfl⟩
    · rintro ⟨-, -, rfl⟩
      rfl
  | append_singleton done a ih =>
    rw [List.foldlM_append, bind_eq_ok, List.map_append, List.map_singleton]
    simp only [List.foldlM_cons, List.foldlM_nil, bind_pure]
    constructor
    · rintro ⟨before, hbefore, h⟩
      obtain ⟨hall, hnodup, rfl⟩ := ih.mp hbefore
      obtain ⟨haccepted, hnew, rfl⟩ := (hstep done a s).mp h
      refine ⟨?_, List.concat_eq_append ▸ hnodup.concat hnew, rfl⟩
      intro b hb
      rcases List.mem_append.mp hb with hb | hb
      · exact hall b hb
      · rw [List.mem_singleton.mp hb]
        exact haccepted
    · rintro ⟨hall, hnodup, rfl⟩
      obtain ⟨hdone, -, hdisjoint⟩ := List.nodup_append.mp hnodup
      refine ⟨kept done, ih.mpr ⟨?_, hdone, rfl⟩, (hstep done a _).mpr ⟨?_, ?_, rfl⟩⟩
      · intro b hb
        exact hall b (List.mem_append_left _ hb)
      · exact hall a (List.mem_append_right _ List.mem_cons_self)
      · intro hmem
        exact hdisjoint _ hmem _ List.mem_cons_self rfl

/-- A loop that fails has a first pass that fails. -/
theorem foldlM_error {ε σ : Type} {f : σ → α → Except ε σ} {l : List α} {s : σ} {error : ε}
    (h : l.foldlM f s = .error error) :
    ∃ done a rest s', l = done ++ a :: rest ∧ done.foldlM f s = .ok s' ∧ f s' a = .error error := by
  induction l generalizing s with
  | nil => cases h
  | cons a rest ih =>
    rw [List.foldlM_cons] at h
    cases hstep : f s a with
    | error code =>
      rw [hstep] at h
      obtain rfl := Except.error.inj (show Except.error code = Except.error error from h)
      exact ⟨[], a, rest, s, rfl, rfl, hstep⟩
    | ok next =>
      rw [hstep, ok_bind] at h
      obtain ⟨done, b, rest', s', hrest, hdone, hfail⟩ := ih h
      refine ⟨a :: done, b, rest', s', by rw [hrest]; rfl, ?_, hfail⟩
      rw [List.foldlM_cons, hstep, ok_bind, hdone]

/-- A computation that succeeds is its own value. -/
theorem eq_ok_get {x : Except ε α} (h : x.toOption.isSome) : x = .ok (x.toOption.get h) := by
  cases x with
  | error e => cases h
  | ok a => rfl

theorem eq_ok_of_toOption {x : Except ε α} {a : α} (h : x.toOption = some a) : x = .ok a := by
  cases x with
  | error e => cases h
  | ok b => rw [Option.some.inj h]

/-- A computation whose value passes a test succeeds. -/
theorem exists_some_of_any {x : Option α} {p : α → Bool} (h : x.any p = true) :
    ∃ a, x = some a ∧ p a = true := by
  cases x with
  | none => cases h
  | some a => exact ⟨a, rfl, h⟩

/-- A success with a property, found by a computation. -/
theorem exists_ok_of_any {x : Except ε α} {p : α → Bool} (h : x.toOption.any p = true) :
    ∃ a, x = .ok a ∧ p a = true := by
  cases x with
  | error e => cases h
  | ok a => exact ⟨a, rfl, h⟩

end Lib
