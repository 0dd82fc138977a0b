/-
# `CallLang.Proofs.Outcome` — laws of doing one thing after another

Outcomes are a lawful monad: a part that ends in a value hands it on, a part
that ends in an error ends the whole, and events pile up in order.  Beside the
laws stand two ways to read an outcome:

  * `result_bind_eq_ok_iff` takes an evaluation that ends in a value apart into
    its parts;
  * `Outcome.Ends` says how an evaluation may end, in a value or in an error,
    and `Ends.bind` puts such statements together.
-/
import CallLang.Outcome

namespace CallLang
namespace Outcome

variable {ε α β : Type}

private theorem map_id_self (x : Outcome ε α) : id <$> x = x := by
  obtain ⟨events, result⟩ := x
  cases result <;> rfl

private theorem pure_bind_self (a : α) (f : α → Outcome ε β) : (pure a >>= f) = f a := by
  show Outcome.bind (Outcome.pure a) f = f a
  simp only [Outcome.bind, Outcome.pure, List.nil_append]

private theorem bind_bind_self {γ : Type} (x : Outcome ε α) (f : α → Outcome ε β)
    (g : β → Outcome ε γ) : (x >>= f >>= g) = (x >>= fun a => f a >>= g) := by
  obtain ⟨events, result⟩ := x
  show Outcome.bind (Outcome.bind _ f) g = Outcome.bind _ (fun a => Outcome.bind (f a) g)
  cases result with
  | error e => rfl
  | ok a =>
      simp only [Outcome.bind]
      cases (f a).result with
      | error e => rfl
      | ok b => simp only [List.append_assoc]

private theorem bind_pure_self (f : α → β) (x : Outcome ε α) :
    (x >>= fun a => pure (f a)) = f <$> x := by
  obtain ⟨events, result⟩ := x
  show Outcome.bind _ (fun a => Outcome.pure (f a)) = Outcome.map f _
  cases result <;> simp [Outcome.bind, Outcome.pure, Outcome.map, Except.map]

instance : LawfulMonad (Outcome ε) :=
  LawfulMonad.mk' _ map_id_self pure_bind_self bind_bind_self (fun _ _ => rfl) (fun _ _ => rfl)
    (fun _ _ => rfl) bind_pure_self (fun _ _ => rfl)

/-! ## Single parts -/

@[simp] theorem result_pure (a : α) : (pure a : Outcome ε α).result = .ok a := rfl

@[simp] theorem ofExcept_ok (a : α) : (ofExcept (.ok a) : Outcome ε α) = pure a := rfl

@[simp] theorem result_ofExcept (r : Except ε α) : (ofExcept r).result = r := rfl

@[simp] theorem result_fail (e : ε) : (fail e : Outcome ε α).result = .error e := rfl

@[simp] theorem result_record (event : Event) : (record event : Outcome ε Unit).result = .ok () :=
  rfl

/-! ## One part after another -/

theorem bind_of_ok {x : Outcome ε α} {a : α} (h : x.result = .ok a) (f : α → Outcome ε β) :
    x >>= f = ⟨x.events ++ (f a).events, (f a).result⟩ := by
  show Outcome.bind x f = _
  simp only [Outcome.bind, h]

theorem bind_of_error {x : Outcome ε α} {e : ε} (h : x.result = .error e)
    (f : α → Outcome ε β) : x >>= f = ⟨x.events, .error e⟩ := by
  show Outcome.bind x f = _
  simp only [Outcome.bind, h]

/-- What comes behind counts only for the value that is handed on. -/
theorem bind_congr_of_ok {x : Outcome ε α} {f g : α → Outcome ε β}
    (h : ∀ a, x.result = .ok a → f a = g a) : x >>= f = x >>= g := by
  cases hx : x.result with
  | ok a => rw [bind_of_ok hx, bind_of_ok hx, h a hx]
  | error e => rw [bind_of_error hx, bind_of_error hx]

@[simp] theorem result_bind_eq_ok_iff {x : Outcome ε α} {f : α → Outcome ε β} {b : β} :
    (x >>= f).result = .ok b ↔ ∃ a, x.result = .ok a ∧ (f a).result = .ok b := by
  cases h : x.result with
  | ok a => simp [bind_of_ok h]
  | error e => simp [bind_of_error h]

@[simp] theorem result_map_eq_ok_iff {x : Outcome ε α} {f : α → β} {b : β} :
    (f <$> x).result = .ok b ↔ ∃ a, x.result = .ok a ∧ f a = b := by
  rw [map_eq_pure_bind, result_bind_eq_ok_iff]
  simp only [result_pure, Except.ok.injEq]

theorem result_mapError_eq_ok_iff {ε' : Type} {f : ε → ε'} {x : Outcome ε α} {a : α} :
    (x.mapError f).result = .ok a ↔ x.result = .ok a := by
  obtain ⟨events, result⟩ := x
  cases result with
  | ok b =>
      show (Except.ok b : Except ε' α) = .ok a ↔ (Except.ok b : Except ε α) = .ok a
      rw [Except.ok.injEq, Except.ok.injEq]
  | error e => exact ⟨nofun, nofun⟩

theorem result_mapError_eq_error_iff {ε' : Type} {f : ε → ε'} {x : Outcome ε α} {e' : ε'} :
    (x.mapError f).result = .error e' ↔ ∃ e, x.result = .error e ∧ e' = f e := by
  obtain ⟨events, result⟩ := x
  cases result with
  | ok b => exact ⟨nofun, nofun⟩
  | error e =>
      show (Except.error (f e) : Except ε' α) = .error e' ↔ _
      simp only [Except.error.injEq, exists_eq_left', eq_comm]

/-! ## How an evaluation may end -/

/-- Every value that the evaluation may end in has the property `P`, and every
error the property `Q`. -/
def Ends (Q : ε → Prop) (P : α → Prop) (x : Outcome ε α) : Prop :=
  match x.result with
  | .ok a => P a
  | .error e => Q e

variable {Q : ε → Prop} {P : α → Prop} {R : β → Prop}

theorem Ends.pure {a : α} (h : P a) : Ends Q P (pure a) := h

theorem Ends.of_ok {x : Outcome ε α} {a : α} (hx : x.result = .ok a) (h : P a) : Ends Q P x := by
  simpa only [Ends, hx] using h

theorem Ends.of_error {x : Outcome ε α} {e : ε} (h : Ends Q P x) (hx : x.result = .error e) :
    Q e := by
  simpa only [Ends, hx] using h

/-- What is known of the values in another way may be said of the ends. -/
theorem Ends.of_result {P' : α → Prop} {x : Outcome ε α} (h : Ends Q P x)
    (hP : ∀ a, x.result = .ok a → P' a) : Ends Q P' x := by
  cases hx : x.result with
  | ok a => simpa only [Ends, hx] using hP a hx
  | error e => simpa only [Ends, hx] using h.of_error hx

theorem Ends.mono {Q' : ε → Prop} {x : Outcome ε α} (h : Ends Q P x) (hQ : ∀ e, Q e → Q' e) :
    Ends Q' P x := by
  cases hx : x.result with
  | ok a => simpa only [Ends, hx] using h
  | error e => simpa only [Ends, hx] using hQ e (h.of_error hx)

theorem Ends.bind {x : Outcome ε α} {f : α → Outcome ε β} (hx : Ends Q P x)
    (hf : ∀ a, P a → Ends Q R (f a)) : Ends Q R (x >>= f) := by
  unfold Ends at hx
  split at hx
  next a h => simpa only [Ends, bind_of_ok h] using hf a hx
  next e h => simpa only [Ends, bind_of_error h] using hx

theorem Ends.bind_ok {x : Outcome ε α} {a : α} {f : α → Outcome ε β} (hx : x.result = .ok a)
    (hf : Ends Q R (f a)) : Ends Q R (x >>= f) :=
  Ends.bind (P := (· = a)) (.of_ok hx rfl) fun _ hb => hb ▸ hf

theorem Ends.map {x : Outcome ε α} {f : α → β} (hx : Ends Q P x) (hf : ∀ a, P a → R (f a)) :
    Ends Q R (f <$> x) := by
  rw [map_eq_pure_bind]
  exact hx.bind fun a ha => Ends.pure (hf a ha)

end Outcome
end CallLang
