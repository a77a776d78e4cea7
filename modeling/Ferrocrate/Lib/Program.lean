import Mathlib.Logic.Basic
import Mathlib.Tactic.Core

/-! Programs over a mutable state that can fail and keep what they wrote: weakest
preconditions with one postcondition for returning and one for failing. -/
namespace Ferrocrate.Lib

theorem Except.bind_eq_ok {ε α β : Type} {x : Except ε α} {f : α → Except ε β} {b : β} :
    (x >>= f) = .ok b ↔ ∃ a, x = .ok a ∧ f a = .ok b := by
  cases x with
  | error e => simp [bind, Except.bind]
  | ok a => simp [bind, Except.bind]

theorem Except.bind_eq_error {ε α β : Type} {x : Except ε α} {f : α → Except ε β} {e : ε} :
    x >>= f = .error e ↔ x = .error e ∨ ∃ a, x = .ok a ∧ f a = .error e := by
  cases x with
  | error e => simp [bind, Except.bind]
  | ok a => simp [bind, Except.bind]

theorem Except.map_eq_ok {ε α β : Type} {x : Except ε α} {f : α → β} {b : β} :
    x.map f = .ok b ↔ ∃ a, x = .ok a ∧ f a = b := by
  cases x with
  | error e => simp [Except.map]
  | ok a => simp [Except.map]

theorem Except.mapError_eq_ok {ε ε' α : Type} {x : Except ε α} {f : ε → ε'} {a : α} :
    x.mapError f = .ok a ↔ x = .ok a := by
  cases x with
  | error e => simp [Except.mapError]
  | ok a => simp [Except.mapError]

theorem Except.ite_error_eq_ok {ε α : Type} {c : Prop} [Decidable c] {e : ε} {x : Except ε α}
    {a : α} : (if c then .error e else x) = .ok a ↔ ¬c ∧ x = .ok a := by
  by_cases h : c <;> simp [h]

theorem Except.toOption_eq_some {ε α : Type} {x : Except ε α} {a : α} (h : x.toOption = some a) :
    x = .ok a := by
  cases x with
  | error e => cases h
  | ok b => exact congrArg Except.ok (Option.some.inj h)

abbrev Program (ε σ α : Type) := ExceptT ε (StateM σ) α

namespace Program
variable {ε σ α β : Type}

/-- From `s` the program ends in `Q` when it returns and in `E` when it fails. -/
def wp (m : Program ε σ α) (Q : α → σ → Prop) (E : ε → σ → Prop) (s : σ) : Prop :=
  match m s with
  | (.ok a, s') => Q a s'
  | (.error e, s') => E e s'

theorem wp_bind (m : Program ε σ α) (f : α → Program ε σ β) (Q : β → σ → Prop)
    (E : ε → σ → Prop) (s : σ) :
    wp (m >>= f) Q E s ↔ wp m (fun a s' => wp (f a) Q E s') E s := by
  simp only [wp, bind, ExceptT.bind, ExceptT.mk, StateT.bind, ExceptT.bindCont]
  cases h : m s with
  | mk r s' => cases r <;> rfl

theorem wp_pure (a : α) (Q : α → σ → Prop) (E : ε → σ → Prop) (s : σ) :
    wp (pure a : Program ε σ α) Q E s ↔ Q a s := Iff.rfl

theorem wp_throw (e : ε) (Q : α → σ → Prop) (E : ε → σ → Prop) (s : σ) :
    wp (throw e : Program ε σ α) Q E s ↔ E e s := Iff.rfl

theorem wp_get (Q : σ → σ → Prop) (E : ε → σ → Prop) (s : σ) :
    wp (get : Program ε σ σ) Q E s ↔ Q s s := Iff.rfl

theorem wp_set (s' : σ) (Q : PUnit → σ → Prop) (E : ε → σ → Prop) (s : σ) :
    wp (set s' : Program ε σ PUnit) Q E s ↔ Q ⟨⟩ s' := Iff.rfl

theorem wp_modify (f : σ → σ) (Q : PUnit → σ → Prop) (E : ε → σ → Prop) (s : σ) :
    wp (modify f : Program ε σ PUnit) Q E s ↔ Q ⟨⟩ (f s) := Iff.rfl

theorem wp_ite (c : Prop) [Decidable c] (m n : Program ε σ α) (Q : α → σ → Prop)
    (E : ε → σ → Prop) (s : σ) :
    wp (if c then m else n) Q E s ↔ (c → wp m Q E s) ∧ (¬c → wp n Q E s) := by
  by_cases h : c <;> simp [h]

def rejectIf (c : Prop) [Decidable c] (e : ε) : Program ε σ Unit :=
  if c then throw e else pure ()

theorem wp_rejectIf (c : Prop) [Decidable c] (e : ε) (Q : Unit → σ → Prop) (E : ε → σ → Prop)
    (s : σ) : wp (rejectIf c e) Q E s ↔ (c → E e s) ∧ (¬c → Q () s) := by
  rw [rejectIf, wp_ite, wp_throw, wp_pure]

def runIf (c : Prop) [Decidable c] (m : Program ε σ Unit) : Program ε σ Unit :=
  if c then m else pure ()

theorem wp_runIf (c : Prop) [Decidable c] (m : Program ε σ Unit) (Q : Unit → σ → Prop)
    (E : ε → σ → Prop) (s : σ) :
    wp (runIf c m) Q E s ↔ (c → wp m Q E s) ∧ (¬c → Q () s) := by
  rw [runIf, wp_ite, wp_pure]

def okOr (x : Option α) (e : ε) : Program ε σ α :=
  match x with
  | some a => pure a
  | none => throw e

theorem wp_okOr (x : Option α) (e : ε) (Q : α → σ → Prop) (E : ε → σ → Prop) (s : σ) :
    wp (okOr x e) Q E s ↔ (∀ a, x = some a → Q a s) ∧ (x = none → E e s) := by
  cases x with
  | none => simp [okOr, wp_throw]
  | some a => simp [okOr, wp_pure]

def ofExcept {δ : Type} (f : δ → ε) (x : Except δ α) : Program ε σ α :=
  match x with
  | .ok a => pure a
  | .error e => throw (f e)

theorem wp_ofExcept {δ : Type} (f : δ → ε) (x : Except δ α) (Q : α → σ → Prop)
    (E : ε → σ → Prop) (s : σ) :
    wp (ofExcept f x) Q E s ↔ (∀ a, x = .ok a → Q a s) ∧ (∀ e, x = .error e → E (f e) s) := by
  cases x with
  | error e => simp [ofExcept, wp_throw]
  | ok a => simp [ofExcept, wp_pure]

variable {m : Program ε σ α} {s : σ}

theorem wp_mono {Q Q' : α → σ → Prop} {E E' : ε → σ → Prop}
    (h : wp m Q E s) (hQ : ∀ a s', Q a s' → Q' a s') (hE : ∀ e s', E e s' → E' e s') :
    wp m Q' E' s := by
  unfold wp at h ⊢
  cases hm : m s with
  | mk r s' =>
    rw [hm] at h
    cases r with
    | error e => exact hE e s' h
    | ok a => exact hQ a s' h

theorem eq_of_wp_ok {a : α} {s s' : σ}
    (h : wp m (fun b t => b = a ∧ t = s') (fun _ _ => False) s) : m s = (.ok a, s') := by
  unfold wp at h
  cases hm : m s with
  | mk r t =>
    rw [hm] at h
    cases r with
    | error e => exact h.elim
    | ok b => rw [h.1, h.2]

theorem eq_of_wp_error {e : ε} {s s' : σ}
    (h : wp m (fun _ _ => False) (fun e' t => e' = e ∧ t = s') s) : m s = (.error e, s') := by
  unfold wp at h
  cases hm : m s with
  | mk r t =>
    rw [hm] at h
    cases r with
    | error e' => rw [h.1, h.2]
    | ok b => exact h.elim

theorem wp_and {Q Q' : α → σ → Prop} {E E' : ε → σ → Prop}
    (h : wp m Q E s) (h' : wp m Q' E' s) :
    wp m (fun a s' => Q a s' ∧ Q' a s') (fun e s' => E e s' ∧ E' e s') s := by
  unfold wp at h h' ⊢
  cases hm : m s with
  | mk r s' =>
    rw [hm] at h h'
    cases r with
    | error e => exact ⟨h, h'⟩
    | ok a => exact ⟨h, h'⟩

theorem wp_const {P : Prop} (h : P) :
    wp m (fun _ _ => P) (fun _ _ => True) s := by
  unfold wp
  split
  · exact h
  · trivial

def attempt (m : Program ε σ α) : Program ε σ (Except ε α) := fun s =>
  match m s with
  | (r, s') => (.ok r, s')

theorem wp_attempt (m : Program ε σ α) (Q : Except ε α → σ → Prop) (E : ε → σ → Prop) (s : σ) :
    wp (attempt m) Q E s ↔ wp m (fun a => Q (.ok a)) (fun e => Q (.error e)) s := by
  simp only [wp, attempt]
  cases h : m s with
  | mk r s' => cases r <;> rfl

def failingWith (e : ε) (m : Program ε σ α) : Program ε σ α := fun s =>
  match m s with
  | (.ok a, s') => (.ok a, s')
  | (.error _, s') => (.error e, s')

theorem wp_failingWith (e : ε) (m : Program ε σ α) (Q : α → σ → Prop) (E : ε → σ → Prop) (s : σ) :
    wp (failingWith e m) Q E s ↔ wp m Q (fun _ => E e) s := by
  simp only [wp, failingWith]
  cases h : m s with
  | mk r s' => cases r <;> rfl

def Preserves (I : σ → Prop) (m : Program ε σ α) : Prop :=
  ∀ s, I s → wp m (fun _ => I) (fun _ => I) s

variable {I : σ → Prop}

theorem wp_bind_of_preserves {f : α → Program ε σ β}
    {Q : β → σ → Prop} {E : ε → σ → Prop} (hm : Preserves I m) (hs : I s)
    (hE : ∀ e s', I s' → E e s') (hf : ∀ a s', I s' → wp (f a) Q E s') : wp (m >>= f) Q E s :=
  (wp_bind m f Q E s).mpr (wp_mono (hm s hs) hf hE)

theorem Preserves.bind {f : α → Program ε σ β}
    (hm : Preserves I m) (hf : ∀ a, Preserves I (f a)) : Preserves I (m >>= f) :=
  fun _ hs => wp_bind_of_preserves hm hs (fun _ _ h => h) (fun a s' h => hf a s' h)

theorem Preserves.attempt (hm : Preserves I m) :
    Preserves I (attempt m) :=
  fun s hs => (wp_attempt m _ _ s).mpr (hm s hs)

theorem Preserves.failingWith (e : ε) (hm : Preserves I m) :
    Preserves I (failingWith e m) :=
  fun s hs => (wp_failingWith e m _ _ s).mpr (hm s hs)

theorem Preserves.runIf {m : Program ε σ Unit} (c : Prop) [Decidable c]
    (hm : Preserves I m) : Preserves I (runIf c m) :=
  fun s hs => (wp_runIf c m _ _ s).mpr ⟨fun _ => hm s hs, fun _ => hs⟩

theorem preserves_pure (a : α) : Preserves I (pure a : Program ε σ α) :=
  fun _ hs => hs

theorem preserves_throw (e : ε) : Preserves I (throw e : Program ε σ α) :=
  fun _ hs => hs

theorem preserves_modify {f : σ → σ} (h : ∀ s, I s → I (f s)) :
    Preserves I (modify f : Program ε σ PUnit) :=
  fun s hs => (wp_modify f _ _ s).mpr (h s hs)

theorem preserves_get : Preserves I (get : Program ε σ σ) := fun _ hs => hs

theorem preserves_okOr (x : Option α) (e : ε) :
    Preserves I (okOr x e : Program ε σ α) :=
  fun s hs => (wp_okOr x e _ _ s).mpr ⟨fun _ _ => hs, fun _ => hs⟩

theorem preserves_rejectIf (c : Prop) [Decidable c] (e : ε) :
    Preserves I (rejectIf c e : Program ε σ Unit) :=
  fun s hs => (wp_rejectIf c e _ _ s).mpr ⟨fun _ => hs, fun _ => hs⟩

theorem preserves_ofExcept {δ : Type} (f : δ → ε) (x : Except δ α) :
    Preserves I (ofExcept f x : Program ε σ α) :=
  fun s hs => (wp_ofExcept f x _ _ s).mpr ⟨fun _ _ => hs, fun _ _ => hs⟩

theorem preserves_ite {c : Prop} [Decidable c] {m n : Program ε σ α}
    (hm : Preserves I m) (hn : Preserves I n) : Preserves I (if c then m else n) := by
  split
  · exact hm
  · exact hn

def whenFails (m : Program ε σ Bool) (f : Program ε σ Unit) : Program ε σ Unit := do
  if ← m then pure () else f

theorem wp_whenFails (m : Program ε σ Bool) (f : Program ε σ Unit) (Q : Unit → σ → Prop)
    (E : ε → σ → Prop) (s : σ) :
    wp (whenFails m f) Q E s ↔ wp m (fun b s' => (b = true → Q () s') ∧
      (b = false → wp f Q E s')) E s := by
  rw [whenFails, wp_bind]
  refine iff_of_eq (congrArg (fun P => wp m P E s) (funext fun b => funext fun s' => ?_))
  cases b <;> simp [wp_pure]

def ensure (m : Program ε σ Bool) (e : ε) : Program ε σ Unit := whenFails m (throw e)

def forSome (x : Option α) (f : α → Program ε σ Unit) : Program ε σ Unit :=
  match x with
  | some a => f a
  | none => pure ()

def caught {δ : Type} (m : Program δ σ α) : Program ε σ (Except δ α) := fun s =>
  match m s with
  | (r, s') => (.ok r, s')

theorem wp_caught {δ : Type} (m : Program δ σ α) (Q : Except δ α → σ → Prop) (E : ε → σ → Prop)
    (s : σ) : wp (caught m) Q E s ↔ wp m (fun a => Q (.ok a)) (fun e => Q (.error e)) s := by
  simp only [wp, caught]
  cases h : m s with
  | mk r s' => cases r <;> rfl

/-- The program keeps `I` when it returns, and ends in `E` when it fails. -/
def Keeps (I : σ → Prop) (E : ε → σ → Prop) (m : Program ε σ α) : Prop :=
  ∀ s, I s → wp m (fun _ => I) E s

section Keeps
variable {I : σ → Prop} {E : ε → σ → Prop}

theorem wp_bind_of_keeps {m : Program ε σ α} {f : α → Program ε σ β} {Q : β → σ → Prop} {s : σ}
    (hm : Keeps I E m) (hs : I s) (hf : ∀ a s', I s' → wp (f a) Q E s') : wp (m >>= f) Q E s :=
  (wp_bind m f Q E s).mpr (wp_mono (hm s hs) hf fun _ _ h => h)

theorem Keeps.bind {m : Program ε σ α} {f : α → Program ε σ β} (hm : Keeps I E m)
    (hf : ∀ a, Keeps I E (f a)) : Keeps I E (m >>= f) :=
  fun _ hs => wp_bind_of_keeps hm hs fun a s' h => hf a s' h

theorem keeps_pure (a : α) : Keeps I E (pure a : Program ε σ α) := fun _ hs => hs

theorem keeps_throw {e : ε} (h : ∀ s, I s → E e s) : Keeps I E (throw e : Program ε σ α) :=
  fun s hs => h s hs

theorem keeps_get : Keeps I E (get : Program ε σ σ) := fun _ hs => hs

theorem keeps_modify {f : σ → σ} (h : ∀ s, I s → I (f s)) :
    Keeps I E (modify f : Program ε σ PUnit) :=
  fun s hs => h s hs

theorem keeps_rejectIf {c : Prop} [Decidable c] {e : ε} (h : ∀ s, I s → E e s) :
    Keeps I E (rejectIf c e) :=
  fun s hs => (wp_rejectIf c e _ E s).mpr ⟨fun _ => h s hs, fun _ => hs⟩

theorem keeps_okOr {x : Option α} {e : ε} (h : ∀ s, I s → E e s) :
    Keeps I E (okOr x e : Program ε σ α) :=
  fun s hs => (wp_okOr x e _ E s).mpr ⟨fun _ _ => hs, fun _ => h s hs⟩

theorem Keeps.whenFails {m : Program ε σ Bool} {f : Program ε σ Unit} (hm : Keeps I E m)
    (hf : Keeps I E f) : Keeps I E (whenFails m f) :=
  hm.bind fun b => by
    cases b with
    | true => exact keeps_pure ()
    | false => exact hf

theorem Keeps.ensure {m : Program ε σ Bool} {e : ε} (hm : Keeps I E m) (h : ∀ s, I s → E e s) :
    Keeps I E (ensure m e) :=
  hm.whenFails (keeps_throw h)

theorem Keeps.runIf {m : Program ε σ Unit} (c : Prop) [Decidable c] (hm : Keeps I E m) :
    Keeps I E (runIf c m) :=
  fun s hs => (wp_runIf c m _ E s).mpr ⟨fun _ => hm s hs, fun _ => hs⟩

theorem keeps_forSome {x : Option α} {f : α → Program ε σ Unit} (hf : ∀ a, Keeps I E (f a)) :
    Keeps I E (forSome x f) := by
  cases x with
  | none => exact keeps_pure ()
  | some a => exact hf a

theorem keeps_forM {as : List α} {f : α → Program ε σ PUnit} (hf : ∀ a, Keeps I E (f a)) :
    Keeps I E (as.forM f) := by
  induction as with
  | nil => exact fun _ hs => hs
  | cons a as ih => exact (hf a).bind fun _ => ih

end Keeps

def Refuses (I : σ → Prop) (E : ε → σ → Prop) (m : Program ε σ α) : Prop :=
  ∀ s, I s → wp m (fun _ _ => False) E s

section Refuses
variable {I J : σ → Prop} {E : ε → σ → Prop} {m : Program ε σ α}

theorem Refuses.keeps (h : Refuses I E m) : Keeps I E m :=
  fun s hs => wp_mono (h s hs) (fun _ _ hfalse => hfalse.elim) fun _ _ he => he

theorem Refuses.mono (h : Refuses J E m) (hij : ∀ s, I s → J s) :
    Refuses I E m :=
  fun s hs => h s (hij s hs)

theorem refuses_throw {e : ε} (h : ∀ s, I s → E e s) : Refuses I E (throw e : Program ε σ α) :=
  fun s hs => h s hs

theorem Keeps.refuses {f : α → Program ε σ β} (hm : Keeps I E m)
    (hf : ∀ a, Refuses I E (f a)) : Refuses I E (m >>= f) :=
  fun _ hs => wp_bind_of_keeps hm hs fun a s' h => hf a s' h

end Refuses

def after (m : Program ε σ α) (s : σ) : σ := (m s).2

def result (m : Program ε σ α) (s : σ) : Except ε α := (m s).1

theorem wp_iff (m : Program ε σ α) (Q : α → σ → Prop) (E : ε → σ → Prop) (s : σ) :
    wp m Q E s ↔ (∀ a, m.result s = .ok a → Q a (m.after s)) ∧
      (∀ e, m.result s = .error e → E e (m.after s)) := by
  unfold wp result after
  cases hm : m s with
  | mk r s' => cases r <;> simp

theorem after_of_wp {P : σ → Prop}
    (h : wp m (fun _ => P) (fun _ => P) s) : P (m.after s) := by
  rw [wp_iff] at h
  cases hr : m.result s with
  | error e => exact h.2 e hr
  | ok a => exact h.1 a hr

theorem ok_of_wp {Q : α → σ → Prop}
    (h : wp m Q (fun _ _ => False) s) : ∃ a, m.result s = .ok a ∧ Q a (m.after s) := by
  rw [wp_iff] at h
  cases hr : m.result s with
  | error e => exact (h.2 e hr).elim
  | ok a => exact ⟨a, rfl, h.1 a hr⟩

def returns (m : Program ε σ α) (p : α → Bool) (s : σ) : Bool :=
  match m s with
  | (.ok a, _) => p a
  | (.error _, _) => false

theorem eq_of_returns {p : α → Bool} (h : m.returns p s = true) :
    ∃ a, m s = (.ok a, m.after s) ∧ p a = true := by
  unfold returns at h
  cases hm : m s with
  | mk r s' =>
    rw [hm] at h
    cases r with
    | error e => cases h
    | ok a => exact ⟨a, by rw [after, hm], h⟩

def ReadOnly (m : Program ε σ α) : Prop := ∀ s, m.after s = s

theorem ReadOnly.wp (h : ReadOnly m) (Q : α → σ → Prop) (E : ε → σ → Prop)
    (s : σ) : m.wp Q E s ↔ (∀ a, m.result s = .ok a → Q a s) ∧
      (∀ e, m.result s = .error e → E e s) := by
  rw [wp_iff, h s]

theorem readOnly_of_preserves (h : ∀ s, Preserves (· = s) m) : ReadOnly m :=
  fun s => after_of_wp (h s s rfl)

/-! Two programs side by side. -/

/-- When `m` returns from `s`, `n` returns from `t`, and `Q` relates what they return and the
states they end in. -/
def Follows {δ τ : Type} (m : Program ε σ α) (n : Program δ τ β) (Q : α → σ → β → τ → Prop) (s : σ)
    (t : τ) : Prop :=
  ∀ a s', m s = (.ok a, s') → ∃ b t', n t = (.ok b, t') ∧ Q a s' b t'

section Follows
variable {δ τ γ ζ : Type} {s : σ} {t : τ} {m : Program ε σ α}

theorem bind_eq_ok {f : α → Program ε σ β} {b : β} {s' : σ} :
    (m >>= f) s = (.ok b, s') ↔ ∃ a u, m s = (.ok a, u) ∧ f a u = (.ok b, s') := by
  have hbind : (m >>= f) s = match m s with
      | (.ok a, u) => f a u
      | (.error e, u) => (.error e, u) := by
    simp only [bind, ExceptT.bind, ExceptT.mk, StateT.bind, ExceptT.bindCont]
    cases m s with
    | mk r u => cases r <;> rfl
  rw [hbind]
  cases m s with
  | mk r u =>
    cases r with
    | error e =>
      refine ⟨fun h => (nomatch h), ?_⟩
      rintro ⟨_, _, ⟨⟩, -⟩
    | ok a =>
      refine ⟨fun h => ⟨a, u, rfl, h⟩, ?_⟩
      rintro ⟨_, _, ⟨⟩, h⟩
      exact h

theorem rejectIf_eq_ok {c : Prop} [Decidable c] {e : ε} {u : Unit} {s' : σ}
    (h : (rejectIf c e : Program ε σ Unit) s = (.ok u, s')) : ¬c ∧ s' = s := by
  by_cases hc : c
  · rw [rejectIf, if_pos hc] at h
    cases h
  · rw [rejectIf, if_neg hc] at h
    cases h
    exact ⟨hc, rfl⟩

theorem okOr_eq_ok {x : Option α} {e : ε} {a : α} {s' : σ}
    (h : (okOr x e : Program ε σ α) s = (.ok a, s')) : x = some a ∧ s' = s := by
  cases x with
  | none => cases h
  | some b =>
    cases h
    exact ⟨rfl, rfl⟩

variable {n : Program δ τ β}

theorem follows_bind {f : α → Program ε σ γ}
    {g : β → Program δ τ ζ} {Q : γ → σ → ζ → τ → Prop}
    (h : Follows m n (fun a s' b t' => Follows (f a) (g b) Q s' t') s t) :
    Follows (m >>= f) (n >>= g) Q s t := by
  intro c s' hc
  obtain ⟨a, u, ha, hc⟩ := bind_eq_ok.mp hc
  obtain ⟨b, v, hb, hfollows⟩ := h a u ha
  obtain ⟨d, t', hd, hq⟩ := hfollows c s' hc
  exact ⟨d, t', bind_eq_ok.mpr ⟨b, v, hb, hd⟩, hq⟩

theorem Follows.mono {Q Q' : α → σ → β → τ → Prop}
    (h : Follows m n Q s t) (hq : ∀ a s' b t', Q a s' b t' → Q' a s' b t') :
    Follows m n Q' s t := by
  intro a s' ha
  obtain ⟨b, t', hb, hab⟩ := h a s' ha
  exact ⟨b, t', hb, hq a s' b t' hab⟩

theorem follows_get {Q : σ → σ → τ → τ → Prop} (h : Q s s t t) :
    Follows (get : Program ε σ σ) (get : Program δ τ τ) Q s t := by
  rintro _ _ ⟨⟩
  exact ⟨t, t, rfl, h⟩

variable {Q : α → σ → β → τ → Prop}

theorem follows_pure {a : α} {b : β} (h : Q a s b t) :
    Follows (pure a : Program ε σ α) (pure b : Program δ τ β) Q s t := by
  rintro _ _ ⟨⟩
  exact ⟨b, t, rfl, h⟩

theorem follows_rejectIf {c d : Prop} [Decidable c] [Decidable d] {e : ε} {e' : δ}
    {Q : Unit → σ → Unit → τ → Prop} (hcd : d → c) (h : ¬c → Q () s () t) :
    Follows (rejectIf c e) (rejectIf d e') Q s t := by
  intro a s' ha
  by_cases hc : c
  · rw [rejectIf, if_pos hc] at ha
    cases ha
  · rw [rejectIf, if_neg hc] at ha
    obtain ⟨-, rfl⟩ := Prod.mk.inj ha
    exact ⟨(), t, by rw [rejectIf, if_neg fun hd => hc (hcd hd)]; rfl, h hc⟩

theorem follows_okOr {x : Option α} {e : ε} {e' : δ} {Q : α → σ → α → τ → Prop}
    (h : ∀ a, x = some a → Q a s a t) : Follows (okOr x e) (okOr x e') Q s t := by
  cases x with
  | none => rintro _ _ ⟨⟩
  | some a => exact follows_pure (h a rfl)

theorem follows_ofExcept {x : Except γ α} {f : γ → ε} {g : γ → δ} {Q : α → σ → α → τ → Prop}
    (h : ∀ a, x = .ok a → Q a s a t) : Follows (ofExcept f x) (ofExcept g x) Q s t := by
  cases x with
  | error e => rintro _ _ ⟨⟩
  | ok a => exact follows_pure (h a rfl)

theorem follows_ite {c : Prop} [Decidable c] {m m' : Program ε σ α} {n n' : Program δ τ β} (h : c → Follows m n Q s t) (h' : ¬c → Follows m' n' Q s t) :
    Follows (if c then m else m') (if c then n else n') Q s t := by
  by_cases hc : c
  · rw [if_pos hc, if_pos hc]
    exact h hc
  · rw [if_neg hc, if_neg hc]
    exact h' hc

theorem follows_runIf {c : Prop} [Decidable c] {m : Program ε σ Unit} {n : Program δ τ Unit}
    {Q : Unit → σ → Unit → τ → Prop} (hm : c → Follows m n Q s t) (h : ¬c → Q () s () t) :
    Follows (runIf c m) (runIf c n) Q s t :=
  follows_ite hm fun hc => follows_pure (h hc)

theorem follows_failingWith {e : ε} {e' : δ} (h : Follows m n Q s t) :
    Follows (failingWith e m) (failingWith e' n) Q s t := by
  intro a s' ha
  obtain ⟨b, t', hb, hq⟩ := h a s' (by
    rw [failingWith] at ha
    split at ha
    · next hm => rw [hm, ha]
    · cases ha)
  exact ⟨b, t', by rw [failingWith, hb], hq⟩

end Follows

end Program
end Ferrocrate.Lib
