import Ferrocrate.Lib.Program

/-! Processes: sequences of atomic actions on a state that others change in between. Each action
has a label that says what the process is about to do. -/
namespace Ferrocrate.Lib

inductive Process (σ L α : Type) : Type where
  | done (a : α)
  | act (label : L) (update : σ → σ) (next : σ → Process σ L α)

namespace Process
variable {σ L ε α β : Type}

def bind : Process σ L α → (α → Process σ L β) → Process σ L β
  | done a, k => k a
  | act label update next, k => act label update fun s => (next s).bind k

instance : Monad (Process σ L) where
  pure := done
  bind := bind

theorem bind_assoc {γ : Type} (p : Process σ L α) (f : α → Process σ L β) (g : β → Process σ L γ) :
    (p.bind f).bind g = p.bind fun a => (f a).bind g := by
  induction p with
  | done a => rfl
  | act label update next ih => exact congrArg (act label update) (funext ih)

theorem bind_done (p : Process σ L α) : p.bind done = p := by
  induction p with
  | done a => rfl
  | act label update next ih => exact congrArg (act label update) (funext ih)

instance : LawfulMonad (Process σ L) :=
  LawfulMonad.mk' _ bind_done (fun _ _ => rfl) bind_assoc

def label? : Process σ L α → Option L
  | done _ => none
  | act label _ _ => some label

def advance : Process σ L α → σ → Process σ L α × σ
  | done a, s => (done a, s)
  | act _ update next, s => (next s, update s)

def advances : Nat → Process σ L α → σ → Process σ L α × σ
  | 0, p, s => (p, s)
  | n + 1, p, s => advances n (p.advance s).1 (p.advance s).2

theorem advances_done (n : Nat) (a : α) (s : σ) : (done a : Process σ L α).advances n s = (done a, s) := by
  induction n with
  | zero => rfl
  | succ n ih => exact ih

def run : Process σ L α → σ → α × σ
  | done a, s => (a, s)
  | act _ update next, s => (next s).run (update s)

theorem run_bind (p : Process σ L α) (k : α → Process σ L β) (s : σ) :
    (p.bind k).run s = (k (p.run s).1).run (p.run s).2 := by
  induction p generalizing s with
  | done a => rfl
  | act label update next ih => exact ih s (update s)

def Acts (P : L → (σ → σ) → Prop) : Process σ L α → Prop
  | done _ => True
  | act label update next => P label update ∧ ∀ s, Acts P (next s)

variable {P : L → (σ → σ) → Prop}

theorem Acts.bind {p : Process σ L α} {k : α → Process σ L β}
    (hp : p.Acts P) (hk : ∀ a, (k a).Acts P) : (p.bind k).Acts P := by
  induction p with
  | done a => exact hk a
  | act label update next ih => exact ⟨hp.1, fun s => ih s (hp.2 s)⟩

theorem Acts.advance {P : L → (σ → σ) → Prop} {p : Process σ L α} (hp : p.Acts P) (s : σ) :
    (p.advance s).1.Acts P := by
  cases p with
  | done a => trivial
  | act label update next => exact hp.2 s

theorem Acts.update {p : Process σ L α} (hp : p.Acts P) {label : L}
    (hlabel : p.label? = some label) (s : σ) : ∃ update, P label update ∧ (p.advance s).2 = update s := by
  cases p with
  | done a => cases hlabel
  | act l update next =>
    obtain rfl := Option.some.inj hlabel
    exact ⟨update, hp.1, rfl⟩

end Process

abbrev Task (ε σ L α : Type) := ExceptT ε (Process σ L) α

namespace Task
variable {σ L ε α β : Type}

def atomically (label : L) (m : Program ε σ α) : Task ε σ L α :=
  ExceptT.mk (.act label (fun s => (m s).2) fun s => .done (m s).1)

def ofExcept (x : Except ε α) : Task ε σ L α := ExceptT.mk (.done x)

def attempt {δ : Type} (m : Task ε σ L α) : Task δ σ L (Except ε α) :=
  ExceptT.mk (m.run.bind fun r => .done (.ok r))

def runIf (c : Prop) [Decidable c] (m : Task ε σ L Unit) : Task ε σ L Unit :=
  if c then m else pure ()

theorem ofExcept_ok_bind (a : α) (f : α → Task ε σ L β) :
    ((ofExcept (.ok a) : Task ε σ L α) >>= f) = f a := rfl

theorem run_atomically (label : L) (m : Program ε σ α) (s : σ) :
    Process.run (atomically label m).run s = m s := rfl

theorem run_ofExcept (x : Except ε α) (s : σ) :
    Process.run (ofExcept x : Task ε σ L α).run s = (x, s) := rfl

variable {f : α → Task ε σ L β}

theorem run_bind {m : Task ε σ L α} {b : β} {s t : σ} :
    Process.run (m >>= f).run s = (.ok b, t) ↔
      ∃ a u, Process.run m.run s = (.ok a, u) ∧ Process.run (f a).run u = (.ok b, t) := by
  show Process.run (Process.bind m.run _) s = _ ↔ _
  generalize m.run = p
  induction p generalizing s with
  | act label update next ih => exact ih s
  | done r =>
    cases r with
    | error e =>
      refine ⟨fun h => (nomatch h), ?_⟩
      rintro ⟨_, _, ⟨⟩, -⟩
    | ok a =>
      refine ⟨fun h => ⟨a, s, rfl, h⟩, ?_⟩
      rintro ⟨_, _, ⟨⟩, h⟩
      exact h

theorem run_ofExcept_bind {x : Except ε α} {b : β} {s t : σ} :
    Process.run (ofExcept x >>= f).run s = (.ok b, t) ↔
      ∃ a, x = .ok a ∧ Process.run (f a).run s = (.ok b, t) := by
  rw [run_bind, run_ofExcept]
  constructor
  · rintro ⟨a, u, ha, h⟩
    obtain ⟨rfl, rfl⟩ := Prod.mk.inj ha
    exact ⟨a, rfl, h⟩
  · rintro ⟨a, rfl, h⟩
    exact ⟨a, s, rfl, h⟩

theorem run_atomically_bind {label : L} {m : Program ε σ α} {b : β}
    {s t : σ} : Process.run (atomically label m >>= f).run s = (.ok b, t) ↔
      ∃ a u, m s = (.ok a, u) ∧ Process.run (f a).run u = (.ok b, t) := by
  rw [run_bind, run_atomically]

theorem advances_atomically_bind {label : L} {m : Program ε σ α} {a : α}
    {s u : σ} (h : m s = (.ok a, u)) (k : Nat) :
    Process.advances (k + 1) (atomically label m >>= f).run s
      = Process.advances k (f a).run u := by
  have hnext : Process.advance (atomically label m >>= f).run s = ((f a).run, u) := by
    show (Process.bind (.done (m s).1) _, (m s).2) = _
    rw [h]
    rfl
  rw [Process.advances, hnext]

/-! What a task may do, one combinator at a time. -/

section Acts
variable {P : L → (σ → σ) → Prop}

theorem acts_atomically {label : L} {m : Program ε σ α} (h : P label fun s => (m s).2) :
    Process.Acts P (atomically label m).run :=
  ⟨h, fun _ => trivial⟩

variable {f : α → Task ε σ L β}

theorem acts_bind {m : Task ε σ L α} (hm : Process.Acts P m.run)
    (hf : ∀ a, Process.Acts P (f a).run) : Process.Acts P (m >>= f).run := by
  refine Process.Acts.bind hm fun r => ?_
  cases r with
  | error e => trivial
  | ok a => exact hf a

theorem acts_attempt {δ : Type} {m : Task ε σ L α} (hm : Process.Acts P m.run) :
    Process.Acts P (attempt m : Task δ σ L (Except ε α)).run :=
  hm.bind fun _ => trivial

theorem acts_ofExcept_bind {x : Except ε α}
    (hf : ∀ a, x = .ok a → Process.Acts P (f a).run) : Process.Acts P (ofExcept x >>= f).run := by
  cases x with
  | error e => trivial
  | ok a => exact hf a rfl

theorem acts_mapM {as : List α} (hf : ∀ a, Process.Acts P (f a).run) :
    Process.Acts P (as.mapM f).run := by
  induction as with
  | nil => trivial
  | cons a as ih =>
    rw [List.mapM_cons]
    exact acts_bind (hf a) fun b => acts_bind ih fun bs => trivial

theorem acts_forM {as : List α} {f : α → Task ε σ L Unit} (hf : ∀ a, Process.Acts P (f a).run) :
    Process.Acts P (as.forM f).run := by
  induction as with
  | nil => trivial
  | cons a as ih => exact acts_bind (hf a) fun _ => ih

end Acts

end Task

/-- How a process and the others share a state: what always holds, what the others may do
before an action with a label, and what they leave it with. -/
structure Protocol (σ L : Type) where
  inv : σ → Prop
  rely : L → σ → σ → Prop
  grant : L → σ → Prop
  trans : ∀ {label s t u}, rely label s t → rely label t u → rely label s u
  stable : ∀ {label s t}, inv s → rely label s t → inv t

namespace Protocol
variable {σ L ε α β : Type} (P : Protocol σ L)

/-- Whatever the others do, the process keeps the invariant and ends as `Q` says. -/
def Safe (Q : α → σ → Prop) : Process σ L α → σ → Prop
  | .done a, s => P.inv s ∧ Q a s
  | .act label update next, s =>
    P.inv s ∧ ∀ t, P.rely label s t → P.grant label t → Safe Q (next t) (update t)

variable {P} {Q : α → σ → Prop} {p : Process σ L α} {s t : σ}

theorem Safe.inv (h : P.Safe Q p s) : P.inv s := by
  cases p <;> exact h.1

theorem Safe.others {label : L} (h : P.Safe Q p s) (hl : p.label? = some label)
    (ht : P.rely label s t) : P.Safe Q p t := by
  cases p with
  | done a => cases hl
  | act l update next =>
    obtain rfl := Option.some.inj hl
    exact ⟨P.stable h.1 ht, fun u hu hg => h.2 u (P.trans ht hu) hg⟩

theorem Safe.advance (hrefl : ∀ label s, P.rely label s s) (h : P.Safe Q p s)
    (hg : ∀ label, p.label? = some label → P.grant label s) :
    P.Safe Q (p.advance s).1 (p.advance s).2 := by
  cases p with
  | done a => exact h
  | act l update next => exact h.2 s (hrefl l s) (hg l rfl)

theorem safe_bind (P : Protocol σ L) (p : Process σ L α) (k : α → Process σ L β)
    (Q : β → σ → Prop) (s : σ) :
    P.Safe Q (p.bind k) s ↔ P.Safe (fun a s => P.Safe Q (k a) s) p s := by
  induction p generalizing s with
  | done a => exact ⟨fun h => ⟨h.inv, h⟩, fun h => h.2⟩
  | act label update next ih =>
    refine and_congr_right fun _ => forall_congr' fun t => imp_congr_right fun _ => ?_
    exact imp_congr_right fun _ => ih t (update t)

theorem Safe.mono {Q' : α → σ → Prop} (h : P.Safe Q p s) (hq : ∀ a s, P.inv s → Q a s → Q' a s) :
    P.Safe Q' p s := by
  induction p generalizing s with
  | done a => exact ⟨h.1, hq a s h.1 h.2⟩
  | act label update next ih => exact ⟨h.1, fun t ht hg => ih t (h.2 t ht hg)⟩

def Ensures (P : Protocol σ L) (m : Task ε σ L α) (Q : α → σ → Prop) (E : ε → σ → Prop) (s : σ) :
    Prop :=
  P.Safe (fun r s => match r with
    | .ok a => Q a s
    | .error e => E e s) m.run s

theorem Ensures.mono {m : Task ε σ L α} {Q Q' : α → σ → Prop} {E E' : ε → σ → Prop} {s : σ}
    (h : P.Ensures m Q E s) (hq : ∀ a s, P.inv s → Q a s → Q' a s)
    (he : ∀ e s, P.inv s → E e s → E' e s) : P.Ensures m Q' E' s := by
  refine Safe.mono h fun r s hi hr => ?_
  cases r with
  | error e => exact he e s hi hr
  | ok a => exact hq a s hi hr

theorem ensures_pure (P : Protocol σ L) (a : α) (Q : α → σ → Prop) (E : ε → σ → Prop) (s : σ) :
    P.Ensures (pure a) Q E s ↔ P.inv s ∧ Q a s := Iff.rfl

theorem ensures_bind (P : Protocol σ L) (m : Task ε σ L α) (f : α → Task ε σ L β)
    (Q : β → σ → Prop) (E : ε → σ → Prop) (s : σ) :
    P.Ensures (m >>= f) Q E s ↔ P.Ensures m (fun a s => P.Ensures (f a) Q E s) E s := by
  refine (safe_bind P m.run _ _ s).trans ?_
  constructor
  · refine fun h => Safe.mono h fun r s _ hr => ?_
    cases r with
    | error e => exact hr.2
    | ok a => exact hr
  · refine fun h => Safe.mono h fun r s hi hr => ?_
    cases r with
    | error e => exact ⟨hi, hr⟩
    | ok a => exact hr

theorem ensures_ofExcept (P : Protocol σ L) (x : Except ε α) (Q : α → σ → Prop)
    (E : ε → σ → Prop) (s : σ) :
    P.Ensures (Task.ofExcept x) Q E s ↔
      P.inv s ∧ (∀ a, x = .ok a → Q a s) ∧ ∀ e, x = .error e → E e s := by
  refine and_congr_right fun _ => ?_
  cases x <;> simp

theorem ensures_ite (P : Protocol σ L) (c : Prop) [Decidable c] (m n : Task ε σ L α)
    (Q : α → σ → Prop) (E : ε → σ → Prop) (s : σ) :
    P.Ensures (if c then m else n) Q E s ↔
      (c → P.Ensures m Q E s) ∧ (¬c → P.Ensures n Q E s) := by
  split <;> simp_all

theorem ensures_atomically (P : Protocol σ L) (label : L) (m : Program ε σ α) (Q : α → σ → Prop)
    (E : ε → σ → Prop) (s : σ) :
    P.Ensures (Task.atomically label m) Q E s ↔ P.inv s ∧ ∀ t, P.rely label s t →
      P.grant label t → Program.wp m (fun a s => P.inv s ∧ Q a s) (fun e s => P.inv s ∧ E e s) t := by
  refine and_congr_right fun _ => forall_congr' fun t => imp_congr_right fun _ => ?_
  refine imp_congr_right fun _ => ?_
  show P.Safe _ (.done (m t).1) (m t).2 ↔ _
  rw [Program.wp, Safe]
  cases m t with
  | mk r s => cases r <;> rfl

end Protocol
end Ferrocrate.Lib
