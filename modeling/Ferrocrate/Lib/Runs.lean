import Mathlib.Data.List.Basic

/-! Runs of a machine, one step for each command, with conditions on the commands and on the states
they are given in. -/
namespace Ferrocrate.Lib.Runs
variable {σ κ : Type} (step : σ → κ → σ)

def Along (P : σ → κ → Prop) : σ → List κ → Prop
  | _, [] => True
  | s, c :: cs => P s c ∧ Along P (step s c) cs

instance decidableAlong (P : σ → κ → Prop) [∀ s c, Decidable (P s c)] :
    ∀ s cs, Decidable (Along step P s cs)
  | _, [] => .isTrue trivial
  | s, c :: cs => @instDecidableAnd _ _ _ (decidableAlong P (step s c) cs)

def Throughout (I : σ → Prop) : σ → List κ → Prop
  | s, [] => I s
  | s, c :: cs => I s ∧ Throughout I (step s c) cs

variable {step} {P Q : σ → κ → Prop} {I J : σ → Prop} {s : σ} {c : κ} {cs : List κ}

theorem Throughout.head (h : Throughout step I s cs) : I s := by
  cases cs with
  | nil => exact h
  | cons c cs => exact h.1

theorem Throughout.last (h : Throughout step I s cs) : I (cs.foldl step s) := by
  induction cs generalizing s with
  | nil => exact h
  | cons c cs ih => exact ih h.2

theorem along_append (cs ds : List κ) :
    Along step P s (cs ++ ds) ↔ Along step P s cs ∧ Along step P (cs.foldl step s) ds := by
  induction cs generalizing s with
  | nil => simp [Along]
  | cons c cs ih =>
    rw [List.cons_append, Along, ih, Along, List.foldl_cons, and_assoc]

theorem Along.and (h : Along step P s cs) (h' : Along step Q s cs) :
    Along step (fun s c => P s c ∧ Q s c) s cs := by
  induction cs generalizing s with
  | nil => trivial
  | cons c cs ih => exact ⟨⟨h.1, h'.1⟩, ih h.2 h'.2⟩

theorem Throughout.mono (h : Throughout step I s cs) (hij : ∀ s, I s → J s) :
    Throughout step J s cs := by
  induction cs generalizing s with
  | nil => exact hij s h
  | cons c cs ih => exact ⟨hij s h.1, ih h.2⟩

theorem along_of_forall (h : ∀ c ∈ cs, ∀ s, P s c) : Along step P s cs := by
  induction cs generalizing s with
  | nil => trivial
  | cons c cs ih =>
    exact ⟨h c List.mem_cons_self s, ih fun d hd => h d (List.mem_cons_of_mem c hd)⟩

theorem Along.invariant (hstep : ∀ s c, P s c → I s → I (step s c)) (h : Along step P s cs)
    (hs : I s) : Throughout step I s cs := by
  induction cs generalizing s with
  | nil => exact hs
  | cons c cs ih => exact ⟨hs, ih h.2 (hstep s c h.1 hs)⟩

theorem throughout_of_step (hstep : ∀ s c, I s → I (step s c)) (hs : I s) :
    Throughout step I s cs := by
  induction cs generalizing s with
  | nil => exact hs
  | cons c cs ih => exact ⟨hs, ih (hstep s c hs)⟩

theorem Throughout.along (hstep : ∀ s c, P s c → I s → I (step s c) → Q s c)
    (hp : Along step P s cs) (h : Throughout step I s cs) : Along step Q s cs := by
  induction cs generalizing s with
  | nil => trivial
  | cons c cs ih => exact ⟨hstep s c hp.1 h.1 h.2.head, ih hp.2 h.2⟩

theorem Throughout.always (hq : ∀ s c, I s → Q s c) (h : Throughout step I s cs) :
    Along step Q s cs := by
  induction cs generalizing s with
  | nil => trivial
  | cons c cs ih => exact ⟨hq s c h.1, ih h.2⟩

end Ferrocrate.Lib.Runs
