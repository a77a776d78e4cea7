import Mathlib.Data.Set.Operations
import Mathlib.Data.List.Basic

/-! Lists of tagged values. A reader that knows with which tags a part can go on finds where it
ends. -/
namespace Ferrocrate.Lib
variable {τ ν α : Type}

def Stops (tags : List τ) (s : List (τ × ν)) : Prop := ∀ f ∈ s.head?, f.1 ∉ tags

def tagged (tag : τ) (vs : List ν) : List (τ × ν) := vs.map (tag, ·)

section
variable {tags : List τ} {tag : τ} {v : ν} {vs ws : List ν} {s t : List (τ × ν)}

@[simp] theorem stops_nil : Stops tags ([] : List (τ × ν)) := by simp [Stops]

@[simp] theorem stops_cons : Stops tags ((tag, v) :: s) ↔ tag ∉ tags := by simp [Stops]

def AllTags (p : τ → Prop) (s : List (τ × ν)) : Prop := ∀ f ∈ s, p f.1

section
variable {p : τ → Prop}

@[simp] theorem allTags_nil : AllTags p ([] : List (τ × ν)) := by simp [AllTags]

@[simp] theorem allTags_cons : AllTags p ((tag, v) :: s) ↔ p tag ∧ AllTags p s := by
  simp [AllTags]

@[simp] theorem allTags_append : AllTags p (s ++ t) ↔ AllTags p s ∧ AllTags p t := by
  simp [AllTags, or_imp, forall_and]

@[simp] theorem allTags_tagged (h : p tag) : AllTags p (tagged tag vs) := by
  simp [AllTags, tagged, h]

@[simp] theorem allTags_flatMap {w : α → List (τ × ν)} {as : List α} :
    AllTags p (as.flatMap w) ↔ ∀ a ∈ as, AllTags p (w a) := by
  simp only [AllTags, List.mem_flatMap, forall_exists_index, and_imp]
  exact ⟨fun h a ha f hf => h f a ha hf, fun h f a ha hf => h a ha f hf⟩

end

theorem stops_append (hs : AllTags (· ∉ tags) s) (ht : Stops tags t) : Stops tags (s ++ t) := by
  cases s with
  | nil => exact ht
  | cons f s =>
    intro g hg
    cases hg
    exact hs f List.mem_cons_self

theorem tagged_append_inj (heq : tagged tag vs ++ s = tagged tag ws ++ t) (hs : Stops [tag] s)
    (ht : Stops [tag] t) : vs = ws ∧ s = t := by
  induction vs generalizing ws with
  | nil =>
    cases ws with
    | nil => exact ⟨rfl, heq⟩
    | cons w ws =>
      rw [show s = _ from heq] at hs
      exact absurd (List.mem_singleton_self tag) (stops_cons.mp hs)
  | cons v vs ih =>
    cases ws with
    | nil =>
      rw [show t = _ from heq.symm] at ht
      exact absurd (List.mem_singleton_self tag) (stops_cons.mp ht)
    | cons w ws =>
      simp only [tagged, List.map_cons, List.cons_append, List.cons.injEq, Prod.mk.injEq,
        true_and] at heq
      obtain ⟨rfl, hst⟩ := ih heq.2
      exact ⟨by rw [heq.1], hst⟩

end

structure Records (tags : List τ) (S : Set α) (w : α → List (τ × ν)) : Prop where
  starts : ∀ a, ∃ f rest, w a = f :: rest ∧ f.1 ∈ tags
  inj : ∀ a ∈ S, ∀ b ∈ S, ∀ s t, w a ++ s = w b ++ t → a = b ∧ s = t

namespace Records
variable {tags : List τ} {S : Set α} {w : α → List (τ × ν)} {as bs : List α}
  {s t : List (τ × ν)}

theorem not_stops (h : Records tags S w) (a : α) (s : List (τ × ν)) : ¬ Stops tags (w a ++ s) := by
  obtain ⟨f, rest, hw, hf⟩ := h.starts a
  rw [hw, List.cons_append, stops_cons]
  exact not_not_intro hf

theorem flatMap_append_inj (h : Records tags S w) (has : ∀ a ∈ as, a ∈ S) (hbs : ∀ b ∈ bs, b ∈ S)
    (heq : as.flatMap w ++ s = bs.flatMap w ++ t) (hs : Stops tags s) (ht : Stops tags t) :
    as = bs ∧ s = t := by
  induction as generalizing bs with
  | nil =>
    cases bs with
    | nil => exact ⟨rfl, heq⟩
    | cons b bs =>
      rw [show s = _ from heq, List.flatMap_cons, List.append_assoc] at hs
      exact absurd hs (h.not_stops b _)
  | cons a as ih =>
    cases bs with
    | nil =>
      rw [show t = _ from heq.symm, List.flatMap_cons, List.append_assoc] at ht
      exact absurd ht (h.not_stops a _)
    | cons b bs =>
      rw [List.flatMap_cons, List.flatMap_cons, List.append_assoc, List.append_assoc] at heq
      obtain ⟨rfl, hrest⟩ := h.inj a (has a List.mem_cons_self) b (hbs b List.mem_cons_self) _ _ heq
      obtain ⟨rfl, hst⟩ := ih (fun x hx => has x (List.mem_cons_of_mem a hx))
        (fun x hx => hbs x (List.mem_cons_of_mem a hx)) hrest
      exact ⟨rfl, hst⟩

end Records

end Ferrocrate.Lib
