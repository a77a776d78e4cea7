import Ferrocrate.Lib.Program
import Mathlib.Data.List.Forall2
import Mathlib.Data.List.Induction
import Mathlib.Data.List.Infix

/-! Loops over lists that can fail. -/
namespace Ferrocrate.Lib

theorem mem_tail_inits {α : Type} {a path : List α} :
    a ∈ path.inits.tail ↔ a ≠ [] ∧ a <+: path := by
  rw [← List.mem_inits]
  cases path with
  | nil => simp
  | cons first rest =>
    rw [List.inits_cons, List.tail_cons, List.mem_cons]
    constructor
    · intro h
      obtain ⟨q, -, rfl⟩ := List.mem_map.mp h
      exact ⟨List.cons_ne_nil first q, .inr h⟩
    · exact fun h => h.2.resolve_left h.1

theorem Except.forM_eq_ok {ε α : Type} {f : α → Except ε Unit} {as : List α}
    (h : as.forM f = .ok ()) : ∀ a ∈ as, f a = .ok () := by
  induction as with
  | nil => simp
  | cons a as ih =>
    obtain ⟨⟨⟩, ha, has⟩ := Except.bind_eq_ok.mp (show (f a >>= fun _ => as.forM f) = _ from h)
    intro b hb
    rcases List.mem_cons.mp hb with rfl | hb
    · exact ha
    · exact ih has b hb

theorem Except.forM_ok {ε α : Type} {f : α → Except ε Unit} {as : List α}
    (h : ∀ a ∈ as, f a = .ok ()) : as.forM f = .ok () := by
  induction as with
  | nil => rfl
  | cons a as ih =>
    change (f a >>= fun _ => as.forM f) = .ok ()
    rw [h a (List.mem_cons_self ..)]
    exact ih fun b hb => h b (List.mem_cons_of_mem _ hb)

variable {ε α β : Type} {f : α → Except ε β} {as : List α}

theorem Except.mapM_ok {g : α → β}
    (h : ∀ a ∈ as, f a = .ok (g a)) : as.mapM f = .ok (as.map g) := by
  induction as with
  | nil => rfl
  | cons a as ih =>
    rw [List.mapM_cons, h a (List.mem_cons_self ..),
      ih fun b hb => h b (List.mem_cons_of_mem _ hb)]
    rfl

theorem Except.mapM_eq_ok {bs : List β}
    (h : as.mapM f = .ok bs) : List.Forall₂ (fun a b => f a = .ok b) as bs := by
  induction as generalizing bs with
  | nil =>
    cases h
    exact .nil
  | cons a as ih =>
    rw [List.mapM_cons] at h
    obtain ⟨b, hb, h⟩ := Except.bind_eq_ok.mp h
    obtain ⟨bs, hbs, h⟩ := Except.bind_eq_ok.mp h
    cases h
    exact .cons hb (ih hbs)

theorem Except.mapM_ok_iff :
    (∃ bs, as.mapM f = .ok bs) ↔ ∀ a ∈ as, ∃ b, f a = .ok b := by
  induction as with
  | nil => exact iff_of_true ⟨[], rfl⟩ (by simp)
  | cons a as ih =>
    rw [List.forall_mem_cons, ← ih, List.mapM_cons]
    constructor
    · intro h
      obtain ⟨_, h⟩ := h
      obtain ⟨b, hb, h⟩ := Except.bind_eq_ok.mp h
      obtain ⟨bs, hbs, -⟩ := Except.bind_eq_ok.mp h
      exact ⟨⟨b, hb⟩, bs, hbs⟩
    · intro h
      obtain ⟨⟨b, hb⟩, bs, hbs⟩ := h
      exact ⟨b :: bs, Except.bind_eq_ok.mpr ⟨b, hb, Except.bind_eq_ok.mpr ⟨bs, hbs, rfl⟩⟩⟩

theorem forall₂_mem_left {α β : Type} {R : α → β → Prop} {as : List α} {bs : List β}
    (h : List.Forall₂ R as bs) {a : α} (ha : a ∈ as) : ∃ b ∈ bs, R a b := by
  induction h with
  | nil => cases ha
  | cons hr _ ih =>
    rcases List.mem_cons.mp ha with rfl | ha
    · exact ⟨_, List.mem_cons_self, hr⟩
    · obtain ⟨b, hb, hab⟩ := ih ha
      exact ⟨b, List.mem_cons_of_mem _ hb, hab⟩

theorem Except.exists_of_mem_mapM {bs : List β}
    (h : as.mapM f = .ok bs) {b : β} (hb : b ∈ bs) : ∃ a ∈ as, f a = .ok b := by
  have hall := Except.mapM_eq_ok h
  clear h
  induction hall with
  | nil => cases hb
  | cons hab _ ih =>
    cases hb with
    | head => exact ⟨_, List.mem_cons_self, hab⟩
    | tail _ hb =>
      obtain ⟨a, ha, hf⟩ := ih hb
      exact ⟨a, List.mem_cons_of_mem _ ha, hf⟩

section LastWord
variable {ε σ κ : Type} {step : σ → κ → Except ε σ} {s s' : σ} {cs : List κ}

theorem foldlM_concat {c : κ} (h : (cs ++ [c]).foldlM step s = .ok s') :
    ∃ t, cs.foldlM step s = .ok t ∧ step t c = .ok s' := by
  rw [List.foldlM_append] at h
  obtain ⟨t, ht, hlast⟩ := Except.bind_eq_ok.mp h
  rw [List.foldlM_cons] at hlast
  obtain ⟨t', hstep, hnil⟩ := Except.bind_eq_ok.mp hlast
  exact ⟨t, ht, hstep.trans hnil⟩

theorem foldlM_keeps {I : σ → Prop} (hs : I s)
    (hstep : ∀ before c after t t', cs = before ++ c :: after → before.foldlM step s = .ok t →
      I t → step t c = .ok t' → I t')
    (h : cs.foldlM step s = .ok s') : I s' := by
  induction cs using List.reverseRecOn generalizing s' with
  | nil => exact Except.ok.inj h ▸ hs
  | append_singleton cs c ih =>
    obtain ⟨t, ht, hlast⟩ := foldlM_concat h
    refine hstep cs c [] t s' rfl ht (ih ?_ ht) hlast
    intro before d after u u' hsplit
    exact hstep before d (after ++ [c]) u u' (by rw [hsplit, List.append_assoc, List.cons_append])

theorem foldlM_last_iff {K : σ → Prop} {M : σ → κ → Prop} {T : κ → Prop}
    (hstep : ∀ before c after t t', cs = before ++ c :: after → before.foldlM step s = .ok t →
      step t c = .ok t' → (K t' ↔ M t c ∨ K t ∧ ¬T c))
    (h : cs.foldlM step s = .ok s') :
    K s' ↔ (K s ∧ ∀ c ∈ cs, ¬T c) ∨
      ∃ before c after t, cs = before ++ c :: after ∧ before.foldlM step s = .ok t ∧ M t c ∧
        ∀ d ∈ after, ¬T d := by
  induction cs using List.reverseRecOn generalizing s' with
  | nil =>
    obtain rfl : s = s' := Except.ok.inj h
    simp
  | append_singleton cs c ih =>
    obtain ⟨t, ht, hlast⟩ := foldlM_concat h
    have hbefore := ih (fun before d after u u' hsplit => hstep before d (after ++ [c]) u u'
      (by rw [hsplit, List.append_assoc, List.cons_append])) ht
    rw [hstep cs c [] t s' rfl ht hlast, hbefore]
    constructor
    · rintro (hmakes | ⟨⟨hs, hall⟩ | ⟨before, d, after, u, hsplit, hu, hmakes, hafter⟩, hc⟩)
      · exact .inr ⟨cs, c, [], t, rfl, ht, hmakes, nofun⟩
      · exact .inl ⟨hs, List.forall_mem_append.mpr ⟨hall, List.forall_mem_singleton.mpr hc⟩⟩
      · refine .inr ⟨before, d, after ++ [c], u, ?_, hu, hmakes, ?_⟩
        · rw [hsplit, List.append_assoc, List.cons_append]
        · exact List.forall_mem_append.mpr ⟨hafter, List.forall_mem_singleton.mpr hc⟩
    · rintro (⟨hs, hall⟩ | ⟨before, d, after, u, hsplit, hu, hmakes, hafter⟩)
      · obtain ⟨hall, hc⟩ := List.forall_mem_append.mp hall
        exact .inr ⟨.inl ⟨hs, hall⟩, hc c (List.mem_singleton_self c)⟩
      · rcases List.eq_nil_or_concat after with rfl | ⟨after, e, rfl⟩
        · obtain ⟨rfl, heq⟩ := List.append_inj' hsplit rfl
          obtain rfl := List.singleton_inj.mp heq
          exact .inl (Except.ok.inj (hu.symm.trans ht) ▸ hmakes)
        · rw [List.concat_eq_append, ← List.cons_append, ← List.append_assoc] at hsplit
          obtain ⟨rfl, heq⟩ := List.append_inj' hsplit rfl
          obtain rfl := List.singleton_inj.mp heq
          rw [List.concat_eq_append] at hafter
          obtain ⟨hafter, hc⟩ := List.forall_mem_append.mp hafter
          exact .inr ⟨.inr ⟨before, d, after, u, rfl, hu, hmakes, hafter⟩,
            hc c (List.mem_singleton_self c)⟩

end LastWord

namespace Program
variable {ε σ α β : Type} {I : σ → Prop} {E : ε → σ → Prop} {s : σ}

theorem wp_self (m : Program ε σ α) (s : σ) :
    wp m (fun a s' => m s = (.ok a, s')) (fun e s' => m s = (.error e, s')) s := by
  unfold wp
  cases m s with
  | mk r s' => cases r <;> rfl

theorem wp_of_eq {m : Program ε σ α} {Q : α → σ → Prop} {a : α} {s' : σ} (h : m s = (.ok a, s'))
    (hQ : Q a s') : wp m Q E s := by
  unfold wp
  rwa [h]

variable {f : α → Program ε σ PUnit} {as : List α}

theorem wp_forM
    (hf : ∀ a ∈ as, ∀ s, I s → wp (f a) (fun _ => I) E s) (hs : I s) :
    wp (as.forM f) (fun _ => I) E s := by
  induction as generalizing s with
  | nil => exact hs
  | cons a as ih =>
    show wp (f a >>= fun _ => as.forM f) _ E s
    rw [wp_bind]
    exact wp_mono (hf a (by simp) s hs)
      (fun _ s' hs' => ih (fun b hb => hf b (by simp [hb])) hs') fun _ _ he => he

theorem wp_forM_each {P : α → σ → Prop}
    (hf : ∀ a ∈ as, ∀ s, I s → wp (f a) (fun _ s' => I s' ∧ P a s' ∧ ∀ b, P b s → P b s') E s)
    (hs : I s) : wp (as.forM f) (fun _ s' => I s' ∧ ∀ a ∈ as, P a s') E s := by
  have hgeneral : ∀ s (done : List α), I s → (∀ a ∈ done, P a s) →
      wp (as.forM f) (fun _ s' => I s' ∧ ∀ a ∈ done ++ as, P a s') E s := by
    clear hs
    induction as with
    | nil =>
      intro s done hs hdone
      exact ⟨hs, by simpa using hdone⟩
    | cons a as ih =>
      intro s done hs hdone
      show wp (f a >>= fun _ => as.forM f) _ E s
      rw [wp_bind]
      refine wp_mono (hf a (by simp) s hs) ?_ fun _ _ he => he
      rintro _ s' ⟨hs', ha, hkept⟩
      have hrest := ih (fun b hb => hf b (by simp [hb])) s' (done ++ [a]) hs' (by
        intro b hb
        rcases List.mem_append.mp hb with hb | hb
        · exact hkept b (hdone b hb)
        · exact List.mem_singleton.mp hb ▸ ha)
      simpa using hrest
  simpa using hgeneral s [] hs (by simp)

theorem wp_foldlM {f : β → α → Program ε σ β} {b : β} {I : β → σ → Prop}
    (hstep : ∀ done a todo b' s', as = done ++ a :: todo →
      done.foldlM f b s = (.ok b', s') → I b' s' → wp (f b' a) I E s') (hs : I b s) :
    wp (as.foldlM f b) I E s := by
  have hgeneral : ∀ todo done b' s', as = done ++ todo → done.foldlM f b s = (.ok b', s') →
      I b' s' → wp (todo.foldlM f b') I E s' := by
    intro todo
    induction todo with
    | nil => exact fun _ _ _ _ _ hI => hI
    | cons a todo ih =>
      intro done b' s' has hdone hI
      rw [List.foldlM_cons, wp_bind]
      refine wp_mono (wp_and (hstep done a todo b' s' has hdone hI) (wp_self (f b' a) s')) ?_
        fun e u he => he.1
      intro c u hc
      refine ih (done ++ [a]) c u (by simp [has]) ?_ hc.1
      rw [List.foldlM_append]
      refine bind_eq_ok.mpr ⟨b', s', hdone, ?_⟩
      rw [List.foldlM_cons]
      exact bind_eq_ok.mpr ⟨c, u, hc.2, rfl⟩
  exact hgeneral as [] b s rfl rfl hs

end Program
end Ferrocrate.Lib
