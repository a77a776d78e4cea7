import Ferrocrate.Node.Placement

/-! The catalog of some instances resolves a service to the endpoints of its instances. -/
namespace Ferrocrate.Node
open Lib

variable {views done : List InstanceView} {now : Int64} {c c' : ServiceCatalog}
  {service id : String}
  {view : InstanceView} {e : Endpoint}

def ServiceCatalog.at? (c : ServiceCatalog) (service id : String) : Option Endpoint :=
  ((c.services.get service).getD .empty).get id

theorem publish_eq_ok (h : c.publish service e now = .ok c') :
    now < e.expiresAtUnix ∧ ∀ service' id', c'.at? service' id'
      = if service' = service ∧ id' = e.taskId then some e else c.at? service' id' := by
  obtain ⟨-, h⟩ := Except.ite_error_eq_ok.mp h
  obtain ⟨-, h⟩ := Except.ite_error_eq_ok.mp h
  obtain ⟨-, h⟩ := Except.ite_error_eq_ok.mp h
  obtain ⟨hlease, h⟩ := Except.ite_error_eq_ok.mp h
  cases h
  refine ⟨by simpa using hlease, fun service' id' => ?_⟩
  simp only [ServiceCatalog.at?, OrdMap.get_insert]
  by_cases hservice : service' = service
  · subst hservice
    simp [OrdMap.get_insert]
  · simp [hservice]

structure Lists (c : ServiceCatalog) (views : List InstanceView) (now : Int64) : Prop where
  lease : ∀ view ∈ views, ∀ e, view.endpoint? now = some e → now < e.expiresAtUnix
  at?_iff : ∀ service id e, c.at? service id = some e ↔ ∃ view ∈ views,
    view.service = service ∧ view.instanceId = id ∧ view.endpoint? now = some e

theorem endpoint?_eq_some (h : view.endpoint? now = some e) :
    e.taskId = view.instanceId ∧ e.healthy = true := by
  unfold InstanceView.endpoint? at h
  split at h
  · obtain ⟨address, -, rfl⟩ := Option.map_eq_some_iff.mp h
    exact ⟨rfl, rfl⟩
  · cases h

theorem Lists.snoc (hl : Lists c done now) (hfresh : view.instanceId ∉ done.map (·.instanceId))
    (h : publishView now c view = .ok c') : Lists c' (done ++ [view]) now := by
  unfold publishView at h
  cases hend : view.endpoint? now with
  | none =>
    rw [hend] at h
    cases h
    refine ⟨fun v hv e he => ?_, fun service id e => ?_⟩
    · rcases List.mem_append.mp hv with hv | hv
      · exact hl.lease v hv e he
      · rw [List.mem_singleton.mp hv, hend] at he
        cases he
    · rw [hl.at?_iff service id e]
      simp [hend]
  | some endpoint =>
    rw [hend] at h
    obtain ⟨hlease, hget⟩ := publish_eq_ok h
    obtain ⟨htask, -⟩ := endpoint?_eq_some hend
    refine ⟨fun v hv e he => ?_, fun service id e => ?_⟩
    · rcases List.mem_append.mp hv with hv | hv
      · exact hl.lease v hv e he
      · rw [List.mem_singleton.mp hv, hend] at he
        cases he
        exact hlease
    rw [hget, htask]
    by_cases hat : service = view.service ∧ id = view.instanceId
    · obtain ⟨rfl, rfl⟩ := hat
      rw [if_pos ⟨rfl, rfl⟩]
      constructor
      · intro he
        cases he
        exact ⟨view, by simp, rfl, rfl, hend⟩
      · rintro ⟨v, hv, -, hid, hv_end⟩
        rcases List.mem_append.mp hv with hv | hv
        · exact absurd (hid ▸ List.mem_map_of_mem hv) hfresh
        · rw [List.mem_singleton.mp hv, hend] at hv_end
          exact hv_end
    · rw [if_neg hat, hl.at?_iff service id e]
      constructor
      · rintro ⟨v, hv, hrest⟩
        exact ⟨v, List.mem_append_left _ hv, hrest⟩
      · rintro ⟨v, hv, hservice, hid, hv_end⟩
        rcases List.mem_append.mp hv with hv | hv
        · exact ⟨v, hv, hservice, hid, hv_end⟩
        · rw [List.mem_singleton.mp hv] at hservice hid
          exact absurd ⟨hservice.symm, hid.symm⟩ hat

theorem lists_foldlM {todo : List InstanceView} (hl : Lists c done now)
    (hnodup : ((done ++ todo).map (·.instanceId)).Nodup)
    (h : todo.foldlM (publishView now) c = .ok c') : Lists c' (done ++ todo) now := by
  induction todo generalizing done c with
  | nil =>
    cases h
    rwa [List.append_nil]
  | cons view todo ih =>
    rw [List.foldlM_cons] at h
    obtain ⟨c₁, hc₁, h⟩ := Except.bind_eq_ok.mp h
    have hsplit : done ++ view :: todo = (done ++ [view]) ++ todo := by simp
    rw [hsplit] at hnodup ⊢
    refine ih (hl.snoc ?_ hc₁) hnodup h
    intro hmem
    rw [List.map_append, List.map_append, List.nodup_append] at hnodup
    exact (List.nodup_append.mp hnodup.1).2.2 _ hmem _ (by simp) rfl

theorem lists_buildCatalog (hnodup : (views.map (·.instanceId)).Nodup)
    (h : buildCatalog views now = .ok c) : Lists c views now := by
  have hempty : Lists .empty [] now :=
    ⟨by simp, fun service id e => by simp [ServiceCatalog.at?, ServiceCatalog.empty]⟩
  exact lists_foldlM hempty hnodup h

theorem mem_resolve (hlists : Lists c views now) :
    e ∈ (c.resolve service now).1 ↔
      ∃ view ∈ views, view.service = service ∧ view.endpoint? now = some e := by
  unfold ServiceCatalog.resolve
  cases hget : c.services.get service with
  | none =>
    simp only [List.not_mem_nil, false_iff]
    rintro ⟨view, hview, hservice, hend⟩
    have hat := (hlists.at?_iff service view.instanceId e).mpr ⟨view, hview, hservice, rfl, hend⟩
    simp [ServiceCatalog.at?, hget] at hat
  | some endpoints =>
    have hat : ∀ id, c.at? service id = endpoints.get id := fun id => by
      simp [ServiceCatalog.at?, hget]
    simp only [List.mem_filter, List.mem_map, Prod.exists, exists_eq_right]
    simp only [← OrdMap.get_eq_some_iff, OrdMap.get_retain, Option.filter_eq_some_iff, ← hat,
      hlists.at?_iff, decide_eq_true_eq]
    constructor
    · rintro ⟨⟨id, ⟨view, hview, hservice, -, hend⟩, -⟩, -⟩
      exact ⟨view, hview, hservice, hend⟩
    · rintro ⟨view, hview, hservice, hend⟩
      exact ⟨⟨view.instanceId, ⟨view, hview, hservice, rfl, hend⟩, hlists.lease view hview e hend⟩,
        (endpoint?_eq_some hend).2⟩

theorem pairwise_resolve (hlists : Lists c views now) :
    (c.resolve service now).1.Pairwise fun a b => a.taskId < b.taskId := by
  unfold ServiceCatalog.resolve
  cases hget : c.services.get service with
  | none => exact List.Pairwise.nil
  | some endpoints =>
    have hkey : ∀ entry ∈ endpoints.entries, entry.2.taskId = entry.1 := by
      rintro ⟨id, e⟩ hmem
      have hat : c.at? service id = some e := by
        simp only [ServiceCatalog.at?, hget, Option.getD_some]
        exact endpoints.get_eq_some_iff.mpr hmem
      obtain ⟨view, -, -, hid, hend⟩ := (hlists.at?_iff service id e).mp hat
      rw [(endpoint?_eq_some hend).1, hid]
    refine List.Pairwise.filter _ (List.pairwise_map.mpr ?_)
    refine ((endpoints.sorted.filter _).imp_of_mem ?_)
    intro a b ha hb hab
    rw [hkey a (List.mem_filter.mp ha).1, hkey b (List.mem_filter.mp hb).1]
    exact hab

theorem resolve_buildCatalog (hsorted : views.Pairwise fun a b => a.instanceId < b.instanceId)
    (h : buildCatalog views now = .ok c) :
    (c.resolve service now).1
      = (views.filter fun view => view.service = service).filterMap (·.endpoint? now) := by
  have hlists := lists_buildCatalog (List.pairwise_map.mpr (hsorted.imp ne_of_lt)) h
  have hleft : (c.resolve service now).1.Pairwise _ := pairwise_resolve hlists
  have hright : ((views.filter fun view => view.service = service).filterMap
      (·.endpoint? now)).Pairwise fun a b => a.taskId < b.taskId := by
    refine List.pairwise_filterMap.mpr ((hsorted.filter _).imp ?_)
    intro a b hab x hx y hy
    rw [(endpoint?_eq_some hx).1, (endpoint?_eq_some hy).1]
    exact hab
  have hne {a b : Endpoint} (hab : a.taskId < b.taskId) : a ≠ b := by
    rintro rfl
    exact lt_irrefl _ hab
  refine ((List.perm_ext_iff_of_nodup (hleft.imp hne) (hright.imp hne)).mpr fun e => ?_).eq_of_pairwise
    (fun _ _ _ _ hab hba => absurd hba hab.asymm) hleft hright
  rw [mem_resolve hlists]
  simp only [List.mem_filterMap, List.mem_filter, decide_eq_true_eq]
  constructor
  · rintro ⟨view, hview, hservice, hend⟩
    exact ⟨view, ⟨hview, hservice⟩, hend⟩
  · rintro ⟨view, ⟨hview, hservice⟩, hend⟩
    exact ⟨view, hview, hservice, hend⟩

end Ferrocrate.Node
