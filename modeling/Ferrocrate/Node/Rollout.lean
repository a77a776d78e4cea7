import Ferrocrate.Node.Workload

/-! The loop of `rollout::plan`: when it ends, and what the plan then says. -/
namespace Ferrocrate.Node
open Lib

def planLoop (policy : RolloutPolicy) : Nat → List String → List String → Option (List RolloutStep)
  | 0, _, _ => none
  | rounds + 1, starts, stops =>
    if starts = [] ∧ stops = [] then some []
    else
      let started := startCount policy starts
      let stopped := stopCount policy starts stops
      (planLoop policy rounds (starts.drop started) (stops.drop stopped)).map
        (⟨starts.take started, stops.take stopped⟩ :: ·)

def planWithin (rounds : Nat) (current desired : List String) (policy : RolloutPolicy) :
    Option (Except RolloutError (List RolloutStep)) :=
  match uniqueSorted current with
  | .error e => some (.error e)
  | .ok current =>
    match uniqueSorted desired with
    | .error e => some (.error e)
    | .ok desired =>
      let starts := desired.filter (· ∉ current)
      let stops := current.filter (· ∉ desired)
      if starts = [] ∧ stops = [] then some (.ok [])
      else if starts ≠ [] ∧ policy.maxSurge = 0 then some (.error .zeroSurge)
      else if starts = [] ∧ stops ≠ [] ∧ policy.maxUnavailable = 0 then
        some (.error .zeroUnavailable)
      else (planLoop policy rounds starts stops).map .ok

def PlanReturns (current desired : List String) (policy : RolloutPolicy)
    (result : Except RolloutError (List RolloutStep)) : Prop :=
  ∃ rounds, planWithin rounds current desired policy = some result

/-! ## Rounds -/

def startRounds (policy : RolloutPolicy) (count : Nat) : Nat :=
  (count + policy.maxSurge - 1) / policy.maxSurge

def Progresses (policy : RolloutPolicy) (starts stops : List String) : Prop :=
  policy.maxUnavailable = 0 → stops.length ≤ startRounds policy starts.length

instance (policy : RolloutPolicy) (starts stops : List String) :
    Decidable (Progresses policy starts stops) :=
  inferInstanceAs (Decidable (_ → _))

variable {policy : RolloutPolicy} {starts stops : List String}

theorem startRounds_step (hsurge : policy.maxSurge ≠ 0) {count : Nat} (hcount : count ≠ 0) :
    startRounds policy count
      = startRounds policy (count - min policy.maxSurge count) + 1 := by
  have hpos : 0 < policy.maxSurge := Nat.pos_of_ne_zero hsurge
  unfold startRounds
  by_cases hle : count ≤ policy.maxSurge
  · rw [Nat.min_eq_right hle, Nat.sub_self, Nat.zero_add,
      Nat.div_eq_of_lt (Nat.sub_lt hpos Nat.one_pos)]
    have hsplit : count + policy.maxSurge - 1 = (count - 1) + policy.maxSurge := by omega
    rw [hsplit, Nat.add_div_right _ hpos, Nat.div_eq_of_lt (by omega)]
  · have hsplit : count + policy.maxSurge - 1
        = (count - policy.maxSurge + policy.maxSurge - 1) + policy.maxSurge := by omega
    rw [Nat.min_eq_left (by omega), hsplit, Nat.add_div_right _ hpos]

theorem startRounds_zero : startRounds policy 0 = 0 := by
  rw [startRounds, Nat.zero_add]
  by_cases hsurge : policy.maxSurge = 0
  · rw [hsurge]
  · exact Nat.div_eq_of_lt (Nat.sub_lt (Nat.pos_of_ne_zero hsurge) Nat.one_pos)

theorem startCount_pos (hsurge : policy.maxSurge ≠ 0) (hstarts : starts ≠ []) :
    0 < startCount policy starts := by
  have hlen := List.length_pos_of_ne_nil hstarts
  rw [startCount, if_neg hstarts]
  omega

theorem progresses_step (hsurge : starts ≠ [] → policy.maxSurge ≠ 0) (hstarts : starts ≠ []) :
    Progresses policy (starts.drop (startCount policy starts))
        (stops.drop (stopCount policy starts stops)) ↔
      Progresses policy starts stops := by
  have hrounds := startRounds_step (hsurge hstarts)
    (Nat.ne_of_gt (List.length_pos_of_ne_nil hstarts))
  have hpos := startCount_pos (hsurge hstarts) hstarts
  have hstarted : startCount policy starts = min policy.maxSurge starts.length := if_neg hstarts
  refine forall_congr' fun hzero => ?_
  rw [List.length_drop, List.length_drop, hrounds, ← hstarted]
  by_cases hstops : stops = []
  · simp [hstops]
  · have hlen := List.length_pos_of_ne_nil hstops
    rw [stopCount, if_neg hstops, if_pos hpos, hzero]
    omega

theorem planLoop_ends (hsurge : starts ≠ [] → policy.maxSurge ≠ 0)
    (h : Progresses policy starts stops)
    (hstop : starts = [] → stops ≠ [] → policy.maxUnavailable ≠ 0) :
    ∃ rounds steps, planLoop policy rounds starts stops = some steps := by
  induction hsize : starts.length + stops.length using Nat.strong_induction_on
    generalizing starts stops with
  | _ size ih =>
    by_cases hdone : starts = [] ∧ stops = []
    · exact ⟨1, [], by rw [planLoop, if_pos hdone]⟩
    have hnext : ∃ rounds steps, planLoop policy rounds (starts.drop (startCount policy starts))
        (stops.drop (stopCount policy starts stops)) = some steps := by
      by_cases hstarts : starts = []
      · have hstops : stops ≠ [] := fun heq => hdone ⟨hstarts, heq⟩
        have hunavailable := hstop hstarts hstops
        have hlen := List.length_pos_of_ne_nil hstops
        have hcount : stopCount policy starts stops = min policy.maxUnavailable stops.length := by
          rw [stopCount, if_neg hstops, startCount, if_pos hstarts, if_neg (Nat.lt_irrefl 0)]
        subst hstarts
        refine ih _ ?_ (fun hne => absurd List.drop_nil hne) ?_ (fun _ _ => hunavailable) rfl
        · rw [List.drop_nil, List.length_drop, hcount, ← hsize]
          simp only [List.length_nil]
          omega
        · exact fun hzero => absurd hzero hunavailable
      · have hpos := startCount_pos (hsurge hstarts) hstarts
        have hlen := List.length_pos_of_ne_nil hstarts
        refine ih _ ?_ (fun _ => hsurge hstarts) ((progresses_step hsurge hstarts).mpr h) ?_ rfl
        · rw [List.length_drop, List.length_drop, ← hsize]
          omega
        · intro hnone hsome hzero
          have hbalanced := (progresses_step hsurge hstarts).mpr h hzero
          rw [hnone, List.length_nil, startRounds_zero] at hbalanced
          exact hsome (List.length_eq_zero_iff.mp (Nat.le_zero.mp hbalanced))
    obtain ⟨rounds, steps, hsteps⟩ := hnext
    exact ⟨rounds + 1, _, by rw [planLoop, if_neg hdone]; simp only [hsteps]; rfl⟩

theorem planLoop_never (hsurge : starts ≠ [] → policy.maxSurge ≠ 0)
    (h : ¬ Progresses policy starts stops) (rounds : Nat) :
    planLoop policy rounds starts stops = none := by
  induction rounds generalizing starts stops with
  | zero => rfl
  | succ rounds ih =>
    obtain ⟨hzero, hmore⟩ := Classical.not_imp.mp h
    have hstops : stops ≠ [] := by
      rintro rfl
      exact hmore (Nat.zero_le _)
    have hrest : planLoop policy rounds (starts.drop (startCount policy starts))
        (stops.drop (stopCount policy starts stops)) = none := by
      by_cases hstarts : starts = []
      · have hcount : stopCount policy starts stops = 0 := by
          rw [stopCount, if_neg hstops, startCount, if_pos hstarts, if_neg (Nat.lt_irrefl 0), hzero,
            Nat.zero_min]
        rw [hcount, startCount, if_pos hstarts, List.drop_zero, List.drop_zero]
        exact ih hsurge h
      · exact ih (fun _ => hsurge hstarts) fun hnext =>
          h ((progresses_step hsurge hstarts).mp hnext)
    rw [planLoop, if_neg fun hdone => hstops hdone.2]
    simp only [hrest]
    rfl

theorem planLoop_stuck (hdone : ¬ (starts = [] ∧ stops = []))
    (hstarted : startCount policy starts = 0) (hstopped : stopCount policy starts stops = 0)
    (rounds : Nat) : planLoop policy rounds starts stops = none := by
  induction rounds with
  | zero => rfl
  | succ rounds ih =>
    rw [planLoop, if_neg hdone]
    simp only [hstarted, hstopped, List.drop_zero, ih]
    rfl

/-! ## The steps of a plan -/

structure RolloutStep.Bounded (policy : RolloutPolicy) (step : RolloutStep) : Prop where
  start : step.start.length ≤ policy.maxSurge
  stop : step.stop.length ≤ max policy.maxUnavailable 1
  nonempty : step.start ≠ [] ∨ step.stop ≠ []

theorem startCount_le : startCount policy starts ≤ policy.maxSurge := by
  unfold startCount
  split
  · exact Nat.zero_le _
  · exact Nat.min_le_left _ _

theorem stopCount_le : stopCount policy starts stops ≤ max policy.maxUnavailable 1 := by
  unfold stopCount
  split
  · exact Nat.zero_le _
  · split
    · exact Nat.min_le_left _ _
    · exact (Nat.min_le_left _ _).trans (Nat.le_max_left _ _)

variable {steps : List RolloutStep}

theorem planLoop_steps {rounds : Nat}
    (h : planLoop policy rounds starts stops = some steps) :
    steps.flatMap RolloutStep.start = starts ∧ steps.flatMap RolloutStep.stop = stops ∧
      ∀ step ∈ steps, step.Bounded policy := by
  induction rounds generalizing starts stops steps with
  | zero => cases h
  | succ rounds ih =>
    rw [planLoop] at h
    split at h
    next hdone =>
      obtain rfl := Option.some.inj h
      exact ⟨hdone.1.symm, hdone.2.symm, fun _ hstep => nomatch hstep⟩
    next hdone =>
      obtain ⟨rest, hrest, rfl⟩ := Option.map_eq_some_iff.mp h
      obtain ⟨hstart, hstop, hbounded⟩ := ih hrest
      have hnonempty : starts.take (startCount policy starts) ≠ [] ∨
          stops.take (stopCount policy starts stops) ≠ [] := by
        by_contra hempty
        obtain ⟨hstarts, hstops⟩ := not_or.mp hempty
        have hstarted : startCount policy starts = 0 := by
          rcases List.take_eq_nil_iff.mp (not_not.mp hstarts) with hzero | hnil
          · exact hzero
          · exact if_pos hnil
        have hstopped : stopCount policy starts stops = 0 := by
          rcases List.take_eq_nil_iff.mp (not_not.mp hstops) with hzero | hnil
          · exact hzero
          · exact if_pos hnil
        rw [hstarted, hstopped, List.drop_zero, List.drop_zero,
          planLoop_stuck hdone hstarted hstopped] at hrest
        cases hrest
      refine ⟨?_, ?_, fun step hstep => ?_⟩
      · rw [List.flatMap_cons, hstart, List.take_append_drop]
      · rw [List.flatMap_cons, hstop, List.take_append_drop]
      · cases List.mem_cons.mp hstep with
        | inr hrest => exact hbounded step hrest
        | inl hfirst =>
          rw [hfirst]
          exact {
            start := (List.length_take_le _ _).trans startCount_le
            stop := (List.length_take_le _ _).trans stopCount_le
            nonempty := hnonempty }

/-! ## The order of the input -/

variable {ids ids' : List String}

theorem insertionSort_perm (h : ids'.Perm ids) :
    ids'.insertionSort (· ≤ ·) = ids.insertionSort (· ≤ ·) := by
  have hperm := ((List.perm_insertionSort (· ≤ ·) ids').trans h).trans
    (List.perm_insertionSort (· ≤ ·) ids).symm
  exact hperm.eq_of_pairwise (fun a b _ _ hab hba => le_antisymm hab hba)
    (List.pairwise_insertionSort _ _) (List.pairwise_insertionSort _ _)

theorem uniqueSorted_perm (h : ids'.Perm ids) :
    uniqueSorted ids' = uniqueSorted ids := by
  rw [uniqueSorted, uniqueSorted, insertionSort_perm h, h.any_eq]
  simp only [h.nodup_iff]

theorem filter_insertionSort (p : String → Bool) (ids : List String) :
    (ids.insertionSort (· ≤ ·)).filter p = (ids.filter p).insertionSort (· ≤ ·) := by
  have hperm := ((List.perm_insertionSort (· ≤ ·) ids).filter p).trans
    (List.perm_insertionSort (· ≤ ·) (ids.filter p)).symm
  exact hperm.eq_of_pairwise (fun a b _ _ hab hba => le_antisymm hab hba)
    ((List.pairwise_insertionSort _ _).filter _) (List.pairwise_insertionSort _ _)

def sortedMinus (ids others : List String) : List String :=
  (ids.filter (· ∉ others)).insertionSort (· ≤ ·)

theorem sortedMinus_sorted (ids others : List String) :
    (ids.insertionSort (· ≤ ·)).filter (· ∉ others.insertionSort (· ≤ ·))
      = sortedMinus ids others := by
  rw [filter_insertionSort, sortedMinus]
  simp only [List.mem_insertionSort]

theorem planWithin_perm {current current' desired desired' : List String}
    (hcurrent : current'.Perm current) (hdesired : desired'.Perm desired) (rounds : Nat) :
    planWithin rounds current' desired' policy = planWithin rounds current desired policy := by
  rw [planWithin, planWithin, uniqueSorted_perm hcurrent, uniqueSorted_perm hdesired]

/-! ## What `plan` returns -/

theorem planLoop_succ {rounds : Nat}
    (h : planLoop policy rounds starts stops = some steps) :
    planLoop policy (rounds + 1) starts stops = some steps := by
  induction rounds generalizing starts stops steps with
  | zero => cases h
  | succ rounds ih =>
    rw [planLoop] at h ⊢
    split at h
    next hdone => rwa [if_pos hdone]
    next hdone =>
      obtain ⟨rest, hrest, rfl⟩ := Option.map_eq_some_iff.mp h
      rw [if_neg hdone]
      simp only [ih hrest]
      rfl

theorem planLoop_le {rounds rounds' : Nat} (hle : rounds ≤ rounds')
    (h : planLoop policy rounds starts stops = some steps) :
    planLoop policy rounds' starts stops = some steps := by
  induction hle with
  | refl => exact h
  | step _ ih => exact planLoop_succ ih

variable {current desired : List String}

theorem planWithin_le {rounds rounds' : Nat}
    {result : Except RolloutError (List RolloutStep)} (hle : rounds ≤ rounds')
    (h : planWithin rounds current desired policy = some result) :
    planWithin rounds' current desired policy = some result := by
  unfold planWithin at h ⊢
  cases hcurrent : uniqueSorted current with
  | error e => simpa only [hcurrent] using h
  | ok current' =>
    simp only [hcurrent] at h ⊢
    cases hdesired : uniqueSorted desired with
    | error e => simpa only [hdesired] using h
    | ok desired' =>
      simp only [hdesired] at h ⊢
      split at h
      next hnone => rwa [if_pos hnone]
      next hnone =>
        rw [if_neg hnone]
        split at h
        next hsurge => rwa [if_pos hsurge]
        next hsurge =>
          rw [if_neg hsurge]
          split at h
          next hunavailable => rwa [if_pos hunavailable]
          next hunavailable =>
            rw [if_neg hunavailable]
            obtain ⟨steps, hsteps, rfl⟩ := Option.map_eq_some_iff.mp h
            rw [planLoop_le hle hsteps]
            rfl

theorem PlanReturns.unique
    {result result' : Except RolloutError (List RolloutStep)}
    (h : PlanReturns current desired policy result)
    (h' : PlanReturns current desired policy result') : result = result' := by
  obtain ⟨rounds, h⟩ := h
  obtain ⟨rounds', h'⟩ := h'
  have hmax := planWithin_le (Nat.le_max_left rounds rounds') h
  exact Option.some.inj (hmax.symm.trans (planWithin_le (Nat.le_max_right rounds rounds') h'))

/-! ## The plan of the supervisor -/

theorem planSteps_of_planLoop {rounds fuel : Nat}
    (h : planLoop policy rounds starts stops = some steps)
    (hfuel : starts.length + stops.length ≤ fuel) : planSteps policy fuel starts stops = steps := by
  induction rounds generalizing starts stops steps fuel with
  | zero => cases h
  | succ rounds ih =>
    rw [planLoop] at h
    split_ifs at h with hdone
    · obtain ⟨rfl, rfl⟩ := hdone
      cases h
      cases fuel <;> simp [planSteps]
    · obtain ⟨rest, hrest, rfl⟩ := Option.map_eq_some_iff.mp h
      have hmoves : ¬ (startCount policy starts = 0 ∧ stopCount policy starts stops = 0) := by
        rintro ⟨hstarted, hstopped⟩
        rw [hstarted, hstopped, List.drop_zero, List.drop_zero,
          planLoop_stuck hdone hstarted hstopped] at hrest
        cases hrest
      have hlengths : starts.length + stops.length ≠ 0 := by simpa using hdone
      have hstarted : startCount policy starts ≤ starts.length := by
        unfold startCount
        split <;> omega
      have hstopped : stopCount policy starts stops ≤ stops.length := by
        unfold stopCount
        split_ifs <;> omega
      obtain ⟨fuel, rfl⟩ := Nat.exists_eq_succ_of_ne_zero (show fuel ≠ 0 by omega)
      rw [planSteps, if_neg hdone]
      simp only [List.cons.injEq, true_and]
      apply ih hrest
      simp only [List.length_drop]
      omega

/-- Where the loop of `plan` ends, the supervisor's plan is its result. -/
theorem PlanReturns.plan_eq {result : Except RolloutError (List RolloutStep)}
    (h : PlanReturns current desired policy result) : plan current desired policy = result := by
  obtain ⟨rounds, h⟩ := h
  unfold planWithin at h
  unfold plan
  dsimp only [bind, Except.bind]
  cases hcurrent : uniqueSorted current with
  | error e =>
    rw [hcurrent] at h
    exact Option.some.inj h
  | ok current =>
    cases hdesired : uniqueSorted desired with
    | error e =>
      simp only [hcurrent, hdesired] at h
      exact Option.some.inj h
    | ok desired =>
      simp only [hcurrent, hdesired] at h
      dsimp only
      split_ifs at h with hnone hsurge hunavailable
      · rw [hnone.1, hnone.2, if_neg (by simp), if_neg (by simp)]
        exact Option.some.inj h
      · rw [if_pos hsurge]
        exact Option.some.inj h
      · rw [if_neg hsurge, if_pos hunavailable]
        exact Option.some.inj h
      · obtain ⟨steps, hsteps, rfl⟩ := Option.map_eq_some_iff.mp h
        rw [if_neg hsurge, if_neg hunavailable, planSteps_of_planLoop hsteps le_rfl]
        rfl

/-! ## What a plan says -/

structure PlanSound (current desired : List String) (policy : RolloutPolicy)
    (steps : List RolloutStep) : Prop where
  starts : steps.flatMap RolloutStep.start = sortedMinus desired current
  stops : steps.flatMap RolloutStep.stop = sortedMinus current desired
  bounded : ∀ step ∈ steps, step.Bounded policy

theorem PlanReturns.sound
    (h : PlanReturns current desired policy (.ok steps)) :
    PlanSound current desired policy steps := by
  obtain ⟨rounds, h⟩ := h
  unfold planWithin at h
  cases hcurrent : uniqueSorted current with
  | error e =>
    rw [hcurrent] at h
    cases h
  | ok current' =>
    simp only [hcurrent] at h
    cases hdesired : uniqueSorted desired with
    | error e =>
      rw [hdesired] at h
      cases h
    | ok desired' =>
      obtain ⟨-, rfl⟩ := uniqueSorted_eq_ok hcurrent
      obtain ⟨-, rfl⟩ := uniqueSorted_eq_ok hdesired
      simp only [hdesired, sortedMinus_sorted] at h
      split at h
      next hnone =>
        obtain rfl := Except.ok.inj (Option.some.inj h)
        exact ⟨hnone.1.symm, hnone.2.symm, fun _ hstep => nomatch hstep⟩
      next =>
        split at h
        · cases h
        · split at h
          · cases h
          · obtain ⟨steps', hsteps, heq⟩ := Option.map_eq_some_iff.mp h
            obtain rfl := Except.ok.inj heq
            obtain ⟨hstart, hstop, hbounded⟩ := planLoop_steps hsteps
            exact ⟨hstart, hstop, hbounded⟩

/-- Of the ids that `plan` accepts, not more are to be stopped than there are rounds that start
something, unless some may be unavailable. -/
def PlanBalanced (current desired : List String) (policy : RolloutPolicy) : Prop :=
  current.any isBlank = false → current.Nodup → desired.any isBlank = false → desired.Nodup →
    desired.filter (· ∉ current) ≠ [] → policy.maxSurge ≠ 0 →
      Progresses policy (desired.filter (· ∉ current)) (current.filter (· ∉ desired))

/-- `plan` comes back, with one result whatever the order of the ids, and a plan is sound. -/
def PlanCorrect (current desired : List String) (policy : RolloutPolicy) : Prop :=
  ∃ result, (∀ steps, result = .ok steps → PlanSound current desired policy steps) ∧
    ∀ current' desired' result', current'.Perm current → desired'.Perm desired →
      (PlanReturns current' desired' policy result' ↔ result' = result)

theorem planCorrect_iff_returns :
    PlanCorrect current desired policy ↔ ∃ result, PlanReturns current desired policy result := by
  constructor
  · rintro ⟨result, -, hreturns⟩
    exact ⟨result, (hreturns current desired result (.refl _) (.refl _)).mpr rfl⟩
  · rintro ⟨result, hresult⟩
    refine ⟨result, ?_, fun current' desired' result' hcurrent hdesired => ?_⟩
    · rintro steps rfl
      exact hresult.sound
    · have hsame : PlanReturns current' desired' policy result' ↔
          PlanReturns current desired policy result' :=
        exists_congr fun rounds => by rw [planWithin_perm hcurrent hdesired]
      rw [hsame]
      constructor
      · exact fun h => h.unique hresult
      · rintro rfl
        exact hresult

theorem uniqueSorted_ok {ids : List String} (hblank : ids.any isBlank = false)
    (hnodup : ids.Nodup) : uniqueSorted ids = .ok (ids.insertionSort (· ≤ ·)) := by
  rw [uniqueSorted, hblank, if_neg Bool.false_ne_true, if_neg (not_not.mpr hnodup)]

theorem not_isBlank_of_uniqueSorted {ids sorted : List String} (h : uniqueSorted ids = .ok sorted) :
    ids.any isBlank = false :=
  Bool.eq_false_iff.mpr (Except.ite_error_eq_ok.mp h).1

theorem length_sortedMinus (ids others : List String) :
    (sortedMinus ids others).length = (ids.filter (· ∉ others)).length :=
  List.length_insertionSort _ _

theorem sortedMinus_eq_nil {ids others : List String} :
    sortedMinus ids others = [] ↔ ids.filter (· ∉ others) = [] := by
  rw [← List.length_eq_zero_iff, length_sortedMinus, List.length_eq_zero_iff]

theorem progresses_sortedMinus :
    Progresses policy (sortedMinus desired current) (sortedMinus current desired) ↔
      Progresses policy (desired.filter (· ∉ current)) (current.filter (· ∉ desired)) := by
  rw [Progresses, Progresses, length_sortedMinus, length_sortedMinus]

theorem planWithin_accepted (policy : RolloutPolicy)
    (hcurrent : uniqueSorted current = .ok (current.insertionSort (· ≤ ·)))
    (hdesired : uniqueSorted desired = .ok (desired.insertionSort (· ≤ ·))) (rounds : Nat) :
    planWithin rounds current desired policy =
      if sortedMinus desired current = [] ∧ sortedMinus current desired = [] then some (.ok [])
      else if sortedMinus desired current ≠ [] ∧ policy.maxSurge = 0 then some (.error .zeroSurge)
      else if sortedMinus desired current = [] ∧ sortedMinus current desired ≠ [] ∧
          policy.maxUnavailable = 0 then some (.error .zeroUnavailable)
      else (planLoop policy rounds (sortedMinus desired current)
        (sortedMinus current desired)).map .ok := by
  rw [planWithin, hcurrent, hdesired]
  simp only [sortedMinus_sorted]

/-- `plan` is correct exactly on the balanced inputs. -/
theorem plan_correct_iff (current desired : List String) (policy : RolloutPolicy) :
    PlanCorrect current desired policy ↔ PlanBalanced current desired policy := by
  rw [planCorrect_iff_returns]
  cases hcurrent : uniqueSorted current with
  | error e =>
    refine iff_of_true ⟨.error e, 0, by rw [planWithin, hcurrent]⟩ fun hblank hnodup => ?_
    cases hcurrent.symm.trans (uniqueSorted_ok hblank hnodup)
  | ok current' =>
    cases hdesired : uniqueSorted desired with
    | error e =>
      refine iff_of_true ⟨.error e, 0, by rw [planWithin, hcurrent, hdesired]⟩
        fun _ _ hblank hnodup => ?_
      cases hdesired.symm.trans (uniqueSorted_ok hblank hnodup)
    | ok desired' =>
      obtain ⟨hcurrentNodup, rfl⟩ := uniqueSorted_eq_ok hcurrent
      obtain ⟨hdesiredNodup, rfl⟩ := uniqueSorted_eq_ok hdesired
      have hwithin := planWithin_accepted policy hcurrent hdesired
      constructor
      · rintro ⟨result, rounds, hresult⟩ - - - - hstarts hsurge
        by_contra hnot
        rw [← progresses_sortedMinus] at hnot
        replace hstarts := mt sortedMinus_eq_nil.mp hstarts
        rw [hwithin, if_neg fun hnone => hstarts hnone.1, if_neg fun hzero => hsurge hzero.2,
          if_neg fun hnone => hstarts hnone.1, planLoop_never (fun _ => hsurge) hnot] at hresult
        cases hresult
      · intro hbalanced
        by_cases hnone : sortedMinus desired current = [] ∧ sortedMinus current desired = []
        · exact ⟨_, 0, by rw [hwithin, if_pos hnone]⟩
        by_cases hsurge : sortedMinus desired current ≠ [] ∧ policy.maxSurge = 0
        · exact ⟨_, 0, by rw [hwithin, if_neg hnone, if_pos hsurge]⟩
        by_cases hunavailable : sortedMinus desired current = [] ∧
            sortedMinus current desired ≠ [] ∧ policy.maxUnavailable = 0
        · exact ⟨_, 0, by rw [hwithin, if_neg hnone, if_neg hsurge, if_pos hunavailable]⟩
        have hprogresses : Progresses policy (sortedMinus desired current)
            (sortedMinus current desired) := by
          by_cases hstarts : sortedMinus desired current = []
          · intro hzero
            by_contra hmore
            refine hunavailable ⟨hstarts, fun hstops => hmore ?_, hzero⟩
            rw [hstops]
            exact Nat.zero_le _
          · rw [progresses_sortedMinus]
            exact hbalanced (not_isBlank_of_uniqueSorted hcurrent) hcurrentNodup
              (not_isBlank_of_uniqueSorted hdesired) hdesiredNodup
              (mt sortedMinus_eq_nil.mpr hstarts) fun hzero => hsurge ⟨hstarts, hzero⟩
        obtain ⟨rounds, steps, hsteps⟩ := planLoop_ends
          (fun hstarts hzero => hsurge ⟨hstarts, hzero⟩) hprogresses
          fun hstarts hstops hzero => hunavailable ⟨hstarts, hstops, hzero⟩
        refine ⟨.ok steps, rounds, ?_⟩
        rw [hwithin, if_neg hnone, if_neg hsurge, if_neg hunavailable, hsteps]
        rfl

/-- Two instances to stop, one to start, and none may be unavailable. -/
theorem plan_never_returns :
    ¬ PlanCorrect ["a", "b"] ["c"] ⟨1, 0⟩ := by
  rw [planCorrect_iff_returns]
  rintro ⟨result, rounds, hresult⟩
  have hcurrent : uniqueSorted ["a", "b"] = .ok ["a", "b"] := by decide +kernel
  have hdesired : uniqueSorted ["c"] = .ok ["c"] := by decide +kernel
  have hnever : planLoop ⟨1, 0⟩ rounds ["c"] ["a", "b"] = none :=
    planLoop_never (fun _ => Nat.one_ne_zero) (by decide +kernel) rounds
  have hwithin : planWithin rounds ["a", "b"] ["c"] ⟨1, 0⟩
      = (planLoop ⟨1, 0⟩ rounds ["c"] ["a", "b"]).map .ok := by
    rw [planWithin, hcurrent, hdesired]
    rfl
  rw [hwithin, hnever] at hresult
  cases hresult

end Ferrocrate.Node
