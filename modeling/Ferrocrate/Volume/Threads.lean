import Ferrocrate.Lib.Runs
import Ferrocrate.Volume.Permits
import Mathlib.Data.Fin.VecNotation
import Mathlib.Data.Fintype.Basic

/-! The calls that create and remove volumes (`volume_store.rs`), at the grain of the lock of the
database and the calls of the file system: what threads leave of each other's directories and of
the records. -/
namespace Ferrocrate.Volume
open Lib

@[ext]
structure VolumeName where
  val : String
  valid : validateVolumeName val = .ok ()
deriving DecidableEq

def volumeSqliteFile : VolumeName := ⟨"volumes.sqlite", by decide⟩

inductive FileNode where
  | directory
  | file (content : Bytes)
deriving DecidableEq

inductive Position where
  | create (name : VolumeName)
  | makeDir (name : VolumeName)
  | insert (name : VolumeName)
  | remove (name : VolumeName)
  | look (name : VolumeName)
  | removeDir (name : VolumeName)
  | delete (name : VolumeName)
  | returned
  | failed
deriving DecidableEq

structure Fault where
  sql : Bool
  io : Bool
  taken : String → Bool

structure Shared (ι : Type) where
  rows : VolumeName → Bool
  files : String → Option FileNode
  lock : Option ι

structure Threads (ι : Type) extends Shared ι where
  position : ι → Position

def volumeDir (root : String) (name : VolumeName) : String := joined root name.val

def AtOrBelow (dir path : String) : Prop := (dir ++ "/").toList <+: (path ++ "/").toList

instance (dir path : String) : Decidable (AtOrBelow dir path) :=
  inferInstanceAs (Decidable (_ <+: _))

section Step
variable {ι : Type} (root : String)

def Shared.without (s : Shared ι) (name : VolumeName) (taken : String → Bool) : Shared ι :=
  { s with files := fun path =>
      if AtOrBelow (volumeDir root name) path ∧ taken path then none else s.files path }

def Shared.withDir (s : Shared ι) (name : VolumeName) : Shared ι :=
  { s with files := fun path =>
      if path = volumeDir root name then some .directory else s.files path }

def Shared.setRow (s : Shared ι) (name : VolumeName) (present : Bool) : Shared ι :=
  { s with rows := fun other => if other = name then present else s.rows other }

def act (i : ι) (fault : Fault) (s : Shared ι) : Position → Position × Shared ι
  | .create name =>
    if s.lock.isSome then (.create name, s)
    else if fault.sql ∨ s.rows name then (.failed, s)
    else (.makeDir name, { s with lock := some i })
  | .makeDir name =>
    if fault.io ∨ (s.files (volumeDir root name)).any (· ≠ .directory) then
      (.failed, { s with lock := none })
    else (.insert name, s.withDir root name)
  | .insert name =>
    if fault.sql ∨ s.rows name then (.failed, { s with lock := none })
    else (.returned, { s.setRow name true with lock := none })
  | .remove name =>
    if s.lock.isSome then (.remove name, s)
    else if fault.sql then (.failed, s)
    else if s.rows name then (.look name, s)
    else (.returned, s)
  | .look name =>
    -- `exists` answers no when the directory cannot be examined
    if (s.files (volumeDir root name)).isSome ∧ fault.io = false then (.removeDir name, s)
    else (.delete name, s)
  | .removeDir name =>
    if s.files (volumeDir root name) ≠ some .directory then (.failed, s)
    else if fault.io then (.failed, s.without root name fault.taken)
    else (.delete name, s.without root name fun _ => true)
  | .delete name =>
    if s.lock.isSome then (.delete name, s)
    else if fault.sql then (.failed, s)
    else (.returned, s.setRow name false)
  | .returned => (.returned, s)
  | .failed => (.failed, s)

def step [DecidableEq ι] (s : Threads ι) (c : ι × Fault) : Threads ι :=
  let (position, shared) := act root c.1 c.2 s.toShared (s.position c.1)
  { shared with position := Function.update s.position c.1 position }

def Position.name : Position → Option VolumeName
  | .create name | .makeDir name | .insert name | .remove name | .look name | .removeDir name
  | .delete name => some name
  | .returned | .failed => none

def Position.found : Position → Option VolumeName
  | .insert name | .look name | .removeDir name | .delete name => some name
  | _ => none

def Shared.Consistent (s : Shared ι) : Prop :=
  ∀ name, s.rows name = true ↔ s.files (volumeDir root name) = some .directory

structure Threads.Opened (s : Threads ι) : Prop where
  free : s.lock = none
  database : ∃ content, s.files (volumeDir root volumeSqliteFile) = some (.file content)
  consistent : s.Consistent root
  start : ∀ i, ∃ name, s.position i = .create name ∨ s.position i = .remove name

/-- No directory is made for a volume while a removal of it stands between its look at the
directory and its deletion of the record, and no look at a directory that is there fails. -/
structure Clear (s : Threads ι) (c : ι × Fault) : Prop where
  apart : ∀ name, s.position c.1 = .makeDir name → ∀ j, s.position j ≠ .delete name
  looked : ∀ name, s.position c.1 = .look name → c.2.io = true →
    s.files (volumeDir root name) = none

variable {root}

theorem slash_notMem (name : VolumeName) : '/' ∉ name.val.toList := by
  intro hslash
  obtain ⟨name, hname⟩ := name
  unfold validateVolumeName at hname
  split at hname
  · next hvalid =>
    have := List.all_eq_true.mp hvalid.2.2.2.2 '/' hslash
    revert this
    decide
  · cases hname

theorem volumeDir_eq (name : VolumeName) : volumeDir root name = root ++ "/" ++ name.val := by
  refine if_neg fun hslash => slash_notMem name ?_
  rw [List.isPrefixOf_iff_prefix] at hslash
  exact hslash.subset (by decide)

theorem atOrBelow_volumeDir (name : VolumeName) :
    AtOrBelow (volumeDir root name) (volumeDir root name) := List.prefix_rfl

variable {name other : VolumeName}

theorem AtOrBelow.name_eq {path : String}
    (h : AtOrBelow (volumeDir root name) path) (h' : AtOrBelow (volumeDir root other) path) :
    name = other := by
  have hshape (name : VolumeName) : (volumeDir root name ++ "/").toList =
      (root ++ "/").toList ++ (name.val.toList ++ ['/']) := by
    rw [volumeDir_eq]
    simp
  unfold AtOrBelow at h h'
  rw [hshape] at h h'
  obtain ⟨rest, h⟩ := h
  obtain ⟨rest', h'⟩ := h'
  rw [← h', List.append_assoc, List.append_assoc (root ++ "/").toList] at h
  have htail := List.append_cancel_left h
  have hhead (name : VolumeName) (rest : List Char) :
      ((name.val.toList ++ ['/']) ++ rest).takeWhile (· ≠ '/') = name.val.toList := by
    rw [List.append_assoc, List.takeWhile_append_of_pos]
    · simp
    · intro c hc
      exact decide_eq_true fun hslash => slash_notMem name (hslash ▸ hc)
  have hname := congrArg (List.takeWhile (· ≠ '/')) htail
  rw [hhead, hhead] at hname
  exact VolumeName.ext (String.toList_injective hname)

theorem volumeDir_injective
    (h : volumeDir root name = volumeDir root other) : name = other := by
  refine (@atOrBelow_volumeDir root name).name_eq ?_
  rw [h]
  exact atOrBelow_volumeDir other

section Act
variable {i : ι} {fault : Fault} {s : Shared ι} {p : Position}

theorem act_files {path : String} (h : (act root i fault s p).2.files path ≠ s.files path) :
    ∃ name, AtOrBelow (volumeDir root name) path ∧
      (p = .removeDir name ∨
        p = .makeDir name ∧ ∀ content, s.files (volumeDir root name) ≠ some (.file content)) := by
  cases p with
  | makeDir name =>
    simp only [act] at h
    split at h
    · exact absurd rfl h
    · next hnode =>
      simp only [Shared.withDir] at h
      split at h
      · next hpath =>
        refine ⟨name, ?_, .inr ⟨rfl, fun content hfile => hnode ?_⟩⟩
        · rw [hpath]
          exact atOrBelow_volumeDir name
        · simp [hfile]
      · exact absurd rfl h
  | removeDir name =>
    have hbelow : AtOrBelow (volumeDir root name) path := by
      by_contra hnot
      refine h ?_
      simp only [act]
      split_ifs <;> simp [Shared.without, hnot]
    exact ⟨name, hbelow, .inl rfl⟩
  | _ =>
    refine absurd ?_ h
    simp only [act]
    try split_ifs
    all_goals rfl

theorem act_rows {name : VolumeName} (h : (act root i fault s p).2.rows name = true) :
    s.rows name = true ∨ p = .insert name := by
  cases p with
  | insert other =>
    simp only [act] at h
    split at h
    · exact .inl h
    · by_cases hname : name = other
      · exact .inr (by rw [hname])
      · exact .inl (by simpa [Shared.setRow, hname] using h)
  | delete other =>
    simp only [act] at h
    split_ifs at h
    · exact .inl h
    · exact .inl h
    · by_cases hname : name = other
      · simp [Shared.setRow, hname] at h
      · exact .inl (by simpa [Shared.setRow, hname] using h)
  | removeDir other =>
    simp only [act] at h
    split_ifs at h <;> exact .inl h
  | _ =>
    refine .inl ?_
    simp only [act] at h
    try split_ifs at h
    all_goals exact h

theorem act_found {name : VolumeName} (h : (act root i fault s p).1.found = some name) :
    p.found = some name ∨ p = .remove name ∧ s.rows name = true ∨
      p = .makeDir name ∧ ∀ content, s.files (volumeDir root name) ≠ some (.file content) := by
  cases p with
  | makeDir other =>
    simp only [act] at h
    split at h
    · cases h
    · next hnode =>
      cases h
      exact .inr (.inr ⟨rfl, fun content hfile => hnode (by simp [hfile])⟩)
  | remove other =>
    simp only [act] at h
    split_ifs at h
    · cases h
    · cases h
    · next hrow =>
      cases h
      exact .inr (.inl ⟨rfl, hrow⟩)
    · cases h
  | create other =>
    simp only [act] at h
    split_ifs at h <;> cases h
  | insert other =>
    simp only [act] at h
    split_ifs at h <;> cases h
  | look other =>
    simp only [act] at h
    split_ifs at h <;> exact .inl h
  | removeDir other =>
    simp only [act] at h
    split_ifs at h
    · cases h
    · cases h
    · exact .inl h
  | delete other =>
    simp only [act] at h
    split_ifs at h
    · exact .inl h
    · cases h
    · cases h
  | returned => cases h
  | failed => cases h

inductive Moves (root : String) (i : ι) (s : Shared ι) : Position → Position → Shared ι → Prop where
  | stays (p : Position) : Moves root i s p p s
  | locks (name : VolumeName) (free : s.lock = none) :
      Moves root i s (.create name) (.makeDir name) { s with lock := some i }
  | makes (name : VolumeName) : Moves root i s (.makeDir name) (.insert name) (s.withDir root name)
  | inserts (name : VolumeName) :
      Moves root i s (.insert name) .returned { s.setRow name true with lock := none }
  | gets (name : VolumeName) : Moves root i s (.remove name) (.look name) s
  | misses (name : VolumeName) : Moves root i s (.remove name) .returned s
  | sees (name : VolumeName) : Moves root i s (.look name) (.removeDir name) s
  | skips (name : VolumeName) (absent : s.files (volumeDir root name) = none) :
      Moves root i s (.look name) (.delete name) s
  | removes (name : VolumeName) :
      Moves root i s (.removeDir name) (.delete name) (s.without root name fun _ => true)
  | deletes (name : VolumeName) (free : s.lock = none) :
      Moves root i s (.delete name) .returned (s.setRow name false)

theorem act_moves (h : (act root i fault s p).1 ≠ .failed)
    (hlooked : ∀ name, p = .look name → fault.io = true → s.files (volumeDir root name) = none) :
    Moves root i s p (act root i fault s p).1 (act root i fault s p).2 := by
  cases p with
  | create name =>
    simp only [act] at h ⊢
    split_ifs at h ⊢ with hlock
    · exact .stays _
    · exact absurd rfl h
    · exact .locks name (by simpa using hlock)
  | makeDir name =>
    simp only [act] at h ⊢
    split_ifs at h ⊢
    · exact absurd rfl h
    · exact .makes name
  | insert name =>
    simp only [act] at h ⊢
    split_ifs at h ⊢
    · exact absurd rfl h
    · exact .inserts name
  | remove name =>
    simp only [act] at h ⊢
    split_ifs at h ⊢
    · exact .stays _
    · exact absurd rfl h
    · exact .gets name
    · exact .misses name
  | look name =>
    simp only [act] at h ⊢
    split_ifs at h ⊢ with hsome
    · exact .sees name
    · refine .skips name ?_
      by_cases hio : fault.io = true
      · exact hlooked name rfl hio
      · simpa [hio] using hsome
  | removeDir name =>
    simp only [act] at h ⊢
    split_ifs at h ⊢
    · exact absurd rfl h
    · exact absurd rfl h
    · exact .removes name
  | delete name =>
    simp only [act] at h ⊢
    split_ifs at h ⊢ with hlock
    · exact .stays _
    · exact absurd rfl h
    · exact .deletes name (by simpa using hlock)
  | returned => exact .stays _
  | failed => exact .stays _

end Act

theorem files_withDir (s : Shared ι) (name other : VolumeName) :
    (s.withDir root name).files (volumeDir root other) =
      if other = name then some .directory else s.files (volumeDir root other) := by
  by_cases hname : other = name
  · simp [Shared.withDir, hname]
  · simp [Shared.withDir, hname, mt volumeDir_injective hname]

theorem files_without (s : Shared ι) (name other : VolumeName) :
    (s.without root name fun _ => true).files (volumeDir root other) =
      if other = name then none else s.files (volumeDir root other) := by
  by_cases hname : other = name
  · simp [Shared.without, hname, atOrBelow_volumeDir]
  · have hnot : ¬AtOrBelow (volumeDir root name) (volumeDir root other) := fun hbelow =>
      hname ((atOrBelow_volumeDir other).name_eq hbelow)
    simp [Shared.without, hname, hnot]

structure Threads.Kept (root : String) (s : Threads ι) : Prop where
  making : ∀ i name, s.position i = .makeDir name → s.lock = some i
  inserts : ∀ i name, s.position i = .insert name → s.lock = some i
  deleting : ∀ i name, s.position i = .delete name → s.files (volumeDir root name) = none
  made : ∀ name, s.files (volumeDir root name) = some .directory →
    s.rows name = true ∨ ∃ i, s.position i = .insert name
  recorded : ∀ name, s.rows name = true →
    s.files (volumeDir root name) = some .directory ∨ ∃ i, s.position i = .delete name
  inserting : ∀ i name, s.position i = .insert name →
    s.files (volumeDir root name) = some .directory ∨ ∃ j, s.position j = .delete name

theorem Threads.Kept.moves {s s' : Threads ι} (h : s.Kept root) {i : ι} {p q : Position}
    (hp : s.position i = p) (hq : s'.position i = q)
    (hother : ∀ j, j = i ∨ s'.position j = s.position j)
    (hmoves : Moves root i s.toShared p q s'.toShared)
    (hclear : ∀ name, p = .makeDir name → ∀ j, s.position j ≠ .delete name) : s'.Kept root := by
  obtain ⟨hmaking, hinserts, hdeleting, hmade, hrecorded, hinserting⟩ := h
  obtain ⟨shared', position'⟩ := s'
  dsimp only at hq hother hmoves ⊢
  cases hmoves with
  | stays =>
    have hsame : position' = s.position := by
      funext j
      rcases hother j with hj | hj
      · rw [hj, hq, hp]
      · exact hj
    rw [hsame]
    exact ⟨hmaking, hinserts, hdeleting, hmade, hrecorded, hinserting⟩
  | locks name free => constructor <;> dsimp only <;> grind
  | makes name => constructor <;> simp only [files_withDir] <;> grind [Shared.withDir]
  | inserts name => constructor <;> simp only [Shared.setRow] <;> grind
  | gets name => constructor <;> dsimp only <;> grind
  | misses name => constructor <;> dsimp only <;> grind
  | sees name => constructor <;> dsimp only <;> grind
  | skips name absent => constructor <;> dsimp only <;> grind
  | removes name => constructor <;> simp only [files_without] <;> grind [Shared.without]
  | deletes name free => constructor <;> simp only [Shared.setRow] <;> grind

structure Threads.Guarded (root : String) (s : Threads ι) : Prop where
  database : ∃ content, s.files (volumeDir root volumeSqliteFile) = some (.file content)
  row : s.rows volumeSqliteFile = false
  found : ∀ i, (s.position i).found ≠ some volumeSqliteFile

variable {s : Threads ι}

theorem Threads.Opened.guarded (h : s.Opened root) : s.Guarded root where
  database := h.database
  row := by
    obtain ⟨content, hfile⟩ := h.database
    refine Bool.eq_false_iff.mpr fun hrow => ?_
    rw [(h.consistent _).mp hrow] at hfile
    cases hfile
  found i := by
    obtain ⟨name, hstart | hstart⟩ := h.start i <;> rw [hstart] <;> simp [Position.found]

theorem Threads.Opened.kept (h : s.Opened root) : s.Kept root := by
  have hnot (i : ι) (p : Position) (hp : ∀ name, p ≠ .create name ∧ p ≠ .remove name) :
      s.position i ≠ p := by
    rintro rfl
    obtain ⟨name, hstart | hstart⟩ := h.start i
    · exact (hp name).1 hstart
    · exact (hp name).2 hstart
  exact {
    making := fun i name hi => absurd hi (hnot i _ (by simp))
    inserts := fun i name hi => absurd hi (hnot i _ (by simp))
    deleting := fun i name hi => absurd hi (hnot i _ (by simp))
    made := fun name hdir => .inl ((h.consistent name).mpr hdir)
    recorded := fun name hrow => .inl ((h.consistent name).mp hrow)
    inserting := fun i name hi => absurd hi (hnot i _ (by simp)) }

variable [DecidableEq ι] {c : ι × Fault}

theorem step_position (j : ι) : j = c.1 ∨ (step root s c).position j = s.position j := by
  by_cases hj : j = c.1
  · exact .inl hj
  · exact .inr (Function.update_of_ne hj ..)

theorem step_position_self : (step root s c).position c.1 =
    (act root c.1 c.2 s.toShared (s.position c.1)).1 := Function.update_self ..

theorem Threads.Guarded.changes (h : s.Guarded root) {path : String}
    (hc : (step root s c).files path ≠ s.files path) :
    ∃ name, name ≠ volumeSqliteFile ∧ (s.position c.1).name = some name ∧
      AtOrBelow (volumeDir root name) path := by
  obtain ⟨name, hbelow, hremove | ⟨hmake, hnode⟩⟩ := act_files hc
  · refine ⟨name, fun hname => h.found c.1 ?_, by rw [hremove]; rfl, hbelow⟩
    rw [hremove, hname]
    rfl
  · refine ⟨name, fun hname => ?_, by rw [hmake]; rfl, hbelow⟩
    obtain ⟨content, hfile⟩ := h.database
    exact hnode content (hname ▸ hfile)

theorem Threads.Guarded.database_step (h : s.Guarded root) :
    (step root s c).files (volumeDir root volumeSqliteFile) =
      s.files (volumeDir root volumeSqliteFile) := by
  by_contra hc
  obtain ⟨name, hne, -, hbelow⟩ := h.changes hc
  exact hne (hbelow.name_eq (atOrBelow_volumeDir _))

theorem Threads.Guarded.step (h : s.Guarded root) (c : ι × Fault) :
    (step root s c).Guarded root where
  database := by
    rw [h.database_step]
    exact h.database
  row := by
    refine Bool.eq_false_iff.mpr fun hrow => ?_
    rcases act_rows hrow with hrow | hinsert
    · rw [h.row] at hrow
      cases hrow
    · exact h.found c.1 (by rw [hinsert]; rfl)
  found i hi := by
    rcases (step_position i : i = c.1 ∨ (Volume.step root s c).position i = _) with rfl | hsame
    · rw [step_position_self] at hi
      rcases act_found hi with hfound | ⟨-, hrow⟩ | ⟨-, hnode⟩
      · exact h.found _ hfound
      · rw [h.row] at hrow
        cases hrow
      · obtain ⟨content, hfile⟩ := h.database
        exact hnode content hfile
    · rw [hsame] at hi
      exact h.found i hi

theorem failed_or_kept_step (h : (∃ i, s.position i = .failed) ∨ s.Kept root)
    (hclear : Clear root s c) :
    (∃ i, (step root s c).position i = .failed) ∨ (step root s c).Kept root := by
  rcases h with ⟨i, hi⟩ | h
  · refine .inl ⟨i, ?_⟩
    rcases (step_position i : i = c.1 ∨ (step root s c).position i = _) with rfl | hsame
    · rw [step_position_self, hi]
      rfl
    · rw [hsame, hi]
  · by_cases hfail : (act root c.1 c.2 s.toShared (s.position c.1)).1 = .failed
    · exact .inl ⟨c.1, step_position_self.trans hfail⟩
    · exact .inr (h.moves rfl step_position_self step_position (act_moves hfail hclear.looked)
        hclear.apart)

/-- In every run a call leaves the directories of other volumes and the database alone. When no
directory is made while a removal of its volume is under way, then records and directories agree
once every call has returned. -/
theorem volumes_consistent (h : s.Opened root) (cs : List (ι × Fault)) :
    Runs.Along (step root) (fun s c =>
        (∀ name, (s.position c.1).name ≠ some name → ∀ path, AtOrBelow (volumeDir root name) path →
          (step root s c).files path = s.files path) ∧
        (step root s c).files (volumeDir root volumeSqliteFile) =
          s.files (volumeDir root volumeSqliteFile)) s cs ∧
      (Runs.Along (step root) (Clear root) s cs →
        (∀ i, (cs.foldl (step root) s).position i = .returned) →
        (cs.foldl (step root) s).Consistent root) := by
  constructor
  · have hguarded : Runs.Throughout (step root) (Threads.Guarded root) s cs :=
      Runs.throughout_of_step (fun _ c hs => hs.step c) h.guarded
    refine hguarded.always fun s c hs => ⟨fun name hname path hbelow => ?_, hs.database_step⟩
    by_contra hc
    obtain ⟨other, -, hother, hbelow'⟩ := hs.changes hc
    exact hname (hbelow'.name_eq hbelow ▸ hother)
  · intro hclear hreturned
    have hkept := (hclear.invariant (I := fun s => (∃ i, s.position i = .failed) ∨ s.Kept root)
      (fun s c hc hs => failed_or_kept_step hs hc) (.inr h.kept)).last
    rcases hkept with ⟨i, hi⟩ | hkept
    · rw [hreturned i] at hi
      cases hi
    · refine fun name => ⟨fun hrow => ?_, fun hdir => ?_⟩
      · refine (hkept.recorded name hrow).resolve_right fun hdelete => ?_
        obtain ⟨i, hi⟩ := hdelete
        rw [hreturned i] at hi
        cases hi
      · refine (hkept.made name hdir).resolve_right fun hinsert => ?_
        obtain ⟨i, hi⟩ := hinsert
        rw [hreturned i] at hi
        cases hi

end Step

/-! A call of the store that runs alone does what its positions do one after the other. -/

section Alone
variable {ι : Type}

/-- What the calls of the file system leave when they succeed. -/
structure OnTree (host : VolumeHost (String → Option FileNode)) : Prop where
  present : ∀ dir files, host.isPresent dir files = (files dir).isSome
  made : ∀ dir files files', host.createDirAll dir files = (.ok (), files') →
    (files dir = none ∨ files dir = some .directory) ∧
      files' = fun path => if path = dir then some .directory else files path
  removed : ∀ dir files files', host.removeDirAll dir files = (.ok (), files') →
    files dir = some .directory ∧
      files' = fun path => if AtOrBelow dir path then none else files path

def shared (store : Volumes (String → Option FileNode)) : Shared ι where
  rows name := store.rows.contains name.val
  files := store.files
  lock := none

def alone (root : String) (i : ι) : Nat → Position × Shared ι → Position × Shared ι
  | 0, at? => at?
  | n + 1, (p, s) => alone root i n (act root i ⟨false, false, fun _ => false⟩ s p)

variable {host : VolumeHost (String → Option FileNode)} {permit : Authorization.SurfacePermit}
  {w : VolumeWorld (String → Option FileNode)} {store' : Volumes (String → Option FileNode)}
  {name : VolumeName}

theorem create_alone (hhost : OnTree host) (i : ι) {plan : VolumeCreatePlan}
    (hname : plan.name = name.val) (h : (ExecutorCall.create plan permit).Committed host w store') :
    alone host.root i 3 (.create name, shared w.store) = (.returned, shared store') := by
  obtain ⟨habsent, driver, path, hdriver, hcreate, hrows⟩ := h
  obtain rfl := drivers_eq_some hdriver
  obtain ⟨_, _, hmade, hpath⟩ := Program.bind_eq_ok.mp hcreate
  cases hpath
  obtain ⟨hfree, hfiles⟩ := hhost.made _ _ _ hmade
  rw [hname] at habsent hfree hfiles hrows
  have hrow : w.store.rows.contains name.val = false := by simp [OrdMap.contains, habsent]
  have hrest (other : VolumeName) : store'.rows.contains other.val =
      if other = name then true else w.store.rows.contains other.val := by
    simp only [hrows, OrdMap.contains, OrdMap.get_insert, VolumeName.ext_iff]
    split <;> rfl
  obtain hfree | hfree := hfree <;>
    simp [alone, act, shared, Shared.setRow, Shared.withDir, volumeDir, hrow, hfree, hrest, hfiles]

theorem remove_alone (hhost : OnTree host) (i : ι)
    (h : (ExecutorCall.remove name.val permit).Committed host w store') :
    alone host.root i 4 (.remove name, shared w.store) = (.returned, shared store') := by
  obtain ⟨hfound, hrows, hremove⟩ := h
  obtain ⟨files, _, hget, hremove⟩ := Program.bind_eq_ok.mp hremove
  cases hget
  have hrow : w.store.rows.contains name.val = true := Option.isSome_iff_ne_none.mpr hfound
  have hrest (other : VolumeName) : store'.rows.contains other.val =
      if other = name then false else w.store.rows.contains other.val := by
    simp only [hrows, OrdMap.contains, OrdMap.get_erase, VolumeName.ext_iff]
    split <;> rfl
  rw [hhost.present] at hremove
  cases hdir : w.store.files (joined host.root name.val) with
  | none =>
    rw [hdir] at hremove
    have hfiles : store'.files = w.store.files := (congrArg Prod.snd hremove).symm
    simp [alone, act, shared, Shared.setRow, volumeDir, hrow, hdir, hrest, hfiles]
  | some node =>
    rw [hdir] at hremove
    obtain ⟨hnode, hfiles⟩ := hhost.removed _ _ _ hremove
    simp [alone, act, shared, Shared.setRow, Shared.without, volumeDir, hrow, hnode, hrest, hfiles]

end Alone

section Examples

instance {ι : Type} [Fintype ι] (root : String) (s : Threads ι) (c : ι × Fault) :
    Decidable (Clear root s c) :=
  match h : s.position c.1 with
  | .makeDir name => decidable_of_iff (∀ j, s.position j ≠ .delete name)
      ⟨fun hj => ⟨fun other hother => (by rw [h] at hother; cases hother; exact hj),
        fun other hother => (by rw [h] at hother; cases hother)⟩, fun hc => hc.apart name h⟩
  | .look name => decidable_of_iff (c.2.io = true → s.files (volumeDir root name) = none)
      ⟨fun hlook => ⟨fun other hother => (by rw [h] at hother; cases hother),
        fun other hother => (by rw [h] at hother; cases hother; exact hlook)⟩,
        fun hc => hc.looked name h⟩
  | .create _ | .insert _ | .remove _ | .removeDir _ | .delete _ | .returned | .failed =>
    .isTrue ⟨fun other hother => (by rw [h] at hother; cases hother),
      fun other hother => (by rw [h] at hother; cases hother)⟩

def volumeA : VolumeName := ⟨"a", by decide⟩

def volumeB : VolumeName := ⟨"b", by decide⟩

def oneVolume {ι : Type} (position : ι → Position) : Threads ι where
  rows name := name = volumeA
  files path :=
    if path = volumeDir "/v" volumeSqliteFile then some (.file [])
    else if path = volumeDir "/v" volumeA then some .directory
    else none
  lock := none
  position := position

theorem oneVolume_opened {ι : Type} {position : ι → Position}
    (h : ∀ i, ∃ name, position i = .create name ∨ position i = .remove name) :
    (oneVolume position).Opened "/v" where
  free := rfl
  database := ⟨[], by simp [oneVolume]⟩
  consistent name := by
    have hne : volumeA ≠ volumeSqliteFile := by decide
    by_cases hname : name = volumeA
    · simp [oneVolume, hname, mt volumeDir_injective hne]
    · simp only [oneVolume, hname, mt volumeDir_injective hname, decide_false, if_false]
      split <;> simp
  start := h

def steps {n : Nat} (threads : List (Fin n)) : List (Fin n × Fault) :=
  threads.map fun i => (i, ⟨false, false, fun _ => false⟩)

/-- Two calls remove a volume while a third creates another one, and the volume is made again. -/
theorem removed_and_created :
    ((steps [0, 1, 2, 0, 2, 0, 1, 2, 0, 1, 3, 3, 3]).foldl (step "/v")
      (oneVolume ![.remove volumeA, .remove volumeA, .create volumeB, .create volumeA])).Consistent
        "/v" :=
  (volumes_consistent (oneVolume_opened (by simp [Fin.forall_fin_succ])) _).2 (by decide +kernel)
    (by decide +kernel)

/-- Two calls remove a volume and a third creates it: the second removal deletes the record of the
directory that was just made. -/
theorem directory_without_record :
    ¬∀ (ι : Type) [DecidableEq ι] (root : String) (s : Threads ι), s.Opened root →
      ∀ cs : List (ι × Fault), (∀ i, (cs.foldl (step root) s).position i = .returned) →
        (cs.foldl (step root) s).Consistent root := by
  intro h
  have hconsistent := h (Fin 3) "/v"
    (oneVolume ![.remove volumeA, .remove volumeA, .create volumeA])
    (oneVolume_opened (by simp [Fin.forall_fin_succ]))
    (steps [0, 1, 0, 0, 1, 0, 2, 2, 2, 1]) (by decide +kernel)
  have hrow := (hconsistent volumeA).mpr (by decide +kernel)
  revert hrow
  decide +kernel

end Examples
end Ferrocrate.Volume
