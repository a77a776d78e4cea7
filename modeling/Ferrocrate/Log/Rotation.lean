import Ferrocrate.Lib.Runs
import Ferrocrate.Log.Slots

/-! What the files of a stream hold of the entries written to it. -/
namespace Ferrocrate.Log
open Lib Lib.Runs

def dataOf (entries : List LogEntry) : Bytes := entries.flatMap (·.bytes)

def journalOf (offset : Nat) : List LogEntry → Bytes
  | [] => []
  | entry :: entries => JsonFileStream.journalLine offset entry
      ++ journalOf (offset + entry.bytes.length) entries

@[simp] theorem dataOf_nil : dataOf [] = [] := rfl

@[simp] theorem dataOf_append (a b : List LogEntry) : dataOf (a ++ b) = dataOf a ++ dataOf b :=
  List.flatMap_append

@[simp] theorem dataOf_cons (entry : LogEntry) (entries : List LogEntry) :
    dataOf (entry :: entries) = entry.bytes ++ dataOf entries :=
  List.flatMap_cons

@[simp] theorem dataOf_singleton (entry : LogEntry) : dataOf [entry] = entry.bytes :=
  List.append_nil _

theorem journalOf_append (offset : Nat) (a b : List LogEntry) :
    journalOf offset (a ++ b) = journalOf offset a ++ journalOf (offset + (dataOf a).length) b := by
  induction a generalizing offset with
  | nil => rfl
  | cons entry a ih =>
    rw [List.cons_append, journalOf, ih, journalOf, List.append_assoc, dataOf_cons,
      List.length_append, Nat.add_assoc]

/-! ## Runs -/

inductive Event where
  | write (entry : LogEntry)
  | reopen

structure State where
  stream : JsonFileStream
  directory : Directory
  written : List LogEntry

def State.step (st : State) : Event → State
  | .write entry =>
    let (stream, directory) := st.stream.write entry st.directory
    ⟨stream, directory, if entry.bytes = [] then st.written else st.written ++ [entry]⟩
  | .reopen =>
    let (stream, directory) :=
      JsonFileStream.opened st.stream.path true st.stream.rotation st.directory
    ⟨stream, directory, st.written⟩

def State.start (path : String) (rotation : Option LogRotation) (d₀ : Directory) : State :=
  let (stream, directory) := JsonFileStream.opened path false rotation d₀
  ⟨stream, directory, []⟩

section Retention
variable (path : String) (rotation : Option LogRotation) (d₀ : Directory)

structure Holds (d : Directory) (written : List LogEntry) (groups : List (List LogEntry)) :
    Prop where
  current : groups ≠ []
  files : ∀ i g, groups[i]? = some g →
    d.logs path i = some (dataOf g) ∧ d.journals path i = some (journalOf 0 g)
  others : ∀ i, groups.length ≤ i →
    d.logs path i = none ∨ ∃ j, 1 ≤ j ∧ d.logs path i = d₀.logs path j
  suffix : groups.reverse.flatten <:+ written
  complete : rotation = none → groups.reverse.flatten = written
  count : groups.length ≤ rotation.elim 1 fun r => max r.maxFiles.toNat 1
  size : ∀ r ∈ rotation, ∀ g ∈ groups, (dataOf g).length ≤ r.maxSize.toNat ∨ g.length ≤ 1

/-- Reading gives the newest entries, whole; without a rotation it gives all. -/
def ReadsBack (d : Directory) (written : List LogEntry) : Prop :=
  ∃ kept, kept <:+ written ∧ (written ≠ [] → kept ≠ []) ∧ (rotation = none → kept = written) ∧
    d.readRotated path = dataOf kept

def Retained (st : State) : Prop :=
  (∃ groups, Holds path rotation d₀ st.directory st.written groups) ∧
    ReadsBack path rotation st.directory st.written

/-- No rotated file that is read back is left over from an earlier run. -/
def Unspoiled : Prop := ∀ i, 1 ≤ i → i ≤ 64 → (d₀.logs path i).getD [] = []

def Rotates (st : State) : Event → Prop
  | .write entry => ∀ r ∈ rotation, entry.bytes ≠ [] →
      st.stream.exceeds entry st.directory r = true → 2 ≤ r.maxFiles.toNat
  | .reopen => True

structure Streams (st : State) (groups : List (List LogEntry)) : Prop
    extends Holds path rotation d₀ st.directory st.written groups where
  path_eq : st.stream.path = path
  rotation_eq : st.stream.rotation = rotation
  offset : ∀ g ∈ groups.head?, st.stream.offset = (dataOf g).length
  nonempty : ∀ g ∈ groups, ∀ entry ∈ g, entry.bytes ≠ []
  unspoiled : ∀ i, groups.length ≤ i → i ≤ 64 → (st.directory.logs path i).getD [] = []
  newest : st.written ≠ [] → ∀ g ∈ groups.head?, g ≠ []

variable {path rotation d₀}

/-! ## Reading back -/

theorem flatMap_range (groups : List (List LogEntry)) (n : Nat) :
    (List.range n).reverse.flatMap (fun i => dataOf (groups[i]?.getD []))
      = dataOf (groups.take n).reverse.flatten := by
  induction n with
  | zero => rfl
  | succ n ih =>
    rw [List.range_succ, List.reverse_append, List.reverse_singleton, List.singleton_append,
      List.flatMap_cons, ih]
    cases hg : groups[n]? with
    | none =>
      have hle := List.getElem?_eq_none_iff.mp hg
      rw [List.take_of_length_le hle, List.take_of_length_le (by omega)]
      rfl
    | some g =>
      rw [List.take_add_one, hg]
      simp

theorem take_suffix (groups : List (List LogEntry)) (n : Nat) :
    (groups.take n).reverse.flatten <:+ groups.reverse.flatten := by
  refine ⟨(groups.drop n).reverse.flatten, ?_⟩
  rw [← List.flatten_append, ← List.reverse_append, List.take_append_drop]

variable {groups : List (List LogEntry)} {st : State}

theorem Streams.readRotated
    (h : Streams path rotation d₀ st groups) :
    st.directory.readRotated path = dataOf (groups.take 65).reverse.flatten := by
  rw [Directory.readRotated_eq, ← flatMap_range]
  refine List.flatMap_congr fun i hi => ?_
  have hi : i < 65 := List.mem_range.mp (List.mem_reverse.mp hi)
  cases hg : groups[i]? with
  | none =>
    rw [h.unspoiled i (List.getElem?_eq_none_iff.mp hg) (by omega)]
    rfl
  | some g =>
    rw [(h.files i g hg).1]
    rfl

theorem Streams.retained
    (h : Streams path rotation d₀ st groups) : Retained path rotation d₀ st := by
  refine ⟨⟨groups, h.toHolds⟩, (groups.take 65).reverse.flatten,
    (take_suffix groups 65).trans h.suffix, ?_, ?_, h.readRotated⟩
  · intro hwritten hkept
    cases hgroups : groups with
    | nil => exact h.current hgroups
    | cons g gs =>
      rw [hgroups, List.take_succ_cons, List.reverse_cons, List.flatten_append] at hkept
      refine h.newest hwritten g (by rw [hgroups]; rfl) ?_
      simpa using (List.append_eq_nil_iff.mp hkept).2
  · intro hnone
    have hcount := h.count
    rw [hnone, Option.elim_none] at hcount
    rw [List.take_of_length_le (by omega), h.complete hnone]

/-! ## Opening -/

theorem logs_opened {append : Bool} {d : Directory} :
    (JsonFileStream.opened path append rotation d).2.logs path
      = Function.update (d.logs path) 0 (some (if append then (d.logs path 0).getD [] else [])) := by
  rw [← Directory.logs_openLogFile]
  exact Directory.logs_openLogFile_journal

theorem journals_opened {append : Bool} {d : Directory} :
    (JsonFileStream.opened path append rotation d).2.journals path
      = Function.update (d.journals path) 0
        (some (if append then (d.journals path 0).getD [] else [])) := by
  have h := @Directory.journals_openLogFile_journal (d.openLogFile path append) path append
  rw [Directory.journals_openLogFile] at h
  exact h

theorem offset_opened {append : Bool} {d : Directory} :
    (JsonFileStream.opened path append rotation d).1.offset
      = (if append then (d.logs path 0).getD [] else []).length := by
  have h := congrFun (@logs_opened path rotation append d) 0
  rw [Function.update_self] at h
  exact congrArg (fun file => (file.getD []).length) h

theorem logs_start :
    (State.start path rotation d₀).directory.logs path
      = Function.update (d₀.logs path) 0 (some []) :=
  @logs_opened path rotation false d₀

theorem journals_start :
    (State.start path rotation d₀).directory.journals path
      = Function.update (d₀.journals path) 0 (some []) :=
  @journals_opened path rotation false d₀

theorem start_streams (h : Unspoiled path d₀) :
    Streams path rotation d₀ (.start path rotation d₀) [[]] where
  current := List.cons_ne_nil _ _
  files i g hg := by
    cases i with
    | zero =>
      cases hg
      rw [logs_start, journals_start, Function.update_self, Function.update_self]
      exact ⟨rfl, rfl⟩
    | succ i => cases hg
  others i hi := by
    have hi : 0 < i := hi
    refine .inr ⟨i, hi, ?_⟩
    rw [logs_start, Function.update_of_ne (Nat.ne_of_gt hi)]
  suffix := List.suffix_rfl
  complete _ := rfl
  count := by
    cases rotation with
    | none => exact le_rfl
    | some r => exact le_max_right _ _
  size _ _ g hg := .inr (by rw [List.mem_singleton.mp hg]; exact Nat.zero_le _)
  path_eq := rfl
  rotation_eq := rfl
  offset g hg := by
    cases hg
    exact offset_opened
  nonempty g hg entry hentry := by
    rw [List.mem_singleton.mp hg] at hentry
    cases hentry
  unspoiled i hi hle := by
    have hi : 0 < i := hi
    rw [logs_start, Function.update_of_ne (Nat.ne_of_gt hi)]
    exact h i hi hle
  newest hne := absurd rfl hne

theorem Streams.reopen
    (h : Streams path rotation d₀ st groups) :
    Streams path rotation d₀ (st.step .reopen) groups := by
  obtain ⟨g, gs, rfl⟩ := List.exists_cons_of_ne_nil h.current
  obtain ⟨hlog, hjournal⟩ := h.files 0 g rfl
  have hlogs : (st.step .reopen).directory.logs path = st.directory.logs path := by
    rw [State.step, h.path_eq]
    dsimp only
    rw [logs_opened, hlog]
    exact (congrArg _ hlog.symm).trans (Function.update_eq_self 0 _)
  have hjournals : (st.step .reopen).directory.journals path = st.directory.journals path := by
    rw [State.step, h.path_eq]
    dsimp only
    rw [journals_opened, hjournal]
    exact (congrArg _ hjournal.symm).trans (Function.update_eq_self 0 _)
  have hoffset : (st.step .reopen).stream.offset = (dataOf g).length := by
    rw [State.step, h.path_eq]
    dsimp only
    rw [offset_opened, hlog]
    rfl
  exact {
    current := h.current
    files := by rw [hlogs, hjournals]; exact h.files
    others := by rw [hlogs]; exact h.others
    suffix := h.suffix
    complete := h.complete
    count := h.count
    size := h.size
    path_eq := h.path_eq
    rotation_eq := h.rotation_eq
    offset := fun g' hg' => by cases hg'; exact hoffset
    nonempty := h.nonempty
    unspoiled := by rw [hlogs]; exact h.unspoiled
    newest := h.newest }

/-! ## Writing -/

def rotatedGroups (maxFiles : Nat) (groups : List (List LogEntry)) : List (List LogEntry) :=
  [] :: groups.take (maxFiles - 1)

variable (path rotation d₀) in
structure Ready (s : JsonFileStream) (d : Directory) (written : List LogEntry)
    (groups : List (List LogEntry)) : Prop
    extends Holds path rotation d₀ d written groups where
  path_eq : s.path = path
  rotation_eq : s.rotation = rotation
  offset : ∀ g ∈ groups.head?, s.offset = (dataOf g).length
  nonempty : ∀ g ∈ groups, ∀ entry ∈ g, entry.bytes ≠ []
  unspoiled : ∀ i, groups.length ≤ i → i ≤ 64 → (d.logs path i).getD [] = []

variable {entry : LogEntry} {r : LogRotation}

section
variable (h : Streams path rotation d₀ st groups)
include h

theorem Streams.rotated_eq (hr : rotation = some r)
    (hexceeds : st.stream.exceeds entry st.directory r = true) :
    st.stream.rotated entry st.directory = ({ st.stream with offset := 0 },
      ((st.directory.rotatePair path r.maxFiles.toNat).openLogFile path true).openLogFile
        (journalPath path) true) := by
  rw [JsonFileStream.rotated, h.rotation_eq, hr]
  dsimp only
  rw [if_pos hexceeds, h.path_eq, h.rotation_eq, hr]

theorem Streams.logs_rotated (hr : rotation = some r)
    (hfiles : 2 ≤ r.maxFiles.toNat) (hexceeds : st.stream.exceeds entry st.directory r = true)
    (i : Nat) :
    (st.stream.rotated entry st.directory).2.logs path i
      = if i = 0 then some [] else if i ≤ r.maxFiles.toNat - 1 then st.directory.logs path (i - 1)
        else st.directory.logs path i := by
  rw [h.rotated_eq hr hexceeds, Directory.logs_openLogFile_journal, Directory.logs_openLogFile,
    Directory.logs_rotatePair hfiles]
  by_cases hi : i = 0
  · rw [hi, Function.update_self]
    rfl
  · rw [Function.update_of_ne hi, if_neg hi, if_neg hi]

theorem Streams.journals_rotated (hr : rotation = some r)
    (hfiles : 2 ≤ r.maxFiles.toNat) (hexceeds : st.stream.exceeds entry st.directory r = true)
    (i : Nat) :
    (st.stream.rotated entry st.directory).2.journals path i
      = if i = 0 then some [] else if i ≤ r.maxFiles.toNat - 1
        then st.directory.journals path (i - 1) else st.directory.journals path i := by
  rw [h.rotated_eq hr hexceeds, Directory.journals_openLogFile_journal,
    Directory.journals_openLogFile, Directory.journals_rotatePair hfiles]
  by_cases hi : i = 0
  · rw [hi, Function.update_self]
    rfl
  · rw [Function.update_of_ne hi, if_neg hi, if_neg hi]

theorem Streams.rotate (hr : rotation = some r)
    (hfiles : 2 ≤ r.maxFiles.toNat) (hexceeds : st.stream.exceeds entry st.directory r = true) :
    Ready path rotation d₀ (st.stream.rotated entry st.directory).1
      (st.stream.rotated entry st.directory).2 st.written
      (rotatedGroups r.maxFiles.toNat groups) := by
  have hcount : groups.length ≤ r.maxFiles.toNat := by
    have hcount := h.count
    rw [hr, Option.elim_some, max_eq_left (by omega)] at hcount
    exact hcount
  have hrotated := h.rotated_eq hr hexceeds
  have hlogs := h.logs_rotated hr hfiles hexceeds
  have hjournals := h.journals_rotated hr hfiles hexceeds
  have hlength : (rotatedGroups r.maxFiles.toNat groups).length
      = min (r.maxFiles.toNat - 1) groups.length + 1 := by
    rw [rotatedGroups, List.length_cons, List.length_take]
  -- a slot above the rotated groups was above the groups before
  have habove : ∀ i, (rotatedGroups r.maxFiles.toNat groups).length ≤ i →
      ∃ j, groups.length ≤ j ∧ j ≤ i ∧
        (st.stream.rotated entry st.directory).2.logs path i = st.directory.logs path j := by
    intro i hi
    rw [hlength] at hi
    rw [hlogs, if_neg (by omega)]
    by_cases hle : i ≤ r.maxFiles.toNat - 1
    · exact ⟨i - 1, by omega, by omega, if_pos hle⟩
    · exact ⟨i, by omega, le_rfl, if_neg hle⟩
  have hflatten : (rotatedGroups r.maxFiles.toNat groups).reverse.flatten
      = (groups.take (r.maxFiles.toNat - 1)).reverse.flatten := by
    rw [rotatedGroups, List.reverse_cons, List.flatten_append]
    exact List.append_nil _
  exact {
    current := List.cons_ne_nil _ _
    files := by
      intro i g hg
      cases i with
      | zero =>
        cases hg
        rw [hlogs, hjournals, if_pos rfl, if_pos rfl]
        exact ⟨rfl, rfl⟩
      | succ i =>
        rw [rotatedGroups, List.getElem?_cons_succ] at hg
        obtain ⟨hi, -⟩ := List.getElem?_eq_some_iff.mp hg
        rw [List.length_take] at hi
        rw [List.getElem?_take_of_lt (by omega)] at hg
        rw [hlogs, hjournals, if_neg (by omega), if_pos (by omega), if_neg (by omega),
          if_pos (by omega), Nat.add_sub_cancel]
        exact h.files i g hg
    others := by
      intro i hi
      obtain ⟨j, hj, -, heq⟩ := habove i hi
      rw [heq]
      exact h.others j hj
    suffix := by
      rw [hflatten]
      exact (take_suffix groups _).trans h.suffix
    complete := fun hnone => by
      rw [hr] at hnone
      cases hnone
    count := by
      rw [hlength, hr, Option.elim_some, max_eq_left (by omega)]
      omega
    size := by
      intro r' hr' g hg
      cases List.mem_cons.mp hg with
      | inl hnil => exact .inr (by rw [hnil]; exact Nat.zero_le _)
      | inr htake => exact h.size r' hr' g (List.mem_of_mem_take htake)
    path_eq := by rw [hrotated]; exact h.path_eq
    rotation_eq := by rw [hrotated]; exact h.rotation_eq
    offset := fun g hg => by
      cases hg
      rw [hrotated]
      rfl
    nonempty := by
      intro g hg
      cases List.mem_cons.mp hg with
      | inl hnil =>
        rw [hnil]
        exact fun _ hentry => nomatch hentry
      | inr htake => exact h.nonempty g (List.mem_of_mem_take htake)
    unspoiled := by
      intro i hi hle
      obtain ⟨j, hj, hji, heq⟩ := habove i hi
      rw [heq]
      exact h.unspoiled j hj (by omega) }

theorem Streams.keep
    (hfits : ∀ r ∈ rotation, ¬st.stream.exceeds entry st.directory r = true) :
    Ready path rotation d₀ (st.stream.rotated entry st.directory).1
      (st.stream.rotated entry st.directory).2 st.written groups := by
  have hrotated : st.stream.rotated entry st.directory = (st.stream, st.directory) := by
    rw [JsonFileStream.rotated, h.rotation_eq]
    cases rotation with
    | none => rfl
    | some r => exact if_neg (hfits r rfl)
  rw [hrotated]
  exact { h.toHolds with
    path_eq := h.path_eq
    rotation_eq := h.rotation_eq
    offset := h.offset
    nonempty := h.nonempty
    unspoiled := h.unspoiled }

end

theorem Ready.append {s : JsonFileStream} {d : Directory} {written g : List LogEntry}
    {gs : List (List LogEntry)}
    (h : Ready path rotation d₀ s d written (g :: gs)) (hentry : entry.bytes ≠ [])
    (hsize : ∀ r ∈ rotation, (dataOf g).length + entry.bytes.length ≤ r.maxSize.toNat ∨ g = []) :
    Streams path rotation d₀ ⟨{ s with offset := s.offset + entry.bytes.length },
      (d.writeAll s.path entry.bytes).writeAll (journalPath s.path)
        (JsonFileStream.journalLine s.offset entry), written ++ [entry]⟩
      ((g ++ [entry]) :: gs) := by
  have hoffset : s.offset = (dataOf g).length := h.offset g rfl
  obtain ⟨hlog, hjournal⟩ := h.files 0 g rfl
  have hlogs : ((d.writeAll s.path entry.bytes).writeAll (journalPath s.path)
      (JsonFileStream.journalLine s.offset entry)).logs path
        = Function.update (d.logs path) 0 (some (dataOf (g ++ [entry]))) := by
    rw [h.path_eq, Directory.logs_writeAll_journal, Directory.logs_writeAll, hlog, dataOf_append,
      dataOf_singleton]
    rfl
  have hjournals : ((d.writeAll s.path entry.bytes).writeAll (journalPath s.path)
      (JsonFileStream.journalLine s.offset entry)).journals path
        = Function.update (d.journals path) 0 (some (journalOf 0 (g ++ [entry]))) := by
    rw [h.path_eq, Directory.journals_writeAll_journal, Directory.journals_writeAll, hjournal,
      journalOf_append, Nat.zero_add, hoffset, journalOf, journalOf, List.append_nil]
    rfl
  have hflatten : ((g ++ [entry]) :: gs).reverse.flatten = (g :: gs).reverse.flatten ++ [entry] := by
    simp
  exact {
    current := List.cons_ne_nil _ _
    files := by
      intro i g' hg
      rw [hlogs, hjournals]
      cases i with
      | zero =>
        cases hg
        rw [Function.update_self, Function.update_self]
        exact ⟨rfl, rfl⟩
      | succ i =>
        rw [Function.update_of_ne (Nat.succ_ne_zero i), Function.update_of_ne (Nat.succ_ne_zero i)]
        exact h.files (i + 1) g' hg
    others := by
      intro i hi
      rw [hlogs, Function.update_of_ne (Nat.ne_of_gt (Nat.lt_of_lt_of_le (Nat.succ_pos _) hi))]
      exact h.others i hi
    suffix := by
      rw [hflatten]
      obtain ⟨lost, hlost⟩ := h.suffix
      exact ⟨lost, by rw [← hlost, List.append_assoc]⟩
    complete := fun hnone => by rw [hflatten, h.complete hnone]
    count := h.count
    size := by
      intro r hr g' hg
      cases List.mem_cons.mp hg with
      | inl hhead =>
        rw [hhead, dataOf_append, List.length_append, dataOf_singleton]
        cases hsize r hr with
        | inl hle => exact .inl hle
        | inr hnil => exact .inr (by rw [hnil]; exact le_rfl)
      | inr htail => exact h.size r hr g' (List.mem_cons_of_mem _ htail)
    path_eq := h.path_eq
    rotation_eq := h.rotation_eq
    offset := fun g' hg => by
      cases hg
      rw [dataOf_append, List.length_append, dataOf_singleton, ← hoffset]
    nonempty := by
      intro g' hg e he
      cases List.mem_cons.mp hg with
      | inl hhead =>
        rw [hhead] at he
        cases List.mem_append.mp he with
        | inl hold => exact h.nonempty g List.mem_cons_self e hold
        | inr hnew =>
          rw [List.mem_singleton.mp hnew]
          exact hentry
      | inr htail => exact h.nonempty g' (List.mem_cons_of_mem _ htail) e he
    unspoiled := by
      intro i hi hle
      rw [hlogs, Function.update_of_ne (Nat.ne_of_gt (Nat.lt_of_lt_of_le (Nat.succ_pos _) hi))]
      exact h.unspoiled i hi hle
    newest := fun _ g' hg => by
      cases hg
      exact List.append_ne_nil_of_right_ne_nil _ (List.cons_ne_nil _ _) }

theorem step_write (hentry : entry.bytes ≠ []) :
    st.step (.write entry) =
      let (s, d) := st.stream.rotated entry st.directory
      ⟨{ s with offset := s.offset + entry.bytes.length },
        (d.writeAll s.path entry.bytes).writeAll (journalPath s.path)
          (JsonFileStream.journalLine s.offset entry), st.written ++ [entry]⟩ := by
  rw [State.step, JsonFileStream.write, if_neg hentry, if_neg hentry]

theorem Streams.step {event : Event}
    (h : Streams path rotation d₀ st groups) (hrotates : Rotates rotation st event) :
    ∃ groups', Streams path rotation d₀ (st.step event) groups' := by
  cases event with
  | reopen => exact ⟨groups, h.reopen⟩
  | write entry =>
    by_cases hentry : entry.bytes = []
    · refine ⟨groups, ?_⟩
      rw [State.step, JsonFileStream.write, if_pos hentry, if_pos hentry]
      exact h
    rw [step_write hentry]
    by_cases hexceeds : ∃ r ∈ rotation, st.stream.exceeds entry st.directory r = true
    · obtain ⟨r, hr, hexceeds⟩ := hexceeds
      have hready := h.rotate hr (hrotates r hr hentry hexceeds) hexceeds
      exact ⟨_, hready.append hentry fun _ _ => .inr rfl⟩
    · have hfits : ∀ r ∈ rotation, ¬st.stream.exceeds entry st.directory r = true :=
        fun r hr hr' => hexceeds ⟨r, hr, hr'⟩
      obtain ⟨g, gs, rfl⟩ := List.exists_cons_of_ne_nil h.current
      refine ⟨_, (h.keep hfits).append hentry fun r hr => ?_⟩
      have hlog := (h.files 0 g rfl).1
      have hcurrent : ((st.directory st.stream.path).getD []).length = (dataOf g).length := by
        rw [h.path_eq]
        exact congrArg (fun file => (file.getD []).length) hlog
      have hfit := hfits r hr
      rw [JsonFileStream.exceeds, decide_eq_true_eq, hcurrent, not_and_or, not_lt, not_lt] at hfit
      cases hfit with
      | inr hle => exact .inl hle
      | inl hzero =>
        refine .inr (List.eq_nil_iff_forall_not_mem.mpr fun e he => ?_)
        refine h.nonempty g List.mem_cons_self e he ?_
        have hnil : dataOf g = [] := List.eq_nil_of_length_eq_zero (Nat.le_zero.mp hzero)
        exact List.flatMap_eq_nil_iff.mp hnil e he

/-! ## What goes wrong otherwise -/

theorem unspoiled_of_retained (h : Retained path rotation d₀ (.start path rotation d₀)) :
    Unspoiled path d₀ := by
  obtain ⟨-, kept, hkept, -, -, hread⟩ := h
  obtain rfl := List.suffix_nil.mp hkept
  rw [Directory.readRotated_eq, logs_start, dataOf_nil, List.flatMap_eq_nil_iff] at hread
  intro i hi hle
  have hempty := hread i (List.mem_reverse.mpr (List.mem_range.mpr (by omega)))
  rwa [Function.update_of_ne (Nat.ne_of_gt hi)] at hempty

theorem logs_step_unrotated {bytes : Bytes}
    (hpath : st.stream.path = path) (hrotation : st.stream.rotation = some r)
    (hentry : entry.bytes ≠ []) (hexceeds : st.stream.exceeds entry st.directory r = true)
    (hfiles : r.maxFiles.toNat < 2) (hlog : st.directory.logs path 0 = some bytes) :
    (st.step (.write entry)).directory.logs path 0 = some (bytes ++ entry.bytes) := by
  rw [step_write hentry, JsonFileStream.rotated, hrotation]
  dsimp only
  rw [if_pos hexceeds, Directory.rotatePair, if_pos hfiles]
  dsimp only
  rw [hpath, Directory.logs_writeAll_journal, Directory.logs_writeAll, Function.update_self,
    Directory.logs_openLogFile_journal, Directory.logs_openLogFile, Function.update_self, hlog]
  rfl

theorem rotates_of_retained {event : Event} (hpath : st.stream.path = path)
    (hrotation : st.stream.rotation = rotation) (h : Retained path rotation d₀ st)
    (h' : Retained path rotation d₀ (st.step event)) : Rotates rotation st event := by
  cases event with
  | reopen => trivial
  | write entry =>
    intro r hr hentry hexceeds
    by_contra hfiles
    rw [Option.mem_def] at hr
    obtain ⟨⟨groups, hgroups⟩, -⟩ := h
    obtain ⟨⟨groups', hgroups'⟩, -⟩ := h'
    have hsingle : ∀ {d : Directory} {ws : List LogEntry} {gs : List (List LogEntry)},
        Holds path rotation d₀ d ws gs → ∃ g, gs = [g] := by
      intro d ws gs hgs
      obtain ⟨g, rest, rfl⟩ := List.exists_cons_of_ne_nil hgs.current
      have hcount := hgs.count
      rw [hr, Option.elim_some, List.length_cons, max_eq_right (by omega)] at hcount
      have hrest : rest = [] := List.length_eq_zero_iff.mp (by omega)
      exact ⟨g, by rw [hrest]⟩
    obtain ⟨g, rfl⟩ := hsingle hgroups
    obtain ⟨g', rfl⟩ := hsingle hgroups'
    have hlog := (hgroups.files 0 g rfl).1
    have hdata := (hgroups'.files 0 g' rfl).1
    rw [logs_step_unrotated hpath (hrotation.trans hr) hentry hexceeds (by omega) hlog,
      Option.some_inj] at hdata
    have hcurrent : ((st.directory st.stream.path).getD []).length = (dataOf g).length := by
      rw [hpath]
      exact congrArg (fun file => (file.getD []).length) hlog
    rw [JsonFileStream.exceeds, decide_eq_true_eq, hcurrent] at hexceeds
    have hlength := congrArg List.length hdata
    rw [List.length_append] at hlength
    obtain hsize | hsize := hgroups'.size r hr g' List.mem_cons_self
    · omega
    -- the last entry alone is not all that the file holds
    obtain ⟨lost, hlost⟩ := hgroups'.suffix
    rw [step_write hentry, List.reverse_singleton, List.flatten_cons, List.flatten_nil,
      List.append_nil] at hlost
    match g', hsize with
    | [], _ =>
      rw [dataOf_nil, List.length_nil] at hlength
      omega
    | [e], _ =>
      have he : e = entry := by
        have hlast := congrArg List.getLast? hlost
        simpa using hlast
      rw [he, dataOf_singleton] at hlength
      omega

theorem rotated_path_rotation (s : JsonFileStream) (entry : LogEntry) (d : Directory) :
    (s.rotated entry d).1.path = s.path ∧ (s.rotated entry d).1.rotation = s.rotation := by
  unfold JsonFileStream.rotated
  split
  · exact ⟨rfl, rfl⟩
  · split <;> exact ⟨rfl, rfl⟩

theorem step_path_rotation (st : State) (event : Event) :
    (st.step event).stream.path = st.stream.path ∧
      (st.step event).stream.rotation = st.stream.rotation := by
  cases event with
  | reopen => exact ⟨rfl, rfl⟩
  | write entry =>
    by_cases hentry : entry.bytes = []
    · rw [State.step, JsonFileStream.write, if_pos hentry]
      exact ⟨rfl, rfl⟩
    · rw [step_write hentry]
      exact rotated_path_rotation st.stream entry st.directory

end Retention

/-- A stream opened anew loses only its oldest entries throughout a run exactly where no rotated
file is left over and every file that gets full can be rotated. -/
theorem log_rotation (path : String) (rotation : Option LogRotation) (d₀ : Directory)
    (events : List Event) :
    Throughout State.step (Retained path rotation d₀) (.start path rotation d₀) events ↔
      Unspoiled path d₀ ∧
        Along State.step (Rotates rotation) (.start path rotation d₀) events := by
  constructor
  · intro h
    have hsame : Throughout State.step
        (fun st => st.stream.path = path ∧ st.stream.rotation = rotation)
        (.start path rotation d₀) events := by
      refine throughout_of_step (fun st event hst => ?_) ⟨rfl, rfl⟩
      obtain ⟨hpath, hrotation⟩ := step_path_rotation st event
      exact ⟨hpath.trans hst.1, hrotation.trans hst.2⟩
    exact ⟨unspoiled_of_retained h.head,
      h.along (fun _ _ hst => rotates_of_retained hst.1 hst.2) (hsame.always fun _ _ hst => hst)⟩
  · rintro ⟨hunspoiled, hrotates⟩
    have hstreams : Throughout State.step (fun st => ∃ groups, Streams path rotation d₀ st groups)
        (.start path rotation d₀) events := by
      refine hrotates.invariant (fun st event hevent hst => ?_) ⟨_, start_streams hunspoiled⟩
      obtain ⟨groups, hgroups⟩ := hst
      exact hgroups.step hevent
    exact hstreams.mono fun st ⟨groups, hgroups⟩ => hgroups.retained

/-! Two runs in one directory, each opened with `append = false`. -/

def smallFiles : Option LogRotation := some ⟨5, 2⟩

def firstRun : Directory :=
  ([.write ⟨10, utf8 "one\n"⟩, .write ⟨20, utf8 "two\n"⟩].foldl State.step
    (.start "stdout.log" smallFiles fun _ => none)).directory

/-- The second run reads back what the first one had rotated. -/
theorem first_run_read_back :
    ((State.start "stdout.log" smallFiles firstRun).step
        (.write ⟨30, utf8 "new\n"⟩)).directory.readRotated "stdout.log" = utf8 "one\nnew\n" ∧
      ¬Throughout State.step (Retained "stdout.log" smallFiles firstRun)
        (.start "stdout.log" smallFiles firstRun) [.write ⟨30, utf8 "new\n"⟩] := by
  refine ⟨by decide +kernel, fun h => ?_⟩
  have hempty := unspoiled_of_retained h.head 1 le_rfl (by decide)
  revert hempty
  decide +kernel

/-- In an empty directory the newest entries are kept. -/
theorem log_rotation_first :
    Throughout State.step (Retained "stdout.log" smallFiles fun _ => none)
      (.start "stdout.log" smallFiles fun _ => none)
      [.write ⟨10, utf8 "one\n"⟩, .write ⟨20, utf8 "two\n"⟩, .reopen,
        .write ⟨30, utf8 "three\n"⟩] := by
  refine (log_rotation "stdout.log" smallFiles (fun _ => none) _).mpr ⟨fun _ _ _ => rfl, ?_⟩
  refine along_of_forall fun event _ st => ?_
  cases event with
  | reopen => trivial
  | write entry =>
    intro r hr _ _
    cases hr
    decide

end Ferrocrate.Log
