import Ferrocrate.Dockerfile.Parse

/-! What the parsed stage says about the order of the instructions of its body. -/
namespace Ferrocrate.Dockerfile
open Lib

abbrev Instruction := Item RunSpec CopyFromSpec CopySpec

namespace StageSpec
section
variable (parseRun : String → List String → String → Except DockerfileBuildError RunSpec)

def readInstruction (stage : StageSpec) (line : Keyword × String) :
    Except DockerfileBuildError (Option Instruction) := do
  let interpolated := stage.interpolateValue line.2
  match line.1 with
  | .copy =>
    match ← parseCopyFrom interpolated with
    | some copy => pure (some (.left copy))
    | none =>
      match ← parseCopySpec interpolated with
      | none => pure none
      | some copy =>
        if copy.checksum.isSome then
          throw (.invalid "COPY --checksum is only valid for remote ADD")
        pure (some (.right copy))
  | .add =>
    match ← parseCopySpec interpolated with
    | none => pure none
    | some copy => pure (some (.right { copy with extractArchives := true }))
  | .run =>
    let run ← parseRun interpolated stage.shell (stage.workdir.getD "/")
    pure (some (.run run))

def readBody (stage : StageSpec) :
    List (Keyword × String) → Except DockerfileBuildError (List Instruction)
  | [] => .ok []
  | line :: lines => do
    let item ← stage.readInstruction parseRun line
    let items ← readBody stage lines
    pure (item.toList ++ items)

end

def apply (stage : StageSpec) : Instruction → StageSpec
  | .run run => { stage with run := stage.run ++ [run] }
  | .left copy => stage.pushCopyFrom copy
  | .right copy => stage.pushCopyPath copy

def sorted (stage : StageSpec) : Sorted RunSpec CopyFromSpec CopySpec where
  runs := stage.run
  left := ⟨stage.copyFrom, stage.copyFromAfterRun, stage.copyFromAfterRunIndex⟩
  right := ⟨stage.copyPaths, stage.copyPathsAfterRun, stage.copyPathsAfterRunIndex⟩

def withSorted (stage : StageSpec) (s : Sorted RunSpec CopyFromSpec CopySpec) : StageSpec :=
  { stage with
    run := s.runs
    copyFrom := s.left.before
    copyFromAfterRun := s.left.after
    copyFromAfterRunIndex := s.left.index
    copyPaths := s.right.before
    copyPathsAfterRun := s.right.after
    copyPathsAfterRunIndex := s.right.index }

variable {stage : StageSpec}

@[simp] theorem sorted_withSorted (s : Sorted RunSpec CopyFromSpec CopySpec) :
    (stage.withSorted s).sorted = s := rfl

@[simp] theorem withSorted_sorted : stage.withSorted stage.sorted = stage := rfl

@[simp] theorem withSorted_withSorted (s t : Sorted RunSpec CopyFromSpec CopySpec) :
    (stage.withSorted s).withSorted t = stage.withSorted t := rfl

theorem apply_eq (item : Instruction) :
    stage.apply item = stage.withSorted (stage.sorted.push item) := by
  cases item with
  | run run => rfl
  | left copy =>
    by_cases h : stage.run = []
    · simp [apply, pushCopyFrom, Sorted.push, Lane.push, sorted, withSorted, h]
    · simp [apply, pushCopyFrom, Sorted.push, Lane.push, sorted, withSorted, h]
  | right copy =>
    by_cases h : stage.run = []
    · simp [apply, pushCopyPath, Sorted.push, Lane.push, sorted, withSorted, h]
    · simp [apply, pushCopyPath, Sorted.push, Lane.push, sorted, withSorted, h]

theorem foldl_apply (items : List Instruction) :
    items.foldl apply stage = stage.withSorted (items.foldl Sorted.push stage.sorted) := by
  induction items generalizing stage with
  | nil => rfl
  | cons item items ih =>
    rw [List.foldl_cons, ih, apply_eq, sorted_withSorted, withSorted_withSorted, List.foldl_cons]

section
variable {parseRun : String → List String → String → Except DockerfileBuildError RunSpec}

theorem readInstruction_apply (item : Instruction) (line : Keyword × String) :
    (stage.apply item).readInstruction parseRun line = stage.readInstruction parseRun line := by
  rw [apply_eq]
  rfl

theorem readBody_apply (item : Instruction) (lines : List (Keyword × String)) :
    (stage.apply item).readBody parseRun lines = stage.readBody parseRun lines := by
  induction lines with
  | nil => rfl
  | cons line lines ih => rw [readBody, readBody, ih, readInstruction_apply]

theorem instruction_eq (keyword : Keyword) (value : String) :
    stage.instruction parseRun keyword value =
      (stage.readInstruction parseRun (keyword, value)).map fun item => item.elim stage stage.apply := by
  cases keyword with
  | copy =>
    simp only [instruction, readInstruction]
    cases parseCopyFrom (stage.interpolateValue value) with
    | error error => rfl
    | ok copy =>
      cases copy with
      | some copy => rfl
      | none =>
        cases parseCopySpec (stage.interpolateValue value) with
        | error error => rfl
        | ok copy =>
          cases copy with
          | none => rfl
          | some copy =>
            cases hchecksum : copy.checksum with
            | none => simp [hchecksum, bind, Except.bind, pure, Except.pure, Except.map, apply]
            | some checksum =>
              simp [hchecksum, bind, Except.bind, Except.map, throw, throwThe,
                MonadExceptOf.throw]
  | add =>
    simp only [instruction, readInstruction]
    cases parseCopySpec (stage.interpolateValue value) with
    | error error => rfl
    | ok copy => cases copy <;> rfl
  | run =>
    simp only [instruction, readInstruction]
    cases parseRun (stage.interpolateValue value) stage.shell (stage.workdir.getD "/") <;> rfl

theorem parseBody_eq (lines : List (Keyword × String)) :
    stage.parseBody parseRun lines =
      (stage.readBody parseRun lines).map fun items => items.foldl apply stage := by
  induction lines generalizing stage with
  | nil => rfl
  | cons line lines ih =>
    rw [parseBody, List.foldlM_cons, instruction_eq, readBody]
    cases stage.readInstruction parseRun line with
    | error error => rfl
    | ok item =>
      cases item with
      | none =>
        refine (@ih stage).trans ?_
        cases stage.readBody parseRun lines <;> rfl
      | some item =>
        refine (@ih (stage.apply item)).trans ?_
        rw [readBody_apply]
        cases stage.readBody parseRun lines <;> rfl

variable {items : List Instruction}

theorem exists_line {lines : List (Keyword × String)}
    (h : stage.readBody parseRun lines = .ok items) (item : Instruction) (hitem : item ∈ items) :
    ∃ line, stage.readInstruction parseRun line = .ok (some item) := by
  induction lines generalizing items with
  | nil =>
    cases h
    cases hitem
  | cons line lines ih =>
    rw [readBody] at h
    cases hread : stage.readInstruction parseRun line with
    | error error =>
      rw [hread] at h
      cases h
    | ok first =>
      cases hrest : stage.readBody parseRun lines with
      | error error =>
        rw [hread, hrest] at h
        cases h
      | ok rest =>
        rw [hread, hrest] at h
        cases h
        rcases List.mem_append.mp hitem with hfirst | hitem
        · exact ⟨line, by rw [hread, Option.mem_toList.mp hfirst]⟩
        · exact ih hrest hitem

theorem exists_body
    (h : ∀ item ∈ items, ∃ line, stage.readInstruction parseRun line = .ok (some item)) :
    ∃ lines, stage.readBody parseRun lines = .ok items := by
  induction items with
  | nil => exact ⟨[], rfl⟩
  | cons item items ih =>
    obtain ⟨line, hline⟩ := h item List.mem_cons_self
    obtain ⟨lines, hlines⟩ := ih fun i hi => h i (List.mem_cons_of_mem _ hi)
    refine ⟨line :: lines, ?_⟩
    rw [readBody, hline, hlines]
    rfl

end
end StageSpec

section
variable (parseRun : String → List String → String → Except DockerfileBuildError RunSpec)

/-- For every body behind a `FROM`: no other sequence of instructions gives the same stage, if and
only if no two neighbours can change places. -/
theorem instruction_order_iff (base : String) (name : Option String)
    (globalArgs : OrdMap String String) {lines : List (Keyword × String)}
    {items : List Instruction}
    (hread : (StageSpec.start base name globalArgs).readBody parseRun lines = .ok items) :
    (∀ lines' items', (StageSpec.start base name globalArgs).readBody parseRun lines' = .ok items' →
      (StageSpec.start base name globalArgs).parseBody parseRun lines' =
        (StageSpec.start base name globalArgs).parseBody parseRun lines → items' = items) ↔
      ¬ Exchangeable items := by
  let stage := StageSpec.start base name globalArgs
  have hparse : ∀ lines items, stage.readBody parseRun lines = .ok items →
      stage.parseBody parseRun lines = .ok (stage.withSorted (sort items)) := by
    intro lines items h
    rw [StageSpec.parseBody_eq, h, Except.map, StageSpec.foldl_apply]
    rfl
  constructor
  · intro h hexchange
    obtain ⟨items', hperm, hsort, hne⟩ := hexchange.exists_ne
    obtain ⟨lines', hread'⟩ := StageSpec.exists_body fun item hitem =>
      StageSpec.exists_line hread item (hperm.mem_iff.mp hitem)
    refine hne (h lines' items' hread' ?_)
    rw [hparse lines items hread, hparse lines' items' hread', hsort]
  · intro hnot lines' items' hread' heq
    rw [hparse lines items hread, hparse lines' items' hread', Except.ok.injEq] at heq
    have hsort := congrArg StageSpec.sorted heq
    rw [StageSpec.sorted_withSorted, StageSpec.sorted_withSorted] at hsort
    exact sort_unique_iff.mpr hnot items' hsort

end

def shellRun (raw : String) (shell : List String) (_workdir : String) :
    Except DockerfileBuildError RunSpec :=
  .ok ⟨shell ++ [trimText raw], true, [], [], [], [], [], none, .sandbox⟩

def shellItem (command : String) : Instruction :=
  .run ⟨["/bin/sh", "-c", command], true, [], [], [], [], [], none, .sandbox⟩

def copyItem (src dest : String) : Instruction :=
  .right { CopySpec.blank with srcs := [src], dest := dest }

theorem instruction_order_iff_run_copy :
    (∀ lines' items', (StageSpec.start "alpine" none .empty).readBody shellRun lines' = .ok items' →
      (StageSpec.start "alpine" none .empty).parseBody shellRun lines' =
        (StageSpec.start "alpine" none .empty).parseBody shellRun
          [(.run, "true"), (.copy, "a /a")] → items' = [shellItem "true", copyItem "a" "/a"]) ↔
      ¬ Exchangeable [shellItem "true", copyItem "a" "/a"] :=
  instruction_order_iff shellRun "alpine" none .empty (by decide +kernel)

/-- Of two copies after a run only the first is placed: the second may follow another run or not. -/
theorem second_copy_not_ordered :
    ¬ ∀ (parseRun : String → List String → String → Except DockerfileBuildError RunSpec)
      (base : String) (name : Option String) (globalArgs : OrdMap String String)
      (lines lines' : List (Keyword × String)) (items items' : List Instruction),
      (StageSpec.start base name globalArgs).readBody parseRun lines = .ok items →
      (StageSpec.start base name globalArgs).readBody parseRun lines' = .ok items' →
      (StageSpec.start base name globalArgs).parseBody parseRun lines =
        (StageSpec.start base name globalArgs).parseBody parseRun lines' → items = items' := by
  intro h
  have heq := h shellRun "alpine" none .empty
    [(.run, "true"), (.copy, "a /a"), (.run, "make"), (.copy, "b /b")]
    [(.run, "true"), (.copy, "a /a"), (.copy, "b /b"), (.run, "make")]
    [shellItem "true", copyItem "a" "/a", shellItem "make", copyItem "b" "/b"]
    [shellItem "true", copyItem "a" "/a", copyItem "b" "/b", shellItem "make"]
    (by decide +kernel) (by decide +kernel) (by decide +kernel)
  revert heq
  decide +kernel

end Ferrocrate.Dockerfile
