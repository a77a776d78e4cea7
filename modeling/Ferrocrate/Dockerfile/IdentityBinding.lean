import Ferrocrate.Dockerfile.IdentityFields
import Ferrocrate.Dockerfile.Order

/-! What the identity of a stage binds. -/
namespace Ferrocrate.Dockerfile
open Lib

structure StageSpec.Parsed (stage : StageSpec) : Prop where
  sorted : stage.sorted.Ok
  runs : stage.run.length < u64Max
  copyFromOwner : ∀ copy ∈ stage.copyFrom ++ stage.copyFromAfterRun, OwnerOk copy.owner
  copyOwner : ∀ copy ∈ stage.copyPaths ++ stage.copyPathsAfterRun, OwnerOk copy.owner
  args : ∀ entry ∈ stage.args.entries, '=' ∉ entry.1.toList
  labels : ∀ entry ∈ stage.labels.entries, '=' ∉ entry.1.toList
  fits : ∀ field ∈ stage.fields, field.2.utf8ByteSize < 2 ^ 64

structure StageSpec.Unmarked (stage : StageSpec) : Prop where
  name : stage.name ≠ some absent
  checksum : ∀ copy ∈ stage.copyPaths ++ stage.copyPathsAfterRun, copy.checksum ≠ some absent
  inline : ∀ copy ∈ stage.copyPaths ++ stage.copyPathsAfterRun, copy.inlineContent ≠ some absent
  workdir : stage.workdir ≠ some absent
  user : stage.user ≠ some absent
  stopSignal : stage.stopSignal ≠ some absent
  author : stage.author ≠ some absent
  entrypoint : stage.entrypoint ≠ some [absent]
  cmd : stage.cmd ≠ some [absent]
  run : ∀ run ∈ stage.run, run.Readable

def StageSpec.unsplit (stage : StageSpec) : StageSpec :=
  { stage with
    copyFrom := stage.copyFrom ++ stage.copyFromAfterRun
    copyFromAfterRun := []
    copyPaths := stage.copyPaths ++ stage.copyPathsAfterRun
    copyPathsAfterRun := []
    copyPathsAfterRunIndex := none }

theorem StageSpec.fields_unsplit (stage : StageSpec) : stage.unsplit.fields = stage.fields := by
  simp [StageSpec.fields, StageSpec.unsplit]

variable {s t : StageSpec}

theorem StageSpec.fields_congr (h : s.unsplit = t.unsplit) :
    s.fields = t.fields := by
  rw [← s.fields_unsplit, ← t.fields_unsplit, h]

def Behind (x : List Field) : Prop := ∀ field ∈ x.head?, field.1 ∈ ["context", "parent"]

theorem Behind.stops {x : List Field} (h : Behind x) {tags : List String}
    (hcontext : "context" ∉ tags) (hparent : "parent" ∉ tags) : Stops tags x := by
  intro field hfield hmem
  have := h field hfield
  simp only [List.mem_cons, List.not_mem_nil, or_false] at this
  rcases this with heq | heq
  · exact hcontext (heq ▸ hmem)
  · exact hparent (heq ▸ hmem)

theorem StageSpec.Parsed.index_inj (hs : s.Parsed) (ht : t.Parsed)
    (h : decimal (s.copyFromAfterRunIndex.getD u64Max) =
      decimal (t.copyFromAfterRunIndex.getD u64Max)) :
    s.copyFromAfterRunIndex = t.copyFromAfterRunIndex := by
  have hnat := decimal_injective h
  have hlt : ∀ {s : StageSpec}, s.Parsed → s.copyFromAfterRunIndex ≠ some u64Max := by
    intro s hs heq
    have h1 := (hs.sorted.left.le u64Max heq).2
    have h2 := hs.runs
    simp only [StageSpec.sorted] at h1
    omega
  cases ha : s.copyFromAfterRunIndex with
  | none =>
    cases hb : t.copyFromAfterRunIndex with
    | none => rfl
    | some b =>
      rw [ha, hb] at hnat
      exact absurd (hb.trans (congrArg some hnat.symm)) (hlt ht)
  | some a =>
    cases hb : t.copyFromAfterRunIndex with
    | none =>
      rw [ha, hb] at hnat
      exact absurd (ha.trans (congrArg some hnat)) (hlt hs)
    | some b =>
      rw [ha, hb] at hnat
      exact congrArg some hnat

theorem StageSpec.fields_append_inj {x y : List Field} (hs : s.Parsed)
    (ht : t.Parsed) (hs' : s.Unmarked) (ht' : t.Unmarked) (hx : Behind x) (hy : Behind y)
    (heq : s.fields ++ x = t.fields ++ y) : s.unsplit = t.unsplit ∧ x = y := by
  simp only [StageSpec.fields, partsFields_eq, List.cons_append, List.append_assoc, List.cons.injEq,
    Prod.mk.injEq, true_and] at heq
  obtain ⟨hbase, hname, hindex, heq⟩ := heq
  obtain ⟨hcopyFrom, heq⟩ := copyFromRecords.flatMap_append_inj hs.copyFromOwner ht.copyFromOwner
    heq (stops_append (by simp [CopySpec.fields]) (stops_append (by simp) (stops_append (by simp)
      (stops_append (by simp) (stops_append (by simp) (by simp))))))
    (stops_append (by simp [CopySpec.fields]) (stops_append (by simp) (stops_append (by simp)
      (stops_append (by simp) (stops_append (by simp) (by simp))))))
  obtain ⟨hcopyPaths, heq⟩ := copyRecords.flatMap_append_inj
    (fun copy h => ⟨hs.copyOwner copy h, hs'.checksum copy h, hs'.inline copy h⟩)
    (fun copy h => ⟨ht.copyOwner copy h, ht'.checksum copy h, ht'.inline copy h⟩) heq
    (stops_append (by simp) (stops_append (by simp) (stops_append (by simp)
      (stops_append (by simp) (by simp)))))
    (stops_append (by simp) (stops_append (by simp) (stops_append (by simp)
      (stops_append (by simp) (by simp)))))
  obtain ⟨hhealth, heq⟩ := healthcheckFields_append_inj heq
  obtain ⟨henv, heq⟩ := tagged_append_inj heq
    (stops_append (by simp) (stops_append (by simp) (by simp)))
    (stops_append (by simp) (stops_append (by simp) (by simp)))
  obtain ⟨hargs, heq⟩ := tagged_append_inj heq (stops_append (by simp) (by simp))
    (stops_append (by simp) (by simp))
  obtain ⟨hlabels, heq⟩ := tagged_append_inj heq (by simp) (by simp)
  simp only [List.cons.injEq, Prod.mk.injEq, true_and] at heq
  obtain ⟨hworkdir, huser, hstopSignal, hauthor, heq⟩ := heq
  -- the fields from the runs on, behind which the tail of the message stands
  have hruns : ∀ (u : StageSpec) {x : List Field}, Behind x → ∀ tag ∈ ["onbuild", "entrypoint",
      "cmd", "shell"], Stops [tag] (u.run.flatMap RunSpec.fields ++
        (tagged "expose" u.exposedPorts ++ (tagged "volume" u.volumes ++ x))) := by
    intro u x hx tag htag
    simp only [List.mem_cons, List.not_mem_nil, or_false] at htag
    refine stops_append ?_ (stops_append ?_ (stops_append ?_ (hx.stops ?_ ?_))) <;>
      rcases htag with rfl | rfl | rfl | rfl <;> simp [RunSpec.fields, CacheMount.fields,
        SecretMount.fields, SshMount.fields, TmpfsMount.fields, BindMount.fields]
  obtain ⟨honbuild, heq⟩ := tagged_append_inj heq
    (stops_append (by simp) (stops_append (by simp) (stops_append (by simp)
      (hruns s hx _ (by simp)))))
    (stops_append (by simp) (stops_append (by simp) (stops_append (by simp)
      (hruns t hy _ (by simp)))))
  obtain ⟨hentrypoint, heq⟩ := tagged_append_inj heq
    (stops_append (by simp) (stops_append (by simp) (hruns s hx _ (by simp))))
    (stops_append (by simp) (stops_append (by simp) (hruns t hy _ (by simp))))
  obtain ⟨hcmd, heq⟩ := tagged_append_inj heq (stops_append (by simp) (hruns s hx _ (by simp)))
    (stops_append (by simp) (hruns t hy _ (by simp)))
  obtain ⟨hshell, heq⟩ := tagged_append_inj heq (hruns s hx _ (by simp)) (hruns t hy _ (by simp))
  obtain ⟨hrun, heq⟩ := runRecords.flatMap_append_inj hs'.run ht'.run heq
    (stops_append (by simp) (stops_append (by simp) (hx.stops (by simp) (by simp))))
    (stops_append (by simp) (stops_append (by simp) (hy.stops (by simp) (by simp))))
  obtain ⟨hexpose, heq⟩ := tagged_append_inj heq
    (stops_append (by simp) (hx.stops (by simp) (by simp)))
    (stops_append (by simp) (hy.stops (by simp) (by simp)))
  obtain ⟨hvolumes, hxy⟩ := tagged_append_inj heq (hx.stops (by simp) (by simp))
    (hy.stops (by simp) (by simp))
  have hname := optionText_inj hs'.name ht'.name hname
  have hindex := hs.index_inj ht hindex
  have hargs := entries_inj hs.args ht.args hargs
  have hlabels := entries_inj hs.labels ht.labels hlabels
  have hworkdir := optionText_inj hs'.workdir ht'.workdir hworkdir
  have huser := optionText_inj hs'.user ht'.user huser
  have hstopSignal := optionText_inj hs'.stopSignal ht'.stopSignal hstopSignal
  have hauthor := optionText_inj hs'.author ht'.author hauthor
  have hentrypoint := parts_inj hs'.entrypoint ht'.entrypoint hentrypoint
  have hcmd := parts_inj hs'.cmd ht'.cmd hcmd
  refine ⟨?_, hxy⟩
  simp only [StageSpec.unsplit, StageSpec.mk.injEq]
  exact ⟨hbase, hname, hcopyFrom, trivial, hindex, hcopyPaths, trivial, trivial, hhealth, henv,
    hargs, hlabels, hworkdir, huser, hstopSignal, hauthor, honbuild, hentrypoint, hcmd, hshell,
    hrun, hexpose, hvolumes⟩

/-! ## Messages -/

def tags : List String :=
  ["base", "name", "cf.after_run_index", "cf.from", "cf.src", "cf.dest", "cf.owner", "cp.src",
    "cp.dest", "cp.chmod", "cp.owner", "cp.checksum", "cp.parents", "cp.exclude", "cp.extract",
    "cp.inline", "hc.test", "hc.interval", "hc.timeout", "hc.retries", "hc.start_period",
    "hc.start_interval", "hc", "env", "arg", "label", "workdir", "user", "stop_signal", "author",
    "onbuild", "entrypoint", "cmd", "shell", "run.arg", "run.shell", "cache.target", "cache.id",
    "cache.sharing", "cache.uid", "cache.gid", "cache.mode", "secret.target", "secret.id",
    "secret.env", "secret.required", "secret.uid", "secret.gid", "secret.mode", "ssh.target",
    "ssh.id", "ssh.required", "ssh.uid", "ssh.gid", "ssh.mode", "tmpfs.target", "tmpfs.size",
    "tmpfs.ro", "bind.source", "bind.target", "bind.ro", "run.network", "run.security", "expose",
    "volume", "context", "parent"]

theorem zero_not_mem_tags : ∀ tag ∈ tags, (0 : UInt8) ∉ utf8 tag := by decide +kernel

theorem StageSpec.allTags_fields (stage : StageSpec) : AllTags (· ∈ tags) stage.fields := by
  have hcopyFrom : ∀ copy : CopyFromSpec, AllTags (· ∈ tags) copy.fields := by
    intro copy
    simp [CopyFromSpec.fields, tags]
  have hcopy : ∀ copy : CopySpec, AllTags (· ∈ tags) copy.fields := by
    intro copy
    simp [CopySpec.fields, tags]
  have hmounts : ∀ run : RunSpec, AllTags (· ∈ tags) run.fields := by
    intro run
    simp [RunSpec.fields, CacheMount.fields, SecretMount.fields, SshMount.fields,
      TmpfsMount.fields, BindMount.fields, tags]
  simp only [StageSpec.fields, partsFields_eq, allTags_cons, allTags_append, allTags_flatMap,
    hcopyFrom, hcopy, hmounts, implies_true, true_and]
  simp [tags]

theorem framedOn_bytes :
    FramedOn {field : Field | field.1 ∈ tags ∧ field.2.utf8ByteSize < 2 ^ 64} Field.bytes := by
  intro a ha b hb s t heq
  simp only [Field.bytes, List.append_assoc, List.cons_append] at heq
  obtain ⟨htag, heq⟩ := append_separator_inj (zero_not_mem_tags _ ha.1) (zero_not_mem_tags _ hb.1) heq
  obtain ⟨hlength, heq⟩ := List.append_inj heq (by simp)
  have hsize : a.2.utf8ByteSize = b.2.utf8ByteSize := by
    have := congrArg UInt64.toNat (u64Be_injective hlength)
    rwa [UInt64.toNat_ofNat_of_lt' ha.2, UInt64.toNat_ofNat_of_lt' hb.2] at this
  obtain ⟨hvalue, hst⟩ := List.append_inj heq hsize
  exact ⟨Prod.ext (utf8_injective htag) (utf8_injective hvalue), hst⟩

theorem Field.bytes_ne_nil (field : Field) : field.bytes ≠ [] := by simp [Field.bytes]

theorem CompressionFormat.code_injective : Function.Injective CompressionFormat.code := by
  intro a b h
  cases a <;> cases b <;> first | rfl | exact absurd h (by decide)

end Ferrocrate.Dockerfile
