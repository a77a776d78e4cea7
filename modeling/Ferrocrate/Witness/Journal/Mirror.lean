import Ferrocrate.Witness.Journal.Faultless
import Ferrocrate.Witness.Journal.Reopened
import Ferrocrate.Witness.WitnessReader

/-! The read mirror beside a journal: how it is written on, rebuilt when the journal is opened,
and read back. -/
namespace Ferrocrate.Witness
open Lib Lib.Program Journal

namespace Journal
variable (sha256 : Hasher)

def storedFrames (stored : List Bytes) : Except JournalError (List (UInt64 × Bytes)) :=
  stored.mapM fun bytes =>
    match decodeRecord bytes with
    | .error e => .error (.record e)
    | .ok decoded => .ok (decoded.record.sequence, bytes)

def lastFrame (frames : List (UInt64 × Bytes)) : UInt64 := (frames.getLast?.map (·.1)).getD 0

def rebuildReadMirror : Journaled Unit := do
  let j ← get
  if j.mirror.segments ≠ [] then do
    let stored ← ofExcept id (WitnessReader.read sha256 j.config.journalId j.mirror)
    let frames ← ofExcept id (storedFrames stored)
    modify fun j => { j with mirror := { j.mirror with sequence := lastFrame frames } }
    appendReadMirror
    modify fun j => { j with mirror := { j.mirror with stale := false } }
  else do
    let stored ← ofExcept id (records j)
    let frames ← ofExcept id (storedFrames stored)
    modify fun j => { j with mirror :=
      { j.mirror with
        active := WitnessJournal.readerMagic ++ j.config.journalId.val ++ segmentBlob frames
        stale := false
        sequence := lastFrame frames } }

def repairReadMirror : Journaled Unit := do
  match ← attempt (rebuildReadMirror sha256) with
  | .error _ => modify fun j => { j with mirror := { j.mirror with stale := true } }
  | .ok _ => pure ()

end Journal

def WitnessJournal.openExisting (sha256 : Hasher) (j : WitnessJournal) :
    Except JournalError WitnessJournal :=
  (j.reopen ∅ { j.mirror with sequence := 0 }).map (repairReadMirror sha256).after

/-! Records numbered one after the other. -/

def Numbered (start : Nat) (rs : List WitnessRecord) : Prop :=
  ∀ i r, rs[i]? = some r → r.sequence.toNat = start + i + 1

variable {start : Nat}

theorem numbered_append {xs ys : List WitnessRecord} :
    Numbered start (xs ++ ys) ↔ Numbered start xs ∧ Numbered (start + xs.length) ys := by
  constructor
  · intro h
    constructor
    · intro i r hr
      obtain ⟨hi, -⟩ := List.getElem?_eq_some_iff.mp hr
      exact h i r (by rw [List.getElem?_append_left hi, hr])
    · intro i r hr
      have hnum := h (xs.length + i) r
        (by rw [List.getElem?_append_right (Nat.le_add_right _ _), Nat.add_sub_cancel_left, hr])
      omega
  · rintro ⟨hxs, hys⟩ i r hr
    by_cases hi : i < xs.length
    · rw [List.getElem?_append_left hi] at hr
      exact hxs i r hr
    · rw [List.getElem?_append_right (Nat.le_of_not_lt hi)] at hr
      have hnum := hys _ r hr
      omega

variable {xs : List WitnessRecord}

theorem Numbered.head {x : WitnessRecord}
    (h : Numbered start (x :: xs)) : x.sequence.toNat = start + 1 := h 0 x rfl

theorem Numbered.bounds (h : Numbered start xs)
    {x : WitnessRecord} (hx : x ∈ xs) :
    start < x.sequence.toNat ∧ x.sequence.toNat ≤ start + xs.length := by
  obtain ⟨i, hi⟩ := List.getElem?_of_mem hx
  obtain ⟨hlt, -⟩ := List.getElem?_eq_some_iff.mp hi
  have hnum := h i x hi
  omega

theorem Refines.numbered {sha256 : Hasher} {config : JournalConfig} {l : Ledger}
    {j : WitnessJournal} (h : Refines sha256 config l j) : Numbered 0 l.entries := by
  intro i r hr
  have hnum := h.represents.wellFormed.numbered i r hr
  omega

/-! The files of a mirror. -/

def chunkRange (rs : List WitnessRecord) : UInt64 × UInt64 :=
  ((rs.head?.map WitnessRecord.sequence).getD 0, (rs.getLast?.map WitnessRecord.sequence).getD 0)

structure Files (journalId : Id) (cs : List (List WitnessRecord)) (c : List WitnessRecord)
    (m : ReadMirror) : Prop where
  segments : m.segments = cs.map fun d => (chunkRange d, mirrorFile journalId d)
  active : m.active = mirrorFile journalId c
  nonempty : ∀ d ∈ cs, d ≠ []
  size : ∀ d ∈ cs ++ [c], (mirrorFile journalId d).length ≤ maxMirrorBytes

structure Mirrored (journalId : Id) (rs : List WitnessRecord) (m : ReadMirror) : Prop where
  fresh : m.stale = false
  bound : m.sequence.toNat ≤ rs.length
  files : ∃ cs c, rs.take m.sequence.toNat = cs.flatten ++ c ∧ Files journalId cs c m

section Files
variable {journalId : Id} {cs : List (List WitnessRecord)} {c : List WitnessRecord} {m : ReadMirror}

theorem length_mirrorFile_eq (journalId : Id) (rs : List WitnessRecord) :
    (mirrorFile journalId rs).length = headerBytes + footprint journalId rs := by
  rw [length_mirrorFile, length_segmentBlob, keyed, footprint, List.map_map]
  rfl

theorem headerBytes_add_le {n : Nat} (h : n ≤ 431) : headerBytes + n ≤ maxMirrorBytes := by
  have hmax : headerBytes + 431 ≤ maxMirrorBytes := by decide
  omega

theorem mirrorFile_append (journalId : Id) (rs : List WitnessRecord) (x : WitnessRecord) :
    mirrorFile journalId (rs ++ [x]) = mirrorFile journalId rs ++ (u64Be x.sequence
      ++ (u32Be (recordLayout journalId x).length ++ recordLayout journalId x)) := by
  simp [mirrorFile, segmentBlob, keyed]

theorem firstSequence_mem {d : List WitnessRecord} (h : d ≠ []) :
    ∃ x ∈ d, (chunkRange d).1 = x.sequence := by
  cases d with
  | nil => exact absurd rfl h
  | cons x xs => exact ⟨x, List.mem_cons_self, rfl⟩

theorem chunkRange_ordered {start : Nat} (hne : ∀ d ∈ cs, d ≠ [])
    (hnum : Numbered start cs.flatten) :
    cs.Pairwise fun d d' => (chunkRange d).1.toNat < (chunkRange d').1.toNat := by
  induction cs generalizing start with
  | nil => exact .nil
  | cons d cs ih =>
    rw [List.flatten_cons, numbered_append] at hnum
    refine .cons (fun d' hd' => ?_) (ih (fun x hx => hne x (List.mem_cons_of_mem _ hx)) hnum.2)
    obtain ⟨x, hx, hfirst⟩ := firstSequence_mem (hne d List.mem_cons_self)
    obtain ⟨y, hy, hfirst'⟩ := firstSequence_mem (hne d' (List.mem_cons_of_mem _ hd'))
    have hlow := hnum.1.bounds hx
    have hhigh := hnum.2.bounds (List.mem_flatten.mpr ⟨d', hd', hy⟩)
    rw [hfirst, hfirst']
    omega

theorem Files.parts_eq (h : Files journalId cs c m) (hnum : Numbered 0 cs.flatten)
    {listing : List ((UInt64 × UInt64) × Bytes)} (hperm : listing.Perm m.segments) :
    WitnessReader.parts { m with segments := listing } = (cs ++ [c]).map (mirrorFile journalId) := by
  have hordered : m.segments.Pairwise fun a b => a.1.1 < b.1.1 := by
    rw [h.segments, List.pairwise_map]
    exact (chunkRange_ordered h.nonempty hnum).imp fun hlt => UInt64.lt_iff_toNat_lt.mpr hlt
  have hkeys : (m.segments.map (·.1.1)).Nodup :=
    List.pairwise_map.mpr (hordered.imp fun hlt => (UInt64.ne_of_lt hlt))
  have hsorted : listing.insertionSort (fun a b => a.1.1 ≤ b.1.1) = m.segments := by
    have hmem := (List.perm_insertionSort (fun a b : (UInt64 × UInt64) × Bytes => a.1.1 ≤ b.1.1)
      listing).trans hperm
    refine hmem.eq_of_pairwise (fun a b ha hb hab hba => ?_) (List.pairwise_insertionSort _ _)
      (hordered.imp fun hlt => UInt64.le_of_lt hlt)
    exact List.inj_on_of_nodup_map hkeys (hmem.subset ha) hb (UInt64.le_antisymm hab hba)
  simp only [WitnessReader.parts, hsorted, h.active, h.segments, List.map_append, List.map_map]
  rfl

theorem wp_rotateReadMirror {j : WitnessJournal} {last : UInt64}
    (hconfig : j.config.journalId = journalId) (h : Files journalId cs c j.mirror) (hne : c ≠ [])
    (hnum : Numbered 0 (cs.flatten ++ c)) (hlast : last.toNat = (cs.flatten ++ c).length) :
    wp (rotateReadMirror last) (fun _ j' => ∃ m, j' = { j with mirror := m } ∧
        m.stale = j.mirror.stale ∧ m.sequence = j.mirror.sequence ∧
        Files journalId (cs ++ [c]) [] m) (fun _ _ => False) j := by
  obtain ⟨x, xs, rfl⟩ := List.exists_cons_of_ne_nil hne
  have hpos := length_recordLayout_pos journalId x
  have hparts := numbered_append.mp hnum
  have hhead := hparts.2.head
  have hlength : 32 ≤ j.mirror.active.length := by
    rw [h.active, length_mirrorFile_eq]
    simp only [headerBytes, footprint, List.map_cons, List.sum_cons]
    omega
  have hfirst : UInt64.ofNat (ofBe ((j.mirror.active.drop 24).take 8)) = x.sequence := by
    have hdrop : j.mirror.active.drop 24 = segmentBlob (keyed journalId (x :: xs)) := by
      rw [h.active, mirrorFile]
      refine List.drop_left' ?_
      rw [List.length_append, length_readerMagic, FixedBytes.length_val]
    rw [hdrop, WitnessReader.blob_cons, List.take_left' (length_u64Be _), ofBe_u64Be]
  have hend : (x :: xs).getLast? = some ((x :: xs).getLast hne) := List.getLast?_eq_some_getLast hne
  have hlastNumber : ((x :: xs).getLast hne).sequence = last := by
    refine UInt64.toNat_inj.mp ?_
    have hget := hparts.2 xs.length _ (by
      rw [← hend, List.getLast?_eq_getElem?]
      rfl)
    rw [hget, hlast, List.length_append, List.length_cons]
    omega
  simp only [rotateReadMirror, wp_bind, wp_get, wp_rejectIf, wp_set, hfirst]
  refine ⟨fun hshort => absurd hlength (Nat.not_le.mpr hshort), fun _ => ⟨?_, fun _ => ?_⟩⟩
  · rintro (hzero | hless)
    · rw [hzero] at hhead
      exact absurd hhead (by simp)
    · rw [UInt64.lt_iff_toNat_lt, hhead, hlast, List.length_append, List.length_cons] at hless
      omega
  · refine ⟨_, rfl, rfl, rfl, ?_, ?_, ?_, ?_⟩
    · have hnew : ∀ f ∈ j.mirror.segments, f.1 ≠ (x.sequence, last) := by
        intro f hf heq
        rw [h.segments] at hf
        obtain ⟨d, hd, rfl⟩ := List.mem_map.mp hf
        obtain ⟨y, hy, hfirst'⟩ := firstSequence_mem (h.nonempty d hd)
        have hlow := hparts.1.bounds (List.mem_flatten.mpr ⟨d, hd, hy⟩)
        have hsame : y.sequence = x.sequence := hfirst'.symm.trans (congrArg Prod.fst heq)
        rw [hsame] at hlow
        omega
      have hrange : chunkRange (x :: xs) = (x.sequence, last) := by
        simp only [chunkRange, hend, List.head?_cons, Option.map_some, Option.getD_some, hlastNumber]
      show List.filter _ _ ++ _ = _
      rw [List.filter_eq_self.mpr (by simpa using hnew), h.segments, h.active, List.map_append,
        ← hrange]
      rfl
    · show WitnessJournal.readerMagic ++ j.config.journalId.val = _
      rw [hconfig, mirrorFile]
      exact (List.append_nil _).symm
    · intro d hd
      rcases List.mem_append.mp hd with hd | hd
      · exact h.nonempty d hd
      · rw [List.mem_singleton.mp hd]
        exact hne
    · intro d hd
      rcases List.mem_append.mp hd with hd | hd
      · exact h.size d hd
      · rw [List.mem_singleton.mp hd, length_mirrorFile_eq]
        exact headerBytes_add_le (Nat.zero_le _)

theorem wp_appendFrames (todo : List WitnessRecord) {j : WitnessJournal}
    (hconfig : j.config.journalId = journalId) (h : Files journalId cs c j.mirror)
    (hnum : Numbered 0 (cs.flatten ++ c ++ todo))
    (hget : ∀ x ∈ todo, j.store.records.get x.sequence = some (recordLayout journalId x))
    (hsize : j.config.mirrorSegmentLimit ≤ maxMirrorBytes ∨
      j.mirror.active.length + footprint journalId todo ≤ maxMirrorBytes) :
    wp (appendFrames todo.length (UInt64.ofNat ((cs.flatten ++ c).length + 1)))
      (fun _ j' => ∃ m cs' c', j' = { j with mirror := m } ∧ m.stale = j.mirror.stale ∧
        m.sequence = j.mirror.sequence ∧ Files journalId cs' c' m ∧
        cs'.flatten ++ c' = cs.flatten ++ c ++ todo)
      (fun _ _ => False) j := by
  induction todo generalizing j cs c with
  | nil => exact ⟨j.mirror, cs, c, rfl, rfl, rfl, h, (List.append_nil _).symm⟩
  | cons x todo ih =>
    have hparts := numbered_append.mp hnum
    have hx := hparts.2.head
    have hkey : UInt64.ofNat ((cs.flatten ++ c).length + 1) = x.sequence := by
      rw [← UInt64.ofNat_toNat (x := x.sequence), hx, Nat.zero_add]
    have hlen := length_recordLayout_le journalId x
    have hframes : footprint journalId (x :: todo)
        = (recordLayout journalId x).length + 12 + footprint journalId todo := by
      simp [footprint]
    -- what is left to do once there is room in the active file
    have hwrite : ∀ (cs' : List (List WitnessRecord)) (c' : List WitnessRecord) (m : ReadMirror),
        m.stale = j.mirror.stale → m.sequence = j.mirror.sequence →
        Files journalId cs' c' m → cs'.flatten ++ c' = cs.flatten ++ c →
        headerBytes + footprint journalId c' + (recordLayout journalId x).length + 12
          ≤ maxMirrorBytes → m.active.length ≤ j.mirror.active.length →
        wp (appendFrames todo.length (x.sequence + 1))
          (fun _ j' => ∃ m cs' c', j' = { j with mirror := m } ∧ m.stale = j.mirror.stale ∧
            m.sequence = j.mirror.sequence ∧ Files journalId cs' c' m ∧
            cs'.flatten ++ c' = cs.flatten ++ c ++ (x :: todo))
          (fun _ _ => False) { j with mirror := { m with
            active := m.active ++ (u64Be x.sequence ++ (u32Be (recordLayout journalId x).length
              ++ recordLayout journalId x)) } } := by
      intro cs' c' m hstale hsequence hfiles hflat hfit hshort
      have hactive : m.active ++ (u64Be x.sequence ++ (u32Be (recordLayout journalId x).length
          ++ recordLayout journalId x)) = mirrorFile journalId (c' ++ [x]) := by
        rw [hfiles.active, mirrorFile_append]
      have hnext : x.sequence + 1 = UInt64.ofNat ((cs'.flatten ++ (c' ++ [x])).length + 1) := by
        rw [← List.append_assoc, hflat, List.length_append, List.length_singleton, UInt64.ofNat_add,
          hkey]
        rfl
      have hnew : Files journalId cs' (c' ++ [x]) { m with active := m.active ++ (u64Be x.sequence
          ++ (u32Be (recordLayout journalId x).length ++ recordLayout journalId x)) } := by
        refine ⟨hfiles.segments, hactive, hfiles.nonempty, fun d hd => ?_⟩
        rcases List.mem_append.mp hd with hd | hd
        · exact hfiles.size d (List.mem_append_left _ hd)
        · rw [List.mem_singleton.mp hd, length_mirrorFile_eq, footprint_append]
          simp only [footprint, List.map_cons, List.map_nil, List.sum_cons, List.sum_nil] at hfit ⊢
          omega
      rw [hnext]
      refine wp_mono (ih hconfig hnew ?_ (fun y hy => hget y (List.mem_cons_of_mem _ hy)) ?_) ?_
        (fun _ _ hf => hf)
      · rw [← List.append_assoc, hflat, List.append_assoc]
        exact hnum
      · refine hsize.imp_right fun hsum => ?_
        simp only [List.length_append, length_u64Be, length_u32Be]
        omega
      · rintro _ j' ⟨m', cs'', c'', rfl, hs, hq, hf, he⟩
        refine ⟨m', cs'', c'', rfl, hs.trans hstale, hq.trans hsequence, hf, ?_⟩
        rw [he, ← List.append_assoc, hflat]
        simp
    simp only [List.length_cons, appendFrames, wp_bind, wp_get, wp_okOr, wp_modify, wp_runIf, hkey,
      hget x List.mem_cons_self]
    refine ⟨fun bytes hbytes => ?_, fun hnone => by cases hnone⟩
    obtain rfl := Option.some.inj hbytes
    constructor
    · rintro ⟨hlong, -⟩
      have hne : c ≠ [] := by
        rintro rfl
        rw [h.active, length_mirrorFile_eq] at hlong
        simp [footprint, headerBytes] at hlong
      have hlast : (x.sequence - 1).toNat = (cs.flatten ++ c).length := by
        rw [UInt64.toNat_sub_of_le _ _ (by rw [UInt64.le_iff_toNat_le, hx]; simp), hx]
        simp
      refine wp_mono (wp_rotateReadMirror hconfig h hne hparts.1 hlast) ?_ (fun _ _ hf => hf)
      rintro _ j' ⟨m, rfl, hs, hq, hf⟩
      refine hwrite (cs ++ [c]) [] m hs hq hf (by simp) ?_ ?_
      · have hroom := @headerBytes_add_le ((recordLayout journalId x).length + 12) (by omega)
        simp only [footprint, List.map_nil, List.sum_nil]
        omega
      · rw [hf.active, length_mirrorFile_eq]
        simp only [headerBytes, footprint, List.map_nil, List.sum_nil]
        omega
    · intro hkeep
      have hactive := h.active
      have hlength := length_mirrorFile_eq journalId c
      rw [← hactive] at hlength
      refine hwrite cs c j.mirror rfl rfl h rfl ?_ (Nat.le_refl _)
      rw [← hlength]
      by_cases hshort : j.mirror.active.length ≤ 24
      · have hroom := @headerBytes_add_le ((recordLayout journalId x).length + 12) (by omega)
        simp only [headerBytes] at hroom
        omega
      · rcases hsize with hlimit | hsum
        · -- the file stays below the limit, which is far from where the sum saturates
          have hbelow := (Nat.le_of_not_lt (not_and.mp hkeep (Nat.lt_of_not_le hshort))).trans hlimit
          rw [saturatingAdd, min_le_iff] at hbelow
          rcases hbelow with hbelow | hbelow
          · simp only [List.length_append, length_u64Be, length_u32Be] at hbelow
            omega
          · exact absurd hbelow (by decide)
        · omega

end Files

theorem Mirrored.of_prefix {journalId : Id} {rs rs' : List WitnessRecord} {m : ReadMirror}
    (h : Mirrored journalId rs m) (hp : rs <+: rs') : Mirrored journalId rs' m := by
  obtain ⟨new, rfl⟩ := hp
  refine ⟨h.fresh, ?_, ?_⟩
  · rw [List.length_append]
    exact h.bound.trans (Nat.le_add_right _ _)
  · rw [List.take_append_of_le_length h.bound]
    exact h.files

section Refined
variable {sha256 : Hasher} {config : JournalConfig} {l : Ledger} {j : WitnessJournal}

theorem Mirrored.read_eq {m : ReadMirror} (h : Mirrored config.journalId l.entries m)
    (hr : Refines sha256 config l j) {listing : List ((UInt64 × UInt64) × Bytes)}
    (hperm : listing.Perm m.segments) :
    WitnessReader.read sha256 config.journalId { m with segments := listing }
      = .ok ((l.entries.take m.sequence.toNat).map (recordLayout config.journalId)) := by
  obtain ⟨cs, c, htake, hfiles⟩ := h.files
  have hsplit := List.take_append_drop m.sequence.toNat l.entries
  have hnum := hr.numbered
  have hlinked := hr.represents.wellFormed.linked
  rw [← hsplit] at hnum hlinked
  have hnum := (numbered_append.mp hnum).1
  have hlinked := ((HashChain.linked_append _ _ _ _ _).mp hlinked).1
  have hflat : (cs ++ [c]).flatten = l.entries.take m.sequence.toNat := by simp [htake]
  have hnumbered : Numbered 0 cs.flatten := by
    rw [htake] at hnum
    exact (numbered_append.mp hnum).1
  obtain ⟨d, ds, hds⟩ := List.exists_cons_of_ne_nil (l := cs ++ [c]) (by simp)
  have hparts := hfiles.parts_eq hnumbered hperm
  have hsize := hfiles.size
  rw [hds] at hparts hsize hflat
  rw [List.flatten_cons] at hflat
  rw [← hflat]
  refine WitnessReader.read_eq d ds h.fresh hparts hsize ⟨?_, ?_, ?_⟩
  · rw [hflat]
    exact hnum
  · rw [hflat]
    exact hlinked
  · rw [hflat]
    exact fun x hx => hr.represents.wellFormed.valid x (List.mem_of_mem_take hx)

theorem Refines.get_of_contains (h : Refines sha256 config l j) {k : Nat} {x : WitnessRecord}
    (hx : l.entries[k]? = some x) (hreach : j.store.records.contains x.sequence = true) :
    ∀ y ∈ l.entries.drop k,
      j.store.records.get y.sequence = some (recordLayout config.journalId y) := by
  obtain ⟨blocks, active, hent, hscan⟩ := h.represents.scan
  obtain ⟨bytes, hbytes⟩ := Option.isSome_iff_exists.mp hreach
  have hmem := (Tree.get_eq_some_iff _).mp hbytes
  rw [hscan.records] at hmem
  obtain ⟨r, hr, heq⟩ := List.mem_map.mp hmem
  have hsame : r = x := h.represents.wellFormed.eq_of_sequence
    (hent ▸ List.mem_append_right _ hr) (List.mem_of_getElem? hx) (Prod.mk.inj heq).1
  subst hsame
  obtain ⟨p, hp⟩ := List.getElem?_of_mem hr
  have hindex : l.entries[blocks.flatten.length + p]? = some r := by
    rw [hent, List.getElem?_append_right (Nat.le_add_right _ _), Nat.add_sub_cancel_left, hp]
  have hk := h.numbered k r hx
  have hk' := h.numbered _ r hindex
  intro y hy
  have hle : blocks.flatten.length ≤ k := by omega
  rw [hent, List.drop_append, List.drop_eq_nil_of_le hle, List.nil_append] at hy
  rw [Tree.get_eq_some_iff, hscan.records]
  exact List.mem_map.mpr ⟨y, List.mem_of_mem_drop hy, rfl⟩

theorem wp_appendReadMirror (hr : Refines sha256 config l j)
    (h : Mirrored config.journalId l.entries j.mirror)
    (hget : ∀ x ∈ l.entries.drop j.mirror.sequence.toNat,
      j.store.records.get x.sequence = some (recordLayout config.journalId x))
    (hsize : config.mirrorSegmentLimit ≤ maxMirrorBytes ∨ j.mirror.active.length
      + footprint config.journalId (l.entries.drop j.mirror.sequence.toNat) ≤ maxMirrorBytes) :
    wp appendReadMirror (fun _ j' => ∃ m, j' = { j with mirror := m } ∧
        Mirrored config.journalId l.entries m ∧ m.sequence.toNat = l.entries.length)
      (fun _ _ => False) j := by
  have hbound := h.bound
  have hcapacity := hr.length_le
  have hlimit : Ledger.capacity = 2 ^ 48 := rfl
  have hfirst : saturatingAdd j.mirror.sequence.toNat 1 = j.mirror.sequence.toNat + 1 := by
    rw [saturatingAdd]
    omega
  have hhead : j.head.1.toNat = l.entries.length := hr.represents.headSequence
  simp only [appendReadMirror, wp_bind, wp_get, wp_ite, wp_pure, wp_modify, hfirst, hhead]
  refine ⟨fun hdone => ⟨j.mirror, rfl, h, by omega⟩, fun hbehind => ?_⟩
  obtain ⟨cs, c, htake, hfiles⟩ := h.files
  have hsplit := List.take_append_drop j.mirror.sequence.toNat l.entries
  have hlength : (cs.flatten ++ c).length = j.mirror.sequence.toNat := by
    rw [← htake, List.length_take]
    omega
  have hcount : l.entries.length - (j.mirror.sequence.toNat + 1) + 1
      = (l.entries.drop j.mirror.sequence.toNat).length := by
    rw [List.length_drop]
    omega
  have hall : cs.flatten ++ c ++ l.entries.drop j.mirror.sequence.toNat = l.entries := by
    rw [← htake, hsplit]
  have hframes := wp_appendFrames (l.entries.drop j.mirror.sequence.toNat)
    (congrArg JournalConfig.journalId hr.sameConfig) hfiles (by rw [hall]; exact hr.numbered) hget
    (by rw [hr.sameConfig]; exact hsize)
  rw [hlength, hall] at hframes
  rw [hcount]
  refine wp_mono hframes ?_ (fun _ _ hf => hf)
  rintro _ j' ⟨m, cs', c', rfl, hstale, -, hfiles', hflat⟩
  refine ⟨_, rfl, ⟨hstale.trans h.fresh, Nat.le_of_eq hhead, cs', c', ?_, ?_⟩, hhead⟩
  · show l.entries.take j.head.1.toNat = _
    rw [hhead, List.take_length, hflat]
  · exact ⟨hfiles'.segments, hfiles'.active, hfiles'.nonempty, hfiles'.size⟩

variable {rs : List WitnessRecord}

theorem storedFrames_layouts (h : ∀ r ∈ rs, validRecord r = true) :
    storedFrames (rs.map (recordLayout config.journalId)) = .ok (keyed config.journalId rs) := by
  induction rs with
  | nil => rfl
  | cons r rs ih =>
    have hr : decodeRecord (recordLayout config.journalId r) = _ :=
      decodeRecord_recordLayout (h r List.mem_cons_self)
    have hrest := ih fun x hx => h x (List.mem_cons_of_mem _ hx)
    rw [storedFrames] at hrest ⊢
    rw [List.map_cons, List.mapM_cons, hr, hrest]
    rfl

theorem lastFrame_keyed (h : Numbered 0 rs) :
    (lastFrame (keyed config.journalId rs)).toNat = rs.length := by
  induction rs using List.reverseRecOn with
  | nil => rfl
  | append_singleton rs r _ =>
    have hlast := (numbered_append.mp h).2.head
    simp only [lastFrame, keyed, List.map_append, List.map_cons, List.map_nil,
      List.getLast?_append, List.getLast?_singleton, Option.some_or, Option.map_some,
      Option.getD_some, hlast, List.length_append, List.length_singleton]
    omega

theorem repairReadMirror_mirrored {m : ReadMirror} (hr : Refines sha256 config l j)
    (hmirror : j.mirror = { m with sequence := 0 }) (h : Mirrored config.journalId l.entries m)
    (hwhole : m.segments = [] → headerBytes + footprint config.journalId l.entries ≤ maxMirrorBytes)
    (hget : m.segments ≠ [] → ∀ x ∈ l.entries.drop m.sequence.toNat,
      j.store.records.get x.sequence = some (recordLayout config.journalId x))
    (hsize : m.segments ≠ [] → config.mirrorSegmentLimit ≤ maxMirrorBytes ∨ m.active.length
      + footprint config.journalId (l.entries.drop m.sequence.toNat) ≤ maxMirrorBytes) :
    wp (repairReadMirror sha256) (fun _ j' => ∃ m, j' = { j with mirror := m } ∧
      Mirrored config.journalId l.entries m) (fun _ _ => False) j := by
  have hvalid := hr.represents.wellFormed.valid
  have hcapacity := hr.length_le
  have hlimit : Ledger.capacity = 2 ^ 48 := rfl
  have hid := congrArg JournalConfig.journalId hr.sameConfig
  simp only [repairReadMirror, rebuildReadMirror, wp_bind, wp_attempt, wp_get, wp_ite, wp_ofExcept,
    wp_modify]
  constructor
  · intro hsegments
    have hsegments : m.segments ≠ [] := by
      rw [hmirror] at hsegments
      exact hsegments
    have hread : WitnessReader.read sha256 j.config.journalId j.mirror
        = .ok ((l.entries.take m.sequence.toNat).map (recordLayout config.journalId)) := by
      have hsame : WitnessReader.read sha256 config.journalId { m with sequence := 0 }
          = WitnessReader.read sha256 config.journalId { m with segments := m.segments } := rfl
      rw [hmirror, hid, hsame]
      exact h.read_eq hr (List.Perm.refl _)
    have hnum : Numbered 0 (l.entries.take m.sequence.toNat) := by
      have hall := hr.numbered
      rw [← List.take_append_drop m.sequence.toNat l.entries] at hall
      exact (numbered_append.mp hall).1
    have hlast : lastFrame (keyed config.journalId (l.entries.take m.sequence.toNat))
        = m.sequence := by
      refine UInt64.toNat_inj.mp ?_
      rw [lastFrame_keyed hnum, List.length_take]
      exact Nat.min_eq_left h.bound
    rw [hread]
    refine ⟨fun stored hstored => ?_, fun _ he => nomatch he⟩
    obtain rfl := Except.ok.inj hstored
    rw [storedFrames_layouts fun x hx => hvalid x (List.mem_of_mem_take hx)]
    refine ⟨fun frames hframes => ?_, fun _ he => nomatch he⟩
    obtain rfl := Except.ok.inj hframes
    rw [hlast, hmirror]
    refine wp_mono (wp_appendReadMirror (j := { j with mirror := m })
      (hr.of_handle _ _ _ _ _) h (hget hsegments) (hsize hsegments)) ?_ (fun _ _ hf => hf.elim)
    rintro _ j' ⟨m', rfl, hm', -⟩
    exact ⟨_, rfl, rfl, hm'.bound, hm'.files.imp fun cs hc => hc.imp fun c hf =>
      ⟨hf.1, hf.2.segments, hf.2.active, hf.2.nonempty, hf.2.size⟩⟩
  · intro hnone
    have hnone : m.segments = [] := by
      rw [hmirror] at hnone
      exact not_not.mp hnone
    rw [hr.records_eq]
    refine ⟨fun stored hstored => ?_, fun _ he => nomatch he⟩
    obtain rfl := Except.ok.inj hstored
    rw [storedFrames_layouts hvalid]
    refine ⟨fun frames hframes => ?_, fun _ he => nomatch he⟩
    obtain rfl := Except.ok.inj hframes
    have hlast : (lastFrame (keyed config.journalId l.entries)).toNat = _ :=
      lastFrame_keyed hr.numbered
    refine ⟨_, rfl, rfl, Nat.le_of_eq hlast, [], l.entries, ?_, ?_⟩
    · show l.entries.take (lastFrame _).toNat = _
      rw [hlast, List.take_length]
      rfl
    · refine ⟨?_, ?_, by simp, ?_⟩
      · show j.mirror.segments = _
        rw [hmirror]
        exact hnone
      · show WitnessJournal.readerMagic ++ j.config.journalId.val ++ _ = _
        rw [hid]
        rfl
      · intro d hd
        rw [List.nil_append] at hd
        rw [List.mem_singleton.mp hd, length_mirrorFile_eq]
        exact hwhole hnone

end Refined
end Ferrocrate.Witness
