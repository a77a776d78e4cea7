import Ferrocrate.Dockerfile.Context
import Ferrocrate.Lib.Loops

/-! What the context digests determine: `dockerfile_build.rs`.

Paths, link targets and file contents are hashed one after the other with nothing between
them, and so are the names and digests of named contexts: the digests determine the context
only together with the lengths of these parts. -/
namespace Ferrocrate.Dockerfile
open Lib

namespace Dir

variable {content : Leaf}

theorem wellFormed_leaf {name : String} {rest : Dir}
    (h : (leaf name content rest).wellFormed = true) :
    validName name = true ∧ name ∉ rest.names ∧ rest.wellFormed = true := by
  simp only [wellFormed, Bool.and_eq_true, Bool.not_eq_true', List.contains_eq_mem,
    decide_eq_false_iff_not] at h
  exact ⟨h.1.1, h.1.2, h.2⟩

theorem wellFormed_directory {name : String} {entries rest : Dir}
    (h : (directory name entries rest).wellFormed = true) :
    validName name = true ∧ name ∉ rest.names ∧ entries.wellFormed = true ∧
      rest.wellFormed = true := by
  simp only [wellFormed, Bool.and_eq_true, Bool.not_eq_true', List.contains_eq_mem,
    decide_eq_false_iff_not] at h
  exact ⟨h.1.1.1, h.1.1.2, h.1.2, h.2⟩

@[simp] theorem find_nil (d : Dir) : d.find [] = none := by
  induction d with
  | nil => rfl
  | leaf name content rest ih => simp [find, ih]
  | directory name entries rest _ _ => rfl

theorem mem_names_of_find {d : Dir} {first : String} {below : RelPath}
    (h : d.find (first :: below) = some content) : first ∈ d.names := by
  induction d with
  | nil => cases h
  | leaf name content rest ih =>
    rw [find] at h
    by_cases hpath : first :: below = [name]
    · exact List.mem_cons.mpr (.inl (List.cons.inj hpath).1)
    · rw [if_neg hpath] at h
      exact List.mem_cons_of_mem _ (ih h)
  | directory name entries rest _ ih =>
    rw [find] at h
    by_cases hfirst : first = name
    · exact List.mem_cons.mpr (.inl hfirst)
    · rw [if_neg hfirst] at h
      exact List.mem_cons_of_mem _ (ih h)

def selected (skip : RelPath → Bool) (base : RelPath) : Dir → List (RelPath × Leaf)
  | nil => []
  | leaf name content rest =>
    (if skip (base ++ [name]) || content = .other then [] else [(base ++ [name], content)]) ++
      selected skip base rest
  | directory name entries rest =>
    (if skip (base ++ [name]) then [] else selected skip (base ++ [name]) entries) ++
      selected skip base rest

variable {skip : RelPath → Bool}

theorem mem_selected {d : Dir} (hwf : d.wellFormed = true)
    {base p : RelPath} : (p, content) ∈ selected skip base d ↔
      ∃ below, p = base ++ below ∧ d.find below = some content ∧ content ≠ .other ∧
        ∀ q, q ≠ [] → q <+: below → skip (base ++ q) = false := by
  induction d generalizing base with
  | nil => simp [selected, find]
  | leaf name found rest ih =>
    obtain ⟨-, hfresh, hrest⟩ := wellFormed_leaf hwf
    have hother : ∀ below leaf, rest.find below = some leaf → below ≠ [name] := by
      intro below leaf hfind heq
      rw [heq] at hfind
      exact hfresh (mem_names_of_find hfind)
    rw [selected, List.mem_append, ih hrest]
    constructor
    · intro h
      cases h with
      | inl h =>
        split at h
        · cases h
        · rename_i hkept
          simp only [Bool.or_eq_true, decide_eq_true_eq, not_or, Bool.not_eq_true] at hkept
          cases List.mem_singleton.mp h
          refine ⟨[name], rfl, if_pos rfl, hkept.2, fun q hq hu => ?_⟩
          cases List.prefix_concat_iff.mp (show q <+: [] ++ [name] from hu) with
          | inl heq => rw [heq, List.nil_append, hkept.1]
          | inr hnil => exact absurd (List.prefix_nil.mp hnil) hq
      | inr h =>
        obtain ⟨below, hp, hfind, hkind, hskip⟩ := h
        exact ⟨below, hp, (if_neg (hother below _ hfind)).trans hfind, hkind, hskip⟩
    · intro h
      obtain ⟨below, hp, hfind, hkind, hskip⟩ := h
      rw [find] at hfind
      by_cases hbelow : below = [name]
      · rw [if_pos hbelow] at hfind
        cases hfind
        have hkept := hskip [name] (by simp) (by rw [hbelow])
        exact .inl (by simp [hkept, hkind, hp, hbelow])
      · rw [if_neg hbelow] at hfind
        exact .inr ⟨below, hp, hfind, hkind, hskip⟩
  | directory name entries rest ihEntries ih =>
    obtain ⟨-, hfresh, hentries, hrest⟩ := wellFormed_directory hwf
    rw [selected, List.mem_append, ih hrest]
    constructor
    · intro h
      cases h with
      | inl h =>
        split at h
        · cases h
        · rename_i hkept
          rw [ihEntries hentries] at h
          obtain ⟨below, hp, hfind, hkind, hskip⟩ := h
          refine ⟨name :: below, by simp [hp], by simp [find, hfind], hkind, fun q hq hu => ?_⟩
          cases q with
          | nil => exact absurd rfl hq
          | cons first q =>
            obtain ⟨rfl, hbelow⟩ := List.cons_prefix_cons.mp hu
            by_cases hnil : q = []
            · simpa [hnil] using hkept
            · simpa using hskip q hnil hbelow
      | inr h =>
        obtain ⟨below, hp, hfind, hkind, hskip⟩ := h
        refine ⟨below, hp, ?_, hkind, hskip⟩
        cases below with
        | nil => simp at hfind
        | cons first below =>
          have hne : first ≠ name := by
            intro heq
            exact hfresh (heq ▸ mem_names_of_find hfind)
          exact (if_neg hne).trans hfind
    · intro h
      obtain ⟨below, hp, hfind, hkind, hskip⟩ := h
      cases below with
      | nil => simp at hfind
      | cons first below =>
        rw [find] at hfind
        by_cases hfirst : first = name
        · rw [if_pos hfirst] at hfind
          have hkept := hskip [name] (by simp) (by simp [hfirst])
          left
          rw [hkept, if_neg (by simp), ihEntries hentries]
          refine ⟨below, by simp [hp, hfirst], hfind, hkind, fun q hq hu => ?_⟩
          simpa using hskip (name :: q) (by simp)
            (List.cons_prefix_cons.mpr ⟨hfirst.symm, hu⟩)
        · rw [if_neg hfirst] at hfind
          exact .inr ⟨first :: below, hp, hfind, hkind, hskip⟩

theorem nodup_selected {d : Dir} (hwf : d.wellFormed = true)
    (base : RelPath) : ((selected skip base d).map Prod.fst).Nodup := by
  induction d generalizing base with
  | nil => exact List.nodup_nil
  | leaf name content rest ih =>
    obtain ⟨-, hfresh, hrest⟩ := wellFormed_leaf hwf
    rw [selected, List.map_append]
    refine List.nodup_append'.mpr ⟨by split <;> simp, ih hrest base, ?_⟩
    intro p hp hp'
    obtain ⟨e, he, rfl⟩ := List.mem_map.mp hp'
    obtain ⟨below, hbelow, hfind, -, -⟩ := (mem_selected hrest).mp he
    split at hp
    · cases hp
    · simp only [List.map_cons, List.map_nil, List.mem_singleton] at hp
      rw [hp] at hbelow
      have hname := List.append_cancel_left hbelow
      rw [← hname] at hfind
      exact hfresh (mem_names_of_find hfind)
  | directory name entries rest ihEntries ih =>
    obtain ⟨-, hfresh, hentries, hrest⟩ := wellFormed_directory hwf
    rw [selected, List.map_append]
    refine List.nodup_append'.mpr ⟨?_, ih hrest base, ?_⟩
    · split
      · exact List.nodup_nil
      · exact ihEntries hentries _
    · intro p hp hp'
      obtain ⟨e, he, rfl⟩ := List.mem_map.mp hp'
      obtain ⟨below, hbelow, hfind, -, -⟩ := (mem_selected hrest).mp he
      split at hp
      · cases hp
      · obtain ⟨e', he', heq⟩ := List.mem_map.mp hp
        obtain ⟨below', hbelow', -, -, -⟩ := (mem_selected hentries).mp he'
        rw [← heq, hbelow', List.append_assoc] at hbelow
        have hname := List.append_cancel_left hbelow
        rw [← hname] at hfind
        exact hfresh (mem_names_of_find hfind)

end Dir

theorem collectContextFiles_eq (context : BuildContext) (excluded : RelPath → Bool)
    (base : RelPath) (d : Dir) : collectContextFiles context excluded base d =
      (d.selected (fun p => excluded p || context.skips p) base).map Prod.fst := by
  induction d generalizing base with
  | nil => rfl
  | leaf name content rest ih =>
    simp only [collectContextFiles, Dir.selected, ih, List.map_append]
    split <;> rfl
  | directory name entries rest ihEntries ih =>
    simp only [collectContextFiles, Dir.selected, ih, ihEntries, List.map_append]
    split <;> rfl

theorem mem_copyEntries {context : BuildContext} {base : RelPath} {d : Dir}
    {x : RelPath × Leaf} : x ∈ (copyEntries context base d).flatMap Prod.snd ↔
      x ∈ d.selected (fun p => context.holdsDestination p || context.skips p) base := by
  induction d generalizing base with
  | nil => rfl
  | leaf name content rest ih =>
    simp only [copyEntries, List.flatMap_cons, Dir.selected, List.mem_append, ih]
  | directory name entries rest ihEntries ih =>
    have hinner : x ∈ ((copyEntries context (base ++ [name]) entries).insertionSort
          (·.1 ≤ ·.1)).flatMap Prod.snd ↔
        x ∈ (copyEntries context (base ++ [name]) entries).flatMap Prod.snd := by
      simp only [List.mem_flatMap, List.mem_insertionSort]
    simp only [copyEntries, List.flatMap_cons, Dir.selected, List.mem_append, ih]
    split
    · rfl
    · rw [hinner, ihEntries]

namespace BuildContext

def keeps (context : BuildContext) (path : RelPath) : Bool :=
  path.inits.tail.all fun q => !context.holdsDestination q

def hashedPaths (context : BuildContext) : List RelPath :=
  (collectContextFiles context (fun _ => false) [] context.dir).insertionSort (· ≤ ·)

def hashedFiles (context : BuildContext) : List (RelPath × Leaf) :=
  context.hashedPaths.map fun path => (path, (context.dir.find path).getD .other)

variable {context : BuildContext} {path : RelPath}

theorem keeps_iff : context.keeps path = true ↔
    ∀ q, q ≠ [] → q <+: path → context.holdsDestination q = false := by
  simp only [keeps, List.all_eq_true, mem_tail_inits, Bool.not_eq_true', and_imp]

theorem mem_hashedPaths :
    path ∈ context.hashedPaths ↔ ∃ content, context.dir.find path = some content ∧
      content ≠ .other ∧ ∀ q, q ≠ [] → q <+: path → context.skips q = false := by
  rw [hashedPaths, List.mem_insertionSort, collectContextFiles_eq, List.mem_map]
  constructor
  · intro h
    obtain ⟨e, he, rfl⟩ := h
    obtain ⟨below, hpath, hfind, hkind, hskip⟩ := (Dir.mem_selected context.wellFormed).mp he
    rw [List.nil_append] at hpath
    rw [hpath]
    exact ⟨e.2, hfind, hkind, by simpa using hskip⟩
  · intro h
    obtain ⟨content, hfind, hkind, hskip⟩ := h
    exact ⟨(path, content), (Dir.mem_selected context.wellFormed).mpr
      ⟨path, rfl, hfind, hkind, by simpa using hskip⟩, rfl⟩

theorem mem_hashedFiles {content : Leaf} :
    (path, content) ∈ context.hashedFiles ↔ context.dir.find path = some content ∧
      content ≠ .other ∧ ∀ q, q ≠ [] → q <+: path → context.skips q = false := by
  rw [hashedFiles, List.mem_map]
  constructor
  · intro h
    obtain ⟨path', hpath, heq⟩ := h
    obtain ⟨found, hfind, hkind, hskip⟩ := mem_hashedPaths.mp hpath
    rw [hfind] at heq
    cases heq
    exact ⟨hfind, hkind, hskip⟩
  · intro h
    exact ⟨path, mem_hashedPaths.mpr ⟨content, h⟩, by rw [h.1]; rfl⟩

theorem mem_copyContextDir {content : Leaf} :
    (path, content) ∈ copyContextDir context ↔
      (path, content) ∈ context.hashedFiles ∧ context.keeps path = true := by
  have hsorted : (path, content) ∈ copyContextDir context ↔
      (path, content) ∈ (copyEntries context [] context.dir).flatMap Prod.snd := by
    simp only [copyContextDir, List.mem_flatMap, List.mem_insertionSort]
  rw [hsorted, mem_copyEntries, Dir.mem_selected context.wellFormed, mem_hashedFiles, keeps_iff]
  constructor
  · intro h
    obtain ⟨below, hpath, hfind, hkind, hskip⟩ := h
    rw [List.nil_append] at hpath
    subst hpath
    simp only [List.nil_append, Bool.or_eq_false_iff] at hskip
    exact ⟨⟨hfind, hkind, fun q hq hu => (hskip q hq hu).2⟩, fun q hq hu => (hskip q hq hu).1⟩
  · intro h
    obtain ⟨⟨hfind, hkind, hskip⟩, hkeep⟩ := h
    refine ⟨path, rfl, hfind, hkind, fun q hq hu => ?_⟩
    rw [List.nil_append, hskip q hq hu, hkeep q hq hu]
    rfl

theorem nodup_hashedPaths (context : BuildContext) : context.hashedPaths.Nodup := by
  rw [hashedPaths, (List.perm_insertionSort ..).nodup_iff, collectContextFiles_eq]
  exact Dir.nodup_selected context.wellFormed []

theorem sorted_hashedPaths (context : BuildContext) :
    context.hashedPaths.Pairwise (· ≤ ·) := List.pairwise_insertionSort _ _

end BuildContext

namespace Leaf

def body : Leaf → Bytes
  | file bytes => bytes
  | symlink target => utf8 "link:" ++ Path.toStringLossy target
  | other => []

end Leaf

def fileRecord (f : RelPath × Leaf) : Bytes := utf8 f.1.text ++ f.2.body

namespace BuildContext

def message (context : BuildContext) : Bytes := context.hashedFiles.flatMap fileRecord

theorem hashContextDir_eq (shake256 : Bytes → String) (context : BuildContext) :
    hashContextDir shake256 context = .ok (shake256 context.message) := by
  have hrecords : context.hashedPaths.mapM (hashedBytes context) =
      .ok (context.hashedPaths.map fun path =>
        fileRecord (path, (context.dir.find path).getD .other)) := by
    refine Except.mapM_ok fun path hpath => ?_
    obtain ⟨content, hfind, hkind, -⟩ := mem_hashedPaths.mp hpath
    rw [hashedBytes, hfind]
    cases content with
    | file bytes => rfl
    | symlink target => rfl
    | other => exact absurd rfl hkind
  have hmessage : context.message = (context.hashedPaths.map fun path =>
      fileRecord (path, (context.dir.find path).getD .other)).flatten := by
    rw [message, hashedFiles, List.flatMap_map, List.flatMap_def]
  rw [hmessage]
  change (context.hashedPaths.mapM (hashedBytes context) >>= _) = _
  rw [hrecords]
  rfl

end BuildContext

inductive FileKind
  | file
  | link
  | rawLink (target : Bytes)
  deriving DecidableEq

def Leaf.fileKind : Leaf → FileKind
  | symlink target => if Path.toStringLossy target = target then .link else .rawLink target
  | _ => .file

structure FileShape where
  pathLength : Nat
  bodyLength : Nat
  kind : FileKind
  kept : Bool
  deriving DecidableEq

namespace BuildContext

def fileShape (context : BuildContext) (f : RelPath × Leaf) : FileShape where
  pathLength := (utf8 f.1.text).length
  bodyLength := f.2.body.length
  kind := f.2.fileKind
  kept := context.keeps f.1

def shape (context : BuildContext) : List FileShape :=
  context.hashedFiles.map context.fileShape

end BuildContext

def ValidPath (path : RelPath) : Prop := path ≠ [] ∧ ∀ name ∈ path, Dir.validName name = true

theorem no_slash_of_validName {name : String} (h : Dir.validName name = true) :
    '/' ∉ name.toList := by
  simp only [Dir.validName, Bool.and_eq_true, Bool.not_eq_true', List.contains_eq_mem,
    decide_eq_false_iff_not] at h
  exact h.2

theorem toList_text_cons (name next : String) (rest : RelPath) :
    (RelPath.text (name :: next :: rest)).toList =
      name.toList ++ '/' :: (RelPath.text (next :: rest)).toList := by
  simp [RelPath.text]

theorem text_injective {a b : RelPath} (ha : ValidPath a) (hb : ValidPath b)
    (h : a.text = b.text) : a = b := by
  induction a generalizing b with
  | nil => exact absurd rfl ha.1
  | cons name rest ih =>
    have hname := no_slash_of_validName (ha.2 name (List.mem_cons_self ..))
    cases b with
    | nil => exact absurd rfl hb.1
    | cons name' rest' =>
      have hname' := no_slash_of_validName (hb.2 name' (List.mem_cons_self ..))
      have hlist := congrArg String.toList h
      cases rest with
      | nil =>
        cases rest' with
        | nil => exact congrArg (fun n => [n]) h
        | cons next' rest' =>
          rw [toList_text_cons] at hlist
          have hslash : '/' ∈ (RelPath.text [name]).toList := hlist ▸ by simp
          exact absurd hslash hname
      | cons next rest =>
        cases rest' with
        | nil =>
          rw [toList_text_cons] at hlist
          have hslash : '/' ∈ (RelPath.text [name']).toList := hlist ▸ by simp
          exact absurd hslash hname'
        | cons next' rest' =>
          rw [toList_text_cons, toList_text_cons] at hlist
          obtain ⟨hfirst, hrest⟩ := append_separator_inj hname hname' hlist
          have htail := ih ⟨by simp, fun n hn => ha.2 n (List.mem_cons_of_mem _ hn)⟩
            ⟨by simp, fun n hn => hb.2 n (List.mem_cons_of_mem _ hn)⟩ (String.toList_inj.mp hrest)
          rw [String.toList_inj.mp hfirst, htail]

theorem Dir.validPath_of_find {d : Dir} (hwf : d.wellFormed = true) {path : RelPath}
    {content : Leaf} (h : d.find path = some content) : ValidPath path := by
  induction d generalizing path with
  | nil => cases h
  | leaf name found rest ih =>
    obtain ⟨hname, -, hrest⟩ := wellFormed_leaf hwf
    rw [find] at h
    by_cases hpath : path = [name]
    · rw [hpath]
      exact ⟨by simp, by simpa using hname⟩
    · rw [if_neg hpath] at h
      exact ih hrest h
  | directory name entries rest ihEntries ih =>
    obtain ⟨hname, -, hentries, hrest⟩ := wellFormed_directory hwf
    cases path with
    | nil => cases h
    | cons first below =>
      rw [find] at h
      by_cases hfirst : first = name
      · rw [if_pos hfirst] at h
        refine ⟨by simp, fun n hn => ?_⟩
        cases List.mem_cons.mp hn with
        | inl heq => rwa [heq, hfirst]
        | inr hn => exact (ihEntries hentries h).2 n hn
      · rw [if_neg hfirst] at h
        exact ih hrest h

theorem body_inj {a b : Leaf} (ha : a ≠ .other) (hb : b ≠ .other)
    (hkind : a.fileKind = b.fileKind) (h : a.body = b.body) : a = b := by
  cases a with
  | file bytes =>
    cases b with
    | file bytes' => exact congrArg Leaf.file h
    | symlink target =>
      simp only [Leaf.fileKind] at hkind
      split at hkind <;> cases hkind
    | other => exact absurd rfl hb
  | symlink target =>
    cases b with
    | file bytes =>
      simp only [Leaf.fileKind] at hkind
      split at hkind <;> cases hkind
    | symlink target' =>
      have hlossy : Path.toStringLossy target = Path.toStringLossy target' :=
        List.append_cancel_left h
      rw [Leaf.fileKind, Leaf.fileKind] at hkind
      by_cases hutf8 : Path.toStringLossy target = target
      · by_cases hutf8' : Path.toStringLossy target' = target'
        · rw [← hutf8, ← hutf8', hlossy]
        · rw [if_pos hutf8, if_neg hutf8'] at hkind
          cases hkind
      · rw [if_neg hutf8] at hkind
        split at hkind
        · cases hkind
        · cases hkind
          rfl
    | other => exact absurd rfl hb
  | other => exact absurd rfl ha

theorem records_inj {c c' : BuildContext} {xs ys : List (RelPath × Leaf)}
    (hxs : ∀ f ∈ xs, ValidPath f.1 ∧ f.2 ≠ .other) (hys : ∀ f ∈ ys, ValidPath f.1 ∧ f.2 ≠ .other)
    (hshape : xs.map c.fileShape = ys.map c'.fileShape)
    (h : xs.flatMap fileRecord = ys.flatMap fileRecord) :
    xs = ys ∧ ∀ f ∈ xs, c.keeps f.1 = c'.keeps f.1 := by
  induction xs generalizing ys with
  | nil =>
    cases ys with
    | nil => exact ⟨rfl, by simp⟩
    | cons g ys => cases hshape
  | cons f xs ih =>
    cases ys with
    | nil => cases hshape
    | cons g ys =>
      rw [List.map_cons, List.map_cons] at hshape
      obtain ⟨hhead, htail⟩ := List.cons.inj hshape
      obtain ⟨hpathLength, hbodyLength, hkind, hkept⟩ := FileShape.mk.inj hhead
      have hlength : (fileRecord f).length = (fileRecord g).length := by
        simp only [fileRecord, List.length_append, hpathLength, hbodyLength]
      rw [List.flatMap_cons, List.flatMap_cons] at h
      obtain ⟨hrecord, hrest⟩ := List.append_inj h hlength
      obtain ⟨hpath, hbody⟩ := List.append_inj hrecord hpathLength
      obtain ⟨hvalid, hother⟩ := hxs f (List.mem_cons_self ..)
      obtain ⟨hvalid', hother'⟩ := hys g (List.mem_cons_self ..)
      have heq : f = g := Prod.ext (text_injective hvalid hvalid' (utf8_injective hpath))
        (body_inj hother hother' hkind hbody)
      obtain ⟨hsame, hkeeps⟩ := ih (fun e he => hxs e (List.mem_cons_of_mem _ he))
        (fun e he => hys e (List.mem_cons_of_mem _ he)) htail hrest
      refine ⟨by rw [heq, hsame], fun e he => ?_⟩
      cases List.mem_cons.mp he with
      | inl he => rw [he, hkept, heq]
      | inr he => exact hkeeps e he

def SameCopy (c c' : BuildContext) : Prop :=
  ∀ path content, (path, content) ∈ copyContextDir c ↔ (path, content) ∈ copyContextDir c'

namespace BuildContext

theorem valid_hashedFiles (context : BuildContext) :
    ∀ f ∈ context.hashedFiles, ValidPath f.1 ∧ f.2 ≠ .other := by
  intro f hf
  obtain ⟨hfind, hkind, -⟩ := mem_hashedFiles.mp hf
  exact ⟨Dir.validPath_of_find context.wellFormed hfind, hkind⟩

theorem sameCopy_of_shape {c c' : BuildContext} (hshape : c.shape = c'.shape)
    (hmessage : c.message = c'.message) : SameCopy c c' := by
  obtain ⟨hfiles, hkeeps⟩ := records_inj c.valid_hashedFiles c'.valid_hashedFiles hshape hmessage
  intro path content
  rw [mem_copyContextDir, mem_copyContextDir, ← hfiles]
  constructor
  · intro h
    exact ⟨h.1, (hkeeps _ h.1) ▸ h.2⟩
  · intro h
    exact ⟨h.1, (hkeeps _ h.1).symm ▸ h.2⟩

def KeepsAll (context : BuildContext) : Prop := ∀ q, context.holdsDestination q = false

theorem KeepsAll.keeps {context : BuildContext} (h : context.KeepsAll) (path : RelPath) :
    context.keeps path = true := keeps_iff.mpr fun q _ _ => h q

theorem shape_of_sameCopy {c c' : BuildContext} (hc : c.KeepsAll) (hc' : c'.KeepsAll)
    (hsame : SameCopy c c') : c.shape = c'.shape := by
  have hfiles : ∀ f, f ∈ c.hashedFiles ↔ f ∈ c'.hashedFiles := by
    intro f
    have hf := hsame f.1 f.2
    rwa [mem_copyContextDir, mem_copyContextDir, hc.keeps, hc'.keeps, and_iff_left rfl,
      and_iff_left rfl] at hf
  have hmem : ∀ (context : BuildContext) path, path ∈ context.hashedPaths ↔
      ∃ f ∈ context.hashedFiles, f.1 = path := by
    intro context path
    simp [hashedFiles]
  have hperm : c.hashedPaths.Perm c'.hashedPaths := by
    rw [List.perm_ext_iff_of_nodup c.nodup_hashedPaths c'.nodup_hashedPaths]
    intro path
    rw [hmem, hmem]
    simp only [hfiles]
  have hpaths : c.hashedPaths = c'.hashedPaths :=
    hperm.eq_of_pairwise' c.sorted_hashedPaths c'.sorted_hashedPaths
  have hlist : c.hashedFiles = c'.hashedFiles := by
    rw [hashedFiles, hashedFiles, ← hpaths]
    refine List.map_congr_left fun path hpath => ?_
    obtain ⟨content, hthere⟩ := mem_hashedPaths.mp hpath
    have hthere' := (hfiles (path, content)).mp (mem_hashedFiles.mpr hthere)
    rw [hthere.1, (mem_hashedFiles.mp hthere').1]
  rw [shape, shape, ← hlist]
  refine List.map_congr_left fun f _ => ?_
  simp only [fileShape, hc.keeps, hc'.keeps]

end BuildContext

structure ContextBuild where
  disk : Disk
  primary : BuildContext
  contexts : OrdMap String String
  canonical : OrdMap String String
  accepted : canonicalizeNamedContexts disk contexts = .ok canonical

namespace ContextBuild

def named (b : ContextBuild) : List (String × BuildContext) :=
  b.canonical.entries.map fun e => (e.1, namedContext b.disk e.2)

def nameRecord (shake256 : Bytes → String) (e : String × BuildContext) : Bytes :=
  utf8 e.1 ++ utf8 (shake256 e.2.message)

def bindingMessage (shake256 : Bytes → String) (b : ContextBuild) : Bytes :=
  bindingDomain ++ utf8 (shake256 b.primary.message) ++ b.named.flatMap (nameRecord shake256)

theorem buildContextBindingDigest_eq (shake256 sha256 : Bytes → String) (b : ContextBuild) :
    buildContextBindingDigest shake256 sha256 b.disk (shake256 b.primary.message) b.contexts =
      .ok (sha256 (b.bindingMessage shake256)) := by
  have hnamed : b.canonical.entries.mapM (fun e => do
      let digest ← hashContextDir shake256 (namedContext b.disk e.2)
      pure (utf8 e.1 ++ utf8 digest)) =
      .ok (b.canonical.entries.map fun e =>
        nameRecord shake256 (e.1, namedContext b.disk e.2)) := by
    refine Except.mapM_ok fun e _ => ?_
    rw [BuildContext.hashContextDir_eq]
    rfl
  have hmessage : b.bindingMessage shake256 = bindingDomain ++
      utf8 (shake256 b.primary.message) ++ (b.canonical.entries.map fun e =>
        nameRecord shake256 (e.1, namedContext b.disk e.2)).flatten := by
    rw [bindingMessage, named, List.flatMap_map, List.flatMap_def]
  rw [buildContextBindingDigest, b.accepted, hmessage]
  change (b.canonical.entries.mapM (fun e => do
      let digest ← hashContextDir shake256 (namedContext b.disk e.2)
      pure (utf8 e.1 ++ utf8 digest)) >>= fun named => pure (sha256 (bindingDomain ++
        utf8 (shake256 b.primary.message) ++ named.flatten))) = _
  rw [hnamed]
  rfl

def messages (b : ContextBuild) : List Bytes :=
  b.primary.message :: b.named.map fun e => e.2.message

structure Separated (shake256 sha256 : Bytes → String) (b b' : ContextBuild) : Prop where
  contexts : ∀ m ∈ b.messages, ∀ m' ∈ b'.messages, shake256 m = shake256 m' → m = m'
  binding : sha256 (b.bindingMessage shake256) = sha256 (b'.bindingMessage shake256) →
    b.bindingMessage shake256 = b'.bindingMessage shake256

structure SameContexts (b b' : ContextBuild) : Prop where
  names : b.named.map Prod.fst = b'.named.map Prod.fst
  primary : SameCopy b.primary b'.primary
  named : ∀ name c c', (name, c) ∈ b.named → (name, c') ∈ b'.named → SameCopy c c'

structure SameShape (b b' : ContextBuild) : Prop where
  names : b.named.map (fun e => (utf8 e.1).length) = b'.named.map fun e => (utf8 e.1).length
  primary : b.primary.shape = b'.primary.shape
  named : b.named.map (fun e => e.2.shape) = b'.named.map fun e => e.2.shape

structure KeepsAll (b : ContextBuild) : Prop where
  primary : b.primary.KeepsAll
  named : ∀ e ∈ b.named, e.2.KeepsAll

theorem nodup_named (b : ContextBuild) : (b.named.map Prod.fst).Nodup := by
  have hkeys : b.named.map Prod.fst = b.canonical.keys := by
    simp [named, OrdMap.keys]
  rw [hkeys]
  exact b.canonical.nodup_keys

variable {shake256 sha256 : Bytes → String}

theorem nameRecords_inj (hlength : ∀ m, (shake256 m).utf8ByteSize = 64)
    {xs ys : List (String × BuildContext)}
    (hnames : xs.map (fun e => (utf8 e.1).length) = ys.map fun e => (utf8 e.1).length)
    (h : xs.flatMap (nameRecord shake256) = ys.flatMap (nameRecord shake256)) :
    xs.map (fun e => (e.1, shake256 e.2.message)) =
      ys.map fun e => (e.1, shake256 e.2.message) := by
  induction xs generalizing ys with
  | nil =>
    cases ys with
    | nil => rfl
    | cons g ys => cases hnames
  | cons f xs ih =>
    cases ys with
    | nil => cases hnames
    | cons g ys =>
      rw [List.map_cons, List.map_cons] at hnames
      obtain ⟨hname, hrest⟩ := List.cons.inj hnames
      rw [List.flatMap_cons, List.flatMap_cons] at h
      have hsize : (nameRecord shake256 f).length = (nameRecord shake256 g).length := by
        simp only [nameRecord, List.length_append, hname, length_utf8, hlength]
      obtain ⟨hrecord, htail⟩ := List.append_inj h hsize
      obtain ⟨htext, hdigest⟩ := List.append_inj hrecord hname
      rw [List.map_cons, List.map_cons, ih hrest htail, utf8_injective htext,
        utf8_injective hdigest]

theorem sameContexts_of_shape (hlength : ∀ m, (shake256 m).utf8ByteSize = 64)
    {b b' : ContextBuild} (hsep : Separated shake256 sha256 b b')
    (hprimary : shake256 b.primary.message = shake256 b'.primary.message)
    (hbinding : sha256 (b.bindingMessage shake256) = sha256 (b'.bindingMessage shake256))
    (hshape : SameShape b b') : SameContexts b b' := by
  have hmessage := hsep.binding hbinding
  rw [bindingMessage, bindingMessage, hprimary] at hmessage
  have hpairs := nameRecords_inj hlength hshape.names (List.append_cancel_left hmessage)
  have hnames : b.named.map Prod.fst = b'.named.map Prod.fst := by
    simpa [Function.comp_def] using congrArg (List.map Prod.fst) hpairs
  refine ⟨hnames, ?_, ?_⟩
  · have hsame := hsep.contexts _ (List.mem_cons_self ..) _ (List.mem_cons_self ..) hprimary
    exact BuildContext.sameCopy_of_shape hshape.primary hsame
  · intro name c c' hc hc'
    -- both occur at the place of their name in the two lists
    obtain ⟨i, hi, hget⟩ := List.mem_iff_getElem.mp hc
    have hlen : b.named.length = b'.named.length := by
      simpa using congrArg List.length hnames
    have hi' : i < b'.named.length := hlen ▸ hi
    have hname' : b'.named[i].1 = name := by
      have hat := congrArg (fun names => names[i]?) hnames
      simpa [hi, hi', hget] using hat.symm
    have hget' : b'.named[i] = (name, c') := by
      have hmem : b'.named[i] ∈ b'.named := List.getElem_mem hi'
      exact List.inj_on_of_nodup_map b'.nodup_named hmem hc' hname'
    have hdigest : shake256 c.message = shake256 c'.message := by
      have hat := congrArg (fun pairs => pairs[i]?) hpairs
      simpa [hi, hi', hget, hget'] using hat
    have hcShape : c.shape = c'.shape := by
      have hat := congrArg (fun shapes => shapes[i]?) hshape.named
      simpa [hi, hi', hget, hget'] using hat
    have hin : c.message ∈ b.messages :=
      List.mem_cons_of_mem _ (List.mem_map.mpr ⟨(name, c), hc, rfl⟩)
    have hin' : c'.message ∈ b'.messages :=
      List.mem_cons_of_mem _ (List.mem_map.mpr ⟨(name, c'), hc', rfl⟩)
    exact BuildContext.sameCopy_of_shape hcShape (hsep.contexts _ hin _ hin' hdigest)

theorem shape_of_sameContexts {b b' : ContextBuild} (hb : b.KeepsAll) (hb' : b'.KeepsAll)
    (hsame : SameContexts b b') : SameShape b b' := by
  refine ⟨?_, BuildContext.shape_of_sameCopy hb.primary hb'.primary hsame.primary, ?_⟩
  · simpa [Function.comp_def] using congrArg (List.map fun n => (utf8 n).length) hsame.names
  · have hlen : b.named.length = b'.named.length := by
      simpa using congrArg List.length hsame.names
    refine List.ext_getElem (by simpa using hlen) fun i hi hi' => ?_
    simp only [List.length_map] at hi hi'
    have hname : b.named[i].1 = b'.named[i].1 := by
      have hat := congrArg (fun names => names[i]?) hsame.names
      simpa [hi, hi'] using hat
    have hmem : b.named[i] ∈ b.named := List.getElem_mem hi
    have hmem' : b'.named[i] ∈ b'.named := List.getElem_mem hi'
    have hcopy : SameCopy b.named[i].2 b'.named[i].2 :=
      hsame.named b'.named[i].1 _ _ (by rw [← hname]; exact hmem) hmem'
    rw [List.getElem_map, List.getElem_map]
    exact BuildContext.shape_of_sameCopy (hb.named _ hmem) (hb'.named _ hmem') hcopy

end ContextBuild

open ContextBuild in
/-- Two builds with the same digests copy the same, if the parts that are hashed have the same
lengths; and only then, where the copy leaves nothing out that is hashed. -/
theorem context_binding_iff {shake256 sha256 : Bytes → String}
    (hlength : ∀ m, (shake256 m).utf8ByteSize = 64) {b b' : ContextBuild}
    (hsep : Separated shake256 sha256 b b') {digest binding : String}
    (h : hashContextDir shake256 b.primary = .ok digest)
    (h' : hashContextDir shake256 b'.primary = .ok digest)
    (hbinding : buildContextBindingDigest shake256 sha256 b.disk digest b.contexts = .ok binding)
    (hbinding' :
      buildContextBindingDigest shake256 sha256 b'.disk digest b'.contexts = .ok binding) :
    (SameShape b b' → SameContexts b b') ∧
      (b.KeepsAll → b'.KeepsAll → (SameContexts b b' ↔ SameShape b b')) := by
  rw [BuildContext.hashContextDir_eq] at h h'
  have hdigest : shake256 b.primary.message = digest := Except.ok.inj h
  have hdigest' : shake256 b'.primary.message = digest := Except.ok.inj h'
  rw [← hdigest, buildContextBindingDigest_eq] at hbinding
  rw [← hdigest', buildContextBindingDigest_eq] at hbinding'
  have hsame : SameShape b b' → SameContexts b b' :=
    sameContexts_of_shape hlength hsep (hdigest.trans hdigest'.symm)
      ((Except.ok.inj hbinding).trans (Except.ok.inj hbinding').symm)
  exact ⟨hsame, fun hb hb' => ⟨shape_of_sameContexts hb hb', hsame⟩⟩

def lengthHash (message : Bytes) : String :=
  String.ofList (List.replicate (message.length % 65) '1' ++
    List.replicate (64 - message.length % 65) '0')

theorem lengthHash_length (m : Bytes) : (lengthHash m).utf8ByteSize = 64 := by
  have hall : ∀ n < 65, (String.ofList (List.replicate n '1' ++
      List.replicate (64 - n) '0')).utf8ByteSize = 64 := by decide +kernel
  exact hall _ (Nat.mod_lt _ (by decide))

def plainContext (dir : Dir) (h : dir.wellFormed = true) : BuildContext where
  dir := dir
  dockerfile := none
  dockerignore := none
  holdsDestination := fun _ => false
  wellFormed := h

def libDisk : Disk where
  canonicalize := some
  isDir := fun _ => true
  directory := fun _ => plainContext (.leaf "z" (.file [3, 3]) .nil) (by decide +kernel)

def libBuild (primary : BuildContext) : ContextBuild where
  disk := libDisk
  primary := primary
  contexts := OrdMap.empty.insert "lib" "/lib"
  canonical := OrdMap.empty.insert "lib" "/lib"
  accepted := by rfl

def fileFirst : ContextBuild :=
  libBuild (plainContext (.leaf "x" (.file [1]) (.directory "d" (.leaf "y" (.file [2]) .nil) .nil))
    (by decide +kernel))

def directoryFirst : ContextBuild :=
  libBuild (plainContext (.directory "d" (.leaf "y" (.file [2]) .nil) (.leaf "x" (.file [1]) .nil))
    (by decide +kernel))

theorem context_binding_iff_listed : ContextBuild.SameContexts fileFirst directoryFirst :=
  (@context_binding_iff lengthHash lengthHash lengthHash_length fileFirst directoryFirst
    ⟨by decide +kernel, by decide +kernel⟩ _ _ rfl (by decide +kernel) rfl (by decide +kernel)).1
    ⟨by decide +kernel, by decide +kernel, by decide +kernel⟩

def oneFile (name : String) (bytes : Bytes) (h : Dir.validName name = true) : ContextBuild where
  disk := libDisk
  primary := plainContext (.leaf name (.file bytes) .nil) (by simp [Dir.wellFormed, Dir.names, h])
  contexts := OrdMap.empty
  canonical := OrdMap.empty
  accepted := rfl

def fileA : ContextBuild := oneFile "a" [98, 99] (by decide +kernel)

def fileAb : ContextBuild := oneFile "ab" [99] (by decide +kernel)

/-- A file `a` of the bytes `bc` and a file `ab` of the byte `c` are hashed alike. -/
theorem boundary_moved_same_digest :
    (∀ shake256 sha256 : Bytes → String, ContextBuild.Separated shake256 sha256 fileA fileAb ∧
      ∃ digest binding, hashContextDir shake256 fileA.primary = .ok digest ∧
        hashContextDir shake256 fileAb.primary = .ok digest ∧
        buildContextBindingDigest shake256 sha256 fileA.disk digest fileA.contexts =
          .ok binding ∧
        buildContextBindingDigest shake256 sha256 fileAb.disk digest fileAb.contexts =
          .ok binding) ∧
    ¬ ContextBuild.SameContexts fileA fileAb := by
  have hmessage : fileA.primary.message = fileAb.primary.message := by decide +kernel
  constructor
  · intro shake256 sha256
    have hbinding : fileA.bindingMessage shake256 = fileAb.bindingMessage shake256 := by
      rw [ContextBuild.bindingMessage, ContextBuild.bindingMessage, hmessage]
      rfl
    have hdigest := BuildContext.hashContextDir_eq shake256 fileAb.primary
    have hbound := ContextBuild.buildContextBindingDigest_eq shake256 sha256 fileAb
    refine ⟨⟨?_, fun _ => hbinding⟩, shake256 fileAb.primary.message,
      sha256 (fileAb.bindingMessage shake256), ?_, hdigest, ?_, hbound⟩
    · intro m hm m' hm' _
      cases List.mem_singleton.mp hm
      cases List.mem_singleton.mp hm'
      exact hmessage
    · rw [← hmessage]
      exact BuildContext.hashContextDir_eq shake256 fileA.primary
    · rw [← hmessage, ← hbinding]
      exact ContextBuild.buildContextBindingDigest_eq shake256 sha256 fileA
  · intro hsame
    have hcopied : (["a"], Leaf.file [98, 99]) ∈ copyContextDir fileA.primary := by decide +kernel
    have hmissing : (["a"], Leaf.file [98, 99]) ∉ copyContextDir fileAb.primary := by
      decide +kernel
    exact hmissing ((hsame.primary _ _).mp hcopied)

end Ferrocrate.Dockerfile
