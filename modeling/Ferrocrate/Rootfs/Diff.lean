import Ferrocrate.Lib.OrdMap
import Ferrocrate.Lib.Paths
import Ferrocrate.Lib.Program

/-! The changes of a root filesystem since its baseline (`rootfs_diff.rs`): what is recorded of each
entry, the walk that records them, and the comparison of two records. -/
namespace Ferrocrate.Rootfs.Diff
open Lib
open scoped Lib.Path

def maxEntries : Nat := 100000

def maxPathBytes : Nat := 4096

def maxDigestBytes : Nat := 16 * 1024 * 1024

inductive Item where
  | directory (size : Nat)
  | file (bytes : Bytes)
  | symlink (target : Bytes)
  | other (size : Nat)
deriving DecidableEq

structure Node where
  mode : UInt32
  mtime : Int
  mtimeNsec : Nat
  item : Item
deriving DecidableEq

/-- A directory: its first entry, with what is in it when it is a directory, and the rest, in the
order of `read_dir`. -/
inductive Dir where
  | nil
  | entry (name : Name) (node : Node) (entries rest : Dir)

def Item.isDir : Item → Bool
  | .directory _ => true
  | _ => false

structure RootfsEntry where
  kind : UInt8
  size : Nat
  mode : UInt32
  mtime : Int
  digest : Option String
deriving DecidableEq

abbrev RootfsSnapshot := OrdMap Bytes RootfsEntry

structure RootfsChange where
  path : Bytes
  kind : UInt8

inductive DiffError where
  | entryBound
  | pathBound

def Item.kind : Item → UInt8
  | .directory _ => 2
  | .symlink _ => 3
  | _ => 1

def Item.size : Item → Nat
  | .directory size | .other size => size
  | .file bytes => bytes.length
  | .symlink target => target.length

def Item.content : Item → Option Bytes
  | .file bytes => if bytes.length ≤ maxDigestBytes then some bytes else none
  | _ => none

def Item.target : Item → Option Bytes
  | .symlink target => some target
  | _ => none

def key (path : Path) : Bytes :=
  (Path.toStringLossy (Path.join path)).map fun b => if b = 0x5c then Path.slash else b

def isExcluded (root : List Component) (excluded : List (List Component)) (path : Path) : Bool :=
  excluded.any fun e => e.isPrefixOf (root ++ path.map .normal)

section Walk
variable (fileDigest : Bytes → String) (root : List Component) (excluded : List (List Component))

def record (node : Node) : RootfsEntry :=
  ⟨node.item.kind, node.item.size, node.mode, node.mtime, node.item.content.map fileDigest⟩

def walk : Dir → Path → RootfsSnapshot → Except DiffError RootfsSnapshot
  | .nil, _, output => .ok output
  | .entry name node entries rest, directory, output =>
    let path := directory ++ [name]
    if output.entries.length ≥ maxEntries then .error .entryBound
    else if isExcluded root excluded path = true then walk rest directory output
    else if (key path).length > maxPathBytes then .error .pathBound
    else do
      let output := output.insert (key path) (record fileDigest node)
      let output ← (if node.item.isDir then walk entries path output else .ok output)
      walk rest directory output

def capture (tree : Dir) : Except DiffError RootfsSnapshot :=
  walk fileDigest root excluded tree [] .empty

def changeOf (path : Bytes) : Option RootfsEntry → Option RootfsEntry → Option RootfsChange
  | some _, none => some ⟨path, 2⟩
  | none, some _ => some ⟨path, 1⟩
  | some before, some after => if before ≠ after then some ⟨path, 0⟩ else none
  | none, none => none

def allPaths (baseline current : RootfsSnapshot) : List Bytes :=
  ((baseline.keys ++ current.keys).foldl (fun set path => set.insert path ())
    (OrdMap.empty : OrdMap Bytes Unit)).keys

def diff (baseline : RootfsSnapshot) (tree : Dir) : Except DiffError (List RootfsChange) := do
  let current ← capture fileDigest root excluded tree
  return (allPaths baseline current).filterMap fun path =>
    changeOf path (baseline.get path) (current.get path)

end Walk

def Dir.nodes : Dir → Path → List (Path × Node)
  | .nil, _ => []
  | .entry name node entries rest, directory =>
    (directory ++ [name], node) ::
      ((if node.item.isDir then entries.nodes (directory ++ [name]) else []) ++
        rest.nodes directory)

def Dir.names : Dir → List Name
  | .nil => []
  | .entry name _ _ rest => name :: rest.names

def Dir.Valid : Dir → Prop
  | .nil => True
  | .entry name _ entries rest =>
    Path.slash ∉ name ∧ name ∉ rest.names ∧ entries.Valid ∧ rest.Valid

section Nodes
variable {d : Dir} {directory p : Path} {n n' : Node}

theorem Dir.mem_nodes (h : (p, n) ∈ d.nodes directory) :
    ∃ name ∈ d.names, directory ++ [name] <+: p := by
  induction d generalizing directory with
  | nil => cases h
  | entry name node entries rest ihe ihr =>
    rcases List.mem_cons.mp h with h | h
    · cases h
      exact ⟨name, List.mem_cons_self .., List.prefix_rfl⟩
    · rcases List.mem_append.mp h with h | h
      · split at h
        · obtain ⟨inner, -, hprefix⟩ := ihe h
          exact ⟨name, List.mem_cons_self .., (List.prefix_append ..).trans hprefix⟩
        · cases h
      · obtain ⟨other, hother, hprefix⟩ := ihr h
        exact ⟨other, List.mem_cons_of_mem _ hother, hprefix⟩

theorem Dir.not_mem_nodes_self : (directory, n) ∉ d.nodes directory := by
  intro h
  obtain ⟨name, -, hprefix⟩ := Dir.mem_nodes h
  have hlength := hprefix.length_le
  simp at hlength

theorem Dir.name_eq_of_prefix {name other : Name} (h : directory ++ [name] <+: p)
    (h' : directory ++ [other] <+: p) : name = other := by
  have heq := List.prefix_of_prefix_length_le h h' (by simp)
  simpa using heq.eq_of_length (by simp)

theorem Dir.Valid.unique (hd : d.Valid) (h : (p, n) ∈ d.nodes directory)
    (h' : (p, n') ∈ d.nodes directory) : n = n' := by
  induction d generalizing directory with
  | nil => cases h
  | entry name node entries rest ihe ihr =>
    obtain ⟨-, hname, hentries, hrest⟩ := hd
    have hsub {n : Node} (h : (p, n) ∈ if node.item.isDir then entries.nodes (directory ++ [name])
        else []) : (p, n) ∈ entries.nodes (directory ++ [name]) := by
      split at h
      · exact h
      · cases h
    have hnot {n : Node} (hp : directory ++ [name] <+: p) : (p, n) ∉ rest.nodes directory := by
      intro h
      obtain ⟨other, hother, hprefix⟩ := Dir.mem_nodes h
      exact hname (Dir.name_eq_of_prefix hp hprefix ▸ hother)
    have hbelow {n : Node} (h : (p, n) ∈ entries.nodes (directory ++ [name])) :
        directory ++ [name] <+: p := by
      obtain ⟨inner, -, hprefix⟩ := Dir.mem_nodes h
      exact (List.prefix_append ..).trans hprefix
    rw [Dir.nodes, List.mem_cons, List.mem_append] at h h'
    rcases h with h | h | h
    · cases h
      rcases h' with h' | h' | h'
      · cases h'
        rfl
      · exact absurd (hsub h') Dir.not_mem_nodes_self
      · exact absurd h' (hnot List.prefix_rfl)
    · rcases h' with h' | h' | h'
      · cases h'
        exact absurd (hsub h) Dir.not_mem_nodes_self
      · exact ihe hentries (hsub h) (hsub h')
      · exact absurd h' (hnot (hbelow (hsub h)))
    · rcases h' with h' | h' | h'
      · cases h'
        exact absurd h (hnot List.prefix_rfl)
      · exact absurd h (hnot (hbelow (hsub h')))
      · exact ihr hrest h h'

theorem Dir.Valid.slash_notMem (hd : d.Valid) (hdir : ∀ name ∈ directory, Path.slash ∉ name)
    (h : (p, n) ∈ d.nodes directory) : ∀ name ∈ p, Path.slash ∉ name := by
  induction d generalizing directory with
  | nil => cases h
  | entry name node entries rest ihe ihr =>
    obtain ⟨hslash, -, hentries, hrest⟩ := hd
    have hpath : ∀ other ∈ directory ++ [name], Path.slash ∉ other := by
      intro other hother
      rcases List.mem_append.mp hother with hother | hother
      · exact hdir other hother
      · rw [List.mem_singleton.mp hother]
        exact hslash
    rcases List.mem_cons.mp h with h | h
    · cases h
      exact hpath
    · rcases List.mem_append.mp h with h | h
      · split at h
        · exact ihe hentries hpath h
        · cases h
      · exact ihr hrest hdir h

end Nodes

section Captured
variable {fileDigest : Bytes → String} {root : List Component} {excluded : List (List Component)}

theorem isExcluded_of_prefix {path path' : Path} (h : path <+: path')
    (hpath : isExcluded root excluded path = true) : isExcluded root excluded path' = true := by
  obtain ⟨e, he, hprefix⟩ := List.any_eq_true.mp hpath
  refine List.any_eq_true.mpr ⟨e, he, ?_⟩
  rw [List.isPrefixOf_iff_prefix] at hprefix ⊢
  exact hprefix.trans ((List.prefix_append_right_inj _).mpr (h.map _))

def recordAll (fileDigest : Bytes → String) (output : RootfsSnapshot) (nodes : List (Path × Node)) :
    RootfsSnapshot :=
  nodes.foldl (fun output x => output.insert (key x.1) (record fileDigest x.2)) output

theorem walk_eq {d : Dir} {directory : Path} {output output' : RootfsSnapshot}
    (h : walk fileDigest root excluded d directory output = .ok output') :
    output' = recordAll fileDigest output
      ((d.nodes directory).filter fun x => !isExcluded root excluded x.1) := by
  induction d generalizing directory output output' with
  | nil =>
    cases h
    rfl
  | entry name node entries rest ihe ihr =>
    rw [walk] at h
    obtain ⟨-, h⟩ := Except.ite_error_eq_ok.mp h
    rw [Dir.nodes, List.filter_cons, List.filter_append]
    by_cases hex : isExcluded root excluded (directory ++ [name]) = true
    · rw [if_pos hex] at h
      have hbelow : (if node.item.isDir then entries.nodes (directory ++ [name]) else []).filter
          (fun x => !isExcluded root excluded x.1) = [] := by
        rw [List.filter_eq_nil_iff]
        rintro ⟨p, n⟩ hx
        split at hx
        · obtain ⟨inner, -, hprefix⟩ := Dir.mem_nodes hx
          simp [ isExcluded_of_prefix ((List.prefix_append ..).trans hprefix) hex]
        · cases hx
      rw [if_neg (by simp [hex]), hbelow, List.nil_append]
      exact ihr h
    · rw [if_neg hex] at h
      obtain ⟨-, h⟩ := Except.ite_error_eq_ok.mp h
      obtain ⟨inner, hinner, h⟩ := Except.bind_eq_ok.mp h
      rw [if_pos (by simpa using hex), recordAll, List.foldl_cons, List.foldl_append, ihr h]
      split at hinner
      · next hdir =>
        rw [ihe hinner, if_pos hdir]
        rfl
      · next hdir =>
        cases hinner
        rw [if_neg hdir]
        rfl

variable {nodes : List (Path × Node)} {output : RootfsSnapshot}

theorem get_recordAll {k : Bytes}
    {e : RootfsEntry} (h : (recordAll fileDigest output nodes).get k = some e) :
    (∃ x ∈ nodes, key x.1 = k ∧ record fileDigest x.2 = e) ∨ output.get k = some e := by
  induction nodes generalizing output with
  | nil => exact .inr h
  | cons x nodes ih =>
    rcases ih h with ⟨y, hy, hkey⟩ | hget
    · exact .inl ⟨y, List.mem_cons_of_mem x hy, hkey⟩
    · rw [OrdMap.get_insert] at hget
      split at hget
      · next hk => exact .inl ⟨x, List.mem_cons_self .., hk.symm, Option.some.inj hget⟩
      · exact .inr hget

theorem recordAll_ne_none {k : Bytes}
    (h : output.get k ≠ none ∨ ∃ x ∈ nodes, key x.1 = k) :
    (recordAll fileDigest output nodes).get k ≠ none := by
  induction nodes generalizing output with
  | nil => simpa [recordAll] using h
  | cons x nodes ih =>
    refine ih ?_
    rw [OrdMap.get_insert]
    rcases h with hget | ⟨y, hy, hkey⟩
    · exact .inl (by split <;> simp [hget])
    · rcases List.mem_cons.mp hy with rfl | hy
      · exact .inl (by simp [hkey])
      · exact .inr ⟨y, hy, hkey⟩

def Shows (root : List Component) (excluded : List (List Component)) (tree : Dir) (p : Path)
    (n : Node) : Prop :=
  (p, n) ∈ tree.nodes [] ∧ isExcluded root excluded p = false

def Shown (root : List Component) (excluded : List (List Component)) (before after : Dir)
    (p : Path) : Prop :=
  (∃ n, Shows root excluded before p n) ∨ ∃ n, Shows root excluded after p n

/-- Every entry of the two trees has a key of its own, which is no other's key and no other's
path. -/
def OwnKeys (root : List Component) (excluded : List (List Component)) (before after : Dir) :
    Prop :=
  ∀ p q, Shown root excluded before after p → Shown root excluded before after q →
    key p = key q ∨ key p = Path.join q → p = q

theorem Shown.join_inj {before after : Dir} {p q : Path} (hb : before.Valid) (ha : after.Valid)
    (h : Shown root excluded before after p) (h' : Shown root excluded before after q)
    (hjoin : Path.join p = Path.join q) : p = q := by
  have hsplit {p : Path} (h : Shown root excluded before after p) :
      (Path.join p).splitOn Path.slash = p := by
    rcases h with ⟨n, h⟩ | ⟨n, h⟩
    all_goals
      refine List.splitOn_intercalate _ (Dir.Valid.slash_notMem ‹_› (by simp) h.1) ?_
      rintro rfl
      exact Dir.not_mem_nodes_self h.1
  rw [← hsplit h, ← hsplit h', hjoin]

/-- Plain names, UTF-8 without a backslash, are their own keys. -/
theorem key_eq_join {p : Path} (htext : Path.toStringLossy (Path.join p) = Path.join p)
    (hbackslash : 0x5c ∉ Path.join p) : key p = Path.join p := by
  rw [key, htext]
  refine (List.map_congr_left fun b hb => if_neg ?_).trans (List.map_id _)
  rintro rfl
  exact hbackslash hb

theorem ownKeys_of_plain {before after : Dir} (hb : before.Valid) (ha : after.Valid)
    (h : ∀ p, Shown root excluded before after p → key p = Path.join p) :
    OwnKeys root excluded before after := by
  intro p q hp hq heq
  rw [h p hp, h q hq, or_self] at heq
  exact hp.join_inj hb ha hq heq

theorem get_capture {tree : Dir} {snapshot : RootfsSnapshot} {k : Bytes} {e : RootfsEntry}
    (ht : tree.Valid)
    (hown : ∀ p q n m, Shows root excluded tree p n → Shows root excluded tree q m →
      key p = key q → p = q)
    (h : capture fileDigest root excluded tree = .ok snapshot) :
    snapshot.get k = some e ↔
      ∃ p n, Shows root excluded tree p n ∧ key p = k ∧ record fileDigest n = e := by
  have hmem (x : Path × Node) :
      x ∈ (tree.nodes []).filter (fun x => !isExcluded root excluded x.1) ↔
        Shows root excluded tree x.1 x.2 := by simp [Shows]
  have hget {k : Bytes} {e : RootfsEntry} (hk : snapshot.get k = some e) :
      ∃ p n, Shows root excluded tree p n ∧ key p = k ∧ record fileDigest n = e := by
    rw [walk_eq h] at hk
    rcases get_recordAll hk with ⟨x, hx, hkey, hrecord⟩ | hempty
    · exact ⟨x.1, x.2, (hmem x).mp hx, hkey, hrecord⟩
    · cases hempty
  refine ⟨hget, ?_⟩
  rintro ⟨p, n, hshows, rfl, rfl⟩
  have hsome : snapshot.get (key p) ≠ none := by
    rw [walk_eq h]
    exact recordAll_ne_none (.inr ⟨(p, n), (hmem (p, n)).mpr hshows, rfl⟩)
  obtain ⟨e, he⟩ := Option.ne_none_iff_exists'.mp hsome
  obtain ⟨q, m, hq, hkey, rfl⟩ := hget he
  obtain rfl := hown q p m n hq hshows hkey
  rw [he, ht.unique hq.1 hshows.1]

theorem mem_allPaths {baseline current : RootfsSnapshot} {k : Bytes} :
    k ∈ allPaths baseline current ↔ baseline.get k ≠ none ∨ current.get k ≠ none := by
  have hfold (ks : List Bytes) (set : OrdMap Bytes Unit) :
      (ks.foldl (fun set path => set.insert path ()) set).get k ≠ none ↔
        k ∈ ks ∨ set.get k ≠ none := by
    induction ks generalizing set with
    | nil => simp
    | cons first ks ih =>
      rw [List.foldl_cons, ih, OrdMap.get_insert, List.mem_cons]
      by_cases hk : k = first <;> simp [hk]
  rw [allPaths, OrdMap.mem_keys_iff, hfold, List.mem_append, OrdMap.mem_keys_iff,
    OrdMap.mem_keys_iff]
  simp

theorem allPaths_comm (baseline current : RootfsSnapshot) :
    allPaths baseline current = allPaths current baseline := by
  have hsorted (x y : RootfsSnapshot) : (allPaths x y).Pairwise (· < ·) := by
    rw [allPaths, OrdMap.keys, List.pairwise_map]
    exact OrdMap.sorted _
  refine ((List.perm_ext_iff_of_nodup (OrdMap.nodup_keys _) (OrdMap.nodup_keys _)).mpr
    fun k => ?_).eq_of_pairwise (fun _ _ _ _ h h' => (lt_asymm h h').elim) (hsorted _ _)
    (hsorted _ _)
  exact mem_allPaths.trans (or_comm.trans mem_allPaths.symm)

def RootfsChange.reversed (change : RootfsChange) : RootfsChange :=
  { change with kind := if change.kind = 1 then 2 else if change.kind = 2 then 1 else change.kind }

theorem changeOf_reversed (path : Bytes) (before after : Option RootfsEntry) :
    changeOf path after before = (changeOf path before after).map RootfsChange.reversed := by
  cases before <;> cases after <;> try rfl
  next e e' =>
    by_cases h : e = e'
    · simp [changeOf, h]
    · simp [changeOf, h, Ne.symm h, RootfsChange.reversed]

theorem changeOf_path {path : Bytes} {before after : Option RootfsEntry} {change : RootfsChange}
    (h : changeOf path before after = some change) : change.path = path := by
  cases before <;> cases after <;> simp only [changeOf, reduceCtorEq] at h
  · cases h
    rfl
  · cases h
    rfl
  · split at h
    · cases h
      rfl
    · cases h

theorem diff_eq_ok {baseline : RootfsSnapshot} {tree : Dir} {changes : List RootfsChange}
    (h : diff fileDigest root excluded baseline tree = .ok changes) :
    ∃ current, capture fileDigest root excluded tree = .ok current ∧
      changes.Pairwise (fun a b => a.path < b.path) ∧
      ∀ c, c ∈ changes ↔ changeOf c.path (baseline.get c.path) (current.get c.path) = some c := by
  obtain ⟨current, hcurrent, h⟩ := Except.bind_eq_ok.mp h
  cases h
  refine ⟨current, hcurrent, ?_, fun change => ?_⟩
  · have hsorted : (allPaths baseline current).Pairwise (· < ·) := by
      rw [allPaths, OrdMap.keys, List.pairwise_map]
      exact OrdMap.sorted _
    refine List.pairwise_filterMap.mpr (hsorted.imp fun hlt change hchange other hother => ?_)
    rwa [changeOf_path hchange, changeOf_path hother]
  · rw [List.mem_filterMap]
    constructor
    · rintro ⟨k, -, hk⟩
      rwa [changeOf_path hk]
    · intro hchange
      refine ⟨change.path, mem_allPaths.mpr ?_, hchange⟩
      by_contra hnone
      push Not at hnone
      rw [hnone.1, hnone.2] at hchange
      cases hchange

end Captured

/-- How two trees differ at a path: 1 for what only the second has, 2 for what only the first has,
0 for what both have with a difference. -/
def Changed (Differ : Node → Node → Prop) (before after : Path → Node → Prop) (p : Path)
    (kind : UInt8) : Prop :=
  kind = 1 ∧ (∃ n, after p n) ∧ (∀ n, ¬before p n) ∨
    kind = 2 ∧ (∃ n, before p n) ∧ (∀ n, ¬after p n) ∨
    kind = 0 ∧ ∃ n n', before p n ∧ after p n' ∧ Differ n n'

/-- A difference in kind, mode, modification time, content of a small file or target of a link. -/
def Differs (n n' : Node) : Prop :=
  ¬(n.item.kind = n'.item.kind ∧ n.mode = n'.mode ∧ n.mtime = n'.mtime ∧
    n.mtimeNsec = n'.mtimeNsec ∧ n.item.content = n'.item.content ∧ n.item.target = n'.item.target)

/-- Of two nodes that agree in all else that is recorded, the sizes tell whether the time within
the second and the target of the link agree too. -/
def SizesTell (n n' : Node) : Prop :=
  n.item.kind = n'.item.kind → n.mode = n'.mode → n.mtime = n'.mtime →
    n.item.content = n'.item.content →
    (n.item.size = n'.item.size ↔ n.mtimeNsec = n'.mtimeNsec ∧ n.item.target = n'.item.target)

variable {fileDigest : Bytes → String}

/-- **Changes read backwards.** Between any two trees, the changes from the second to the first are
those from the first to the second with additions and deletions exchanged, and from a tree to
itself there are none. -/
theorem diff_reversed {root : List Component} {excluded : List (List Component)}
    {before after : Dir} {baseline current : RootfsSnapshot}
    (hbefore : capture fileDigest root excluded before = .ok baseline)
    (hafter : capture fileDigest root excluded after = .ok current) :
    ∃ changes, diff fileDigest root excluded baseline after = .ok changes ∧
      diff fileDigest root excluded current before = .ok (changes.map RootfsChange.reversed) ∧
      diff fileDigest root excluded current after = .ok [] := by
  have hdiff {x y : RootfsSnapshot} {tree : Dir}
      (h : capture fileDigest root excluded tree = .ok y) :
      diff fileDigest root excluded x tree = .ok ((allPaths x y).filterMap fun path =>
        changeOf path (x.get path) (y.get path)) := by
    rw [diff, h]
    rfl
  refine ⟨_, hdiff hafter, ?_, ?_⟩
  · rw [hdiff hbefore, allPaths_comm, List.map_filterMap]
    simp only [← changeOf_reversed]
  · rw [hdiff hafter]
    refine congrArg _ (List.filterMap_eq_nil_iff.mpr fun path _ => ?_)
    cases current.get path <;> simp [changeOf]

theorem record_eq_iff (hdigest : Function.Injective fileDigest)
    {n n' : Node} : record fileDigest n = record fileDigest n' ↔
      n.item.kind = n'.item.kind ∧ n.item.size = n'.item.size ∧ n.mode = n'.mode ∧
        n.mtime = n'.mtime ∧ n.item.content = n'.item.content := by
  rw [record, record, RootfsEntry.mk.injEq, (Option.map_injective hdigest).eq_iff]

theorem sizesTell_iff (hdigest : Function.Injective fileDigest) {n n' : Node} :
    SizesTell n n' ↔ (record fileDigest n ≠ record fileDigest n' ↔ Differs n n') := by
  rw [SizesTell, Differs, Ne, record_eq_iff hdigest]
  tauto

theorem Changed.mono {Differ Differ' : Node → Node → Prop} {before after : Path → Node → Prop}
    {p : Path} {kind : UInt8}
    (h : ∀ n n', before p n → after p n' → Differ n n' → Differ' n n')
    (hchanged : Changed Differ before after p kind) : Changed Differ' before after p kind := by
  rcases hchanged with hnew | hgone | ⟨hkind, n, n', hn, hn', hdiffer⟩
  · exact .inl hnew
  · exact .inr (.inl hgone)
  · exact .inr (.inr ⟨hkind, n, n', hn, hn', h n n' hn hn' hdiffer⟩)

section Exact
variable {root : List Component} {excluded : List (List Component)} {before after : Dir}
  {baseline : RootfsSnapshot} {changes : List RootfsChange}

theorem Changed.shown {Differ : Node → Node → Prop} {p : Path} {kind : UInt8}
    (h : Changed Differ (Shows root excluded before) (Shows root excluded after) p kind) :
    Shown root excluded before after p := by
  rcases h with ⟨-, hn, -⟩ | ⟨-, hn, -⟩ | ⟨-, n, -, hn, -⟩
  · exact .inr hn
  · exact .inl hn
  · exact .inl ⟨n, hn⟩

/-- With keys of their own, the entries are listed under their keys by what is recorded of them. -/
theorem mem_diff_iff (hbefore : before.Valid) (hafter : after.Valid)
    (hown : OwnKeys root excluded before after)
    (hcapture : capture fileDigest root excluded before = .ok baseline)
    (hdiff : diff fileDigest root excluded baseline after = .ok changes) (path : Bytes)
    (kind : UInt8) :
    (⟨path, kind⟩ : RootfsChange) ∈ changes ↔ ∃ p, key p = path ∧
      Changed (fun n n' => record fileDigest n ≠ record fileDigest n')
        (Shows root excluded before) (Shows root excluded after) p kind := by
  obtain ⟨current, hcurrent, -, hmem⟩ := diff_eq_ok hdiff
  have hb (k : Bytes) (e : RootfsEntry) :=
    @get_capture fileDigest root excluded _ _ k e hbefore
      (fun p q n m hp hq h => hown p q (.inl ⟨n, hp⟩) (.inl ⟨m, hq⟩) (.inl h)) hcapture
  have hc (k : Bytes) (e : RootfsEntry) :=
    @get_capture fileDigest root excluded _ _ k e hafter
      (fun p q n m hp hq h => hown p q (.inr ⟨n, hp⟩) (.inr ⟨m, hq⟩) (.inl h)) hcurrent
  -- nothing is recorded at a path of the one tree that the other does not have
  have hbnone {p : Path} {n : Node} (hn : Shows root excluded after p n)
      (hnot : ∀ m, ¬Shows root excluded before p m) : baseline.get (key p) = none := by
    by_contra hsome
    obtain ⟨e, he⟩ := Option.ne_none_iff_exists'.mp hsome
    obtain ⟨q, m, hq, hkey, -⟩ := (hb _ e).mp he
    obtain rfl := hown q p (.inl ⟨m, hq⟩) (.inr ⟨n, hn⟩) (.inl hkey)
    exact hnot m hq
  have hcnone {p : Path} {n : Node} (hn : Shows root excluded before p n)
      (hnot : ∀ m, ¬Shows root excluded after p m) : current.get (key p) = none := by
    by_contra hsome
    obtain ⟨e, he⟩ := Option.ne_none_iff_exists'.mp hsome
    obtain ⟨q, m, hq, hkey, -⟩ := (hc _ e).mp he
    obtain rfl := hown q p (.inr ⟨m, hq⟩) (.inl ⟨n, hn⟩) (.inl hkey)
    exact hnot m hq
  rw [hmem]
  constructor
  · intro h
    dsimp only at h
    cases hbk : baseline.get path with
    | none =>
      cases hck : current.get path with
      | none =>
        rw [hbk, hck] at h
        cases h
      | some e =>
        rw [hbk, hck] at h
        cases h
        obtain ⟨p, n, hn, rfl, -⟩ := (hc _ e).mp hck
        refine ⟨p, rfl, .inl ⟨rfl, ⟨n, hn⟩, fun m hm => ?_⟩⟩
        rw [(hb _ _).mpr ⟨p, m, hm, rfl, rfl⟩] at hbk
        cases hbk
    | some e =>
      obtain ⟨p, n, hn, rfl, rfl⟩ := (hb _ e).mp hbk
      cases hck : current.get (key p) with
      | none =>
        rw [hbk, hck] at h
        cases h
        refine ⟨p, rfl, .inr (.inl ⟨rfl, ⟨n, hn⟩, fun m hm => ?_⟩)⟩
        rw [(hc _ _).mpr ⟨p, m, hm, rfl, rfl⟩] at hck
        cases hck
      | some e' =>
        obtain ⟨q, m, hm, hkey, rfl⟩ := (hc _ e').mp hck
        obtain rfl := hown q p (.inr ⟨m, hm⟩) (.inl ⟨n, hn⟩) (.inl hkey)
        simp only [hbk, hck, changeOf] at h
        split at h
        · next hne =>
          cases h
          exact ⟨q, rfl, .inr (.inr ⟨rfl, n, m, hn, hm, hne⟩)⟩
        · cases h
  · rintro ⟨p, rfl, ⟨rfl, ⟨n, hn⟩, hnot⟩ | ⟨rfl, ⟨n, hn⟩, hnot⟩ | ⟨rfl, n, m, hn, hm, hne⟩⟩
    · simp only [hbnone hn hnot, (hc _ _).mpr ⟨p, n, hn, rfl, rfl⟩, changeOf]
    · simp only [hcnone hn hnot, (hb _ _).mpr ⟨p, n, hn, rfl, rfl⟩, changeOf]
    · simp only [(hb _ _).mpr ⟨p, n, hn, rfl, rfl⟩, (hc _ _).mpr ⟨p, m, hm, rfl, rfl⟩, changeOf,
        if_pos hne]

/-- For trees whose entries have keys of their own: the list has, in order, exactly the changes of
the entries that are not excluded if and only if each path that changes is its own key, and no
difference shows in a size alone, within a second alone or in a link's target alone. -/
theorem diff_exact_iff (hdigest : Function.Injective fileDigest) (hbefore : before.Valid)
    (hafter : after.Valid) (hown : OwnKeys root excluded before after)
    (hcapture : capture fileDigest root excluded before = .ok baseline)
    (hdiff : diff fileDigest root excluded baseline after = .ok changes) :
    (changes.Pairwise (fun a b => a.path < b.path) ∧
      ∀ path kind, (⟨path, kind⟩ : RootfsChange) ∈ changes ↔ ∃ p, Path.join p = path ∧
        Changed Differs (Shows root excluded before) (Shows root excluded after) p kind) ↔
    (∀ p kind, Changed Differs (Shows root excluded before) (Shows root excluded after) p kind →
      key p = Path.join p) ∧
      ∀ p n n', Shows root excluded before p n → Shows root excluded after p n' →
        SizesTell n n' := by
  have hlisted := mem_diff_iff hbefore hafter hown hcapture hdiff
  obtain ⟨-, -, hsorted, -⟩ := diff_eq_ok hdiff
  constructor
  · rintro ⟨-, hexact⟩
    constructor
    · intro p kind hchanged
      obtain ⟨q, hkey, hq⟩ := (hlisted _ kind).mp ((hexact _ kind).mpr ⟨p, rfl, hchanged⟩)
      obtain rfl := hown q p hq.shown hchanged.shown (.inr hkey)
      exact hkey
    · intro p n n' hn hn'
      have hp : Shown root excluded before after p := .inl ⟨n, hn⟩
      rw [sizesTell_iff hdigest]
      constructor
      · intro hrecord
        obtain ⟨q, hjoin, hq⟩ := (hexact _ 0).mp ((hlisted _ 0).mpr
          ⟨p, rfl, .inr (.inr ⟨rfl, n, n', hn, hn', hrecord⟩)⟩)
        obtain rfl := hown p q hp hq.shown (.inr hjoin.symm)
        rcases hq with ⟨hkind, -⟩ | ⟨hkind, -⟩ | ⟨-, m, m', hm, hm', hdiffer⟩
        · cases hkind
        · cases hkind
        · rwa [hbefore.unique hn.1 hm.1, hafter.unique hn'.1 hm'.1]
      · intro hdiffer
        obtain ⟨q, hkey, hq⟩ := (hlisted _ 0).mp ((hexact _ 0).mpr
          ⟨p, rfl, .inr (.inr ⟨rfl, n, n', hn, hn', hdiffer⟩)⟩)
        obtain rfl := hown q p hq.shown hp (.inr hkey)
        rcases hq with ⟨hkind, -⟩ | ⟨hkind, -⟩ | ⟨-, m, m', hm, hm', hrecord⟩
        · cases hkind
        · cases hkind
        · rwa [hbefore.unique hn.1 hm.1, hafter.unique hn'.1 hm'.1]
  · rintro ⟨hkeys, htell⟩
    refine ⟨hsorted, fun path kind => (hlisted path kind).trans ?_⟩
    constructor
    · rintro ⟨p, rfl, hchanged⟩
      have hdiffer := hchanged.mono fun n n' hn hn' =>
        ((sizesTell_iff hdigest).mp (htell p n n' hn hn')).mp
      exact ⟨p, (hkeys p kind hdiffer).symm, hdiffer⟩
    · rintro ⟨p, rfl, hchanged⟩
      exact ⟨p, hkeys p kind hchanged, hchanged.mono fun n n' hn hn' =>
        ((sizesTell_iff hdigest).mp (htell p n n' hn hn')).mpr⟩

end Exact

def textDigest (bytes : Bytes) : String := String.ofList (bytes.map fun b => Char.ofNat b.toNat)

theorem textDigest_injective : Function.Injective textDigest := by
  have hcode : ∀ n < 256, (Char.ofNat n).toNat = n := by decide +kernel
  have hchar : Function.Injective fun b : UInt8 => Char.ofNat b.toNat := by
    intro b c h
    have hnat := congrArg Char.toNat h
    rw [hcode _ b.toNat_lt, hcode _ c.toNat_lt] at hnat
    exact UInt8.toNat_inj.mp hnat
  exact fun a b h => hchar.list_map (String.ofList_injective h)

def touched (mtimeNsec : Nat) (rest : Dir) : Dir :=
  .entry [0x61] ⟨0o40755, 1700000000, mtimeNsec, .directory 4096⟩ .nil rest

def addedLink : Dir := .entry [0x62] ⟨0o120777, 1700000000, 0, .symlink [0x61]⟩ .nil .nil

def touchedBaseline : RootfsSnapshot :=
  OrdMap.empty.insert [0x61] ⟨2, 4096, 0o40755, 1700000000, none⟩

theorem touched_valid (mtimeNsec : Nat) (rest : Dir) (h : [0x61] ∉ rest.names)
    (hrest : rest.Valid) : (touched mtimeNsec rest).Valid :=
  And.intro (by decide) ⟨h, trivial, hrest⟩

theorem addedLink_valid : addedLink.Valid :=
  And.intro (by decide) ⟨List.not_mem_nil, trivial, trivial⟩

/-- A link is added. -/
theorem link_added :
    [(⟨[0x62], 1⟩ : RootfsChange)].Pairwise (fun a b => a.path < b.path) ∧
      ∀ path kind, (⟨path, kind⟩ : RootfsChange) ∈ [(⟨[0x62], 1⟩ : RootfsChange)] ↔
        ∃ p, Path.join p = path ∧ Changed Differs (Shows [.rootDir] [] (touched 0 .nil))
          (Shows [.rootDir] [] (touched 0 addedLink)) p kind := by
  have hbefore {p : Path} {n : Node} (h : Shows [.rootDir] [] (touched 0 .nil) p n) :
      p = [[0x61]] ∧ n.item.size = 4096 ∧ n.mtimeNsec = 0 ∧ n.item.target = none := by
    cases List.mem_singleton.mp h.1
    exact ⟨rfl, rfl, rfl, rfl⟩
  have hafter {p : Path} {n : Node} (h : Shows [.rootDir] [] (touched 0 addedLink) p n) :
      p = [[0x61]] ∧ n.item.size = 4096 ∧ n.mtimeNsec = 0 ∧ n.item.target = none ∨
        p = [[0x62]] := by
    rcases List.mem_pair.mp h.1 with h | h
    · cases h
      exact .inl ⟨rfl, rfl, rfl, rfl⟩
    · cases h
      exact .inr rfl
  have hvalid : (touched 0 .nil).Valid := touched_valid 0 .nil List.not_mem_nil trivial
  have hvalid' : (touched 0 addedLink).Valid :=
    touched_valid 0 addedLink (by decide) addedLink_valid
  have hkeys (p : Path)
      (h : Shown [.rootDir] [] (touched 0 .nil) (touched 0 addedLink) p) :
      key p = Path.join p := by
    have hp : p = [[0x61]] ∨ p = [[0x62]] := by
      rcases h with ⟨n, h⟩ | ⟨n, h⟩
      · exact .inl (hbefore h).1
      · exact (hafter h).imp And.left id
    rcases hp with rfl | rfl <;> exact key_eq_join (by decide) (by decide)
  refine (diff_exact_iff textDigest_injective hvalid hvalid' (ownKeys_of_plain hvalid hvalid' hkeys)
    (rfl : capture textDigest [.rootDir] [] (touched 0 .nil) = .ok touchedBaseline) rfl).mpr ?_
  refine ⟨fun p kind h => hkeys p h.shown, ?_⟩
  intro p n n' h h' _ _ _ _
  obtain ⟨rfl, hsize, hnsec, htarget⟩ := hbefore h
  rcases hafter h' with ⟨-, hsize', hnsec', htarget'⟩ | hp
  · rw [hsize, hsize', hnsec, hnsec', htarget, htarget']
    exact iff_of_true rfl ⟨rfl, rfl⟩
  · cases hp

theorem link_added_reversed :
    ∃ baseline current, capture textDigest [.rootDir] [] (touched 0 .nil) = .ok baseline ∧
      capture textDigest [.rootDir] [] (touched 0 addedLink) = .ok current ∧
      ∃ changes, diff textDigest [.rootDir] [] baseline (touched 0 addedLink) = .ok changes ∧
        diff textDigest [.rootDir] [] current (touched 0 .nil)
          = .ok (changes.map RootfsChange.reversed) ∧
        diff textDigest [.rootDir] [] current (touched 0 addedLink) = .ok [] :=
  ⟨_, _, rfl, rfl, diff_reversed rfl rfl⟩

def linkTo (target : UInt8) (mtimeNsec : Nat) : Dir :=
  .entry [0x62] ⟨0o120777, 1700000000, mtimeNsec, .symlink [target]⟩ .nil .nil

theorem linkTo_valid (target : UInt8) (mtimeNsec : Nat) : (linkTo target mtimeNsec).Valid :=
  And.intro (by decide) ⟨List.not_mem_nil, trivial, trivial⟩

/-- A link that points elsewhere within the same second is not listed. -/
theorem retargeted_not_listed :
    ¬∀ (fileDigest : Bytes → String), Function.Injective fileDigest →
      ∀ (root : List Component) (excluded : List (List Component)) (before after : Dir),
        before.Valid → after.Valid → ∀ (baseline : RootfsSnapshot) (changes : List RootfsChange),
        capture fileDigest root excluded before = .ok baseline →
        diff fileDigest root excluded baseline after = .ok changes →
        changes.Pairwise (fun a b => a.path < b.path) ∧
          ∀ path kind, (⟨path, kind⟩ : RootfsChange) ∈ changes ↔ ∃ p, Path.join p = path ∧
            Changed Differs (Shows root excluded before) (Shows root excluded after) p kind := by
  intro h
  have hlisted := ((h textDigest textDigest_injective [.rootDir] [] (linkTo 0x61 0) (linkTo 0x63 5)
    (linkTo_valid 0x61 0) (linkTo_valid 0x63 5)
    (OrdMap.empty.insert [0x62] ⟨3, 1, 0o120777, 1700000000, none⟩) [] rfl rfl).2 [0x62] 0).mpr
  refine List.not_mem_nil (hlisted ⟨[[0x62]], rfl, .inr (.inr ⟨rfl,
    ⟨0o120777, 1700000000, 0, .symlink [0x61]⟩, ⟨0o120777, 1700000000, 5, .symlink [0x63]⟩,
    ⟨by decide, rfl⟩, ⟨by decide, rfl⟩, ?_⟩)⟩)
  rintro ⟨-, -, -, -, -, htarget⟩
  exact absurd htarget (by decide)

end Ferrocrate.Rootfs.Diff
