import Mathlib.Data.List.Infix
import Mathlib.Data.List.Lex
import Ferrocrate.Lib.Bytes

/-! File paths: the bytes of a path, its components, and the order of component lists. -/
namespace Ferrocrate.Lib

abbrev Name := Bytes

abbrev Path := List Name

inductive Component
  | rootDir
  | curDir
  | parentDir
  | normal (name : Name)
  deriving DecidableEq

namespace Path

def slash : UInt8 := 47

def component (segment : Bytes) : Component :=
  if segment = [46, 46] then .parentDir
  else if segment = [46] then .curDir
  else .normal segment

def components (bytes : Bytes) : List Component :=
  let segments := bytes.splitOn slash
  match segments with
  | [] :: _ :: _ => .rootDir :: ((segments.filter fun s => s ≠ [] ∧ s ≠ [46]).map component)
  | first :: rest =>
    (if first = [] then [] else [component first]) ++
      (rest.filter fun s => s ≠ [] ∧ s ≠ [46]).map component
  | [] => []

def join (path : Path) : Bytes := List.intercalate [slash] path

structure ValidName (name : Name) : Prop where
  nonempty : name ≠ []
  no_slash : slash ∉ name
  not_dot : name ≠ [46]
  not_dots : name ≠ [46, 46]

variable {name : Name}

theorem validName_iff : ValidName name ↔
    name ≠ [] ∧ slash ∉ name ∧ name ≠ [46] ∧ name ≠ [46, 46] :=
  ⟨fun h => ⟨h.nonempty, h.no_slash, h.not_dot, h.not_dots⟩, fun h => ⟨h.1, h.2.1, h.2.2.1, h.2.2.2⟩⟩

instance (name : Name) : Decidable (ValidName name) := decidable_of_iff _ validName_iff.symm

theorem component_of_valid (h : ValidName name) :
    component name = .normal name := by
  rw [component, if_neg h.not_dots, if_neg h.not_dot]

theorem components_join {path : Path} (hne : path ≠ []) (h : ∀ name ∈ path, ValidName name) :
    components (join path) = path.map .normal := by
  have hsplit : (join path).splitOn slash = path :=
    List.splitOn_intercalate slash (fun name hname => (h name hname).no_slash) hne
  cases path with
  | nil => exact absurd rfl hne
  | cons first rest =>
    have hfirst := h first (List.mem_cons_self ..)
    have hrest : rest.filter (fun s => s ≠ [] ∧ s ≠ [46]) = rest := by
      rw [List.filter_eq_self]
      intro name hname
      have hv := h name (List.mem_cons_of_mem _ hname)
      simp [hv.nonempty, hv.not_dot]
    have hmap : rest.map component = rest.map .normal :=
      List.map_congr_left fun name hname =>
        component_of_valid (h name (List.mem_cons_of_mem _ hname))
    have hcons : first ≠ [] := hfirst.nonempty
    rw [components, hsplit]
    split
    · rename_i heq
      exact absurd (List.cons.inj heq).1 hcons
    · rename_i heq
      obtain ⟨rfl, rfl⟩ := List.cons.inj heq
      rw [if_neg hcons, hrest, hmap, component_of_valid hfirst]
      rfl
    · rename_i heq
      cases heq

theorem components_of_valid (h : ValidName name) :
    components name = [.normal name] := by
  have hjoin : join [name] = name := by simp [join]
  have hcomponents : components (join [name]) = [name].map .normal :=
    components_join (by simp) (by simpa using h)
  rwa [hjoin] at hcomponents

def following (b : UInt8) : Option (List (UInt8 × UInt8)) :=
  let tail : UInt8 × UInt8 := (0x80, 0xbf)
  if b < 0x80 then some []
  else if b < 0xc2 then none
  else if b < 0xe0 then some [tail]
  else if b = 0xe0 then some [(0xa0, 0xbf), tail]
  else if b = 0xed then some [(0x80, 0x9f), tail]
  else if b < 0xf0 then some [tail, tail]
  else if b = 0xf0 then some [(0x90, 0xbf), tail, tail]
  else if b < 0xf4 then some [tail, tail, tail]
  else if b = 0xf4 then some [(0x80, 0x8f), tail, tail]
  else none

def replacement : Bytes := [0xef, 0xbf, 0xbd]

def lossyFrom : Bytes → List (UInt8 × UInt8) → Bytes → Bytes
  | _, [], [] => []
  | _, _ :: _, [] => replacement
  | seen, due, b :: rest =>
    let start := match following b with
      | none => replacement ++ lossyFrom [] [] rest
      | some [] => b :: lossyFrom [] [] rest
      | some due => lossyFrom [b] due rest
    match due with
    | [] => start
    | range :: due =>
      if range.1 ≤ b ∧ b ≤ range.2 then
        if due = [] then seen ++ b :: lossyFrom [] [] rest else lossyFrom (seen ++ [b]) due rest
      else replacement ++ start

def toStringLossy (name : Name) : Bytes := lossyFrom [] [] name

def toStr (name : Name) : Option Bytes := if toStringLossy name = name then some name else none

theorem lossyFrom_ascii {b : UInt8} (h : b < 0x80) (rest : Bytes) :
    lossyFrom [] [] (b :: rest) = b :: lossyFrom [] [] rest := by
  simp [lossyFrom, following, h]

theorem toStringLossy_append {ascii : Bytes} (h : ∀ b ∈ ascii, b < 0x80) (name : Name) :
    toStringLossy (ascii ++ name) = ascii ++ toStringLossy name := by
  induction ascii with
  | nil => rfl
  | cons b ascii ih =>
    have hrest := ih fun b hb => h b (List.mem_cons_of_mem _ hb)
    rw [List.cons_append, toStringLossy, lossyFrom_ascii (h b (List.mem_cons_self ..))]
    exact congrArg (b :: ·) hrest

example : toStringLossy [0x61, 0xff, 0xe2, 0x82, 0x62, 0xc3, 0xa9] =
    [0x61] ++ replacement ++ replacement ++ [0x62, 0xc3, 0xa9] := by decide

scoped instance : LinearOrder UInt8 where
  le_refl := UInt8.le_refl
  le_trans := fun _ _ _ => UInt8.le_trans
  le_antisymm := fun _ _ => UInt8.le_antisymm
  le_total := UInt8.le_total
  lt_iff_le_not_ge := fun a b => by
    rw [UInt8.not_le]
    exact ⟨fun h => ⟨UInt8.le_of_lt h, h⟩, And.right⟩
  toDecidableLE := inferInstance

end Path

end Ferrocrate.Lib
