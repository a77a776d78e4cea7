import Ferrocrate.Lib.Text
import Mathlib.Data.List.TakeWhile

/-! The lines of a text. -/
namespace Ferrocrate.Lib

def dropReturn (line : List Char) : List Char :=
  if line.getLast? = some '\r' then line.dropLast else line

def lines (text : List Char) : List (List Char) :=
  let pieces := text.splitOn '\n'
  pieces.dropLast.map dropReturn ++ (pieces.getLast?.toList.filter (· ≠ []))

def trimStart (text : List Char) : List Char := text.dropWhile isWhitespace

def trimChars (text : List Char) : List Char :=
  ((text.dropWhile isWhitespace).reverse.dropWhile isWhitespace).reverse

theorem mem_dropWhile_iff {α : Type} {p : α → Bool} {x : α} (hx : p x = false) {xs : List α} :
    x ∈ xs.dropWhile p ↔ x ∈ xs := by
  refine ⟨fun h => (List.dropWhile_sublist p).subset h, fun h => ?_⟩
  rw [← List.takeWhile_append_dropWhile (p := p) (l := xs)] at h
  rcases List.mem_append.mp h with h | h
  · exact absurd (List.mem_takeWhile_imp h) (by rw [hx]; exact Bool.false_ne_true)
  · exact h

/-! ## Lines of joined lines -/

def relined (text : List (List Char)) : List (List Char) :=
  text.dropLast.map dropReturn ++ text.getLast?.toList.filter (· ≠ [])

theorem lines_intercalate {text : List (List Char)} (h : ∀ line ∈ text, '\n' ∉ line) :
    lines (['\n'].intercalate text) = relined text := by
  by_cases hnil : text = []
  · rw [hnil]
    rfl
  · rw [lines, List.splitOn_intercalate '\n' h hnil]
    rfl

theorem not_mem_splitOn {c : Char} {text piece : List Char} (h : piece ∈ text.splitOn c) :
    c ∉ piece := by
  induction text generalizing piece with
  | nil =>
    rw [List.splitOn_nil, List.mem_singleton] at h
    rw [h]
    exact List.not_mem_nil
  | cons x text ih =>
    rw [List.splitOn_cons_eq_if_modifyHead] at h
    split_ifs at h with hx
    · rcases List.mem_cons.mp h with rfl | h
      · exact List.not_mem_nil
      · exact ih h
    · cases hpieces : text.splitOn c with
      | nil => exact absurd hpieces (List.splitOn_ne_nil c text)
      | cons head rest =>
        rw [hpieces, List.modifyHead_cons] at h
        rw [hpieces] at ih
        rcases List.mem_cons.mp h with rfl | h
        · rw [List.mem_cons, not_or]
          exact ⟨fun heq => hx (by rw [heq, beq_self_eq_true]), ih List.mem_cons_self⟩
        · exact ih (List.mem_cons_of_mem _ h)

theorem dropReturn_sublist (line : List Char) : (dropReturn line).Sublist line := by
  unfold dropReturn
  split_ifs
  · exact List.dropLast_sublist line
  · exact List.Sublist.refl line

theorem newline_not_mem_lines {text line : List Char} (h : line ∈ lines text) : '\n' ∉ line := by
  rcases List.mem_append.mp h with h | h
  · obtain ⟨piece, hpiece, rfl⟩ := List.mem_map.mp h
    exact fun hmem => not_mem_splitOn (List.mem_of_mem_dropLast hpiece)
      ((dropReturn_sublist piece).subset hmem)
  · exact not_mem_splitOn (List.mem_of_getLast? (Option.mem_toList.mp (List.mem_filter.mp h).1))

theorem relined_append {text rest : List (List Char)}
    (hreturn : ∀ line ∈ text, dropReturn line = line)
    (hlast : rest = [] → text.getLast? ≠ some []) :
    relined (text ++ rest) = text ++ relined rest := by
  have hmap : ∀ part : List (List Char), (∀ line ∈ part, line ∈ text) →
      part.map dropReturn = part := fun part hpart =>
    (List.map_congr_left fun line hline => hreturn line (hpart line hline)).trans part.map_id
  by_cases hrest : rest = []
  · subst hrest
    rw [List.append_nil, relined, hmap _ fun line => List.mem_of_mem_dropLast]
    rcases List.eq_nil_or_concat' text with rfl | ⟨start, last, rfl⟩
    · rfl
    · have hne : last ≠ [] := by simpa using hlast rfl
      simp [relined, hne]
  · rw [relined, relined, List.dropLast_append_of_ne_nil hrest, List.map_append,
      hmap text fun _ => id, List.getLast?_append_of_ne_nil _ hrest, List.append_assoc]

theorem relined_cons {line : List Char} {rest : List (List Char)} (hrest : rest ≠ []) :
    relined (line :: rest) = dropReturn line :: relined rest := by
  rw [relined, relined, List.dropLast_cons_of_ne_nil hrest, List.getLast?_cons_of_ne_nil hrest]
  rfl

theorem trimChars_eq_nil {text : List Char} : trimChars text = [] ↔ trimStart text = [] := by
  rw [trimChars, List.reverse_eq_nil_iff, List.dropWhile_eq_nil_iff]
  refine ⟨fun h => ?_, fun h c hc => ?_⟩
  · by_contra hne
    obtain ⟨c, rest, hstart⟩ := List.exists_cons_of_ne_nil hne
    have hc : isWhitespace c = true := h c (by
      rw [List.mem_reverse, show text.dropWhile isWhitespace = c :: rest from hstart]
      exact List.mem_cons_self)
    have hfirst := List.head?_dropWhile_not isWhitespace text
    rw [show text.dropWhile isWhitespace = c :: rest from hstart] at hfirst
    simp [hc] at hfirst
  · rw [List.mem_reverse, show text.dropWhile isWhitespace = [] from h] at hc
    cases hc

end Ferrocrate.Lib
