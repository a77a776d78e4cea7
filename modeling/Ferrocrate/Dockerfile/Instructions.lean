import Ferrocrate.Dockerfile.Glob
import Ferrocrate.Dockerfile.Parse
import Ferrocrate.Lib.Lines
import Ferrocrate.Lib.Program
import Mathlib.Data.List.Forall2

/-! The instructions of a Dockerfile: continuation lines are joined, and each heredoc body goes to
the instruction before it. -/
namespace Ferrocrate.Dockerfile
open Lib

abbrev Line := List Char

inductive LinesStop where
  | fails (error : DockerfileBuildError)
  | panics
  deriving DecidableEq

def stopInvalid {α : Type} (message : String) : Except LinesStop α :=
  .error (.fails (.invalid message))

/-! ## Continuation lines -/

def parseEscapeDirective : Line → Except LinesStop Char
  | [] => stopInvalid "invalid escape directive: must be \x60 or \\"
  | escape :: rest =>
    if rest ≠ [] ∨ ¬(escape = '\x60' ∨ escape = '\\') then
      stopInvalid "invalid escape directive: must be \x60 or \\"
    else .ok escape

def directive? (comment : Line) : Option (Line × Line) :=
  if '=' ∈ comment then
    some (trimChars (comment.takeWhile (· ≠ '=')),
      trimChars ((comment.dropWhile (· ≠ '=')).drop 1))
  else none

def escapeOf (escape : Char) : List Line → Except LinesStop Char
  | [] => .ok escape
  | raw :: rest =>
    match trimChars raw with
    | [] => escapeOf escape rest
    | '#' :: comment =>
      match directive? (trimChars comment) with
      | some (key, value) =>
        if key = "escape".toList then
          match parseEscapeDirective value with
          | .error e => .error e
          | .ok escape => escapeOf escape rest
        else escapeOf escape rest
      | none => escapeOf escape rest
    | _ :: _ => .ok escape

def isComment (line : Line) : Bool := (trimStart line).head? = some '#'

def standalone (line : Line) : Bool := trimChars line = [] || isComment line

def trailing (escape : Char) (line : Line) : Nat :=
  (line.reverse.takeWhile (· = escape)).length

def sliceOff (text : List Char) (size : Nat) : Option (List Char) :=
  (sliceFrom text.reverse size).map List.reverse

structure Joining where
  joined : List Line
  pending : Option Line

def joinLine (escape : Char) (s : Joining) (line : Line) : Except LinesStop Joining :=
  if s.pending = none ∧ standalone line then .ok { s with joined := s.joined ++ [line] }
  else
    let current := s.pending.getD []
    let cut := if s.pending.isSome then trimStart line else line
    if trailing escape line % 2 = 1 then
      match sliceOff cut escape.utf8Size with
      | some start => .ok { s with pending := some (current ++ start) }
      | none => .error .panics
    else .ok ⟨s.joined ++ [current ++ cut], none⟩

def joinLines (lines : List Line) : List Char := ['\n'].intercalate lines

def joinContinuationLines (lines : List Line) (escape : Char) : Except LinesStop (List Char) := do
  let s ← lines.foldlM (joinLine escape) ⟨[], none⟩
  match s.pending with
  | some dangling =>
    stopInvalid ("Dockerfile instruction ends with an escape: " ++ String.ofList dangling)
  | none => .ok (joinLines s.joined)

def preprocessDockerfile (contents : List Char) : Except LinesStop (List Char) := do
  let escape ← escapeOf '\\' (lines contents)
  joinContinuationLines (lines contents) escape

/-! ## Heredocs -/

def wordsOf (line : Line) : List (List Char) :=
  (line.splitOnP isWhitespace).filter (· ≠ [])

structure Marker where
  delimiter : Line
  stripTabs : Bool

def marker? : List Char → Option Marker
  | '<' :: '<' :: word =>
    let (stripTabs, word) := match word with
      | '-' :: word => (true, word)
      | word => (false, word)
    let delimiter := ((word.dropWhile isQuote).reverse.dropWhile isQuote).reverse
    if delimiter = [] then none else some ⟨delimiter, stripTabs⟩
  | _ => none

def takesHeredocs (raw : Line) : Bool :=
  ((wordsOf raw).headD []).map Char.toUpper ∈
    ["RUN".toList, "COPY".toList, "ADD".toList, "ONBUILD".toList]

def heredocMarkers (raw : Line) : List Marker :=
  if takesHeredocs raw then (wordsOf raw).filterMap marker? else []

def Marker.candidate (m : Marker) (line : Line) : Line :=
  if m.stripTabs then line.dropWhile (· = '\t') else line

def Marker.takeBody (m : Marker) (body : List Char) : List Line → Option (List Char × List Line)
  | [] => none
  | line :: rest =>
    if m.candidate line = m.delimiter then some (body, rest)
    else
      m.takeBody ((if body ≠ [] then body ++ ['\n'] else body) ++ m.candidate line) rest

def takeBodies : List Marker → Line → List Line → Except LinesStop (Line × List Line)
  | [], logical, rest => .ok (logical, rest)
  | m :: markers, logical, rest =>
    match m.takeBody [] rest with
    | none => stopInvalid ("unterminated heredoc delimiter: " ++ String.ofList m.delimiter)
    | some (body, rest) => takeBodies markers (logical ++ '\n' :: body) rest

def instructionsFrom : Nat → List Line → Except LinesStop (List Line)
  | 0, _ => .ok []
  | _, [] => .ok []
  | fuel + 1, raw :: rest =>
    match takeBodies (heredocMarkers raw) raw rest with
    | .error e => .error e
    | .ok (logical, rest) => (instructionsFrom fuel rest).map (logical :: ·)

def dockerfileInstructions (contents : List Char) : Except LinesStop (List Line) := do
  let prepared ← preprocessDockerfile contents
  instructionsFrom (lines prepared).length (lines prepared)

theorem sliceOff_append (text : List Char) (c : Char) :
    sliceOff (text ++ [c]) c.utf8Size = some text := by
  have hslice := sliceFrom_append [c] text.reverse
  rw [utf8Length, List.map_singleton, List.sum_singleton] at hslice
  rw [sliceOff, List.reverse_append, List.reverse_singleton, hslice, Option.map_some,
    List.reverse_reverse]

variable {escape : Char}

theorem eq_append_of_trailing {line : Line} (h : trailing escape line % 2 = 1) :
    ∃ start, line = start ++ [escape] := by
  rcases List.eq_nil_or_concat' line with rfl | ⟨start, c, rfl⟩
  · cases h
  · refine ⟨start, ?_⟩
    by_cases hc : c = escape
    · rw [hc]
    · rw [trailing, List.reverse_append, List.reverse_singleton, List.singleton_append,
        List.takeWhile_cons_of_neg (by simpa using hc)] at h
      cases h

theorem trimStart_append (hescape : isWhitespace escape = false) (line : Line) :
    trimStart (line ++ [escape]) = trimStart line ++ [escape] := by
  rw [trimStart, trimStart, List.dropWhile_append]
  split_ifs with hnil
  · rw [List.dropWhile_cons_of_neg (by simp [hescape]), List.isEmpty_iff.mp hnil]
    rfl
  · rfl

theorem joinLine_ne_panics (hescape : isWhitespace escape = false) (s : Joining)
    (line : Line) : joinLine escape s line ≠ .error .panics := by
  unfold joinLine
  by_cases hplain : s.pending = none ∧ standalone line
  · rw [if_pos hplain]
    nofun
  rw [if_neg hplain]
  dsimp only
  by_cases htrailing : trailing escape line % 2 = 1
  · obtain ⟨start, rfl⟩ := eq_append_of_trailing htrailing
    rw [if_pos htrailing]
    split_ifs
    · rw [trimStart_append hescape, sliceOff_append]
      nofun
    · rw [sliceOff_append]
      nofun
  · rw [if_neg htrailing]
    nofun

theorem foldlM_joinLine_ne_panics (hescape : isWhitespace escape = false)
    (text : List Line) (s : Joining) : text.foldlM (joinLine escape) s ≠ .error .panics := by
  induction text generalizing s with
  | nil => nofun
  | cons line text ih =>
    intro h
    rw [List.foldlM_cons] at h
    rcases Except.bind_eq_error.mp h with hline | ⟨s', -, hrest⟩
    · exact joinLine_ne_panics hescape s line hline
    · exact ih s' hrest

theorem joinContinuationLines_ne_panics (hescape : isWhitespace escape = false)
    (text : List Line) : joinContinuationLines text escape ≠ .error .panics := by
  intro h
  rcases Except.bind_eq_error.mp h with hfold | ⟨s, -, hend⟩
  · exact foldlM_joinLine_ne_panics hescape text _ hfold
  · cases hpending : s.pending with
    | none =>
      rw [hpending] at hend
      cases hend
    | some dangling =>
      rw [hpending] at hend
      cases hend

theorem joinContinuationLines_panics (hescape : isWhitespace escape = true) :
    joinContinuationLines [['a', escape], [escape]] escape = .error .panics := by
  have ha : 'a' ≠ escape := by
    rintro rfl
    cases hescape
  have hfirst : joinLine escape ⟨[], none⟩ ['a', escape] = .ok ⟨[], some ['a']⟩ := by
    have hslice := sliceOff_append ['a'] escape
    have hblank : ¬standalone ['a', escape] = true := by
      simp [standalone, isComment, trimChars, trimStart, isWhitespace]
    have htrailing : trailing escape ['a', escape] = 1 := by simp [trailing, ha]
    simp [joinLine, hblank, htrailing, show sliceOff ['a', escape] _ = _ from hslice]
  have hsecond : joinLine escape ⟨[], some ['a']⟩ [escape] = .error .panics := by
    have hsize := Char.utf8Size_pos escape
    have hslice : sliceOff [] escape.utf8Size = none := by
      obtain ⟨n, hn⟩ := Nat.exists_eq_succ_of_ne_zero hsize.ne'
      rw [hn]
      rfl
    have htrailing : trailing escape [escape] = 1 := by simp [trailing]
    have htrim : trimStart [escape] = [] := by simp [trimStart, hescape]
    simp [joinLine, htrailing, htrim, hslice]
  show (List.foldlM (joinLine escape) ⟨[], none⟩ [['a', escape], [escape]] >>= _) = _
  rw [List.foldlM_cons, hfirst]
  show (List.foldlM (joinLine escape) ⟨[], some ['a']⟩ [[escape]] >>= _) = _
  rw [List.foldlM_cons, hsecond]
  rfl

def IsEscape (escape : Char) : Prop := escape = '\x60' ∨ escape = '\\'

theorem IsEscape.isWhitespace (h : IsEscape escape) :
    isWhitespace escape = false := by
  rcases h with rfl | rfl <;> rfl

theorem IsEscape.ne_sharp (h : IsEscape escape) : escape ≠ '#' := by
  rcases h with rfl | rfl <;> decide

theorem parseEscapeDirective_ok {raw : Line}
    (h : parseEscapeDirective raw = .ok escape) : IsEscape escape := by
  cases raw with
  | nil => cases h
  | cons c rest =>
    rw [parseEscapeDirective] at h
    split_ifs at h with hbad
    · cases h
    · cases h
      exact not_not.mp (not_or.mp hbad).2

theorem escapeOf_ok {escape result : Char} {text : List Line}
    (h : escapeOf escape text = .ok result) (hescape : IsEscape escape) : IsEscape result := by
  fun_induction escapeOf escape text with
  | case1 => exact Except.ok.inj h ▸ hescape
  | case2 _ _ _ _ ih => exact ih h hescape
  | case3 => cases h
  | case4 escape raw rest comment hraw value next hparse hdirective ih =>
    exact ih h (parseEscapeDirective_ok hparse)
  | case5 _ _ _ _ _ _ _ _ _ ih => exact ih h hescape
  | case6 _ _ _ _ _ _ ih => exact ih h hescape
  | case7 => exact Except.ok.inj h ▸ hescape

theorem escapeOf_ne_panics (escape : Char) (text : List Line) :
    escapeOf escape text ≠ .error .panics := by
  fun_induction escapeOf escape text with
  | case1 => nofun
  | case2 _ _ _ _ ih => exact ih
  | case3 escape raw rest comment hraw value e hparse hdirective =>
    intro h
    cases h
    unfold parseEscapeDirective at hparse
    split at hparse
    · cases hparse
    · split_ifs at hparse
      cases hparse
  | case4 _ _ _ _ _ _ _ _ _ ih => exact ih
  | case5 _ _ _ _ _ _ _ _ _ ih => exact ih
  | case6 _ _ _ _ _ _ ih => exact ih
  | case7 => nofun

theorem takeBodies_ne_panics (markers : List Marker) (logical : Line) (rest : List Line) :
    takeBodies markers logical rest ≠ .error .panics := by
  fun_induction takeBodies markers logical rest with
  | case1 => nofun
  | case2 => nofun
  | case3 _ _ _ _ _ _ _ ih => exact ih

theorem instructionsFrom_ne_panics (fuel : Nat) (text : List Line) :
    instructionsFrom fuel text ≠ .error .panics := by
  fun_induction instructionsFrom fuel text with
  | case1 => nofun
  | case2 => nofun
  | case3 fuel raw rest e htake =>
    rintro ⟨⟩
    exact takeBodies_ne_panics _ _ _ htake
  | case4 fuel raw rest logical rest' htake ih =>
    cases hrest : instructionsFrom fuel rest' with
    | error e =>
      rw [hrest] at ih
      rintro ⟨⟩
      exact ih rfl
    | ok entries => nofun

theorem dockerfileInstructions_ne_panics (contents : List Char) :
    dockerfileInstructions contents ≠ .error .panics := by
  intro h
  rcases Except.bind_eq_error.mp h with hprepared | ⟨prepared, -, hrest⟩
  · rcases Except.bind_eq_error.mp hprepared with hescape | ⟨escape, hescape, hjoin⟩
    · exact escapeOf_ne_panics _ _ hescape
    · exact joinContinuationLines_ne_panics (escapeOf_ok hescape (.inr rfl)).isWhitespace _ hjoin
  · exact instructionsFrom_ne_panics _ _ hrest

end Ferrocrate.Dockerfile
