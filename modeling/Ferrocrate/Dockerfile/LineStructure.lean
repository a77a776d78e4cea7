import Ferrocrate.Dockerfile.Instructions

/-! A Dockerfile as a sequence of blank lines, comments and instructions, and what its instructions
come to. -/
namespace Ferrocrate.Dockerfile
open Lib

structure HeredocBody where
  lines : List Line
  closing : Line

structure Marker.Closes (m : Marker) (body : HeredocBody) : Prop where
  inside : ∀ line ∈ body.lines, m.candidate line ≠ m.delimiter
  closing : m.candidate body.closing = m.delimiter

/-- The physical lines of an instruction: those that go on, without the escape at the end and each
with the comments behind it, and the last one; then the bodies. -/
structure InstructionLines where
  continued : List (Line × List Line)
  last : Line
  bodies : List HeredocBody

namespace InstructionLines

def first (escape : Char) (i : InstructionLines) : Line :=
  match i.continued with
  | [] => i.last
  | (line, _) :: _ => line ++ [escape]

def bodyLines (i : InstructionLines) : List Line :=
  i.bodies.flatMap fun body => body.lines ++ [body.closing]

def text (escape : Char) (i : InstructionLines) : List Line :=
  (i.continued.flatMap fun line => (line.1 ++ [escape]) :: line.2) ++ i.last :: i.bodyLines

def logical (i : InstructionLines) : Line :=
  match i.continued with
  | [] => i.last
  | (line, _) :: rest => line ++ (rest.flatMap fun line => trimStart line.1) ++ trimStart i.last

def entry (i : InstructionLines) : Line :=
  i.logical ++ ((heredocMarkers i.logical).zip i.bodies).flatMap fun pair =>
    '\n' :: joinLines (pair.2.lines.map pair.1.candidate)

/-- The first line is neither blank nor a comment; all lines but the last end in an odd run of the
escape; and every marker has its body. -/
structure Valid (escape : Char) (i : InstructionLines) : Prop where
  starts : standalone (i.first escape) = false
  continued : ∀ line ∈ i.continued, trailing escape (line.1 ++ [escape]) % 2 = 1 ∧
    isComment (line.1 ++ [escape]) = false ∧ ∀ comment ∈ line.2, isComment comment = true
  ends : trailing escape i.last % 2 = 0 ∧ isComment i.last = false
  bodies : List.Forall₂ Marker.Closes (heredocMarkers i.logical) i.bodies

/-- What the two scans leave as it is: no comment is inside the instruction; no line of a body ends
in an odd run of the escape, unless it looks like a comment, or in a carriage return; and no body
of several lines begins with an empty one. -/
structure Intact (escape : Char) (i : InstructionLines) : Prop where
  uncommented : ∀ line ∈ i.continued, line.2 = []
  unescaped : ∀ line ∈ i.bodyLines, standalone line = true ∨ trailing escape line % 2 = 0
  returns : ∀ line ∈ i.bodyLines, line.getLast? ≠ some '\r'
  leading : ∀ pair ∈ (heredocMarkers i.logical).zip i.bodies, ∀ line more,
    pair.2.lines = line :: more → more ≠ [] → pair.1.candidate line ≠ []

end InstructionLines

inductive DockerfilePart where
  | blank (line : Line)
  | comment (line : Line)
  | instruction (i : InstructionLines)

namespace DockerfilePart

def text (escape : Char) : DockerfilePart → List Line
  | .blank line => [line]
  | .comment line => [line]
  | .instruction i => i.text escape

def Valid (escape : Char) : DockerfilePart → Prop
  | .blank line => trimChars line = []
  | .comment line => isComment line = true
  | .instruction i => i.Valid escape

def joined : DockerfilePart → List Line
  | .blank line => [line]
  | .comment line => [line]
  | .instruction i => i.logical :: i.bodyLines

end DockerfilePart

/-- Every instruction is left as it is, no logical line ends in a carriage return but at the end of
the text, and there it is not empty. -/
def PartsIntact (escape : Char) : List DockerfilePart → Prop
  | [] => True
  | .instruction i :: rest =>
    i.Intact escape ∧ (i.bodies ≠ [] ∨ rest ≠ [] → i.logical.getLast? ≠ some '\r') ∧
      (rest = [] → i.logical ≠ []) ∧ PartsIntact escape rest
  | _ :: rest => PartsIntact escape rest

def DockerfilePart.Given : DockerfilePart → Line → Prop
  | .instruction i, entry => entry = i.entry
  | _, entry => standalone entry = true

def Gives : List DockerfilePart → List Line → Prop
  | [], result => result = []
  | part :: parts, result =>
    (∃ entry rest, result = entry :: rest ∧ part.Given entry ∧ Gives parts rest) ∨
      part = .blank [] ∧ parts = [] ∧ result = []

/-! ## Joining -/

variable {escape : Char} {line : Line}

theorem joinLine_plain (h : standalone line = true ∨ trailing escape line % 2 = 0)
    (joined : List Line) :
    joinLine escape ⟨joined, none⟩ line = .ok ⟨joined ++ [line], none⟩ := by
  unfold joinLine
  by_cases hplain : standalone line = true
  · simp [hplain]
  · have heven := h.resolve_left hplain
    simp [hplain, heven]

theorem joinLine_starts (hplain : standalone (line ++ [escape]) = false)
    (hodd : trailing escape (line ++ [escape]) % 2 = 1) (joined : List Line) :
    joinLine escape ⟨joined, none⟩ (line ++ [escape]) = .ok ⟨joined, some line⟩ := by
  simp [joinLine, hplain, hodd, sliceOff_append]

theorem joinLine_goes_on (hescape : isWhitespace escape = false)
    (hodd : trailing escape (line ++ [escape]) % 2 = 1) (joined : List Line) (current : Line) :
    joinLine escape ⟨joined, some current⟩ (line ++ [escape]) =
      .ok ⟨joined, some (current ++ trimStart line)⟩ := by
  simp [joinLine, hodd, trimStart_append hescape, sliceOff_append]

theorem joinLine_ends (heven : trailing escape line % 2 = 0) (joined : List Line)
    (current : Line) :
    joinLine escape ⟨joined, some current⟩ line =
      .ok ⟨joined ++ [current ++ trimStart line], none⟩ := by
  simp [joinLine, heven]

theorem joinLines_plain {text : List Line}
    (h : ∀ line ∈ text, standalone line = true ∨ trailing escape line % 2 = 0)
    (joined : List Line) :
    text.foldlM (joinLine escape) ⟨joined, none⟩ = .ok ⟨joined ++ text, none⟩ := by
  induction text generalizing joined with
  | nil => rw [List.append_nil]; rfl
  | cons line text ih =>
    rw [List.forall_mem_cons] at h
    rw [List.foldlM_cons, joinLine_plain h.1]
    show text.foldlM (joinLine escape) ⟨joined ++ [line], none⟩ = _
    rw [ih h.2, List.append_assoc, List.singleton_append]

theorem joinLines_standalone (h : standalone line = true) (joined : List Line) :
    [line].foldlM (joinLine escape) ⟨joined, none⟩ = .ok ⟨joined ++ [line], none⟩ :=
  joinLines_plain (List.forall_mem_singleton.mpr (.inl h)) joined

theorem joinLines_goes_on (hescape : isWhitespace escape = false)
    {continued : List (Line × List Line)}
    (h : ∀ line ∈ continued, trailing escape (line.1 ++ [escape]) % 2 = 1 ∧ line.2 = [])
    (joined : List Line) (current : Line) :
    (continued.flatMap fun line => (line.1 ++ [escape]) :: line.2).foldlM (joinLine escape)
        ⟨joined, some current⟩ =
      .ok ⟨joined, some (current ++ continued.flatMap fun line => trimStart line.1)⟩ := by
  induction continued generalizing current with
  | nil => rw [List.flatMap_nil, List.flatMap_nil, List.append_nil]; rfl
  | cons line continued ih =>
    rw [List.forall_mem_cons] at h
    rw [List.flatMap_cons, h.1.2, List.singleton_append, List.foldlM_cons,
      joinLine_goes_on hescape h.1.1]
    show List.foldlM (joinLine escape) ⟨joined, some (current ++ trimStart line.1)⟩ _ = _
    rw [ih h.2, List.flatMap_cons, List.append_assoc]

variable {i : InstructionLines}

theorem joined_logical (hescape : isWhitespace escape = false)
    (hvalid : i.Valid escape) (huncommented : ∀ line ∈ i.continued, line.2 = [])
    (joined : List Line) :
    ((i.continued.flatMap fun line => (line.1 ++ [escape]) :: line.2) ++ [i.last]).foldlM
        (joinLine escape) ⟨joined, none⟩ = .ok ⟨joined ++ [i.logical], none⟩ := by
  have hstarts := hvalid.starts
  have hcontinued : ∀ line ∈ i.continued,
      trailing escape (line.1 ++ [escape]) % 2 = 1 ∧ line.2 = [] :=
    fun line hline => ⟨(hvalid.continued line hline).1, huncommented line hline⟩
  unfold InstructionLines.logical
  unfold InstructionLines.first at hstarts
  cases hlines : i.continued with
  | nil =>
    rw [List.flatMap_nil, List.nil_append, List.foldlM_cons, joinLine_plain (.inr hvalid.ends.1)]
    rfl
  | cons line rest =>
    rw [hlines] at hstarts hcontinued
    rw [List.forall_mem_cons] at hcontinued
    rw [List.flatMap_cons, hcontinued.1.2, List.singleton_append, List.cons_append,
      List.foldlM_cons, joinLine_starts hstarts hcontinued.1.1]
    show List.foldlM (joinLine escape) ⟨joined, some line.1⟩ _ = _
    rw [List.foldlM_append, joinLines_goes_on hescape hcontinued.2]
    show List.foldlM (joinLine escape) ⟨joined, some _⟩ [i.last] = _
    rw [List.foldlM_cons, joinLine_ends hvalid.ends.1]
    rfl

theorem text_eq (escape : Char) (i : InstructionLines) :
    i.text escape = ((i.continued.flatMap fun line => (line.1 ++ [escape]) :: line.2) ++
      [i.last]) ++ i.bodyLines := by
  rw [InstructionLines.text, List.append_assoc, List.singleton_append]

theorem joined_instruction (hescape : isWhitespace escape = false)
    (hvalid : i.Valid escape) (huncommented : ∀ line ∈ i.continued, line.2 = [])
    (hunescaped : ∀ line ∈ i.bodyLines, standalone line = true ∨ trailing escape line % 2 = 0)
    (joined : List Line) :
    (i.text escape).foldlM (joinLine escape) ⟨joined, none⟩ =
      .ok ⟨joined ++ i.logical :: i.bodyLines, none⟩ := by
  rw [text_eq, List.foldlM_append, joined_logical hescape hvalid huncommented]
  show List.foldlM (joinLine escape) ⟨joined ++ [i.logical], none⟩ i.bodyLines = _
  rw [joinLines_plain hunescaped, List.append_assoc, List.singleton_append]

theorem standalone_blank (h : trimChars line = []) : standalone line = true := by
  rw [standalone, h]
  rfl

theorem standalone_comment (h : isComment line = true) :
    standalone line = true := by
  rw [standalone, h, Bool.or_true]

variable {parts : List DockerfilePart}

theorem joined_parts (hescape : isWhitespace escape = false)
    (hvalid : ∀ part ∈ parts, part.Valid escape) (hintact : PartsIntact escape parts)
    (joined : List Line) :
    (parts.flatMap (DockerfilePart.text escape)).foldlM (joinLine escape) ⟨joined, none⟩ =
      .ok ⟨joined ++ parts.flatMap DockerfilePart.joined, none⟩ := by
  induction parts generalizing joined with
  | nil => rw [List.flatMap_nil, List.flatMap_nil, List.append_nil]; rfl
  | cons part parts ih =>
    rw [List.forall_mem_cons] at hvalid
    have hpart : (part.text escape).foldlM (joinLine escape) ⟨joined, none⟩ =
        .ok ⟨joined ++ part.joined, none⟩ ∧ PartsIntact escape parts := by
      cases part with
      | blank line =>
        exact ⟨joinLines_standalone (standalone_blank hvalid.1) joined, hintact⟩
      | comment line =>
        exact ⟨joinLines_standalone (standalone_comment hvalid.1) joined, hintact⟩
      | instruction i =>
        exact ⟨joined_instruction hescape hvalid.1 hintact.1.uncommented hintact.1.unescaped joined,
          hintact.2.2.2⟩
    rw [List.flatMap_cons, List.foldlM_append, hpart.1]
    show List.foldlM (joinLine escape) ⟨joined ++ part.joined, none⟩ _ = _
    rw [ih hvalid.2 hpart.2, List.flatMap_cons, List.append_assoc]

/-! ## Blank lines and comments have no bodies -/

theorem standalone_iff :
    standalone line = true ↔ ∀ c ∈ (trimStart line).head?, c = '#' := by
  rw [standalone, Bool.or_eq_true, decide_eq_true_eq, trimChars_eq_nil, isComment,
    decide_eq_true_eq]
  cases trimStart line with
  | nil => simp
  | cons c rest => simp

theorem standalone_dropReturn (h : standalone line = true) :
    standalone (dropReturn line) = true := by
  unfold dropReturn
  split_ifs with hreturn
  · obtain ⟨start, rfl⟩ := List.getLast?_eq_some_iff.mp hreturn
    rw [List.dropLast_concat]
    rw [standalone_iff] at h ⊢
    intro c hc
    refine h c ?_
    have hne : (start.dropWhile isWhitespace).isEmpty ≠ true := by
      intro hnil
      rw [trimStart, List.isEmpty_iff.mp hnil] at hc
      cases hc
    rw [trimStart, List.dropWhile_append, if_neg hne, List.head?_append,
      show (start.dropWhile isWhitespace).head? = some c from hc]
    rfl
  · exact h

theorem head_splitOnP (p : Char → Bool) (text : List Char) :
    (text.splitOnP p).head? = some (text.takeWhile fun c => !p c) := by
  induction text with
  | nil => rfl
  | cons c text ih =>
    rw [List.splitOnP_cons_eq_if_modifyHead]
    split_ifs with hc
    · simp [hc]
    · cases hpieces : text.splitOnP p with
      | nil => exact absurd hpieces (List.splitOnP_ne_nil p text)
      | cons head rest =>
        rw [hpieces, List.head?_cons, Option.some.injEq] at ih
        simp [hc, ih]

theorem head_wordsOf (line : Line) :
    (wordsOf line).headD [] = (trimStart line).takeWhile fun c => !isWhitespace c := by
  induction line with
  | nil => rfl
  | cons c line ih =>
    by_cases hc : isWhitespace c = true
    · rw [wordsOf, List.splitOnP_cons_eq_if_modifyHead, if_pos hc, trimStart,
        List.dropWhile_cons_of_pos hc]
      exact ih
    · have hhead := head_splitOnP isWhitespace (c :: line)
      rw [List.takeWhile_cons_of_pos (by simpa using hc)] at hhead
      obtain ⟨rest, hrest⟩ := List.head?_eq_some_iff.mp hhead
      rw [wordsOf, hrest, trimStart, List.dropWhile_cons_of_neg hc,
        List.takeWhile_cons_of_pos (by simpa using hc)]
      rfl

theorem heredocMarkers_standalone (h : standalone line = true) :
    heredocMarkers line = [] := by
  refine if_neg ?_
  rw [takesHeredocs, head_wordsOf, decide_eq_true_eq]
  rw [standalone_iff] at h
  cases hstart : trimStart line with
  | nil => decide
  | cons c rest =>
    rw [hstart] at h
    obtain rfl : c = '#' := h c rfl
    rw [List.takeWhile_cons_of_pos rfl, List.map_cons]
    simp

/-! ## Bodies -/

theorem joinLines_cons (line : Line) (text : List Line) :
    joinLines (line :: text) = line ++ text.flatMap ('\n' :: ·) := by
  induction text generalizing line with
  | nil => simp [joinLines]
  | cons next text ih =>
    rw [joinLines, List.intercalate_cons_cons, ← joinLines, ih, List.append_assoc]
    rfl

variable {m : Marker}

theorem takeBody_append {text : List Line}
    (hinside : ∀ line ∈ text, m.candidate line ≠ m.delimiter) {closing : Line}
    (hclosing : m.candidate closing = m.delimiter) (rest : List Line) {body : List Char}
    (hbody : body ≠ []) :
    m.takeBody body (text ++ closing :: rest) =
      some (body ++ text.flatMap fun line => '\n' :: m.candidate line, rest) := by
  induction text generalizing body with
  | nil => rw [List.nil_append, Marker.takeBody, if_pos hclosing, List.flatMap_nil, List.append_nil]
  | cons line text ih =>
    rw [List.forall_mem_cons] at hinside
    rw [List.cons_append, Marker.takeBody, if_neg hinside.1, if_pos hbody,
      ih hinside.2 (by simp), List.flatMap_cons, List.append_assoc, List.append_assoc]
    rfl

def Marker.bodyText (m : Marker) (body : HeredocBody) : List Char :=
  joinLines ((body.lines.map m.candidate).dropWhile (· = []))

theorem takeBody_body {body : HeredocBody} (hcloses : m.Closes body) (rest : List Line) :
    m.takeBody [] (body.lines ++ [body.closing] ++ rest) = some (m.bodyText body, rest) := by
  have hinside := hcloses.inside
  rw [List.append_assoc, List.singleton_append, Marker.bodyText]
  generalize body.lines = text at hinside ⊢
  induction text with
  | nil =>
    rw [List.nil_append, Marker.takeBody, if_pos hcloses.closing]
    rfl
  | cons line more ih =>
    rw [List.forall_mem_cons] at hinside
    rw [List.cons_append, Marker.takeBody, if_neg hinside.1, if_neg (not_not.mpr rfl),
      List.nil_append, List.map_cons]
    by_cases hempty : m.candidate line = []
    · rw [hempty, List.dropWhile_cons_of_pos (by simp)]
      exact ih hinside.2
    · rw [List.dropWhile_cons_of_neg (by simpa using hempty), joinLines_cons, List.flatMap_map]
      exact takeBody_append hinside.2 hcloses.closing rest hempty

variable {bodies : List HeredocBody}

theorem takeBodies_bodies {markers : List Marker}
    (hcloses : List.Forall₂ Marker.Closes markers bodies) (logical : Line) (rest : List Line) :
    takeBodies markers logical
        ((bodies.flatMap fun body => body.lines ++ [body.closing]) ++ rest) =
      .ok (logical ++ (markers.zip bodies).flatMap fun pair => '\n' :: pair.1.bodyText pair.2,
        rest) := by
  induction hcloses generalizing logical with
  | nil => rw [takeBodies, List.zip_nil_left, List.flatMap_nil, List.flatMap_nil, List.append_nil,
      List.nil_append]
  | @cons m body markers bodies hbody _ ih =>
    rw [List.flatMap_cons, List.append_assoc, takeBodies, takeBody_body hbody]
    dsimp only
    rw [ih, List.zip_cons_cons, List.flatMap_cons, List.append_assoc]

theorem bodyText_eq {body : HeredocBody}
    (h : ∀ line more, body.lines = line :: more → more ≠ [] → m.candidate line ≠ []) :
    m.bodyText body = joinLines (body.lines.map m.candidate) := by
  rw [Marker.bodyText]
  cases hlines : body.lines with
  | nil => rfl
  | cons line more =>
    by_cases hempty : m.candidate line = []
    · have hmore : more = [] := by
        by_contra hne
        exact h line more hlines hne hempty
      rw [hmore, List.map_singleton, hempty]
      rfl
    · rw [List.map_cons, List.dropWhile_cons_of_neg (by simpa using hempty)]

def InstructionLines.made (i : InstructionLines) : Line :=
  i.logical ++ ((heredocMarkers i.logical).zip i.bodies).flatMap fun pair =>
    '\n' :: pair.1.bodyText pair.2

theorem made_eq_entry (h : i.Intact escape) : i.made = i.entry := by
  rw [InstructionLines.made, InstructionLines.entry]
  congr 1
  refine List.flatMap_congr fun pair hpair => ?_
  rw [bodyText_eq (h.leading pair hpair)]

/-! ## The entries -/

theorem delimiter_ne_nil (h : m ∈ heredocMarkers line) : m.delimiter ≠ [] := by
  unfold heredocMarkers at h
  split_ifs at h
  · obtain ⟨word, -, hword⟩ := List.mem_filterMap.mp h
    unfold marker? at hword
    split at hword
    · dsimp only at hword
      split_ifs at hword with hnil
      cases hword
      exact hnil
    · cases hword
  · cases h

theorem closing_ne_nil {markers : List Marker}
    (h : List.Forall₂ Marker.Closes markers bodies) (hne : ∀ m ∈ markers, m.delimiter ≠ []) :
    ∀ body ∈ bodies, body.closing ≠ [] := by
  induction h with
  | nil => nofun
  | @cons m body markers bodies hcloses _ ih =>
    rw [List.forall_mem_cons] at hne ⊢
    refine ⟨fun hnil => hne.1 (hcloses.closing.symm.trans ?_), ih hne.2⟩
    rw [hnil, Marker.candidate]
    split_ifs <;> rfl

theorem dropReturn_eq (h : line.getLast? ≠ some '\r') : dropReturn line = line :=
  if_neg h

theorem joined_ne_nil {parts : List DockerfilePart} (h : parts ≠ []) :
    parts.flatMap DockerfilePart.joined ≠ [] := by
  obtain ⟨part, rest, rfl⟩ := List.exists_cons_of_ne_nil h
  rw [List.flatMap_cons]
  cases part <;> exact List.cons_ne_nil _ _

theorem getLast_bodyLines (hne : i.bodies ≠ []) :
    ∃ body ∈ i.bodies, i.bodyLines.getLast? = some body.closing := by
  obtain ⟨start, body, hbodies⟩ := (List.eq_nil_or_concat' i.bodies).resolve_left hne
  refine ⟨body, hbodies ▸ List.mem_append_right _ List.mem_cons_self, ?_⟩
  rw [InstructionLines.bodyLines, hbodies, List.flatMap_append, List.flatMap_singleton,
    ← List.append_assoc, List.getLast?_concat]

theorem relined_instruction
    (hvalid : i.Valid escape) (hkept : i.Intact escape)
    (hreturn : i.bodies ≠ [] ∨ parts ≠ [] → i.logical.getLast? ≠ some '\r')
    (hne : i.logical :: i.bodyLines ++ parts.flatMap DockerfilePart.joined ≠ [[]]) :
    relined (i.logical :: i.bodyLines ++ parts.flatMap DockerfilePart.joined) =
      i.logical :: i.bodyLines ++ relined (parts.flatMap DockerfilePart.joined) := by
  by_cases halone : i.bodies = [] ∧ parts = []
  · have hlines : i.bodyLines = [] := by
      rw [InstructionLines.bodyLines, halone.1]
      rfl
    rw [halone.2, hlines] at hne ⊢
    have hlogical : i.logical ≠ [] := fun hnil => hne (by rw [hnil]; rfl)
    simp [relined, hlogical]
  · refine relined_append (List.forall_mem_cons.mpr ⟨?_, ?_⟩) fun hrest => ?_
    · exact dropReturn_eq (hreturn (not_and_or.mp halone))
    · exact fun line hline => dropReturn_eq (hkept.returns line hline)
    · have hparts : parts = [] := by
        by_contra hparts
        exact joined_ne_nil hparts hrest
      obtain ⟨body, hbody, hlast⟩ := getLast_bodyLines fun hnil => halone ⟨hnil, hparts⟩
      have hclosing := closing_ne_nil hvalid.bodies (fun _ => delimiter_ne_nil) body hbody
      have hlines : i.bodyLines ≠ [] := by
        intro hnil
        rw [hnil] at hlast
        cases hlast
      rw [List.getLast?_cons_of_ne_nil hlines, hlast]
      exact fun heq => hclosing (Option.some.inj heq)

variable {part : DockerfilePart}

theorem relined_part
    (hvalid : part.Valid escape) (hintact : PartsIntact escape (part :: parts))
    (hne : part.joined ++ parts.flatMap DockerfilePart.joined ≠ [[]]) :
    ∃ line more entry,
      relined (part.joined ++ parts.flatMap DockerfilePart.joined) =
        line :: more ++ relined (parts.flatMap DockerfilePart.joined) ∧
      (∀ rest, takeBodies (heredocMarkers line) line (more ++ rest) = .ok (entry, rest)) ∧
      part.Given entry := by
  have hstandalone : ∀ line, standalone line = true → part.joined = [line] →
      (∀ entry, standalone entry = true → part.Given entry) →
      ∃ line more entry,
        relined (part.joined ++ parts.flatMap DockerfilePart.joined) =
          line :: more ++ relined (parts.flatMap DockerfilePart.joined) ∧
        (∀ rest, takeBodies (heredocMarkers line) line (more ++ rest) = .ok (entry, rest)) ∧
        part.Given entry := by
    intro line hplain hjoined hgiven
    have htake : ∀ line' : Line, standalone line' = true → ∀ rest,
        takeBodies (heredocMarkers line') line' ([] ++ rest) = .ok (line', rest) := by
      intro line' hplain' rest
      rw [heredocMarkers_standalone hplain']
      rfl
    rw [hjoined, List.singleton_append] at hne ⊢
    by_cases hparts : parts = []
    · subst hparts
      refine ⟨line, [], line, ?_, htake line hplain, hgiven line hplain⟩
      have hline : line ≠ [] := fun hnil => hne (by rw [hnil]; rfl)
      simp [relined, hline]
    · exact ⟨dropReturn line, [], dropReturn line, relined_cons (joined_ne_nil hparts),
        htake _ (standalone_dropReturn hplain), hgiven _ (standalone_dropReturn hplain)⟩
  cases part with
  | blank line => exact hstandalone line (standalone_blank hvalid) rfl fun _ => id
  | comment line => exact hstandalone line (standalone_comment hvalid) rfl fun _ => id
  | instruction i =>
    obtain ⟨hkept, hreturn, -, -⟩ := hintact
    refine ⟨i.logical, i.bodyLines, i.made, ?_, fun rest => ?_, made_eq_entry hkept⟩
    · exact relined_instruction hvalid hkept hreturn hne
    · exact takeBodies_bodies hvalid.bodies i.logical rest

theorem PartsIntact.tail
    (h : PartsIntact escape (part :: parts)) : PartsIntact escape parts := by
  cases part with
  | instruction i => exact h.2.2.2
  | blank line => exact h
  | comment line => exact h

theorem eq_blank_of_joined
    (hvalid : part.Valid escape) (hintact : PartsIntact escape (part :: parts))
    (h : part.joined ++ parts.flatMap DockerfilePart.joined = [[]]) :
    part = .blank [] ∧ parts = [] := by
  have hparts : parts = [] := by
    by_contra hparts
    have hlength := congrArg List.length h
    rw [List.length_append, List.length_singleton] at hlength
    have hpart := List.length_pos_of_ne_nil (@joined_ne_nil [part] nofun)
    have hrest := List.length_pos_of_ne_nil (joined_ne_nil hparts)
    rw [List.flatMap_singleton] at hpart
    omega
  subst hparts
  rw [List.flatMap_nil, List.append_nil] at h
  refine ⟨?_, rfl⟩
  cases part with
  | blank line => rw [List.singleton_inj.mp h]
  | comment line =>
    rw [DockerfilePart.Valid, List.singleton_inj.mp h] at hvalid
    cases hvalid
  | instruction i => exact absurd (List.cons.inj h).1 (hintact.2.2.1 rfl)

theorem instructionsFrom_parts
    (hvalid : ∀ part ∈ parts, part.Valid escape) (hintact : PartsIntact escape parts) {fuel : Nat}
    (hfuel : (relined (parts.flatMap DockerfilePart.joined)).length ≤ fuel) :
    ∃ result,
      instructionsFrom fuel (relined (parts.flatMap DockerfilePart.joined)) = .ok result ∧
        Gives parts result := by
  induction parts generalizing fuel with
  | nil =>
    refine ⟨[], ?_, rfl⟩
    cases fuel <;> rfl
  | cons part parts ih =>
    rw [List.forall_mem_cons] at hvalid
    rw [List.flatMap_cons] at hfuel ⊢
    by_cases hempty : part.joined ++ parts.flatMap DockerfilePart.joined = [[]]
    · obtain ⟨hpart, hparts⟩ := eq_blank_of_joined hvalid.1 hintact hempty
      refine ⟨[], ?_, .inr ⟨hpart, hparts, rfl⟩⟩
      rw [hempty]
      cases fuel <;> rfl
    · obtain ⟨line, more, entry, hlines, htake, hentry⟩ := relined_part hvalid.1 hintact hempty
      rw [hlines] at hfuel ⊢
      obtain ⟨fuel, rfl⟩ : ∃ n, fuel = n + 1 :=
        Nat.exists_eq_add_one.mpr ((Nat.succ_pos _).trans_le hfuel)
      have hshort : (relined (parts.flatMap DockerfilePart.joined)).length ≤ fuel := by
        rw [List.cons_append, List.length_cons, List.length_append] at hfuel
        omega
      obtain ⟨result, hresult, hgives⟩ := ih hvalid.2 hintact.tail hshort
      refine ⟨entry :: result, ?_, .inl ⟨entry, result, rfl, hentry, hgives⟩⟩
      rw [List.cons_append, instructionsFrom, htake]
      dsimp only
      rw [hresult]
      rfl

/-! ## The whole text -/

theorem mem_text_of_mem_logical (escape : Char) {c : Char}
    (h : c ∈ i.logical) :
    ∃ line ∈ i.text escape, c ∈ line := by
  have hlast : i.last ∈ i.text escape := List.mem_append_right _ List.mem_cons_self
  have hcontinued : ∀ line ∈ i.continued, line.1 ++ [escape] ∈ i.text escape :=
    fun line hline => List.mem_append_left _
      (List.mem_flatMap.mpr ⟨line, hline, List.mem_cons_self⟩)
  have htrim : ∀ line : Line, (trimStart line).Sublist line := fun line =>
    List.dropWhile_sublist isWhitespace
  unfold InstructionLines.logical at h
  cases hlines : i.continued with
  | nil =>
    rw [hlines] at h
    exact ⟨i.last, hlast, h⟩
  | cons line rest =>
    rw [hlines] at h hcontinued
    rw [List.forall_mem_cons] at hcontinued
    rcases List.mem_append.mp h with h | h
    · rcases List.mem_append.mp h with h | h
      · exact ⟨_, hcontinued.1, List.mem_append_left _ h⟩
      · obtain ⟨next, hnext, hmem⟩ := List.mem_flatMap.mp h
        exact ⟨_, hcontinued.2 next hnext, List.mem_append_left _ ((htrim _).subset hmem)⟩
    · exact ⟨i.last, hlast, (htrim _).subset h⟩

theorem newline_not_mem_joined
    (h : ∀ line ∈ parts.flatMap (DockerfilePart.text escape), '\n' ∉ line) :
    ∀ line ∈ parts.flatMap DockerfilePart.joined, '\n' ∉ line := by
  intro line hline hmem
  obtain ⟨part, hpart, hline⟩ := List.mem_flatMap.mp hline
  have hlines : ∀ line ∈ part.text escape, '\n' ∉ line := fun line hline =>
    h line (List.mem_flatMap.mpr ⟨part, hpart, hline⟩)
  cases part with
  | blank => exact hlines line hline hmem
  | comment => exact hlines line hline hmem
  | instruction i =>
    rcases List.mem_cons.mp hline with rfl | hline
    · obtain ⟨line, hline, hmem⟩ := mem_text_of_mem_logical escape hmem
      exact hlines line hline hmem
    · exact hlines line (List.mem_append_right _ (List.mem_cons_of_mem _ hline)) hmem

structure ReadsAs (escape : Char) (contents : List Char) (parts : List DockerfilePart) : Prop where
  directive : escapeOf '\\' (lines contents) = .ok escape
  text : lines contents = parts.flatMap (DockerfilePart.text escape)
  valid : ∀ part ∈ parts, part.Valid escape

def InstructionsGive (contents : List Char) (parts : List DockerfilePart) : Prop :=
  ∃ result, dockerfileInstructions contents = .ok result ∧ Gives parts result

theorem instructionsGive_of_intact {contents : List Char}
    (hreads : ReadsAs escape contents parts) (hintact : PartsIntact escape parts) :
    InstructionsGive contents parts := by
  have hnewline : ∀ line ∈ parts.flatMap (DockerfilePart.text escape), '\n' ∉ line :=
    fun line hline => newline_not_mem_lines (hreads.text ▸ hline)
  have hescape := (escapeOf_ok hreads.directive (.inr rfl)).isWhitespace
  have hprepared : preprocessDockerfile contents =
      .ok (joinLines (parts.flatMap DockerfilePart.joined)) := by
    rw [preprocessDockerfile, hreads.directive]
    show joinContinuationLines (lines contents) escape = _
    rw [joinContinuationLines, hreads.text, joined_parts hescape hreads.valid hintact]
    rfl
  obtain ⟨result, hresult, hgives⟩ := instructionsFrom_parts hreads.valid hintact le_rfl
  refine ⟨result, ?_, hgives⟩
  rw [dockerfileInstructions, hprepared]
  show instructionsFrom (lines (joinLines _)).length (lines (joinLines _)) = _
  rw [joinLines, lines_intercalate (newline_not_mem_joined hnewline)]
  exact hresult

end Ferrocrate.Dockerfile
