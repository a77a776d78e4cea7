import Ferrocrate.Dockerfile.LineStructure

/-! Where the two scans do not leave an instruction as it is, its entry is lost. -/
namespace Ferrocrate.Dockerfile
open Lib

variable {escape : Char}

/-! ## What joined lines look like -/

def Plain (line : Line) : Prop := '\n' ∉ line ∧ '\r' ∉ line

structure Settled (escape : Char) (line : Line) : Prop where
  plain : Plain line
  even : standalone line = true ∨ trailing escape line % 2 = 0

theorem Plain.sublist {line line' : Line} (h : Plain line) (hsub : line'.Sublist line) :
    Plain line' :=
  ⟨fun hmem => h.1 (hsub.subset hmem), fun hmem => h.2 (hsub.subset hmem)⟩

theorem Plain.append {line line' : Line} (h : Plain line) (h' : Plain line') :
    Plain (line ++ line') :=
  ⟨fun hmem => (List.mem_append.mp hmem).elim h.1 h'.1,
    fun hmem => (List.mem_append.mp hmem).elim h.2 h'.2⟩

theorem trailing_append (a b : Line) :
    trailing escape (a ++ b) =
      if trailing escape b = b.length then b.length + trailing escape a else trailing escape b := by
  rw [trailing, trailing, trailing, List.reverse_append, List.takeWhile_append, List.length_reverse]
  split_ifs
  · rw [List.length_append, List.length_reverse]
  · rfl

theorem even_append {a b : Line} (ha : trailing escape a % 2 = 0) (hb : trailing escape b % 2 = 0) :
    trailing escape (a ++ b) % 2 = 0 := by
  rw [trailing_append]
  split_ifs with hall
  · omega
  · exact hb

theorem trailing_append_left {a : Line} (ha : escape ∉ a) (b : Line) :
    trailing escape (a ++ b) = trailing escape b := by
  have hzero : trailing escape a = 0 := by
    rw [trailing, List.length_eq_zero_iff, List.takeWhile_eq_nil_iff]
    intro hlength
    have hmem := List.getElem_mem hlength
    rw [List.mem_reverse] at hmem
    exact fun heq => ha (of_decide_eq_true heq ▸ hmem)
  rw [trailing_append, hzero, Nat.add_zero]
  split_ifs with hall
  · exact hall.symm
  · rfl

theorem trailing_trimStart (hescape : isWhitespace escape = false) (line : Line) :
    trailing escape (trimStart line) = trailing escape line := by
  have hsplit := List.takeWhile_append_dropWhile (p := isWhitespace) (l := line)
  have hnot : escape ∉ line.takeWhile isWhitespace := fun hmem => by
    rw [List.mem_takeWhile_imp hmem] at hescape
    cases hescape
  have hrun := trailing_append_left hnot (trimStart line)
  rw [trimStart, hsplit] at hrun
  exact hrun.symm

theorem trailing_concat (line : Line) :
    trailing escape (line ++ [escape]) = trailing escape line + 1 := by
  simp [trailing]

structure Joining.Settled (escape : Char) (s : Joining) : Prop where
  joined : ∀ line ∈ s.joined, Dockerfile.Settled escape line
  pending : ∀ current ∈ s.pending, Plain current ∧ trailing escape current % 2 = 0

variable {line : Line} {s s' : Joining}

theorem settled_joinLine (hescape : isWhitespace escape = false)
    (hs : s.Settled escape) (hline : Plain line) (h : joinLine escape s line = .ok s') :
    s'.Settled escape := by
  have hcurrent : Plain (s.pending.getD []) ∧ trailing escape (s.pending.getD []) % 2 = 0 := by
    cases hpending : s.pending with
    | none => exact ⟨⟨List.not_mem_nil, List.not_mem_nil⟩, rfl⟩
    | some current => exact hs.pending current hpending
  have hcut : ∀ line : Line, (if s.pending.isSome then trimStart line else line).Sublist line ∧
      trailing escape (if s.pending.isSome then trimStart line else line) =
        trailing escape line := by
    intro line
    split_ifs
    · exact ⟨List.dropWhile_sublist isWhitespace, trailing_trimStart hescape line⟩
    · exact ⟨List.Sublist.refl line, rfl⟩
  unfold joinLine at h
  by_cases hplain : s.pending = none ∧ standalone line
  · rw [if_pos hplain] at h
    cases h
    refine ⟨List.forall_mem_append.mpr ⟨hs.joined, List.forall_mem_singleton.mpr ?_⟩, hs.pending⟩
    exact ⟨hline, .inl hplain.2⟩
  rw [if_neg hplain] at h
  dsimp only at h
  by_cases hodd : trailing escape line % 2 = 1
  · obtain ⟨start, rfl⟩ := eq_append_of_trailing hodd
    have hstart : sliceOff (if s.pending.isSome then trimStart (start ++ [escape])
        else start ++ [escape]) escape.utf8Size =
          some (if s.pending.isSome then trimStart start else start) := by
      split_ifs
      · rw [trimStart_append hescape, sliceOff_append]
      · rw [sliceOff_append]
    rw [if_pos hodd, hstart] at h
    cases h
    refine ⟨hs.joined, fun current hcurrent' => ?_⟩
    cases hcurrent'
    rw [trailing_concat] at hodd
    have hplainStart : Plain start := hline.sublist (List.sublist_append_left start [escape])
    refine ⟨hcurrent.1.append (hplainStart.sublist (hcut start).1),
      even_append hcurrent.2 ?_⟩
    rw [(hcut start).2]
    omega
  · rw [if_neg hodd] at h
    cases h
    refine ⟨List.forall_mem_append.mpr ⟨hs.joined, List.forall_mem_singleton.mpr ?_⟩, nofun⟩
    refine ⟨hcurrent.1.append (hline.sublist (hcut line).1), .inr (even_append hcurrent.2 ?_)⟩
    rw [(hcut line).2]
    omega

theorem settled_nil (escape : Char) : Joining.Settled escape ⟨[], none⟩ :=
  ⟨fun _ hline => absurd hline List.not_mem_nil, fun _ hcurrent => nomatch hcurrent⟩

variable {text : List Line}

theorem settled_foldlM (hescape : isWhitespace escape = false) (hs : s.Settled escape) (htext : ∀ line ∈ text, Plain line)
    (h : text.foldlM (joinLine escape) s = .ok s') : s'.Settled escape := by
  induction text generalizing s with
  | nil =>
    cases h
    exact hs
  | cons line text ih =>
    rw [List.forall_mem_cons] at htext
    rw [List.foldlM_cons] at h
    obtain ⟨mid, hmid, h⟩ := Except.bind_eq_ok.mp h
    exact ih (settled_joinLine hescape hs htext.1 hmid) htext.2 h

/-! ## What comes of settled lines -/

theorem standalone_congr {a b : Line} (h : trimStart a = trimStart b) :
    standalone a = standalone b := by
  have htrim : trimChars a = trimChars b :=
    congrArg (fun text => (text.reverse.dropWhile isWhitespace).reverse) h
  rw [standalone, standalone, htrim, isComment, isComment, h]

variable {m : Marker}

theorem candidate_spec (hescape : isWhitespace escape = false) (m : Marker) (line : Line) :
    (m.candidate line).Sublist line ∧
      trailing escape (m.candidate line) = trailing escape line ∧
      standalone (m.candidate line) = standalone line := by
  unfold Marker.candidate
  split_ifs
  · have hsplit := List.takeWhile_append_dropWhile (p := fun c => c = '\t') (l := line)
    have htab : ∀ c ∈ line.takeWhile fun c => c = '\t', c = '\t' := fun c hc =>
      by simpa using List.mem_takeWhile_imp hc
    refine ⟨List.dropWhile_sublist _, ?_, standalone_congr ?_⟩
    · have hnot : escape ∉ line.takeWhile fun c => c = '\t' := fun hmem => by
        rw [htab escape hmem] at hescape
        cases hescape
      have hrun := trailing_append_left hnot (line.dropWhile fun c => c = '\t')
      rw [hsplit] at hrun
      exact hrun.symm
    · have hdrop : trimStart ((line.takeWhile fun c => c = '\t') ++
          line.dropWhile fun c => c = '\t') = trimStart (line.dropWhile fun c => c = '\t') :=
        List.dropWhile_append_of_pos fun c hc => by rw [htab c hc]; rfl
      rw [hsplit] at hdrop
      exact hdrop.symm
  · exact ⟨List.Sublist.refl line, rfl, rfl⟩

theorem settled_candidate (hescape : isWhitespace escape = false) (m : Marker)
    (h : Settled escape line) : Settled escape (m.candidate line) := by
  obtain ⟨hsub, htrailing, hstandalone⟩ := candidate_spec hescape m line
  exact ⟨h.plain.sublist hsub, by rw [htrailing, hstandalone]; exact h.even⟩

def Pieces (escape : Char) (text : List Char) : Prop :=
  ∀ piece ∈ text.splitOn '\n', Settled escape piece

theorem Pieces.of_settled (h : Settled escape line) : Pieces escape line := by
  intro piece hpiece
  rw [List.splitOn_eq_singleton h.plain.1, List.mem_singleton] at hpiece
  rwa [hpiece]

theorem pieces_append {a b : List Char} :
    Pieces escape (a ++ '\n' :: b) ↔ Pieces escape a ∧ Pieces escape b := by
  rw [Pieces, List.splitOn_append_cons_self, List.forall_mem_append]
  rfl

variable {text rest : List Line}

theorem takeBody_settled (hescape : isWhitespace escape = false)
    {body body' : List Char} (htext : ∀ line ∈ text, Settled escape line)
    (hbody : Pieces escape body) (h : m.takeBody body text = some (body', rest)) :
    Pieces escape body' ∧ (∃ line ∈ text, m.candidate line = m.delimiter) ∧
      ∀ line ∈ rest, line ∈ text := by
  induction text generalizing body with
  | nil => cases h
  | cons line text ih =>
    rw [List.forall_mem_cons] at htext
    rw [Marker.takeBody] at h
    by_cases hcloses : m.candidate line = m.delimiter
    · rw [if_pos hcloses] at h
      cases h
      exact ⟨hbody, ⟨line, List.mem_cons_self, hcloses⟩, fun _ => List.mem_cons_of_mem _⟩
    · rw [if_neg hcloses] at h
      have hcandidate := Pieces.of_settled (settled_candidate hescape m htext.1)
      have hnext : Pieces escape
          ((if body ≠ [] then body ++ ['\n'] else body) ++ m.candidate line) := by
        split_ifs with hempty
        · rw [List.append_assoc, List.singleton_append, pieces_append]
          exact ⟨hbody, hcandidate⟩
        · rw [not_not.mp hempty, List.nil_append]
          exact hcandidate
      obtain ⟨hpieces, ⟨closing, hclosing, hdelimiter⟩, hrest⟩ := ih htext.2 hnext h
      exact ⟨hpieces, ⟨closing, List.mem_cons_of_mem _ hclosing, hdelimiter⟩,
        fun line hline => List.mem_cons_of_mem _ (hrest line hline)⟩

variable {markers : List Marker}

theorem takeBodies_settled (hescape : isWhitespace escape = false) {logical entry : Line} (htext : ∀ line ∈ text, Settled escape line)
    (hlogical : Pieces escape logical)
    (h : takeBodies markers logical text = .ok (entry, rest)) :
    Pieces escape entry ∧ ∀ m ∈ markers, ∃ line ∈ text, m.candidate line = m.delimiter := by
  induction markers generalizing text logical with
  | nil =>
    cases h
    exact ⟨hlogical, nofun⟩
  | cons m markers ih =>
    rw [takeBodies] at h
    cases htake : m.takeBody [] text with
    | none =>
      rw [htake] at h
      cases h
    | some taken =>
      rw [htake] at h
      have hnil : Pieces escape [] :=
        .of_settled ⟨⟨List.not_mem_nil, List.not_mem_nil⟩, .inl rfl⟩
      obtain ⟨hpieces, hcloses, hmem⟩ := takeBody_settled hescape htext hnil htake
      obtain ⟨hentry, hmarkers⟩ := ih (fun line hline => htext line (hmem line hline))
        (pieces_append.mpr ⟨hlogical, hpieces⟩) h
      refine ⟨hentry, List.forall_mem_cons.mpr ⟨hcloses, fun m' hm' => ?_⟩⟩
      obtain ⟨line, hline, hdelimiter⟩ := hmarkers m' hm'
      exact ⟨line, hmem line hline, hdelimiter⟩

theorem prefix_takeBodies {logical entry : Line}
    (h : takeBodies markers logical text = .ok (entry, rest)) : logical <+: entry := by
  induction markers generalizing text logical with
  | nil =>
    cases h
    exact List.prefix_rfl
  | cons m markers ih =>
    rw [takeBodies] at h
    cases htake : m.takeBody [] text with
    | none =>
      rw [htake] at h
      cases h
    | some taken =>
      rw [htake] at h
      exact (List.prefix_append logical _).trans (ih h)

theorem closes_of_mem {bodies : List HeredocBody}
    (h : List.Forall₂ Marker.Closes markers bodies) {body : HeredocBody} (hbody : body ∈ bodies) :
    ∃ m, (m, body) ∈ markers.zip bodies ∧ m.Closes body := by
  induction h with
  | nil => cases hbody
  | @cons m first markers bodies hcloses _ ih =>
    rcases List.mem_cons.mp hbody with rfl | hbody
    · exact ⟨m, List.mem_cons_self, hcloses⟩
    · obtain ⟨m', hmem, hcloses'⟩ := ih hbody
      exact ⟨m', List.mem_cons_of_mem _ hmem, hcloses'⟩

variable {i : InstructionLines}

theorem candidate_mem_entry {pair : Marker × HeredocBody}
    (hpair : pair ∈ (heredocMarkers i.logical).zip i.bodies)
    (hline : line ∈ pair.2.lines) (h : Pieces escape i.entry) (hplain : ∀ line ∈ pair.2.lines,
      '\n' ∉ pair.1.candidate line) : Settled escape (pair.1.candidate line) := by
  obtain ⟨before, after, hsplit⟩ := List.append_of_mem hpair
  rw [InstructionLines.entry, hsplit, List.flatMap_append, List.flatMap_cons,
    ← List.append_assoc, List.cons_append, pieces_append] at h
  have hbody : Pieces escape (joinLines (pair.2.lines.map pair.1.candidate)) := by
    cases after with
    | nil =>
      rw [List.flatMap_nil, List.append_nil] at h
      exact h.2
    | cons next after =>
      rw [List.flatMap_cons, List.cons_append, pieces_append] at h
      exact h.2.1
  have hcandidates : pair.2.lines.map pair.1.candidate ≠ [] := by
    rw [ne_eq, List.map_eq_nil_iff]
    rintro hnil
    rw [hnil] at hline
    cases hline
  rw [Pieces, joinLines, List.splitOn_intercalate '\n' (List.forall_mem_map.mpr hplain)
    hcandidates] at hbody
  exact hbody _ (List.mem_map_of_mem hline)

/-! ## What the joined lines begin with -/

theorem joinLine_frame (before : List Line) (s : Joining) (line : Line) :
    joinLine escape ⟨before ++ s.joined, s.pending⟩ line =
      (joinLine escape s line).map fun s' => ⟨before ++ s'.joined, s'.pending⟩ := by
  unfold joinLine
  by_cases hplain : s.pending = none ∧ standalone line
  · rw [if_pos hplain, if_pos hplain, List.append_assoc]
    rfl
  rw [if_neg hplain, if_neg hplain]
  dsimp only
  by_cases hodd : trailing escape line % 2 = 1
  · rw [if_pos hodd, if_pos hodd]
    cases sliceOff (if s.pending.isSome = true then trimStart line else line) escape.utf8Size <;>
      rfl
  · rw [if_neg hodd, if_neg hodd, List.append_assoc]
    rfl

theorem foldlM_frame (escape : Char) (before : List Line) (s : Joining) (text : List Line) :
    text.foldlM (joinLine escape) ⟨before ++ s.joined, s.pending⟩ =
      (text.foldlM (joinLine escape) s).map fun s' => ⟨before ++ s'.joined, s'.pending⟩ := by
  induction text generalizing s with
  | nil => rfl
  | cons line text ih =>
    rw [List.foldlM_cons, List.foldlM_cons, joinLine_frame]
    cases joinLine escape s line with
    | error e => rfl
    | ok s' => exact ih s'

def Begins (start : Line) (s : Joining) : Prop :=
  (∃ line rest, s.joined = line :: rest ∧ start <+: line) ∨
    s.joined = [] ∧ ∃ current ∈ s.pending, start <+: current

theorem begins_joinLine {start line : Line} (hs : Begins start s)
    (h : joinLine escape s line = .ok s') : Begins start s' := by
  have hjoined : ∀ next, ∀ pending, (∃ line rest, s.joined = line :: rest ∧ start <+: line) →
      Begins start ⟨s.joined ++ next, pending⟩ := by
    rintro next pending ⟨first, rest, hfirst, hstart⟩
    exact .inl ⟨first, rest ++ next, by rw [hfirst]; rfl, hstart⟩
  unfold joinLine at h
  by_cases hplain : s.pending = none ∧ standalone line
  · rw [if_pos hplain] at h
    cases h
    rcases hs with hs | ⟨-, current, hcurrent, -⟩
    · exact hjoined [line] _ hs
    · rw [hplain.1] at hcurrent
      cases hcurrent
  rw [if_neg hplain] at h
  dsimp only at h
  by_cases hodd : trailing escape line % 2 = 1
  · rw [if_pos hodd] at h
    split at h
    · rename_i cut _
      cases h
      rcases hs with hs | ⟨hnil, current, hcurrent, hstart⟩
      · have hkept := hjoined [] (some (s.pending.getD [] ++ cut)) hs
        rwa [List.append_nil] at hkept
      · refine .inr ⟨hnil, _, rfl, ?_⟩
        rw [show s.pending = some current from hcurrent]
        exact hstart.trans (List.prefix_append current _)
    · cases h
  · rw [if_neg hodd] at h
    cases h
    rcases hs with hs | ⟨hnil, current, hcurrent, hstart⟩
    · exact hjoined _ _ hs
    · refine .inl ⟨_, [], by rw [hnil]; rfl, ?_⟩
      rw [show s.pending = some current from hcurrent]
      exact hstart.trans (List.prefix_append current _)

theorem begins_foldlM {start : Line} (hs : Begins start s)
    (h : text.foldlM (joinLine escape) s = .ok s') : Begins start s' := by
  induction text generalizing s with
  | nil =>
    cases h
    exact hs
  | cons line text ih =>
    rw [List.foldlM_cons] at h
    obtain ⟨mid, hmid, h⟩ := Except.bind_eq_ok.mp h
    exact ih (begins_joinLine hs hmid) h

/-! ## Comments inside an instruction -/

def upTo (before : List (Line × List Line)) (line : Line) : Line :=
  match before with
  | [] => line
  | (first, _) :: rest => first ++ (rest.flatMap fun line => trimStart line.1) ++ trimStart line

variable {before after : List (Line × List Line)}

theorem logical_eq_upTo {comments : List Line} (h : i.continued = before ++ (line, comments) :: after) :
    i.logical = upTo before line ++
      ((after.flatMap fun line => trimStart line.1) ++ trimStart i.last) := by
  rw [InstructionLines.logical, h]
  cases before with
  | nil => exact List.append_assoc ..
  | cons first before =>
    show first.1 ++ ((before ++ (line, comments) :: after).flatMap fun line => trimStart line.1) ++
      trimStart i.last = _
    rw [List.flatMap_append, List.flatMap_cons, upTo]
    simp only [List.append_assoc]

theorem pending_upTo (hescape : isWhitespace escape = false) {before : List (Line × List Line)} (hlines : ∀ line' ∈ before ++ [(line, [])],
      trailing escape (line'.1 ++ [escape]) % 2 = 1 ∧ line'.2 = [])
    (hstarts : standalone (((before ++ [(line, [])]).headD ([], [])).1 ++ [escape]) = false) :
    ((before.flatMap fun line => (line.1 ++ [escape]) :: line.2) ++
        [line ++ [escape]]).foldlM (joinLine escape) ⟨[], none⟩ =
      .ok ⟨[], some (upTo before line)⟩ := by
  rw [List.forall_mem_append, List.forall_mem_singleton] at hlines
  cases before with
  | nil =>
    have hline : standalone (line ++ [escape]) = false := hstarts
    rw [List.flatMap_nil, List.nil_append, List.foldlM_cons, joinLine_starts hline hlines.2.1]
    rfl
  | cons first before =>
    rw [List.forall_mem_cons] at hlines
    obtain ⟨⟨hfirst, hbefore⟩, hline⟩ := hlines
    have hplain : standalone (first.1 ++ [escape]) = false := hstarts
    rw [List.flatMap_cons, hfirst.2, List.singleton_append, List.cons_append, List.foldlM_cons,
      joinLine_starts hplain hfirst.1]
    show List.foldlM (joinLine escape) ⟨[], some first.1⟩ _ = _
    rw [List.foldlM_append, joinLines_goes_on hescape hbefore]
    show List.foldlM (joinLine escape) ⟨[], some _⟩ [line ++ [escape]] = _
    rw [List.foldlM_cons, joinLine_goes_on hescape hline.1]
    rfl

theorem begins_comment (hescape : isWhitespace escape = false) (hsharp : escape ≠ '#')
    {comment : Line} (hcomment : isComment comment = true) {current : Line} {s : Joining}
    (h : joinLine escape ⟨[], some current⟩ comment = .ok s) : Begins (current ++ ['#']) s := by
  obtain ⟨rest, hrest⟩ := List.head?_eq_some_iff.mp (of_decide_eq_true hcomment)
  by_cases hodd : trailing escape comment % 2 = 1
  · obtain ⟨start, rfl⟩ := eq_append_of_trailing hodd
    rw [joinLine_goes_on hescape hodd] at h
    cases h
    rw [trimStart_append hescape] at hrest
    refine .inr ⟨rfl, _, rfl, List.prefix_append_right_inj current |>.mpr ?_⟩
    cases hstart : trimStart start with
    | nil =>
      rw [hstart] at hrest
      exact absurd (List.cons.inj hrest).1 hsharp
    | cons c more =>
      rw [hstart] at hrest
      rw [(List.cons.inj hrest).1]
      exact ⟨more, rfl⟩
  · rw [joinLine_ends (Nat.mod_two_ne_one.mp hodd)] at h
    cases h
    refine .inl ⟨_, [], rfl, List.prefix_append_right_inj current |>.mpr ?_⟩
    rw [hrest]
    exact ⟨rest, rfl⟩

theorem head_flatMap_ne {α : Type} {c : Char} {f : α → List Char} {xs : List α}
    (h : ∀ x ∈ xs, (f x).head? ≠ some c) {rest : List Char} (hrest : rest.head? ≠ some c) :
    (xs.flatMap f ++ rest).head? ≠ some c := by
  induction xs with
  | nil => exact hrest
  | cons x xs ih =>
    rw [List.forall_mem_cons] at h
    rw [List.flatMap_cons, List.append_assoc]
    cases hx : f x with
    | nil => exact ih h.2
    | cons d more =>
      rw [hx] at h
      exact h.1

theorem entry_eq (i : InstructionLines) :
    ∃ tail, i.entry = i.logical ++ tail ∧ tail.head? ≠ some '#' := by
  refine ⟨_, rfl, ?_⟩
  cases (heredocMarkers i.logical).zip i.bodies with
  | nil => simp
  | cons pair rest => simp

theorem entry_not_begins (hescape : isWhitespace escape = false)
    (hvalid : i.Valid escape)
    {comments : List Line} (hsplit : i.continued = before ++ (line, comments) :: after) :
    ¬(upTo before line ++ ['#']) <+: i.entry := by
  obtain ⟨tail, htail, hnot⟩ := entry_eq i
  rw [htail, logical_eq_upTo hsplit, List.append_assoc, List.prefix_append_right_inj]
  rintro ⟨rest, hrest⟩
  have hafter : ∀ next ∈ after, (trimStart next.1).head? ≠ some '#' := by
    intro next hnext hhead
    have hmem : next ∈ i.continued := hsplit ▸
      List.mem_append_right _ (List.mem_cons_of_mem _ hnext)
    have hcomment := (hvalid.continued next hmem).2.1
    rw [isComment, trimStart_append hescape, decide_eq_false_iff_not, List.head?_append,
      hhead] at hcomment
    exact hcomment rfl
  have hlast : (trimStart i.last).head? ≠ some '#' := of_decide_eq_false hvalid.ends.2
  have hhead := congrArg List.head? hrest
  rw [List.append_assoc] at hhead
  refine head_flatMap_ne hafter ?_ hhead.symm
  rw [List.head?_append]
  cases hstart : (trimStart i.last).head? with
  | some c =>
    rw [hstart] at hlast
    exact hlast
  | none => exact hnot

/-! ## The entries of a text without carriage returns -/

theorem instructionsFrom_cons_eq_ok {fuel : Nat} {raw entry : Line} {more entries : List Line}
    (h : instructionsFrom fuel (raw :: more) = .ok (entry :: entries)) :
    ∃ fuel' rest, takeBodies (heredocMarkers raw) raw more = .ok (entry, rest) ∧
      instructionsFrom fuel' rest = .ok entries := by
  cases fuel with
  | zero => cases h
  | succ fuel =>
    rw [instructionsFrom] at h
    cases htake : takeBodies (heredocMarkers raw) raw more with
    | error e =>
      rw [htake] at h
      cases h
    | ok taken =>
      rw [htake] at h
      obtain ⟨rest, hrest, heq⟩ := Except.map_eq_ok.mp h
      obtain ⟨rfl, rfl⟩ := List.cons.inj heq
      exact ⟨fuel, taken.2, rfl, hrest⟩

theorem instructionsFrom_nil (fuel : Nat) : instructionsFrom fuel [] = .ok [] := by
  cases fuel <;> rfl

theorem dropReturn_plain (h : Plain line) : dropReturn line = line :=
  dropReturn_eq fun hlast => h.2 (List.mem_of_getLast? hlast)

theorem relined_plain (h : Plain line) (text : List Line) :
    relined (line :: text) = line :: relined text ∨ line = [] ∧ text = [] := by
  by_cases htext : text = []
  · subst htext
    by_cases hline : line = []
    · exact .inr ⟨hline, rfl⟩
    · exact .inl (by simp [relined, hline])
  · rw [relined_cons htext, dropReturn_plain h]
    exact .inl rfl

theorem mem_of_mem_relined (h : ∀ line ∈ text, Plain line)
    (hline : line ∈ relined text) : line ∈ text := by
  rcases List.mem_append.mp hline with hline | hline
  · obtain ⟨line', hline', rfl⟩ := List.mem_map.mp hline
    have hmem := List.mem_of_mem_dropLast hline'
    rwa [dropReturn_plain (h line' hmem)]
  · exact List.mem_of_getLast? (Option.mem_toList.mp (List.mem_filter.mp hline).1)

theorem joined_rest {before joined : List Line}
    (h : text.foldlM (joinLine escape) ⟨before, none⟩ = .ok ⟨joined, none⟩) :
    ∃ after, joined = before ++ after ∧
      text.foldlM (joinLine escape) ⟨[], none⟩ = .ok ⟨after, none⟩ := by
  have hframe := foldlM_frame escape before ⟨[], none⟩ text
  rw [List.append_nil] at hframe
  rw [hframe] at h
  obtain ⟨⟨after, pending⟩, hafter, heq⟩ := Except.map_eq_ok.mp h
  obtain ⟨hjoined, hpending⟩ := Joining.mk.inj heq
  subst hpending
  exact ⟨after, hjoined.symm, hafter⟩

variable {i : InstructionLines} {rest joined entries : List Line} {fuel : Nat}

theorem uncommented_of_entry (hescape : isWhitespace escape = false) (hsharp : escape ≠ '#')
    (hvalid : i.Valid escape)
    (hjoined : (i.text escape ++ rest).foldlM (joinLine escape) ⟨[], none⟩ = .ok ⟨joined, none⟩)
    (hplain : ∀ line ∈ joined, Plain line)
    (hentries : instructionsFrom fuel (relined joined) = .ok (i.entry :: entries)) :
    ∀ line ∈ i.continued, line.2 = [] := by
  by_contra hcommented
  rw [not_forall] at hcommented
  obtain ⟨commented, hcommented⟩ := hcommented
  have hfind : (i.continued.find? fun line => line.2 ≠ []).isSome = true := by
    rw [List.find?_isSome]
    rw [Classical.not_imp] at hcommented
    exact ⟨commented, hcommented.1, decide_eq_true hcommented.2⟩
  obtain ⟨⟨line, comments⟩, hline⟩ := Option.isSome_iff_exists.mp hfind
  obtain ⟨hne, before, after, hsplit, hbefore⟩ := List.find?_eq_some_iff_append.mp hline
  obtain ⟨comment, comments, rfl⟩ := List.exists_cons_of_ne_nil (of_decide_eq_true hne)
  have hthere : (line, comment :: comments) ∈ i.continued :=
    hsplit ▸ List.mem_append_right _ List.mem_cons_self
  have hmem : ∀ line' ∈ before ++ [(line, [])], trailing escape (line'.1 ++ [escape]) % 2 = 1 ∧
      line'.2 = [] := by
    refine List.forall_mem_append.mpr ⟨fun line' hline' => ⟨?_, ?_⟩,
      List.forall_mem_singleton.mpr ⟨?_, rfl⟩⟩
    · exact (hvalid.continued line' (hsplit ▸ List.mem_append_left _ hline')).1
    · simpa using hbefore line' hline'
    · exact (hvalid.continued _ hthere).1
  have hstarts : standalone (((before ++ [(line, [])]).headD ([], [])).1 ++ [escape]) = false := by
    have hstarts := hvalid.starts
    rw [InstructionLines.first, hsplit] at hstarts
    cases before with
    | nil => exact hstarts
    | cons first before => exact hstarts
  have hcomment := (hvalid.continued _ hthere).2.2 comment List.mem_cons_self
  have htext : i.text escape ++ rest =
      ((before.flatMap fun line => (line.1 ++ [escape]) :: line.2) ++ [line ++ [escape]]) ++
        comment :: (comments ++ (after.flatMap fun line => (line.1 ++ [escape]) :: line.2) ++
          i.last :: i.bodyLines ++ rest) := by
    rw [InstructionLines.text, hsplit]
    simp
  rw [htext, List.foldlM_append, pending_upTo hescape hmem hstarts] at hjoined
  obtain ⟨mid, hmid, hjoined⟩ := Except.bind_eq_ok.mp (show
    (joinLine escape ⟨[], some (upTo before line)⟩ comment >>= _) = _ from hjoined)
  have hbegins := begins_foldlM (begins_comment hescape hsharp hcomment hmid) hjoined
  obtain ⟨first, others, hfirst, hbegin⟩ | ⟨-, current, hcurrent, -⟩ := hbegins
  · rw [show joined = first :: others from hfirst] at hplain hentries
    rcases relined_plain (hplain first List.mem_cons_self) others with hrelined | ⟨rfl, -⟩
    · rw [hrelined] at hentries
      obtain ⟨_, _, htake, -⟩ := instructionsFrom_cons_eq_ok hentries
      exact entry_not_begins hescape hvalid hsplit (hbegin.trans (prefix_takeBodies htake))
    · have hnil := List.prefix_nil.mp hbegin
      exact absurd hnil (by simp)
  · cases hcurrent

theorem relined_of_entry {first : Line} {others : List Line} (hplain : Plain first)
    (hentries : instructionsFrom fuel (relined (first :: others)) = .ok (i.entry :: entries)) :
    relined (first :: others) = first :: relined others ∧ ∃ fuel' rest,
      takeBodies (heredocMarkers first) first (relined others) = .ok (i.entry, rest) ∧
        instructionsFrom fuel' rest = .ok entries := by
  rcases relined_plain hplain others with hrelined | ⟨rfl, rfl⟩
  · rw [hrelined] at hentries
    exact ⟨hrelined, instructionsFrom_cons_eq_ok hentries⟩
  · rw [show relined [[]] = [] from rfl, instructionsFrom_nil] at hentries
    cases hentries

theorem unescaped_of_entry (hescape : isWhitespace escape = false) (hvalid : i.Valid escape)
    (huncommented : ∀ line ∈ i.continued, line.2 = [])
    (hjoined : (i.text escape ++ rest).foldlM (joinLine escape) ⟨[], none⟩ = .ok ⟨joined, none⟩)
    (hsettled : ∀ line ∈ joined, Settled escape line)
    (hbodies : ∀ line ∈ i.bodyLines, Plain line)
    (hentries : instructionsFrom fuel (relined joined) = .ok (i.entry :: entries)) :
    ∀ line ∈ i.bodyLines, standalone line = true ∨ trailing escape line % 2 = 0 := by
  rw [text_eq, List.append_assoc, List.foldlM_append,
    joined_logical hescape hvalid huncommented] at hjoined
  obtain ⟨others, rfl, -⟩ := joined_rest hjoined
  rw [List.nil_append, List.singleton_append] at hsettled hentries
  rw [List.forall_mem_cons] at hsettled
  obtain ⟨-, _, _, htake, -⟩ := relined_of_entry hsettled.1.plain hentries
  have hothers : ∀ line ∈ relined others, Settled escape line := fun line hline =>
    hsettled.2 line (mem_of_mem_relined (fun line hline => (hsettled.2 line hline).plain) hline)
  obtain ⟨hpieces, hdelimiters⟩ :=
    takeBodies_settled hescape hothers (.of_settled hsettled.1) htake
  have heven : ∀ m : Marker, ∀ line, Settled escape (m.candidate line) →
      standalone line = true ∨ trailing escape line % 2 = 0 := by
    intro m line hcandidate
    obtain ⟨-, htrailing, hstandalone⟩ := candidate_spec hescape m line
    rw [← htrailing, ← hstandalone]
    exact hcandidate.even
  intro line hline
  obtain ⟨body, hbody, hline⟩ := List.mem_flatMap.mp hline
  obtain ⟨m, hpair, hcloses⟩ := closes_of_mem hvalid.bodies hbody
  rcases List.mem_append.mp hline with hinside | hclosing
  · have hnewline : ∀ line ∈ body.lines, '\n' ∉ m.candidate line := fun line hline =>
      ((hbodies line (List.mem_flatMap.mpr ⟨body, hbody, List.mem_append_left _ hline⟩)).sublist
        (candidate_spec hescape m line).1).1
    exact heven m line (candidate_mem_entry hpair hinside hpieces hnewline)
  · obtain ⟨other, hother, hdelimiter⟩ := hdelimiters m (List.of_mem_zip hpair).1
    refine heven m line ?_
    rw [List.mem_singleton.mp hclosing, hcloses.closing, ← hdelimiter]
    exact settled_candidate hescape m (hothers other hother)

theorem joinLines_nil_cons (h : text ≠ []) :
    joinLines ([] :: text) = '\n' :: joinLines text := by
  obtain ⟨line, rest, rfl⟩ := List.exists_cons_of_ne_nil h
  rw [joinLines, List.intercalate_cons_cons]
  rfl

theorem length_dropWhile_le (text : List Line) :
    (joinLines (text.dropWhile (· = []))).length ≤ (joinLines text).length := by
  induction text with
  | nil => exact le_rfl
  | cons line text ih =>
    by_cases hline : line = []
    · rw [List.dropWhile_cons_of_pos (by simpa using hline), hline]
      by_cases htext : text = []
      · rw [htext]
        exact le_rfl
      · rw [joinLines_nil_cons htext, List.length_cons]
        exact ih.trans (Nat.le_succ _)
    · rw [List.dropWhile_cons_of_neg (by simpa using hline)]

theorem leading_of_length {body : HeredocBody}
    (h : (m.bodyText body).length = (joinLines (body.lines.map m.candidate)).length) {more : List Line} (hlines : body.lines = line :: more) (hmore : more ≠ []) :
    m.candidate line ≠ [] := by
  intro hempty
  have hne : more.map m.candidate ≠ [] := fun hnil => hmore (List.map_eq_nil_iff.mp hnil)
  have hle := length_dropWhile_le (more.map m.candidate)
  rw [Marker.bodyText, hlines, List.map_cons, hempty, List.dropWhile_cons_of_pos (by simp),
    joinLines_nil_cons hne, List.length_cons] at h
  omega

theorem length_eq_of_flatMap {α : Type} {f g : α → List Char} {xs : List α}
    (hle : ∀ x ∈ xs, (f x).length ≤ (g x).length) (h : xs.flatMap f = xs.flatMap g) :
    ∀ x ∈ xs, (f x).length = (g x).length := by
  have hsum : ∀ ys : List α, (∀ x ∈ ys, (f x).length ≤ (g x).length) →
      (ys.flatMap f).length ≤ (ys.flatMap g).length := by
    intro ys hys
    induction ys with
    | nil => exact le_rfl
    | cons y ys ih =>
      rw [List.forall_mem_cons] at hys
      rw [List.flatMap_cons, List.flatMap_cons, List.length_append, List.length_append]
      exact Nat.add_le_add hys.1 (ih hys.2)
  intro x hx
  obtain ⟨before, after, rfl⟩ := List.append_of_mem hx
  rw [List.forall_mem_append, List.forall_mem_cons] at hle
  have hbefore := hsum before hle.1
  have hafter := hsum after hle.2.2
  have hlength := congrArg List.length h
  simp only [List.flatMap_append, List.flatMap_cons, List.length_append] at hlength
  have hx := hle.2.1
  omega

theorem leading_of_made (h : i.made = i.entry) :
    ∀ pair ∈ (heredocMarkers i.logical).zip i.bodies, ∀ line more,
      pair.2.lines = line :: more → more ≠ [] → pair.1.candidate line ≠ [] := by
  intro pair hpair line more hlines hmore
  have hbodies := List.append_cancel_left h
  refine leading_of_length (Nat.succ_injective (length_eq_of_flatMap ?_ hbodies pair hpair))
    hlines hmore
  exact fun _ _ => Nat.succ_le_succ (length_dropWhile_le _)

theorem relined_bodyLines (hvalid : i.Valid escape) (hplain : ∀ line ∈ i.bodyLines, Plain line)
    (others : List Line) : relined (i.bodyLines ++ others) = i.bodyLines ++ relined others := by
  refine relined_append (fun line hline => dropReturn_plain (hplain line hline)) fun _ hlast => ?_
  by_cases hbodies : i.bodies = []
  · rw [InstructionLines.bodyLines, hbodies] at hlast
    cases hlast
  · obtain ⟨body, hbody, hclosing⟩ := getLast_bodyLines hbodies
    rw [hclosing] at hlast
    exact closing_ne_nil hvalid.bodies (fun _ => delimiter_ne_nil) body hbody
      (Option.some.inj hlast)

theorem bodyLines_of_empty (hvalid : i.Valid escape) (h : i.logical = []) : i.bodyLines = [] := by
  have hbodies := hvalid.bodies
  rw [h, show heredocMarkers [] = [] from rfl, List.forall₂_nil_left_iff] at hbodies
  rw [InstructionLines.bodyLines, hbodies]
  rfl

theorem rest_of_standalone (hline : standalone line = true) (hplain : Plain line) {entry : Line}
    (hjoined : (line :: text).foldlM (joinLine escape) ⟨[], none⟩ = .ok ⟨joined, none⟩)
    (hresult : instructionsFrom fuel (relined joined) = .ok (entry :: entries)) :
    ∃ others fuel', text.foldlM (joinLine escape) ⟨[], none⟩ = .ok ⟨others, none⟩ ∧
      instructionsFrom fuel' (relined others) = .ok entries := by
  rw [List.foldlM_cons, joinLine_plain (.inl hline)] at hjoined
  obtain ⟨others, rfl, hothers⟩ := joined_rest hjoined
  rw [List.nil_append, List.singleton_append] at hresult
  rcases relined_plain hplain others with hrelined | ⟨rfl, rfl⟩
  · rw [hrelined] at hresult
    obtain ⟨fuel', rest, htake, hrest⟩ := instructionsFrom_cons_eq_ok hresult
    rw [heredocMarkers_standalone hline] at htake
    cases htake
    exact ⟨others, fuel', hothers, hrest⟩
  · rw [show relined [[]] = [] from rfl, instructionsFrom_nil] at hresult
    cases hresult

theorem rest_of_instruction (hescape : isWhitespace escape = false) (hsharp : escape ≠ '#')
    (hvalid : i.Valid escape) (hplain : ∀ line ∈ i.text escape, Plain line)
    (hjoined : (i.text escape ++ rest).foldlM (joinLine escape) ⟨[], none⟩ = .ok ⟨joined, none⟩)
    (hsettled : ∀ line ∈ joined, Settled escape line)
    (hresult : instructionsFrom fuel (relined joined) = .ok (i.entry :: entries)) :
    i.Intact escape ∧ i.logical.getLast? ≠ some '\r' ∧ (rest = [] → i.logical ≠ []) ∧
      ∃ others fuel', rest.foldlM (joinLine escape) ⟨[], none⟩ = .ok ⟨others, none⟩ ∧
        instructionsFrom fuel' (relined others) = .ok entries := by
  have hlines : ∀ line ∈ joined, Plain line := fun line hline => (hsettled line hline).plain
  have hbodies : ∀ line ∈ i.bodyLines, Plain line := fun line hline =>
    hplain line (List.mem_append_right _ (List.mem_cons_of_mem _ hline))
  have huncommented := uncommented_of_entry hescape hsharp hvalid hjoined hlines hresult
  have hunescaped :=
    unescaped_of_entry hescape hvalid huncommented hjoined hsettled hbodies hresult
  rw [List.foldlM_append, joined_instruction hescape hvalid huncommented hunescaped] at hjoined
  obtain ⟨others, rfl, hothers⟩ := joined_rest hjoined
  rw [List.nil_append, List.cons_append] at hresult hlines
  rw [List.forall_mem_cons] at hlines
  obtain ⟨hrelined, fuel', after, htake, hafter⟩ := relined_of_entry hlines.1 hresult
  rw [relined_bodyLines hvalid hbodies others, InstructionLines.bodyLines,
    takeBodies_bodies hvalid.bodies] at htake
  obtain ⟨hmade, rfl⟩ := Prod.mk.inj (Except.ok.inj htake)
  refine ⟨⟨huncommented, hunescaped, fun line hline hlast =>
    (hbodies line hline).2 (List.mem_of_getLast? hlast), leading_of_made hmade⟩,
    fun hlast => hlines.1.2 (List.mem_of_getLast? hlast), ?_, others, fuel', hothers, hafter⟩
  rintro rfl hempty
  have hnone : others = [] := (congrArg Joining.joined (Except.ok.inj hothers)).symm
  rw [hnone, bodyLines_of_empty hvalid hempty, hempty] at hrelined
  cases hrelined

variable {parts : List DockerfilePart}

theorem intact_of_gives (hescape : isWhitespace escape = false) (hsharp : escape ≠ '#') (hvalid : ∀ part ∈ parts, part.Valid escape)
    (hplain : ∀ line ∈ parts.flatMap (DockerfilePart.text escape), Plain line)
    {joined result : List Line} {fuel : Nat}
    (hjoined : (parts.flatMap (DockerfilePart.text escape)).foldlM (joinLine escape) ⟨[], none⟩ =
      .ok ⟨joined, none⟩)
    (hresult : instructionsFrom fuel (relined joined) = .ok result) (hgives : Gives parts result) :
    PartsIntact escape parts := by
  induction parts generalizing joined result fuel with
  | nil => trivial
  | cons part parts ih =>
    rw [List.forall_mem_cons] at hvalid
    have hsettled : ∀ line ∈ joined, Settled escape line :=
      (settled_foldlM hescape (settled_nil escape) hplain hjoined).joined
    rw [List.flatMap_cons] at hplain hjoined
    rw [List.forall_mem_append] at hplain
    rcases hgives with ⟨entry, entries, rfl, hentry, hgives⟩ | ⟨rfl, rfl, -⟩
    · have hstandalone : ∀ line, standalone line = true → part.text escape = [line] →
          PartsIntact escape parts := by
        intro line hline htext
        rw [htext] at hjoined
        obtain ⟨others, fuel', hothers, hrest⟩ := rest_of_standalone hline
          (hplain.1 line (htext ▸ List.mem_cons_self)) hjoined hresult
        exact ih hvalid.2 hplain.2 hothers hrest hgives
      cases part with
      | blank line => exact hstandalone line (standalone_blank hvalid.1) rfl
      | comment line => exact hstandalone line (standalone_comment hvalid.1) rfl
      | instruction i =>
        rw [show entry = i.entry from hentry] at hresult
        obtain ⟨hintact, hreturn, hlast, others, fuel', hothers, hrest⟩ :=
          rest_of_instruction hescape hsharp hvalid.1 hplain.1 hjoined hsettled hresult
        refine ⟨hintact, fun _ => hreturn, fun hparts => hlast ?_,
          ih hvalid.2 hplain.2 hothers hrest hgives⟩
        rw [hparts]
        rfl
    · trivial

theorem intact_of_instructionsGive {contents : List Char}
    (hreads : ReadsAs escape contents parts) (hreturns : ∀ line ∈ lines contents, '\r' ∉ line)
    (hgive : InstructionsGive contents parts) : PartsIntact escape parts := by
  obtain ⟨result, hresult, hgives⟩ := hgive
  have hescape := escapeOf_ok hreads.directive (.inr rfl)
  have hplain : ∀ line ∈ lines contents, Plain line := fun line hline =>
    ⟨newline_not_mem_lines hline, hreturns line hline⟩
  obtain ⟨prepared, hprepared, hresult⟩ := Except.bind_eq_ok.mp hresult
  rw [preprocessDockerfile, hreads.directive] at hprepared
  obtain ⟨⟨joined, pending⟩, hjoined, hprepared⟩ := Except.bind_eq_ok.mp (show
    ((lines contents).foldlM (joinLine escape) ⟨[], none⟩ >>= _) = _ from hprepared)
  cases pending with
  | some dangling => cases hprepared
  | none =>
    cases hprepared
    have hsettled :=
      (settled_foldlM hescape.isWhitespace (settled_nil escape) hplain hjoined).joined
    rw [joinLines, lines_intercalate fun line hline => (hsettled line hline).plain.1] at hresult
    rw [hreads.text] at hjoined hplain
    exact intact_of_gives hescape.isWhitespace hescape.ne_sharp hreads.valid hplain hjoined
      hresult hgives

/-- No text makes a slice panic, and none does with an escape that is no whitespace. A text of parts
gives their entries where the two scans leave its instructions as they are, and, without a carriage
return in a line, only there. -/
theorem instructions_of_parts (contents : List Char) (escape : Char)
    (parts : List DockerfilePart) :
    dockerfileInstructions contents ≠ .error .panics ∧
    ((∀ text, joinContinuationLines text escape ≠ .error .panics) ↔
      isWhitespace escape = false) ∧
    (ReadsAs escape contents parts →
      (PartsIntact escape parts → InstructionsGive contents parts) ∧
      ((∀ line ∈ lines contents, '\r' ∉ line) →
        (InstructionsGive contents parts ↔ PartsIntact escape parts))) := by
  refine ⟨dockerfileInstructions_ne_panics contents, ⟨fun h => ?_, fun h =>
    joinContinuationLines_ne_panics h⟩, fun hreads => ⟨instructionsGive_of_intact hreads,
    fun hreturns => ⟨intact_of_instructionsGive hreads hreturns,
      instructionsGive_of_intact hreads⟩⟩⟩
  by_contra hescape
  exact h _ (joinContinuationLines_panics (Bool.not_eq_false _ ▸ hescape))

def heredocParts : List DockerfilePart :=
  [.comment "# c".toList,
    .instruction ⟨[("RUN a <<E ".toList, [])], " b".toList, [⟨["x".toList], "E".toList⟩]⟩]

theorem instructions_of_heredocParts :
    InstructionsGive "# c\nRUN a <<E \\\n b\nx\nE\n".toList heredocParts := by
  refine ((instructions_of_parts _ '\\' heredocParts).2.2 ⟨by decide, by decide, ?_⟩).1 ?_
  · refine List.forall_mem_cons.mpr ⟨rfl, List.forall_mem_singleton.mpr ?_⟩
    exact ⟨by decide, by decide, by decide, .cons ⟨by decide, by decide⟩ .nil⟩
  · refine ⟨⟨by decide, by decide, by decide, ?_⟩, fun _ => by decide, fun _ => by decide, trivial⟩
    refine List.forall_mem_singleton.mpr fun line more hlines hmore => ?_
    cases hlines
    exact absurd rfl hmore

def commented : InstructionLines := ⟨[("RUN a ".toList, ["# c".toList])], "b".toList, []⟩

def escapedBody : InstructionLines :=
  ⟨[], "RUN <<E".toList, [⟨["x\\".toList, "y".toList], "E".toList⟩]⟩

/-- The comment ends the instruction and becomes a part of it; the lines of the body are joined. -/
theorem comment_and_body_joined :
    (ReadsAs '\\' "RUN a \\\n# c\nb".toList [.instruction commented] ∧
      dockerfileInstructions "RUN a \\\n# c\nb".toList =
        .ok ["RUN a # c".toList, "b".toList] ∧
      ¬Gives [.instruction commented] ["RUN a # c".toList, "b".toList]) ∧
    ReadsAs '\\' "RUN <<E\nx\\\ny\nE".toList [.instruction escapedBody] ∧
      dockerfileInstructions "RUN <<E\nx\\\ny\nE".toList = .ok ["RUN <<E\nxy".toList] ∧
      ¬Gives [.instruction escapedBody] ["RUN <<E\nxy".toList] := by
  refine ⟨⟨⟨by decide, by decide, List.forall_mem_singleton.mpr ?_⟩, rfl, ?_⟩,
    ⟨by decide, by decide, List.forall_mem_singleton.mpr ?_⟩, rfl, ?_⟩
  · exact ⟨by decide, by decide, by decide, .nil⟩
  · rintro (⟨entry, rest, hsplit, hentry, -⟩ | ⟨hblank, -⟩)
    · rw [← (List.cons.inj hsplit).1] at hentry
      have hne : "RUN a # c".toList ≠ commented.entry := by decide
      exact hne hentry
    · cases hblank
  · exact ⟨by decide, by decide, by decide, .cons ⟨by decide, by decide⟩ .nil⟩
  · rintro (⟨entry, rest, hsplit, hentry, -⟩ | ⟨hblank, -⟩)
    · rw [← (List.cons.inj hsplit).1] at hentry
      have hne : "RUN <<E\nxy".toList ≠ escapedBody.entry := by decide
      exact hne hentry
    · cases hblank

end Ferrocrate.Dockerfile
