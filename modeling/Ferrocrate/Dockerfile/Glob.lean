import Ferrocrate.Dockerfile.Context

/-! The two matchers of paths: the stars of `.dockerignore` and the globs of a copy. -/
namespace Ferrocrate.Dockerfile
open Lib

/-! ## Stars -/

inductive Stars : List Char → List Char → Prop
  | nil : Stars [] []
  | star {pattern value : List Char} (fill : List Char) : Stars pattern value →
    Stars ('*' :: pattern) (fill ++ value)
  | char {pattern value : List Char} {c : Char} : c ≠ '*' → Stars pattern value →
    Stars (c :: pattern) (c :: value)

def Between : List (List Char) → List Char → Prop
  | [], _ => False
  | [part], value => value = part
  | part :: parts, value => ∃ fill rest, value = part ++ (fill ++ rest) ∧ Between parts rest

def Scattered : List (List Char) → List Char → Prop
  | [], _ => True
  | part :: parts, value => ∃ fill rest, value = fill ++ (part ++ rest) ∧ Scattered parts rest

variable {parts : List (List Char)} {value : List Char}

theorem between_cons {part : List Char} (hparts : parts ≠ []) : Between (part :: parts) value ↔
      ∃ fill rest, value = part ++ (fill ++ rest) ∧ Between parts rest := by
  cases parts with
  | nil => exact (hparts rfl).elim
  | cons next parts => rfl

theorem between_modifyHead (hparts : parts ≠ []) {c : Char} : Between (parts.modifyHead (c :: ·)) value ↔
      ∃ rest, value = c :: rest ∧ Between parts rest := by
  match parts with
  | [part] => exact ⟨fun h => ⟨part, h, rfl⟩, fun ⟨_, h, hpart⟩ => h.trans (hpart ▸ rfl)⟩
  | part :: next :: parts =>
    constructor
    · rintro ⟨fill, rest, rfl, h⟩
      exact ⟨_, rfl, fill, rest, rfl, h⟩
    · rintro ⟨_, rfl, fill, rest, rfl, h⟩
      exact ⟨fill, rest, rfl, h⟩

theorem stars_iff_between (pattern value : List Char) :
    Stars pattern value ↔ Between (pattern.splitOn '*') value := by
  rw [List.splitOn_eq_splitOnP]
  induction pattern generalizing value with
  | nil =>
    constructor
    · rintro ⟨⟩
      rfl
    · rintro rfl
      exact .nil
  | cons c pattern ih =>
    have hsplit : pattern.splitOnP (· == '*') ≠ [] := List.splitOnP_ne_nil _ _
    rw [List.splitOnP_cons_eq_if_modifyHead]
    split_ifs with hstar
    · obtain rfl := eq_of_beq hstar
      rw [between_cons hsplit]
      constructor
      · intro h
        cases h with
        | star fill h => exact ⟨fill, _, rfl, (ih _).mp h⟩
        | char hne _ => exact (hne rfl).elim
      · rintro ⟨fill, rest, rfl, h⟩
        exact .star fill ((ih rest).mpr h)
    · rw [between_modifyHead hsplit]
      constructor
      · intro h
        cases h with
        | star fill _ => exact (hstar rfl).elim
        | char _ h => exact ⟨_, rfl, (ih _).mp h⟩
      · rintro ⟨rest, rfl, h⟩
        exact .char (fun heq => hstar (beq_iff_eq.mpr heq)) ((ih rest).mpr h)

theorem Scattered.of_suffix {value longer : List Char}
    (h : Scattered parts value) (hsuffix : value <:+ longer) : Scattered parts longer := by
  cases parts with
  | nil => trivial
  | cons part parts =>
    obtain ⟨before, rfl⟩ := hsuffix
    obtain ⟨fill, rest, rfl, h⟩ := h
    exact ⟨before ++ fill, rest, by rw [List.append_assoc], h⟩

theorem scattered_filter (parts : List (List Char)) (value : List Char) :
    Scattered (parts.filter (· ≠ [])) value ↔ Scattered parts value := by
  induction parts generalizing value with
  | nil => rfl
  | cons part parts ih =>
    by_cases hempty : part = []
    · subst hempty
      rw [List.filter_cons_of_neg (by simp), ih]
      constructor
      · exact fun h => ⟨[], value, rfl, h⟩
      · rintro ⟨fill, rest, rfl, h⟩
        exact h.of_suffix (List.suffix_append fill rest)
    · rw [List.filter_cons_of_pos (by simpa using hempty)]
      simp only [Scattered, ih]

theorem Scattered.getLast_le
    (h : Scattered parts value) (hparts : parts ≠ []) :
    (parts.getLast hparts).length ≤ value.length := by
  induction parts generalizing value with
  | nil => exact (hparts rfl).elim
  | cons part parts ih =>
    obtain ⟨fill, rest, rfl, h⟩ := h
    cases parts with
    | nil =>
      rw [List.getLast_singleton, List.length_append, List.length_append]
      omega
    | cons next parts =>
      have hle := ih h (List.cons_ne_nil next parts)
      rw [List.getLast_cons (List.cons_ne_nil next parts), List.length_append, List.length_append]
      omega

theorem between_iff_scattered (part : List Char) (hparts : parts ≠ [])
    (value : List Char) : Between (part :: parts) value ↔
      ∃ rest, value = part ++ rest ∧ Scattered parts rest ∧ parts.getLast hparts <:+ value := by
  induction parts generalizing part value with
  | nil => exact (hparts rfl).elim
  | cons next parts ih =>
    rw [between_cons hparts]
    cases parts with
    | nil =>
      constructor
      · rintro ⟨fill, rest, rfl, rfl⟩
        refine ⟨fill ++ rest, rfl, ⟨fill, [], by rw [List.append_nil], trivial⟩, ?_⟩
        exact ⟨part ++ fill, List.append_assoc _ _ _⟩
      · rintro ⟨rest, rfl, h, hlast⟩
        obtain ⟨fill, rfl⟩ := List.suffix_of_suffix_length_le hlast
          (List.suffix_append part rest) (h.getLast_le hparts)
        exact ⟨fill, _, rfl, rfl⟩
    | cons following parts =>
      have hrest : following :: parts ≠ [] := List.cons_ne_nil following parts
      rw [List.getLast_cons hrest]
      constructor
      · rintro ⟨fill, rest, rfl, h⟩
        obtain ⟨below, rfl, h, hlast⟩ := (ih next hrest rest).mp h
        refine ⟨_, rfl, ⟨fill, below, rfl, h⟩, hlast.trans ?_⟩
        exact ⟨part ++ fill, List.append_assoc _ _ _⟩
      · rintro ⟨rest, rfl, ⟨fill, below, rfl, h⟩, hlast⟩
        refine ⟨fill, next ++ below, rfl, (ih next hrest _).mpr ⟨below, rfl, h, ?_⟩⟩
        refine List.suffix_of_suffix_length_le hlast ?_ ?_
        · exact ⟨part ++ fill, List.append_assoc _ _ _⟩
        · rw [List.length_append]
          exact (h.getLast_le hrest).trans (Nat.le_add_left _ _)

/-! ## The leftmost search -/

theorem afterFirst_eq_none {part value : List Char} (h : afterFirst part value = none)
    (fill rest : List Char) : value ≠ fill ++ (part ++ rest) := by
  induction value generalizing fill with
  | nil =>
    unfold afterFirst at h
    split_ifs at h with hpart
    intro heq
    simp_all
  | cons c value ih =>
    unfold afterFirst at h
    split_ifs at h with hstarts
    intro heq
    cases fill with
    | nil => exact hstarts (List.isPrefixOf_iff_prefix.mpr ⟨rest, heq.symm⟩)
    | cons d fill => exact ih h fill (List.cons.inj heq).2

theorem afterFirst_eq_some {part value rest : List Char} (h : afterFirst part value = some rest) :
    (∃ fill, value = fill ++ (part ++ rest)) ∧
      ∀ fill after, value = fill ++ (part ++ after) → after <:+ rest := by
  induction value with
  | nil =>
    unfold afterFirst at h
    split_ifs at h with hpart
    cases h
    subst hpart
    refine ⟨⟨[], rfl⟩, fun fill after heq => ?_⟩
    simp_all
  | cons c value ih =>
    unfold afterFirst at h
    split_ifs at h with hstarts
    · obtain ⟨found, hfound⟩ := List.isPrefixOf_iff_prefix.mp hstarts
      rw [← hfound, List.drop_left] at h
      cases h
      refine ⟨⟨[], hfound.symm⟩, fun fill after heq => ?_⟩
      rw [← hfound] at heq
      have hlength := congrArg List.length heq
      simp only [List.length_append] at hlength
      have hwhole : after <:+ part ++ rest := ⟨fill ++ part, by rw [heq, List.append_assoc]⟩
      exact List.suffix_of_suffix_length_le hwhole (List.suffix_append part rest) (by omega)
    · obtain ⟨⟨fill, hfill⟩, hall⟩ := ih h
      refine ⟨⟨c :: fill, by rw [hfill]; rfl⟩, fun fill after heq => ?_⟩
      cases fill with
      | nil => exact (hstarts (List.isPrefixOf_iff_prefix.mpr ⟨after, heq.symm⟩)).elim
      | cons d fill => exact hall fill after (List.cons.inj heq).2

theorem matchParts_eq_true :
    matchParts value parts = true ↔ Scattered parts value := by
  induction parts generalizing value with
  | nil => exact iff_of_true rfl trivial
  | cons part parts ih =>
    unfold matchParts
    cases hfind : afterFirst part value with
    | none =>
      refine iff_of_false nofun ?_
      rintro ⟨fill, rest, heq, -⟩
      exact afterFirst_eq_none hfind fill rest heq
    | some rest =>
      obtain ⟨⟨fill, hfill⟩, hall⟩ := afterFirst_eq_some hfind
      rw [ih]
      constructor
      · exact fun h => ⟨fill, rest, hfill, h⟩
      · rintro ⟨fill', rest', heq, h⟩
        exact h.of_suffix (hall fill' rest' heq)

theorem startsWith_star (pattern : String) :
    startsWith "*" pattern = true ↔ pattern.toList.head? = some '*' := by
  rw [startsWith]
  cases pattern.toList with
  | nil => decide
  | cons c rest =>
    change (('*' == c) && true) = true ↔ some c = some '*'
    rw [Bool.and_true, beq_iff_eq, Option.some.injEq, eq_comm]

theorem splitOn_star {pattern : List Char} (hstar : '*' ∈ pattern) :
    ∃ part parts, pattern.splitOn '*' = part :: parts ∧ parts ≠ [] ∧
      (part = [] ↔ pattern.head? = some '*') := by
  rw [List.splitOn_eq_splitOnP]
  induction pattern with
  | nil => cases hstar
  | cons c pattern ih =>
    have hne : pattern.splitOnP (· == '*') ≠ [] := List.splitOnP_ne_nil _ _
    rw [List.splitOnP_cons_eq_if_modifyHead]
    split_ifs with hc
    · obtain rfl := eq_of_beq hc
      exact ⟨[], _, rfl, hne, iff_of_true rfl rfl⟩
    · have hmem : '*' ∈ pattern := by
        rcases List.mem_cons.mp hstar with rfl | hmem
        · exact (hc rfl).elim
        · exact hmem
      obtain ⟨part, parts, hsplit, hparts, -⟩ := ih hmem
      rw [hsplit]
      refine ⟨c :: part, parts, rfl, hparts, iff_of_false (List.cons_ne_nil c part) ?_⟩
      exact fun heq => hc (beq_iff_eq.mpr (Option.some.inj heq))

theorem middle_eq_true {pattern : String} (value : String) {part : List Char}
    (parts : List (List Char)) (hfirst : part = [] ↔ pattern.toList.head? = some '*') :
    (match (part :: parts).filter fun part => part ≠ [] with
      | [] => true
      | first :: rest =>
        if startsWith "*" pattern then
          matchParts value.toList ((part :: parts).filter fun part => part ≠ [])
        else
          first.isPrefixOf value.toList && matchParts (value.toList.drop first.length) rest) = true
      ↔ ∃ rest, value.toList = part ++ rest ∧ Scattered parts rest := by
  by_cases hpart : part = []
  · have hstarts : startsWith "*" pattern = true := (startsWith_star pattern).mpr (hfirst.mp hpart)
    subst hpart
    have hrest : (∃ rest, value.toList = [] ++ rest ∧ Scattered parts rest) ↔
        Scattered (parts.filter fun part => part ≠ []) value.toList := by
      rw [scattered_filter]
      exact ⟨fun ⟨_, heq, h⟩ => heq ▸ h, fun h => ⟨_, rfl, h⟩⟩
    rw [hrest, List.filter_cons_of_neg (by simp)]
    cases parts.filter fun part => part ≠ [] with
    | nil => exact iff_of_true rfl trivial
    | cons first rest =>
      simp only [hstarts, if_true]
      exact matchParts_eq_true
  · have hstarts : startsWith "*" pattern = false := Bool.eq_false_iff.mpr fun h =>
      hpart (hfirst.mpr ((startsWith_star pattern).mp h))
    rw [List.filter_cons_of_pos (by simpa using hpart)]
    simp only [hstarts, Bool.false_eq_true, if_false]
    rw [Bool.and_eq_true, matchParts_eq_true, scattered_filter, List.isPrefixOf_iff_prefix]
    constructor
    · rintro ⟨⟨rest, heq⟩, h⟩
      rw [← heq, List.drop_left] at h
      exact ⟨rest, heq.symm, h⟩
    · rintro ⟨rest, heq, h⟩
      rw [heq, List.drop_left]
      exact ⟨⟨rest, rfl⟩, h⟩

theorem wildcardMatch_eq_true {pattern value : String} (hstar : '*' ∈ pattern.toList) :
    wildcardMatch pattern value = true ↔ Stars pattern.toList value.toList := by
  obtain ⟨part, parts, hsplit, hparts, hfirst⟩ := splitOn_star hstar
  have hlast : (part :: parts).getLast?.getD [] = parts.getLast hparts := by
    rw [List.getLast?_eq_some_getLast (List.cons_ne_nil part parts), List.getLast_cons hparts]
    rfl
  rw [stars_iff_between, hsplit, between_iff_scattered part hparts]
  unfold wildcardMatch
  simp only [hsplit, hlast, Bool.and_eq_true, List.isSuffixOf_iff_suffix]
  have hmiddle := middle_eq_true value parts hfirst
  constructor
  · rintro ⟨h, hend⟩
    obtain ⟨rest, heq, hscattered⟩ := hmiddle.mp h
    exact ⟨rest, heq, hscattered, hend⟩
  · rintro ⟨rest, heq, hscattered, hend⟩
    exact ⟨hmiddle.mpr ⟨rest, heq, hscattered⟩, hend⟩

/-! ## Slices -/

def sliceFrom : List Char → Nat → Option (List Char)
  | text, 0 => some text
  | [], _ + 1 => none
  | c :: text, offset =>
    if c.utf8Size ≤ offset then sliceFrom text (offset - c.utf8Size) else none

def utf8Length (text : List Char) : Nat := (text.map Char.utf8Size).sum

def findText (part : List Char) : List Char → Option Nat
  | [] => if part = [] then some 0 else none
  | c :: value =>
    if part.isPrefixOf (c :: value) then some 0
    else (findText part value).map (c.utf8Size + ·)

def wildcardLoop (starred first : Bool) (remainder : List Char) : List (List Char) → Option Bool
  | [] => some true
  | part :: parts =>
    if first && !starred then
      if !part.isPrefixOf remainder then some false
      else
        (sliceFrom remainder (utf8Length part)).bind fun remainder =>
          wildcardLoop starred false remainder parts
    else
      match findText part remainder with
      | some pos =>
        (sliceFrom remainder (pos + utf8Length part)).bind fun remainder =>
          wildcardLoop starred false remainder parts
      | none => some false

def wildcardSlices (pattern value : String) : Option Bool :=
  let split := pattern.toList.splitOn '*'
  (wildcardLoop (startsWith "*" pattern) true value.toList (split.filter fun part => part ≠ [])).map
    fun found =>
      if !found then false
      else if pattern.toList.getLast? = some '*' then true
      else (split.getLast?.map fun tail => tail = [] || tail.isSuffixOf value.toList).getD false

theorem sliceFrom_cons (c : Char) (text : List Char) (offset : Nat) :
    sliceFrom (c :: text) (c.utf8Size + offset) = sliceFrom text offset := by
  have hpos := c.utf8Size_pos
  obtain ⟨n, hn⟩ := Nat.exists_eq_succ_of_ne_zero (show c.utf8Size + offset ≠ 0 by omega)
  rw [hn, sliceFrom, ← hn, if_pos (Nat.le_add_right _ _), Nat.add_sub_cancel_left]
  exact fun h => by cases h

theorem sliceFrom_append (text rest : List Char) :
    sliceFrom (text ++ rest) (utf8Length text) = some rest := by
  induction text with
  | nil => cases rest <;> rfl
  | cons c text ih => exact (sliceFrom_cons c _ _).trans ih

theorem findText_spec (part value : List Char) :
    match findText part value with
    | some pos => ∃ rest, sliceFrom value (pos + utf8Length part) = some rest ∧
      afterFirst part value = some rest
    | none => afterFirst part value = none := by
  induction value with
  | nil =>
    unfold findText afterFirst
    by_cases hpart : part = []
    · subst hpart
      exact ⟨[], rfl, rfl⟩
    · simp only [hpart, if_false]
  | cons c value ih =>
    unfold findText afterFirst
    by_cases hstarts : part.isPrefixOf (c :: value) = true
    · simp only [hstarts, if_true, Nat.zero_add]
      obtain ⟨rest, hrest⟩ := List.isPrefixOf_iff_prefix.mp hstarts
      refine ⟨rest, ?_, ?_⟩
      · rw [← hrest, sliceFrom_append]
      · rw [← hrest, List.drop_left]
    · simp only [hstarts, Bool.false_eq_true, if_false]
      cases hfind : findText part value with
      | none =>
        rw [hfind] at ih
        exact ih
      | some pos =>
        rw [hfind] at ih
        obtain ⟨rest, hslice, hafter⟩ := ih
        refine ⟨rest, ?_, hafter⟩
        show sliceFrom (c :: value) (c.utf8Size + pos + utf8Length part) = some rest
        rw [Nat.add_assoc, sliceFrom_cons, hslice]

theorem wildcardLoop_false (starred : Bool) (parts : List (List Char)) (remainder : List Char) :
    wildcardLoop starred false remainder parts = some (matchParts remainder parts) := by
  induction parts generalizing remainder with
  | nil => rfl
  | cons part parts ih =>
    have hfind := findText_spec part remainder
    unfold wildcardLoop matchParts
    simp only [Bool.false_and, Bool.false_eq_true, if_false]
    cases hpos : findText part remainder with
    | none =>
      rw [hpos] at hfind
      simp only [hfind]
    | some pos =>
      rw [hpos] at hfind
      obtain ⟨rest, hslice, hafter⟩ := hfind
      simp only [hslice, hafter, Option.bind_some, ih]

theorem wildcardLoop_true (starred : Bool) (parts : List (List Char)) (remainder : List Char) :
    wildcardLoop starred true remainder parts = some (match parts with
      | [] => true
      | first :: rest =>
        if starred then matchParts remainder parts
        else first.isPrefixOf remainder && matchParts (remainder.drop first.length) rest) := by
  cases parts with
  | nil => rfl
  | cons part parts =>
    cases starred with
    | true =>
      have hsearch := wildcardLoop_false true (part :: parts) remainder
      simp only [if_true, ← hsearch]
      rfl
    | false =>
      unfold wildcardLoop
      by_cases hstarts : part.isPrefixOf remainder = true
      · obtain ⟨rest, rfl⟩ := List.isPrefixOf_iff_prefix.mp hstarts
        simp only [hstarts, sliceFrom_append, Option.bind_some, wildcardLoop_false,
          List.drop_left, Bool.true_and]
        rfl
      · rw [Bool.not_eq_true] at hstarts
        simp only [hstarts, Bool.false_and]
        rfl

theorem splitOn_getLast_star {pattern : List Char} (h : pattern.getLast? = some '*') :
    (pattern.splitOn '*').getLast? = some [] := by
  obtain ⟨init, rfl⟩ := List.getLast?_eq_some_iff.mp h
  rw [List.splitOn_eq_splitOnP, List.splitOnP_append_cons init [] (by rfl), List.splitOnP_nil,
    List.getLast?_append]
  rfl

theorem wildcardSlices_eq (pattern value : String) :
    wildcardSlices pattern value = some (wildcardMatch pattern value) := by
  have hend : (if pattern.toList.getLast? = some '*' then true
      else ((pattern.toList.splitOn '*').getLast?.map fun tail =>
        tail = [] || tail.isSuffixOf value.toList).getD false) =
      ((pattern.toList.splitOn '*').getLast?.getD []).isSuffixOf value.toList := by
    have hempty : ([] : List Char).isSuffixOf value.toList = true :=
      List.isSuffixOf_iff_suffix.mpr (List.nil_suffix)
    split_ifs with hlast
    · rw [splitOn_getLast_star hlast]
      exact hempty.symm
    · rw [List.getLast?_eq_some_getLast (List.splitOn_ne_nil '*' pattern.toList)]
      generalize (pattern.toList.splitOn '*').getLast _ = tail
      by_cases hnil : tail = []
      · subst hnil
        exact hempty.symm
      · simp [hnil]
  have hand (found atEnd : Bool) : (if !found then false else atEnd) = (found && atEnd) := by
    cases found <;> rfl
  unfold wildcardSlices
  simp only [wildcardLoop_true, Option.map_some, hend, hand]
  rfl

/-! ## Globs -/

/-- A value that comes of a glob when each star is replaced by bytes without a slash and each
question mark by one such byte. -/
inductive Globs : Bytes → Bytes → Prop
  | nil : Globs [] []
  | star {pattern value : Bytes} (fill : Bytes) : 0x2f ∉ fill → Globs pattern value →
    Globs (0x2a :: pattern) (fill ++ value)
  | any {pattern value : Bytes} {byte : UInt8} : byte ≠ 0x2f → Globs pattern value →
    Globs (0x3f :: pattern) (byte :: value)
  | byte {pattern value : Bytes} {byte : UInt8} : byte ≠ 0x2a → byte ≠ 0x3f →
    Globs pattern value → Globs (byte :: pattern) (byte :: value)

def globMatches : Bytes → Bytes → Option Bool
  | [], value => some value.isEmpty
  | byte :: rest, value =>
    if byte = 0x2a then
      (globMatches rest value).bind fun found =>
        if found then some true
        else if value.isEmpty then some false
        else
          value.head?.bind fun first =>
            if first = 0x2f then some false
            else
              match _h : value.tail? with
              | none => none
              | some below => globMatches (byte :: rest) below
    else if byte = 0x3f then
      if value.isEmpty then some false
      else
        value.head?.bind fun first =>
          if first = 0x2f then some false
          else value.tail?.bind fun below => globMatches rest below
    else
      if value.isEmpty then some false
      else
        value.head?.bind fun first =>
          if byte ≠ first then some false
          else value.tail?.bind fun below => globMatches rest below
termination_by pattern value => (pattern.length, value.length)
decreasing_by
  · exact .left _ _ (Nat.lt_succ_self _)
  · cases value with
    | nil => cases _h
    | cons first value =>
      cases _h
      exact .right _ (Nat.lt_succ_self _)
  · exact .left _ _ (Nat.lt_succ_self _)
  · exact .left _ _ (Nat.lt_succ_self _)

def copyGlobMatches (pattern value : String) : Option Bool :=
  globMatches (utf8 pattern) (utf8 value)

variable {rest value : Bytes}

theorem globs_star_iff : Globs (0x2a :: rest) value ↔
    ∃ fill below, value = fill ++ below ∧ 0x2f ∉ fill ∧ Globs rest below := by
  constructor
  · intro h
    cases h with
    | star fill hfill h => exact ⟨fill, _, rfl, hfill, h⟩
    | byte hstar _ _ => exact (hstar rfl).elim
  · rintro ⟨fill, below, rfl, hfill, h⟩
    exact .star fill hfill h

theorem globs_star_cons {first : UInt8} :
    Globs (0x2a :: rest) (first :: value) ↔
      Globs rest (first :: value) ∨ first ≠ 0x2f ∧ Globs (0x2a :: rest) value := by
  rw [globs_star_iff, globs_star_iff]
  constructor
  · rintro ⟨fill, below, heq, hfill, h⟩
    cases fill with
    | nil => exact .inl (heq ▸ h)
    | cons b fill =>
      obtain ⟨rfl, rfl⟩ := List.cons.inj heq
      exact .inr ⟨fun hb => hfill (hb ▸ List.mem_cons_self), fill, below, rfl,
        fun hmem => hfill (List.mem_cons_of_mem _ hmem), h⟩
  · rintro (h | ⟨hfirst, fill, below, rfl, hfill, h⟩)
    · exact ⟨[], _, rfl, List.not_mem_nil, h⟩
    · refine ⟨first :: fill, below, rfl, fun hmem => ?_, h⟩
      rcases List.mem_cons.mp hmem with heq | hmem
      · exact hfirst heq.symm
      · exact hfill hmem

theorem globs_star_nil {rest : Bytes} : Globs (0x2a :: rest) [] ↔ Globs rest [] := by
  rw [globs_star_iff]
  constructor
  · rintro ⟨fill, below, heq, -, h⟩
    obtain ⟨rfl, rfl⟩ := List.append_eq_nil_iff.mp heq.symm
    exact h
  · exact fun h => ⟨[], [], rfl, List.not_mem_nil, h⟩

theorem globs_any_cons {first : UInt8} :
    Globs (0x3f :: rest) (first :: value) ↔ first ≠ 0x2f ∧ Globs rest value := by
  constructor
  · intro h
    cases h with
    | any hfirst h => exact ⟨hfirst, h⟩
    | byte _ hany _ => exact (hany rfl).elim
  · exact fun ⟨hfirst, h⟩ => .any hfirst h

theorem globs_byte_cons {byte first : UInt8} (hstar : byte ≠ 0x2a)
    (hany : byte ≠ 0x3f) :
    Globs (byte :: rest) (first :: value) ↔ byte = first ∧ Globs rest value := by
  constructor
  · intro h
    generalize hvalue : first :: value = whole at h
    cases h with
    | star fill _ _ => exact (hstar rfl).elim
    | any _ _ => exact (hany rfl).elim
    | byte _ _ h =>
      cases hvalue
      exact ⟨rfl, h⟩
  · rintro ⟨rfl, h⟩
    exact .byte hstar hany h

theorem not_globs_nil {rest : Bytes} {byte : UInt8} (hstar : byte ≠ 0x2a) :
    ¬Globs (byte :: rest) [] := by
  intro h
  generalize hvalue : ([] : Bytes) = value at h
  cases h with
  | star fill _ _ => exact hstar rfl
  | any _ _ => cases hvalue
  | byte _ _ _ => cases hvalue

theorem globMatches_exact (pattern value : Bytes) :
    ∃ found, globMatches pattern value = some found ∧ (found = true ↔ Globs pattern value) := by
  induction pattern generalizing value with
  | nil =>
    refine ⟨value.isEmpty, by rw [globMatches], List.isEmpty_iff.trans ⟨?_, ?_⟩⟩
    · rintro rfl
      exact .nil
    · rintro ⟨⟩
      rfl
  | cons byte rest ih =>
    by_cases hstar : byte = 0x2a
    · subst hstar
      induction value with
      | nil =>
        obtain ⟨found, hfound, hiff⟩ := ih []
        refine ⟨found, ?_, hiff.trans globs_star_nil.symm⟩
        rw [globMatches, if_pos rfl, hfound]
        cases found <;> rfl
      | cons first value ihValue =>
        obtain ⟨found, hfound, hiff⟩ := ih (first :: value)
        obtain ⟨below, hbelow, hiffBelow⟩ := ihValue
        rw [globs_star_cons, ← hiff, ← hiffBelow]
        rw [globMatches, if_pos rfl, hfound]
        cases found with
        | true => exact ⟨true, rfl, iff_of_true rfl (.inl rfl)⟩
        | false =>
          by_cases hfirst : first = 0x2f
          · refine ⟨false, by simp [hfirst], ?_⟩
            simp [hfirst]
          · refine ⟨below, by simp [hfirst, hbelow], ?_⟩
            simp [hfirst]
    · cases value with
      | nil =>
        refine ⟨false, ?_, iff_of_false nofun (not_globs_nil hstar)⟩
        rw [globMatches, if_neg hstar]
        simp
      | cons first value =>
        obtain ⟨found, hfound, hiff⟩ := ih value
        rw [globMatches, if_neg hstar]
        by_cases hany : byte = 0x3f
        · subst hany
          rw [globs_any_cons, ← hiff]
          by_cases hfirst : first = 0x2f
          · exact ⟨false, by simp [hfirst], by simp [hfirst]⟩
          · exact ⟨found, by simp [hfirst, hfound], by simp [hfirst]⟩
        · rw [globs_byte_cons hstar hany, ← hiff]
          by_cases hfirst : byte = first
          · subst hfirst
            exact ⟨found, by simp [hany, hfound], by simp⟩
          · exact ⟨false, by simp [hany, hfirst], by simp [hfirst]⟩

/-- Both matchers are exact, and no slice of either panics: a star of `.dockerignore` stands for any
text; in a glob a star stands for bytes without a slash and a question mark for one of them. -/
theorem matchers_exact (pattern value : String) :
    (∃ found, wildcardSlices pattern value = some found ∧
      ('*' ∈ pattern.toList → (found = true ↔ Stars pattern.toList value.toList))) ∧
    ∃ found, copyGlobMatches pattern value = some found ∧
      (found = true ↔ Globs (utf8 pattern) (utf8 value)) :=
  ⟨⟨_, wildcardSlices_eq pattern value, wildcardMatch_eq_true⟩,
    globMatches_exact (utf8 pattern) (utf8 value)⟩

/-- The leftmost `ab` overlaps the end, and no later one is there. -/
theorem overlapping_parts : ¬Stars "*ab*ba".toList "xaba".toList := by
  obtain ⟨found, hfound, hiff⟩ := (matchers_exact "*ab*ba" "xaba").1
  have hfalse : wildcardSlices "*ab*ba" "xaba" = some false := by decide +kernel
  rw [← hiff (by decide +kernel), Option.some.inj (hfound.symm.trans hfalse)]
  exact Bool.false_ne_true

end Ferrocrate.Dockerfile
