import Ferrocrate.Image.Reference

/-! The bearer challenge of a registry (`registry.rs`): how the parameters of the header are
read. -/
namespace Ferrocrate.Image
open Lib
open Dockerfile (sliceFrom utf8Length sliceFrom_append)

structure BearerChallenge where
  realm : List Char
  service : Option (List Char)
  scope : Option (List Char)
deriving DecidableEq

structure ChallengeParams where
  realm : Option (List Char)
  service : Option (List Char)
  scope : Option (List Char)

def trimQuotes (text : List Char) : List Char :=
  (text.dropWhile (· = '"')).rdropWhile (· = '"')

/-- What stands before the first equals sign of a parameter and what stands behind it. -/
def parseParam (param : List Char) : Option (List Char × List Char) :=
  match param.dropWhile (· ≠ '=') with
  | [] => none
  | _ :: value =>
    some (trimChars (param.takeWhile (· ≠ '=')), trimQuotes (trimChars value))

def ChallengeParams.set (found : ChallengeParams) (param : List Char × List Char) :
    ChallengeParams :=
  if param.1 = "realm".toList then { found with realm := some param.2 }
  else if param.1 = "service".toList then { found with service := some param.2 }
  else if param.1 = "scope".toList then { found with scope := some param.2 }
  else found

def ChallengeParams.read (found : ChallengeParams) (param : List Char) : Option ChallengeParams :=
  (parseParam param).map found.set

def readParams (params : List Char) : Option BearerChallenge := do
  let found ← ((params.splitOn ',').map trimChars).foldlM ChallengeParams.read ⟨none, none, none⟩
  let realm ← found.realm
  pure ⟨realm, found.service, found.scope⟩

/-- `parse_bearer_challenge`: the outer `none` is a slice that panics. -/
def parseBearerChallenge (header : List Char) : Option (Option BearerChallenge) :=
  let trimmed := trimChars header
  if !"bearer ".toList.isPrefixOf (trimmed.map Char.toLower) then some none
  else (sliceFrom trimmed 7).map readParams

/-! ## Lookups -/

section Lookup
variable {α β : Type} [DecidableEq α] {key : α} {value : β} {entries entries' : List (α × β)}

def lastFor (key : α) (entries : List (α × β)) : Option β :=
  (entries.reverse.find? (·.1 = key)).map (·.2)

theorem lastFor_append :
    lastFor key (entries ++ entries') = (lastFor key entries').or (lastFor key entries) := by
  rw [lastFor, List.reverse_append, List.find?_append, lastFor, lastFor]
  cases entries'.reverse.find? (·.1 = key) with
  | none => rfl
  | some entry => rfl

theorem lastFor_cons (entry : α × β) (entries : List (α × β)) :
    lastFor key (entry :: entries) = (lastFor key entries).or (lastFor key [entry]) :=
  (lastFor_append : lastFor key ([entry] ++ entries) = _)

theorem lastFor_eq_none : lastFor key entries = none ↔ ∀ entry ∈ entries, entry.1 ≠ key := by
  simp [lastFor]

theorem lastFor_singleton (key' : α) :
    lastFor key [(key', value)] = if key' = key then some value else none := by
  by_cases h : key' = key
  · simp [lastFor, h]
  · simp [lastFor, h]

theorem mem_of_lastFor (h : lastFor key entries = some value) : (key, value) ∈ entries := by
  obtain ⟨entry, hfind, rfl⟩ := Option.map_eq_some_iff.mp h
  have hkey : entry.1 = key := by simpa using List.find?_some hfind
  rw [← hkey]
  exact List.mem_reverse.mp (List.mem_of_find?_eq_some hfind)

theorem exists_split_of_lastFor (h : lastFor key entries = some value) :
    ∃ before behind, entries = before ++ (key, value) :: behind ∧
      ∀ entry ∈ behind, entry.1 ≠ key := by
  obtain ⟨⟨key', value'⟩, hfind, rfl⟩ := Option.map_eq_some_iff.mp h
  obtain ⟨hkey, behind, before, heq, hnone⟩ := List.find?_eq_some_iff_append.mp hfind
  obtain rfl : key' = key := by simpa using hkey
  refine ⟨before.reverse, behind.reverse, ?_, fun entry hentry => ?_⟩
  · rw [← List.reverse_reverse entries, heq]
    simp
  · simpa using hnone entry (List.mem_reverse.mp hentry)

end Lookup

/-! ## The slice behind the word -/

theorem utf8Size_toLower (c : Char) : c.toLower.utf8Size = c.utf8Size := by
  unfold Char.toLower
  split_ifs with hupper
  · have hbounds := hupper
    simp only [ge_iff_le, UInt32.le_iff_toNat_le] at hbounds
    have hshift : ('a'.val - 'A'.val).toNat = 32 := by decide
    have hlow : 'A'.val.toNat = 65 := by decide
    have hhigh : 'Z'.val.toNat = 90 := by decide
    have hmax : (127 : UInt32).toNat = 127 := rfl
    have hone : c.utf8Size = 1 := by
      rw [Char.utf8Size_eq_one_iff, UInt32.le_iff_toNat_le]
      omega
    rw [hone, Char.utf8Size_eq_one_iff, UInt32.le_iff_toNat_le, UInt32.toNat_add]
    omega
  · rfl

theorem utf8Length_toLower (text : List Char) :
    utf8Length (text.map Char.toLower) = utf8Length text := by
  rw [utf8Length, List.map_map]
  exact congrArg List.sum (List.map_congr_left fun c _ => utf8Size_toLower c)

theorem parseBearerChallenge_isSome (header : List Char) :
    (parseBearerChallenge header).isSome = true := by
  rw [parseBearerChallenge]
  split_ifs with hbearer
  · rfl
  · rw [Bool.not_eq_true', Bool.not_eq_false] at hbearer
    obtain ⟨rest, hrest⟩ := List.isPrefixOf_iff_prefix.mp hbearer
    obtain ⟨word, params, htrim, hword, -⟩ := List.map_eq_append_iff.mp hrest.symm
    have hlength : utf8Length word = 7 := by
      rw [← utf8Length_toLower, hword]
      decide
    rw [htrim, ← hlength, sliceFrom_append]
    rfl

/-! ## Trimming a part -/

section TrimParts
variable {blank text name : List Char}

theorem trimChars_append_left (h : ∀ c ∈ blank, isWhitespace c = true) :
    trimChars (blank ++ text) = trimChars text := by
  rw [trimChars_eq, List.dropWhile_append_of_pos h, trimChars_eq]

theorem rdropWhile_append_blank {p : Char → Bool} (h : ∀ c ∈ blank, p c = true) :
    (text ++ blank).rdropWhile p = text.rdropWhile p := by
  rw [List.rdropWhile, List.reverse_append,
    List.dropWhile_append_of_pos fun c hc => h c (List.mem_reverse.mp hc), List.rdropWhile]

theorem trimChars_append_right (h : ∀ c ∈ blank, isWhitespace c = true) :
    trimChars (text ++ blank) = trimChars text := by
  rw [trimChars_eq, trimChars_eq, List.dropWhile_append]
  split_ifs with hempty
  · rw [List.isEmpty_iff] at hempty
    rw [hempty, List.rdropWhile_nil, List.rdropWhile_eq_nil_iff]
    exact fun c hc => h c ((List.dropWhile_sublist _).subset hc)
  · exact rdropWhile_append_blank h

theorem trimChars_of_ne (h : ∀ c ∈ name, isWhitespace c = false) : trimChars name = name :=
  trimChars_eq_self (fun c hc => h c (List.mem_of_mem_head? hc))
    (fun c hc => h c (List.mem_of_getLast? hc))

theorem exists_blanks (text : List Char) :
    ∃ before behind, text = before ++ trimChars text ++ behind ∧
      (∀ c ∈ before, isWhitespace c = true) ∧ ∀ c ∈ behind, isWhitespace c = true := by
  refine ⟨text.takeWhile isWhitespace, (text.dropWhile isWhitespace).rtakeWhile isWhitespace, ?_,
    fun c hc => List.mem_takeWhile_imp hc, fun c hc => List.mem_rtakeWhile_imp hc⟩
  rw [trimChars_eq, List.append_assoc, List.rdropWhile_append_rtakeWhile,
    List.takeWhile_append_dropWhile]

theorem mem_of_mem_trimChars {c : Char} (h : c ∈ trimChars text) : c ∈ text := by
  obtain ⟨before, behind, heq, -⟩ := exists_blanks text
  rw [heq]
  exact List.mem_append_left _ (List.mem_append_right _ h)

end TrimParts

/-! ## Reading parameters -/

theorem parseParam_split {name value : List Char} (h : '=' ∉ name) :
    parseParam (name ++ '=' :: value) = some (trimChars name, trimQuotes (trimChars value)) := by
  have hne : ∀ c ∈ name, decide (c ≠ '=') = true := fun c hc =>
    decide_eq_true (ne_of_mem_of_not_mem hc h)
  have hdrop : (name ++ '=' :: value).dropWhile (· ≠ '=') = '=' :: value := by
    rw [List.dropWhile_append_of_pos hne]
    rfl
  have htake : (name ++ '=' :: value).takeWhile (· ≠ '=') = name := by
    rw [List.takeWhile_append_of_pos hne]
    simp
  rw [parseParam, hdrop, htake]

theorem parseParam_eq_none {param : List Char} (h : '=' ∉ param) : parseParam param = none := by
  have hdrop : param.dropWhile (· ≠ '=') = [] :=
    List.dropWhile_eq_nil_iff.mpr fun c hc => decide_eq_true (ne_of_mem_of_not_mem hc h)
  rw [parseParam, hdrop]

theorem parseParam_trimChars (param : List Char) :
    parseParam (trimChars param) = parseParam param := by
  obtain ⟨before, behind, heq, hbefore, hbehind⟩ := exists_blanks param
  have hblank : ∀ blank : List Char, (∀ c ∈ blank, isWhitespace c = true) → '=' ∉ blank :=
    fun blank h hmem => absurd (h _ hmem) (by decide)
  by_cases hequals : '=' ∈ trimChars param
  · obtain ⟨name, value, hsplit, hname⟩ := List.eq_append_cons_of_mem hequals
    have hparam : param = (before ++ name) ++ '=' :: (value ++ behind) := by
      rw [heq, hsplit]
      simp
    have hnot : '=' ∉ before ++ name := by
      rw [List.mem_append, not_or]
      exact ⟨hblank before hbefore, hname⟩
    conv_rhs => rw [hparam]
    rw [hsplit, parseParam_split hname, parseParam_split hnot, trimChars_append_left hbefore,
      trimChars_append_right hbehind]
  · have hnot : '=' ∉ param := by
      rw [heq, List.mem_append, List.mem_append, not_or, not_or]
      exact ⟨⟨hblank before hbefore, hequals⟩, hblank behind hbehind⟩
    rw [parseParam_eq_none hequals, parseParam_eq_none hnot]

theorem ChallengeParams.set_eq (found : ChallengeParams) (entry : List Char × List Char) :
    found.set entry =
      ⟨(lastFor "realm".toList [entry]).or found.realm,
        (lastFor "service".toList [entry]).or found.service,
        (lastFor "scope".toList [entry]).or found.scope⟩ := by
  obtain ⟨key, value⟩ := entry
  simp only [lastFor_singleton, ChallengeParams.set]
  by_cases hrealm : key = "realm".toList
  · subst hrealm
    rfl
  by_cases hservice : key = "service".toList
  · subst hservice
    rfl
  by_cases hscope : key = "scope".toList
  · subst hscope
    rfl
  simp only [if_neg hrealm, if_neg hservice, if_neg hscope, Option.none_or]

theorem foldl_set (entries : List (List Char × List Char)) (found : ChallengeParams) :
    entries.foldl ChallengeParams.set found =
      ⟨(lastFor "realm".toList entries).or found.realm,
        (lastFor "service".toList entries).or found.service,
        (lastFor "scope".toList entries).or found.scope⟩ := by
  induction entries generalizing found with
  | nil => rfl
  | cons entry entries ih =>
    rw [List.foldl_cons, ih, ChallengeParams.set_eq, lastFor_cons entry entries,
      lastFor_cons entry entries, lastFor_cons entry entries, Option.or_assoc, Option.or_assoc,
      Option.or_assoc]

theorem foldlM_read (params : List (List Char)) (found : ChallengeParams) :
    (params.map trimChars).foldlM ChallengeParams.read found =
      (params.mapM parseParam).map fun entries => entries.foldl ChallengeParams.set found := by
  induction params generalizing found with
  | nil => rfl
  | cons param params ih =>
    rw [List.map_cons, List.foldlM_cons, List.mapM_cons, ChallengeParams.read,
      parseParam_trimChars]
    cases parseParam param with
    | none => rfl
    | some entry =>
      change (params.map trimChars).foldlM ChallengeParams.read (found.set entry) = _
      rw [ih]
      cases params.mapM parseParam with
      | none => rfl
      | some entries => rfl

theorem readParams_eq (params : List Char) :
    readParams params =
      ((params.splitOn ',').mapM parseParam).bind fun entries =>
        (lastFor "realm".toList entries).map fun realm =>
          ⟨realm, lastFor "service".toList entries, lastFor "scope".toList entries⟩ := by
  rw [readParams, foldlM_read]
  cases (params.splitOn ',').mapM parseParam with
  | none => rfl
  | some entries =>
    simp only [Option.map_some, Option.bind_eq_bind, Option.bind_some, foldl_set, Option.or_none]
    cases lastFor "realm".toList entries with
    | none => rfl
    | some realm => rfl

/-! ## Commas in values -/

section Pieces
variable {separator : Char} {before text behind last : List Char} {init : List (List Char)}

theorem splitOn_append_left (h : separator ∉ before) (text : List Char) :
    (before ++ text).splitOn separator = (text.splitOn separator).modifyHead (before ++ ·) := by
  induction before with
  | nil =>
    rw [List.nil_append]
    cases text.splitOn separator <;> rfl
  | cons c before ih =>
    rw [List.mem_cons, not_or] at h
    rw [List.cons_append, List.splitOn_cons_eq_if_modifyHead,
      if_neg (by simpa using Ne.symm h.1), ih h.2, List.modifyHead_modifyHead]
    rfl

theorem splitOn_append_right (h : separator ∉ behind)
    (hsplit : text.splitOn separator = init ++ [last]) :
    (text ++ behind).splitOn separator = init ++ [last ++ behind] := by
  induction text generalizing init last with
  | nil =>
    rw [List.splitOn_nil] at hsplit
    obtain ⟨rfl, hlast⟩ := List.append_inj' (show [] ++ [[]] = init ++ [last] from hsplit) rfl
    obtain rfl := List.singleton_inj.mp hlast
    rw [List.nil_append, List.splitOn_eq_singleton h]
    rfl
  | cons c text ih =>
    rw [List.splitOn_cons_eq_if_modifyHead] at hsplit
    rw [List.cons_append, List.splitOn_cons_eq_if_modifyHead]
    have hpieces := (List.dropLast_concat_getLast (List.splitOn_ne_nil separator text)).symm
    generalize (text.splitOn separator).dropLast = pieces at hpieces
    generalize (text.splitOn separator).getLast _ = final at hpieces
    rw [hpieces] at hsplit
    rw [ih hpieces]
    split_ifs at hsplit ⊢
    · rw [← List.cons_append] at hsplit
      obtain ⟨rfl, hlast⟩ := List.append_inj' hsplit rfl
      obtain rfl := List.singleton_inj.mp hlast
      rfl
    · cases pieces with
      | nil =>
        obtain ⟨rfl, hlast⟩ :=
          List.append_inj' (show [] ++ [c :: final] = init ++ [last] from hsplit) rfl
        obtain rfl := List.singleton_inj.mp hlast
        rfl
      | cons piece pieces =>
        rw [List.cons_append, List.modifyHead_cons, ← List.cons_append] at hsplit
        obtain ⟨rfl, hlast⟩ := List.append_inj' hsplit rfl
        obtain rfl := List.singleton_inj.mp hlast
        rfl

theorem splitOn_intercalate_flatMap {texts : List (List Char)} (h : texts ≠ []) :
    ([separator].intercalate texts).splitOn separator =
      texts.flatMap fun text => text.splitOn separator := by
  induction texts with
  | nil => exact absurd rfl h
  | cons text texts ih =>
    cases texts with
    | nil => simp [List.intercalate]
    | cons next texts =>
      have hjoin : [separator].intercalate (text :: next :: texts) =
          text ++ separator :: [separator].intercalate (next :: texts) := by
        simp [List.intercalate]
      rw [hjoin, List.splitOn_append_cons_self, ih (List.cons_ne_nil _ _)]
      rfl

end Pieces

/-! ## Quoted parameters -/

structure ChallengeParam where
  before : List Char
  key : List Char
  value : List Char
  behind : List Char

namespace ChallengeParam

def text (p : ChallengeParam) : List Char :=
  p.before ++ (p.key ++ '=' :: '"' :: (p.value ++ '"' :: p.behind))

structure Quoted (p : ChallengeParam) : Prop where
  key : ∀ c ∈ p.key, isWhitespace c = false ∧ c ≠ '=' ∧ c ≠ ','
  value : '"' ∉ p.value
  before : ∀ c ∈ p.before, isWhitespace c = true
  behind : ∀ c ∈ p.behind, isWhitespace c = true

end ChallengeParam

/-- What a part of a value names and gives, if it is taken for a parameter. -/
def strayOf (trimValue : List Char → List Char) (cut : List Char) : List Char × List Char :=
  (trimChars (cut.takeWhile (· ≠ '=')), trimValue ((cut.dropWhile (· ≠ '=')).drop 1))

/-- The parts behind the commas of a value, taken for parameters. The closing quote keeps the
blanks at the end of the last one. -/
def strays (value : List Char) : List (List Char × List Char) :=
  (value.splitOn ',').tail.dropLast.map (strayOf trimChars) ++
    (value.splitOn ',').tail.getLast?.toList.map (strayOf trimStart)

section Parts
variable {value cut blank : List Char}

theorem trimQuotes_of_not_mem (h : '"' ∉ value) : trimQuotes value = value := by
  have hne : ∀ c ∈ value, decide (c = '"') = false :=
    fun c hc => decide_eq_false (ne_of_mem_of_not_mem hc h)
  have hdrop : value.dropWhile (· = '"') = value := by
    cases value with
    | nil => rfl
    | cons c rest => exact List.dropWhile_cons_of_neg (by simp [hne c List.mem_cons_self])
  rw [trimQuotes, hdrop, List.rdropWhile_eq_self_iff]
  intro hnil
  rw [hne _ (List.getLast_mem hnil)]
  exact Bool.false_ne_true

theorem trimQuotes_closed (h : '"' ∉ value) : trimQuotes (value ++ ['"']) = value := by
  have hquote : ∀ c ∈ ['"'], decide (c = '"') = true :=
    fun c hc => decide_eq_true (List.mem_singleton.mp hc)
  cases value with
  | nil => rfl
  | cons c rest =>
    have hne : c ≠ '"' := ne_of_mem_of_not_mem List.mem_cons_self h
    have hdrop : ∀ behind, (c :: behind).dropWhile (· = '"') = c :: behind :=
      fun behind => List.dropWhile_cons_of_neg (by simpa using hne)
    have hself := trimQuotes_of_not_mem h
    rw [trimQuotes, hdrop] at hself
    rw [trimQuotes, List.cons_append, hdrop, ← List.cons_append, rdropWhile_append_blank hquote,
      hself]

theorem mem_of_mem_trimQuotes {c : Char} (h : c ∈ trimQuotes value) : c ∈ value :=
  (List.dropWhile_sublist _).subset ((List.rdropWhile_prefix _ _).subset h)

theorem trimQuotes_opened : trimQuotes ('"' :: value) = trimQuotes value := rfl

theorem trimChars_closed (h : ∀ c ∈ blank, isWhitespace c = true) :
    trimChars (value ++ '"' :: blank) = trimStart value ++ ['"'] := by
  have hquote : ¬isWhitespace '"' = true := by decide
  have hdrop : (value ++ ['"']).dropWhile isWhitespace = trimStart value ++ ['"'] := by
    rw [List.dropWhile_append, trimStart]
    split_ifs with hempty
    · rw [List.isEmpty_iff.mp hempty]
      rfl
    · rfl
  rw [List.append_cons, trimChars_append_right h, trimChars_eq, hdrop,
    List.rdropWhile_concat_neg _ _ _ hquote]

theorem split_at_equals (h : '=' ∈ cut) :
    cut = cut.takeWhile (· ≠ '=') ++ '=' :: (cut.dropWhile (· ≠ '=')).drop 1 ∧
      '=' ∉ cut.takeWhile (· ≠ '=') := by
  constructor
  · have hhead := List.head?_dropWhile_not (· ≠ '=') cut
    cases hdrop : cut.dropWhile (· ≠ '=') with
    | nil =>
      have hnone := List.dropWhile_eq_nil_iff.mp hdrop '=' h
      exact absurd rfl (of_decide_eq_true hnone)
    | cons c rest =>
      rw [hdrop] at hhead
      obtain rfl : c = '=' := by simpa using hhead
      have hjoin := List.takeWhile_append_dropWhile (p := (· ≠ '=')) (l := cut)
      rw [hdrop] at hjoin
      exact hjoin.symm
  · intro hmem
    have hne := List.mem_takeWhile_imp (p := fun c => decide (c ≠ '=')) hmem
    exact absurd hne (by decide)

theorem parseParam_middle (hequals : '=' ∈ cut) (hquote : '"' ∉ cut) :
    parseParam cut = some (strayOf trimChars cut) := by
  obtain ⟨heq, hname⟩ := split_at_equals hequals
  have hvalue : '"' ∉ trimChars ((cut.dropWhile (· ≠ '=')).drop 1) := fun hmem =>
    hquote ((List.dropWhile_sublist _).subset (List.mem_of_mem_drop (mem_of_mem_trimChars hmem)))
  conv_lhs => rw [heq]
  rw [parseParam_split hname, trimQuotes_of_not_mem hvalue]
  rfl

theorem parseParam_closed (hequals : '=' ∈ cut) (hquote : '"' ∉ cut)
    (hblank : ∀ c ∈ blank, isWhitespace c = true) :
    parseParam (cut ++ '"' :: blank) = some (strayOf trimStart cut) := by
  obtain ⟨heq, hname⟩ := split_at_equals hequals
  have hvalue : '"' ∉ trimStart ((cut.dropWhile (· ≠ '=')).drop 1) := fun hmem =>
    hquote ((List.dropWhile_sublist _).subset
      (List.mem_of_mem_drop ((List.dropWhile_sublist _).subset hmem)))
  conv_lhs => rw [heq]
  rw [List.append_assoc, List.cons_append, parseParam_split hname, trimChars_closed hblank,
    trimQuotes_closed hvalue]
  rfl

theorem mapM_some {α β : Type} {f : α → Option β} {g : α → β} {xs : List α}
    (h : ∀ x ∈ xs, f x = some (g x)) : xs.mapM f = some (xs.map g) := by
  induction xs with
  | nil => rfl
  | cons x xs ih =>
    rw [List.mapM_cons, h x List.mem_cons_self, ih fun y hy => h y (List.mem_cons_of_mem _ hy)]
    rfl

theorem mapM_none {α β : Type} {f : α → Option β} {x : α} {xs : List α} (hx : x ∈ xs)
    (h : f x = none) : xs.mapM f = none := by
  induction xs with
  | nil => cases hx
  | cons y xs ih =>
    rw [List.mapM_cons]
    rcases List.mem_cons.mp hx with rfl | hx
    · rw [h]
      rfl
    · rw [ih hx]
      cases f y with
      | none => rfl
      | some z => rfl

end Parts

/-! ## What a parameter is read as -/

namespace ChallengeParam
variable {p : ChallengeParam} {rest first last cut : List Char} {middle : List (List Char)}

theorem Quoted.affixes (h : p.Quoted) :
    ',' ∉ p.before ++ (p.key ++ ['=', '"']) ∧ ',' ∉ '"' :: p.behind ∧ '=' ∉ p.before ++ p.key ∧
      '=' ∉ '"' :: p.behind := by
  have hblank : ∀ c ∈ p.before ++ p.behind, c ≠ ',' ∧ c ≠ '=' := by
    intro c hc
    have hspace : isWhitespace c = true :=
      (List.mem_append.mp hc).elim (h.before c) (h.behind c)
    constructor
    · rintro rfl
      exact absurd hspace (by decide)
    · rintro rfl
      exact absurd hspace (by decide)
  have hkey := h.key
  simp only [List.mem_append, List.mem_cons, not_or, List.not_mem_nil, not_false_eq_true,
    and_true]
  refine ⟨⟨fun hmem => ?_, fun hmem => ?_, by decide, by decide⟩, ⟨by decide, fun hmem => ?_⟩,
    ⟨fun hmem => ?_, fun hmem => ?_⟩, ⟨by decide, fun hmem => ?_⟩⟩
  · exact (hblank _ (List.mem_append_left _ hmem)).1 rfl
  · exact (hkey _ hmem).2.2 rfl
  · exact (hblank _ (List.mem_append_right _ hmem)).1 rfl
  · exact (hblank _ (List.mem_append_left _ hmem)).2 rfl
  · exact (hkey _ hmem).2.1 rfl
  · exact (hblank _ (List.mem_append_right _ hmem)).2 rfl

theorem Quoted.parse_front (h : p.Quoted) (rest : List Char) :
    parseParam (p.before ++ (p.key ++ ['=', '"']) ++ rest) =
      some (p.key, trimQuotes (trimChars ('"' :: rest))) := by
  have hshape : p.before ++ (p.key ++ ['=', '"']) ++ rest =
      (p.before ++ p.key) ++ '=' :: '"' :: rest := by simp
  rw [hshape, parseParam_split h.affixes.2.2.1, trimChars_append_left h.before,
    trimChars_of_ne fun c hc => (h.key c hc).1]

theorem Quoted.parse_whole (h : p.Quoted) : parseParam p.text = some (p.key, p.value) := by
  have hshape : p.text = p.before ++ (p.key ++ ['=', '"']) ++ (p.value ++ '"' :: p.behind) := by
    simp [text]
  have hstart : trimStart ('"' :: p.value) = '"' :: p.value :=
    List.dropWhile_cons_of_neg (by decide)
  rw [hshape, h.parse_front, ← List.cons_append, trimChars_closed h.behind, hstart,
    List.cons_append, trimQuotes_opened, trimQuotes_closed h.value]

theorem pieces_of_no_comma (h : p.Quoted) (hcomma : ',' ∉ p.value) :
    p.text.splitOn ',' = [p.text] := by
  apply List.splitOn_eq_singleton
  have haffixes := h.affixes
  simp only [List.mem_append, List.mem_cons, not_or] at haffixes
  simp only [text, List.mem_append, List.mem_cons, not_or]
  exact ⟨haffixes.1.1, haffixes.1.2.1, by decide, by decide, hcomma, haffixes.2.1⟩

theorem pieces_of_split (h : p.Quoted)
    (hsplit : p.value.splitOn ',' = (first :: middle) ++ [last]) :
    p.text.splitOn ',' =
      (p.before ++ (p.key ++ ['=', '"']) ++ first) :: middle ++ [last ++ '"' :: p.behind] := by
  have hshape : p.text = p.before ++ (p.key ++ ['=', '"']) ++ (p.value ++ '"' :: p.behind) := by
    simp [text]
  rw [hshape, splitOn_append_left h.affixes.1, splitOn_append_right h.affixes.2.1 hsplit]
  rfl

theorem exists_pieces {value : List Char} (h : ',' ∈ value) :
    ∃ first middle last, value.splitOn ',' = (first :: middle) ++ [last] := by
  cases hsplit : value.splitOn ',' with
  | nil => exact absurd hsplit (List.splitOn_ne_nil ',' value)
  | cons first rest =>
    have hrest : rest ≠ [] := by
      rintro rfl
      have hjoin : [','].intercalate (value.splitOn ',') = value := List.intercalate_splitOn ','
      rw [hsplit, List.intercalate_singleton] at hjoin
      exact not_mem_splitOn (hsplit ▸ List.mem_cons_self) (hjoin ▸ h)
    exact ⟨first, rest.dropLast, rest.getLast hrest, by
      rw [List.cons_append, List.dropLast_concat_getLast hrest]⟩

theorem strays_of_split {value : List Char}
    (hsplit : value.splitOn ',' = (first :: middle) ++ [last]) :
    strays value = middle.map (strayOf trimChars) ++ [strayOf trimStart last] := by
  rw [strays, hsplit, List.cons_append, List.tail_cons, List.dropLast_concat,
    List.getLast?_concat]
  rfl

theorem mem_of_mem_piece {c : Char} {value piece : List Char} (hpiece : piece ∈ value.splitOn ',')
    (hc : c ∈ piece) : c ∈ value := by
  induction value generalizing piece with
  | nil =>
    rw [List.splitOn_nil, List.mem_singleton] at hpiece
    rw [hpiece] at hc
    exact hc
  | cons x value ih =>
    rw [List.splitOn_cons_eq_if_modifyHead] at hpiece
    split_ifs at hpiece
    · rcases List.mem_cons.mp hpiece with rfl | hpiece
      · cases hc
      · exact List.mem_cons_of_mem _ (ih hpiece hc)
    · cases hpieces : value.splitOn ',' with
      | nil => exact absurd hpieces (List.splitOn_ne_nil ',' value)
      | cons first rest =>
        rw [hpieces, List.modifyHead_cons] at hpiece
        rw [hpieces] at ih
        rcases List.mem_cons.mp hpiece with rfl | hpiece
        · rcases List.mem_cons.mp hc with rfl | hc
          · exact List.mem_cons_self
          · exact List.mem_cons_of_mem _ (ih List.mem_cons_self hc)
        · exact List.mem_cons_of_mem _ (ih (List.mem_cons_of_mem _ hpiece) hc)

theorem Quoted.entries (h : p.Quoted)
    (hcuts : ∀ cut ∈ (p.value.splitOn ',').tail, '=' ∈ cut) :
    ∃ opening, (',' ∉ p.value → opening = p.value) ∧ ',' ∉ opening ∧
      (p.text.splitOn ',').mapM parseParam = some ((p.key, opening) :: strays p.value) := by
  by_cases hcomma : ',' ∈ p.value
  · obtain ⟨first, middle, last, hsplit⟩ := exists_pieces hcomma
    have hquote : ∀ piece ∈ (first :: middle) ++ [last], '"' ∉ piece :=
      fun piece hmem hc => h.value (mem_of_mem_piece (hsplit ▸ hmem) hc)
    rw [hsplit, List.cons_append, List.tail_cons] at hcuts
    have hmiddle : middle.mapM parseParam = some (middle.map (strayOf trimChars)) :=
      mapM_some fun cut hcut => parseParam_middle (hcuts cut (List.mem_append_left _ hcut))
        (hquote cut (List.mem_append_left _ (List.mem_cons_of_mem _ hcut)))
    have hlast : parseParam (last ++ '"' :: p.behind) = some (strayOf trimStart last) :=
      parseParam_closed (hcuts last (by simp)) (hquote last (by simp)) h.behind
    refine ⟨trimQuotes (trimChars ('"' :: first)), fun hno => absurd hcomma hno, fun hmem => ?_, ?_⟩
    · have hfirst : ',' ∉ first := by
        have hpiece : first ∈ p.value.splitOn ',' := by simp [hsplit]
        exact not_mem_splitOn hpiece
      have hin := mem_of_mem_trimChars (mem_of_mem_trimQuotes hmem)
      rcases List.mem_cons.mp hin with heq | hin
      · exact absurd heq (by decide)
      · exact hfirst hin
    · rw [pieces_of_split h hsplit, strays_of_split hsplit, List.cons_append, List.mapM_cons,
        h.parse_front, List.mapM_append, hmiddle, List.mapM_cons, hlast]
      rfl
  · refine ⟨p.value, fun _ => rfl, hcomma, ?_⟩
    rw [pieces_of_no_comma h hcomma, strays, List.splitOn_eq_singleton hcomma, List.mapM_cons,
      h.parse_whole]
    rfl

theorem Quoted.entries_eq_none (h : p.Quoted) (hcut : cut ∈ (p.value.splitOn ',').tail)
    (hequals : '=' ∉ cut) : (p.text.splitOn ',').mapM parseParam = none := by
  by_cases hcomma : ',' ∈ p.value
  · obtain ⟨first, middle, last, hsplit⟩ := exists_pieces hcomma
    rw [hsplit, List.cons_append, List.tail_cons] at hcut
    rw [pieces_of_split h hsplit]
    rcases List.mem_append.mp hcut with hmiddle | hlast
    · exact mapM_none (by simp [hmiddle]) (parseParam_eq_none hequals)
    · obtain rfl := List.mem_singleton.mp hlast
      have hnone : '=' ∉ cut ++ '"' :: p.behind := by
        rw [List.mem_append, not_or]
        exact ⟨hequals, h.affixes.2.2.2⟩
      exact mapM_none (by simp) (parseParam_eq_none hnone)
  · rw [List.splitOn_eq_singleton hcomma] at hcut
    cases hcut

end ChallengeParam

theorem strays_of_no_comma {value : List Char} (h : ',' ∉ value) : strays value = [] := by
  rw [strays, List.splitOn_eq_singleton h]
  rfl

theorem comma_not_mem_stray {value : List Char} {stray : List Char × List Char}
    (h : stray ∈ strays value) : ',' ∉ stray.2 := by
  have hcut : ∀ cut ∈ (value.splitOn ',').tail, ',' ∉ (cut.dropWhile (· ≠ '=')).drop 1 :=
    fun cut hcut hmem => not_mem_splitOn (List.mem_of_mem_tail hcut)
      ((List.dropWhile_sublist _).subset (List.mem_of_mem_drop hmem))
  rcases List.mem_append.mp h with h | h
  · obtain ⟨cut, hmem, rfl⟩ := List.mem_map.mp h
    exact fun hcomma => hcut cut (List.mem_of_mem_dropLast hmem) (mem_of_mem_trimChars hcomma)
  · obtain ⟨cut, hmem, rfl⟩ := List.mem_map.mp h
    exact fun hcomma => hcut cut (List.mem_of_getLast? (by simpa using hmem))
      ((List.dropWhile_sublist _).subset hcomma)

def lastValue (key : List Char) (params : List ChallengeParam) : Option (List Char) :=
  lastFor key (params.map fun p => (p.key, p.value))

/-- The last value of the key has no comma, and what behind it looks like a parameter with that key
gives the same value; without a value, nothing looks like a parameter with the key. -/
structure Kept (key : List Char) (params : List ChallengeParam) : Prop where
  given : ∀ before p behind, params = before ++ p :: behind → p.key = key →
    (∀ q ∈ behind, q.key ≠ key) →
      ',' ∉ p.value ∧ ∀ value, lastFor key (behind.flatMap fun q => strays q.value) = some value →
        value = p.value
  absent : (∀ p ∈ params, p.key ≠ key) → ∀ p ∈ params, ∀ stray ∈ strays p.value, stray.1 ≠ key

section Entries
variable {key : List Char} {params before behind : List ChallengeParam} {p : ChallengeParam}
variable {opening : ChallengeParam → List Char}

def readAs (opening : ChallengeParam → List Char) (p : ChallengeParam) :
    List (List Char × List Char) := (p.key, opening p) :: strays p.value

theorem lastFor_readAs_of_ne (h : ∀ q ∈ behind, q.key ≠ key) :
    lastFor key (behind.flatMap (readAs opening)) =
      lastFor key (behind.flatMap fun q => strays q.value) := by
  induction behind with
  | nil => rfl
  | cons q behind ih =>
    have hq : lastFor key [(q.key, opening q)] = none := by
      rw [lastFor_singleton, if_neg (h q List.mem_cons_self)]
    rw [List.flatMap_cons, List.flatMap_cons, lastFor_append, lastFor_append,
      ih fun r hr => h r (List.mem_cons_of_mem _ hr), readAs, lastFor_cons, hq, Option.or_none]

theorem lastValue_of_split (hkey : p.key = key) (hbehind : ∀ q ∈ behind, q.key ≠ key) :
    lastValue key (before ++ p :: behind) = some p.value := by
  have hnone : lastFor key (behind.map fun p => (p.key, p.value)) = none :=
    lastFor_eq_none.mpr fun entry hentry => by
      obtain ⟨q, hq, rfl⟩ := List.mem_map.mp hentry
      exact hbehind q hq
  rw [lastValue, List.map_append, lastFor_append, List.map_cons, lastFor_cons, hnone,
    lastFor_singleton, if_pos hkey]
  rfl

theorem readAs_of_split (hkey : p.key = key) (hbehind : ∀ q ∈ behind, q.key ≠ key)
    (hopening : ∀ q ∈ before ++ p :: behind,
      (',' ∉ q.value → opening q = q.value) ∧ ',' ∉ opening q) :
    lastFor key ((before ++ p :: behind).flatMap (readAs opening)) =
        lastValue key (before ++ p :: behind) ↔
      ',' ∉ p.value ∧ ∀ value, lastFor key (behind.flatMap fun q => strays q.value) = some value →
        value = p.value := by
  rw [lastValue_of_split hkey hbehind]
  have hfree : lastFor key ((before ++ p :: behind).flatMap (readAs opening)) = some p.value →
      ',' ∉ p.value := by
    intro h
    obtain ⟨q, hq, hentry⟩ := List.mem_flatMap.mp (mem_of_lastFor h)
    rcases List.mem_cons.mp hentry with heq | hstray
    · rw [show p.value = opening q from (Prod.mk.inj heq).2]
      exact (hopening q hq).2
    · exact comma_not_mem_stray hstray
  have hlast : ',' ∉ p.value →
      lastFor key ((before ++ p :: behind).flatMap (readAs opening)) =
        (lastFor key (behind.flatMap fun q => strays q.value)).or (some p.value) := by
    intro hcomma
    rw [List.flatMap_append, lastFor_append, List.flatMap_cons, lastFor_append,
      lastFor_readAs_of_ne hbehind, readAs, strays_of_no_comma hcomma, lastFor_singleton,
      if_pos hkey, (hopening p (by simp)).1 hcomma, Option.or_assoc]
    rfl
  constructor
  · intro h
    have hcomma := hfree h
    rw [hlast hcomma] at h
    refine ⟨hcomma, fun value hvalue => ?_⟩
    rw [hvalue, Option.some_or, Option.some_inj] at h
    exact h
  · rintro ⟨hcomma, hsame⟩
    rw [hlast hcomma]
    cases hstray : lastFor key (behind.flatMap fun q => strays q.value) with
    | none => rfl
    | some value => rw [hsame value hstray, Option.some_or]

theorem readAs_eq_lastValue_iff
    (hopening : ∀ q ∈ params, (',' ∉ q.value → opening q = q.value) ∧ ',' ∉ opening q) :
    lastFor key (params.flatMap (readAs opening)) = lastValue key params ↔ Kept key params := by
  constructor
  · intro h
    constructor
    · rintro before p behind rfl hkey hbehind
      exact (readAs_of_split hkey hbehind hopening).mp h
    · intro habsent p hp stray hstray
      have hnone : lastValue key params = none := lastFor_eq_none.mpr fun entry hentry => by
        obtain ⟨q, hq, rfl⟩ := List.mem_map.mp hentry
        exact habsent q hq
      rw [hnone, lastFor_eq_none] at h
      exact h stray (List.mem_flatMap.mpr ⟨p, hp, List.mem_cons_of_mem _ hstray⟩)
  · intro h
    cases hvalue : lastValue key params with
    | none =>
      have habsent : ∀ p ∈ params, p.key ≠ key := fun p hp =>
        lastFor_eq_none.mp hvalue (p.key, p.value) (List.mem_map_of_mem hp)
      refine lastFor_eq_none.mpr fun entry hentry => ?_
      obtain ⟨p, hp, hentry⟩ := List.mem_flatMap.mp hentry
      rcases List.mem_cons.mp hentry with rfl | hstray
      · exact habsent p hp
      · exact h.absent habsent p hp entry hstray
    | some value =>
      obtain ⟨front, back, hsplit, hback⟩ := exists_split_of_lastFor hvalue
      obtain ⟨before, rest, rfl, rfl, hrest⟩ := List.map_eq_append_iff.mp hsplit
      obtain ⟨p, behind, rfl, hp, rfl⟩ := List.map_eq_cons_iff.mp hrest
      obtain ⟨hkey, rfl⟩ := Prod.mk.inj hp
      have hbehind : ∀ q ∈ behind, q.key ≠ key := fun q hq =>
        hback (q.key, q.value) (List.mem_map_of_mem hq)
      rw [← hvalue]
      exact (readAs_of_split hkey hbehind hopening).mpr (h.given before p behind rfl hkey hbehind)

end Entries

/-! ## The header -/

def challengeHeader (word : List Char) (params : List ChallengeParam) : List Char :=
  word ++ ' ' :: [','].intercalate (params.map ChallengeParam.text)

theorem readParams_append_blank {params blank : List Char}
    (h : ∀ c ∈ blank, isWhitespace c = true) :
    readParams (params ++ blank) = readParams params := by
  have hcomma : ',' ∉ blank := fun hmem => absurd (h _ hmem) (by decide)
  have hpieces := (List.dropLast_concat_getLast (List.splitOn_ne_nil ',' params)).symm
  have hparse : ∀ last, parseParam (last ++ blank) = parseParam last := fun last => by
    rw [← parseParam_trimChars, trimChars_append_right h, parseParam_trimChars]
  have hsame : ((params ++ blank).splitOn ',').mapM parseParam =
      (params.splitOn ',').mapM parseParam := by
    rw [splitOn_append_right hcomma hpieces]
    conv_rhs => rw [hpieces]
    rw [List.mapM_append, List.mapM_append, List.mapM_cons, List.mapM_cons, hparse]
  rw [readParams_eq, readParams_eq, hsame]

theorem parseBearerChallenge_of_word {word params : List Char}
    (hword : word.map Char.toLower = "bearer".toList)
    (hparams : ∃ c ∈ params, isWhitespace c = false) :
    parseBearerChallenge (word ++ ' ' :: params) = some (readParams params) := by
  obtain ⟨body, blank, hbody, hblank, hlast⟩ : ∃ body blank, params = body ++ blank ∧
      (∀ c ∈ blank, isWhitespace c = true) ∧
        ∃ c, body.getLast? = some c ∧ isWhitespace c = false := by
    refine ⟨params.rdropWhile isWhitespace, params.rtakeWhile isWhitespace,
      List.rdropWhile_append_rtakeWhile.symm, fun c hc => List.mem_rtakeWhile_imp hc, ?_⟩
    have hne : params.rdropWhile isWhitespace ≠ [] := by
      intro hnil
      obtain ⟨c, hc, hplain⟩ := hparams
      rw [List.rdropWhile_eq_nil_iff] at hnil
      rw [hnil c hc] at hplain
      cases hplain
    exact ⟨_, List.getLast?_eq_some_getLast hne, by
      simpa using List.rdropWhile_last_not isWhitespace params hne⟩
  obtain ⟨c, hc, hplain⟩ := hlast
  have hfirst : ∃ c rest, word = c :: rest ∧ isWhitespace c = false := by
    cases word with
    | nil => cases hword
    | cons c rest =>
      have hc : c.toLower = 'b' := (List.cons.inj hword).1
      refine ⟨c, rest, rfl, ?_⟩
      by_cases hupper : c.val ≥ 'A'.val ∧ c.val ≤ 'Z'.val
      · have halphanum : c.isAlphanum = true := by
          simp only [Char.isAlphanum, Char.isAlpha, Char.isUpper, Bool.or_eq_true,
            decide_eq_true_eq]
          exact .inl (.inl hupper)
        exact (isNameChar_of_isAlphanum halphanum).1.1
      · have hself : c.toLower = c := dif_neg hupper
        rw [← hself, hc]
        decide
  have hbodyNe : body ≠ [] := by
    rintro rfl
    cases hc
  have htrim : trimChars (word ++ ' ' :: params) = (word ++ [' ']) ++ body := by
    have hshape : word ++ ' ' :: params = ((word ++ [' ']) ++ body) ++ blank := by
      rw [hbody]
      simp
    rw [hshape, trimChars_append_right hblank]
    refine trimChars_eq_self (fun d hd => ?_) fun d hd => ?_
    · obtain ⟨first, rest, rfl, hspace⟩ := hfirst
      obtain rfl := Option.some.inj hd
      exact hspace
    · rw [List.getLast?_append_of_ne_nil _ hbodyNe, hc] at hd
      obtain rfl := Option.some.inj hd
      exact hplain
  have hlower : (word ++ [' ']).map Char.toLower = "bearer ".toList := by
    rw [List.map_append, hword]
    rfl
  have hlength : utf8Length (word ++ [' ']) = 7 := by
    rw [← utf8Length_toLower, hlower]
    decide
  have hstarts :
      "bearer ".toList.isPrefixOf (((word ++ [' ']) ++ body).map Char.toLower) = true := by
    rw [List.map_append, hlower, List.isPrefixOf_iff_prefix]
    exact List.prefix_append _ _
  rw [parseBearerChallenge, htrim]
  simp only [hstarts, Bool.not_true, Bool.false_eq_true, if_false]
  rw [← hlength, sliceFrom_append, Option.map_some, hbody, readParams_append_blank hblank]

/-- What the header must be like to be read: each part of a value behind a comma looks like a
parameter, and `realm`, `service` and `scope` are kept. -/
structure ReadsBack (params : List ChallengeParam) : Prop where
  named : ∀ p ∈ params, ∀ cut ∈ (p.value.splitOn ',').tail, '=' ∈ cut
  realm : Kept "realm".toList params
  service : Kept "service".toList params
  scope : Kept "scope".toList params

theorem readParams_intercalate {params : List ChallengeParam} (hne : params ≠ []) :
    readParams ([','].intercalate (params.map ChallengeParam.text)) =
      ((params.flatMap fun p => p.text.splitOn ',').mapM parseParam).bind fun entries =>
        (lastFor "realm".toList entries).map fun realm =>
          ⟨realm, lastFor "service".toList entries, lastFor "scope".toList entries⟩ := by
  rw [readParams_eq, splitOn_intercalate_flatMap (by simpa using hne), List.flatMap_map]

theorem mapM_flatMap {α β γ : Type} {f : β → Option γ} {pieces : α → List β} {g : α → List γ}
    {xs : List α} (h : ∀ x ∈ xs, (pieces x).mapM f = some (g x)) :
    (xs.flatMap pieces).mapM f = some (xs.flatMap g) := by
  induction xs with
  | nil => rfl
  | cons x xs ih =>
    rw [List.flatMap_cons, List.mapM_append, h x List.mem_cons_self,
      ih fun y hy => h y (List.mem_cons_of_mem _ hy)]
    rfl

theorem mapM_flatMap_none {α β γ : Type} {f : β → Option γ} {pieces : α → List β} {x : α}
    {xs : List α} (hx : x ∈ xs) (h : (pieces x).mapM f = none) :
    (xs.flatMap pieces).mapM f = none := by
  induction xs with
  | nil => cases hx
  | cons y xs ih =>
    rw [List.flatMap_cons, List.mapM_append]
    rcases List.mem_cons.mp hx with rfl | hx
    · rw [h]
      rfl
    · rw [ih hx]
      cases (pieces y).mapM f with
      | none => rfl
      | some entries => rfl

/-- A header of quoted parameters gives the last value of each key exactly when it reads back; and
no header makes the slice panic. -/
theorem challenge_read_iff (word : List Char) (params : List ChallengeParam) (realm : List Char)
    (hword : word.map Char.toLower = "bearer".toList) (hquoted : ∀ p ∈ params, p.Quoted)
    (hrealm : lastValue "realm".toList params = some realm) :
    (parseBearerChallenge (challengeHeader word params) =
        some (some ⟨realm, lastValue "service".toList params, lastValue "scope".toList params⟩) ∧
      ∀ header, (parseBearerChallenge header).isSome = true) ↔ ReadsBack params := by
  have hne : params ≠ [] := by
    rintro rfl
    cases hrealm
  have hplain : ∃ c ∈ [','].intercalate (params.map ChallengeParam.text),
      isWhitespace c = false := by
    obtain ⟨p, rest, rfl⟩ := List.exists_cons_of_ne_nil hne
    have hquote : '"' ∈ p.text := by simp [ChallengeParam.text]
    obtain ⟨piece, hpiece, hmem⟩ := exists_piece_of_mem (show '"' ≠ ',' by decide) hquote
    have hjoined : piece ∈
        ([','].intercalate ((p :: rest).map ChallengeParam.text)).splitOn ',' := by
      rw [splitOn_intercalate_flatMap (by simp), List.flatMap_map, List.flatMap_cons]
      exact List.mem_append_left _ hpiece
    exact ⟨'"', ChallengeParam.mem_of_mem_piece hjoined hmem, by decide⟩
  rw [challengeHeader, parseBearerChallenge_of_word hword hplain, Option.some_inj,
    readParams_intercalate hne, and_iff_left parseBearerChallenge_isSome]
  by_cases hnamed : ∀ p ∈ params, ∀ cut ∈ (p.value.splitOn ',').tail, '=' ∈ cut
  · choose! opening hopening using fun p hp => (hquoted p hp).entries (hnamed p hp)
    have hparse : (params.flatMap fun p => p.text.splitOn ',').mapM parseParam =
        some (params.flatMap (readAs opening)) :=
      mapM_flatMap fun p hp => (hopening p hp).2.2
    have hkept : ∀ key, lastFor key (params.flatMap (readAs opening)) = lastValue key params ↔
        Kept key params := fun key =>
      readAs_eq_lastValue_iff fun p hp => ⟨(hopening p hp).1, (hopening p hp).2.1⟩
    rw [hparse, Option.bind_some, Option.map_eq_some_iff]
    constructor
    · rintro ⟨found, hfound, heq⟩
      obtain ⟨rfl, hservice, hscope⟩ := BearerChallenge.mk.inj heq
      exact ⟨hnamed, (hkept _).mp (hfound.trans hrealm.symm), (hkept _).mp hservice,
        (hkept _).mp hscope⟩
    · intro h
      refine ⟨realm, ((hkept _).mpr h.realm).trans hrealm, ?_⟩
      rw [(hkept _).mpr h.service, (hkept _).mpr h.scope]
  · have hnot : ¬ReadsBack params := fun h => hnamed h.named
    push Not at hnamed
    obtain ⟨p, hp, cut, hcut, hequals⟩ := hnamed
    have hparse : (params.flatMap fun p => p.text.splitOn ',').mapM parseParam = none :=
      mapM_flatMap_none hp ((hquoted p hp).entries_eq_none hcut hequals)
    rw [hparse]
    simp [hnot]

def pullChallenge (scope : String) : List ChallengeParam :=
  [⟨[], "realm".toList, "https://auth.example/token".toList, []⟩,
    ⟨[], "scope".toList, scope.toList, []⟩]

theorem pullChallenge_quoted {scope : String} (h : '"' ∉ scope.toList) :
    ∀ p ∈ pullChallenge scope, p.Quoted := by
  have hname (name : List Char)
      (hall : (name.all fun c => isWhitespace c = false ∧ c ≠ '=' ∧ c ≠ ',') = true) :
      ∀ c ∈ name, isWhitespace c = false ∧ c ≠ '=' ∧ c ≠ ',' :=
    fun c hc => of_decide_eq_true (List.all_eq_true.mp hall c hc)
  intro p hp
  simp only [pullChallenge, List.mem_cons, List.not_mem_nil, or_false] at hp
  rcases hp with rfl | rfl
  · refine ⟨hname _ (by decide), ?_, List.forall_mem_nil _, List.forall_mem_nil _⟩
    exact fun hquote => absurd (List.elem_iff.mpr hquote) (by decide)
  · exact ⟨hname "scope".toList (by decide), h, List.forall_mem_nil _, List.forall_mem_nil _⟩

theorem pullChallenge_read :
    parseBearerChallenge (challengeHeader "BEARER".toList (pullChallenge "repository:app:pull")) =
        some (some ⟨"https://auth.example/token".toList, none,
          some "repository:app:pull".toList⟩) ∧
      ReadsBack (pullChallenge "repository:app:pull") := by
  have hread : parseBearerChallenge
      (challengeHeader "BEARER".toList (pullChallenge "repository:app:pull")) =
        some (some ⟨"https://auth.example/token".toList, none,
          some "repository:app:pull".toList⟩) := by decide +kernel
  exact ⟨hread, (challenge_read_iff "BEARER".toList (pullChallenge "repository:app:pull")
    "https://auth.example/token".toList (by decide) (pullChallenge_quoted (by decide))
    (by decide)).mp ⟨hread, parseBearerChallenge_isSome⟩⟩

/-- A scope with two actions, as registries send it to a client that pushes, loses the challenge. -/
theorem two_actions_lose_challenge :
    (∀ p ∈ pullChallenge "repository:app:pull,push", p.Quoted) ∧
      lastValue "realm".toList (pullChallenge "repository:app:pull,push") =
        some "https://auth.example/token".toList ∧
      parseBearerChallenge
          (challengeHeader "Bearer".toList (pullChallenge "repository:app:pull,push")) =
        some none :=
  ⟨pullChallenge_quoted (by decide), by decide, by decide +kernel⟩

end Ferrocrate.Image
