import Ferrocrate.Lib.Framing
import Ferrocrate.Lib.Lines
import Ferrocrate.Lib.OrdMap

/-! The variables of a compose file: `interpolate_variables`, and where their values come from. -/
namespace Ferrocrate.Compose
open Lib

abbrev Environment := OrdMap String String

def projectEnvironment (dotenv process : Environment) : Environment :=
  process.entries.foldl (fun env entry => env.insert entry.1 entry.2) dotenv

def resolveEnv (process env : Environment) (var : String) : Option String :=
  match env.get var with
  | some value => if value ≠ "" then some value else process.get var
  | none => process.get var

def takeFallback : List Char → List Char × List Char
  | [] => ([], [])
  | c :: rest =>
    if c = '\x7d' then ([], rest)
    else
      let (fallback, rest) := takeFallback rest
      (c :: fallback, rest)

def takePlaceholder : List Char → List Char × Option (List Char) × List Char
  | [] => ([], none, [])
  | c :: rest =>
    if c = '\x7d' then ([], none, rest)
    else if c = ':' ∧ rest.head? = some '-' then
      let (fallback, rest) := takeFallback rest.tail
      ([], some fallback, rest)
    else
      let (name, default, rest) := takePlaceholder rest
      (c :: name, default, rest)

theorem takeFallback_length (text : List Char) : (takeFallback text).2.length ≤ text.length := by
  induction text with
  | nil => exact le_rfl
  | cons c text ih =>
    unfold takeFallback
    split_ifs
    · exact Nat.le_succ _
    · exact ih.trans (Nat.le_succ _)

theorem takePlaceholder_length (text : List Char) :
    (takePlaceholder text).2.2.length ≤ text.length := by
  induction text with
  | nil => exact le_rfl
  | cons c text ih =>
    unfold takePlaceholder
    split_ifs
    · exact Nat.le_succ _
    · refine (takeFallback_length text.tail).trans ?_
      rw [List.length_tail, List.length_cons]
      omega
    · exact ih.trans (Nat.le_succ _)

def interpolateVariables (process env : Environment) : List Char → List Char
  | [] => []
  | c :: rest =>
    if c = '$' ∧ rest.head? = some '\x7b' then
      ((resolveEnv process env (String.ofList (takePlaceholder rest.tail).1)).map
        String.toList).getD ((takePlaceholder rest.tail).2.1.getD []) ++
        interpolateVariables process env (takePlaceholder rest.tail).2.2
    else
      c :: interpolateVariables process env rest
termination_by text => text.length
decreasing_by
  · have hle := takePlaceholder_length rest.tail
    rw [List.length_tail] at hle
    rw [List.length_cons]
    omega
  · exact Nat.lt_succ_self _

/-! ## What a text with placeholders says -/

inductive Piece where
  | literal (c : Char)
  | placeholder (name : List Char) (default : Option (List Char))

def Piece.text : Piece → List Char
  | .literal c => [c]
  | .placeholder name none => '$' :: '\x7b' :: (name ++ ['\x7d'])
  | .placeholder name (some default) =>
    '$' :: '\x7b' :: (name ++ ':' :: '-' :: (default ++ ['\x7d']))

def render (pieces : List Piece) : List Char := pieces.flatMap Piece.text

def PiecesValid : List Piece → Prop
  | [] => True
  | .literal c :: rest => (c = '$' → rest.head? ≠ some (.literal '\x7b')) ∧ PiecesValid rest
  | .placeholder name default :: rest =>
    '\x7d' ∉ name ∧ ¬[':', '-'] <:+: name ∧ (∀ text, default = some text → '\x7d' ∉ text) ∧
      PiecesValid rest

def Piece.value (env : Environment) : Piece → List Char
  | .literal c => [c]
  | .placeholder name default =>
    match env.get (String.ofList name) with
    | some value => if value ≠ "" then value.toList else default.getD []
    | none => default.getD []

def substituted (env : Environment) (pieces : List Piece) : List Char :=
  pieces.flatMap (Piece.value env)

def Piece.resolved (process env : Environment) : Piece → List Char
  | .literal c => [c]
  | .placeholder name default =>
    ((resolveEnv process env (String.ofList name)).map String.toList).getD (default.getD [])

variable {text : List Char}

theorem takeFallback_append (h : '\x7d' ∉ text) (rest : List Char) :
    takeFallback (text ++ '\x7d' :: rest) = (text, rest) := by
  induction text with
  | nil => rfl
  | cons c text ih =>
    have hc : c ≠ '\x7d' := fun heq => h (heq ▸ List.mem_cons_self)
    rw [List.cons_append, takeFallback, if_neg hc, ih fun hmem => h (List.mem_cons_of_mem _ hmem)]

theorem takePlaceholder_append {name : List Char} (hbrace : '\x7d' ∉ name)
    (hdash : ¬[':', '-'] <:+: name) {rest : List Char} (hrest : rest.head? ≠ some '-') :
    takePlaceholder (name ++ rest) =
      (name ++ (takePlaceholder rest).1, (takePlaceholder rest).2) := by
  induction name with
  | nil => rfl
  | cons c name ih =>
    have hc : c ≠ '\x7d' := fun heq => hbrace (heq ▸ List.mem_cons_self)
    have hstart : ¬(c = ':' ∧ (name ++ rest).head? = some '-') := by
      rintro ⟨rfl, hhead⟩
      cases name with
      | nil => exact hrest hhead
      | cons d name =>
        obtain rfl := Option.some.inj hhead
        exact hdash ⟨[], name, rfl⟩
    have hname : ¬[':', '-'] <:+: name := fun h => hdash (h.trans (List.suffix_cons c name).isInfix)
    rw [List.cons_append, takePlaceholder, if_neg hc, if_neg hstart,
      ih (fun hmem => hbrace (List.mem_cons_of_mem _ hmem)) hname]
    rfl

theorem head_render {pieces : List Piece} (h : (render pieces).head? = some '\x7b') :
    pieces.head? = some (.literal '\x7b') := by
  cases pieces with
  | nil => cases h
  | cons piece rest =>
    cases piece with
    | literal c => exact congrArg (fun c => some (Piece.literal c)) (Option.some.inj h)
    | placeholder name default => cases default <;> cases h

theorem get_foldl_insert {entries : List (String × String)} (h : (entries.map Prod.fst).Nodup)
    (env : Environment) (name : String) :
    (entries.foldl (fun env entry => env.insert entry.1 entry.2) env).get name =
      ((entries.find? fun entry => entry.1 = name).map Prod.snd).or (env.get name) := by
  induction entries generalizing env with
  | nil => rfl
  | cons entry entries ih =>
    obtain ⟨hnot, hrest⟩ := List.nodup_cons.mp h
    rw [List.foldl_cons, ih hrest, OrdMap.get_insert, List.find?_cons]
    by_cases heq : entry.1 = name
    · subst heq
      have hnone : entries.find? (fun other => other.1 = entry.1) = none :=
        List.find?_eq_none.mpr fun other hother hkey =>
          hnot (of_decide_eq_true hkey ▸ List.mem_map_of_mem hother)
      rw [hnone, if_pos rfl, decide_eq_true rfl]
      rfl
    · rw [if_neg fun h => heq h.symm, decide_eq_false heq]

section Values
variable {process env : Environment}

theorem interpolateVariables_placeholder {name text rest : List Char}
    {default : Option (List Char)} (h : takePlaceholder text = (name, default, rest)) :
    interpolateVariables process env ('$' :: '\x7b' :: text) =
      (Piece.placeholder name default).resolved process env ++
        interpolateVariables process env rest := by
  rw [interpolateVariables, if_pos ⟨rfl, rfl⟩, List.tail_cons, h]
  rfl

theorem interpolateVariables_render {pieces : List Piece} (h : PiecesValid pieces) :
    interpolateVariables process env (render pieces) =
      pieces.flatMap (Piece.resolved process env) := by
  induction pieces with
  | nil => rw [render, List.flatMap_nil, interpolateVariables, List.flatMap_nil]
  | cons piece pieces ih =>
    rw [render, List.flatMap_cons, List.flatMap_cons]
    cases piece with
    | literal c =>
      have hstart : ¬(c = '$' ∧ (render pieces).head? = some '\x7b') :=
        fun ⟨hc, hhead⟩ => h.1 hc (head_render hhead)
      show interpolateVariables process env (c :: render pieces) = c :: _
      rw [interpolateVariables, if_neg hstart, ih h.2]
      rfl
    | placeholder name default =>
      obtain ⟨hbrace, hdash, hdefault, hpieces⟩ := h
      rw [← ih hpieces]
      cases default with
      | none =>
        refine (congrArg _ (congrArg (fun text => '$' :: '\x7b' :: text)
          (List.append_assoc name ['\x7d'] (render pieces)))).trans ?_
        refine interpolateVariables_placeholder ?_
        rw [takePlaceholder_append hbrace hdash (by simp)]
        simp [takePlaceholder]
      | some default =>
        have htext : Piece.text (.placeholder name (some default)) ++ render pieces =
            '$' :: '\x7b' :: (name ++ ':' :: '-' :: (default ++ '\x7d' :: render pieces)) := by
          simp [Piece.text]
        refine (congrArg _ htext).trans (interpolateVariables_placeholder ?_)
        rw [takePlaceholder_append hbrace hdash (by simp)]
        simp [takePlaceholder, takeFallback_append (hdefault default rfl)]

theorem get_projectEnvironment (dotenv process : Environment) (name : String) :
    (projectEnvironment dotenv process).get name = (process.get name).or (dotenv.get name) :=
  get_foldl_insert process.nodup_keys dotenv name

def Piece.Overridden (process : Environment) : Piece → Prop
  | .literal _ => False
  | .placeholder name default =>
    process.get (String.ofList name) = some "" ∧ default.getD [] ≠ []

theorem resolved_eq_or (dotenv process : Environment) (piece : Piece) :
    (¬piece.Overridden process ∧ piece.resolved process (projectEnvironment dotenv process) =
        piece.value (projectEnvironment dotenv process)) ∨
      piece.Overridden process ∧
        piece.resolved process (projectEnvironment dotenv process) = [] ∧
        piece.value (projectEnvironment dotenv process) ≠ [] := by
  cases piece with
  | literal c => exact .inl ⟨id, rfl⟩
  | placeholder name default =>
    simp only [Piece.Overridden, Piece.resolved, Piece.value, resolveEnv, get_projectEnvironment]
    cases process.get (String.ofList name) with
    | some value =>
      by_cases hempty : value = ""
      · subst hempty
        by_cases hdefault : default.getD [] = []
        · exact .inl ⟨fun h => h.2 hdefault, by simp [hdefault]⟩
        · exact .inr ⟨⟨rfl, hdefault⟩, by simp, by simpa using hdefault⟩
      · exact .inl ⟨fun h => hempty (Option.some.inj h.1), by simp [hempty]⟩
    | none =>
      refine .inl ⟨(nomatch ·.1), ?_⟩
      cases dotenv.get (String.ofList name) with
      | none => simp
      | some value =>
        by_cases hempty : value = ""
        · simp [hempty]
        · simp [hempty]

theorem flatMap_resolved (dotenv process : Environment) (pieces : List Piece) :
    (pieces.flatMap (Piece.resolved process (projectEnvironment dotenv process))).length ≤
        (substituted (projectEnvironment dotenv process) pieces).length ∧
      (pieces.flatMap (Piece.resolved process (projectEnvironment dotenv process)) =
          substituted (projectEnvironment dotenv process) pieces ↔
        ∀ piece ∈ pieces, ¬piece.Overridden process) := by
  induction pieces with
  | nil => exact ⟨le_rfl, iff_of_true rfl fun _ hmem => nomatch hmem⟩
  | cons piece pieces ih =>
    rw [substituted] at ih
    rw [substituted, List.flatMap_cons, List.flatMap_cons, List.forall_mem_cons]
    rcases resolved_eq_or dotenv process piece with ⟨hkept, heq⟩ | ⟨hlost, hnil, hvalue⟩
    · rw [heq, List.append_cancel_left_eq, ih.2, and_iff_right hkept]
      refine ⟨?_, Iff.rfl⟩
      rw [List.length_append, List.length_append]
      exact Nat.add_le_add_left ih.1 _
    · have hpos := List.length_pos_iff.mpr hvalue
      rw [hnil, List.nil_append, List.length_append]
      refine ⟨by omega, iff_of_false (fun heq => ?_) fun h => h.1 hlost⟩
      have hlength := congrArg List.length heq
      rw [List.length_append] at hlength
      omega

end Values

/-! ## The `.env` file -/

inductive EnvFileError where
  | notText
  | invalidEntry (entry : List Char)
  /-- The slice of a value ends before it begins. -/
  | panicked
  deriving DecidableEq

def stripAny (starts : List (List Char)) (text : List Char) : List Char :=
  match starts.find? fun start => start.isPrefixOf text with
  | some start => text.drop start.length
  | none => text

def assignment (trimmed : List Char) : List Char :=
  trimStart (stripAny ["export ".toList, "export\t".toList] trimmed)

def splitAssignment (assignment : List Char) : Option (List Char × List Char) :=
  if '=' ∈ assignment then
    some (assignment.takeWhile (· ≠ '='), (assignment.dropWhile (· ≠ '=')).tail)
  else none

def Quoted (value : List Char) (quote : Char) : Prop :=
  value.head? = some quote ∧ value.getLast? = some quote

instance (value : List Char) (quote : Char) : Decidable (Quoted value quote) :=
  inferInstanceAs (Decidable (_ ∧ _))

def unquote (value : List Char) : Except EnvFileError (List Char) :=
  if Quoted value '"' ∨ Quoted value '\'' then
    if value.length < 2 then .error .panicked else .ok value.tail.dropLast
  else .ok value

def envEntry (line : List Char) : Except EnvFileError (Option (String × String)) :=
  if trimChars line = [] ∨ (trimChars line).head? = some '#' then .ok none
  else
    match splitAssignment (assignment (trimChars line)) with
    | none => .error (.invalidEntry (trimChars line))
    | some (key, value) =>
      match unquote (trimChars value) with
      | .error e => .error e
      | .ok value => .ok (some (String.ofList (trimChars key), String.ofList value))

def loadLines (env : Environment) : List (List Char) → Except EnvFileError Environment
  | [] => .ok env
  | line :: rest =>
    match envEntry line with
    | .error e => .error e
    | .ok none => loadLines env rest
    | .ok (some (key, value)) => loadLines (env.insert key value) rest

def loadEnvFile : Option Bytes → Except EnvFileError Environment
  | none => .ok .empty
  | some content =>
    match String.fromUTF8? content.toByteArray with
    | none => .error .notText
    | some text => loadLines .empty (lines text.toList)

def NoEntry (line : List Char) : Prop :=
  trimChars line ≠ [] ∧ (trimChars line).head? ≠ some '#' ∧ '=' ∉ line

def LoneQuote (line : List Char) : Prop :=
  trimChars line ≠ [] ∧ (trimChars line).head? ≠ some '#' ∧
    ∃ key value, splitAssignment (assignment (trimChars line)) = some (key, value) ∧
      (trimChars value = ['"'] ∨ trimChars value = ['\''])

def FailsOnlyWithoutEntry (file : Option Bytes) : Prop :=
  ∀ error, loadEnvFile file = .error error →
    ∃ content text line, file = some content ∧
      String.fromUTF8? content.toByteArray = some text ∧ line ∈ lines text.toList ∧
      NoEntry line ∧ error = .invalidEntry (trimChars line)

def QuotesPaired (file : Option Bytes) : Prop :=
  ∀ content, file = some content →
    ∃ text, String.fromUTF8? content.toByteArray = some text ∧
      ∀ before line behind, lines text.toList = before ++ line :: behind → LoneQuote line →
        ∃ other ∈ before, NoEntry other

theorem mem_trimChars {c : Char} (hc : isWhitespace c = false) :
    c ∈ trimChars text ↔ c ∈ text := by
  rw [trimChars, List.mem_reverse, mem_dropWhile_iff hc, List.mem_reverse, mem_dropWhile_iff hc]

theorem mem_stripAny {c : Char} {starts : List (List Char)} (hstarts : ∀ start ∈ starts, c ∉ start) : c ∈ stripAny starts text ↔ c ∈ text := by
  unfold stripAny
  cases hfind : starts.find? fun start => start.isPrefixOf text with
  | none => rfl
  | some start =>
    have hstart : start.isPrefixOf text = true :=
      List.find?_some (p := (List.isPrefixOf · text)) hfind
    obtain ⟨behind, rfl⟩ := List.isPrefixOf_iff_prefix.mp hstart
    have hnot := hstarts start (List.mem_of_find?_eq_some hfind)
    simp [hnot]

theorem equals_mem_assignment (line : List Char) :
    '=' ∈ assignment (trimChars line) ↔ '=' ∈ line := by
  rw [assignment, trimStart, mem_dropWhile_iff (by decide), mem_stripAny (by decide),
    mem_trimChars (by decide)]

theorem unquote_cases (value : List Char) :
    (unquote value = .error .panicked ∧ (value = ['"'] ∨ value = ['\''])) ∨
      ∃ inner, unquote value = .ok inner ∧ ¬(value = ['"'] ∨ value = ['\'']) := by
  unfold unquote
  match value with
  | [] => exact .inr ⟨[], by simp [Quoted], by simp⟩
  | [c] =>
    have hquoted : Quoted [c] '"' ∨ Quoted [c] '\'' ↔ [c] = ['"'] ∨ [c] = ['\''] := by
      simp [Quoted]
    by_cases hquote : [c] = ['"'] ∨ [c] = ['\'']
    · exact .inl ⟨by rw [if_pos (hquoted.mpr hquote)]; rfl, hquote⟩
    · exact .inr ⟨[c], if_neg fun h => hquote (hquoted.mp h), hquote⟩
  | c :: d :: rest =>
    refine .inr ?_
    split_ifs with hquoted hlength
    · exact absurd hlength (by simp)
    · exact ⟨_, rfl, by simp⟩
    · exact ⟨_, rfl, by simp⟩

theorem envEntry_cases (line : List Char) :
    (∃ entry, envEntry line = .ok entry ∧ ¬NoEntry line ∧ ¬LoneQuote line) ∨
      (envEntry line = .error (.invalidEntry (trimChars line)) ∧ NoEntry line ∧
        ¬LoneQuote line) ∨
      envEntry line = .error .panicked ∧ LoneQuote line ∧ ¬NoEntry line := by
  unfold envEntry
  by_cases hskip : trimChars line = [] ∨ (trimChars line).head? = some '#'
  · rw [if_pos hskip]
    exact .inl ⟨none, rfl, fun h => hskip.elim h.1 h.2.1, fun h => hskip.elim h.1 h.2.1⟩
  rw [if_neg hskip]
  obtain ⟨hblank, hcomment⟩ := not_or.mp hskip
  by_cases hequals : '=' ∈ line
  · have hentry : ¬NoEntry line := fun h => h.2.2 hequals
    obtain ⟨⟨key, value⟩, hsplit⟩ : ∃ parts, splitAssignment (assignment (trimChars line)) =
        some parts := ⟨_, if_pos ((equals_mem_assignment line).mpr hequals)⟩
    have hlone : LoneQuote line ↔ (trimChars value = ['"'] ∨ trimChars value = ['\'']) := by
      constructor
      · rintro ⟨-, -, key', value', hsplit', hquote⟩
        cases hsplit.symm.trans hsplit'
        exact hquote
      · exact fun h => ⟨hblank, hcomment, key, value, hsplit, h⟩
    rw [hsplit, hlone]
    rcases unquote_cases (trimChars value) with ⟨herror, hquote⟩ | ⟨inner, hok, hquote⟩
    · exact .inr (.inr ⟨by simp only [herror], hquote, hentry⟩)
    · simp only [hok]
      exact .inl ⟨_, rfl, hentry, hquote⟩
  · have hsplit : splitAssignment (assignment (trimChars line)) = none :=
      if_neg fun h => hequals ((equals_mem_assignment line).mp h)
    rw [hsplit]
    refine .inr (.inl ⟨rfl, ⟨hblank, hcomment, hequals⟩, ?_⟩)
    rintro ⟨-, -, key, value, hsome, -⟩
    cases hsplit.symm.trans hsome

theorem loadLines_cases (env : Environment) (text : List (List Char)) :
    ((∃ env', loadLines env text = .ok env') ∧ ∀ line ∈ text, ¬LoneQuote line) ∨
      ∃ before line behind, text = before ++ line :: behind ∧
        (∀ other ∈ before, ¬NoEntry other ∧ ¬LoneQuote other) ∧
        (loadLines env text = .error (.invalidEntry (trimChars line)) ∧ NoEntry line ∧
            ¬LoneQuote line ∨
          loadLines env text = .error .panicked ∧ LoneQuote line) := by
  induction text generalizing env with
  | nil => exact .inl ⟨⟨env, rfl⟩, nofun⟩
  | cons line text ih =>
    rcases envEntry_cases line with ⟨entry, hok, hentry, hlone⟩ | ⟨herror, hentry, hlone⟩ |
      ⟨herror, hlone, -⟩
    · obtain ⟨env', hload⟩ : ∃ env', loadLines env (line :: text) = loadLines env' text := by
        rcases entry with _ | ⟨key, value⟩
        · exact ⟨env, by simp only [loadLines, hok]⟩
        · exact ⟨env.insert key value, by simp only [loadLines, hok]⟩
      rw [hload]
      rcases ih env' with ⟨hread, hquotes⟩ | ⟨before, other, behind, htext, hbefore, hother⟩
      · exact .inl ⟨hread, List.forall_mem_cons.mpr ⟨hlone, hquotes⟩⟩
      · refine .inr ⟨line :: before, other, behind, congrArg (line :: ·) htext, ?_, hother⟩
        exact List.forall_mem_cons.mpr ⟨⟨hentry, hlone⟩, hbefore⟩
    · have hload : loadLines env (line :: text) = .error (.invalidEntry (trimChars line)) := by
        simp only [loadLines, herror]
      exact .inr ⟨[], line, text, rfl, nofun, .inl ⟨hload, hentry, hlone⟩⟩
    · have hload : loadLines env (line :: text) = .error .panicked := by
        simp only [loadLines, herror]
      exact .inr ⟨[], line, text, rfl, nofun, .inr ⟨hload, hlone⟩⟩

theorem failsOnly_iff_quotesPaired (file : Option Bytes) :
    FailsOnlyWithoutEntry file ↔ QuotesPaired file := by
  cases file with
  | none => exact iff_of_true nofun nofun
  | some content =>
    cases htext : String.fromUTF8? content.toByteArray with
    | none =>
      refine iff_of_false (fun h => ?_) fun h => ?_
      · obtain ⟨_, text, _, hcontent, hsome, -⟩ := h .notText (by simp only [loadEnvFile, htext])
        cases hcontent
        cases htext.symm.trans hsome
      · obtain ⟨text, hsome, -⟩ := h content rfl
        cases htext.symm.trans hsome
    | some text =>
      have hload : loadEnvFile (some content) = loadLines .empty (lines text.toList) := by
        simp only [loadEnvFile, htext]
      rcases loadLines_cases .empty (lines text.toList) with ⟨⟨env, hread⟩, hquotes⟩ |
        ⟨before, line, behind, hlines, hbefore, ⟨herror, hentry, hlone⟩ | ⟨herror, hlone⟩⟩
      · refine iff_of_true (fun error herror => ?_) fun _ hcontent => ?_
        · cases (hload.trans hread).symm.trans herror
        · cases hcontent
          refine ⟨text, htext, fun before line behind hsplit hlone => ?_⟩
          exact absurd hlone (hquotes line (hsplit ▸ by simp))
      · refine iff_of_true (fun error herror' => ?_) fun _ hcontent => ?_
        · cases (hload.trans herror).symm.trans herror'
          exact ⟨content, text, line, rfl, htext, hlines ▸ by simp, hentry, rfl⟩
        · cases hcontent
          refine ⟨text, htext, fun before' line' behind' hsplit hlone' => ?_⟩
          rcases List.append_eq_append_iff.mp (hlines.symm.trans hsplit) with
            ⟨between, hbefore', hbehind⟩ | ⟨between, hbefore', hbehind⟩
          · cases between with
            | nil => exact absurd ((List.cons.inj hbehind).1 ▸ hlone') hlone
            | cons other between =>
              obtain rfl := (List.cons.inj hbehind).1
              exact ⟨line, hbefore' ▸ by simp, hentry⟩
          · cases between with
            | nil => exact absurd ((List.cons.inj hbehind).1 ▸ hlone') hlone
            | cons other between =>
              obtain rfl := (List.cons.inj hbehind).1
              exact absurd hlone' (hbefore line' (hbefore' ▸ by simp)).2
      · refine iff_of_false (fun h => ?_) fun h => ?_
        · obtain ⟨_, _, _, -, -, -, -, herror'⟩ := h .panicked (hload.trans herror)
          cases herror'
        · obtain ⟨text', hsome, hbehind⟩ := h content rfl
          cases htext.symm.trans hsome
          obtain ⟨other, hother, hentry⟩ := hbehind before line behind hlines hlone
          exact (hbefore other hother).1 hentry

/-! ## Both -/

/-- A text is interpolated as it says exactly when no placeholder of a variable set to nothing by
the process has a default, and a file fails only for a line without entry exactly when it is text
with no lone quote before such a line. -/
theorem interpolation_exact_iff (process dotenv : Environment) {pieces : List Piece}
    (h : PiecesValid pieces) (file : Option Bytes) :
    (interpolateVariables process (projectEnvironment dotenv process) (render pieces) =
        substituted (projectEnvironment dotenv process) pieces ↔
      ∀ piece ∈ pieces, ¬piece.Overridden process) ∧
    (FailsOnlyWithoutEntry file ↔ QuotesPaired file) := by
  refine ⟨?_, failsOnly_iff_quotesPaired file⟩
  rw [interpolateVariables_render h]
  exact (flatMap_resolved dotenv process pieces).2

/-- A text with a placeholder that the process answers. -/
theorem interpolation_of_image :
    interpolateVariables (OrdMap.empty.insert "TAG" "v2")
        (projectEnvironment .empty (OrdMap.empty.insert "TAG" "v2"))
        (render [.literal ':', .placeholder "TAG".toList (some "latest".toList)]) =
      ":v2".toList := by
  have hpieces :
      PiecesValid [.literal ':', .placeholder "TAG".toList (some "latest".toList)] := by
    exact ⟨fun h => absurd h (by decide), by decide, by decide, by simp, trivial⟩
  refine ((interpolation_exact_iff (OrdMap.empty.insert "TAG" "v2") .empty hpieces none).1.mpr
    ?_).trans ?_
  · simp [Piece.Overridden, OrdMap.get_insert]
  · decide +kernel

/-- A variable set to nothing takes the place of the default, and a lone quote ends the program. -/
theorem default_lost_and_quote_panics :
    (interpolateVariables (OrdMap.empty.insert "TAG" "")
        (projectEnvironment .empty (OrdMap.empty.insert "TAG" ""))
        (render [.placeholder "TAG".toList (some "latest".toList)]) = [] ∧
      substituted (projectEnvironment .empty (OrdMap.empty.insert "TAG" ""))
        [.placeholder "TAG".toList (some "latest".toList)] = "latest".toList ∧
      PiecesValid [.placeholder "TAG".toList (some "latest".toList)]) ∧
    loadEnvFile (some "A=\"".toUTF8.toList) = .error .panicked := by
  have hpieces : PiecesValid [.placeholder "TAG".toList (some "latest".toList)] :=
    ⟨by decide, by decide, by simp, trivial⟩
  refine ⟨⟨?_, ?_, hpieces⟩, ?_⟩
  · rw [interpolateVariables_render hpieces]
    decide +kernel
  · decide +kernel
  · decide +kernel

end Ferrocrate.Compose
