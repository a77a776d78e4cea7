import Ferrocrate.Dockerfile.Glob
import Ferrocrate.Lib.Lines
import Mathlib

/-! Image references (`registry.rs`): how a text is split into a registry, a repository and a tag or
digest, and the canonical text of what comes out. -/
namespace Ferrocrate.Image
open Lib
open Dockerfile (utf8Length)

def rfind (c : Char) (text : List Char) : Option Nat :=
  if c ∈ text then some (text.length - 1 - text.reverse.idxOf c) else none

inductive ReferenceSeparator where
  | tag
  | digest

structure ImageReference where
  registry : List Char
  repository : List Char
  reference : List Char
  separator : ReferenceSeparator

inductive RegistryError where
  | invalidReference (reason : List Char)
deriving DecidableEq

def ReferenceSeparator.char : ReferenceSeparator → Char
  | .tag => ':'
  | .digest => '@'

def ImageReference.canonical (p : ImageReference) : List Char :=
  p.registry ++ '/' :: (p.repository ++ p.separator.char :: p.reference)

def splitReference (input : List Char) : List Char × List Char × ReferenceSeparator :=
  match rfind '@' input with
  | some position => (input.take position, input.drop (position + 1), .digest)
  | none =>
    match rfind ':' input with
    | some colon =>
      if (rfind '/' input).all (· < colon) then
        (input.take colon, input.drop (colon + 1), .tag)
      else (input, "latest".toList, .tag)
    | none => (input, "latest".toList, .tag)

def isRegistryComponent (component : List Char) : Bool :=
  '.' ∈ component || ':' ∈ component || component = "localhost".toList

def isLowerOrDigit (c : Char) : Bool := c.isLower || c.isDigit

def isValidRepoComponent (component : List Char) : Bool :=
  component.head?.any isLowerOrDigit && component.getLast?.any isLowerOrDigit &&
    component.all fun c => isLowerOrDigit c || c = '.' || c = '_' || c = '-'

def isValidRepository (repo : List Char) : Bool :=
  repo ≠ [] && (repo.splitOn '/').all isValidRepoComponent

def isValidTag (tag : List Char) : Bool :=
  tag ≠ [] && utf8Length tag ≤ 128 &&
    tag.all fun c => c.isAlphanum || c = '.' || c = '_' || c = '-'

def isAsciiHexdigit (c : Char) : Bool :=
  c.isDigit || ('a' ≤ c && c ≤ 'f') || ('A' ≤ c && c ≤ 'F')

def isValidDigest (digest : List Char) : Bool :=
  match digest.dropWhile (· ≠ ':') with
  | [] => false
  | _ :: value =>
    digest.takeWhile (· ≠ ':') = "sha256".toList && utf8Length value = 64 &&
      value.all isAsciiHexdigit

def isValidReference : ReferenceSeparator → List Char → Bool
  | .tag => isValidTag
  | .digest => isValidDigest

def invalidText : ReferenceSeparator → List Char
  | .tag => "invalid tag: ".toList
  | .digest => "invalid digest: ".toList

def isHubAlias (registry : List Char) : Bool :=
  registry = "docker.io".toList || registry = "index.docker.io".toList

def hubRegistry : List Char := "registry-1.docker.io".toList

def libraryRepository (repository : List Char) : List Char := "library/".toList ++ repository

def locate (parts : List (List Char)) : Option (List Char × List Char) :=
  match parts with
  | [] => none
  | first :: rest =>
    if isRegistryComponent first then
      if rest = [] then none
      else
        let repository := ['/'].intercalate rest
        if isHubAlias first then
          some (hubRegistry, if '/' ∈ repository then repository else libraryRepository repository)
        else some (first, repository)
    else if rest = [] then some (hubRegistry, libraryRepository first)
    else some (hubRegistry, ['/'].intercalate (first :: rest))

local instance lawfulBEq_chars : LawfulBEq (List Char) := inferInstance

def parseImageReference (input : List Char) : Except RegistryError ImageReference :=
  let raw := trimChars input
  if raw = [] then .error (.invalidReference "image reference is empty".toList)
  else
    let (namePart, reference, separator) := splitReference raw
    let parts := namePart.splitOn '/'
    if [] ∈ parts then .error (.invalidReference raw)
    else
      match locate parts with
      | none => .error (.invalidReference raw)
      | some (registry, repository) =>
        if !isValidRepository repository then
          .error (.invalidReference ("invalid repository name: ".toList ++ repository))
        else if !isValidReference separator reference then
          .error (.invalidReference (invalidText separator ++ reference))
        else .ok ⟨registry, repository, reference, separator⟩

def canonicalizeReference (reference : List Char) : Except RegistryError (List Char) :=
  (parseImageReference reference).map ImageReference.canonical

/-! ## The last separator -/

section LastSeparator
variable {c : Char} {text before behind : List Char} {position : Nat}

theorem rfind_append (hc : c ∉ behind) : rfind c (before ++ c :: behind) = some before.length := by
  have hmem : c ∈ before ++ c :: behind := by simp
  have hreverse : (before ++ c :: behind).reverse.idxOf c = behind.length := by
    rw [List.reverse_append, List.reverse_cons, List.append_assoc, List.singleton_append,
      List.idxOf_append_of_notMem (by simpa using hc), List.idxOf_cons_self, List.length_reverse,
      Nat.add_zero]
  rw [rfind, if_pos hmem, hreverse, List.length_append, List.length_cons]
  congr 1
  omega

theorem rfind_eq_none (hc : c ∉ text) : rfind c text = none := if_neg hc

theorem split_of_rfind (h : rfind c text = some position) :
    text = text.take position ++ c :: text.drop (position + 1) ∧ c ∉ text.drop (position + 1) ∧
      position < text.length := by
  have hmem : c ∈ text := by
    by_contra hc
    rw [rfind_eq_none hc] at h
    cases h
  obtain ⟨behind, before, hreverse, hbehind⟩ :=
    List.eq_append_cons_of_mem (List.mem_reverse.mpr hmem)
  have htext : text = before.reverse ++ c :: behind.reverse := by
    rw [← List.reverse_reverse text, hreverse]
    simp
  have hnot : c ∉ behind.reverse := by simpa using hbehind
  rw [htext, rfind_append hnot] at h
  obtain rfl := Option.some.inj h
  have htake : text.take before.reverse.length = before.reverse := by
    rw [htext, List.take_left]
  have hdrop : text.drop (before.reverse.length + 1) = behind.reverse := by
    rw [htext, ← List.drop_drop, List.drop_left, List.drop_one, List.tail_cons]
  rw [htake, hdrop]
  refine ⟨htext, hnot, ?_⟩
  rw [htext]
  simp

end LastSeparator

/-! ## The characters of valid parts -/

def IsNameChar (c : Char) : Prop := isWhitespace c = false ∧ c ≠ '@' ∧ c ≠ '/'

variable {c : Char}

theorem isNameChar_of_code (hlow : 33 ≤ c.toNat) (hhigh : c.toNat ≤ 126)
    (hat : c.toNat ≠ 64) (hslash : c.toNat ≠ 47) : IsNameChar c := by
  refine ⟨?_, fun h => hat (by rw [h]; rfl), fun h => hslash (by rw [h]; rfl)⟩
  simp only [isWhitespace, Bool.or_eq_false_iff, Bool.and_eq_false_iff, decide_eq_false_iff_not]
  omega

theorem isNameChar_punctuation (h : c = '.' ∨ c = '_' ∨ c = '-') :
    IsNameChar c ∧ c ≠ ':' := by
  rcases h with rfl | rfl | rfl
  · exact ⟨isNameChar_of_code (by decide) (by decide) (by decide) (by decide), by decide⟩
  · exact ⟨isNameChar_of_code (by decide) (by decide) (by decide) (by decide), by decide⟩
  · exact ⟨isNameChar_of_code (by decide) (by decide) (by decide) (by decide), by decide⟩

theorem code_of_isAlphanum (h : c.isAlphanum = true) :
    (48 ≤ c.toNat ∧ c.toNat ≤ 57) ∨ (65 ≤ c.toNat ∧ c.toNat ≤ 90) ∨
      (97 ≤ c.toNat ∧ c.toNat ≤ 122) := by
  simp only [Char.isAlphanum, Char.isAlpha, Char.isUpper, Char.isLower, Char.isDigit,
    Bool.or_eq_true, Bool.and_eq_true, decide_eq_true_eq, UInt32.le_iff_toNat_le] at h
  simp only [Char.toNat]
  rcases h with (h | h) | h
  · exact .inr (.inl h)
  · exact .inr (.inr h)
  · exact .inl h

theorem isNameChar_of_isAlphanum (h : c.isAlphanum = true) :
    IsNameChar c ∧ c ≠ ':' := by
  have hcode := code_of_isAlphanum h
  refine ⟨isNameChar_of_code (by omega) (by omega) (by omega) (by omega), fun heq => ?_⟩
  have hcolon : c.toNat = 58 := by
    rw [heq]
    rfl
  omega

theorem isAlphanum_of_isLowerOrDigit (h : isLowerOrDigit c = true) :
    c.isAlphanum = true := by
  simp only [isLowerOrDigit, Bool.or_eq_true] at h
  simp only [Char.isAlphanum, Char.isAlpha, Bool.or_eq_true]
  tauto

theorem isAlphanum_of_isAsciiHexdigit (h : isAsciiHexdigit c = true) :
    c.isAlphanum = true := by
  simp only [isAsciiHexdigit, Char.isAlphanum, Char.isAlpha, Char.isUpper, Char.isLower,
    Bool.or_eq_true, Bool.and_eq_true, decide_eq_true_eq, Char.le_def, UInt32.le_iff_toNat_le]
    at h ⊢
  rcases h with (h | ⟨hlow, hhigh⟩) | ⟨hlow, hhigh⟩
  · exact .inr h
  · exact .inl (.inr ⟨hlow, hhigh.trans (by decide)⟩)
  · exact .inl (.inl ⟨hlow, hhigh.trans (by decide)⟩)

theorem utf8Length_hex {hex : List Char} (h : hex.all isAsciiHexdigit = true) :
    utf8Length hex = hex.length := by
  have hone : ∀ c ∈ hex, c.utf8Size = 1 := by
    intro c hc
    have hcode := code_of_isAlphanum (isAlphanum_of_isAsciiHexdigit (List.all_eq_true.mp h c hc))
    rw [Char.utf8Size_eq_one_iff, UInt32.le_iff_toNat_le]
    change c.toNat ≤ 127
    omega
  rw [utf8Length, List.map_congr_left hone]
  simp

theorem isNameChar_of_mem_component {component : List Char}
    (h : isValidRepoComponent component = true) (hc : c ∈ component) :
    IsNameChar c ∧ c ≠ ':' := by
  simp only [isValidRepoComponent, Bool.and_eq_true, List.all_eq_true, Bool.or_eq_true,
    decide_eq_true_eq] at h
  rcases h.2 c hc with ((h | h) | h) | h
  · exact isNameChar_of_isAlphanum (isAlphanum_of_isLowerOrDigit h)
  · exact isNameChar_punctuation (.inl h)
  · exact isNameChar_punctuation (.inr (.inl h))
  · exact isNameChar_punctuation (.inr (.inr h))

theorem component_ne_nil {component : List Char} (h : isValidRepoComponent component = true) :
    component ≠ [] := by
  rintro rfl
  cases h

section Repository
variable {repository : List Char}

theorem isValidRepository_iff :
    isValidRepository repository = true ↔
      ∀ component ∈ repository.splitOn '/', isValidRepoComponent component = true := by
  simp only [isValidRepository, Bool.and_eq_true, List.all_eq_true, decide_eq_true_eq,
    and_iff_right_iff_imp]
  rintro h rfl
  exact absurd (h [] (by simp)) (by decide)

theorem nil_not_mem_components (h : isValidRepository repository = true) :
    [] ∉ repository.splitOn '/' :=
  fun hmem => component_ne_nil (isValidRepository_iff.mp h [] hmem) rfl

theorem exists_piece_of_mem {c separator : Char} {text : List Char} (hne : c ≠ separator)
    (hc : c ∈ text) : ∃ piece ∈ text.splitOn separator, c ∈ piece := by
  induction text with
  | nil => cases hc
  | cons x text ih =>
    rw [List.splitOn_cons_eq_if_modifyHead]
    split_ifs with hx
    · rcases List.mem_cons.mp hc with rfl | hc
      · exact absurd (beq_iff_eq.mp hx) hne
      · obtain ⟨piece, hpiece, hmem⟩ := ih hc
        exact ⟨piece, List.mem_cons_of_mem _ hpiece, hmem⟩
    · cases hpieces : text.splitOn separator with
      | nil => exact absurd hpieces (List.splitOn_ne_nil separator text)
      | cons first rest =>
        rw [List.modifyHead_cons]
        rw [hpieces] at ih
        rcases List.mem_cons.mp hc with rfl | hc
        · exact ⟨c :: first, List.mem_cons_self, List.mem_cons_self⟩
        · obtain ⟨piece, hpiece, hmem⟩ := ih hc
          rcases List.mem_cons.mp hpiece with rfl | hrest
          · exact ⟨x :: piece, List.mem_cons_self, List.mem_cons_of_mem _ hmem⟩
          · exact ⟨piece, List.mem_cons_of_mem _ hrest, hmem⟩

theorem ne_of_mem_repository (h : isValidRepository repository = true) {c : Char}
    (hc : c ∈ repository) : isWhitespace c = false ∧ c ≠ '@' ∧ c ≠ ':' := by
  by_cases hslash : c = '/'
  · subst hslash
    decide
  · obtain ⟨component, hcomponent, hc⟩ := exists_piece_of_mem hslash hc
    obtain ⟨⟨hblank, hat, -⟩, hcolon⟩ :=
      isNameChar_of_mem_component (isValidRepository_iff.mp h component hcomponent) hc
    exact ⟨hblank, hat, hcolon⟩

end Repository

theorem isNameChar_of_mem_tag {tag : List Char} (h : isValidTag tag = true)
    (hc : c ∈ tag) : IsNameChar c ∧ c ≠ ':' := by
  simp only [isValidTag, Bool.and_eq_true, List.all_eq_true, Bool.or_eq_true,
    decide_eq_true_eq] at h
  rcases h.2 c hc with ((h | h) | h) | h
  · exact isNameChar_of_isAlphanum h
  · exact isNameChar_punctuation (.inl h)
  · exact isNameChar_punctuation (.inr (.inl h))
  · exact isNameChar_punctuation (.inr (.inr h))

theorem isValidDigest_iff {digest : List Char} :
    isValidDigest digest = true ↔ ∃ value, digest = "sha256:".toList ++ value ∧
      utf8Length value = 64 ∧ value.all isAsciiHexdigit = true := by
  constructor
  · intro h
    rw [isValidDigest] at h
    have hsplit := List.takeWhile_append_dropWhile (p := (· ≠ ':')) (l := digest)
    cases hdrop : digest.dropWhile (· ≠ ':') with
    | nil =>
      rw [hdrop] at h
      cases h
    | cons separator value =>
      have hhead := List.head?_dropWhile_not (· ≠ ':') digest
      rw [hdrop] at h hhead
      have hseparator : separator = ':' := by simpa using hhead
      simp only [Bool.and_eq_true, decide_eq_true_eq] at h
      rw [h.1.1, hdrop, hseparator] at hsplit
      exact ⟨value, hsplit.symm, h.1.2, h.2⟩
  · rintro ⟨value, rfl, hlength, hhex⟩
    change (decide ("sha256".toList = "sha256".toList) && decide (utf8Length value = 64) &&
      value.all isAsciiHexdigit) = true
    simp [hlength, hhex]

theorem isNameChar_of_mem_digest {digest : List Char} (h : isValidDigest digest = true)
    (hc : c ∈ digest) : IsNameChar c := by
  obtain ⟨value, rfl, -, hhex⟩ := isValidDigest_iff.mp h
  rcases List.mem_append.mp hc with hc | hc
  · have hchars : ("sha256:".toList.all fun c => 33 ≤ c.toNat ∧ c.toNat ≤ 126 ∧ c.toNat ≠ 64 ∧
        c.toNat ≠ 47) = true := by decide
    obtain ⟨hlow, hhigh, hat, hslash⟩ := of_decide_eq_true (List.all_eq_true.mp hchars c hc)
    exact isNameChar_of_code hlow hhigh hat hslash
  · have hhex' := List.all_eq_true.mp hhex c hc
    exact (isNameChar_of_isAlphanum (isAlphanum_of_isAsciiHexdigit hhex')).1

/-! ## Splitting -/

section Splitting
variable {name reference registry repository raw : List Char} {separator : ReferenceSeparator}

theorem splitReference_digest (h : '@' ∉ reference) :
    splitReference (name ++ '@' :: reference) = (name, reference, .digest) := by
  rw [splitReference, rfind_append h]
  simp

theorem splitReference_tag (hname : '@' ∉ name)
    (h : '@' ∉ reference ∧ ':' ∉ reference ∧ '/' ∉ reference) :
    splitReference (name ++ ':' :: reference) = (name, reference, .tag) := by
  have hat : '@' ∉ name ++ ':' :: reference := by simp [hname, h.1]
  have hslash : (rfind '/' (name ++ ':' :: reference)).all (· < name.length) = true := by
    cases hfind : rfind '/' (name ++ ':' :: reference) with
    | none => rfl
    | some slash =>
      obtain ⟨hsplit, -, hlt⟩ := split_of_rfind hfind
      rw [Option.all_some, decide_eq_true_eq]
      by_contra hle
      have hget : (name ++ ':' :: reference)[slash]? = some '/' := by
        rw [hsplit, List.getElem?_append_right (by simp), List.length_take, min_eq_left hlt.le,
          Nat.sub_self, List.getElem?_cons_zero]
      rw [List.getElem?_append_right (not_lt.mp hle)] at hget
      have hmem := List.mem_of_getElem? hget
      simp [h.2.2] at hmem
  rw [splitReference, rfind_eq_none hat, rfind_append h.2.1]
  simp only [hslash, if_true]
  simp

theorem splitReference_latest (hat : '@' ∉ registry ++ '/' :: repository)
    (hcolon : ':' ∉ repository) :
    splitReference (registry ++ '/' :: repository) =
      (registry ++ '/' :: repository, "latest".toList, .tag) := by
  have hnot : ':' ∉ '/' :: repository := by simp [hcolon]
  rw [splitReference, rfind_eq_none hat]
  cases hfind : rfind ':' (registry ++ '/' :: repository) with
  | none => rfl
  | some colon =>
    obtain ⟨hsplit, -, hlt⟩ := split_of_rfind hfind
    have hcolonGet : (registry ++ '/' :: repository)[colon]? = some ':' := by
      rw [hsplit, List.getElem?_append_right (by simp), List.length_take, min_eq_left hlt.le,
        Nat.sub_self, List.getElem?_cons_zero]
    have hbefore : colon < registry.length := by
      by_contra hle
      rw [List.getElem?_append_right (not_lt.mp hle)] at hcolonGet
      exact hnot (List.mem_of_getElem? hcolonGet)
    cases hslash : rfind '/' (registry ++ '/' :: repository) with
    | none =>
      rw [rfind, if_pos (by simp)] at hslash
      cases hslash
    | some slash =>
      obtain ⟨-, hlast, -⟩ := split_of_rfind hslash
      have hbehind : registry.length ≤ slash := by
        by_contra hlt'
        apply hlast
        rw [List.drop_append_of_le_length (by omega)]
        simp
      have hfalse : Option.all (fun slash => decide (slash < colon)) (some slash) = false := by
        rw [Option.all_some, decide_eq_false_iff_not]
        omega
      simp only [hfalse, Bool.false_eq_true, if_false]

theorem splitReference_spec (h : splitReference raw = (name, reference, separator)) :
    name <+: raw ∧ (separator = .tag → '@' ∉ raw) := by
  unfold splitReference at h
  cases hat : rfind '@' raw with
  | some position =>
    rw [hat] at h
    cases h
    exact ⟨List.take_prefix position raw, fun h => by cases h⟩
  | none =>
    have hnot : '@' ∉ raw := by
      intro hmem
      rw [rfind, if_pos hmem] at hat
      cases hat
    rw [hat] at h
    cases hcolon : rfind ':' raw with
    | none =>
      rw [hcolon] at h
      cases h
      exact ⟨List.prefix_rfl, fun _ => hnot⟩
    | some colon =>
      simp only [hcolon] at h
      split_ifs at h
      · cases h
        exact ⟨List.take_prefix colon raw, fun _ => hnot⟩
      · cases h
        exact ⟨List.prefix_rfl, fun _ => hnot⟩

end Splitting

/-! ## Trimming -/

section Trimming
variable {text : List Char}

theorem trimChars_eq (text : List Char) :
    trimChars text = (text.dropWhile isWhitespace).rdropWhile isWhitespace := rfl

theorem head_trimChars {c : Char} (h : (trimChars text).head? = some c) :
    isWhitespace c = false := by
  obtain ⟨rest, hprefix⟩ := List.rdropWhile_prefix isWhitespace (text.dropWhile isWhitespace)
  rw [← trimChars_eq] at hprefix
  have hhead := List.head?_dropWhile_not isWhitespace text
  rw [← hprefix] at hhead
  cases htrim : trimChars text with
  | nil => simp [htrim] at h
  | cons d rest =>
    rw [htrim] at h hhead
    obtain rfl := Option.some.inj h
    simpa using hhead

theorem trimChars_eq_self (hhead : ∀ c, text.head? = some c → isWhitespace c = false)
    (hlast : ∀ c, text.getLast? = some c → isWhitespace c = false) : trimChars text = text := by
  have hstart : text.dropWhile isWhitespace = text := by
    cases text with
    | nil => rfl
    | cons c rest => exact List.dropWhile_cons_of_neg (by simp [hhead c rfl])
  rw [trimChars_eq, hstart, List.rdropWhile_eq_self_iff]
  intro hne
  rw [hlast _ (List.getLast?_eq_some_getLast hne)]
  exact Bool.false_ne_true

end Trimming

/-! ## Canonical references -/

structure ImageReference.WellFormed (p : ImageReference) : Prop where
  registry : isRegistryComponent p.registry = true
  single : '/' ∉ p.registry
  notAlias : isHubAlias p.registry = false
  start : ∀ c, p.registry.head? = some c → isWhitespace c = false
  unsigned : p.separator = .tag → '@' ∉ p.registry
  repository : isValidRepository p.repository = true
  reference : isValidReference p.separator p.reference = true

section Canonical
variable {s s' raw registry repository reference : List Char} {separator : ReferenceSeparator}
variable {parts : List (List Char)} {p p' : ImageReference}

theorem registry_ne_nil (h : isRegistryComponent registry = true) : registry ≠ [] := by
  rintro rfl
  cases h

theorem locate_registry (hregistry : isRegistryComponent registry = true)
    (hnotAlias : isHubAlias registry = false) :
    locate (registry :: repository.splitOn '/') = some (registry, repository) := by
  rw [locate, if_pos hregistry, if_neg (List.splitOn_ne_nil '/' repository)]
  simp only [hnotAlias, Bool.false_eq_true, if_false]
  rw [List.intercalate_splitOn]

theorem parse_of_split (htrim : trimChars raw = raw) (hne : raw ≠ [])
    (hsplit : splitReference raw = (registry ++ '/' :: repository, reference, separator))
    (hregistry : isRegistryComponent registry = true) (hsingle : '/' ∉ registry)
    (hnotAlias : isHubAlias registry = false) (hrepository : isValidRepository repository = true)
    (hreference : isValidReference separator reference = true) :
    parseImageReference raw = .ok ⟨registry, repository, reference, separator⟩ := by
  have hparts : (registry ++ '/' :: repository).splitOn '/' =
      registry :: repository.splitOn '/' :=
    List.splitOn_append_cons_self_of_not_mem hsingle repository
  have hnil : [] ∉ registry :: repository.splitOn '/' := by
    rw [List.mem_cons, not_or]
    exact ⟨(registry_ne_nil hregistry).symm, nil_not_mem_components hrepository⟩
  simp only [parseImageReference, htrim, if_neg hne, hsplit, hparts, if_neg hnil,
    locate_registry hregistry hnotAlias, hrepository, hreference, Bool.not_true,
    Bool.false_eq_true, if_false]

theorem isNameChar_of_mem_reference {c : Char} (h : isValidReference separator reference = true)
    (hc : c ∈ reference) : IsNameChar c := by
  cases separator with
  | tag => exact (isNameChar_of_mem_tag h hc).1
  | digest => exact isNameChar_of_mem_digest h hc

theorem reference_ne_nil (h : isValidReference separator reference = true) : reference ≠ [] := by
  rintro rfl
  cases separator with
  | tag => cases h
  | digest => cases h

theorem ImageReference.WellFormed.split (h : p.WellFormed) :
    splitReference p.canonical = (p.registry ++ '/' :: p.repository, p.reference, p.separator) := by
  have hreassoc : p.canonical =
      (p.registry ++ '/' :: p.repository) ++ p.separator.char :: p.reference := by
    simp [ImageReference.canonical]
  have hreference := h.reference
  have hunsigned := h.unsigned
  rw [hreassoc]
  cases hseparator : p.separator with
  | digest =>
    rw [hseparator] at hreference
    exact splitReference_digest fun hat => (isNameChar_of_mem_digest hreference hat).2.1 rfl
  | tag =>
    rw [hseparator] at hreference
    have hname : '@' ∉ p.registry ++ '/' :: p.repository := by
      rw [List.mem_append, List.mem_cons, not_or, not_or]
      exact ⟨hunsigned hseparator, by decide,
        fun hat => (ne_of_mem_repository h.repository hat).2.1 rfl⟩
    exact splitReference_tag hname
      ⟨fun hat => (isNameChar_of_mem_tag hreference hat).1.2.1 rfl,
        fun hcolon => (isNameChar_of_mem_tag hreference hcolon).2 rfl,
        fun hslash => (isNameChar_of_mem_tag hreference hslash).1.2.2 rfl⟩

theorem ImageReference.WellFormed.parse (h : p.WellFormed) :
    parseImageReference p.canonical = .ok p := by
  have hnil := registry_ne_nil h.registry
  have htrim : trimChars p.canonical = p.canonical := by
    apply trimChars_eq_self
    · intro c hc
      rw [ImageReference.canonical, List.head?_append_of_ne_nil _ hnil] at hc
      exact h.start c hc
    · intro c hc
      have hlast : p.canonical.getLast? = p.reference.getLast? := by
        rw [show p.canonical = (p.registry ++ '/' :: (p.repository ++ [p.separator.char])) ++
          p.reference by simp [ImageReference.canonical]]
        exact List.getLast?_append_of_ne_nil _ (reference_ne_nil h.reference)
      rw [hlast] at hc
      exact (isNameChar_of_mem_reference h.reference (List.mem_of_getLast? hc)).1
  have hne : p.canonical ≠ [] := by simp [ImageReference.canonical]
  exact parse_of_split htrim hne h.split h.registry h.single h.notAlias h.repository h.reference

theorem locate_spec (h : locate parts = some (registry, repository)) :
    isRegistryComponent registry = true ∧ isHubAlias registry = false ∧
      (registry = hubRegistry ∨ parts.head? = some registry) := by
  have hhub : isRegistryComponent hubRegistry = true ∧ isHubAlias hubRegistry = false := by decide
  cases parts with
  | nil => cases h
  | cons first rest =>
    simp only [locate] at h
    split_ifs at h with hfirst hrest halias
    · obtain ⟨rfl, -⟩ := Prod.mk.inj (Option.some.inj h)
      exact ⟨hhub.1, hhub.2, .inl rfl⟩
    · obtain ⟨rfl, -⟩ := Prod.mk.inj (Option.some.inj h)
      exact ⟨hhub.1, hhub.2, .inl rfl⟩
    · obtain ⟨rfl, -⟩ := Prod.mk.inj (Option.some.inj h)
      exact ⟨hfirst, by simpa using halias, .inr rfl⟩
    · obtain ⟨rfl, -⟩ := Prod.mk.inj (Option.some.inj h)
      exact ⟨hhub.1, hhub.2, .inl rfl⟩
    · obtain ⟨rfl, -⟩ := Prod.mk.inj (Option.some.inj h)
      exact ⟨hhub.1, hhub.2, .inl rfl⟩

theorem head_splitOn_append_cons {separator : Char} {text first : List Char}
    (h : (text.splitOn separator).head? = some first) : first <+: text := by
  obtain ⟨rest, hparts⟩ := List.head?_eq_some_iff.mp h
  have hjoin : [separator].intercalate (text.splitOn separator) = text :=
    List.intercalate_splitOn separator
  rw [hparts] at hjoin
  rw [← hjoin]
  cases rest with
  | nil => simp [List.intercalate]
  | cons second rest => simp [List.intercalate, List.intersperse]

theorem wellFormed_of_parse (h : parseImageReference s = .ok p) : p.WellFormed := by
  rcases hsplit : splitReference (trimChars s) with ⟨name, reference, separator⟩
  obtain ⟨hname, hunsigned⟩ := splitReference_spec hsplit
  simp only [parseImageReference, hsplit] at h
  have hempty : trimChars s ≠ [] := by
    intro hempty
    rw [if_pos hempty] at h
    cases h
  have hnil : [] ∉ name.splitOn '/' := by
    intro hnil
    rw [if_neg hempty, if_pos hnil] at h
    cases h
  rw [if_neg hempty, if_neg hnil] at h
  cases hlocate : locate (name.splitOn '/') with
  | none => simp [hlocate] at h
  | some located =>
    obtain ⟨registry, repository⟩ := located
    simp only [hlocate] at h
    split_ifs at h with hrepository hreference
    cases h
    obtain ⟨hregistry, hnotAlias, hwhich⟩ := locate_spec hlocate
    have hfirst : registry ≠ hubRegistry → registry <+: trimChars s ∧ '/' ∉ registry := by
      intro hne
      have hhead := hwhich.resolve_left hne
      exact ⟨(head_splitOn_append_cons hhead).trans hname,
        not_mem_splitOn (List.mem_of_mem_head? hhead)⟩
    exact
      { registry := hregistry
        single := by
          by_cases hhub : registry = hubRegistry
          · rw [hhub]
            change '/' ∉ hubRegistry
            decide
          · exact (hfirst hhub).2
        notAlias := hnotAlias
        start := fun c hc => by
          by_cases hhub : registry = hubRegistry
          · rw [hhub] at hc
            obtain rfl := Option.some.inj hc
            decide
          · obtain ⟨rest, heq⟩ := (hfirst hhub).1
            have hhead : (trimChars s).head? = some c := by
              rw [← heq, List.head?_append_of_ne_nil _ (registry_ne_nil hregistry)]
              exact hc
            exact head_trimChars hhead
        unsigned := fun htag hat => by
          by_cases hhub : registry = hubRegistry
          · rw [hhub] at hat
            exact absurd hat (by change '@' ∉ hubRegistry; decide)
          · exact hunsigned htag ((hfirst hhub).1.subset hat)
        repository := by simpa using hrepository
        reference := by simpa using hreference }

structure NamesRegistry (registry : List Char) : Prop where
  host : '.' ∈ registry ∨ ':' ∈ registry
  single : '/' ∉ registry
  unsigned : '@' ∉ registry
  trimmed : trimChars registry = registry
  notAlias : registry ≠ "docker.io".toList ∧ registry ≠ "index.docker.io".toList

theorem NamesRegistry.wellFormed (h : NamesRegistry registry)
    (hrepository : isValidRepository repository = true)
    (hreference : isValidReference separator reference = true) :
    ImageReference.WellFormed ⟨registry, repository, reference, separator⟩ where
  registry := by
    simp only [isRegistryComponent, Bool.or_eq_true, decide_eq_true_eq]
    exact .inl h.host
  single := h.single
  notAlias := by
    rw [isHubAlias, decide_eq_false h.notAlias.1, decide_eq_false h.notAlias.2, Bool.or_self]
  start := fun c hc => by
    rw [← h.trimmed] at hc
    exact head_trimChars hc
  unsigned := fun _ => h.unsigned
  repository := hrepository
  reference := hreference

theorem NamesRegistry.parse_latest (h : NamesRegistry registry)
    (hrepository : isValidRepository repository = true) :
    parseImageReference (registry ++ '/' :: repository) =
      .ok ⟨registry, repository, "latest".toList, .tag⟩ := by
  have hwell : ImageReference.WellFormed ⟨registry, repository, "latest".toList, .tag⟩ :=
    h.wellFormed hrepository (by decide)
  have hne : repository ≠ [] := by
    rintro rfl
    cases hrepository
  have htrim : trimChars (registry ++ '/' :: repository) = registry ++ '/' :: repository := by
    apply trimChars_eq_self
    · intro c hc
      rw [List.head?_append_of_ne_nil _ (registry_ne_nil hwell.registry)] at hc
      exact hwell.start c hc
    · intro c hc
      rw [List.append_cons, List.getLast?_append_of_ne_nil _ hne] at hc
      exact (ne_of_mem_repository hrepository (List.mem_of_getLast? hc)).1
  have hat : '@' ∉ registry ++ '/' :: repository := by
    rw [List.mem_append, List.mem_cons, not_or, not_or]
    exact ⟨h.unsigned, by decide, fun hat => (ne_of_mem_repository hrepository hat).2.1 rfl⟩
  have hcolon : ':' ∉ repository := fun hcolon => (ne_of_mem_repository hrepository hcolon).2.2 rfl
  exact parse_of_split htrim (by simp) (splitReference_latest hat hcolon) hwell.registry h.single
    hwell.notAlias hrepository hwell.reference

theorem canonicalize_eq_ok {c : List Char} :
    canonicalizeReference s = .ok c ↔ ∃ p, parseImageReference s = .ok p ∧ p.canonical = c := by
  rw [canonicalizeReference]
  cases parseImageReference s with
  | error e => simp [Except.map]
  | ok p => simp [Except.map]

/-- Parsing the canonical text of a reference gives that reference, so canonical texts are fixed and
tell references apart; and a text with a registry of its own parses to its parts. -/
theorem references_canonical :
    (∀ s p, parseImageReference s = .ok p → parseImageReference p.canonical = .ok p) ∧
      (∀ s c, canonicalizeReference s = .ok c → canonicalizeReference c = .ok c) ∧
      (∀ s s' p p', parseImageReference s = .ok p → parseImageReference s' = .ok p' →
        (p.canonical = p'.canonical ↔ p.registry = p'.registry ∧ p.repository = p'.repository ∧
          p.reference = p'.reference ∧ p.separator = p'.separator)) ∧
      ∀ registry repository, NamesRegistry registry → isValidRepository repository = true →
        parseImageReference (registry ++ '/' :: repository) =
            .ok ⟨registry, repository, "latest".toList, .tag⟩ ∧
          (∀ tag, isValidTag tag = true →
            parseImageReference (registry ++ '/' :: (repository ++ ':' :: tag)) =
              .ok ⟨registry, repository, tag, .tag⟩) ∧
          ∀ hex, hex.length = 64 → hex.all isAsciiHexdigit = true →
            parseImageReference
                (registry ++ '/' :: (repository ++ '@' :: ("sha256:".toList ++ hex))) =
              .ok ⟨registry, repository, "sha256:".toList ++ hex, .digest⟩ := by
  refine ⟨fun s p h => (wellFormed_of_parse h).parse, fun s c h => ?_, fun s s' p p' h h' => ?_,
    fun registry repository hnames hrepository => ⟨hnames.parse_latest hrepository,
      fun tag htag => ?_, fun hex hlength hhex => ?_⟩⟩
  · obtain ⟨p, hp, rfl⟩ := canonicalize_eq_ok.mp h
    exact canonicalize_eq_ok.mpr ⟨p, (wellFormed_of_parse hp).parse, rfl⟩
  · constructor
    · intro heq
      have hparse := (wellFormed_of_parse h).parse
      rw [heq, (wellFormed_of_parse h').parse] at hparse
      cases hparse
      exact ⟨rfl, rfl, rfl, rfl⟩
    · rintro ⟨hregistry, hrepository, hreference, hseparator⟩
      rw [ImageReference.canonical, ImageReference.canonical, hregistry, hrepository, hreference,
        hseparator]
  · have hwell : ImageReference.WellFormed ⟨registry, repository, tag, .tag⟩ :=
      hnames.wellFormed hrepository htag
    exact hwell.parse
  · have hdigest : isValidDigest ("sha256:".toList ++ hex) = true :=
      isValidDigest_iff.mpr ⟨hex, rfl, by rw [utf8Length_hex hhex, hlength], hhex⟩
    have hwell : ImageReference.WellFormed
        ⟨registry, repository, "sha256:".toList ++ hex, .digest⟩ :=
      hnames.wellFormed hrepository hdigest
    exact hwell.parse

end Canonical

end Ferrocrate.Image
