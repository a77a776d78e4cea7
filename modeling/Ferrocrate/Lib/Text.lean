import Mathlib.Data.List.Basic
import Mathlib.Data.UInt

/-! Texts as the standard library of the source reads them. -/
namespace Ferrocrate.Lib

def isWhitespace (c : Char) : Bool :=
  (9 ≤ c.toNat && c.toNat ≤ 13) || c.toNat = 0x20 || c.toNat = 0x85 || c.toNat = 0xa0
    || c.toNat = 0x1680 || (0x2000 ≤ c.toNat && c.toNat ≤ 0x200a) || c.toNat = 0x2028
    || c.toNat = 0x2029 || c.toNat = 0x202f || c.toNat = 0x205f || c.toNat = 0x3000

def isBlank (value : String) : Bool := value.toList.all isWhitespace

def parseDigits (text : List Char) : Option Nat :=
  if text ≠ [] ∧ text.all Char.isDigit then
    some (text.foldl (fun n c => 10 * n + (c.toNat - '0'.toNat)) 0)
  else none

def splitWhitespace (text : String) : List String :=
  ((text.toList.splitOnP isWhitespace).filter (· ≠ [])).map String.ofList

def stripPrefix (start text : String) : Option String :=
  if start.toList.isPrefixOf text.toList then some (String.ofList (text.toList.drop start.length))
  else none

def startsWith (start text : String) : Bool := start.toList.isPrefixOf text.toList

def trimStartMatches (start text : String) : String :=
  (List.range text.length).foldl (fun text _ => (stripPrefix start text).getD text) text

def trimMatches (p : Char → Bool) (text : String) : String :=
  String.ofList (((text.toList.dropWhile p).reverse.dropWhile p).reverse)

def trimText (text : String) : String := trimMatches isWhitespace text

def splitOnce (at_ : Char) (text : String) : Option (String × String) :=
  if text.toList.contains at_ then
    some (String.ofList (text.toList.takeWhile (· ≠ at_)),
      String.ofList ((text.toList.dropWhile (· ≠ at_)).drop 1))
  else none

def parseUnsigned (bits : Nat) (text : String) : Option Nat :=
  let digits := match text.toList with
    | '+' :: rest => rest
    | chars => chars
  (parseDigits digits).filter fun n => n < 2 ^ bits

def parseU32 (text : String) : Option UInt32 := (parseUnsigned 32 text).map UInt32.ofNat

def parseUsize (text : String) : Option Nat := parseUnsigned 64 text

theorem toString_injective : Function.Injective fun n : Nat => toString n := by
  intro m n h
  have hdigits : Nat.toDigits 10 m = Nat.toDigits 10 n := by
    rw [← Nat.toList_repr, ← Nat.toList_repr]
    exact congrArg String.toList h
  rw [← Nat.ofDigitChars_toDigits (b := 10) (n := m) (by decide) (by decide), hdigits,
    Nat.ofDigitChars_toDigits (by decide) (by decide)]

theorem isDigit_of_mem_toString {n : Nat} {c : Char} (h : c ∈ (toString n).toList) :
    c.isDigit = true := by
  have hmem : c ∈ Nat.toDigits 10 n := by
    rw [← Nat.toList_repr]
    exact h
  exact Nat.isDigit_of_mem_toDigits (by decide) (by decide) hmem

theorem append_separator_inj {α : Type} {c : α} {a b x y : List α} (ha : c ∉ a) (hb : c ∉ b)
    (h : a ++ c :: x = b ++ c :: y) : a = b ∧ x = y := by
  induction a generalizing b with
  | nil =>
    cases b with
    | nil => exact ⟨rfl, (List.cons.inj h).2⟩
    | cons d b => exact absurd ((List.cons.inj h).1 ▸ List.mem_cons_self) hb
  | cons d a ih =>
    cases b with
    | nil => exact absurd ((List.cons.inj h).1 ▸ List.mem_cons_self) ha
    | cons e b =>
      obtain ⟨rfl, htail⟩ := List.cons.inj h
      obtain ⟨rfl, hxy⟩ := ih (fun hc => ha (List.mem_cons_of_mem _ hc))
        (fun hc => hb (List.mem_cons_of_mem _ hc)) htail
      exact ⟨rfl, hxy⟩

/-! Numbers between marks can be read off a text. -/

theorem notMem_toDigits {c : Char} (hc : c.isDigit = false) (n : Nat) :
    c ∉ Nat.toDigits 10 n := by
  intro h
  have := Nat.isDigit_of_mem_toDigits (by omega) (by omega) h
  simp [hc] at this

theorem toDigits_inj {m n : Nat} (h : Nat.toDigits 10 m = Nat.toDigits 10 n) : m = n := by
  have hparsed := congrArg (fun digits => Nat.ofDigitChars 10 digits 0) h
  simpa using hparsed

theorem append_cons_inj_last {α : Type} {mark : α} {a b s t : List α} (hs : mark ∉ s)
    (ht : mark ∉ t) (h : a ++ mark :: s = b ++ mark :: t) : a = b ∧ s = t := by
  induction a generalizing b with
  | nil =>
    cases b with
    | nil => exact ⟨rfl, (List.cons.inj h).2⟩
    | cons c b => exact absurd ((List.cons.inj h).2 ▸ by simp) hs
  | cons c a ih =>
    cases b with
    | nil => exact absurd ((List.cons.inj h).2 ▸ by simp) ht
    | cons d b =>
      obtain ⟨hcd, hrest⟩ := List.cons.inj h
      obtain ⟨hab, hst⟩ := ih hrest
      exact ⟨by rw [hcd, hab], hst⟩

end Ferrocrate.Lib
