import Ferrocrate.Ebpf.NetworkConfig
import Ferrocrate.Lib.Loops
import Mathlib.Data.List.TakeWhile
import Mathlib.Data.Nat.Digits.Defs

/-! The proof that a SNAT range is reserved, from the text of `ip_local_reserved_ports`. -/
namespace Ferrocrate.Ebpf
open Lib

/-! ## The sweep over the intervals -/

theorem covers_iff {rangeEnd next : Nat} (hnext : next ≤ rangeEnd)
    {intervals : List (UInt16 × UInt16)} (hsorted : intervals.Pairwise fun a b => a.1 ≤ b.1) :
    covers rangeEnd next intervals = true ↔
      ∀ port, next ≤ port → port ≤ rangeEnd →
        ∃ i ∈ intervals, i.1.toNat ≤ port ∧ port ≤ i.2.toNat := by
  induction intervals generalizing next with
  | nil =>
    refine iff_of_false nofun fun h => ?_
    obtain ⟨_, hmem, -⟩ := h next le_rfl hnext
    cases hmem
  | cons i rest ih =>
    obtain ⟨first, last⟩ := i
    obtain ⟨hfirst, hrest⟩ := List.pairwise_cons.mp hsorted
    simp only [covers, List.exists_mem_cons_iff]
    split_ifs with hbelow hgap hend
    · -- the interval ends before `next`
      rw [ih hnext hrest]
      refine forall₃_congr fun port hport _ => (or_iff_right fun hin => ?_).symm
      omega
    · -- no interval holds `next`, for all the others start as late
      refine iff_of_false nofun fun h => ?_
      rcases h next le_rfl hnext with hin | ⟨i, hmem, hin⟩
      · omega
      · have hle : first.toNat ≤ i.1.toNat := UInt16.le_iff_toNat_le.mp (hfirst i hmem)
        omega
    · exact iff_of_true rfl fun port _ _ => .inl ⟨by omega, by omega⟩
    · rw [ih (by omega) hrest]
      constructor
      · intro h port _ hport
        rcases Nat.lt_or_ge last.toNat port with hlast | hlast
        · exact .inr (h port (by omega) hport)
        · exact .inl ⟨by omega, hlast⟩
      · intro h port hlast hport
        exact (h port (by omega) hport).resolve_left (by omega)

/-! ## The tokens -/

def reservedTokens (contents : String) : List (List Char) :=
  ((contents.toList.splitOn ',').map trim).filter (· ≠ [])

def decimal (digits : List Char) : Nat :=
  Nat.ofDigits 10 (digits.reverse.map fun digit => digit.toNat - 48)

structure Numeral (text : List Char) (port : Nat) : Prop where
  reads : ∃ digits, (trim text = digits ∨ trim text = '+' :: digits) ∧ digits ≠ [] ∧
    (∀ digit ∈ digits, digit.isDigit = true) ∧ decimal digits = port
  pos : 1 ≤ port
  le : port ≤ 65535

inductive Lists : List Char → Nat → Nat → Prop
  | port {token : List Char} {port : Nat} : '-' ∉ token → Numeral token port →
    Lists token port port
  | range {a b : List Char} {first last : Nat} : '-' ∉ a → Numeral a first → Numeral b last →
    first ≤ last → Lists (a ++ '-' :: b) first last

variable {blank text : List Char}

theorem trim_append_left (h : ∀ c ∈ blank, isWhitespace c = true) :
    trim (blank ++ text) = trim text := by
  rw [trim, List.dropWhile_append_of_pos h, trim]

theorem trim_append_right (h : ∀ c ∈ blank, isWhitespace c = true) :
    trim (text ++ blank) = trim text := by
  unfold trim
  rw [List.dropWhile_append]
  split_ifs with hempty
  · rw [List.isEmpty_iff.mp hempty, List.dropWhile_eq_nil_iff.mpr h]
  · rw [List.reverse_append,
      List.dropWhile_append_of_pos fun c hc => h c (List.mem_reverse.mp hc)]

theorem exists_trim (text : List Char) : ∃ before after, (∀ c ∈ before, isWhitespace c = true) ∧
    (∀ c ∈ after, isWhitespace c = true) ∧ text = before ++ (trim text ++ after) := by
  refine ⟨text.takeWhile isWhitespace,
    ((text.dropWhile isWhitespace).reverse.takeWhile isWhitespace).reverse,
    fun c hc => List.mem_takeWhile_imp hc,
    fun c hc => List.mem_takeWhile_imp (List.mem_reverse.mp hc), ?_⟩
  rw [trim, ← List.reverse_append, List.takeWhile_append_dropWhile, List.reverse_reverse,
    List.takeWhile_append_dropWhile]

variable {blank : List Char}

theorem splitOnP_of_blank (h : ∀ c ∈ blank, isWhitespace c = true) :
    blank.splitOnP (· == ',') = [blank] := by
  refine List.splitOnP_eq_singleton fun c hc => beq_false_of_ne fun heq => ?_
  rw [heq] at hc
  exact absurd (h _ hc) (by decide)

theorem map_trim_splitOn_append_left
    (h : ∀ c ∈ blank, isWhitespace c = true) (text : List Char) :
    ((blank ++ text).splitOn ',').map trim = (text.splitOn ',').map trim := by
  have hsplit : (blank ++ text).splitOnP (· == ',') =
      (text.splitOnP (· == ',')).modifyHead (blank ++ ·) := by
    induction blank with
    | nil => rw [List.nil_append]; cases text.splitOnP (· == ',') <;> rfl
    | cons c blank ih =>
      have hcomma : ¬(c == ',') = true := fun heq => by
        rw [eq_of_beq heq] at h
        exact absurd (h ',' List.mem_cons_self) (by decide)
      rw [List.cons_append, List.splitOnP_cons_eq_if_modifyHead, if_neg hcomma,
        ih fun c hc => h c (List.mem_cons_of_mem _ hc), List.modifyHead_modifyHead]
      rfl
  rw [List.splitOn_eq_splitOnP, List.splitOn_eq_splitOnP, hsplit]
  cases text.splitOnP (· == ',') with
  | nil => rfl
  | cons token tokens =>
    rw [List.modifyHead_cons, List.map_cons, trim_append_left h, List.map_cons]

theorem splitOnP_append_blank (h : ∀ c ∈ blank, isWhitespace c = true)
    (text : List Char) : ∃ tokens last, text.splitOnP (· == ',') = tokens ++ [last] ∧
      (text ++ blank).splitOnP (· == ',') = tokens ++ [last ++ blank] := by
  induction text with
  | nil => exact ⟨[], [], rfl, splitOnP_of_blank h⟩
  | cons c text ih =>
    obtain ⟨tokens, last, htext, hblank⟩ := ih
    rw [List.cons_append, List.splitOnP_cons_eq_if_modifyHead,
      List.splitOnP_cons_eq_if_modifyHead, htext, hblank]
    split_ifs
    · exact ⟨[] :: tokens, last, rfl, rfl⟩
    · cases tokens with
      | nil => exact ⟨[], c :: last, rfl, rfl⟩
      | cons token tokens => exact ⟨(c :: token) :: tokens, last, rfl, rfl⟩

theorem map_trim_splitOn_append_right
    (h : ∀ c ∈ blank, isWhitespace c = true) (text : List Char) :
    ((text ++ blank).splitOn ',').map trim = (text.splitOn ',').map trim := by
  obtain ⟨tokens, last, htext, hblank⟩ := splitOnP_append_blank h text
  rw [List.splitOn_eq_splitOnP, List.splitOn_eq_splitOnP, htext, hblank, List.map_append,
    List.map_append, List.map_singleton, List.map_singleton, trim_append_right h]

theorem reservedTokens_eq (contents : String) :
    reservedTokens contents =
      (((trim contents.toList).splitOn ',').map trim).filter (· ≠ []) := by
  obtain ⟨before, after, hbefore, hafter, htext⟩ := exists_trim contents.toList
  rw [reservedTokens]
  conv_lhs => rw [htext]
  rw [map_trim_splitOn_append_left hbefore, map_trim_splitOn_append_right hafter]

/-! ## Ports and ranges -/

theorem decimal_eq_foldl (digits : List Char) :
    digits.foldl (fun value digit => 10 * value + (digit.toNat - 48)) 0 = decimal digits := by
  rw [decimal, Nat.ofDigits_eq_foldr, List.foldr_map, List.foldr_reverse]
  congr 1
  funext value digit
  exact Nat.add_comm _ _

def DigitsOf (digits : List Char) (value : Nat) : Prop :=
  digits ≠ [] ∧ (∀ digit ∈ digits, digit.isDigit = true) ∧ decimal digits = value

variable {port : UInt16}

theorem parseDigits_eq_some {digits : List Char} :
    (if digits = [] ∨ !digits.all Char.isDigit then none
      else if decimal digits < 65536 then some (UInt16.ofNat (decimal digits)) else none)
        = some port ↔ DigitsOf digits port.toNat := by
  unfold DigitsOf
  split_ifs with hinvalid hlt
  · refine iff_of_false nofun fun ⟨hne, hdigits, _⟩ => ?_
    rcases hinvalid with hnil | hall
    · exact hne hnil
    · rw [List.all_eq_true.mpr hdigits] at hall
      cases hall
  · simp only [not_or, Bool.not_eq_true', Bool.not_eq_false, List.all_eq_true] at hinvalid
    rw [Option.some.injEq]
    constructor
    · rintro rfl
      exact ⟨hinvalid.1, hinvalid.2, (UInt16.toNat_ofNat_of_lt hlt).symm⟩
    · rintro ⟨-, -, hvalue⟩
      rw [hvalue, UInt16.ofNat_toNat]
  · refine iff_of_false nofun fun ⟨_, _, hvalue⟩ => hlt ?_
    rw [hvalue]
    exact port.toNat_lt

theorem parseU16_eq_some {text : List Char} :
    parseU16 text = some port ↔
      ∃ digits, (text = digits ∨ text = '+' :: digits) ∧ DigitsOf digits port.toNat := by
  have hplus (rest : List Char) : ¬DigitsOf ('+' :: rest) port.toNat := fun h =>
    absurd (h.2.1 '+' List.mem_cons_self) (by decide)
  unfold parseU16
  simp only [decimal_eq_foldl, parseDigits_eq_some]
  split
  · rename_i rest
    constructor
    · exact fun h => ⟨rest, .inr rfl, h⟩
    · rintro ⟨digits, rfl | heq, h⟩
      · exact (hplus _ h).elim
      · cases heq
        exact h
  · rename_i hne
    constructor
    · exact fun h => ⟨text, .inl rfl, h⟩
    · rintro ⟨digits, rfl | rfl, h⟩
      · exact h
      · exact (hne _ rfl).elim

theorem parsePort_eq_ok {value token : List Char} :
    parsePort value token = .ok port ↔ Numeral value port.toNat := by
  have hpos : port ≠ 0 ↔ 1 ≤ port.toNat := by
    rw [Nat.one_le_iff_ne_zero, ne_eq, ne_eq, ← UInt16.toNat_inj]
    rfl
  have hle : port.toNat ≤ 65535 := Nat.le_of_lt_succ port.toNat_lt
  have hfilter : parsePort value token = .ok port ↔
      (parseU16 (trim value)).filter (· ≠ 0) = some port := by
    unfold parsePort
    cases (parseU16 (trim value)).filter (· ≠ 0) with
    | none => exact iff_of_false nofun nofun
    | some found => rw [Except.ok.injEq, Option.some.injEq]
  rw [hfilter, Option.filter_eq_some_iff, parseU16_eq_some, decide_eq_true_eq, hpos]
  constructor
  · rintro ⟨hreads, h⟩
    exact ⟨hreads, h, hle⟩
  · rintro ⟨hreads, h, -⟩
    exact ⟨hreads, h⟩

theorem splitOnce_append {a b : List Char} (ha : '-' ∉ a) :
    splitOnce (a ++ '-' :: b) = some (a, b) := by
  have hall : ∀ c ∈ a, (decide (c ≠ '-')) = true := fun c hc =>
    decide_eq_true fun heq => ha (heq ▸ hc)
  rw [splitOnce, if_pos (by simp), List.takeWhile_append_of_pos hall,
    List.dropWhile_append_of_pos hall]
  simp

theorem splitOnce_eq_some {token a b : List Char} (h : splitOnce token = some (a, b)) :
    '-' ∉ a ∧ token = a ++ '-' :: b := by
  unfold splitOnce at h
  split_ifs at h with hmem
  cases h
  refine ⟨fun hin => ?_, ?_⟩
  · simpa using List.mem_takeWhile_imp hin
  · obtain ⟨c, rest, hrest⟩ : ∃ c rest, token.dropWhile (· ≠ '-') = c :: rest := by
      refine List.exists_cons_of_ne_nil fun hnil => ?_
      simpa using List.dropWhile_eq_nil_iff.mp hnil '-' hmem
    have hdash : c = '-' := by
      have hhead := List.head_dropWhile_not (fun c : Char => decide (c ≠ '-')) (l := token)
        (by rw [hrest]; exact List.cons_ne_nil c rest)
      simp only [hrest, List.head_cons] at hhead
      simpa using hhead
    conv_lhs => rw [← List.takeWhile_append_dropWhile (p := (· ≠ '-')) (l := token), hrest, hdash]
    rw [hrest, List.tail_cons]

variable {token : List Char}

theorem splitOnce_eq_none (h : splitOnce token = none) : '-' ∉ token := by
  unfold splitOnce at h
  split_ifs at h with hmem
  exact hmem

theorem parseInterval_eq_ok {first last : UInt16} :
    parseInterval token = .ok (first, last) ↔ Lists token first.toNat last.toNat := by
  have hordered {first last first' last' : UInt16} :
      (if last < first then Except.error (EbpfError.reservedPortsInvalid (String.ofList token))
        else pure (first, last)) = .ok (first', last') ↔
      first = first' ∧ last = last' ∧ first'.toNat ≤ last'.toNat := by
    split_ifs with hlt
    · refine iff_of_false nofun ?_
      rintro ⟨rfl, rfl, hle⟩
      exact absurd (UInt16.lt_iff_toNat_lt.mp hlt) (Nat.not_lt.mpr hle)
    · have hle : first.toNat ≤ last.toNat :=
        Nat.not_lt.mp fun h => hlt (UInt16.lt_iff_toNat_lt.mpr h)
      constructor
      · rintro ⟨⟩
        exact ⟨rfl, rfl, hle⟩
      · rintro ⟨rfl, rfl, _⟩
        rfl
  unfold parseInterval
  cases hsplit : splitOnce token with
  | none =>
    have hdash := splitOnce_eq_none hsplit
    simp only [Except.bind_eq_ok, Prod.exists]
    constructor
    · rintro ⟨port, hport, _, _, hpair, horder⟩
      cases hpair
      obtain ⟨rfl, rfl, -⟩ := hordered.mp horder
      exact .port hdash (parsePort_eq_ok.mp hport)
    · intro h
      generalize hfirst : first.toNat = m at h
      generalize hlast : last.toNat = n at h
      cases h with
      | port _ hnumeral =>
        obtain rfl : first = last := UInt16.toNat_inj.mp (hfirst.trans hlast.symm)
        exact ⟨first, parsePort_eq_ok.mpr (hfirst ▸ hnumeral), first, first, rfl,
          hordered.mpr ⟨rfl, rfl, le_rfl⟩⟩
      | range _ _ _ _ => simp at hdash
  | some parts =>
    obtain ⟨a, b⟩ := parts
    obtain ⟨hdash, rfl⟩ := splitOnce_eq_some hsplit
    simp only [Except.bind_eq_ok, Prod.exists]
    constructor
    · rintro ⟨port, hport, port', hport', _, _, hpair, horder⟩
      cases hpair
      obtain ⟨rfl, rfl, hle⟩ := hordered.mp horder
      exact .range hdash (parsePort_eq_ok.mp hport) (parsePort_eq_ok.mp hport') hle
    · intro h
      generalize htoken : a ++ '-' :: b = token at h
      generalize hfirst : first.toNat = m at h
      generalize hlast : last.toNat = n at h
      cases h with
      | port hnone _ => simp [← htoken] at hnone
      | @range a' b' _ _ hdash' ha hb hle =>
        obtain ⟨rfl, rfl⟩ : a = a' ∧ b = b' := by
          have hparts := splitOnce_append (b := b) hdash
          rw [htoken, splitOnce_append hdash'] at hparts
          cases hparts
          exact ⟨rfl, rfl⟩
        exact ⟨first, parsePort_eq_ok.mpr (hfirst ▸ ha), last,
          parsePort_eq_ok.mpr (hlast ▸ hb), first, last, rfl,
          hordered.mpr ⟨rfl, rfl, by rw [hfirst, hlast]; exact hle⟩⟩

theorem Lists.bounds {first last : Nat} (h : Lists token first last) :
    1 ≤ first ∧ first ≤ last ∧ last ≤ 65535 := by
  cases h with
  | port _ hnumeral => exact ⟨hnumeral.pos, le_rfl, hnumeral.le⟩
  | range _ hfirst hlast hle => exact ⟨hfirst.pos, hle, hlast.le⟩

theorem Lists.exists_parsed {first last : Nat} (h : Lists token first last) :
    ∃ i, parseInterval token = .ok i ∧ i.1.toNat = first ∧ i.2.toNat = last := by
  obtain ⟨-, hle, hlast⟩ := h.bounds
  have hfirst' : (UInt16.ofNat first).toNat = first :=
    UInt16.toNat_ofNat_of_lt (Nat.lt_succ_of_le (hle.trans hlast))
  have hlast' : (UInt16.ofNat last).toNat = last :=
    UInt16.toNat_ofNat_of_lt (Nat.lt_succ_of_le hlast)
  refine ⟨(.ofNat first, .ofNat last), parseInterval_eq_ok.mpr ?_, hfirst', hlast'⟩
  rw [hfirst', hlast']
  exact h

theorem insertionSort_by_first (intervals : List (UInt16 × UInt16)) :
    (intervals.insertionSort fun a b => a.1 < b.1 ∨ a.1 = b.1 ∧ a.2 ≤ b.2).Pairwise
      fun a b => a.1 ≤ b.1 := by
  have htotal : Std.Total fun a b : UInt16 × UInt16 => a.1 < b.1 ∨ a.1 = b.1 ∧ a.2 ≤ b.2 := by
    refine ⟨fun a b => ?_⟩
    simp only [UInt16.lt_iff_toNat_lt, UInt16.le_iff_toNat_le, ← UInt16.toNat_inj]
    omega
  have htrans : IsTrans (UInt16 × UInt16)
      fun a b => a.1 < b.1 ∨ a.1 = b.1 ∧ a.2 ≤ b.2 := by
    refine ⟨fun a b c hab hbc => ?_⟩
    simp only [UInt16.lt_iff_toNat_lt, UInt16.le_iff_toNat_le, ← UInt16.toNat_inj] at hab hbc ⊢
    omega
  refine (List.pairwise_insertionSort _ intervals).imp fun {a b} h => ?_
  rcases h with hlt | ⟨heq, -⟩
  · exact UInt16.le_of_lt hlt
  · exact UInt16.le_of_eq heq

/-- The reserved-port proof is exact: it succeeds exactly when every token is a port or a range of
ports, and every port of the SNAT range is listed by one of them. -/
theorem proveReservedRange_exact (contents : String) (rangeStart rangeEnd : UInt16)
    (hrange : rangeStart ≤ rangeEnd) :
    proveReservedRange contents rangeStart rangeEnd = .ok () ↔
      (∀ token ∈ reservedTokens contents, ∃ first last, Lists token first last) ∧
      ∀ port, rangeStart.toNat ≤ port → port ≤ rangeEnd.toNat →
        ∃ token ∈ reservedTokens contents, ∃ first last, Lists token first last ∧
          first ≤ port ∧ port ≤ last := by
  have hreads : (∀ token ∈ reservedTokens contents, ∃ first last, Lists token first last) ↔
      ∃ intervals, (reservedTokens contents).mapM parseInterval = .ok intervals := by
    rw [Except.mapM_ok_iff]
    refine forall₂_congr fun token _ => ⟨?_, ?_⟩
    · rintro ⟨_, _, h⟩
      obtain ⟨i, hi, -⟩ := h.exists_parsed
      exact ⟨i, hi⟩
    · rintro ⟨i, hi⟩
      exact ⟨_, _, parseInterval_eq_ok.mp hi⟩
  unfold proveReservedRange
  simp only
  rw [← reservedTokens_eq, hreads]
  cases hparsed : (reservedTokens contents).mapM parseInterval with
  | error e => exact iff_of_false nofun fun ⟨⟨_, hok⟩, _⟩ => nomatch hok
  | ok intervals =>
    have hlisted (port : Nat) : (∃ token ∈ reservedTokens contents, ∃ first last,
        Lists token first last ∧ first ≤ port ∧ port ≤ last) ↔
        ∃ i ∈ intervals, i.1.toNat ≤ port ∧ port ≤ i.2.toNat := by
      constructor
      · rintro ⟨token, hmem, first, last, h, hfirst, hlast⟩
        obtain ⟨i, hi, rfl, rfl⟩ := h.exists_parsed
        obtain ⟨j, hj, hparse⟩ := forall₂_mem_left (Except.mapM_eq_ok hparsed) hmem
        obtain rfl : i = j := Except.ok.inj (hi.symm.trans hparse)
        exact ⟨i, hj, hfirst, hlast⟩
      · rintro ⟨i, hi, hfirst, hlast⟩
        obtain ⟨token, hmem, hparse⟩ := Except.exists_of_mem_mapM hparsed hi
        exact ⟨token, hmem, _, _, parseInterval_eq_ok.mp hparse, hfirst, hlast⟩
    simp only [hlisted]
    have hcovers := covers_iff (UInt16.le_iff_toNat_le.mp hrange) (insertionSort_by_first intervals)
    simp only [List.mem_insertionSort] at hcovers
    rw [← hcovers, and_iff_right ⟨intervals, rfl⟩]
    change (if _ then _ else _) = _ ↔ _
    split_ifs with hcovered
    · exact iff_of_true rfl hcovered
    · exact iff_of_false nofun hcovered

/-- The intervals of this text overlap, are adjacent and come in no order. -/
theorem reserved_out_of_order :
    proveReservedRange " 9-65535,, 1-4 , +7,5-8\n" 3 65535 = .ok () ∧
      ∃ token ∈ reservedTokens " 9-65535,, 1-4 , +7,5-8\n", ∃ first last,
        Lists token first last ∧ first ≤ 6 ∧ 6 ≤ last := by
  have hok : proveReservedRange " 9-65535,, 1-4 , +7,5-8\n" 3 65535 = .ok () := by decide +kernel
  exact ⟨hok, ((proveReservedRange_exact " 9-65535,, 1-4 , +7,5-8\n" 3 65535 (by decide)).mp
    hok).2 6 (by decide) (by decide)⟩

end Ferrocrate.Ebpf
