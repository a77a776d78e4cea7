import Mathlib.Data.Set.Operations
import Ferrocrate.Lib.Bytes

/-! Writers whose output shows where it ends. Two byte strings that start with such output can only
be equal when they start with the same value, so a message is recovered field by field. -/
namespace Ferrocrate.Lib
variable {α β : Type}

/-- Whatever follows, the output of `w` on `S` shows its value and its end. -/
def FramedOn (S : Set α) (w : α → Bytes) : Prop :=
  ∀ a ∈ S, ∀ b ∈ S, ∀ s t, w a ++ s = w b ++ t → a = b ∧ s = t

namespace FramedOn
variable {S : Set α} {w : α → Bytes}

theorem of_length {n : Nat} (hlen : ∀ a, (w a).length = n) (hinj : Set.InjOn w S) :
    FramedOn S w := by
  intro a ha b hb s t h
  have hwidth : (w a).length = (w b).length := by rw [hlen, hlen]
  obtain ⟨hw, hst⟩ := List.append_inj h hwidth
  exact ⟨hinj ha hb hw, hst⟩

theorem flatMap (h : FramedOn S w) {as bs : List α} {s t : Bytes} (hlen : as.length = bs.length)
    (has : ∀ a ∈ as, a ∈ S) (hbs : ∀ b ∈ bs, b ∈ S)
    (heq : as.flatMap w ++ s = bs.flatMap w ++ t) : as = bs ∧ s = t := by
  induction as generalizing bs with
  | nil =>
    obtain rfl := List.length_eq_zero_iff.mp hlen.symm
    exact ⟨rfl, heq⟩
  | cons a as ih =>
    cases bs with
    | nil => cases hlen
    | cons b bs =>
      rw [List.flatMap_cons, List.flatMap_cons, List.append_assoc, List.append_assoc] at heq
      obtain ⟨rfl, htail⟩ := h a (has a List.mem_cons_self) b (hbs b List.mem_cons_self) _ _ heq
      obtain ⟨rfl, hst⟩ := ih (Nat.succ.inj hlen) (fun x hx => has x (List.mem_cons_of_mem a hx))
        (fun x hx => hbs x (List.mem_cons_of_mem a hx)) htail
      exact ⟨rfl, hst⟩

theorem flatMap_inj (h : FramedOn S w) (hne : ∀ a, w a ≠ []) {as bs : List α}
    (has : ∀ a ∈ as, a ∈ S) (hbs : ∀ b ∈ bs, b ∈ S) (heq : as.flatMap w = bs.flatMap w) :
    as = bs := by
  induction as generalizing bs with
  | nil =>
    cases bs with
    | nil => rfl
    | cons b bs => exact absurd heq.symm (by simp [hne])
  | cons a as ih =>
    cases bs with
    | nil => exact absurd heq (by simp [hne])
    | cons b bs =>
      rw [List.flatMap_cons, List.flatMap_cons] at heq
      obtain ⟨rfl, htail⟩ := h a (has a List.mem_cons_self) b (hbs b List.mem_cons_self) _ _ heq
      rw [ih (fun x hx => has x (List.mem_cons_of_mem a hx))
        (fun x hx => hbs x (List.mem_cons_of_mem a hx)) htail]

theorem append {T : Set β} {v : β → Bytes} (h : FramedOn S w) (hv : FramedOn T v) :
    FramedOn (S ×ˢ T) fun p => w p.1 ++ v p.2 := by
  intro p hp q hq s t heq
  rw [List.append_assoc, List.append_assoc] at heq
  obtain ⟨hfst, hrest⟩ := h _ hp.1 _ hq.1 _ _ heq
  obtain ⟨hsnd, hst⟩ := hv _ hp.2 _ hq.2 _ _ hrest
  exact ⟨Prod.ext hfst hsnd, hst⟩

end FramedOn

def optional (w : α → Bytes) : Option α → Bytes
  | some a => 1 :: w a
  | none => [0]

theorem FramedOn.optional {S : Set α} {w : α → Bytes} (h : FramedOn S w) :
    FramedOn {o | ∀ a ∈ o, a ∈ S} (optional w) := by
  intro o ho p hp s t heq
  cases o with
  | none =>
    cases p with
    | none => exact ⟨rfl, (List.cons.inj heq).2⟩
    | some b => exact absurd (List.cons.inj heq).1 (by decide)
  | some a =>
    cases p with
    | none => exact absurd (List.cons.inj heq).1 (by decide)
    | some b =>
      obtain ⟨rfl, hst⟩ := h a (ho a rfl) b (hp b rfl) s t (List.cons.inj heq).2
      exact ⟨rfl, hst⟩

theorem framedOn_u64Be : FramedOn Set.univ u64Be :=
  .of_length length_u64Be u64Be_injective.injOn

theorem framedOn_fixed (n : Nat) : FramedOn Set.univ (FixedBytes.val (n := n)) :=
  .of_length FixedBytes.length_val fun _ _ _ _ => FixedBytes.ext_val

def utf8 (text : String) : Bytes := text.toUTF8.data.toList

theorem utf8_injective : Function.Injective utf8 := by
  intro s t h
  have hdata : s.toUTF8 = t.toUTF8 := ByteArray.ext (Array.toList_inj.mp h)
  exact String.toByteArray_inj.mp hdata

theorem length_utf8 (text : String) : (utf8 text).length = text.utf8ByteSize := rfl

def pushText (value : String) : Bytes := u32Be value.utf8ByteSize ++ utf8 value

def ShortText (value : String) : Prop := value.utf8ByteSize < 2 ^ 32

instance : DecidablePred ShortText := fun value =>
  inferInstanceAs (Decidable (value.utf8ByteSize < 2 ^ 32))

theorem framedOn_pushText : FramedOn {value | ShortText value} pushText := by
  intro a ha b hb s t h
  rw [pushText, pushText, List.append_assoc, List.append_assoc] at h
  obtain ⟨hlen, h⟩ := List.append_inj h (by rw [length_u32Be, length_u32Be])
  have hsize : (utf8 a).length = (utf8 b).length := by
    rw [length_utf8, length_utf8, ← ofBe_u32Be ha, ← ofBe_u32Be hb, hlen]
  obtain ⟨htext, hst⟩ := List.append_inj h hsize
  exact ⟨utf8_injective htext, hst⟩

end Ferrocrate.Lib
