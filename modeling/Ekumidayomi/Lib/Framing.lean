import Mathlib.Algebra.Group.Nat.Defs
import Mathlib.Data.List.Basic

/-!
# Length-prefixed byte strings

`bigEndian w n` is the number `n` in `w` bytes, the most significant first. `frame w` puts the
length of a byte string in front of it, so that a sequence of framed strings can be cut apart again:
on strings shorter than `256 ^ w` bytes the concatenation of the frames is injective (`frames_inj`).
Where the strings do not hold a separator, the separator behind each will do (`separated_inj`).
-/

namespace Framing

/-- The `w` bytes of a number, the most significant first. -/
def bigEndian : Nat → Nat → List UInt8
  | 0, _ => []
  | w + 1, n => bigEndian w (n / 256) ++ [UInt8.ofNat n]

/-- A byte string behind its length. -/
def frame (w : Nat) (item : List UInt8) : List UInt8 := bigEndian w item.length ++ item

/-- The number that bytes spell, the most significant first. -/
def ofBigEndian (bytes : List UInt8) : Nat := bytes.foldl (fun n b => n * 256 + b.toNat) 0

variable {w n m : Nat} {items items' : List (List UInt8)}

@[simp] theorem length_bigEndian (w n : Nat) : (bigEndian w n).length = w := by
  induction w generalizing n with
  | zero => rfl
  | succ w ih => simp [bigEndian, ih]

/-- A number that fits is read back from its bytes. -/
theorem ofBigEndian_bigEndian (h : n < 256 ^ w) : ofBigEndian (bigEndian w n) = n := by
  induction w generalizing n with
  | zero =>
    have hn : n = 0 := by simpa using h
    simp [bigEndian, ofBigEndian, hn]
  | succ w ih =>
    rw [Nat.pow_succ] at h
    have hdiv := ih (n := n / 256) (by omega)
    rw [ofBigEndian] at hdiv
    rw [bigEndian, ofBigEndian, List.foldl_append, hdiv]
    simp only [List.foldl_cons, List.foldl_nil, UInt8.toNat_ofNat']
    omega

/-- Numbers that fit are told apart by their bytes. -/
theorem bigEndian_inj (hn : n < 256 ^ w) (hm : m < 256 ^ w) (h : bigEndian w n = bigEndian w m) :
    n = m := by
  rw [← ofBigEndian_bigEndian hn, h, ofBigEndian_bigEndian hm]

/-- A frame at the front of a byte string is cut off in one way. -/
theorem frame_append_inj {a b as bs : List UInt8} (ha : a.length < 256 ^ w)
    (hb : b.length < 256 ^ w) (h : frame w a ++ as = frame w b ++ bs) : a = b ∧ as = bs := by
  simp only [frame, List.append_assoc] at h
  obtain ⟨hlen, hrest⟩ := List.append_inj h (by simp)
  exact List.append_inj hrest (bigEndian_inj ha hb hlen)

/-- Equal sequences of frames frame equal strings. -/
theorem frames_inj (hw : 0 < w) (hi : ∀ a ∈ items, a.length < 256 ^ w)
    (hi' : ∀ a ∈ items', a.length < 256 ^ w)
    (h : items.flatMap (frame w) = items'.flatMap (frame w)) : items = items' := by
  -- a frame is never empty: it holds the bytes of a length
  have hne : ∀ a bs, frame w a ++ bs ≠ [] := by
    intro a bs he
    have hlen := congrArg List.length he
    simp [frame] at hlen
    omega
  induction items generalizing items' with
  | nil =>
    cases items' with
    | nil => rfl
    | cons b bs => exact absurd h.symm (hne b _)
  | cons a as ih =>
    cases items' with
    | nil => exact absurd h (hne a _)
    | cons b bs =>
      obtain ⟨rfl, hrest⟩ := frame_append_inj (hi a List.mem_cons_self)
        (hi' b List.mem_cons_self) h
      rw [ih (fun c hc => hi c (List.mem_cons_of_mem _ hc))
        (fun c hc => hi' c (List.mem_cons_of_mem _ hc)) hrest]

/-- What stands in front of the first separator is cut off in one way. -/
theorem separated_inj {α : Type} {sep : α} {a b as bs : List α} (ha : sep ∉ a) (hb : sep ∉ b)
    (h : a ++ sep :: as = b ++ sep :: bs) : a = b ∧ as = bs := by
  induction a generalizing b with
  | nil =>
    cases b with
    | nil => exact ⟨rfl, (List.cons.inj h).2⟩
    | cons c b => exact absurd ((List.cons.inj h).1 ▸ List.mem_cons_self) hb
  | cons c a ih =>
    cases b with
    | nil => exact absurd ((List.cons.inj h).1 ▸ List.mem_cons_self) ha
    | cons d b =>
      obtain ⟨rfl, htail⟩ := List.cons.inj h
      obtain ⟨rfl, hrest⟩ := ih (fun hmem => ha (List.mem_cons_of_mem _ hmem))
        (fun hmem => hb (List.mem_cons_of_mem _ hmem)) htail
      exact ⟨rfl, hrest⟩

end Framing
