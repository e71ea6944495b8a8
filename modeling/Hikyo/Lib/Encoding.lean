import Mathlib.Data.List.Basic

/-!
# Length-prefixed byte encodings

Encodings of integers, texts and lists that delimit themselves: varints, fields behind their length,
lists behind their number, parts that end at a zero byte.  Every lemma has the form that peels the
first item off two equal messages (`field_append_inj`, `counted_append_inj`), so that encodings of
records are inverted field by field.
-/

namespace Hikyo.Lib

open List

variable {xs ys : List UInt8} {α : Type}

/-- Seven payload bits per byte, the continuation bit on every byte but the last. -/
def uvarintLoop : Nat → Nat → List UInt8
  | 0, _ => []
  | fuel + 1, n =>
    if n < 128 then [UInt8.ofNat n]
    else UInt8.ofNat (n % 128 + 128) :: uvarintLoop fuel (n / 128)

def uvarint (n : Nat) : List UInt8 := uvarintLoop (n + 1) n

/-- Zigzag: the sign goes to the lowest bit. -/
def varint (x : Int) : List UInt8 :=
  uvarint (if 0 ≤ x then (2 * x).toNat else (-2 * x - 1).toNat)

theorem ofNat_inj {m n : Nat} (hm : m < 256) (hn : n < 256) (same : UInt8.ofNat m = UInt8.ofNat n) :
    m = n := by
  have values := congrArg UInt8.toNat same
  simp only [UInt8.toNat_ofNat'] at values
  omega

theorem uvarintLoop_append_inj : ∀ {f g m n : Nat}, m < f → n < g →
      uvarintLoop f m ++ xs = uvarintLoop g n ++ ys → m = n ∧ xs = ys
  | 0, _, _, _, hm, _, _ => absurd hm (Nat.not_lt_zero _)
  | _, 0, _, _, _, hn, _ => absurd hn (Nat.not_lt_zero _)
  | f + 1, g + 1, m, n, hm, hn, same => by
    rw [uvarintLoop, uvarintLoop] at same
    -- the continuation bit of the first byte decides both lengths
    by_cases small : m < 128
    · by_cases small' : n < 128
      · rw [if_pos small, if_pos small'] at same
        obtain ⟨head, tail⟩ := cons.inj same
        exact ⟨ofNat_inj (by omega) (by omega) head, tail⟩
      rw [if_pos small, if_neg small'] at same
      have head := ofNat_inj (by omega) (by omega) (cons.inj same).1
      omega
    by_cases small' : n < 128
    · rw [if_neg small, if_pos small'] at same
      have head := ofNat_inj (by omega) (by omega) (cons.inj same).1
      omega
    rw [if_neg small, if_neg small'] at same
    obtain ⟨head, tail⟩ := cons.inj same
    have low := ofNat_inj (by omega) (by omega) head
    obtain ⟨_, rest⟩ := uvarintLoop_append_inj (by omega) (by omega) tail
    exact ⟨by omega, rest⟩

theorem uvarint_append_inj {m n : Nat} (same : uvarint m ++ xs = uvarint n ++ ys) :
    m = n ∧ xs = ys :=
  uvarintLoop_append_inj (Nat.lt_succ_self m) (Nat.lt_succ_self n) same

theorem varint_append_inj {x y : Int} (same : varint x ++ xs = varint y ++ ys) :
    x = y ∧ xs = ys := by
  obtain ⟨zigzag, rest⟩ := uvarint_append_inj same
  refine ⟨?_, rest⟩
  by_cases hx : 0 ≤ x
  · by_cases hy : 0 ≤ y
    · rw [if_pos hx, if_pos hy] at zigzag
      omega
    · rw [if_pos hx, if_neg hy] at zigzag
      omega
  by_cases hy : 0 ≤ y
  · rw [if_neg hx, if_pos hy] at zigzag
    omega
  · rw [if_neg hx, if_neg hy] at zigzag
    omega

def utf8 (text : String) : List UInt8 := text.toUTF8.data.toList

theorem utf8_inj {a b : String} (same : utf8 a = utf8 b) : a = b := by
  have data : a.toUTF8.data = b.toUTF8.data := Array.toList_inj.mp same
  exact String.toByteArray_inj.mp (ByteArray.ext data)

def field (text : String) : List UInt8 := uvarint (utf8 text).length ++ utf8 text

theorem field_append_inj {a b : String} (same : field a ++ xs = field b ++ ys) :
    a = b ∧ xs = ys := by
  unfold field at same
  rw [append_assoc, append_assoc] at same
  obtain ⟨sameLength, rest⟩ := uvarint_append_inj same
  obtain ⟨bytes, tail⟩ := append_inj rest sameLength
  exact ⟨utf8_inj bytes, tail⟩

section Sequences
def counted (item : α → List UInt8) (items : List α) : List UInt8 :=
  uvarint items.length ++ items.flatMap item

theorem flatMap_append_inj {item : α → List UInt8}
    (delimited : ∀ a b u v, item a ++ u = item b ++ v → a = b ∧ u = v) :
      ∀ {as bs : List α}, as.length = bs.length →
      as.flatMap item ++ xs = bs.flatMap item ++ ys → as = bs ∧ xs = ys
  | [], [], _, same => ⟨rfl, same⟩
  | [], _ :: _, sameLength, _ => absurd sameLength (by simp)
  | _ :: _, [], sameLength, _ => absurd sameLength (by simp)
  | a :: as, b :: bs, sameLength, same => by
    simp only [flatMap_cons, append_assoc] at same
    obtain ⟨rfl, tail⟩ := delimited a b _ _ same
    obtain ⟨rfl, rest⟩ := flatMap_append_inj delimited (by simpa using sameLength) tail
    exact ⟨rfl, rest⟩

/-- A sequence of self-delimiting items that ends at a symbol no item starts with. -/
theorem flatMap_stop_inj {β : Type} {item : α → List β} {stop : β}
    (delimited : ∀ a b u v, item a ++ u = item b ++ v → a = b ∧ u = v)
    (starts : ∀ a u v, item a ++ u ≠ stop :: v) {xs ys : List β} :
    ∀ {as bs : List α}, as.flatMap item ++ stop :: xs = bs.flatMap item ++ stop :: ys →
      as = bs ∧ xs = ys
  | [], [], same => ⟨rfl, (cons.inj same).2⟩
  | [], b :: bs, same => by
    rw [flatMap_cons, append_assoc] at same
    exact absurd same.symm (starts b _ _)
  | a :: as, [], same => by
    rw [flatMap_cons, append_assoc] at same
    exact absurd same (starts a _ _)
  | a :: as, b :: bs, same => by
    simp only [flatMap_cons, append_assoc] at same
    obtain ⟨rfl, tail⟩ := delimited a b _ _ same
    obtain ⟨rfl, rest⟩ := flatMap_stop_inj delimited starts tail
    exact ⟨rfl, rest⟩

theorem counted_append_inj {item : α → List UInt8} {as bs : List α}
    (delimited : ∀ a b u v, item a ++ u = item b ++ v → a = b ∧ u = v)
    (same : counted item as ++ xs = counted item bs ++ ys) : as = bs ∧ xs = ys := by
  unfold counted at same
  rw [append_assoc, append_assoc] at same
  obtain ⟨sameLength, rest⟩ := uvarint_append_inj same
  exact flatMap_append_inj delimited sameLength rest

end Sequences

section Compact
variable [DecidableEq α]

/-- Runs of equal elements are replaced by one. -/
def compact : List α → List α
  | [] => []
  | [a] => [a]
  | a :: b :: rest => if a = b then compact (b :: rest) else a :: compact (b :: rest)

theorem mem_compact {x : α} : ∀ {l : List α}, x ∈ compact l ↔ x ∈ l
  | [] | [_] => Iff.rfl
  | a :: b :: rest => by
    rw [compact]
    split
    · next same =>
      subst same
      rw [mem_compact]
      simp
    · rw [mem_cons, mem_compact]
      exact mem_cons.symm

end Compact

/-- Two messages that end their first part at the first zero byte. -/
theorem terminated_append_inj {a b : List UInt8} (plain : 0 ∉ a) (plain' : 0 ∉ b)
    (same : a ++ 0 :: xs = b ++ 0 :: ys) : a = b ∧ xs = ys := by
  induction a generalizing b with
  | nil =>
    cases b with
    | nil => exact ⟨rfl, (cons.inj same).2⟩
    | cons =>
      obtain ⟨head, -⟩ := cons.inj same
      exact absurd (head ▸ .head _) plain'
  | cons _ _ ih =>
    cases b with
    | nil =>
      obtain ⟨head, -⟩ := cons.inj same
      exact absurd (head ▸ .head _) plain
    | cons =>
      obtain ⟨rfl, tail⟩ := cons.inj same
      obtain ⟨rfl, rest⟩ := ih (fun h => plain (.tail _ h))
        (fun h => plain' (.tail _ h)) tail
      exact ⟨rfl, rest⟩

theorem utf8_append (a b : String) : utf8 (a ++ b) = utf8 a ++ utf8 b := by
  unfold utf8
  rw [String.toUTF8_eq_toByteArray, String.toByteArray_append]
  simp

theorem utf8EncodeChar_plain {c : Char} (plain : c.toNat ≠ 0) : 0 ∉ String.utf8EncodeChar c := by
  have nonzero {n : Nat} (positive : 0 < n) (small : n < 256) : (0 : UInt8) ≠ UInt8.ofNat n := by
    intro same
    have zero : 0 = n := ofNat_inj (by omega) small (show UInt8.ofNat 0 = UInt8.ofNat n from same)
    omega
  have value : c.val.toNat ≠ 0 := plain
  unfold String.utf8EncodeChar
  dsimp only
  split
  · simpa using nonzero (Nat.pos_of_ne_zero value) (by omega)
  split
  · simp only [mem_cons, not_mem_nil, or_false, not_or]
    exact ⟨nonzero (by omega) (by omega), nonzero (by omega) (by omega)⟩
  split
  · simp only [mem_cons, not_mem_nil, or_false, not_or]
    exact ⟨nonzero (by omega) (by omega), nonzero (by omega) (by omega),
      nonzero (by omega) (by omega)⟩
  simp only [mem_cons, not_mem_nil, or_false, not_or]
  exact ⟨nonzero (by omega) (by omega), nonzero (by omega) (by omega),
    nonzero (by omega) (by omega), nonzero (by omega) (by omega)⟩

theorem utf8_ofList_plain {l : List Char} (plain : ∀ c ∈ l, c.toNat ≠ 0) :
    0 ∉ utf8 (String.ofList l) := by
  intro zero
  have bytes : utf8 (String.ofList l) = l.flatMap String.utf8EncodeChar := by
    unfold utf8
    rw [String.toUTF8_eq_toByteArray, String.toByteArray_ofList, utf8Encode]
    simp
  rw [bytes, mem_flatMap] at zero
  obtain ⟨c, member, inChar⟩ := zero
  exact utf8EncodeChar_plain (plain c member) inChar

end Hikyo.Lib
