import Transclusion.Text.Slice

/-! ASCII among the bytes of a text. A character of ASCII is the one byte of its code, and
every other character begins with a byte beyond ASCII; so a search for ASCII bytes that
starts between two characters finds the characters, and stops between two of them again. -/
namespace Transclusion.Text

/-- A test of bytes that finds the characters satisfying `p`, all of which are ASCII. -/
structure Tells (q : UInt8 → Bool) (p : Char → Bool) : Prop where
  ascii : ∀ c : Char, c.toNat < 128 → q (UInt8.ofNat c.toNat) = p c
  beyond : ∀ c : Char, 128 ≤ c.toNat → p c = false
  beyondByte : ∀ byte : UInt8, 128 ≤ byte.toNat → q byte = false

theorem toNat_ofNat_ascii {n : Nat} (ascii : n < 128) : (UInt8.ofNat n).toNat = n := by
  rw [UInt8.toNat_ofNat', Nat.mod_eq_of_lt (by omega)]

theorem toNat_toUInt8_ascii {a : Char} (ascii : a.toNat < 128) : a.toUInt8.toNat = a.toNat := by
  have wrapped : a.toUInt8.toNat = a.toNat % 256 := UInt32.toNat_toUInt8 a.val
  omega

theorem tells_char {a : Char} (ascii : a.toNat < 128) : Tells (· == a.toUInt8) (· = a) := by
  have code := toNat_toUInt8_ascii ascii
  refine ⟨fun c small => ?_, fun c large => ?_, fun byte large => ?_⟩
  · apply Bool.eq_iff_iff.mpr
    simp only [beq_iff_eq, decide_eq_true_eq]
    rw [← UInt8.toNat_inj, code, toNat_ofNat_ascii small, Char.toNat_inj]
  · simp only [decide_eq_false_iff_not]
    rintro rfl
    omega
  · simp only [beq_eq_false_iff_ne]
    rintro rfl
    omega

theorem isDigitByte_iff {byte : UInt8} :
    isDigitByte byte = true ↔ 48 ≤ byte.toNat ∧ byte.toNat ≤ 57 := by
  simp only [isDigitByte, Bool.and_eq_true, decide_eq_true_eq, UInt8.le_iff_toNat_le]
  rfl

theorem isDigit_iff {c : Char} : c.isDigit = true ↔ 48 ≤ c.toNat ∧ c.toNat ≤ 57 := by
  simp only [Char.isDigit, Bool.and_eq_true, decide_eq_true_eq, ge_iff_le, UInt32.le_iff_toNat_le]
  rfl

theorem tells_digit : Tells isDigitByte Char.isDigit := by
  refine ⟨fun c small => ?_, fun c large => ?_, fun byte large => ?_⟩
  · apply Bool.eq_iff_iff.mpr
    rw [isDigitByte_iff, isDigit_iff, toNat_ofNat_ascii small]
  · apply Bool.eq_false_iff.mpr
    intro digit
    have bounds := isDigit_iff.mp digit
    omega
  · apply Bool.eq_false_iff.mpr
    intro digit
    have bounds := isDigitByte_iff.mp digit
    omega

/-- The bytes of one character. -/
private theorem utf8EncodeChar_cases (c : Char) :
    (c.toNat < 128 ∧ String.utf8EncodeChar c = [UInt8.ofNat c.toNat]) ∨
      128 ≤ c.toNat ∧ ∃ byte more, String.utf8EncodeChar c = byte :: more ∧
        ∀ other ∈ byte :: more, 128 ≤ other.toNat := by
  have wrap : ∀ n, (UInt8.ofNat n).toNat = n % 256 := fun n => UInt8.toNat_ofNat'
  have code : c.val.toNat = c.toNat := rfl
  unfold String.utf8EncodeChar
  rw [code]
  by_cases one : c.toNat ≤ 127
  · exact Or.inl ⟨by omega, by simp only [one, ↓reduceIte]⟩
  refine Or.inr ⟨by omega, ?_⟩
  by_cases two : c.toNat ≤ 2047
  · simp only [one, two, ↓reduceIte]
    refine ⟨_, _, rfl, ?_⟩
    simp only [List.mem_cons, List.not_mem_nil, or_false, forall_eq_or_imp, forall_eq, wrap]
    omega
  by_cases three : c.toNat ≤ 65535
  · simp only [one, two, three, ↓reduceIte]
    refine ⟨_, _, rfl, ?_⟩
    simp only [List.mem_cons, List.not_mem_nil, or_false, forall_eq_or_imp, forall_eq, wrap]
    omega
  · simp only [one, two, three, ↓reduceIte]
    refine ⟨_, _, rfl, ?_⟩
    simp only [List.mem_cons, List.not_mem_nil, or_false, forall_eq_or_imp, forall_eq, wrap]
    omega

/-- A byte passes the tests that a character does, as its first byte must. -/
def Begins (byte : UInt8) (c : Char) : Prop := ∀ {q p}, Tells q p → q byte = p c

/-- The bytes of a text begin like its first character, and if that is ASCII the bytes of
the others follow at once. -/
theorem exists_bytes_cons (c : Char) (rest : Text) :
    ∃ byte more, bytes (c :: rest) = byte :: more ∧ Begins byte c ∧
      (c.toNat < 128 → more = bytes rest) := by
  have whole : bytes (c :: rest) = String.utf8EncodeChar c ++ bytes rest := rfl
  rcases utf8EncodeChar_cases c with ⟨small, one⟩ | ⟨large, byte, more, several, high⟩
  · exact ⟨_, _, by rw [whole, one]; rfl, fun tells => tells.ascii c small, fun _ => rfl⟩
  · refine ⟨byte, more ++ bytes rest, by rw [whole, several]; rfl, fun tells => ?_, ?_⟩
    · rw [tells.beyondByte byte (high byte List.mem_cons_self), tells.beyond c large]
    · intro small
      omega

/-- ASCII takes one byte for each character. -/
theorem byteLength_ascii {text : Text} (ascii : ∀ c ∈ text, c.toNat < 128) :
    byteLength text = text.length := by
  induction text with
  | nil => rfl
  | cons c rest ih =>
    have small := ascii c (by simp)
    have size : c.utf8Size = 1 := by
      rcases utf8EncodeChar_cases c with ⟨-, one⟩ | ⟨large, -⟩
      · rw [← String.length_utf8EncodeChar, one]
        rfl
      · omega
    rw [byteLength, size, ih fun other member => ascii other (by simp [member]), List.length_cons]
    omega

/-- An ASCII byte stands where a text has its character. -/
theorem getElem?_bytes_eq_some_iff {a : Char} (ascii : a.toNat < 128) {text : Text}
    {offset : Nat} : (bytes text)[offset]? = some a.toUInt8 ↔
      ∃ front back, text = front ++ a :: back ∧ byteLength front = offset := by
  constructor
  · intro found
    induction text generalizing offset with
    | nil => cases found
    | cons c rest ih =>
      have whole : bytes (c :: rest) = String.utf8EncodeChar c ++ bytes rest := rfl
      rw [whole] at found
      by_cases inside : offset < (String.utf8EncodeChar c).length
      · rw [List.getElem?_append_left inside] at found
        have member := List.mem_of_getElem? found
        rcases utf8EncodeChar_cases c with ⟨small, one⟩ | ⟨-, byte, more, several, high⟩
        · rw [one] at inside member
          obtain rfl : offset = 0 := by simpa using inside
          have same : a.toUInt8 = UInt8.ofNat c.toNat := List.mem_singleton.mp member
          have codes : a.toNat = c.toNat := by
            rw [← toNat_toUInt8_ascii ascii, same, toNat_ofNat_ascii small]
          exact ⟨[], rest, by rw [Char.toNat_inj.mp codes]; rfl, rfl⟩
        · rw [several] at member
          have large := high _ member
          rw [toNat_toUInt8_ascii ascii] at large
          omega
      · rw [List.getElem?_append_right (by omega), String.length_utf8EncodeChar] at found
        obtain ⟨front, back, rfl, length⟩ := ih found
        refine ⟨c :: front, back, rfl, ?_⟩
        rw [String.length_utf8EncodeChar] at inside
        rw [byteLength, length]
        omega
  · rintro ⟨front, back, rfl, rfl⟩
    have first : (bytes (a :: back))[0]? = some a.toUInt8 := by
      rcases utf8EncodeChar_cases a with ⟨-, one⟩ | ⟨large, -⟩
      · have code : UInt8.ofNat a.toNat = a.toUInt8 := by
          rw [← UInt8.toNat_inj, toNat_ofNat_ascii ascii, toNat_toUInt8_ascii ascii]
        rw [bytes, List.flatMap_cons, one, code]
        rfl
      · omega
    rw [bytes_append, List.getElem?_append_right (Nat.le_of_eq (length_bytes front)), length_bytes,
      Nat.sub_self, first]

theorem eq_nil_of_byteLength {text : Text} (none : byteLength text = 0) : text = [] := by
  cases text with
  | nil => rfl
  | cons c rest =>
    have size := c.utf8Size_pos
    rw [byteLength] at none
    omega

/-- The byte before a cut is an ASCII one exactly if the character before it is. -/
theorem getElem?_bytes_before {a : Char} (ascii : a.toNat < 128) {front back : Text}
    (nonempty : byteLength front ≠ 0) :
    (bytes (front ++ back))[byteLength front - 1]? = some a.toUInt8 ↔ front.getLast? = some a := by
  have size : byteLength [a] = 1 := byteLength_ascii (by simpa using ascii)
  constructor
  · intro found
    rw [bytes_append, List.getElem?_append_left (by rw [length_bytes]; omega)] at found
    obtain ⟨before, after, rfl, length⟩ := (getElem?_bytes_eq_some_iff ascii).mp found
    have total := byteLength_append before (a :: after)
    have behind : byteLength (a :: after) = byteLength [a] + byteLength after :=
      byteLength_append [a] after
    have empty : after = [] := eq_nil_of_byteLength (by omega)
    simp [empty]
  · intro last
    obtain ⟨before, rfl⟩ := List.getLast?_eq_some_iff.mp last
    refine (getElem?_bytes_eq_some_iff ascii).mpr ⟨before, back, by simp, ?_⟩
    rw [byteLength_append, size, Nat.add_sub_cancel]

section Telling
variable {q : UInt8 → Bool} {p : Char → Bool} (tells : Tells q p)
include tells

theorem Tells.lt {c : Char} (found : p c = true) : c.toNat < 128 := by
  by_cases small : c.toNat < 128
  · exact small
  · rw [tells.beyond c (by omega)] at found
    cases found

theorem Tells.any_head? (text : Text) : (bytes text).head?.any q = text.head?.any p := by
  cases text with
  | nil => rfl
  | cons c rest =>
    obtain ⟨byte, more, whole, told, -⟩ := exists_bytes_cons c rest
    rw [whole]
    exact told tells

/-- A run of bytes is as long as the run of characters it stands for. -/
theorem Tells.length_takeWhile (text : Text) :
    ((bytes text).takeWhile q).length = countWhile p text := by
  induction text with
  | nil => rfl
  | cons c rest ih =>
    obtain ⟨byte, more, whole, told, follows⟩ := exists_bytes_cons c rest
    have same := told tells
    unfold countWhile
    cases found : p c with
    | false => simp [whole, same, found]
    | true =>
      have here := follows (tells.lt found)
      simpa [whole, same, found, here, countWhile] using ih

theorem Tells.byteLength_eq {text : Text} (all : ∀ c ∈ text, p c = true) :
    byteLength text = text.length :=
  byteLength_ascii fun c member => tells.lt (all c member)

theorem Tells.or {q' : UInt8 → Bool} {p' : Char → Bool} (others : Tells q' p') :
    Tells (fun byte => q byte || q' byte) (fun c => p c || p' c) := by
  refine ⟨fun c small => ?_, fun c large => ?_, fun byte large => ?_⟩
  · rw [tells.ascii c small, others.ascii c small]
  · rw [tells.beyond c large, others.beyond c large]
    rfl
  · rw [tells.beyondByte byte large, others.beyondByte byte large]
    rfl

end Telling

/-- Behind an offset of some bytes stand those of a text. -/
structure Behind (whole : List UInt8) (offset : Nat) (text : Text) : Prop where
  inside : offset ≤ whole.length
  rest : whole.drop offset = bytes text

theorem behind_zero (text : Text) : Behind (bytes text) 0 text := ⟨Nat.zero_le _, rfl⟩

theorem behind_append (front back : Text) :
    Behind (bytes (front ++ back)) (byteLength front) back := by
  constructor
  · rw [length_bytes, byteLength_append]
    exact Nat.le_add_right _ _
  · rw [bytes_append]
    exact List.drop_left' (length_bytes front)

section Looking
variable {whole : List UInt8} {offset : Nat} {text : Text} (behind : Behind whole offset text)
include behind

theorem Behind.bytesFrom_eq : bytesFrom whole offset = .ok (bytes text) := by
  rw [bytesFrom, if_neg (Nat.not_lt.mpr behind.inside), behind.rest]

theorem Behind.getElem?_any {q : UInt8 → Bool} {p : Char → Bool} (tells : Tells q p) :
    whole[offset]?.any q = text.head?.any p := by
  rw [← tells.any_head?, ← behind.rest, List.head?_drop]

/-- Only ASCII may be passed by counting characters. -/
theorem Behind.pass (passed rest : Text) (ascii : ∀ c ∈ passed, c.toNat < 128)
    (split : text = passed ++ rest) : Behind whole (offset + passed.length) rest := by
  have lengths : (bytes passed).length = passed.length := by
    rw [length_bytes, byteLength_ascii ascii]
  have cut : whole.drop offset = bytes passed ++ bytes rest := by
    rw [behind.rest, split, bytes_append]
  constructor
  · have inside := behind.inside
    have total := congrArg List.length cut
    rw [List.length_drop, List.length_append, lengths] at total
    omega
  · rw [← List.drop_drop, cut, List.drop_left' lengths]

end Looking

end Transclusion.Text
