import Mathlib.Data.List.Infix
import Vintage.Text.Utf8

/-!
# Characters and their bytes

A character has one byte that may start a character, its first one, and then up to three others. So
the characters of a text are counted by bytes of the first sort, and a byte below `0x80` is a
character of its own. Bytes that spell characters are read back as these.

Results:
* `Utf8.exists_utf8EncodeChar`: the bytes of a character.
* `Utf8.mem_of_toUInt8_mem_encode`: a byte below `0x80` stands for the character itself.
* `Utf8.countP_startsChar_encode`: counting the characters of a text in its bytes.
* `Utf8.decodeLossy_encode`: reading bytes that spell a text.
-/

namespace Vintage.Text.Utf8

/-! ## Numbers of bytes -/

@[simp] theorem size_nil : size [] = 0 := rfl

@[simp] theorem size_cons (c : Char) (cs : List Char) : size (c :: cs) = c.utf8Size + size cs := rfl

@[simp] theorem size_append (cs ds : List Char) : size (cs ++ ds) = size cs + size ds := by
  induction cs with
  | nil => simp
  | cons c cs ih => rw [List.cons_append, size_cons, size_cons, ih, Nat.add_assoc]

theorem length_le_size (cs : List Char) : cs.length ≤ size cs := by
  induction cs with
  | nil => exact Nat.le_refl 0
  | cons c cs ih =>
    have := c.utf8Size_pos
    rw [size_cons, List.length_cons]
    omega

@[simp] theorem encode_nil : encode [] = [] := rfl

@[simp] theorem encode_cons (c : Char) (cs : List Char) :
    encode (c :: cs) = String.utf8EncodeChar c ++ encode cs := rfl

@[simp] theorem encode_append (cs ds : List Char) : encode (cs ++ ds) = encode cs ++ encode ds :=
  List.flatMap_append

@[simp] theorem length_encode (cs : List Char) : (encode cs).length = size cs := by
  induction cs with
  | nil => rfl
  | cons c cs ih =>
    rw [encode_cons, List.length_append, ih, String.length_utf8EncodeChar, size_cons]

/-! ## The bytes of one character -/

/-- A byte after the first one of a character, which has the last six bits of the number. -/
def laterByte (n : Nat) : UInt8 := UInt8.ofNat (n % 64 + 0x80)

theorem toNat_laterByte (n : Nat) : (laterByte n).toNat = n % 64 + 0x80 := by
  rw [laterByte, UInt8.toNat_ofNat_of_lt' (by simp [UInt8.size]; omega)]

theorem toNat_ofNat {n : Nat} (h : n < 256) : (UInt8.ofNat n).toNat = n :=
  UInt8.toNat_ofNat_of_lt' h

/-- The bytes are those of the character with the number `v`. -/
inductive Spells (v : Nat) : List UInt8 → Prop
  | one : v < 0x80 → Spells v [UInt8.ofNat v]
  | two : 0x80 ≤ v → v < 0x800 → Spells v [UInt8.ofNat (v / 64 + 0xC0), laterByte v]
  | three : 0x800 ≤ v → v < 0x10000 → v < 0xD800 ∨ 0xDFFF < v →
      Spells v [UInt8.ofNat (v / 4096 + 0xE0), laterByte (v / 64), laterByte v]
  | four : 0x10000 ≤ v → v < 0x110000 →
      Spells v [UInt8.ofNat (v / 262144 + 0xF0), laterByte (v / 4096), laterByte (v / 64),
        laterByte v]

theorem spells_utf8EncodeChar (c : Char) : Spells c.toNat (String.utf8EncodeChar c) := by
  have hvalid : c.toNat < 0xD800 ∨ 0xDFFF < c.toNat ∧ c.toNat < 0x110000 := c.valid
  unfold String.utf8EncodeChar
  simp only
  split_ifs with hone htwo hthree
  · exact .one (Nat.lt_succ_of_le hone)
  · rw [Nat.mod_eq_of_lt (by simp only [Char.toNat] at *; omega)]
    exact .two (Nat.lt_of_not_le hone) (Nat.lt_succ_of_le htwo)
  · rw [Nat.mod_eq_of_lt (by simp only [Char.toNat] at *; omega)]
    exact .three (Nat.lt_of_not_le htwo) (Nat.lt_succ_of_le hthree) (hvalid.imp_right And.left)
  · rw [Nat.mod_eq_of_lt (by simp only [Char.toNat] at *; omega)]
    exact .four (Nat.lt_of_not_le hthree) (by simp only [Char.toNat] at *; omega)

/-! ## Bytes that start a character -/

theorem startsChar_iff {byte : UInt8} :
    startsChar byte = true ↔ byte.toNat < 0x80 ∨ 0xC0 ≤ byte.toNat := by
  simp [startsChar, UInt8.lt_iff_toNat_lt, UInt8.le_iff_toNat_le]

theorem startsChar_ofNat {n : Nat} (h : n < 256) (hn : n < 0x80 ∨ 0xC0 ≤ n) :
    startsChar (UInt8.ofNat n) = true := by
  rwa [startsChar_iff, toNat_ofNat h]

theorem startsChar_laterByte (n : Nat) : startsChar (laterByte n) = false := by
  rw [← Bool.not_eq_true, startsChar_iff, toNat_laterByte]
  omega

/-- The first byte of a character may start one, and the others may not. A byte below `0x80` is a
character of its own. -/
theorem exists_utf8EncodeChar (c : Char) : ∃ first others,
    String.utf8EncodeChar c = first :: others ∧ startsChar first = true ∧
      (∀ byte ∈ others, startsChar byte = false) ∧
      (first.toNat < 0x80 → first.toNat = c.toNat ∧ others = []) := by
  have hspells := spells_utf8EncodeChar c
  generalize String.utf8EncodeChar c = bytes at hspells
  cases hspells with
  | one hlt =>
    have hbyte : c.toNat < 256 := by omega
    exact ⟨_, _, rfl, startsChar_ofNat hbyte (by omega), by simp, fun _ => ⟨toNat_ofNat hbyte, rfl⟩⟩
  | two hle hlt =>
    have hbyte : c.toNat / 64 + 0xC0 < 256 := by omega
    refine ⟨_, _, rfl, startsChar_ofNat hbyte (by omega), ?_, ?_⟩
    · simp [startsChar_laterByte]
    · rw [toNat_ofNat hbyte]
      omega
  | three hle hlt hvalid =>
    have hbyte : c.toNat / 4096 + 0xE0 < 256 := by omega
    refine ⟨_, _, rfl, startsChar_ofNat hbyte (by omega), ?_, ?_⟩
    · simp [startsChar_laterByte]
    · rw [toNat_ofNat hbyte]
      omega
  | four hle hlt =>
    have hbyte : c.toNat / 262144 + 0xF0 < 256 := by omega
    refine ⟨_, _, rfl, startsChar_ofNat hbyte (by omega), ?_, ?_⟩
    · simp [startsChar_laterByte]
    · rw [toNat_ofNat hbyte]
      omega

/-- A byte below `0x80` stands for the character itself. -/
theorem mem_of_toUInt8_mem_encode {c : Char} (hc : c.toNat < 0x80) {cs : List Char}
    (h : c.toUInt8 ∈ encode cs) : c ∈ cs := by
  have hnat : c.toUInt8.toNat = c.toNat := by
    have hlt : c.val.toNat < 0x80 := hc
    rw [Char.toUInt8, UInt32.toNat_toUInt8, Nat.mod_eq_of_lt (by omega)]
    rfl
  obtain ⟨d, hd, hbyte⟩ := List.mem_flatMap.1 h
  obtain ⟨first, others, hbytes, -, hothers, hone⟩ := exists_utf8EncodeChar d
  rw [hbytes] at hbyte
  rcases List.mem_cons.1 hbyte with rfl | hother
  · rw [hnat] at hone
    rwa [Char.toNat_inj.1 (hone hc).1]
  · have hstart : startsChar c.toUInt8 = true := startsChar_iff.2 (Or.inl (hnat ▸ hc))
    rw [hothers _ hother] at hstart
    cases hstart

/-- There are as many bytes that start a character as there are characters. -/
theorem countP_startsChar_encode (cs : List Char) : (encode cs).countP startsChar = cs.length := by
  induction cs with
  | nil => rfl
  | cons c cs ih =>
    obtain ⟨first, others, hbytes, hfirst, hothers, -⟩ := exists_utf8EncodeChar c
    have hnone : others.countP startsChar = 0 := by
      rw [List.countP_eq_zero]
      intro byte hbyte
      rw [hothers byte hbyte]
      exact Bool.false_ne_true
    rw [encode_cons, List.countP_append, ih, hbytes, List.countP_cons_of_pos hfirst, hnone,
      List.length_cons, Nat.zero_add, Nat.add_comm]

/-! ## Reading bytes -/

namespace State

theorem start_one {byte : UInt8} (s : State) (h : byte.toNat < 0x80) :
    s.start byte = { parts := some (Char.ofNat byte.toNat) :: s.parts } := by
  rw [start, if_pos h]

theorem start_two {byte : UInt8} (s : State) (hle : 0xC2 ≤ byte.toNat) (hlt : byte.toNat < 0xE0) :
    s.start byte = { s with pending := some ⟨0, 0x80, 0xBF, byte.toNat - 0xC0⟩ } := by
  simp only [start]
  rw [if_neg (by omega), if_neg (by omega), if_pos hlt]

/-- A first byte of three. Which numbers it may not be continued to, because they have a shorter
spelling or are no characters, is in the bounds of the next byte. -/
theorem start_three {byte : UInt8} (s : State) (hle : 0xE0 ≤ byte.toNat) (hlt : byte.toNat < 0xF0) :
    s.start byte = { s with pending := some ⟨1, if byte.toNat = 0xE0 then 0xA0 else 0x80,
      if byte.toNat = 0xED then 0x9F else 0xBF, byte.toNat - 0xE0⟩ } := by
  simp only [start]
  rw [if_neg (by omega), if_neg (by omega), if_neg (by omega)]
  split_ifs <;> simp_all

theorem start_four {byte : UInt8} (s : State) (hle : 0xF0 ≤ byte.toNat) (hlt : byte.toNat < 0xF5) :
    s.start byte = { s with pending := some ⟨2, if byte.toNat = 0xF0 then 0x90 else 0x80,
      if byte.toNat = 0xF4 then 0x8F else 0xBF, byte.toNat - 0xF0⟩ } := by
  simp only [start]
  rw [if_neg (by omega), if_neg (by omega), if_neg (by omega), if_neg (by omega),
    if_neg (by omega), if_neg (by omega)]
  split_ifs <;> first | omega | simp_all

theorem step_of_none {s : State} (h : s.pending = none) (byte : UInt8) :
    s.step byte = s.start byte := by
  rw [step, h]

/-- A later byte with more to come. -/
theorem step_later (parts : List (Option Char)) {later low high bits n : Nat}
    (hlow : low ≤ n % 64 + 0x80) (hhigh : n % 64 + 0x80 ≤ high) :
    step ⟨parts, some ⟨later + 1, low, high, bits⟩⟩ (laterByte n) =
      ⟨parts, some ⟨later, 0x80, 0xBF, 64 * bits + n % 64⟩⟩ := by
  simp only [step, toNat_laterByte]
  rw [if_pos (by simp [hlow, hhigh]), Nat.add_sub_cancel]

/-- The last byte of a character. -/
theorem step_last (parts : List (Option Char)) {low high bits n : Nat}
    (hlow : low ≤ n % 64 + 0x80) (hhigh : n % 64 + 0x80 ≤ high) :
    step ⟨parts, some ⟨0, low, high, bits⟩⟩ (laterByte n) =
      { parts := some (Char.ofNat (64 * bits + n % 64)) :: parts } := by
  simp only [step, toNat_laterByte]
  rw [if_pos (by simp [hlow, hhigh]), Nat.add_sub_cancel]

/-- Between two characters, the bytes of a character are read as this. -/
theorem foldl_step_utf8EncodeChar (parts : List (Option Char)) (c : Char) :
    (String.utf8EncodeChar c).foldl step { parts } = { parts := some c :: parts } := by
  have hspells := spells_utf8EncodeChar c
  generalize String.utf8EncodeChar c = bytes at hspells
  have hread {n : Nat} (h : n = c.toNat) : Char.ofNat n = c := by rw [h, Char.ofNat_toNat]
  cases hspells with
  | one hlt =>
    have hbyte := toNat_ofNat (n := c.toNat) (by omega)
    rw [List.foldl_cons, step_of_none rfl, start_one _ (by omega), hread hbyte]
    rfl
  | two hle hlt =>
    have hbyte := toNat_ofNat (n := c.toNat / 64 + 0xC0) (by omega)
    rw [List.foldl_cons, step_of_none rfl, start_two _ (by omega) (by omega), List.foldl_cons,
      step_last _ (by omega) (by omega), hread (by omega)]
    rfl
  | three hle hlt hvalid =>
    have hbyte := toNat_ofNat (n := c.toNat / 4096 + 0xE0) (by omega)
    rw [List.foldl_cons, step_of_none rfl, start_three _ (by omega) (by omega), List.foldl_cons,
      step_later _ (by split_ifs <;> omega) (by split_ifs <;> omega), List.foldl_cons,
      step_last _ (by omega) (by omega), hread (by omega)]
    rfl
  | four hle hlt =>
    have hbyte := toNat_ofNat (n := c.toNat / 262144 + 0xF0) (by omega)
    rw [List.foldl_cons, step_of_none rfl, start_four _ (by omega) (by omega), List.foldl_cons,
      step_later _ (by split_ifs <;> omega) (by split_ifs <;> omega), List.foldl_cons,
      step_later _ (by omega) (by omega), List.foldl_cons,
      step_last _ (by omega) (by omega), hread (by omega)]
    rfl

theorem foldl_step_encode (parts : List (Option Char)) (cs : List Char) :
    (encode cs).foldl step { parts } = { parts := (cs.map some).reverse ++ parts } := by
  induction cs generalizing parts with
  | nil => rfl
  | cons c cs ih =>
    rw [encode_cons, List.foldl_append, foldl_step_utf8EncodeChar, ih, List.map_cons,
      List.reverse_cons, List.append_assoc]
    rfl

end State

theorem parts_encode (cs : List Char) : parts (encode cs) = cs.map some := by
  rw [parts, State.foldl_step_encode, State.giveUp]
  simp

/-- Bytes that spell a text are read as this text. -/
theorem decodeLossy_encode (cs : List Char) : decodeLossy (encode cs) = String.ofList cs := by
  rw [decodeLossy, parts_encode, List.map_map]
  exact congrArg String.ofList (List.map_id cs)

end Vintage.Text.Utf8
