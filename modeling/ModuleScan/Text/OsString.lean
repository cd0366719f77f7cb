/-
  ModuleScan/Text/OsString.lean
  =============================
  **Names as a system has them.**

  A system names files by bytes, which need not be the UTF-8 encoding of a text.  Where a
  text is needed and they are none, each part of them that belongs to no character is
  shown as one replacement character.
-/
namespace ModuleScan

/-! ### Showing any bytes -/

/-- A character of which the last bytes are missing. -/
structure PartialCharacter where
  /-- The number that the bytes so far encode. -/
  value : Nat
  missing : Nat
  /-- The least that the next byte may be. -/
  least : UInt8
  /-- The greatest that the next byte may be. -/
  greatest : UInt8

namespace PartialCharacter

/-- The characters that a byte shows at the beginning of a character, and the character
    that it begins if there is more to come. -/
def first (b : UInt8) : List Char × Option PartialCharacter :=
  if b < 0x80 then ([Char.ofNat b.toNat], none)
  else if b < 0xc2 then (['\uFFFD'], none)
  else if b < 0xe0 then ([], some ⟨b.toNat % 32, 1, 0x80, 0xbf⟩)
  else if b < 0xf0 then
    ([], some ⟨b.toNat % 16, 2, if b == 0xe0 then 0xa0 else 0x80, if b == 0xed then 0x9f else 0xbf⟩)
  else if b < 0xf5 then
    ([], some ⟨b.toNat % 8, 3, if b == 0xf0 then 0x90 else 0x80, if b == 0xf4 then 0x8f else 0xbf⟩)
  else (['\uFFFD'], none)

/-- The characters that a byte shows, and the character that is not complete behind it.
    A byte that does not continue a character begins the next one. -/
def next : Option PartialCharacter → UInt8 → List Char × Option PartialCharacter
  | none, b => first b
  | some p, b =>
    if p.least ≤ b && b ≤ p.greatest then
      let value := p.value * 64 + b.toNat % 64
      if p.missing == 1 then ([Char.ofNat value], none)
      else ([], some ⟨value, p.missing - 1, 0x80, 0xbf⟩)
    else
      let (shown, begun) := first b
      ('\uFFFD' :: shown, begun)

end PartialCharacter

def showBytes : Option PartialCharacter → List UInt8 → List Char
  | none, [] => []
  | some _, [] => ['\uFFFD']
  | begun, b :: bytes =>
    let (shown, begun) := PartialCharacter.next begun b
    shown ++ showBytes begun bytes

/-! ### The bytes of characters -/

namespace PartialCharacter

variable {b : UInt8}

theorem first_of_one (h : b.toNat < 0x80) : first b = ([Char.ofNat b.toNat], none) := by
  simp only [first, UInt8.lt_iff_toNat_lt, UInt8.toNat_ofNat]
  rw [if_pos (by omega)]

theorem first_of_two (h : 0xc2 ≤ b.toNat) (h' : b.toNat < 0xe0) :
    first b = ([], some ⟨b.toNat % 32, 1, 0x80, 0xbf⟩) := by
  simp only [first, UInt8.lt_iff_toNat_lt, UInt8.toNat_ofNat]
  rw [if_neg (by omega), if_neg (by omega), if_pos (by omega)]

theorem first_of_three (h : 0xe0 ≤ b.toNat) (h' : b.toNat < 0xf0) :
    first b = ([], some ⟨b.toNat % 16, 2, if b == 0xe0 then 0xa0 else 0x80,
      if b == 0xed then 0x9f else 0xbf⟩) := by
  simp only [first, UInt8.lt_iff_toNat_lt, UInt8.toNat_ofNat]
  rw [if_neg (by omega), if_neg (by omega), if_neg (by omega), if_pos (by omega)]

theorem first_of_four (h : 0xf0 ≤ b.toNat) (h' : b.toNat < 0xf5) :
    first b = ([], some ⟨b.toNat % 8, 3, if b == 0xf0 then 0x90 else 0x80,
      if b == 0xf4 then 0x8f else 0xbf⟩) := by
  simp only [first, UInt8.lt_iff_toNat_lt, UInt8.toNat_ofNat]
  rw [if_neg (by omega), if_neg (by omega), if_neg (by omega), if_neg (by omega),
    if_pos (by omega)]

end PartialCharacter

section

variable {b : UInt8} {bytes : List UInt8} {p : PartialCharacter} {value missing n : Nat}
  {least greatest : UInt8}

theorem showBytes_first (h : PartialCharacter.first b = ([], some p)) :
    showBytes none (b :: bytes) = showBytes (some p) bytes := by
  simp only [showBytes, PartialCharacter.next, h, List.nil_append]

theorem showBytes_more (h : least ≤ b) (h' : b ≤ greatest) :
    showBytes (some ⟨value, missing + 2, least, greatest⟩) (b :: bytes) =
      showBytes (some ⟨value * 64 + b.toNat % 64, missing + 1, 0x80, 0xbf⟩) bytes := by
  simp [showBytes, PartialCharacter.next, h, h']

theorem showBytes_last (h : least ≤ b) (h' : b ≤ greatest) :
    showBytes (some ⟨value, 1, least, greatest⟩) (b :: bytes) =
      Char.ofNat (value * 64 + b.toNat % 64) :: showBytes none bytes := by
  simp [showBytes, PartialCharacter.next, h, h']

/-- A byte that continues a character. -/
def tailByte (n : Nat) : UInt8 := UInt8.ofNat (n % 64 + 128)

theorem toNat_tailByte (n : Nat) : (tailByte n).toNat = n % 64 + 128 :=
  UInt8.toNat_ofNat_of_lt' (show n % 64 + 128 < 256 by omega)

theorem le_tailByte (n : Nat) : 0x80 ≤ tailByte n := by
  simp only [UInt8.le_iff_toNat_le, toNat_tailByte, UInt8.toNat_ofNat]
  omega

theorem tailByte_le (n : Nat) : tailByte n ≤ 0xbf := by
  simp only [UInt8.le_iff_toNat_le, toNat_tailByte, UInt8.toNat_ofNat]
  omega

/-- The range of a second byte may be narrower behind one first byte. -/
theorem ite_le_tailByte {key low : UInt8} (h : b.toNat = key.toNat → low.toNat ≤ n % 64 + 128) :
    (if b == key then low else 0x80) ≤ tailByte n := by
  split
  next hkey =>
    rw [UInt8.le_iff_toNat_le, toNat_tailByte]
    exact h (congrArg UInt8.toNat (beq_iff_eq.mp hkey))
  · exact le_tailByte n

theorem tailByte_le_ite {key high : UInt8} (h : b.toNat = key.toNat → n % 64 + 128 ≤ high.toNat) :
    tailByte n ≤ if b == key then high else 0xbf := by
  split
  next hkey =>
    rw [UInt8.le_iff_toNat_le, toNat_tailByte]
    exact h (congrArg UInt8.toNat (beq_iff_eq.mp hkey))
  · exact tailByte_le n

end

/-- The bytes of a character show it. -/
theorem showBytes_encoded (c : Char) (bytes : List UInt8) :
    showBytes none (String.utf8EncodeChar c ++ bytes) = c :: showBytes none bytes := by
  have hvalid : c.toNat < 0xd800 ∨ 0xdfff < c.toNat ∧ c.toNat < 0x110000 := c.valid
  have hfirst : ∀ n < 256, (UInt8.ofNat n).toNat = n := fun n h => UInt8.toNat_ofNat_of_lt' h
  rw [String.utf8EncodeChar, show c.val.toNat = c.toNat from rfl]
  generalize hv : c.toNat = v at hvalid ⊢
  obtain rfl : c = Char.ofNat v := by rw [← hv, Char.ofNat_toNat]
  by_cases h1 : v ≤ 127
  · have hb := hfirst v (by omega)
    rw [if_pos h1, List.singleton_append, showBytes, PartialCharacter.next,
      PartialCharacter.first_of_one (by omega), hb]
    rfl
  by_cases h2 : v ≤ 2047
  · have hb := hfirst (v / 64 % 32 + 192) (by omega)
    have hshown : showBytes none (UInt8.ofNat (v / 64 % 32 + 192) :: tailByte v :: bytes) =
        Char.ofNat v :: showBytes none bytes := by
      rw [showBytes_first (PartialCharacter.first_of_two (by omega) (by omega)),
        showBytes_last (le_tailByte v) (tailByte_le v), hb, toNat_tailByte]
      congr 2
      omega
    rwa [if_neg h1, if_pos h2]
  by_cases h3 : v ≤ 65535
  · have hb := hfirst (v / 4096 % 16 + 224) (by omega)
    have hshown : showBytes none (UInt8.ofNat (v / 4096 % 16 + 224) :: tailByte (v / 64) ::
        tailByte v :: bytes) = Char.ofNat v :: showBytes none bytes := by
      rw [showBytes_first (PartialCharacter.first_of_three (by omega) (by omega)),
        showBytes_more (ite_le_tailByte ?_) (tailByte_le_ite ?_),
        showBytes_last (le_tailByte v) (tailByte_le v), hb, toNat_tailByte, toNat_tailByte]
      · congr 2
        omega
      · simp only [hb, UInt8.toNat_ofNat]
        omega
      · simp only [hb, UInt8.toNat_ofNat]
        omega
    rwa [if_neg h1, if_neg h2, if_pos h3]
  · have hb := hfirst (v / 262144 % 8 + 240) (by omega)
    have hshown : showBytes none (UInt8.ofNat (v / 262144 % 8 + 240) :: tailByte (v / 4096) ::
        tailByte (v / 64) :: tailByte v :: bytes) = Char.ofNat v :: showBytes none bytes := by
      rw [showBytes_first (PartialCharacter.first_of_four (by omega) (by omega)),
        showBytes_more (ite_le_tailByte ?_) (tailByte_le_ite ?_),
        showBytes_more (le_tailByte _) (tailByte_le _),
        showBytes_last (le_tailByte v) (tailByte_le v), hb, toNat_tailByte, toNat_tailByte,
        toNat_tailByte]
      · congr 2
        omega
      · simp only [hb, UInt8.toNat_ofNat]
        omega
      · simp only [hb, UInt8.toNat_ofNat]
        omega
    rwa [if_neg h1, if_neg h2, if_neg h3]

theorem showBytes_flatMap (text : List Char) :
    showBytes none (text.flatMap String.utf8EncodeChar) = text := by
  induction text with
  | nil => rfl
  | cons c text ih => rw [List.flatMap_cons, showBytes_encoded, ih]

/-! ### Names -/

/-- A name, or a path made of names. -/
@[ext] structure OsString where
  bytes : List UInt8
deriving DecidableEq, Repr, Hashable

namespace OsString

def ofString (text : String) : OsString := ⟨text.toByteArray.data.toList⟩

instance coeText : Coe String OsString := ⟨ofString⟩

/-- Texts are names one by one. -/
instance coeTexts : Coe (List String) (List OsString) := ⟨List.map ofString⟩

/-- The text that the bytes encode, if they encode one. -/
def toString? (s : OsString) : Option String := String.fromUTF8? ⟨s.bytes.toArray⟩

/-- The name as it is shown. -/
def text (s : OsString) : String := .ofList (showBytes none s.bytes)

theorem bytes_ofString (text : String) :
    (ofString text).bytes = text.toList.flatMap String.utf8EncodeChar := by
  rw [ofString, ← String.utf8Encode_toList, List.utf8Encode, List.toList_data_toByteArray]

theorem bytes_append (text text' : String) :
    (ofString (text ++ text')).bytes = (ofString text).bytes ++ (ofString text').bytes := by
  rw [bytes_ofString, bytes_ofString, bytes_ofString, String.toList_append, List.flatMap_append]

/-- A text is shown as it is. -/
theorem text_ofString (text : String) : (ofString text).text = text := by
  rw [OsString.text, bytes_ofString, showBytes_flatMap, String.ofList_toList]

end OsString

end ModuleScan
