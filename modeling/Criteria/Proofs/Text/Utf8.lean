import Mathlib.Data.List.Basic
import Mathlib.Tactic.SplitIfs
import Criteria.Text.Utf8

/-!
# Reading UTF-8

Bytes are read as characters exactly when they are the characters' bytes one after another
(`decode_eq_ok_iff`), so no two texts have the same bytes and nothing else is read.

* `charBytes`: the bytes of a character, `textBytes`: those of a text;
* `charBytes_of_readFollowing`, `readFollowing_charBytes`: what is read from a first byte on is a
  character with these bytes, and every character is read;
* `decodeFrom_cons_eq_ok_iff`: a step of reading a text, by its first character.
-/

namespace Criteria.Utf8

variable {byte n position : Nat} {tail rest bytes : List Nat} {c : Char} {content : List Char}

/-- The bytes of a character. -/
def charBytes (c : Char) : List Nat := (String.utf8EncodeChar c).map UInt8.toNat

/-- The bytes of a text. -/
def textBytes (content : List Char) : List Nat := content.flatMap charBytes

/-! ### One character -/

theorem toNat_lt (c : Char) : c.toNat < 0xD800 ∨ 0xDFFF < c.toNat ∧ c.toNat < 0x110000 := c.valid

theorem toNat_ofNat (h : n < 0xD800 ∨ 0xDFFF < n ∧ n < 0x110000) : (Char.ofNat n).toNat = n := by
  have hvalid : n.isValidChar := h
  rw [Char.ofNat, dif_pos hvalid]
  rfl

/-- The bytes of a character by its number. -/
theorem charBytes_eq :
    charBytes c =
      if c.toNat < 0x80 then [c.toNat]
      else if c.toNat < 0x800 then [c.toNat / 64 + 0xC0, c.toNat % 64 + 0x80]
      else if c.toNat < 0x10000 then
        [c.toNat / 4096 + 0xE0, c.toNat / 64 % 64 + 0x80, c.toNat % 64 + 0x80]
      else
        [c.toNat / 262144 + 0xF0, c.toNat / 4096 % 64 + 0x80, c.toNat / 64 % 64 + 0x80,
          c.toNat % 64 + 0x80] := by
  have hc := toNat_lt c
  have htoNat : c.val.toNat = c.toNat := rfl
  rw [charBytes, String.utf8EncodeChar]
  simp only [htoNat]
  split_ifs <;> simp <;> omega

/-- The first bytes, by how many bytes follow. -/
theorem lead?_cases {lead : Lead} (h : lead? byte = some lead) :
    byte < 0x80 ∧ lead = ⟨0, 0, 0, byte⟩ ∨
      (0xC2 ≤ byte ∧ byte < 0xE0) ∧ lead = ⟨1, 0x80, 0xBF, byte - 0xC0⟩ ∨
      (0xE0 ≤ byte ∧ byte < 0xF0) ∧ lead =
        ⟨2, if byte = 0xE0 then 0xA0 else 0x80, if byte = 0xED then 0x9F else 0xBF, byte - 0xE0⟩ ∨
      (0xF0 ≤ byte ∧ byte < 0xF5) ∧ lead =
        ⟨3, if byte = 0xF0 then 0x90 else 0x80, if byte = 0xF4 then 0x8F else 0xBF, byte - 0xF0⟩ := by
  rw [lead?] at h
  by_cases h1 : byte < 0x80
  · rw [if_pos h1] at h
    exact .inl ⟨h1, (Option.some.inj h).symm⟩
  rw [if_neg h1] at h
  by_cases h2 : byte < 0xC2
  · rw [if_pos h2] at h
    cases h
  rw [if_neg h2] at h
  by_cases h3 : byte < 0xE0
  · rw [if_pos h3] at h
    exact .inr (.inl ⟨⟨Nat.le_of_not_lt h2, h3⟩, (Option.some.inj h).symm⟩)
  rw [if_neg h3] at h
  by_cases h4 : byte < 0xF0
  · rw [if_pos h4] at h
    exact .inr (.inr (.inl ⟨⟨Nat.le_of_not_lt h3, h4⟩, (Option.some.inj h).symm⟩))
  rw [if_neg h4] at h
  by_cases h5 : byte < 0xF5
  · rw [if_pos h5] at h
    exact .inr (.inr (.inr ⟨⟨Nat.le_of_not_lt h4, h5⟩, (Option.some.inj h).symm⟩))
  · rw [if_neg h5] at h
    cases h

theorem readFollowing_cons_iff {least greatest taken bits more : Nat} :
    readFollowing least greatest taken bits (more + 1) (byte :: rest) = .ok n ↔
      (least ≤ byte ∧ byte ≤ greatest) ∧
        readFollowing 0x80 0xBF (taken + 1) (64 * bits + (byte - 0x80)) more rest = .ok n := by
  rw [readFollowing]
  split_ifs with h <;> simp [h]

/-- As many bytes are read as follow the first one. -/
theorem exists_append_of_readFollowing {least greatest taken bits more : Nat}
    (h : readFollowing least greatest taken bits more bytes = .ok n) :
    ∃ tail rest, bytes = tail ++ rest ∧ tail.length = more := by
  induction more generalizing least greatest taken bits bytes with
  | zero => exact ⟨[], bytes, rfl, rfl⟩
  | succ more ih =>
    cases bytes with
    | nil => cases h
    | cons byte bytes =>
      obtain ⟨-, hread⟩ := readFollowing_cons_iff.1 h
      obtain ⟨tail, rest, rfl, rfl⟩ := ih hread
      exact ⟨byte :: tail, rest, rfl, rfl⟩

/-- A number that is read from a first byte on is that of a character with these bytes. -/
theorem charBytes_of_readFollowing {lead : Lead} (hlead : lead? byte = some lead)
    (hlength : tail.length = lead.more)
    (hread : readFollowing lead.least lead.greatest 1 lead.bits lead.more (tail ++ rest) = .ok n) :
    charBytes (Char.ofNat n) = byte :: tail := by
  rcases lead?_cases hlead with ⟨h, rfl⟩ | ⟨h, rfl⟩ | ⟨h, rfl⟩ | ⟨h, rfl⟩ <;>
    dsimp only at hlength hread
  · obtain rfl := List.length_eq_zero_iff.1 hlength
    obtain rfl := Except.ok.inj hread
    rw [charBytes_eq, toNat_ofNat (by omega), if_pos h]
  · obtain ⟨b, rfl⟩ := List.length_eq_one_iff.1 hlength
    obtain ⟨hb, hn⟩ := readFollowing_cons_iff.1 hread
    have hn := Except.ok.inj hn
    rw [charBytes_eq, toNat_ofNat (by omega), if_neg (by omega), if_pos (by omega)]
    simp only [List.cons.injEq, and_true]
    omega
  · obtain ⟨b, c, rfl⟩ := List.length_eq_two.1 hlength
    obtain ⟨hb, hread⟩ := readFollowing_cons_iff.1 hread
    obtain ⟨hc, hn⟩ := readFollowing_cons_iff.1 hread
    have hn := Except.ok.inj hn
    have hb : 0x80 ≤ b ∧ b ≤ 0xBF ∧ (byte = 0xE0 → 0xA0 ≤ b) ∧ (byte = 0xED → b ≤ 0x9F) := by
      split_ifs at hb <;> omega
    rw [charBytes_eq, toNat_ofNat (by omega), if_neg (by omega), if_neg (by omega),
      if_pos (by omega)]
    simp only [List.cons.injEq, and_true]
    omega
  · obtain ⟨b, c, d, rfl⟩ := List.length_eq_three.1 hlength
    obtain ⟨hb, hread⟩ := readFollowing_cons_iff.1 hread
    obtain ⟨hc, hread⟩ := readFollowing_cons_iff.1 hread
    obtain ⟨hd, hn⟩ := readFollowing_cons_iff.1 hread
    have hn := Except.ok.inj hn
    have hb : 0x80 ≤ b ∧ b ≤ 0xBF ∧ (byte = 0xF0 → 0x90 ≤ b) ∧ (byte = 0xF4 → b ≤ 0x8F) := by
      split_ifs at hb <;> omega
    rw [charBytes_eq, toNat_ofNat (by omega), if_neg (by omega), if_neg (by omega),
      if_neg (by omega)]
    simp only [List.cons.injEq, and_true]
    omega

/-- The bytes of a character are read as its number. -/
theorem readFollowing_charBytes (h : charBytes c = byte :: tail) :
    ∃ lead, lead? byte = some lead ∧ lead.more = tail.length ∧
      readFollowing lead.least lead.greatest 1 lead.bits lead.more (tail ++ rest) = .ok c.toNat := by
  have hc := toNat_lt c
  rw [charBytes_eq] at h
  split_ifs at h with h1 h2 h3 <;> cases h
  · exact ⟨_, by rw [lead?, if_pos h1], rfl, rfl⟩
  · refine ⟨_, by rw [lead?, if_neg (by omega), if_neg (by omega), if_pos (by omega)], rfl, ?_⟩
    refine readFollowing_cons_iff.2 ⟨?_, congrArg Except.ok ?_⟩ <;> dsimp only <;> omega
  · refine ⟨_, by rw [lead?, if_neg (by omega), if_neg (by omega), if_neg (by omega),
      if_pos (by omega)], rfl, ?_⟩
    refine readFollowing_cons_iff.2 ⟨?_, readFollowing_cons_iff.2 ⟨by omega, congrArg Except.ok ?_⟩⟩ <;>
      dsimp only
    · split_ifs <;> omega
    · omega
  · refine ⟨_, by rw [lead?, if_neg (by omega), if_neg (by omega), if_neg (by omega),
      if_neg (by omega), if_pos (by omega)], rfl, ?_⟩
    refine readFollowing_cons_iff.2 ⟨?_, readFollowing_cons_iff.2 ⟨by omega,
      readFollowing_cons_iff.2 ⟨by omega, congrArg Except.ok ?_⟩⟩⟩ <;> dsimp only
    · split_ifs <;> omega
    · omega

/-! ### A text -/

/-- The bytes of a character that follow its first one are passed over. -/
theorem decodeFrom_append :
    decodeFrom (tail ++ rest) position tail.length =
      decodeFrom rest (position + tail.length) 0 := by
  induction tail generalizing position with
  | nil => rfl
  | cons byte tail ih =>
    rw [List.cons_append, List.length_cons, decodeFrom, ih, Nat.add_assoc, Nat.add_comm 1]

theorem textBytes_cons : textBytes (c :: content) = charBytes c ++ textBytes content :=
  List.flatMap_cons

theorem charBytes_ne_nil : charBytes c ≠ [] := by
  rw [charBytes_eq]
  split_ifs <;> exact List.cons_ne_nil _ _

/-- A text is read from a first byte on if its first character is, and the rest after it. -/
theorem decodeFrom_cons_eq_ok_iff :
    decodeFrom (byte :: bytes) position 0 = .ok content ↔
      ∃ lead n later, lead? byte = some lead ∧
        readFollowing lead.least lead.greatest 1 lead.bits lead.more bytes = .ok n ∧
        decodeFrom bytes (position + 1) lead.more = .ok later ∧ content = Char.ofNat n :: later := by
  rw [decodeFrom]
  cases hlead : lead? byte with
  | none => simp
  | some lead =>
    cases hread : readFollowing lead.least lead.greatest 1 lead.bits lead.more bytes with
    | error fault => simp [hread]
    | ok n =>
      cases hlater : decodeFrom bytes (position + 1) lead.more with
      | error fault => simp [hread, hlater, Except.map]
      | ok later => simp [hread, hlater, Except.map, eq_comm]

/-- The bytes of a text are read as that text. -/
theorem decodeFrom_textBytes : decodeFrom (textBytes content) position 0 = .ok content := by
  induction content generalizing position with
  | nil => rfl
  | cons c content ih =>
    obtain ⟨byte, tail, hbytes⟩ := List.exists_cons_of_ne_nil (@charBytes_ne_nil c)
    obtain ⟨lead, hlead, hmore, hread⟩ := @readFollowing_charBytes _ _ (textBytes content) _ hbytes
    rw [textBytes_cons, hbytes, List.cons_append, decodeFrom_cons_eq_ok_iff]
    refine ⟨lead, c.toNat, content, hlead, hread, ?_, by rw [Char.ofNat_toNat]⟩
    rw [hmore, decodeFrom_append, ih]

/-- Bytes that are read as a text are the bytes of that text. -/
theorem eq_textBytes_of_decodeFrom (h : decodeFrom bytes position 0 = .ok content) :
    bytes = textBytes content := by
  induction content generalizing bytes position with
  | nil =>
    cases bytes with
    | nil => rfl
    | cons byte bytes =>
      obtain ⟨_, _, _, -, -, -, hcontent⟩ := decodeFrom_cons_eq_ok_iff.1 h
      cases hcontent
  | cons c content ih =>
    cases bytes with
    | nil => cases h
    | cons byte bytes =>
      obtain ⟨lead, n, later, hlead, hread, hlater, hcontent⟩ := decodeFrom_cons_eq_ok_iff.1 h
      obtain ⟨rfl, rfl⟩ := List.cons.inj hcontent
      obtain ⟨tail, rest, rfl, hlength⟩ := exists_append_of_readFollowing hread
      rw [← hlength, decodeFrom_append] at hlater
      rw [textBytes_cons, charBytes_of_readFollowing hlead hlength hread, ← ih hlater,
        List.cons_append]

/-- Bytes are read as a text exactly if they are the bytes of that text. -/
theorem decode_eq_ok_iff : decode bytes = .ok content ↔ bytes = textBytes content := by
  constructor
  · exact eq_textBytes_of_decodeFrom
  · rintro rfl
    exact decodeFrom_textBytes

end Criteria.Utf8
