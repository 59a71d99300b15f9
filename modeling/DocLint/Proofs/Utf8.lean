-- SUMMARY: Decoding and encoding undo each other, and a text is no longer than its bytes.
import DocLint.Path

/-! # Encoding and decoding

The decoder reads the bytes of one character and is then between two characters again, so a
text comes back character by character. This needs that the bytes of every character are ones
that the decoder lets follow each other, also where it is strict: after the first bytes E0, ED,
F0 and F4, which are strict to keep out codes that are no characters. Because it is strict there,
it also reads a character from nothing but the bytes of that character, so bytes that decode to a
text are the bytes of the text.
-/

namespace DocLint.Text

/-- Going through a list comes to a result if every element of it does. -/
theorem mapM_eq_some_iff {α β : Type} {f : α → Option β} {as : List α} {bs : List β} :
    as.mapM f = some bs ↔ as.map f = bs.map some := by
  induction as generalizing bs with
  | nil => cases bs <;> simp
  | cons a as ih =>
    simp only [List.mapM_cons, Option.pure_def, Option.bind_eq_bind, Option.bind_eq_some_iff, ih]
    cases bs <;> simp

namespace Utf8

/-! ## Steps of the decoder -/

section Steps

variable {b : UInt8} {value missing lo hi : Nat}

theorem scan_first_of_one (h : b.toNat < 0x80) (rest : Bytes) :
    scan none (b :: rest) = some (Char.ofNat b.toNat) :: scan none rest := by
  simp [scan, start, h]

theorem scan_first_of_two (h : 0xC2 ≤ b.toNat) (h' : b.toNat < 0xE0) (rest : Bytes) :
    scan none (b :: rest) = scan (some ⟨b.toNat - 0xC0, 1, 0x80, 0xBF⟩) rest := by
  have hstart : start b = ([], some ⟨b.toNat - 0xC0, 1, 0x80, 0xBF⟩) := by
    grind [start]
  simp [scan, hstart]

theorem scan_first_of_three (h : 0xE0 ≤ b.toNat) (h' : b.toNat < 0xF0) (rest : Bytes) :
    scan none (b :: rest) =
      scan (some ⟨b.toNat - 0xE0, 2, if b.toNat = 0xE0 then 0xA0 else 0x80,
        if b.toNat = 0xED then 0x9F else 0xBF⟩) rest := by
  have hstart : start b = ([], some ⟨b.toNat - 0xE0, 2, if b.toNat = 0xE0 then 0xA0 else 0x80,
      if b.toNat = 0xED then 0x9F else 0xBF⟩) := by
    grind [start]
  simp [scan, hstart]

theorem scan_first_of_four (h : 0xF0 ≤ b.toNat) (h' : b.toNat < 0xF5) (rest : Bytes) :
    scan none (b :: rest) =
      scan (some ⟨b.toNat - 0xF0, 3, if b.toNat = 0xF0 then 0x90 else 0x80,
        if b.toNat = 0xF4 then 0x8F else 0xBF⟩) rest := by
  have hstart : start b = ([], some ⟨b.toNat - 0xF0, 3, if b.toNat = 0xF0 then 0x90 else 0x80,
      if b.toNat = 0xF4 then 0x8F else 0xBF⟩) := by
    grind [start]
  simp [scan, hstart]

theorem scan_further (h : lo ≤ b.toNat) (h' : b.toNat ≤ hi) (rest : Bytes) :
    scan (some ⟨value, missing + 2, lo, hi⟩) (b :: rest) =
      scan (some ⟨value * 64 + (b.toNat - 0x80), missing + 1, 0x80, 0xBF⟩) rest := by
  simp [scan, Unfinished.accepts, Unfinished.next, h, h']

theorem scan_last (h : lo ≤ b.toNat) (h' : b.toNat ≤ hi) (rest : Bytes) :
    scan (some ⟨value, 1, lo, hi⟩) (b :: rest) =
      some (Char.ofNat (value * 64 + (b.toNat - 0x80))) :: scan none rest := by
  simp [scan, Unfinished.accepts, Unfinished.next, h, h']

/-- A byte that may not follow ends a damaged part and starts something new. -/
theorem scan_refused {u : Unfinished} {b : UInt8} (h : u.accepts b = false) (rest : Bytes) :
    scan (some u) (b :: rest) = none :: scan none (b :: rest) := by
  simp [scan, h]

theorem scan_accepted {u : Unfinished} {b : UInt8} (h : u.accepts b = true) (rest : Bytes) :
    scan (some u) (b :: rest) = (u.next b).1 ++ scan (u.next b).2 rest := by
  simp [scan, h]

end Steps

/-! ## One character -/

theorem toNat_toUInt8 {n : Nat} (h : n < 256) : n.toUInt8.toNat = n := by
  simp [Nat.mod_eq_of_lt h]

/-- The codes of characters leave out those of halves of surrogate pairs. -/
theorem toNat_cases (c : Char) : c.toNat < 0xD800 ∨ 0xDFFF < c.toNat ∧ c.toNat < 0x110000 :=
  c.valid

theorem toNat_ofNat_of_isValidChar {n : Nat} (h : n.isValidChar) : (Char.ofNat n).toNat = n := by
  rw [Char.ofNat, dif_pos h]
  rfl

/-- A character that was encoded is read back. Each length has its own first byte. -/
theorem scan_encodeChar (c : Char) (rest : Bytes) :
    scan none (encodeChar c ++ rest) = some c :: scan none rest := by
  have hc := Char.ofNat_toNat c
  have hcases := toNat_cases c
  unfold encodeChar
  generalize c.toNat = n at hc hcases
  subst hc
  simp only
  split
  · have hb := toNat_toUInt8 (n := n) (by omega)
    rw [List.singleton_append, scan_first_of_one (by omega), hb]
  split
  · have hb := toNat_toUInt8 (n := 0xC0 + n / 64) (by omega)
    have hb' := toNat_toUInt8 (n := 0x80 + n % 64) (by omega)
    have hvalue : (0xC0 + n / 64 - 0xC0) * 64 + (0x80 + n % 64 - 0x80) = n := by omega
    rw [List.cons_append, List.cons_append, List.nil_append,
      scan_first_of_two (by omega) (by omega), scan_last (by omega) (by omega), hb, hb', hvalue]
  split
  · have hb := toNat_toUInt8 (n := 0xE0 + n / 4096) (by omega)
    have hb' := toNat_toUInt8 (n := 0x80 + n / 64 % 64) (by omega)
    have hb'' := toNat_toUInt8 (n := 0x80 + n % 64) (by omega)
    have hvalue : ((0xE0 + n / 4096 - 0xE0) * 64 + (0x80 + n / 64 % 64 - 0x80)) * 64 +
        (0x80 + n % 64 - 0x80) = n := by omega
    rw [List.cons_append, List.cons_append, List.cons_append, List.nil_append,
      scan_first_of_three (by omega) (by omega),
      scan_further (by rw [hb, hb']; split <;> omega) (by rw [hb, hb']; split <;> omega),
      scan_last (by omega) (by omega), hb, hb', hb'', hvalue]
  · have hb := toNat_toUInt8 (n := 0xF0 + n / 262144) (by omega)
    have hb' := toNat_toUInt8 (n := 0x80 + n / 4096 % 64) (by omega)
    have hb'' := toNat_toUInt8 (n := 0x80 + n / 64 % 64) (by omega)
    have hb''' := toNat_toUInt8 (n := 0x80 + n % 64) (by omega)
    have hvalue : (((0xF0 + n / 262144 - 0xF0) * 64 + (0x80 + n / 4096 % 64 - 0x80)) * 64 +
        (0x80 + n / 64 % 64 - 0x80)) * 64 + (0x80 + n % 64 - 0x80) = n := by omega
    rw [List.cons_append, List.cons_append, List.cons_append, List.cons_append, List.nil_append,
      scan_first_of_four (by omega) (by omega),
      scan_further (by rw [hb, hb']; split <;> omega) (by rw [hb, hb']; split <;> omega),
      scan_further (by omega) (by omega), scan_last (by omega) (by omega), hb, hb', hb'', hb''',
      hvalue]

/-! ## Texts -/

/-- By induction over the text: what was encoded is read back. -/
theorem scan_encode (text : List Char) : scan none (encode text) = text.map some := by
  induction text with
  | nil => rfl
  | cons c text ih =>
    have hcons : encode (c :: text) = encodeChar c ++ encode text := rfl
    rw [hcons, scan_encodeChar, ih, List.map_cons]

/-- Bytes decode if the scan finds no damage. -/
theorem decode?_eq_some_iff_scan {bytes : Bytes} {text : List Char} :
    decode? bytes = some text ↔ scan none bytes = text.map some := by
  rw [decode?, mapM_eq_some_iff, List.map_id]

@[simp] theorem decode?_encode (text : List Char) : decode? (encode text) = some text :=
  decode?_eq_some_iff_scan.mpr (scan_encode text)

@[simp] theorem lossy_encode (text : List Char) : lossy (encode text) = text := by
  rw [lossy, scan_encode, List.map_map]
  exact List.map_id text

theorem length_start (b : UInt8) : (start b).1.length + (start b).2.toList.length = 1 := by
  unfold start
  simp only
  repeat' split
  all_goals rfl

theorem length_next (u : Unfinished) (b : UInt8) :
    (u.next b).1.length + (u.next b).2.toList.length = 1 := by
  unfold Unfinished.next
  simp only
  split
  all_goals rfl

/-- Every byte yields at most one item, and a character that is not finished one more. -/
theorem length_scan_le (state : Option Unfinished) (bytes : Bytes) :
    (scan state bytes).length ≤ bytes.length + state.toList.length := by
  induction bytes generalizing state with
  | nil => cases state <;> simp [scan]
  | cons b rest ih =>
    have hstart := length_start b
    have hrest := ih (start b).2
    cases state with
    | none =>
      simp only [scan, List.length_append, List.length_cons, Option.toList_none, List.length_nil]
      omega
    | some u =>
      have hnext := length_next u b
      have hfurther := ih (u.next b).2
      simp only [scan, List.length_cons, Option.toList_some, List.length_nil]
      split
      · rw [List.length_append]
        omega
      · rw [List.length_cons, List.length_append]
        omega

/-- A text has at most as many characters as bytes. -/
theorem length_le_of_decode? {bytes : Bytes} {text : List Char} (h : decode? bytes = some text) :
    text.length ≤ bytes.length := by
  have hlength := length_scan_le none bytes
  rw [decode?_eq_some_iff_scan.mp h, List.length_map] at hlength
  exact hlength

/-! ## Bytes that are text -/

theorem toUInt8_of_toNat_eq {b : UInt8} {n : Nat} (h : n = b.toNat) : n.toUInt8 = b := by
  subst h
  exact UInt8.ofNat_toNat

/-- A character that is read from inside takes a byte that may follow. -/
theorem exists_accepted_of_scan {u : Unfinished} {bytes : Bytes} {c : Char}
    {items : List (Option Char)} (h : scan (some u) bytes = some c :: items) :
    ∃ b rest, bytes = b :: rest ∧ u.lo ≤ b.toNat ∧ b.toNat ≤ u.hi ∧
      (u.next b).1 ++ scan (u.next b).2 rest = some c :: items := by
  cases bytes with
  | nil => simp [scan] at h
  | cons b rest =>
    cases hb : u.accepts b with
    | false => simp [scan_refused hb] at h
    | true =>
      obtain ⟨hlo, hhi⟩ : u.lo ≤ b.toNat ∧ b.toNat ≤ u.hi := by
        simpa [Unfinished.accepts] using hb
      exact ⟨b, rest, rfl, hlo, hhi, scan_accepted hb rest ▸ h⟩

section Reading

variable {bytes : Bytes} {c : Char} {items : List (Option Char)} {value missing lo hi : Nat}

/-- Inversion: where the last byte of a character is missing, it is there and in range. -/
theorem exists_last_of_scan (h : scan (some ⟨value, 1, lo, hi⟩) bytes = some c :: items) :
    ∃ b rest, bytes = b :: rest ∧ lo ≤ b.toNat ∧ b.toNat ≤ hi ∧
      Char.ofNat (value * 64 + (b.toNat - 0x80)) = c ∧ scan none rest = items := by
  obtain ⟨b, rest, rfl, hlo, hhi, hnext⟩ := exists_accepted_of_scan h
  obtain ⟨hc, hitems⟩ : some (Char.ofNat (value * 64 + (b.toNat - 0x80))) = some c ∧ _ :=
    List.cons.inj hnext
  exact ⟨b, rest, rfl, hlo, hhi, Option.some.inj hc, hitems⟩

/-- Inversion: where more than one byte is missing, the next one is there and in range. -/
theorem exists_further_of_scan
    (h : scan (some ⟨value, missing + 2, lo, hi⟩) bytes = some c :: items) :
    ∃ b rest, bytes = b :: rest ∧ lo ≤ b.toNat ∧ b.toNat ≤ hi ∧
      scan (some ⟨value * 64 + (b.toNat - 0x80), missing + 1, 0x80, 0xBF⟩) rest =
        some c :: items := by
  obtain ⟨b, rest, rfl, hlo, hhi, hnext⟩ := exists_accepted_of_scan h
  refine ⟨b, rest, rfl, hlo, hhi, ?_⟩
  simpa [Unfinished.next] using hnext

theorem encodeChar_one {a : UInt8} (ha : a.toNat < 0x80) :
    encodeChar (Char.ofNat a.toNat) = [a] := by
  have hcode : (Char.ofNat a.toNat).toNat = a.toNat :=
    toNat_ofNat_of_isValidChar (.inl (by omega))
  unfold encodeChar
  simp only [hcode]
  rw [if_pos ha, toUInt8_of_toNat_eq rfl]

theorem encodeChar_two {a b : UInt8} (ha : 0xC2 ≤ a.toNat) (ha' : a.toNat < 0xE0)
    (hb : 0x80 ≤ b.toNat) (hb' : b.toNat ≤ 0xBF) :
    encodeChar (Char.ofNat ((a.toNat - 0xC0) * 64 + (b.toNat - 0x80))) = [a, b] := by
  have hcode : (Char.ofNat ((a.toNat - 0xC0) * 64 + (b.toNat - 0x80))).toNat =
      (a.toNat - 0xC0) * 64 + (b.toNat - 0x80) :=
    toNat_ofNat_of_isValidChar (.inl (by omega))
  unfold encodeChar
  simp only [hcode]
  rw [if_neg (by omega), if_pos (by omega), toUInt8_of_toNat_eq (b := a) (by omega),
    toUInt8_of_toNat_eq (b := b) (by omega)]

/-- A character read from three bytes is encoded as these, since neither overlong forms nor
    surrogates are read. -/
theorem encodeChar_three {a b d : UInt8} (ha : 0xE0 ≤ a.toNat) (ha' : a.toNat < 0xF0)
    (hb : (if a.toNat = 0xE0 then 0xA0 else 0x80) ≤ b.toNat)
    (hb' : b.toNat ≤ if a.toNat = 0xED then 0x9F else 0xBF)
    (hd : 0x80 ≤ d.toNat) (hd' : d.toNat ≤ 0xBF) :
    encodeChar (Char.ofNat
      (((a.toNat - 0xE0) * 64 + (b.toNat - 0x80)) * 64 + (d.toNat - 0x80))) = [a, b, d] := by
  have hlow : a.toNat = 0xE0 → 0xA0 ≤ b.toNat := by grind
  have hhigh : a.toNat = 0xED → b.toNat ≤ 0x9F := by grind
  have hrange : 0x80 ≤ b.toNat ∧ b.toNat ≤ 0xBF := by grind
  have hcode : (Char.ofNat
      (((a.toNat - 0xE0) * 64 + (b.toNat - 0x80)) * 64 + (d.toNat - 0x80))).toNat =
      ((a.toNat - 0xE0) * 64 + (b.toNat - 0x80)) * 64 + (d.toNat - 0x80) := by
    apply toNat_ofNat_of_isValidChar
    unfold Nat.isValidChar
    omega
  unfold encodeChar
  simp only [hcode]
  rw [if_neg (by omega), if_neg (by omega), if_pos (by omega),
    toUInt8_of_toNat_eq (b := a) (by omega), toUInt8_of_toNat_eq (b := b) (by omega),
    toUInt8_of_toNat_eq (b := d) (by omega)]

theorem encodeChar_four {a b d e : UInt8} (ha : 0xF0 ≤ a.toNat) (ha' : a.toNat < 0xF5)
    (hb : (if a.toNat = 0xF0 then 0x90 else 0x80) ≤ b.toNat)
    (hb' : b.toNat ≤ if a.toNat = 0xF4 then 0x8F else 0xBF)
    (hd : 0x80 ≤ d.toNat) (hd' : d.toNat ≤ 0xBF) (he : 0x80 ≤ e.toNat) (he' : e.toNat ≤ 0xBF) :
    encodeChar (Char.ofNat
      ((((a.toNat - 0xF0) * 64 + (b.toNat - 0x80)) * 64 + (d.toNat - 0x80)) * 64 +
        (e.toNat - 0x80))) = [a, b, d, e] := by
  have hlow : a.toNat = 0xF0 → 0x90 ≤ b.toNat := by grind
  have hhigh : a.toNat = 0xF4 → b.toNat ≤ 0x8F := by grind
  have hrange : 0x80 ≤ b.toNat ∧ b.toNat ≤ 0xBF := by grind
  have hcode : (Char.ofNat
      ((((a.toNat - 0xF0) * 64 + (b.toNat - 0x80)) * 64 + (d.toNat - 0x80)) * 64 +
        (e.toNat - 0x80))).toNat =
      (((a.toNat - 0xF0) * 64 + (b.toNat - 0x80)) * 64 + (d.toNat - 0x80)) * 64 +
        (e.toNat - 0x80) := by
    apply toNat_ofNat_of_isValidChar
    unfold Nat.isValidChar
    omega
  unfold encodeChar
  simp only [hcode]
  rw [if_neg (by omega), if_neg (by omega), if_neg (by omega),
    toUInt8_of_toNat_eq (b := a) (by omega), toUInt8_of_toNat_eq (b := b) (by omega),
    toUInt8_of_toNat_eq (b := d) (by omega), toUInt8_of_toNat_eq (b := e) (by omega)]

/-- A character is only ever read from the bytes that encode it. -/
theorem eq_encodeChar_of_scan (h : scan none bytes = some c :: items) :
    ∃ rest, bytes = encodeChar c ++ rest ∧ scan none rest = items := by
  cases bytes with
  | nil => simp [scan] at h
  | cons a rest =>
    by_cases h1 : a.toNat < 0x80
    · rw [scan_first_of_one h1] at h
      obtain ⟨hc, hitems⟩ := List.cons.inj h
      obtain rfl := Option.some.inj hc
      exact ⟨rest, by rw [encodeChar_one h1]; rfl, hitems⟩
    by_cases h2 : a.toNat < 0xC2
    · have hstart : start a = ([none], none) := by grind [start]
      simp [scan, hstart] at h
    by_cases h3 : a.toNat < 0xE0
    · rw [scan_first_of_two (by omega) h3] at h
      obtain ⟨b, rest, rfl, hb, hb', rfl, hitems⟩ := exists_last_of_scan h
      exact ⟨rest, by rw [encodeChar_two (by omega) h3 hb hb']; rfl, hitems⟩
    by_cases h4 : a.toNat < 0xF0
    · rw [scan_first_of_three (by omega) h4] at h
      obtain ⟨b, rest, rfl, hb, hb', h⟩ := exists_further_of_scan h
      obtain ⟨d, rest, rfl, hd, hd', rfl, hitems⟩ := exists_last_of_scan h
      exact ⟨rest, by rw [encodeChar_three (by omega) h4 hb hb' hd hd']; rfl, hitems⟩
    by_cases h5 : a.toNat < 0xF5
    · rw [scan_first_of_four (by omega) h5] at h
      obtain ⟨b, rest, rfl, hb, hb', h⟩ := exists_further_of_scan h
      obtain ⟨d, rest, rfl, hd, hd', h⟩ := exists_further_of_scan h
      obtain ⟨e, rest, rfl, he, he', rfl, hitems⟩ := exists_last_of_scan h
      exact ⟨rest, by rw [encodeChar_four (by omega) h5 hb hb' hd hd' he he']; rfl, hitems⟩
    · have hstart : start a = ([none], none) := by grind [start]
      simp [scan, hstart] at h

end Reading

theorem scan_eq_nil {state : Option Unfinished} {bytes : Bytes} (h : scan state bytes = []) :
    state = none ∧ bytes = [] := by
  induction bytes generalizing state with
  | nil =>
    cases state with
    | none => exact ⟨rfl, rfl⟩
    | some u => cases h
  | cons b rest ih =>
    -- every byte yields something or leaves something unfinished
    have hstart := length_start b
    cases state with
    | none =>
      obtain ⟨hyield, hrest⟩ := List.append_eq_nil_iff.mp h
      simp [hyield, (ih hrest).1] at hstart
    | some u =>
      have hnext := length_next u b
      cases hb : u.accepts b with
      | true =>
        rw [scan_accepted hb] at h
        obtain ⟨hyield, hrest⟩ := List.append_eq_nil_iff.mp h
        simp [hyield, (ih hrest).1] at hnext
      | false =>
        rw [scan_refused hb] at h
        cases h

/-- By induction over the text: bytes that are read without damage are its encoding. -/
theorem eq_encode_of_scan {bytes : Bytes} {text : List Char}
    (h : scan none bytes = text.map some) : bytes = encode text := by
  induction text generalizing bytes with
  | nil => exact (scan_eq_nil h).2
  | cons c text ih =>
    obtain ⟨rest, rfl, hrest⟩ := eq_encodeChar_of_scan h
    rw [ih hrest]
    rfl

/-- Bytes are text exactly if they are what the text is encoded as. -/
theorem decode?_eq_some_iff {bytes : Bytes} {text : List Char} :
    decode? bytes = some text ↔ bytes = encode text := by
  constructor
  · intro h
    exact eq_encode_of_scan (decode?_eq_some_iff_scan.mp h)
  · rintro rfl
    exact decode?_encode text

end Utf8

end DocLint.Text

namespace DocLint.Path

@[simp] theorem text_ofString (text : String) : (Path.ofString text).text = text := by
  simp [Path.text, ofString]

end DocLint.Path
