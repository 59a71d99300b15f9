-- SUMMARY: The extension of a path, said by its bytes, and which files are checked by it.
import DocLint.Proofs.Paths
import DocLint.Proofs.Utf8
import DocLint.Rules

/-! # Extensions

A path is decoded first and then cut at its last dot. It might as well be cut first: a dot and a
slash are each one ASCII byte, no such byte is part of a longer character, and it ends a damaged
part. So the extension is the text of the bytes after the last dot, whatever comes before them.
An extension without a slash in it is then one that the name of the file has, and not one that
belongs to a directory above.
-/

namespace DocLint

namespace Text.Utf8

/-! ## Cutting at ASCII -/

/-- Whatever bytes come next, the character is not an ASCII one: none of those bytes is, and its
    code is too great. -/
structure Unfinished.BeyondAscii (u : Unfinished) : Prop where
  lo : 0x80 ≤ u.lo
  value : 2 ≤ u.value ∨ 2 ≤ u.missing ∧ 0x82 ≤ u.value * 64 + u.lo

/-- A character of several bytes is not in ASCII, from its first byte on. -/
theorem beyondAscii_start {b : UInt8} {u : Unfinished} (h : (start b).2 = some u) :
    u.BeyondAscii := by
  unfold start at h
  simp only at h
  repeat' split at h
  all_goals
    simp only [reduceCtorEq, Option.some.injEq] at h
  all_goals
    subst h
    constructor
    all_goals (simp only; omega)

theorem Unfinished.BeyondAscii.next {u v : Unfinished} (h : u.BeyondAscii) {b : UInt8}
    (hb : u.accepts b = true) (hv : (u.next b).2 = some v) : v.BeyondAscii := by
  obtain ⟨hlo, hvalue⟩ := h
  have hrange : u.lo ≤ b.toNat := (by simpa [accepts] using hb : u.lo ≤ b.toNat ∧ _).1
  unfold Unfinished.next at hv
  simp only at hv
  split at hv
  · simp at hv
  · rw [Option.some.injEq] at hv
    subst hv
    exact ⟨Nat.le_refl _, .inl (by simp only; omega)⟩

/-- An ASCII byte ends what comes before it, damaged or not, and what comes after it is read as if
    it came first. -/
theorem scan_append_ascii {state : Option Unfinished}
    (hstate : ∀ u, state = some u → u.BeyondAscii) (before : Bytes) {b : UInt8}
    (hb : b.toNat < 0x80) (after : Bytes) :
    scan state (before ++ b :: after) =
      scan state before ++ some (Char.ofNat b.toNat) :: scan none after := by
  induction before generalizing state with
  | nil =>
    have hfirst := scan_first_of_one hb after
    cases state with
    | none => exact hfirst
    | some u =>
      have hlo := (hstate u rfl).lo
      have hrefused : u.accepts b = false := by
        simp only [Unfinished.accepts, Bool.and_eq_false_iff, decide_eq_false_iff_not]
        omega
      rw [List.nil_append, scan_refused hrefused, hfirst]
      rfl
  | cons x before ih =>
    have hstart := ih fun u (hu : (start x).2 = some u) => beyondAscii_start hu
    cases state with
    | none =>
      rw [List.cons_append, scan, hstart, scan, List.append_assoc]
    | some u =>
      cases hx : u.accepts x with
      | true =>
        have hnext := ih fun v hv => (hstate u rfl).next hx hv
        rw [List.cons_append, scan_accepted hx, hnext, scan_accepted hx, List.append_assoc]
      | false =>
        rw [List.cons_append, scan_refused hx, scan, hstart, scan_refused hx, scan,
          List.cons_append, List.append_assoc]

/-- A code that no character has is taken for zero. -/
theorem toNat_ofNat_cases (n : Nat) : (Char.ofNat n).toNat = n ∨ (Char.ofNat n).toNat = 0 := by
  by_cases h : n.isValidChar
  · exact .inl (toNat_ofNat_of_isValidChar h)
  · rw [Char.ofNat, dif_neg h]
    exact .inr rfl

theorem toNat_of_mem_start {b : UInt8} {c : Char} (h : some c ∈ (start b).1) :
    c.toNat = b.toNat := by
  unfold start at h
  simp only at h
  repeat' split at h
  all_goals
    simp only [List.mem_singleton, List.not_mem_nil, reduceCtorEq, Option.some.injEq] at h
  subst h
  exact toNat_ofNat_of_isValidChar (.inl (by omega))

/-- Damaged bytes never decode to an ASCII character other than the null character. -/
theorem Unfinished.BeyondAscii.not_ascii {u : Unfinished} (h : u.BeyondAscii) {b : UInt8}
    {c : Char} (hc : some c ∈ (u.next b).1) :
    c.toNat = 0 ∨ 0x80 ≤ c.toNat := by
  obtain ⟨hlo, hvalue⟩ := h
  unfold Unfinished.next at hc
  simp only at hc
  split at hc
  · rw [List.mem_singleton, Option.some.injEq] at hc
    have hcode := toNat_ofNat_cases (u.value * 64 + (b.toNat - 0x80))
    rw [← hc] at hcode
    omega
  · exact absurd hc List.not_mem_nil

/-- An ASCII character is only ever read from the byte that it is. -/
theorem mem_of_mem_scan {state : Option Unfinished}
    (hstate : ∀ u, state = some u → u.BeyondAscii) {c : Char} (hpos : 0 < c.toNat)
    (hc : c.toNat < 0x80) {bytes : Bytes} (h : some c ∈ scan state bytes) :
    ∃ b ∈ bytes, c.toNat = b.toNat := by
  induction bytes generalizing state with
  | nil => cases state <;> simp [scan] at h
  | cons x bytes ih =>
    have hlater {next : Option Unfinished} (hnext : ∀ u, next = some u → u.BeyondAscii)
        (hmem : some c ∈ scan next bytes) : ∃ b ∈ x :: bytes, c.toNat = b.toNat := by
      obtain ⟨b, hb, hcode⟩ := ih hnext hmem
      exact ⟨b, List.mem_cons_of_mem x hb, hcode⟩
    have hfirst (hmem : some c ∈ scan none (x :: bytes)) :
        ∃ b ∈ x :: bytes, c.toNat = b.toNat := by
      rw [scan, List.mem_append] at hmem
      rcases hmem with hmem | hmem
      · exact ⟨x, List.mem_cons_self, toNat_of_mem_start hmem⟩
      · exact hlater (fun u hu => beyondAscii_start hu) hmem
    cases state with
    | none => exact hfirst h
    | some u =>
      have hu := hstate u rfl
      cases hx : u.accepts x with
      | true =>
        rw [scan_accepted hx, List.mem_append] at h
        rcases h with h | h
        · have := hu.not_ascii h
          omega
        · exact hlater (fun v hv => hu.next hx hv) h
      | false =>
        rw [scan_refused hx] at h
        exact hfirst ((List.mem_cons.mp h).resolve_left (by simp))

/-- A byte of ASCII stands for itself, whatever the bytes around it. -/
theorem lossy_append_ascii (before : Bytes) {b : UInt8} (hb : b.toNat < 0x80) (after : Bytes) :
    lossy (before ++ b :: after) = lossy before ++ Char.ofNat b.toNat :: lossy after := by
  unfold lossy
  rw [scan_append_ascii (by simp) before hb after, List.map_append, List.map_cons]
  rfl

/-- An ASCII character is in the text where its byte is in the bytes, and nowhere else. -/
theorem mem_lossy_iff {b : UInt8} (hpos : 0 < b.toNat) (hb : b.toNat < 0x80) {bytes : Bytes} :
    Char.ofNat b.toNat ∈ lossy bytes ↔ b ∈ bytes := by
  have hcode : (Char.ofNat b.toNat).toNat = b.toNat :=
    toNat_ofNat_of_isValidChar (.inl (by omega))
  constructor
  · intro h
    obtain ⟨item, hitem, heq⟩ := List.mem_map.mp h
    cases item with
    | none =>
      have : (Char.ofNat b.toNat).toNat = 0xFFFD := by rw [← heq]; rfl
      omega
    | some c =>
      obtain rfl : c = Char.ofNat b.toNat := heq
      obtain ⟨x, hx, hx'⟩ := mem_of_mem_scan (by simp) (by omega) (by omega) hitem
      rwa [UInt8.toNat_inj.mp (hcode.symm.trans hx')]
  · intro h
    obtain ⟨before, after, rfl⟩ := List.append_of_mem h
    rw [lossy_append_ascii before hb after]
    exact List.mem_append_right _ List.mem_cons_self

end Text.Utf8

/-! ## Extensions of paths -/

namespace Path

/-- The byte of the dot before an extension. -/
def period : UInt8 := 0x2E

variable {p : Path}

/-- So the dots of a text are those of its bytes. -/
theorem period_mem_lossy_iff {bytes : Bytes} : '.' ∈ Text.Utf8.lossy bytes ↔ period ∈ bytes :=
  Text.Utf8.mem_lossy_iff (b := period) (by decide) (by decide)

theorem slash_mem_lossy_iff {bytes : Bytes} : '/' ∈ Text.Utf8.lossy bytes ↔ slash ∈ bytes :=
  Text.Utf8.mem_lossy_iff (b := slash) (by decide) (by decide)

/-- The extension is what stands after the last dot. -/
theorem extension_of_last_period {stem ext : Bytes} (h : p.bytes = stem ++ period :: ext)
    (hext : period ∉ ext) : p.extension = String.ofList (Text.Utf8.lossy ext) := by
  have htext : Text.Utf8.lossy p.bytes = Text.Utf8.lossy stem ++ '.' :: Text.Utf8.lossy ext := by
    rw [h]
    exact Text.Utf8.lossy_append_ascii stem (by decide) ext
  have hlast : '.' ∉ Text.Utf8.lossy ext := by
    rwa [period_mem_lossy_iff]
  rw [extension, htext, Text.afterLast_append_sep hlast]

theorem extension_of_no_period (h : period ∉ p.bytes) : p.extension = p.text := by
  have hnone : '.' ∉ Text.Utf8.lossy p.bytes := by
    rwa [period_mem_lossy_iff]
  rw [extension, Text.afterLast_of_notMem hnone, text]

end Path

/-! ## Files that are checked -/

namespace Rules

variable {rules : Rules} {p : Path}

theorem isCheckable_iff : rules.isCheckable p = true ↔ p.extension ∈ rules.extensions := by
  simp [isCheckable]

/-- A checked extension is in the name of the file: after the last slash there is a dot, and after
    that the extension. -/
theorem exists_name_of_isCheckable (hp : p.isAbsolute = true)
    (hext : ∀ ext ∈ rules.extensions, '/' ∉ ext.toList) (h : rules.isCheckable p = true) :
    ∃ dir stem ext, p.bytes = dir ++ Path.slash :: (stem ++ Path.period :: ext) ∧
      Path.slash ∉ stem ∧ Path.slash ∉ ext ∧ Path.period ∉ ext ∧
      String.ofList (Text.Utf8.lossy ext) ∈ rules.extensions := by
  have hmem := isCheckable_iff.mp h
  have hslash : Path.slash ∈ p.bytes := by
    obtain ⟨rest, hbytes⟩ := Path.isAbsolute_iff.mp hp
    rw [hbytes]
    exact List.mem_cons_self
  by_cases hperiod : Path.period ∈ p.bytes
  · obtain ⟨front, ext, hbytes, hlast⟩ := Text.exists_last_sep hperiod
    rw [Path.extension_of_last_period hbytes hlast] at hmem
    have hfree : Path.slash ∉ ext := by
      intro hin
      apply hext _ hmem
      rwa [String.toList_ofList, Path.slash_mem_lossy_iff]
    have hfront : Path.slash ∈ front := by
      rw [hbytes, List.mem_append, List.mem_cons] at hslash
      rcases hslash with hfront | heq | hin
      · exact hfront
      · exact absurd heq (by decide)
      · exact absurd hin hfree
    obtain ⟨dir, stem, rfl, hstem⟩ := Text.exists_last_sep hfront
    exact ⟨dir, stem, ext, by simp [hbytes], hstem, hfree, hlast, hmem⟩
  · -- without a dot the whole path is the extension, and it starts with a slash
    rw [Path.extension_of_no_period hperiod] at hmem
    have hin : '/' ∈ p.text.toList := by
      rwa [Path.text, String.toList_ofList, Path.slash_mem_lossy_iff]
    exact absurd hin (hext _ hmem)

/-- The extension of a path is the text of its bytes after the last dot, or of all of them if there
    is no dot. So a file at an absolute path is checked exactly if its name, which is what comes
    after the last slash, has a dot in it and the text after the last one is an extension to check. -/
theorem isCheckable_exact (p : Path) :
    (∀ stem ext, p.bytes = stem ++ Path.period :: ext → Path.period ∉ ext →
      p.extension = String.ofList (Text.Utf8.lossy ext)) ∧
    (Path.period ∉ p.bytes → p.extension = String.ofList (Text.Utf8.lossy p.bytes)) ∧
    ∀ rules : Rules, p.isAbsolute = true → (∀ ext ∈ rules.extensions, '/' ∉ ext.toList) →
      (rules.isCheckable p = true ↔
        ∃ dir stem ext, p.bytes = dir ++ Path.slash :: (stem ++ Path.period :: ext) ∧
          Path.slash ∉ stem ∧ Path.slash ∉ ext ∧ Path.period ∉ ext ∧
          String.ofList (Text.Utf8.lossy ext) ∈ rules.extensions) := by
  refine ⟨fun stem ext => Path.extension_of_last_period, Path.extension_of_no_period, ?_⟩
  intro rules hp hext
  constructor
  · exact exists_name_of_isCheckable hp hext
  · rintro ⟨dir, stem, ext, hbytes, _, _, hlast, hmem⟩
    have hcut : p.bytes = (dir ++ Path.slash :: stem) ++ Path.period :: ext := by
      rw [hbytes]
      simp
    rw [isCheckable_iff, Path.extension_of_last_period hcut hlast]
    exact hmem

/-- A dot in the middle of a damaged part, below a directory with a dot and another damaged part in
    its name. -/
theorem isCheckable_exact_damaged :
    let rules : Rules := ⟨["rs", "r\ufffd"], [], [], ""⟩
    let p : Path := ⟨[0x2F, 0x61, 0x2E, 0x78, 0xE2, 0x82, 0x2F, 0xF0, 0x9F, 0x2E, 0x72, 0x98]⟩
    p.isAbsolute = true ∧ (∀ ext ∈ rules.extensions, '/' ∉ ext.toList) ∧
      p.extension = "r\ufffd" ∧ rules.isCheckable p = true := by
  intro rules p
  have hext : ∀ ext ∈ rules.extensions, '/' ∉ ext.toList := by simp [rules]
  obtain ⟨hlast, _, hcheck⟩ := isCheckable_exact p
  have hextension : p.extension = "r\ufffd" :=
    hlast [0x2F, 0x61, 0x2E, 0x78, 0xE2, 0x82, 0x2F, 0xF0, 0x9F] [0x72, 0x98] rfl (by decide)
  refine ⟨rfl, hext, hextension, (hcheck rules rfl hext).mpr ?_⟩
  exact ⟨[0x2F, 0x61, 0x2E, 0x78, 0xE2, 0x82], [0xF0, 0x9F], [0x72, 0x98], rfl, by decide,
    by decide, by decide, by decide +kernel⟩

/-- The name of a directory has an extension, and the file in it has none. -/
example : (⟨["rs"], [], [], ""⟩ : Rules).isCheckable
    ⟨[0x2F, 0x61, 0x2E, 0x72, 0x73, 0x2F, 0x62]⟩ = false := by
  decide +kernel

end Rules

end DocLint
